import CLibs.TsDemuxer
import CLibs.TsMapRoundTrip

/-!
# PES headers, written and read

`pes_write_header` leaves the length field to its caller, which fills it in when it knows how long
the packet is; `pes_read_header` takes from it what the header itself has used.
-/

namespace CLibs.MpegTs

variable {Cell : Type}

/-! ## Time stamps -/

theorem shiftLeft_lor {high low width : Nat} (small : low < 2 ^ width) :
    high <<< width ||| low = high * 2 ^ width + low := by
  rw [← Nat.shiftLeft_add_eq_or_of_lt small, Nat.shiftLeft_eq]

theorem bits_natCast (time low width : Nat) :
    bits (time : Int) low width = time / 2 ^ low % 2 ^ width := by
  unfold bits
  have quotient : (time : Int) / 2 ^ low % 2 ^ width = ((time / 2 ^ low % 2 ^ width : Nat) : Int) := by
    push_cast
    rfl
  rw [quotient, Int.toNat_natCast]

theorem fields_joined {first second third fourth fifth : Nat} (secondSmall : second < 2 ^ 8)
    (thirdSmall : third < 2 ^ 7) (fourthSmall : fourth < 2 ^ 8) (fifthSmall : fifth < 2 ^ 7) :
    first <<< 30 ||| second <<< 22 ||| third <<< 15 ||| fourth <<< 7 ||| fifth =
      first * 2 ^ 30 + (second * 2 ^ 22 + (third * 2 ^ 15 + (fourth * 2 ^ 7 + fifth))) := by
  rw [Nat.or_assoc, Nat.or_assoc, Nat.or_assoc]
  rw [shiftLeft_lor fifthSmall]
  rw [shiftLeft_lor (show fourth * 2 ^ 7 + fifth < 2 ^ 15 by omega)]
  rw [shiftLeft_lor (show third * 2 ^ 15 + (fourth * 2 ^ 7 + fifth) < 2 ^ 22 by omega)]
  rw [shiftLeft_lor
    (show second * 2 ^ 22 + (third * 2 ^ 15 + (fourth * 2 ^ 7 + fifth)) < 2 ^ 30 by omega)]

theorem timestamp_joined {time : Nat} (small : time < 2 ^ 33) :
    (time / 2 ^ 30 % 2 ^ 3) <<< 30 ||| (time / 2 ^ 22 % 2 ^ 8) <<< 22 |||
        (time / 2 ^ 15 % 2 ^ 7) <<< 15 ||| (time / 2 ^ 7 % 2 ^ 8) <<< 7 ||| time / 2 ^ 0 % 2 ^ 7 =
      time := by
  rw [fields_joined (Nat.mod_lt _ (by decide)) (Nat.mod_lt _ (by decide))
    (Nat.mod_lt _ (by decide)) (Nat.mod_lt _ (by decide))]
  omega

variable {marker : UInt8}

theorem first_field (marks : marker = 0x10 ∨ marker = 0x20 ∨ marker = 0x30) {high : Nat}
    (small : high < 8) :
    (((marker ||| UInt8.ofNat (high <<< 1) ||| 0x01) >>> 1) &&& 0x07).toNat = high := by
  have table : ∀ high < 8, ∀ marker ∈ ([0x10, 0x20, 0x30] : List UInt8),
      (((marker ||| UInt8.ofNat (high <<< 1) ||| 0x01) >>> 1) &&& 0x07).toNat = high := by
    decide +kernel
  exact table high small marker (by simpa using marks)

theorem marked_field {field : Nat} (small : field < 128) :
    (((UInt8.ofNat (field <<< 1) ||| 0x01) >>> 1) &&& 0x7F).toNat = field := by
  have table : ∀ field < 128,
      (((UInt8.ofNat (field <<< 1) ||| 0x01) >>> 1) &&& 0x7F).toNat = field := by
    decide +kernel
  exact table field small

variable {data rest : List UInt8}

theorem timestampAt_written {i : Nat} {time : Int}
    (marks : marker = 0x10 ∨ marker = 0x20 ∨ marker = 0x30) (start : 0 ≤ time)
    (small : time < 2 ^ 33) (written : data.drop i = timestampBytes marker time ++ rest) :
    timestampAt data i = .ok time := by
  obtain ⟨value, rfl⟩ := Int.eq_ofNat_of_zero_le start
  have bound : value < 2 ^ 33 := by omega
  have first : byteAt data i = .ok (marker ||| UInt8.ofNat (bits value 30 3 <<< 1) ||| 0x01) := by
    have shifted := byteAt_shift data i 0
    rw [written] at shifted
    exact shifted
  unfold timestampAt
  rw [first, byteAt_shift data i 1, byteAt_shift data i 2, byteAt_shift data i 3,
    byteAt_shift data i 4, written]
  change Except.ok (Int.ofNat _) = Except.ok (Int.ofNat value)
  congr 2
  simp only [bits_natCast]
  rw [first_field marks (by omega), marked_field (by omega), marked_field (by omega),
    toNat_ofNat (by omega), toNat_ofNat (by omega)]
  exact timestamp_joined bound

theorem markedTimestamp_written {i : Nat} {mark : UInt8} {time : Int} (before : Int)
    (marks : marker = 0x10 ∨ marker = 0x20 ∨ marker = 0x30)
    (agree : ∀ high < 8, (marker ||| UInt8.ofNat (high <<< 1) ||| 0x01) &&& mark = mark)
    (start : 0 ≤ time) (small : time < 2 ^ 33)
    (written : data.drop i = timestampBytes marker time ++ rest) :
    markedTimestamp data true i mark before = .ok time := by
  have first : byteAt data i = .ok (marker ||| UInt8.ofNat (bits time 30 3 <<< 1) ||| 0x01) := by
    have shifted := byteAt_shift data i 0
    rw [written] at shifted
    exact shifted
  have high : bits time 30 3 < 8 := by
    unfold bits
    omega
  unfold markedTimestamp
  rw [if_pos rfl, first, ok_bind, check_eq (agree _ high), ok_bind]
  exact timestampAt_written marks start small written

/-! ## Reading -/

theorem pesReadHeader_reads {sid marks flags headerLength : UInt8} {len : Nat} {times : Int × Int}
    (pes : Pes Cell) (opened : spells data 0 [0x00, 0x00, 0x01] = .ok true)
    (streamed : byteAt data 3 = .ok sid) (sized : fieldAt data 4 0xFF = .ok len)
    (marked : byteAt data 6 = .ok marks) (valid : (marks >>> 6) &&& 0x3 = 0x02)
    (flagged : byteAt data 7 = .ok flags) (measured : byteAt data 8 = .ok headerLength)
    (inside : headerLength.toNat + 9 ≤ data.length)
    (timed : pesReadOptions pes data flags = .ok times) :
    pesReadHeader pes data =
      .ok ({ pesHeading pes sid
              (if len > 0 then (len + 2 ^ 32 - (headerLength.toNat + 3)) % 2 ^ 32 else len) marks with
              pts := times.1, dts := times.2 }, headerLength.toNat + 9) := by
  unfold pesReadHeader
  rw [opened, ok_bind, check_eq rfl, ok_bind, streamed, ok_bind, sized, ok_bind, marked, ok_bind,
    check_eq valid, ok_bind, flagged, ok_bind, measured, ok_bind, if_neg (by omega), timed, ok_bind]
  rfl

def alignmentByte (aligned : Bool) : UInt8 := if aligned then 0x80 ||| 0x04 else 0x80

theorem alignmentByte_marks (aligned : Bool) : (alignmentByte aligned >>> 6) &&& 0x3 = 0x02 := by
  cases aligned <;> decide

theorem alignmentByte_flag (aligned : Bool) : flagOf (alignmentByte aligned) 0x04 = aligned := by
  cases aligned <;> decide

theorem pesHeader_eq (pes : Pes Cell) (length : Nat) (rest : List UInt8) :
    pesHeader pes length ++ rest =
      0x00 :: 0x00 :: 0x01 :: pes.sid :: UInt8.ofNat (length >>> 8) :: UInt8.ofNat length ::
        alignmentByte pes.dataAlignmentIndicator :: ptsDtsFlags pes ::
          UInt8.ofNat (pesHeaderDataLength pes) :: (ptsBytes pes ++ (dtsBytes pes ++ rest)) := by
  simp only [pesHeader, pesHeaderTail, alignmentByte, List.append_assoc]
  rfl

/-- The time stamps of a unit that may be written and can be read again. -/
structure Timed (pes : Pes Cell) : Prop where
  ptsStart : 0 ≤ pes.pts
  ptsSmall : pes.pts < 2 ^ 33
  dtsStart : 0 ≤ pes.dts
  dtsSmall : pes.dts < 2 ^ 33
  distinct : pes.dts ≠ pes.pts → pes.sid = pesSidVideo

section

variable {pes : Pes Cell}

theorem Timed.pts_value (timed : Timed pes) : pes.pts ≠ ptsNoValue := by
  have start := timed.ptsStart
  unfold ptsNoValue
  omega

theorem Timed.dts_value (timed : Timed pes) : pes.dts ≠ ptsNoValue := by
  have start := timed.dtsStart
  unfold ptsNoValue
  omega

theorem Timed.allowed (timed : Timed pes) : TimestampsAllowed pes := by
  by_cases same : pes.dts = pes.pts
  · exact .inr (.inl same.symm)
  · exact .inr (.inr (timed.distinct same))

theorem Timed.flags (timed : Timed pes) :
    ptsDtsFlags pes = if pes.dts = pes.pts then 0x80 else 0xC0 := by
  unfold ptsDtsFlags
  rw [if_pos timed.pts_value]
  by_cases same : pes.dts = pes.pts
  · rw [if_neg fun different => different.2 same, if_pos same]
    rfl
  · rw [if_pos ⟨timed.dts_value, same⟩, if_neg same]
    rfl

theorem pesReadOptions_written (timed : Timed pes) (other : Pes Cell)
    (written : data.drop 9 = ptsBytes pes ++ (dtsBytes pes ++ rest)) :
    pesReadOptions other data (ptsDtsFlags pes) = .ok (pes.pts, pes.dts) := by
  unfold ptsBytes dtsBytes at written
  rw [timed.flags] at written ⊢
  by_cases same : pes.dts = pes.pts
  · rw [if_pos same] at written ⊢
    have ptsRead : markedTimestamp data true 9 0x20 other.pts = .ok pes.pts :=
      markedTimestamp_written other.pts (.inr (.inl rfl)) (by decide) timed.ptsStart timed.ptsSmall
        written
    change (markedTimestamp data true 9 0x20 other.pts >>= fun pts => Except.ok (pts, pts)) = _
    rw [ptsRead, ok_bind, same]
  · rw [if_neg same] at written ⊢
    have ptsRead : markedTimestamp data true 9 0x20 other.pts = .ok pes.pts :=
      markedTimestamp_written other.pts (.inr (.inr rfl)) (by decide) timed.ptsStart timed.ptsSmall
        written
    have behind : data.drop 14 = timestampBytes 0x10 pes.dts ++ rest := by
      rw [show 14 = 9 + 5 from rfl, ← List.drop_drop, written]
      rfl
    have dtsRead : markedTimestamp data true 14 0x10 pes.pts = .ok pes.dts :=
      markedTimestamp_written pes.pts (.inl rfl) (by decide) timed.dtsStart timed.dtsSmall behind
    change (markedTimestamp data true 9 0x20 other.pts >>= fun pts =>
      markedTimestamp data true 14 0x10 pts >>= fun dts => Except.ok (pts, dts)) = _
    rw [ptsRead, ok_bind, dtsRead, ok_bind]

theorem lengthField_read {length : Nat} (small : length < 2 ^ 16) :
    (UInt8.ofNat (length >>> 8) &&& 0xFF).toNat <<< 8 ||| (UInt8.ofNat length).toNat = length := by
  have low : (UInt8.ofNat length).toNat < 2 ^ 8 := UInt8.toNat_lt _
  have high : (UInt8.ofNat (length >>> 8) &&& 0xFF).toNat = length / 2 ^ 8 := by
    rw [UInt8.toNat_and, Nat.shiftRight_eq_div_pow, UInt8.toNat_ofNat]
    change length / 2 ^ 8 % 2 ^ 8 &&& 2 ^ 8 - 1 = _
    rw [Nat.and_two_pow_sub_one_eq_mod]
    omega
  have rest : (UInt8.ofNat length).toNat = length % 2 ^ 8 := rfl
  rw [shiftLeft_lor low, high, rest]
  omega

theorem pesReadHeader_written (timed : Timed pes) (other : Pes Cell) {length : Nat}
    (small : length < 2 ^ 16) (rest : List UInt8) :
    pesReadHeader other (pesHeader pes length ++ rest) =
      .ok ({ other with
        sid := pes.sid
        len := if length > 0 then (length + 2 ^ 32 - (pesHeaderDataLength pes + 3)) % 2 ^ 32
          else length
        dataAlignmentIndicator := pes.dataAlignmentIndicator
        pts := pes.pts
        dts := pes.dts }, 9 + pesHeaderDataLength pes) := by
  have short := pesHeaderDataLength_le pes
  have whole := timestamps_length pes
  have measured : (UInt8.ofNat (pesHeaderDataLength pes)).toNat = pesHeaderDataLength pes :=
    toNat_ofNat (by omega)
  rw [pesHeader_eq]
  have sized : fieldAt (0x00 :: 0x00 :: 0x01 :: pes.sid :: UInt8.ofNat (length >>> 8) ::
      UInt8.ofNat length :: alignmentByte pes.dataAlignmentIndicator :: ptsDtsFlags pes ::
        UInt8.ofNat (pesHeaderDataLength pes) :: (ptsBytes pes ++ (dtsBytes pes ++ rest))) 4 0xFF =
      .ok length := congrArg Except.ok (lengthField_read small)
  rw [pesReadHeader_reads other rfl rfl sized rfl (alignmentByte_marks _) rfl rfl
    (by simp only [measured, List.length_cons, List.length_append]; omega)
    (pesReadOptions_written timed other rfl), measured, pesHeading, alignmentByte_flag,
    Nat.add_comm 9]

/-! ## The round trip -/

def bufferOf (before : List UInt8) : Buffer UInt8 := (Buffer.alloc before.length).written 0 before

theorem bufferOf_holds (before : List UInt8) : (bufferOf before).Holds 0 before :=
  Buffer.written_holds _ before (by simp)

theorem pesWriteHeader_stands (allowed : TimestampsAllowed pes) {before : List UInt8}
    (room : 19 ≤ before.length) :
    ∃ written, pesWriteHeader pes (bufferOf before) 0 before.length =
        .ok (written, 9 + pesHeaderDataLength pes) ∧
      ∀ length, ∃ stored, written.store 4 (nboW16 length) = .ok stored ∧
        stored.contents =
          .ok (pesHeader pes length ++ before.drop (9 + pesHeaderDataLength pes)) := by
  have short := pesHeaderDataLength_le pes
  have size : (bufferOf before).size = before.length := rfl
  have split : before = before.take (9 + pesHeaderDataLength pes) ++
      before.drop (9 + pesHeaderDataLength pes) := (List.take_append_drop _ _).symm
  have rest : (bufferOf before).Holds (9 + pesHeaderDataLength pes)
      (before.drop (9 + pesHeaderDataLength pes)) := by
    have parts := bufferOf_holds before
    rw [split] at parts
    have behind := (Buffer.holds_append.mp parts).2
    rw [← split, List.length_take, Nat.min_eq_left (by omega), Nat.zero_add] at behind
    exact behind
  obtain ⟨⟨written, h⟩, returned, sized, rfl, start, tail, frame⟩ :=
    @pesWriteHeader_yields Cell pes allowed (bufferOf before) 0 before.length (by omega) room
  have kept := frame _ _ rest (.inr (by omega))
  refine ⟨written, returned, fun length => ?_⟩
  dsimp only at sized start tail kept
  have fits : 4 + (nboW16 length).length ≤ written.size := by
    rw [nboW16_length]
    omega
  refine ⟨_, Buffer.store_eq fits, ?_⟩
  have headed := start.extend (nboW16 length) rfl fits
  have tailed : (written.written 4 (nboW16 length)).Holds (0 + 6) (pesHeaderTail pes) :=
    tail.written (.inr (by simp))
  have kept : (written.written 4 (nboW16 length)).Holds (9 + pesHeaderDataLength pes)
      (before.drop (9 + pesHeaderDataLength pes)) := kept.written (.inr (by simp; omega))
  have header := headed.append tailed rfl
  have tailLength := pesHeaderTail_length pes
  have everything := header.append kept (by simp [tailLength]; omega)
  exact everything.contents_eq (by simp [tailLength]; omega)

/-- The header of a unit with time stamps of 33 bits, which differ in video only, is read as it
was written, with every length field. -/
theorem pes_header_round_trip (timed : Timed pes) (other : Pes Cell) {before : List UInt8}
    (room : 19 ≤ before.length) {length : Nat} (small : length < 2 ^ 16) :
    ∃ written stored data h result,
      pesWriteHeader pes (bufferOf before) 0 before.length = .ok (written, h) ∧
      written.store 4 (nboW16 length) = .ok stored ∧ stored.contents = .ok data ∧
      pesReadHeader other data = .ok (result, h) ∧
      result.sid = pes.sid ∧ result.pts = pes.pts ∧ result.dts = pes.dts ∧
      result.dataAlignmentIndicator = pes.dataAlignmentIndicator ∧
      (h - 6 ≤ length → result.len = length - (h - 6)) ∧ (length = 0 → result.len = 0) := by
  obtain ⟨written, returned, stands⟩ := pesWriteHeader_stands timed.allowed room
  obtain ⟨stored, filled, contents⟩ := stands length
  have short := pesHeaderDataLength_le pes
  refine ⟨written, stored, _, _, _, returned, filled, contents,
    pesReadHeader_written timed other small _, rfl, rfl, rfl, rfl, ?_, ?_⟩
  · intro long
    dsimp only
    rw [if_pos (by omega)]
    omega
  · rintro rfl
    rfl

end

/-- Video with two time stamps, and a length field that covers the header and a payload of
seven bytes. -/
theorem pes_header_round_trip_video :
    ∃ written stored data h result,
      pesWriteHeader { Pes.zero UInt8 with sid := pesSidVideo, pts := 2 ^ 33 - 1, dts := 90000 }
        (bufferOf (List.replicate 19 0xFF)) 0 (List.replicate 19 (0xFF : UInt8)).length =
          .ok (written, h) ∧
      written.store 4 (nboW16 20) = .ok stored ∧ stored.contents = .ok data ∧
      pesReadHeader (Pes.zero UInt8) data = .ok (result, h) ∧
      result.sid = pesSidVideo ∧ result.pts = 2 ^ 33 - 1 ∧ result.dts = 90000 ∧
      result.dataAlignmentIndicator = false ∧
      (h - 6 ≤ 20 → result.len = 20 - (h - 6)) ∧ (20 = 0 → result.len = 0) :=
  @pes_header_round_trip UInt8
    { Pes.zero UInt8 with sid := pesSidVideo, pts := 2 ^ 33 - 1, dts := 90000 }
    ⟨by decide, by decide, by decide, by decide, fun _ => rfl⟩ (Pes.zero UInt8)
    (List.replicate 19 0xFF) (by decide) 20 (by decide)

end CLibs.MpegTs
