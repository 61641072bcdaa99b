import CLibs.TsPesLayout

/-!
# Packets of an elementary stream

The stuffing that fills up a packet whose payload is short, and what one round
of `ts_write_pes` hands over: a transport packet with its header, an adaptation
field, the headers of a unit if it starts one, and a piece of the payload.
-/

namespace CLibs.MpegTs

open List

variable {Cell : Type}

/-! ## Stuffing -/

/-- An adaptation field of `stuffing` bytes, its length byte included, that
holds nothing. -/
def stuffingField : Nat → List UInt8
  | 0 => []
  | 1 => []
  | count + 2 => 0 :: List.replicate count 0xFF

theorem stuffingField_length (stuffing : Nat) :
    (stuffingField stuffing).length = stuffing - 1 := by
  match stuffing with
  | 0 => rfl
  | 1 => rfl
  | count + 2 => simp [stuffingField]

variable {start : Bool} {header p : Nat} {data : Buffer UInt8} {unit : List UInt8}

theorem tsMoveHeader_yields {bytes : Nat} {front : List UInt8} (size : data.size = tsPacketSize)
    (ends : header = front.length) (behind : p = header + unit.length)
    (short : p + bytes ≤ tsPacketSize) (starts : unit ≠ [] → start = true)
    (holds : data.Holds 0 (front ++ unit)) :
    Yields (tsMoveHeader start header p bytes data) fun next => next.size = tsPacketSize ∧
      next.Holds 0 front ∧ next.Holds (header + (tsPacketSize - (p + bytes))) unit := by
  have packet : tsPacketSize = 188 := rfl
  obtain ⟨left, right⟩ := Buffer.holds_append.mp holds
  rw [Nat.zero_add, ← ends] at right
  have width : p - header = unit.length := by omega
  have target : tsPacketSize - bytes - (p - header) =
      header + (tsPacketSize - (p + bytes)) := by omega
  unfold tsMoveHeader
  rw [target, width]
  apply Yields.ite
  · intro moves
    apply Yields.step (check_eq (starts (ne_nil_of_length_pos moves)))
    refine ⟨_, Buffer.move_eq (by omega) (by omega), size, ?_, ?_⟩
    · exact left.moved_outside (.inl (by omega))
    · exact right.moved_target rfl (by omega)
  · intro stays
    have empty : unit = [] := eq_nil_of_length_eq_zero (by omega)
    subst empty
    exact Yields.pure ⟨size, left, Buffer.holds_nil (by omega)⟩

variable {first second third : UInt8} {stuffing : Nat}

theorem tsGrowAdaptation_yields {control flags : UInt8} {held : List UInt8}
    (size : data.size = tsPacketSize) (flagged : flags ≠ 0)
    (short : held.length + 6 + stuffing + unit.length ≤ tsPacketSize)
    (holds : data.Holds 0 ([first, second, third, control] ++ fieldBytes (some (flags :: held))))
    (above : data.Holds (held.length + 6 + stuffing) unit) :
    Yields (tsGrowAdaptation stuffing data) fun next => next.size = tsPacketSize ∧
      next.Holds 0 ([first, second, third, control] ++
        fieldBytes (some (flags :: held ++ List.replicate stuffing 0xFF)) ++ unit) := by
  have packet : tsPacketSize = 188 := rfl
  have lengthByte : (UInt8.ofNat (flags :: held).length).toNat = held.length + 1 :=
    toNat_ofNat (by simp only [length_cons]; omega)
  apply Yields.step (holds.load_eq (Nat.zero_le 5) rfl)
  apply Yields.step (holds.load_eq (Nat.zero_le 4) rfl)
  have positive : UInt8.ofNat (flags :: held).length > 0 := by
    rw [gt_iff_lt, UInt8.lt_iff_toNat_lt, lengthByte]
    exact Nat.succ_pos _
  apply Yields.step (check_eq ⟨flagged, positive⟩)
  apply Yields.step (holds.load_eq (Nat.zero_le 4) rfl)
  have target : tsHeaderLen + 1 + (UInt8.ofNat (flags :: held).length).toNat =
      held.length + 6 := by
    rw [lengthByte]
    unfold tsHeaderLen
    omega
  rw [target]
  have room : held.length + 6 + (List.replicate stuffing (0xFF : UInt8)).length ≤ data.size := by
    rw [length_replicate]
    omega
  apply Yields.step (Buffer.store_eq room)
  have filled := holds.extend (List.replicate stuffing 0xFF) (show held.length + 6 = _ by simp) room
  have closed := filled.append (above.written (.inr (by simp))) (by simp; omega)
  refine ⟨_, closed.modify_eq (Nat.zero_le 4) rfl, size, ?_⟩
  have grown : UInt8.ofNat (flags :: held).length + UInt8.ofNat stuffing =
      UInt8.ofNat (flags :: held ++ List.replicate stuffing 0xFF).length := by
    rw [← UInt8.ofNat_add, length_append, length_replicate]
  have final := closed.set_cell (UInt8.ofNat (flags :: held).length + UInt8.ofNat stuffing)
    (Nat.zero_le 4)
  simp only [fieldBytes, Option.elim, ← grown]
  exact final

theorem lt_ofNat_iff {low value : Nat} (below : low < 256) (small : value < 256) :
    UInt8.ofNat value > UInt8.ofNat low ↔ low < value := by
  rw [gt_iff_lt, UInt8.lt_iff_toNat_lt, toNat_ofNat small, toNat_ofNat below]

theorem tsFillAdaptation_yields {header : List UInt8} (size : data.size = tsPacketSize)
    (four : header.length = 4) (some : 0 < stuffing) (short : 4 + stuffing ≤ tsPacketSize)
    (holds : data.Holds 0 (header ++ [UInt8.ofNat (stuffing - 1)])) :
    Yields (tsFillAdaptation stuffing data) fun next => next.size = tsPacketSize ∧
      next.Holds 0 (header ++ fieldBytes (.some (stuffingField stuffing))) ∧
      ∀ unit, data.Holds (4 + stuffing) unit → next.Holds (4 + stuffing) unit := by
  have packet : tsPacketSize = 188 := rfl
  have lengthByte : data.load 4 = .ok (UInt8.ofNat (stuffing - 1)) :=
    holds.load_eq (Nat.zero_le 4) (by simp [four])
  apply Yields.step lengthByte
  match stuffing with
  | 1 =>
    have unflagged : data.storeIf (UInt8.ofNat (1 - 1) > 0) 5 [0] = .ok data := if_neg (by decide)
    apply Yields.step unflagged
    apply Yields.step lengthByte
    exact ⟨data, if_neg (by decide), size, holds, fun _ held => held⟩
  | count + 2 =>
    have flagRoom : 5 + [(0 : UInt8)].length ≤ data.size := by rw [size]; decide
    have positive : UInt8.ofNat (count + 2 - 1) > UInt8.ofNat 0 :=
      (lt_ofNat_iff (by decide) (by omega)).mpr (by omega)
    have flagged : data.storeIf (UInt8.ofNat (count + 2 - 1) > 0) 5 [0] =
        .ok (data.written 5 [0]) := (if_pos positive).trans (Buffer.store_eq flagRoom)
    apply Yields.step flagged
    have emptied := holds.extend [0] (show 5 = _ by simp [four]) flagRoom
    have again : (data.written 5 [0]).load 4 = .ok (UInt8.ofNat (count + 2 - 1)) :=
      emptied.load_eq (Nat.zero_le 4) (by simp [four])
    apply Yields.step again
    have fillRoom : 6 + (List.replicate count (0xFF : UInt8)).length ≤
        (data.written 5 [0]).size := by
      rw [length_replicate, Buffer.written_size]
      omega
    have filled := emptied.extend (List.replicate count 0xFF) (show 6 = _ by simp [four]) fillRoom
    have shape : header ++ fieldBytes (.some (stuffingField (count + 2))) =
        header ++ [UInt8.ofNat (count + 2 - 1)] ++ [0] ++ List.replicate count 0xFF := by
      simp [fieldBytes, stuffingField]
    rw [shape]
    rcases Nat.eq_zero_or_pos count with none | more
    · subst none
      refine ⟨data.written 5 [0], if_neg (by decide), size, ?_, fun unit held => ?_⟩
      · rw [replicate_zero, append_nil]
        exact emptied
      · exact held.written (.inr (by simp))
    · have long : UInt8.ofNat (count + 2 - 1) > UInt8.ofNat 1 :=
        (lt_ofNat_iff (by decide) (by omega)).mpr (by omega)
      refine ⟨_, (if_pos long).trans (Buffer.store_eq fillRoom), size, filled,
        fun unit held => ?_⟩
      exact (held.written (.inr (by simp; omega))).written (.inr (by simp; omega))

variable {cc : Nat}

theorem tsMakeAdaptation_yields (size : data.size = tsPacketSize) (some : 0 < stuffing)
    (short : 4 + stuffing + unit.length ≤ tsPacketSize)
    (holds : data.Holds 0 [first, second, third, controlByte cc false])
    (above : data.Holds (4 + stuffing) unit) :
    Yields (tsMakeAdaptation stuffing data) fun next => next.size = tsPacketSize ∧
      next.Holds 0 ([first, second, third, controlByte cc true] ++
        fieldBytes (.some (stuffingField stuffing)) ++ unit) := by
  obtain ⟨-, -, marks, -⟩ := controlByte_flag cc
  apply Yields.step (holds.modify_eq (Nat.zero_le 3) rfl)
  rw [marks]
  have announced : (data.written 3 [controlByte cc true]).Holds 0
      [first, second, third, controlByte cc true] :=
    holds.set_cell (controlByte cc true) (Nat.zero_le 3)
  have room : 4 + [UInt8.ofNat (stuffing - 1)].length ≤
      (data.written 3 [controlByte cc true]).size := by
    rw [Buffer.written_size, size]
    exact (by decide : 5 ≤ tsPacketSize)
  apply Yields.step (Buffer.store_eq room)
  have measured := announced.extend [UInt8.ofNat (stuffing - 1)] (show 4 = _ from rfl) room
  apply (tsFillAdaptation_yields (by exact size) rfl some (by omega) measured).mono
  rintro next ⟨nextSize, field, kept⟩
  refine ⟨nextSize, field.append (kept unit ?_) ?_⟩
  · exact (above.written (.inr (by simp))).written (.inr (by simp; omega))
  · simp [stuffingField_length]
    omega

theorem tsStuffAdaptation_yields {field : Option (List UInt8)} (size : data.size = tsPacketSize)
    (some : 0 < stuffing)
    (flagged : ∀ held, field = .some held → ∃ flags rest, held = flags :: rest ∧ flags ≠ 0)
    (ends : header = 4 + (fieldBytes field).length) (behind : p = header + unit.length)
    (short : p + stuffing ≤ tsPacketSize)
    (holds : data.Holds 0 ([first, second, third, controlByte cc field.isSome] ++ fieldBytes field))
    (above : data.Holds (header + stuffing) unit) :
    Yields (tsStuffAdaptation header p stuffing data) fun next => next.size = tsPacketSize ∧
      ∃ held : List UInt8, held.length + 5 = header + stuffing ∧
        next.Holds 0 ([first, second, third, controlByte cc true] ++
          fieldBytes (.some held) ++ unit) := by
  obtain ⟨clear, marked, -, -⟩ := controlByte_flag cc
  apply Yields.step (holds.load_eq (Nat.zero_le 3) rfl)
  cases field with
  | none =>
    rw [Option.isSome_none, if_neg (not_not_intro clear)]
    have plain : header = 4 := ends
    apply Yields.step (check_eq (by unfold tsHeaderLen; omega))
    subst plain
    apply (tsMakeAdaptation_yields size some (by omega) holds above).mono
    rintro next ⟨nextSize, final⟩
    exact ⟨nextSize, stuffingField stuffing, by rw [stuffingField_length]; omega, final⟩
  | some held =>
    rw [Option.isSome_some, if_pos marked]
    obtain ⟨flags, rest, rfl, nonzero⟩ := flagged held rfl
    rw [fieldBytes_some_length, length_cons] at ends
    have place : header + stuffing = rest.length + 6 + stuffing := by omega
    rw [place] at above
    apply (tsGrowAdaptation_yields size nonzero (by omega) holds above).mono
    rintro next ⟨nextSize, final⟩
    exact ⟨nextSize, flags :: rest ++ List.replicate stuffing 0xFF, by simp; omega, final⟩

theorem tsWriteStuffing_yields {field : Option (List UInt8)} {bytes : Nat}
    (size : data.size = tsPacketSize) (some : 0 < bytes)
    (flagged : ∀ held, field = .some held → ∃ flags rest, held = flags :: rest ∧ flags ≠ 0)
    (ends : header = 4 + (fieldBytes field).length) (behind : p = header + unit.length)
    (short : p < tsPacketSize) (starts : unit ≠ [] → start = true)
    (holds : data.Holds 0
      ([first, second, third, controlByte cc field.isSome] ++ fieldBytes field ++ unit)) :
    Yields (tsWriteStuffing start header p bytes data) fun result =>
      result.1.size = tsPacketSize ∧ result.2.1 + result.2.2 = tsPacketSize ∧
      0 < result.2.2 ∧ result.2.2 ≤ bytes ∧
      ∃ full, result.2.1 = 4 + (fieldBytes full).length + unit.length ∧
        result.1.Holds 0
          ([first, second, third, controlByte cc full.isSome] ++ fieldBytes full ++ unit) := by
  have packet : tsPacketSize = 188 := rfl
  apply Yields.ite
  · intro stuffed
    apply Yields.bind (tsMoveHeader_yields size (by simp; omega) behind (by omega) starts holds)
    rintro moved ⟨movedSize, front, unitHeld⟩
    apply Yields.bind (tsStuffAdaptation_yields movedSize (by omega) flagged ends behind (by omega)
      front unitHeld)
    rintro filled ⟨filledSize, held, counted, whole⟩
    apply Yields.step (whole.load_eq (Nat.zero_le 4) rfl)
    have lengthByte : (UInt8.ofNat held.length).toNat = held.length := toNat_ofNat (by omega)
    refine Yields.pure ⟨filledSize, ?_, some, Nat.le_refl _, .some held, ?_, whole⟩
    · change 5 + (UInt8.ofNat held.length).toNat + (p - header) + bytes = _
      omega
    · change 5 + (UInt8.ofNat held.length).toNat + (p - header) = _
      rw [lengthByte, fieldBytes_some_length]
      omega
  · intro full
    refine Yields.pure ⟨size, ?_, ?_, ?_, field, ?_, holds⟩
    · change p + (tsPacketSize - p) = _
      omega
    · change 0 < tsPacketSize - p
      omega
    · change tsPacketSize - p ≤ bytes
      omega
    · exact behind.trans (by rw [ends])

/-! ## The whole packet -/

theorem adaptationField_flagged (pcrPid : Nat) (stream : Pes Cell) (start : Bool) :
    ∀ held, adaptationField pcrPid stream start = some held →
      ∃ flags rest, held = flags :: rest ∧ flags ≠ 0 := by
  intro held present
  unfold adaptationField at present
  split at present
  · rename_i adapted
    refine ⟨_, _, (Option.some.inj present).symm, ?_⟩
    unfold adaptationFlags
    rcases adapted with clock | access
    · rw [if_pos clock]
      split <;> decide
    · rw [if_pos access]
      split <;> decide
  · cases present

theorem adaptationField_short (pcrPid : Nat) (stream : Pes Cell) (start : Bool) :
    (fieldBytes (adaptationField pcrPid stream start)).length ≤ 8 := by
  unfold adaptationField
  split
  · exact Nat.succ_le_succ (initialField_length pcrPid stream start)
  · exact Nat.zero_le 8

/-- The headers of a unit that its packet carries: only the first one does. -/
def unitFront (stream : Pes Cell) (withAud start : Bool) (bytes : Nat) : List UInt8 :=
  if start then unitHeader stream withAud bytes else []

variable {stream : Pes Cell}

theorem tsWritePesStart_if_yields (withAud : Bool)
    (allowed : start = true → TimestampsAllowed stream) (bytes : Nat) {more : List UInt8}
    (size : data.size = tsPacketSize) (ends : header = more.length + 2) (short : header ≤ 12)
    (holds : data.Holds 0 (0x47 :: startByte stream.pid false :: more)) :
    Yields (tsWritePesStart stream withAud start header bytes data) fun result =>
      result.1.size = tsPacketSize ∧
      result.2 = header + (unitFront stream withAud start bytes).length ∧
      result.1.Holds 0
        (0x47 :: startByte stream.pid start :: more ++ unitFront stream withAud start bytes) := by
  cases start with
  | false =>
    refine Yields.pure ⟨size, rfl, ?_⟩
    simpa only [unitFront, Bool.false_eq_true, if_false, append_nil] using holds
  | true =>
    have marked : startByte stream.pid false ||| 0x40 = startByte stream.pid true := by
      simp only [startByte, Bool.false_eq_true, if_false, if_true, UInt8.or_zero]
    have started := tsWritePesStart_yields (allowed rfl) withAud bytes size ends short holds
    rw [marked] at started
    exact started

theorem unitFront_short (stream : Pes Cell) (withAud start : Bool) (bytes : Nat) :
    (unitFront stream withAud start bytes).length ≤ 26 := by
  have dataLength := pesHeaderDataLength_le stream
  have audLength := accessUnitDelimiter_length stream.codecid withAud
  unfold unitFront
  split
  · rw [unitHeader_length]
    omega
  · exact Nat.zero_le 26

/-- The buffer with the header of a packet and a cleared adaptation field. -/
def openedPacket (stream : Pes Cell) : Buffer UInt8 :=
  (Buffer.alloc tsPacketSize).written 0
    [0x47, UInt8.ofNat ((stream.pid >>> 8) &&& 0x1F), UInt8.ofNat (stream.pid &&& 0xFF),
      UInt8.ofNat (0x10 ||| (stream.cc &&& 0x0F)), 0, 0]

theorem openedPacket_holds (stream : Pes Cell) :
    (openedPacket stream).Holds 0
      [0x47, startByte stream.pid false, UInt8.ofNat (stream.pid &&& 0xFF),
        controlByte stream.cc false, 0, 0] := by
  simp only [startByte, controlByte, Bool.false_eq_true, if_false, UInt8.or_zero]
  exact Buffer.written_holds _ _ (by simp [tsPacketSize])

theorem tsWritePesPacket_yields (pcrPid : Nat) (withAud start : Bool) {payload : List UInt8}
    (allowed : start = true → TimestampsAllowed stream) (some : payload ≠ []) :
    Yields (tsWritePesPacket pcrPid stream withAud start payload) fun result =>
      result.1.length = tsPacketSize ∧ 0 < result.2 ∧ result.2 ≤ payload.length ∧
      ∃ field, result.1 = tsPacket stream.pid stream.cc start field
        (unitFront stream withAud start payload.length ++ payload.take result.2) := by
  have packet : tsPacketSize = 188 := rfl
  have fieldShort := adaptationField_short pcrPid stream start
  have frontShort := unitFront_short stream withAud start payload.length
  apply Yields.step (Buffer.store_eq (by simp [packet]))
  apply Yields.bind (tsWriteAdaptation_yields pcrPid stream start rfl (openedPacket_holds stream))
  rintro ⟨adapted, header⟩ ⟨adaptedSize, ends, fieldHeld⟩
  replace ends : header = 4 + (fieldBytes (adaptationField pcrPid stream start)).length := ends
  apply Yields.bind (tsWritePesStart_if_yields withAud allowed payload.length adaptedSize
    (by simp; omega) (by omega) fieldHeld)
  rintro ⟨started, p⟩ ⟨startedSize, behind, unitHeld⟩
  replace behind : p = header + (unitFront stream withAud start payload.length).length := behind
  have starts : unitFront stream withAud start payload.length ≠ [] → start = true := by
    intro present
    by_contra absent
    exact present (if_neg absent)
  apply Yields.bind (tsWriteStuffing_yields startedSize (length_pos_iff.mpr some)
    (adaptationField_flagged pcrPid stream start) ends behind (by omega) starts unitHeld)
  rintro ⟨stuffed, place, len⟩ ⟨stuffedSize, whole, nonempty, fits, field, position, held⟩
  replace whole : place + len = tsPacketSize := whole
  replace position : place = 4 + (fieldBytes field).length +
      (unitFront stream withAud start payload.length).length := position
  replace nonempty : 0 < len := nonempty
  replace fits : len ≤ payload.length := fits
  replace stuffedSize : stuffed.size = tsPacketSize := stuffedSize
  have taken : (payload.take len).length = len := length_take_of_le fits
  have room : place + (payload.take len).length ≤ stuffed.size := by rw [taken]; omega
  apply Yields.step (Buffer.store_eq room)
  have final := held.extend (payload.take len) (show place = _ by
    simp only [length_append, length_cons, length_nil]; omega) room
  have counted : ([0x47, startByte stream.pid start, UInt8.ofNat (stream.pid &&& 0xFF),
      controlByte stream.cc field.isSome] ++ fieldBytes field ++
      unitFront stream withAud start payload.length ++ payload.take len).length =
        stuffed.size := by
    simp only [length_append, length_cons, length_nil]
    omega
  apply Yields.step (final.contents_eq counted)
  refine Yields.pure ⟨counted.trans stuffedSize, nonempty, fits, field, ?_⟩
  simp only [tsPacket, tsHeaderBytes, append_assoc]

theorem tsWritePesPacket_error (pcrPid : Nat) (withAud : Bool) {payload : List UInt8}
    (forbidden : ¬TimestampsAllowed stream) :
    tsWritePesPacket pcrPid stream withAud true payload = .error .assertion := by
  have packet : tsPacketSize = 188 := rfl
  have fieldShort := adaptationField_short pcrPid stream true
  apply error_step (Buffer.store_eq (by simp [packet]))
  apply Yields.error (tsWriteAdaptation_yields pcrPid stream true rfl (openedPacket_holds stream))
  rintro ⟨adapted, header⟩ ⟨adaptedSize, ends, fieldHeld⟩
  replace adaptedSize : adapted.size = tsPacketSize := adaptedSize
  replace ends : header = 4 + (fieldBytes (adaptationField pcrPid stream true)).length := ends
  apply error_bind
  apply error_step (fieldHeld.modify_eq (Nat.zero_le 1) rfl)
  apply error_bind
  unfold pesWriteHeader
  rw [if_neg (by omega)]
  apply error_step (Buffer.store_eq (by
    simp only [Buffer.written_size, adaptedSize, length_cons, length_nil]; omega))
  apply error_step (Buffer.store_eq (by
    simp only [Buffer.written_size, adaptedSize, length_cons, length_nil]; omega))
  exact error_bind (check_error forbidden) _

end CLibs.MpegTs
