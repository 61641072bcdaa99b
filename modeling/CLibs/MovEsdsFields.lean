import CLibs.MovEsdsRoundTrip
import Mathlib.Data.List.GetD

/-!
# The fields of descriptors

Fields are read byte by byte, as far as the file goes, and an error keeps the position.  So where
the fields of a descriptor end can be told from the bytes of the file.
-/

namespace CLibs.Mov

/-! ## A file that failed -/

theorem int32_le (value : Nat) : int32 value ≤ value := by
  unfold int32
  rw [Int.bmod_def]
  split <;> omega

section Failed

variable {file : ByteFile} (failed : file.error = true)
include failed

theorem r8_failed : r8 file = (0, file) := by
  have read : file.read 1 = (none, file) := if_pos failed
  unfold r8
  rw [read]
  rfl

theorem r16_failed : (r16 file).2 = file := by
  change (r8 (r8 file).2).2 = file
  rw [r8_failed failed, r8_failed failed]

theorem skip_failed (size : Nat) : movBufferSkip file size = file := if_pos failed

theorem movReadBaseDescr_failed (bytes : Int) :
    ∃ count, movReadBaseDescr file bytes = (⟨0, 0, count⟩, file) ∧ 1 ≤ count ∧
      (count = 1 ∨ (count : Int) ≤ bytes) := by
  unfold movReadBaseDescr
  rw [r8_failed failed]
  by_cases room : (1 : Int) < bytes
  · refine ⟨2, ?_, by decide, .inr (by omega)⟩
    have first : readLength bytes 4 0 0x80 0 file = readLength bytes 3 1 0 0 file := by
      rw [readLength, if_pos ⟨by simpa using room, by decide⟩, r8_failed failed]
      simp
    have stops : readLength bytes 3 1 0 0 file = (1, 0, file) := by
      rw [readLength, if_neg (by simp)]
    simp only [first, stops]
  · refine ⟨1, ?_, by decide, .inl rfl⟩
    have stops : readLength bytes 4 0 0x80 0 file = (0, 0, file) := by
      rw [readLength, if_neg]
      rintro ⟨more, -⟩
      exact room (by simpa using more)
    simp only [stops]

end Failed

/-! ## Reading as far as the file goes -/

section Reads

variable (text : List UInt8) (place : Nat)

def readUpTo (width : Nat) : ByteFile :=
  if place + width ≤ text.length then ⟨text, place + width, false⟩ else ⟨text, text.length, true⟩

/-- A byte of the file, and zero behind its end. -/
def byteOf : Nat := (text.getD place 0).toNat

/-- The bytes in front of the length of a URL: two more if the stream depends on another. -/
def esLink : Nat := if byteOf text (place + 2) &&& 0x80 ≠ 0 then 5 else 3

def esUrl : Nat :=
  if byteOf text (place + 2) &&& 0x40 ≠ 0 then 1 + byteOf text (place + esLink text place) else 0

def esWidth : Nat :=
  esLink text place + esUrl text place + if byteOf text (place + 2) &&& 0x20 ≠ 0 then 2 else 0

/-- Where these fields end in the file, which may end in front of them. -/
def esEnd : Nat :=
  if place + esLink text place + 1 ≤ text.length ∧
      text.length < place + esLink text place + esUrl text place then
    place + esLink text place + 1
  else min (place + esWidth text place) text.length

/-- The bytes that are read of an `SLConfigDescriptor`. -/
def slWidth : Nat :=
  if byteOf text place = 0 then 16 + (if byteOf text (place + 1) &&& 0x01 ≠ 0 then 8 else 0) else 1

variable {text place} {width : Nat}

theorem readUpTo_zero (inside : place ≤ text.length) : readUpTo text place 0 = ⟨text, place, false⟩ :=
  if_pos inside

theorem byteOf_beyond (beyond : text.length ≤ place) : byteOf text place = 0 := by
  unfold byteOf
  rw [List.getD_eq_default _ _ beyond]
  rfl

theorem r8_readUpTo :
    r8 (readUpTo text place width) =
      (byteOf text (place + width), readUpTo text place (width + 1)) := by
  unfold readUpTo
  by_cases here : place + width ≤ text.length
  · rw [if_pos here]
    by_cases more : place + (width + 1) ≤ text.length
    · have read : ByteFile.read ⟨text, place + width, false⟩ 1 =
          (some ((text.drop (place + width)).take 1), ⟨text, place + width + 1, false⟩) := by
        unfold ByteFile.read
        rw [if_neg (by simp), if_pos (by simpa [Nat.add_assoc] using more)]
      have byte : (text.drop (place + width)).take 1 = [text.getD (place + width) 0] := by
        rw [List.drop_eq_getElem_cons (by omega), List.take_succ_cons, List.take_zero,
          List.getD_eq_getElem _ _ (by omega)]
      unfold r8
      rw [read, byte, if_pos more]
      simp [byteOf, bigValue, Nat.add_assoc]
    · have atEnd : place + width = text.length := by omega
      have read : ByteFile.read ⟨text, place + width, false⟩ 1 =
          (none, ⟨text, place + width, true⟩) := by
        unfold ByteFile.read
        rw [if_neg (by simp), if_neg (by simpa [Nat.add_assoc] using more)]
      unfold r8
      rw [read, if_neg more, byteOf_beyond (by omega), atEnd]
      rfl
  · rw [if_neg here, if_neg (by omega), r8_failed rfl, byteOf_beyond (by omega)]

def TakesBytes (count : Nat) (reader : ByteFile → Nat × ByteFile) : Prop :=
  ∀ {text : List UInt8} {place width : Nat},
    (reader (readUpTo text place width)).2 = readUpTo text place (width + count)

theorem r8_takes : TakesBytes 1 r8 := by
  intro text place width
  rw [r8_readUpTo]

theorem TakesBytes.both {high low many : Nat} {first second : ByteFile → Nat × ByteFile}
    (takes : TakesBytes high first) (takesLow : TakesBytes low second) :
    TakesBytes (high + low) (ByteFile.readBoth many first second) := by
  intro text place width
  change (second (first (readUpTo text place width)).2).2 = _
  rw [takes, takesLow, Nat.add_assoc]

theorem r16_takes : TakesBytes 2 r16 := r8_takes.both r8_takes

theorem r24_takes : TakesBytes 3 r24 := r8_takes.both r16_takes

theorem r32_takes : TakesBytes 4 r32 := r16_takes.both r16_takes

/-! ### Headers -/

theorem readLength_inside {left i c len room : Nat} {bytes : Int} (range : bytes ≤ room)
    (short : len < 2 ^ (7 * i)) (fits : place + (room - 1 - i) ≤ text.length) :
    ∃ more len', readLength bytes left i c len ⟨text, place, false⟩ =
        (i + more, len', ⟨text, place + more, false⟩) ∧ more ≤ left ∧ len' < 2 ^ (7 * (i + more)) ∧
      (more = 0 ∨ i + more + 1 ≤ room) := by
  induction left generalizing i c len place with
  | zero => exact ⟨0, len, rfl, Nat.le_refl 0, short, .inl rfl⟩
  | succ left ih =>
    unfold readLength
    split
    · next more =>
        have room' : i + 2 ≤ room := by
          omega
        have inside : place ≤ text.length := by omega
        have byte := @r8_readUpTo text place 0
        rw [readUpTo_zero inside, readUpTo, if_pos (by omega), Nat.zero_add] at byte
        rw [byte]
        dsimp only
        have longer : (len <<< 7) ||| (byteOf text (place + 0) &&& 0x7F) < 2 ^ (7 * (i + 1)) := by
          refine Nat.or_lt_two_pow ?_ ?_
          · rw [Nat.shiftLeft_eq, Nat.mul_add 7 i 1, Nat.pow_add]
            exact Nat.mul_lt_mul_of_pos_right short (by decide)
          · calc byteOf text (place + 0) &&& 0x7F
              _ ≤ 0x7F := Nat.and_le_right
              _ < 2 ^ 7 := by decide
              _ ≤ 2 ^ (7 * (i + 1)) := Nat.pow_le_pow_right (by decide) (by omega)
        obtain ⟨count, len', read, few, bound, last⟩ := @ih (place + 1) (i + 1) _ _ longer (by omega)
        refine ⟨count + 1, len', ?_, by omega, ?_, .inr (by omega)⟩
        · rw [read, Nat.add_assoc i 1, Nat.add_comm 1 count, Nat.add_assoc place 1,
            Nat.add_comm 1 count]
        · rwa [Nat.add_assoc, Nat.add_comm 1 count] at bound
    · exact ⟨0, len, rfl, Nat.zero_le _, short, .inl rfl⟩

/-- The tag, the length and the size of the header that stand at a place. -/
def descrAt (text : List UInt8) (place stop : Nat) : BaseDescr :=
  (movReadBaseDescr ⟨text, place, false⟩ (int32 (stop - place : Nat))).1

theorem descrAt_spec {stop : Nat} (inside : place < stop) (fits : stop ≤ text.length) :
    movReadBaseDescr ⟨text, place, false⟩ (int32 (stop - place : Nat)) =
        (descrAt text place stop, ⟨text, place + (descrAt text place stop).count, false⟩) ∧
      1 ≤ (descrAt text place stop).count ∧ place + (descrAt text place stop).count ≤ stop ∧
      (descrAt text place stop).len < 2 ^ 28 := by
  have tag := @r8_readUpTo text place 0
  rw [readUpTo_zero (by omega), readUpTo, if_pos (by omega), Nat.zero_add] at tag
  obtain ⟨more, len, read, few, bound, last⟩ := @readLength_inside text (place + 1) 4 0 0x80 0
    (stop - place) (int32 (stop - place : Nat)) (int32_le _) (by decide) (by omega)
  have header : movReadBaseDescr ⟨text, place, false⟩ (int32 (stop - place : Nat)) =
      (⟨byteOf text place, len, 1 + more⟩, ⟨text, place + (1 + more), false⟩) := by
    unfold movReadBaseDescr
    rw [tag]
    dsimp only
    rw [read, Nat.zero_add, Nat.add_assoc]
    rfl
  have short : len < 2 ^ 28 :=
    Nat.lt_of_lt_of_le bound (Nat.pow_le_pow_right (by decide) (by omega))
  unfold descrAt
  rw [header]
  exact ⟨rfl, Nat.le_add_right _ _, by dsimp only; omega, short⟩

end Reads

/-! ### Fields -/

section Fields

variable {text : List UInt8} {next len : Nat}

/-- What is read of an `ES_Descriptor` in front of the descriptors in it. -/
def esFields (file : ByteFile) : ByteFile :=
  let flags := r8 (r16 file).2
  let file := flags.2
  let file := if flags.1 &&& 0x80 ≠ 0 then (r16 file).2 else file
  let file :=
    if flags.1 &&& 0x40 ≠ 0 then
      let n := r8 file
      movBufferSkip n.2 n.1
    else file
  if flags.1 &&& 0x20 ≠ 0 then (r16 file).2 else file

theorem mp4ReadEsDescriptor_eq (readTag : ReadTag) (reader : EsdsReader) (bytes : Nat) :
    mp4ReadEsDescriptor readTag reader bytes =
      readTag (sub64 bytes (sub64 (esFields reader.file).position reader.file.position))
        { reader with file := esFields reader.file } := rfl

theorem skip_readUpTo {width size : Nat} (small : next + width + size < 2 ^ 64) :
    movBufferSkip (readUpTo text next width) size =
      if next + width ≤ text.length ∧ text.length < next + width + size then
        ⟨text, next + width, true⟩
      else readUpTo text next (width + size) := by
  unfold readUpTo movBufferSkip
  by_cases here : next + width ≤ text.length
  · rw [if_pos here, if_neg (by simp), Nat.mod_eq_of_lt small]
    by_cases more : next + width + size ≤ text.length
    · rw [if_pos more, if_neg (by omega), if_pos (by omega), Nat.add_assoc]
    · rw [if_neg more, if_pos ⟨here, by omega⟩]
  · rw [if_neg here, if_pos rfl, if_neg (by omega), if_neg (by omega)]

theorem byteOf_lt (place : Nat) : byteOf text place < 256 := (text.getD place 0).toNat_lt

theorem esLink_range : 3 ≤ esLink text next ∧ esLink text next ≤ 5 := by
  unfold esLink
  split <;> omega

theorem skip_descriptor {place : Nat} (small : text.length < 2 ^ 63)
    (room : next + len ≤ text.length) :
    movBufferSkip ⟨text, place, false⟩ (sub64 len (sub64 place next)) = ⟨text, next + len, false⟩ := by
  have lands : (place + sub64 len (sub64 place next)) % 2 ^ 64 = next + len := by
    unfold sub64
    omega
  unfold movBufferSkip
  rw [if_neg (by simp), lands, if_pos room]

theorem esFields_eq (inside : next ≤ text.length) (addressed : text.length < 2 ^ 63) :
    esFields ⟨text, next, false⟩ =
      ⟨text, esEnd text next, decide (text.length < next + esWidth text next)⟩ := by
  have flags : r8 (r16 ⟨text, next, false⟩).2 = (byteOf text (next + 2), readUpTo text next 3) := by
    rw [← readUpTo_zero inside, r16_takes, r8_readUpTo]
  have link : (if byteOf text (next + 2) &&& 0x80 ≠ 0 then (r16 (readUpTo text next 3)).2
      else readUpTo text next 3) = readUpTo text next (esLink text next) := by
    unfold esLink
    split
    · rw [r16_takes]
    · rfl
  have range := @esLink_range text next
  have url : (if byteOf text (next + 2) &&& 0x40 ≠ 0 then
      movBufferSkip (r8 (readUpTo text next (esLink text next))).2
        (r8 (readUpTo text next (esLink text next))).1
      else readUpTo text next (esLink text next)) =
      if next + esLink text next + 1 ≤ text.length ∧
          text.length < next + esLink text next + esUrl text next then
        ⟨text, next + esLink text next + 1, true⟩
      else readUpTo text next (esLink text next + esUrl text next) := by
    by_cases named : byteOf text (next + 2) &&& 0x40 ≠ 0
    · have size : esUrl text next = 1 + byteOf text (next + esLink text next) := if_pos named
      have byte := @byteOf_lt text (next + esLink text next)
      rw [if_pos named, r8_readUpTo, skip_readUpTo (by omega), size, ← Nat.add_assoc,
        ← Nat.add_assoc, ← Nat.add_assoc]
    · have none : esUrl text next = 0 := if_neg named
      rw [if_neg named, none, if_neg (by omega), Nat.add_zero]
  unfold esFields
  dsimp only
  rw [flags]
  dsimp only
  rw [link, url]
  unfold esEnd
  by_cases cut : next + esLink text next + 1 ≤ text.length ∧
      text.length < next + esLink text next + esUrl text next
  · have beyond : text.length < next + esWidth text next := by
      unfold esWidth
      omega
    rw [if_pos cut, if_pos cut, decide_eq_true beyond, r16_failed rfl, ite_self]
  · have last : (if byteOf text (next + 2) &&& 0x20 ≠ 0 then
        (r16 (readUpTo text next (esLink text next + esUrl text next))).2
        else readUpTo text next (esLink text next + esUrl text next)) =
        readUpTo text next (esWidth text next) := by
      unfold esWidth
      split
      · rw [r16_takes]
      · rfl
    rw [if_neg cut, if_neg cut, last, readUpTo]
    by_cases fits : next + esWidth text next ≤ text.length
    · rw [if_pos fits, Nat.min_eq_left fits, decide_eq_false (Nat.not_lt_of_le fits)]
    · rw [if_neg fits, Nat.min_eq_right (by omega), decide_eq_true (by omega)]

theorem slConfig_file (entry : EsdsEntry) (inside : next ≤ text.length) :
    (mp4ReadSlConfigDescriptor ⟨entry, ⟨text, next, false⟩⟩).file =
      readUpTo text next (slWidth text next) := by
  have predefined : r8 ⟨text, next, false⟩ = (byteOf text next, readUpTo text next 1) := by
    rw [← readUpTo_zero inside, r8_readUpTo, Nat.add_zero]
  unfold mp4ReadSlConfigDescriptor slWidth
  dsimp only
  rw [predefined]
  dsimp only
  by_cases custom : byteOf text next = 0
  · rw [if_pos custom, if_pos custom, r8_readUpTo]
    dsimp only
    rw [r32_takes, r32_takes, r8_takes, r8_takes, r8_takes, r8_takes, r16_takes]
    split
    · rw [r32_takes, r16_takes, r16_takes]
    · rfl
  · rw [if_neg custom, if_neg custom]
    by_cases reserved : byteOf text next = 2
    · rw [if_pos reserved]
      exact if_neg (show ¬4 &&& 0x01 ≠ 0 by decide)
    · rw [if_neg reserved]
      exact if_neg (show ¬0 &&& 0x01 ≠ 0 by decide)

theorem config_file (inside : next + 13 ≤ text.length) :
    (r32 (r32 (r24 (r8 (r8 ⟨text, next, false⟩).2).2).2).2).2 = ⟨text, next + 13, false⟩ := by
  have start : next ≤ text.length := by omega
  rw [← readUpTo_zero start, r8_takes, r8_takes, r24_takes, r32_takes, r32_takes]
  exact if_pos inside

theorem info_file (leftover : Nat → List UInt8) (entry : EsdsEntry)
    (inside : next + len ≤ text.length) :
    (mp4ReadDecoderSpecificInfo leftover ⟨entry, ⟨text, next, false⟩⟩ len).file =
      ⟨text, next + len, false⟩ := by
  unfold mp4ReadDecoderSpecificInfo ByteFile.read
  dsimp only
  rw [if_neg (by simp), if_pos inside]

end Fields

end CLibs.Mov
