import CLibs.MovFragments

/-!
# Walking over boxes that were written

`Passes` says that the walk gets over a piece of text and what it does to the
state of the reader on the way.  Pieces compose, and a box is passed when its
parser, or the walk inside it, gets to the end of its body.
-/

namespace CLibs.Mov

open List

variable {State : Type}

def Passes (parsers : Parsers State) (type : Nat) (text : List UInt8) (position : Nat)
    (state next : State) : Prop :=
  ∀ (file : ByteFile) (rest : List UInt8) (fuel : Nat) (parent : Box) (bytes : Nat),
    file.position = position → parent.type = type → file.Ahead (text ++ rest) →
    file.bytes.length < 2 ^ 63 → text.length < fuel → bytes + text.length ≤ parent.size →
    parent.size < 2 ^ 64 →
    ∃ left, fuel ≤ left + text.length ∧
      (readBoxes parsers fuel parent bytes ⟨file, state⟩).result =
        (readBoxes parsers left parent (bytes + text.length)
          ⟨file.skip text.length, next⟩).result

variable {parsers : Parsers State} {type position : Nat} {state middle next : State}

theorem Passes.nil : Passes parsers type [] position state state := by
  intro file rest fuel parent bytes _ _ _ _ _ _ _
  exact ⟨fuel, Nat.le_add_right _ _, rfl⟩

theorem Passes.append {first second : List UInt8}
    (passes : Passes parsers type first position state middle)
    (passesNext : Passes parsers type second (position + first.length) middle next) :
    Passes parsers type (first ++ second) position state next := by
  intro file rest fuel parent bytes at_ ofType ahead small enough room bound
  rw [length_append] at enough room ⊢
  rw [append_assoc] at ahead
  obtain ⟨left, used, result⟩ :=
    passes file (second ++ rest) fuel parent bytes at_ ofType ahead small (by omega) (by omega) bound
  obtain ⟨last, usedNext, resultNext⟩ :=
    passesNext (file.skip first.length) rest left parent (bytes + first.length)
      (by rw [← at_]; rfl) ofType ahead.skip small (by omega) (by omega) bound
  refine ⟨last, by omega, ?_⟩
  rw [result, resultNext, ByteFile.skip_skip, Nat.add_assoc]

/-! ## Boxes -/

variable {file : ByteFile}

theorem Ahead.length_le {text rest : List UInt8} (ahead : file.Ahead (text ++ rest)) :
    file.position + text.length ≤ file.bytes.length := by
  have inside := ahead.inside
  have length := congrArg List.length ahead.text
  rw [length_drop, length_append] at length
  omega

theorem movBufferSkip_eq {size : Nat} (fine : file.error = false)
    (small : file.bytes.length < 2 ^ 63) (inside : file.position + size ≤ file.bytes.length) :
    movBufferSkip file size = file.skip size := by
  have position : (file.position + size) % 2 ^ 64 = file.position + size :=
    Nat.mod_eq_of_lt (by omega)
  unfold movBufferSkip
  rw [position, if_neg (by simp [fine]), if_pos inside]
  rfl

theorem assertion_result {condition : Prop} [Decidable condition] (holds : condition) :
    (assertion parsers condition).result = .ok () := by
  unfold assertion Traced.lift Parsers.check
  rw [check_eq holds]
  split <;> rfl

/-- A header that gives a box of `size` bytes in the text ahead. -/
structure Headed (text : List UInt8) (header type : Nat) : Prop where
  width : header = 8 ∨ header = 16
  longer : header < text.length
  reads : ∀ file rest, file.Ahead (text ++ rest) →
    readPlace file = (⟨.box, file.position, header, text.length⟩, type, file.skip header) ∧
      (file.skip header).Ahead (text.drop header ++ rest)

section Headed

variable {text rest : List UInt8} {header boxType fuel bytes : Nat} {file : ByteFile} {parent : Box}

variable {place : Place}

theorem Place.bytesBehind_eq (closed : ¬place.ToEnd) (short : place.size < 2 ^ 63)
    (room : bytes + place.size ≤ parent.size) (bound : parent.size < 2 ^ 64) :
    place.bytesBehind parent bytes = bytes + place.size := by
  unfold Place.bytesBehind Place.largeSize uint64Max
  rw [if_neg closed, if_neg (by omega)]
  exact Nat.mod_eq_of_lt (by omega)

theorem Place.boxSize_eq (closed : ¬place.ToEnd) (short : place.size < 2 ^ 63)
    (long : place.header ≤ place.size) : place.boxSize = place.size - place.header := by
  unfold Place.boxSize Place.largeSize uint64Max
  rw [if_neg closed, if_neg (by omega)]
  unfold sub64
  omega

theorem passBox_parsed {nested : Nested State} {parse : Parse} {box : Box}
    (found : findParse box.type parent.type = some parse) (small : file.bytes.length < 2 ^ 63)
    (fine : file.error = false) (inside : file.position + box.size ≤ file.bytes.length)
    (parsed : (parsers.parse nested parse box ⟨file, state⟩).result =
      .ok (0, ⟨file.skip box.size, next⟩)) :
    (passBox parsers nested parent place box ⟨file, state⟩).result =
      .ok (0, ⟨file.skip box.size, next⟩) := by
  have moved : sub64 (file.skip box.size).position file.position = box.size := by
    change sub64 (file.position + box.size) file.position = box.size
    unfold sub64
    omega
  have nothing : sub64 box.size box.size = 0 := by
    unfold sub64
    omega
  unfold passBox
  rw [found]
  dsimp only
  rw [Traced.bind_result parsed]
  dsimp only
  rw [Traced.bind_result (assertion_result rfl), if_neg (by decide), moved,
    Traced.bind_result (assertion_result rfl), nothing]
  have stays : movBufferSkip (file.skip box.size) 0 = file.skip box.size :=
    movBufferSkip_eq fine small inside
  change Except.ok (0, Reader.mk (movBufferSkip (file.skip box.size) 0) next) = _
  rw [stays]

theorem Headed.passes (headed : Headed text header boxType)
    (passed : ∀ file rest fuel parent place, file.position = position + header → parent.type = type →
      file.Ahead (text.drop header ++ rest) → file.bytes.length < 2 ^ 63 →
      (text.drop header).length < fuel →
      (passBox parsers (fun box reader => readBoxes parsers fuel box 0 reader) parent place
        ⟨(text.drop header).length, boxType⟩ ⟨file, state⟩).result =
        .ok (0, ⟨file.skip (text.drop header).length, next⟩)) :
    Passes parsers type text position state next := by
  intro file rest fuel parent bytes at_ ofType ahead small enough room bound
  obtain ⟨place, behind⟩ := headed.reads file rest ahead
  have longer := headed.longer
  have width := headed.width
  have inside := Ahead.length_le ahead
  have body : (text.drop header).length = text.length - header := length_drop
  cases fuel with
  | zero => omega
  | succ fuel =>
    have closed : ¬Place.ToEnd ⟨.box, file.position, header, text.length⟩ := by
      rintro ⟨-, -, zero⟩
      change text.length = 0 at zero
      omega
    have short : text.length < 2 ^ 63 := by omega
    have behindBytes : Place.bytesBehind ⟨.box, file.position, header, text.length⟩ parent bytes =
        bytes + text.length :=
      Place.bytesBehind_eq closed short room bound
    have size : Place.boxSize ⟨.box, file.position, header, text.length⟩ =
        (text.drop header).length :=
      (Place.boxSize_eq closed short (Nat.le_of_lt longer)).trans body.symm
    have result := passed (file.skip header) rest fuel parent
      ⟨.box, file.position, header, text.length⟩ (by rw [← at_]; rfl) ofType behind small
      (by omega)
    refine ⟨fuel, by omega, ?_⟩
    rw [readBoxes, if_pos ⟨by omega, ahead.error⟩, place]
    unfold passPlace
    dsimp only
    rw [if_neg (fun mark => closed mark.1), behindBytes, if_neg (Nat.not_lt.mpr room),
      Traced.emit_result, size, Traced.bind_result result, if_neg (fun failed => failed rfl)]
    dsimp only
    rw [ByteFile.skip_skip, body, Nat.add_sub_cancel' (Nat.le_of_lt longer)]

end Headed

/-! ## The forms of a box -/

theorem boxText_length (letters body : List UInt8) (four : letters.length = 4) :
    (boxText letters body).length = 8 + body.length := by
  unfold boxText
  simp only [length_append, bigEndian_length, four]
  omega

variable {letters body : List UInt8}

theorem boxText_drop (four : letters.length = 4) :
    (boxText letters body).drop 8 = body := by
  unfold boxText
  rw [← append_assoc, drop_left']
  rw [length_append, bigEndian_length, four]

theorem boxText_headed (four : letters.length = 4) (filled : body ≠ [])
    (short : 8 + body.length < 2 ^ 32) :
    Headed (boxText letters body) 8 (bigValue letters) := by
  have length := boxText_length letters body four
  have positive := length_pos_iff.mpr filled
  refine ⟨Or.inl rfl, by omega, ?_⟩
  intro file rest ahead
  unfold boxText at ahead
  rw [append_assoc, append_assoc] at ahead
  obtain ⟨size, ahead⟩ := r32_reads.bigEndian short ahead
  have type := r32_reads _ _ _ four ahead
  have aheadBody := ahead.skip
  rw [four, ByteFile.skip_skip] at aheadBody
  rw [boxText_drop four]
  refine ⟨?_, aheadBody⟩
  have plain : (r32 file).1 ≠ 1 := by
    rw [size]
    dsimp only
    omega
  rw [readPlace_small plain]
  unfold readBoxHeader
  rw [size]
  dsimp only
  rw [type, length]
  rfl

theorem largeBox_headed (four : letters.length = 4) (filled : body ≠ [])
    (short : 16 + body.length < 2 ^ 64) :
    Headed (bigEndian 4 1 ++ (letters ++ (bigEndian 8 (16 + body.length) ++ body))) 16
      (bigValue letters) := by
  have positive := length_pos_iff.mpr filled
  have length : (bigEndian 4 1 ++ (letters ++ (bigEndian 8 (16 + body.length) ++ body))).length =
      16 + body.length := by
    simp only [length_append, bigEndian_length, four]
    omega
  refine ⟨Or.inr rfl, by omega, ?_⟩
  intro file rest ahead
  have behind : (bigEndian 4 1 ++ (letters ++ (bigEndian 8 (16 + body.length) ++ body))).drop 16 =
      body := by
    rw [← append_assoc, ← append_assoc, drop_left']
    simp only [length_append, bigEndian_length, four]
  rw [append_assoc, append_assoc, append_assoc] at ahead
  obtain ⟨one, ahead⟩ := r32_reads.bigEndian (show 1 < 256 ^ 4 by decide) ahead
  have type := r32_reads _ _ _ four ahead
  have aheadSize := ahead.skip
  rw [four, ByteFile.skip_skip] at aheadSize
  obtain ⟨size, aheadBody⟩ := r64_reads.bigEndian short aheadSize
  rw [ByteFile.skip_skip] at aheadBody
  rw [behind]
  refine ⟨?_, aheadBody⟩
  have large : (r32 file).1 = 1 := by rw [one]
  have header : readBoxHeader file = (⟨1, bigValue letters⟩, file.skip 8) := by
    unfold readBoxHeader
    rw [one]
    dsimp only
    rw [type]
    rfl
  rw [readPlace_large large, header]
  dsimp only
  rw [size, length]
  rfl

/-! ## Parsers that get to the end -/

section Parsed

variable {letters body text : List UInt8} {header boxType : Nat}

theorem Headed.passes_parsed {parse : Parse} (headed : Headed text header boxType)
    (found : findParse boxType type = some parse)
    (parsed : ∀ file rest fuel, file.position = position + header →
      file.Ahead (text.drop header ++ rest) → file.bytes.length < 2 ^ 63 →
      (text.drop header).length < fuel →
      (parsers.parse (fun box reader => readBoxes parsers fuel box 0 reader) parse
        ⟨(text.drop header).length, boxType⟩ ⟨file, state⟩).result =
        .ok (0, ⟨file.skip (text.drop header).length, next⟩)) :
    Passes parsers type text position state next := by
  apply headed.passes
  intro file rest fuel parent place at_ ofType ahead small enough
  apply passBox_parsed
  · rw [ofType]
    exact found
  · exact small
  · exact ahead.error
  · exact Ahead.length_le ahead
  · exact parsed file rest fuel at_ ahead small enough

theorem other_passes (four : letters.length = 4) (filled : body ≠ [])
    (short : 8 + body.length < 2 ^ 32) (found : findParse (bigValue letters) type = some .other)
    (parsed : ∀ file rest, file.Ahead (body ++ rest) →
      parsers.other ⟨body.length, bigValue letters⟩ ⟨file, state⟩ =
        some (0, ⟨file.skip body.length, next⟩)) :
    Passes parsers type (boxText letters body) position state next := by
  apply (boxText_headed four filled short).passes_parsed found
  intro file rest fuel _ ahead _ _
  rw [boxText_drop four] at ahead ⊢
  change (parsers.other ⟨body.length, bigValue letters⟩ ⟨file, state⟩).elim _ _ = _
  rw [parsed file rest ahead]
  rfl

theorem Passes.nested {rest : List UInt8} {fuel : Nat}
    (passes : Passes parsers type body file.position state next) (ahead : file.Ahead (body ++ rest))
    (small : file.bytes.length < 2 ^ 63) (enough : body.length < fuel) :
    (readBoxes parsers fuel ⟨body.length, type⟩ 0 ⟨file, state⟩).result =
      .ok (0, ⟨file.skip body.length, next⟩) := by
  have inside := Ahead.length_le ahead
  obtain ⟨left, used, result⟩ := passes file rest fuel ⟨body.length, type⟩ 0 rfl rfl ahead small
    enough (by simp) (by dsimp only; omega)
  rw [result]
  cases left with
  | zero => omega
  | succ left =>
    rw [readBoxes, if_neg]
    · rfl
    · dsimp only
      omega

theorem default_passes (four : letters.length = 4) (filled : body ≠ [])
    (short : 8 + body.length < 2 ^ 32) (found : findParse (bigValue letters) type = some .default)
    (passes : Passes parsers (bigValue letters) body (position + 8) state next) :
    Passes parsers type (boxText letters body) position state next := by
  apply (boxText_headed four filled short).passes_parsed found
  intro file rest fuel at_ ahead small enough
  rw [boxText_drop four] at ahead enough ⊢
  rw [← at_] at passes
  exact passes.nested ahead small enough

theorem moof_passes (four : letters.length = 4) (filled : body ≠ [])
    (short : 8 + body.length < 2 ^ 32) (found : findParse (bigValue letters) type = some .moof)
    (passes : Passes parsers (bigValue letters) body (position + 8)
      (parsers.openMoof position state) next) :
    Passes parsers type (boxText letters body) position state next := by
  apply (boxText_headed four filled short).passes_parsed found
  intro file rest fuel at_ ahead small enough
  have inside := Ahead.length_le ahead
  have offset : sub64 file.position 8 = position := by
    unfold sub64
    omega
  rw [boxText_drop four] at ahead enough ⊢
  change (readBoxes parsers fuel _ 0
    ⟨file, parsers.openMoof (sub64 file.position 8) state⟩).result = _
  rw [offset]
  rw [← at_] at passes
  exact passes.nested ahead small enough

theorem mdat_passes (headed : Headed text header boxType) (found : findParse boxType type = some .mdat) :
    Passes parsers type text position state state := by
  apply headed.passes_parsed found
  intro file rest fuel _ ahead small _
  have inside := Ahead.length_le ahead
  have skipped : movBufferSkip file (text.drop header).length =
      file.skip (text.drop header).length := movBufferSkip_eq ahead.error small inside
  change Except.ok (movBufferError (movBufferSkip file (text.drop header).length),
    Reader.mk (movBufferSkip file (text.drop header).length) state) = _
  rw [skipped]
  unfold movBufferError
  rw [if_neg]
  change ¬file.error = true
  rw [ahead.error]
  decide

end Parsed

end CLibs.Mov
