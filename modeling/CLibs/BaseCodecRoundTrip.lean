import CLibs.BaseCodecs

/-!
# What is encoded is decoded

Each byte comes back from the bits of the characters it was spread over.  The rest of a group that
is not full is handled as if zero bytes followed, and any number of `=` may stand behind it.
-/

namespace CLibs.BaseCodecs

open List

/-! ## Bytes and their bits -/

theorem eq_of_bits {first second : UInt8}
    (same : ∀ place < 8, first.toBitVec.getLsbD place = second.toBitVec.getLsbD place) :
    first = second :=
  UInt8.toBitVec_inj.mp (BitVec.eq_of_getLsbD_eq same)

/-- A table that is read back by another, and never writes a `=`. -/
structure ReadBack (enc dec : List UInt8) (size : Nat) : Prop where
  decodes : ∀ index < size, entry dec (enc.getD index 0) = UInt8.ofNat index
  noPad : ∀ index < size, enc.getD index 0 ≠ pad

theorem base64Enc_readBack : ReadBack base64Enc base64Dec 64 :=
  ⟨by decide +kernel, by decide +kernel⟩

theorem base64Url_readBack : ReadBack base64Url base64Dec 64 :=
  ⟨by decide +kernel, by decide +kernel⟩

theorem base32Enc_readBack : ReadBack base32Enc base32Dec 32 :=
  ⟨by decide +kernel, by decide +kernel⟩

theorem base16Enc_readBack : ReadBack base16Enc base16Dec 16 :=
  ⟨by decide +kernel, by decide +kernel⟩

variable {enc dec : List UInt8} {size : Nat}

theorem ReadBack.entry_entry (readBack : ReadBack enc dec size) {index : UInt8}
    (inside : index.toNat < size) : entry dec (entry enc index) = index :=
  (readBack.decodes _ inside).trans UInt8.ofNat_toNat

theorem ReadBack.entry_ne_pad (readBack : ReadBack enc dec size) {index : UInt8}
    (inside : index.toNat < size) : entry enc index ≠ pad :=
  readBack.noPad _ inside

theorem toNat_lt_of_and {index mask : UInt8} (same : index &&& mask = index) :
    index.toNat < mask.toNat + 1 := by
  rw [← same, UInt8.toNat_and]
  exact Nat.lt_succ_of_le Nat.and_le_right

/-! ## Base 64 -/

section Base64

/-- The six bits of each of the four characters. -/
def sextet1 (a : UInt8) : UInt8 := (a >>> 2) &&& 0x3F

def sextet2 (a b : UInt8) : UInt8 := ((a &&& 0x03) <<< 4) ||| ((b >>> 4) &&& 0x0F)

def sextet3 (b c : UInt8) : UInt8 := ((b &&& 0x0F) <<< 2) ||| ((c >>> 6) &&& 0x03)

def sextet4 (c : UInt8) : UInt8 := c &&& 0x3F

theorem sextet1_lt (a : UInt8) : (sextet1 a).toNat < 64 := by
  refine @toNat_lt_of_and _ 0x3F (eq_of_bits fun place inside => ?_)
  interval_cases place <;> simp [sextet1]

theorem sextet2_lt (a b : UInt8) : (sextet2 a b).toNat < 64 := by
  refine @toNat_lt_of_and _ 0x3F (eq_of_bits fun place inside => ?_)
  interval_cases place <;> simp [sextet2]

theorem sextet3_lt (b c : UInt8) : (sextet3 b c).toNat < 64 := by
  refine @toNat_lt_of_and _ 0x3F (eq_of_bits fun place inside => ?_)
  interval_cases place <;> simp [sextet3]

theorem sextet4_lt (c : UInt8) : (sextet4 c).toNat < 64 := by
  refine @toNat_lt_of_and _ 0x3F (eq_of_bits fun place inside => ?_)
  interval_cases place <;> simp [sextet4]

theorem sextets_first (a b : UInt8) : (sextet1 a <<< 2) ||| (sextet2 a b >>> 4) = a := by
  refine eq_of_bits fun place inside => ?_
  interval_cases place <;> simp [sextet1, sextet2]

theorem sextets_second (a b c : UInt8) : (sextet2 a b <<< 4) ||| (sextet3 b c >>> 2) = b := by
  refine eq_of_bits fun place inside => ?_
  interval_cases place <;> simp [sextet2, sextet3]

theorem sextets_third (b c : UInt8) : (sextet3 b c <<< 6) ||| sextet4 c = c := by
  refine eq_of_bits fun place inside => ?_
  interval_cases place <;> simp [sextet3, sextet4]

theorem sextet2_last (a : UInt8) : (a &&& 0x03) <<< 4 = sextet2 a 0 := by simp [sextet2]

theorem sextet3_last (b : UInt8) : (b &&& 0x0F) <<< 2 = sextet3 b 0 := by simp [sextet3]

/-- The characters without the `=` behind them. -/
def base64Unpadded (table : List UInt8) : List UInt8 → List UInt8
  | a :: b :: c :: rest =>
    entry table (sextet1 a) :: entry table (sextet2 a b) :: entry table (sextet3 b c) ::
      entry table (sextet4 c) :: base64Unpadded table rest
  | [a, b] => [entry table (sextet1 a), entry table (sextet2 a b), entry table (sextet3 b 0)]
  | [a] => [entry table (sextet1 a), entry table (sextet2 a 0)]
  | [] => []

variable {table : List UInt8}

theorem base64EncodeTable_eq (source : List UInt8) :
    ∃ pads, base64EncodeTable table source =
      base64Unpadded table source ++ List.replicate pads pad := by
  induction source using base64Unpadded.induct with
  | case1 a b c rest ih =>
    obtain ⟨pads, same⟩ := ih
    exact ⟨pads, by rw [base64EncodeTable, same]; rfl⟩
  | case2 a b => exact ⟨1, by rw [base64EncodeTable, sextet3_last]; rfl⟩
  | case3 a => exact ⟨2, by rw [base64EncodeTable, sextet2_last]; rfl⟩
  | case4 => exact ⟨0, rfl⟩

@[simp]
theorem sourceAt_zero (c : UInt8) (source : List UInt8) : sourceAt (c :: source) 0 = c := rfl

@[simp]
theorem sourceAt_succ (c : UInt8) (source : List UInt8) (i : Nat) :
    sourceAt (c :: source) (i + 1) = sourceAt source i := rfl

@[simp]
theorem sourceAt_pads (pads i : Nat) : sourceAt (List.replicate pads pad) i = pad := by
  rw [sourceAt, getD_eq_getElem?_getD, List.getElem?_replicate]
  split <;> rfl

theorem base64Decode_pads (pads : Nat) : base64Decode (List.replicate pads pad) = [] := by
  cases pads with
  | zero => simp [base64Decode]
  | succ pads => simp [replicate_succ, base64Decode]

theorem base64Decode_group {c : UInt8} (noPad : c ≠ pad) (rest : List UInt8) :
    base64Decode (c :: rest) = base64DecodeGroup (c :: rest) ++ base64Decode (rest.drop 3) := by
  rw [base64Decode, if_neg noPad]

theorem base64Decode_unpadded (readBack : ReadBack table base64Dec 64) (source : List UInt8)
    (pads : Nat) :
    base64Decode (base64Unpadded table source ++ List.replicate pads pad) = source := by
  have read {index : UInt8} (inside : index.toNat < 64) := readBack.entry_entry inside
  have plain {index : UInt8} (inside : index.toNat < 64) := readBack.entry_ne_pad inside
  induction source using base64Unpadded.induct with
  | case1 a b c rest ih =>
    rw [base64Unpadded]
    simp only [cons_append]
    rw [base64Decode_group (plain (sextet1_lt a))]
    simp [base64DecodeGroup, read, plain, sextet1_lt, sextet2_lt, sextet3_lt, sextet4_lt,
      sextets_first, sextets_second, sextets_third, ih]
  | case2 a b =>
    rw [base64Unpadded]
    simp only [cons_append]
    rw [base64Decode_group (plain (sextet1_lt a))]
    simp [base64DecodeGroup, read, plain, sextet1_lt, sextet2_lt, sextet3_lt,
      sextets_first, sextets_second, base64Decode_pads]
  | case3 a =>
    rw [base64Unpadded]
    simp only [cons_append]
    rw [base64Decode_group (plain (sextet1_lt a))]
    simp [base64DecodeGroup, read, sextet1_lt, sextet2_lt, sextets_first, base64Decode_pads]
  | case4 => exact base64Decode_pads pads

theorem length_base64EncodeTable (source : List UInt8) :
    (base64EncodeTable table source).length = 4 * ((source.length + 2) / 3) := by
  induction source using base64EncodeTable.induct with
  | case1 a b c rest ih =>
    simp only [base64EncodeTable, length_cons, ih]
    omega
  | case2 a b => simp [base64EncodeTable]
  | case3 a => simp [base64EncodeTable]
  | case4 => rfl

theorem base64Unpadded_ne_pad (readBack : ReadBack table base64Dec 64) (source : List UInt8) :
    ∀ c ∈ base64Unpadded table source, c ≠ pad := by
  have plain {index : UInt8} (inside : index.toNat < 64) := readBack.entry_ne_pad inside
  induction source using base64Unpadded.induct with
  | case1 a b c rest ih =>
    simpa [base64Unpadded, plain, sextet1_lt, sextet2_lt, sextet3_lt, sextet4_lt] using ih
  | case2 a b => simp [base64Unpadded, plain, sextet1_lt, sextet2_lt, sextet3_lt]
  | case3 a => simp [base64Unpadded, plain, sextet1_lt, sextet2_lt]
  | case4 => simp [base64Unpadded]

theorem rdropWhile_pads {text : List UInt8} (plain : ∀ c ∈ text, c ≠ pad) (pads : Nat) :
    (text ++ List.replicate pads pad).rdropWhile (· = pad) = text := by
  induction pads with
  | zero =>
    rw [replicate_zero, append_nil, rdropWhile_eq_self_iff]
    intro nonempty
    simpa using plain _ (getLast_mem nonempty)
  | succ pads ih =>
    rw [replicate_succ', ← append_assoc, rdropWhile_concat_pos _ _ _ (by simp), ih]

theorem base64Decode_encode (readBack : ReadBack table base64Dec 64) (source : List UInt8) :
    base64Decode (base64EncodeTable table source) = source := by
  obtain ⟨pads, same⟩ := @base64EncodeTable_eq table source
  rw [same, base64Decode_unpadded readBack]

theorem base64Decode_stripped (readBack : ReadBack table base64Dec 64) (source : List UInt8) :
    base64Decode ((base64EncodeTable table source).rdropWhile (· = pad)) = source := by
  obtain ⟨pads, same⟩ := @base64EncodeTable_eq table source
  have none := base64Decode_unpadded readBack source 0
  rw [replicate_zero, append_nil] at none
  rw [same, rdropWhile_pads (base64Unpadded_ne_pad readBack source), none]

end Base64

/-! ## Base 32 -/

section Base32

/-- The five bits of each of the eight characters. -/
def quintet1 (a : UInt8) : UInt8 := (a >>> 3) &&& 0x1F

def quintet2 (a b : UInt8) : UInt8 := ((a &&& 0x07) <<< 2) ||| ((b >>> 6) &&& 0x03)

def quintet3 (b : UInt8) : UInt8 := (b >>> 1) &&& 0x1F

def quintet4 (b c : UInt8) : UInt8 := ((b &&& 0x01) <<< 4) ||| ((c >>> 4) &&& 0x0F)

def quintet5 (c d : UInt8) : UInt8 := ((c &&& 0x0F) <<< 1) ||| ((d >>> 7) &&& 0x01)

def quintet6 (d : UInt8) : UInt8 := (d >>> 2) &&& 0x1F

def quintet7 (d e : UInt8) : UInt8 := ((d &&& 0x03) <<< 3) ||| ((e >>> 5) &&& 0x07)

def quintet8 (e : UInt8) : UInt8 := e &&& 0x1F

theorem quintet1_lt (a : UInt8) : (quintet1 a).toNat < 32 := by
  refine @toNat_lt_of_and _ 0x1F (eq_of_bits fun place inside => ?_)
  interval_cases place <;> simp [quintet1]

theorem quintet2_lt (a b : UInt8) : (quintet2 a b).toNat < 32 := by
  refine @toNat_lt_of_and _ 0x1F (eq_of_bits fun place inside => ?_)
  interval_cases place <;> simp [quintet2]

theorem quintet3_lt (b : UInt8) : (quintet3 b).toNat < 32 := by
  refine @toNat_lt_of_and _ 0x1F (eq_of_bits fun place inside => ?_)
  interval_cases place <;> simp [quintet3]

theorem quintet4_lt (b c : UInt8) : (quintet4 b c).toNat < 32 := by
  refine @toNat_lt_of_and _ 0x1F (eq_of_bits fun place inside => ?_)
  interval_cases place <;> simp [quintet4]

theorem quintet5_lt (c d : UInt8) : (quintet5 c d).toNat < 32 := by
  refine @toNat_lt_of_and _ 0x1F (eq_of_bits fun place inside => ?_)
  interval_cases place <;> simp [quintet5]

theorem quintet6_lt (d : UInt8) : (quintet6 d).toNat < 32 := by
  refine @toNat_lt_of_and _ 0x1F (eq_of_bits fun place inside => ?_)
  interval_cases place <;> simp [quintet6]

theorem quintet7_lt (d e : UInt8) : (quintet7 d e).toNat < 32 := by
  refine @toNat_lt_of_and _ 0x1F (eq_of_bits fun place inside => ?_)
  interval_cases place <;> simp [quintet7]

theorem quintet8_lt (e : UInt8) : (quintet8 e).toNat < 32 := by
  refine @toNat_lt_of_and _ 0x1F (eq_of_bits fun place inside => ?_)
  interval_cases place <;> simp [quintet8]

theorem quintets_first (a b : UInt8) : (quintet1 a <<< 3) ||| (quintet2 a b >>> 2) = a := by
  refine eq_of_bits fun place inside => ?_
  interval_cases place <;> simp [quintet1, quintet2]

theorem quintets_second (a b c : UInt8) :
    (quintet2 a b <<< 6) ||| (quintet3 b <<< 1) ||| (quintet4 b c >>> 4) = b := by
  refine eq_of_bits fun place inside => ?_
  interval_cases place <;> simp [quintet2, quintet3, quintet4]

theorem quintets_third (b c d : UInt8) : (quintet4 b c <<< 4) ||| (quintet5 c d >>> 1) = c := by
  refine eq_of_bits fun place inside => ?_
  interval_cases place <;> simp [quintet4, quintet5]

theorem quintets_fourth (c d e : UInt8) :
    (quintet5 c d <<< 7) ||| (quintet6 d <<< 2) ||| (quintet7 d e >>> 3) = d := by
  refine eq_of_bits fun place inside => ?_
  interval_cases place <;> simp [quintet5, quintet6, quintet7]

theorem quintets_fifth (d e : UInt8) : (quintet7 d e <<< 5) ||| quintet8 e = e := by
  refine eq_of_bits fun place inside => ?_
  interval_cases place <;> simp [quintet7, quintet8]

/-- The characters without the `=` behind them, as if zero bytes followed. -/
def base32Unpadded : List UInt8 → List UInt8
  | a :: b :: c :: d :: e :: rest =>
    ([quintet1 a, quintet2 a b, quintet3 b, quintet4 b c, quintet5 c d, quintet6 d, quintet7 d e,
      quintet8 e].map (entry base32Enc)) ++ base32Unpadded rest
  | [a] => [quintet1 a, quintet2 a 0].map (entry base32Enc)
  | [a, b] => [quintet1 a, quintet2 a b, quintet3 b, quintet4 b 0].map (entry base32Enc)
  | [a, b, c] =>
    [quintet1 a, quintet2 a b, quintet3 b, quintet4 b c, quintet5 c 0].map (entry base32Enc)
  | [a, b, c, d] =>
    [quintet1 a, quintet2 a b, quintet3 b, quintet4 b c, quintet5 c d, quintet6 d,
      quintet7 d 0].map (entry base32Enc)
  | [] => []

theorem base32EncodeGroups_eq (source : List UInt8) :
    base32EncodeGroups source = base32Unpadded source := by
  induction source using base32EncodeGroups.induct with
  | case1 a b c d e rest ih => rw [base32EncodeGroups, ih]; rfl
  | case2 a => simp [base32EncodeGroups, base32Unpadded, quintet1, quintet2]
  | case3 a b =>
    simp [base32EncodeGroups, base32Unpadded, quintet1, quintet2, quintet3, quintet4]
  | case4 a b c =>
    simp [base32EncodeGroups, base32Unpadded, quintet1, quintet2, quintet3, quintet4, quintet5]
  | case5 a b c d =>
    simp [base32EncodeGroups, base32Unpadded, quintet1, quintet2, quintet3, quintet4, quintet5,
      quintet6, quintet7]
  | case6 => rfl

theorem base32Decode_pads (pads : Nat) : base32Decode (List.replicate pads pad) = [] := by
  cases pads with
  | zero => simp [base32Decode]
  | succ pads => simp [replicate_succ, base32Decode]

theorem base32Decode_group {c : UInt8} (noPad : c ≠ pad) (rest : List UInt8) :
    base32Decode (c :: rest) = base32DecodeGroup (c :: rest) ++ base32Decode (rest.drop 7) := by
  rw [base32Decode, if_neg noPad]

theorem base32Decode_unpadded (source : List UInt8) (pads : Nat) :
    base32Decode (base32Unpadded source ++ List.replicate pads pad) = source := by
  have read {index : UInt8} (inside : index.toNat < 32) := base32Enc_readBack.entry_entry inside
  have plain {index : UInt8} (inside : index.toNat < 32) := base32Enc_readBack.entry_ne_pad inside
  induction source using base32EncodeGroups.induct with
  | case1 a b c d e rest ih =>
    simp only [base32Unpadded, map_cons, map_nil, cons_append, nil_append]
    rw [base32Decode_group (plain (quintet1_lt a))]
    simp [base32DecodeGroup, read, plain, quintet1_lt, quintet2_lt, quintet3_lt, quintet4_lt,
      quintet5_lt, quintet6_lt, quintet7_lt, quintet8_lt, quintets_first, quintets_second,
      quintets_third, quintets_fourth, quintets_fifth, ih]
  | case2 a =>
    simp only [base32Unpadded, map_cons, map_nil, cons_append, nil_append]
    rw [base32Decode_group (plain (quintet1_lt a))]
    simp [base32DecodeGroup, read, quintet1_lt, quintet2_lt, quintets_first, base32Decode_pads]
  | case3 a b =>
    simp only [base32Unpadded, map_cons, map_nil, cons_append, nil_append]
    rw [base32Decode_group (plain (quintet1_lt a))]
    simp [base32DecodeGroup, read, plain, quintet1_lt, quintet2_lt, quintet3_lt, quintet4_lt,
      quintets_first, quintets_second, base32Decode_pads]
  | case4 a b c =>
    simp only [base32Unpadded, map_cons, map_nil, cons_append, nil_append]
    rw [base32Decode_group (plain (quintet1_lt a))]
    simp [base32DecodeGroup, read, plain, quintet1_lt, quintet2_lt, quintet3_lt, quintet4_lt,
      quintet5_lt, quintets_first, quintets_second, quintets_third, base32Decode_pads]
  | case5 a b c d =>
    simp only [base32Unpadded, map_cons, map_nil, cons_append, nil_append]
    rw [base32Decode_group (plain (quintet1_lt a))]
    simp [base32DecodeGroup, read, plain, quintet1_lt, quintet2_lt, quintet3_lt, quintet4_lt,
      quintet5_lt, quintet6_lt, quintet7_lt, quintets_first, quintets_second, quintets_third,
      quintets_fourth, base32Decode_pads]
  | case6 => exact base32Decode_pads pads

theorem base32Decode_encode (source : List UInt8) : base32Decode (base32Encode source) = source := by
  rw [base32Encode, base32EncodeGroups_eq]
  exact base32Decode_unpadded source _

theorem length_base32EncodeGroups (source : List UInt8) :
    (base32EncodeGroups source).length = (8 * source.length + 4) / 5 := by
  induction source using base32EncodeGroups.induct with
  | case1 a b c d e rest ih =>
    simp only [base32EncodeGroups, length_cons, ih]
    omega
  | _ => simp [base32EncodeGroups]

theorem length_base32Encode (source : List UInt8) :
    (base32Encode source).length = 8 * ((source.length + 4) / 5) := by
  simp only [base32Encode, length_append, length_replicate, length_base32EncodeGroups]
  omega

end Base32

/-! ## Base 16 -/

section Base16

theorem nibbles (p : UInt8) : (((p >>> 4) &&& 0x0F) <<< 4) ||| (p &&& 0x0F) = p := by
  refine eq_of_bits fun place inside => ?_
  interval_cases place <;> simp

theorem upperNibble_lt (p : UInt8) : ((p >>> 4) &&& 0x0F).toNat < 16 := by
  refine @toNat_lt_of_and _ 0x0F (eq_of_bits fun place inside => ?_)
  interval_cases place <;> simp

theorem lowerNibble_lt (p : UInt8) : (p &&& 0x0F).toNat < 16 := by
  refine @toNat_lt_of_and _ 0x0F (eq_of_bits fun place inside => ?_)
  interval_cases place <;> simp

theorem length_base16Encode (source : List UInt8) :
    (base16Encode source).length = 2 * source.length := by
  induction source with
  | nil => rfl
  | cons p source ih =>
    simp only [base16Encode, flatMap_cons, length_append] at ih ⊢
    rw [ih]
    simp
    omega

theorem base16Decode_encode (source : List UInt8) :
    base16Decode (base16Encode source) = .ok source := by
  have pairs : base16DecodePairs (base16Encode source) = source := by
    induction source with
    | nil => rfl
    | cons p source ih =>
      have read {index : UInt8} (inside : index.toNat < 16) :=
        base16Enc_readBack.entry_entry inside
      have pair : base16DecodePairs (base16Encode (p :: source)) =
          ((entry base16Dec (entry base16Enc ((p >>> 4) &&& 0x0F)) <<< 4) |||
            entry base16Dec (entry base16Enc (p &&& 0x0F))) ::
              base16DecodePairs (base16Encode source) := rfl
      rw [pair, read (upperNibble_lt p), read (lowerNibble_lt p), nibbles, ih]
  have even : (base16Encode source).length % 2 = 0 := by
    rw [length_base16Encode]
    omega
  rw [base16Decode, check_eq even, pairs]
  rfl

end Base16

/-- Every codec gives back what it was given, and base 64 does so without its `=`. -/
theorem base_codecs_round_trip (source : List UInt8) :
    (base64Decode (base64Encode source) = source ∧
      base64Decode (base64EncodeUrl source) = source ∧
      base32Decode (base32Encode source) = source ∧
      base16Decode (base16Encode source) = .ok source) ∧
    ((base64Encode source).length = 4 * ((source.length + 2) / 3) ∧
      (base64EncodeUrl source).length = 4 * ((source.length + 2) / 3) ∧
      (base32Encode source).length = 8 * ((source.length + 4) / 5) ∧
      (base16Encode source).length = 2 * source.length) ∧
    base64Decode ((base64Encode source).rdropWhile (· = pad)) = source ∧
      base64Decode ((base64EncodeUrl source).rdropWhile (· = pad)) = source :=
  ⟨⟨base64Decode_encode base64Enc_readBack source, base64Decode_encode base64Url_readBack source,
      base32Decode_encode source, base16Decode_encode source⟩,
    ⟨length_base64EncodeTable source, length_base64EncodeTable source, length_base32Encode source,
      length_base16Encode source⟩,
    base64Decode_stripped base64Enc_readBack source,
    base64Decode_stripped base64Url_readBack source⟩

end CLibs.BaseCodecs
