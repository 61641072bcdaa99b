import CLibs.Bitmaps
import CLibs.Hweight

/-!
# Questions about a bitmap

The functions of `bitmap.c` that count bits.  Sizes are `size_t`.  The two functions that look for a
zero bit differ from the two that look for a one bit in how a byte is looked at.
-/

namespace CLibs.Bitmaps

open BitStrings Hweight List

/-- A bitmap in memory.  No address space has `2 ^ 61` bytes for it. -/
structure SizedBitmap where
  bytes : List UInt8
  nbits : Nat
  inside : nbits ≤ 8 * bytes.length
  addressable : bytes.length + 1 < 2 ^ 61

/-! ## Calls -/

def bitsToBytes (nbits : Nat) : Nat :=
  (nbits + 8 - 1) % 2 ^ 64 / 8

def longAt (bytes : List UInt8) (i : Nat) : Except Fault UInt64 :=
  if 8 * i + 8 ≤ bytes.length then .ok (loadLong ((bytes.drop (8 * i)).take 8)) else .error .outside

/-- The first loop of `bitmap_weight`, with `left` words to go. -/
def weightLongs (bytes : List UInt8) : (left i w : Nat) → Except Fault Nat
  | 0, _, w => .ok w
  | left + 1, i, w => do
      let word ← longAt bytes i
      weightLongs bytes left (i + 1) ((w + hweight64 word) % 2 ^ 64)

/-- The second loop of `bitmap_weight`; `p8` is the number of a byte. -/
def weightBytes (bytes : List UInt8) : (i p8 w : Nat) → Except Fault Nat
  | 0, _, w => .ok w
  | i + 1, p8, w => do
      let byte ← byteAt bytes p8
      weightBytes bytes i (p8 + 1) ((w + hweight8 byte) % 2 ^ 64)

def bitmapWeight (bitmap : List UInt8) (nbits : Nat) : Except Fault Nat := do
  let longs := nbits / (8 * 8)
  let w ← weightLongs bitmap longs 0 0
  let i := nbits % (8 * 8) / 8
  let w ← weightBytes bitmap i (8 * longs) w
  if nbits % 8 ≠ 0 then do
    let byte ← byteAt bitmap (8 * longs + i)
    .ok ((w + hweight8 (byte &&& bitsMaskByte (nbits % 8))) % 2 ^ 64)
  else .ok w

def clz8 (v : UInt8) : Nat :=
  let (num, v) := if 0xF0 &&& v ≠ 0 then (8 - 4, v >>> 4) else (8, v)
  let (num, v) := if 0xC &&& v ≠ 0 then (num - 2, v >>> 2) else (num, v)
  let (num, v) := if 0x2 &&& v ≠ 0 then (num - 1, v >>> 1) else (num, v)
  if 0x1 &&& v ≠ 0 then num - 1 else num

def ffz8 (v : UInt8) : Nat :=
  clz8 (~~~v)

/-- The loop over the bytes, with `left` of them to go: `i` and `c` behind it. -/
def leadingLoop (count : UInt8 → Nat) (bitmap : List UInt8) : (left i c : Nat) → Except Fault (Nat × Nat)
  | 0, i, c => .ok (i, c)
  | left + 1, i, _ => do
      let byte ← byteAt bitmap i
      if count byte < 8 then .ok (i, count byte) else leadingLoop count bitmap left (i + 1) (count byte)

def countLeading (count : UInt8 → Nat) (bitmap : List UInt8) (nbits : Nat) : Except Fault Nat := do
  let (i, c) ← leadingLoop count bitmap (bitsToBytes nbits) 0 0
  let c := (c + i * 8) % 2 ^ 64
  .ok (if nbits < c then nbits else c)

def bitmapCountLeadingZero : List UInt8 → Nat → Except Fault Nat :=
  countLeading clz8

def bitmapFindFirstZero : List UInt8 → Nat → Except Fault Nat :=
  countLeading ffz8

def countNext (first : UInt8 → Nat → Nat) (leading : List UInt8 → Nat → Except Fault Nat)
    (bitmap : List UInt8) (nbits start : Nat) : Except Fault Nat := do
  let i := start / 8
  let byte ← byteAt bitmap i
  let c := first byte (start % 8)
  let c ← if c = 8 ∧ i + 1 < bitsToBytes nbits then do
      let more ← leading (bitmap.drop (i + 1)) ((nbits + 2 ^ 64 - (i + 1) * 8) % 2 ^ 64)
      .ok ((c + more) % 2 ^ 64)
    else .ok c
  let c := (c + i * 8) % 2 ^ 64
  let c := if nbits < c then nbits else c
  .ok ((c + 2 ^ 64 - start) % 2 ^ 64)

def bitmapCountNextZero : List UInt8 → Nat → Nat → Except Fault Nat :=
  countNext (fun byte place => clz8 (byte &&& maskBehind place)) bitmapCountLeadingZero

def bitmapFindNextZero : List UInt8 → Nat → Nat → Except Fault Nat :=
  countNext (fun byte place => ffz8 (byte ||| bitsMaskByte place)) bitmapFindFirstZero

/-! ## Bytes -/

theorem forall_byte (property : UInt8 → Prop) (all : ∀ v : Fin 256, property (UInt8.ofNat v)) (byte : UInt8) :
    property byte := by
  have here := all ⟨byte.toNat, byte.toNat_lt⟩
  rwa [UInt8.ofNat_toNat] at here

theorem clz8_eq (v : UInt8) : clz8 v = run false (byteBits v) :=
  forall_byte (fun v => clz8 v = run false (byteBits v)) (by decide +kernel) v

theorem ffz8_eq (v : UInt8) : ffz8 v = run true (byteBits v) :=
  forall_byte (fun v => ffz8 v = run true (byteBits v)) (by decide +kernel) v

theorem Covers.byteBits {operation : UInt8 → UInt8 → UInt8} {mask : UInt8} {value : Bool} {first last : Nat}
    (covers : Covers operation mask value first last) (ordered : first ≤ last) (most : last ≤ 8) (v : UInt8) :
    byteBits (operation v mask) =
      (byteBits v).take first ++ (List.replicate (last - first) value ++ (byteBits v).drop last) := by
  have size := length_byteBits v
  apply ext_getElem?
  intro place
  by_cases inside : place < 8
  · rw [getElem?_byteBits _ inside, covers v place inside]
    by_cases below : place < first
    · rw [List.getElem?_append_left (by simp; omega), List.getElem?_take_of_lt below,
        getElem?_byteBits _ inside, if_neg (by omega)]
    · rw [List.getElem?_append_right (by simp; omega), length_take, size, min_eq_left (by omega)]
      by_cases above : place < last
      · rw [List.getElem?_append_left (by simp; omega), List.getElem?_replicate, if_pos (by omega),
          if_pos (by omega)]
      · rw [List.getElem?_append_right (by simp; omega), length_replicate, List.getElem?_drop,
          show last + (place - first - (last - first)) = place by omega, getElem?_byteBits _ inside,
          if_neg (by omega)]
  · rw [List.getElem?_eq_none (by simp; omega), List.getElem?_eq_none (by simp; omega)]

variable {place : Nat}

theorem maskBehind_hides (small : place < 8) :
    Covers (· &&& ·) (maskBehind place) false 0 place := by
  intro byte bit inside
  dsimp only
  rw [UInt8.toNat_and, Nat.testBit_and, maskBehind_bit small inside]
  by_cases hidden : bit < place
  · simp [hidden]
  · simp [hidden, Nat.not_lt.mp hidden]

theorem bitsMaskByte_hides (small : place < 8) :
    Covers (· ||| ·) (bitsMaskByte place) true 0 place := by
  intro byte bit inside
  dsimp only
  rw [UInt8.toNat_or, Nat.testBit_or, bitsMaskByte_bit small inside]
  by_cases hidden : bit < place <;> simp [hidden]

theorem run_hidden {value : Bool} (place : Nat) (sequence : List Bool) :
    run value (List.replicate place value ++ sequence) = place + run value sequence := by
  have full : run value (List.replicate place value) = (List.replicate place value).length := by
    rw [run, takeWhile_replicate]
    simp
  rw [run_append_of_full full, length_replicate]

theorem clz8_masked (v : UInt8) (small : place < 8) :
    clz8 (v &&& maskBehind place) = place + run false ((byteBits v).drop place) := by
  rw [clz8_eq, (maskBehind_hides small).byteBits (Nat.zero_le _) small.le v]
  exact run_hidden place _

theorem ffz8_masked (v : UInt8) (small : place < 8) :
    ffz8 (v ||| bitsMaskByte place) = place + run true ((byteBits v).drop place) := by
  rw [ffz8_eq, (bitsMaskByte_hides small).byteBits (Nat.zero_le _) small.le v]
  exact run_hidden place _

variable {nbits : Nat}

theorem hweight8_masked (v : UInt8) (few : nbits < 8) :
    hweight8 (v &&& bitsMaskByte nbits) = ((byteBits v).take nbits).count true := by
  have none : (byteBits v).drop 8 = [] := drop_eq_nil_of_le (length_byteBits v).le
  rw [hweight8_eq, (bitsMaskByte_covers few).byteBits few.le le_rfl v, none, append_nil,
    count_append, count_replicate]
  rfl

/-! ## Runs -/

section Runs

variable {bytes : List UInt8} {value : Bool} {count : UInt8 → Nat}

theorem byteAt_eq {index : Nat} (inside : index < bytes.length) : byteAt bytes index = .ok bytes[index] := by
  rw [byteAt, List.getElem?_eq_getElem inside]

variable {i : Nat}

theorem leadingLoop_run (counts : ∀ byte, count byte = run value (byteBits byte)) {left c : Nat}
    (inside : i + left ≤ bytes.length) (small : c ≤ 8) :
    ∃ j last, leadingLoop count bytes left i c = .ok (j, last) ∧ j ≤ i + left ∧ last ≤ 8 ∧
      min (8 * (i + left)) (last + j * 8) = 8 * i + run value (bits ((bytes.drop i).take left)) := by
  induction left generalizing i c with
  | zero =>
    refine ⟨i, c, rfl, le_rfl, small, ?_⟩
    rw [take_zero]
    change min (8 * (i + 0)) (c + i * 8) = 8 * i + 0
    omega
  | succ left ih =>
    have here : i < bytes.length := by omega
    have split : bits ((bytes.drop i).take (left + 1)) =
        byteBits bytes[i] ++ bits ((bytes.drop (i + 1)).take left) := by
      rw [drop_eq_getElem_cons here, take_succ_cons, bits_cons]
    have length := length_byteBits bytes[i]
    have most := run_le_length value (byteBits bytes[i])
    rw [leadingLoop, byteAt_eq here, ok_bind, counts, split]
    by_cases ends : run value (byteBits bytes[i]) < 8
    · rw [if_pos ends, run_append_of_lt (by omega)]
      exact ⟨i, _, rfl, by omega, by omega, by omega⟩
    · obtain ⟨j, last, looped, less, lastSmall, found⟩ :=
        ih (i := i + 1) (c := run value (byteBits bytes[i])) (by omega) (by omega)
      rw [if_neg ends, run_append_of_full (by omega)]
      exact ⟨j, last, looped, by omega, lastSmall, by omega⟩

theorem bitsToBytes_eq (inside : nbits ≤ 8 * bytes.length)
    (addressable : bytes.length + 1 < 2 ^ 61) :
    bitsToBytes nbits = (nbits + 7) / 8 := by
  rw [bitsToBytes, Nat.mod_eq_of_lt (by omega)]
  rfl

theorem countLeading_run (counts : ∀ byte, count byte = run value (byteBits byte))
    (inside : nbits ≤ 8 * bytes.length) (addressable : bytes.length + 1 < 2 ^ 61) :
    countLeading count bytes nbits = .ok (run value ((bits bytes).take nbits)) := by
  have whole : nbits ≤ 8 * ((nbits + 7) / 8) := by omega
  have fits : 0 + (nbits + 7) / 8 ≤ bytes.length := by omega
  obtain ⟨j, last, looped, less, small, found⟩ := leadingLoop_run counts fits (Nat.zero_le 8)
  have first : (bits bytes).take nbits = (bits (bytes.take ((nbits + 7) / 8))).take nbits := by
    rw [← take_bits, take_take, min_eq_left whole]
  rw [drop_zero] at found
  rw [countLeading, bitsToBytes_eq inside addressable, looped, ok_bind, first, run_take]
  dsimp only
  rw [Nat.mod_eq_of_lt (by omega)]
  congr 1
  split <;> omega

variable {start : Nat}

theorem drop_bits_place (inside : start / 8 < bytes.length) :
    (bits bytes).drop start =
      (byteBits bytes[start / 8]).drop (start % 8) ++ bits (bytes.drop (start / 8 + 1)) := by
  have place : start = 8 * (start / 8) + start % 8 := (Nat.div_add_mod start 8).symm
  conv_lhs => rw [place]
  rw [← drop_drop, drop_bits, drop_eq_getElem_cons inside, bits_cons,
    drop_append_of_le_length (by rw [length_byteBits]; omega)]

theorem clamp_eq {c : Nat} (within : start < nbits) (reached : start ≤ c) (size : nbits < 2 ^ 64)
    (noWrap : c < 2 ^ 64) :
    ((if nbits < c % 2 ^ 64 then nbits else c % 2 ^ 64) + 2 ^ 64 - start) % 2 ^ 64 = min nbits c - start := by
  rw [Nat.mod_eq_of_lt noWrap]
  split <;> omega

theorem countNext_run {first : UInt8 → Nat → Nat} {leading : List UInt8 → Nat → Except Fault Nat}
    (firsts : ∀ byte, ∀ place < 8, first byte place = place + run value ((byteBits byte).drop place))
    (leads : ∀ bytes nbits, nbits ≤ 8 * bytes.length → bytes.length + 1 < 2 ^ 61 →
      leading bytes nbits = .ok (run value ((bits bytes).take nbits)))
    (inside : nbits ≤ 8 * bytes.length) (addressable : bytes.length + 1 < 2 ^ 61)
    (within : start < nbits) :
    countNext first leading bytes nbits start = .ok (run value (((bits bytes).take nbits).drop start)) := by
  have offset : start % 8 < 8 := Nat.mod_lt _ (by decide)
  have here : start / 8 < bytes.length := by omega
  have size : ((byteBits bytes[start / 8]).drop (start % 8)).length = 8 - start % 8 := by
    rw [length_drop, length_byteBits]
  have most := run_le_length value ((byteBits bytes[start / 8]).drop (start % 8))
  rw [countNext, byteAt_eq here, ok_bind, bitsToBytes_eq inside addressable, firsts _ _ offset, drop_take,
    run_take, drop_bits_place here]
  dsimp only
  by_cases full : run value ((byteBits bytes[start / 8]).drop (start % 8)) = 8 - start % 8
  · rw [run_append_of_full (full.trans size.symm), size, full]
    by_cases more : start / 8 + 1 < (nbits + 7) / 8
    · have rest : (nbits + 2 ^ 64 - (start / 8 + 1) * 8) % 2 ^ 64 = nbits - 8 * (start / 8 + 1) := by omega
      have length : (bytes.drop (start / 8 + 1)).length = bytes.length - (start / 8 + 1) := length_drop
      rw [if_pos ⟨by omega, more⟩, rest, leads _ _ (by omega) (by omega), ok_bind, ok_bind, run_take]
      generalize run value (bits (bytes.drop (start / 8 + 1))) = behind
      have wrap : (start % 8 + (8 - start % 8) + min (nbits - 8 * (start / 8 + 1)) behind) % 2 ^ 64 =
          start % 8 + (8 - start % 8) + min (nbits - 8 * (start / 8 + 1)) behind :=
        Nat.mod_eq_of_lt (by omega)
      rw [wrap, clamp_eq within (by omega) (by omega) (by omega)]
      congr 1
      omega
    · rw [if_neg (by omega), ok_bind, clamp_eq within (by omega) (by omega) (by omega)]
      congr 1
      omega
  · rw [run_append_of_lt (by omega), if_neg (by omega), ok_bind,
      clamp_eq within (by omega) (by omega) (by omega)]
    congr 1
    omega

end Runs

/-! ## Weight -/

section Weight

variable {bytes : List UInt8}

theorem count_bits_le (bytes : List UInt8) : (bits bytes).count true ≤ 8 * bytes.length :=
  count_le_length.trans_eq (length_bits bytes)

theorem weightLongs_count {left w : Nat} (inside : 8 * (i + left) ≤ bytes.length)
    (room : w + 64 * left < 2 ^ 64) :
    weightLongs bytes left i w = .ok (w + (bits ((bytes.drop (8 * i)).take (8 * left))).count true) := by
  induction left generalizing i w with
  | zero => rfl
  | succ left ih =>
    have size : ((bytes.drop (8 * i)).take 8).length = 8 := by
      rw [length_take, length_drop]
      omega
    have most := count_bits_le ((bytes.drop (8 * i)).take 8)
    have next : (bytes.drop (8 * i)).drop 8 = bytes.drop (8 * (i + 1)) := by
      rw [drop_drop, Nat.mul_add]
    have split : (bytes.drop (8 * i)).take (8 * (left + 1)) =
        (bytes.drop (8 * i)).take 8 ++ (bytes.drop (8 * (i + 1))).take (8 * left) := by
      rw [Nat.mul_add, Nat.add_comm (8 * left), take_add, next]
    rw [weightLongs, longAt, if_pos (by omega), ok_bind, hweight64_loadLong size,
      Nat.mod_eq_of_lt (by omega), ih (by omega) (by omega), split, bits_append, count_append,
      Nat.add_assoc]

theorem weightBytes_count {p8 w : Nat} (inside : p8 + i ≤ bytes.length)
    (room : w + 8 * i < 2 ^ 64) :
    weightBytes bytes i p8 w = .ok (w + (bits ((bytes.drop p8).take i)).count true) := by
  induction i generalizing p8 w with
  | zero => rfl
  | succ i ih =>
    have here : p8 < bytes.length := by omega
    have most : (byteBits bytes[p8]).count true ≤ 8 := count_le_length.trans_eq (length_byteBits _)
    rw [weightBytes, byteAt_eq here, ok_bind, hweight8_eq, Nat.mod_eq_of_lt (by omega),
      ih (by omega) (by omega), drop_eq_getElem_cons here, take_succ_cons, bits_cons,
      count_append, Nat.add_assoc]

theorem bitmapWeight_count (inside : nbits ≤ 8 * bytes.length) (size : nbits < 2 ^ 64) :
    bitmapWeight bytes nbits = .ok (((bits bytes).take nbits).count true) := by
  have parts : nbits = 8 * (8 * (nbits / 64)) + (8 * (nbits % 64 / 8) + nbits % 8) := by omega
  have split : (bits bytes).take nbits = bits (bytes.take (8 * (nbits / 64))) ++
      (bits ((bytes.drop (8 * (nbits / 64))).take (nbits % 64 / 8)) ++
        (bits (bytes.drop (8 * (nbits / 64) + nbits % 64 / 8))).take (nbits % 8)) := by
    conv_lhs => rw [parts]
    rw [take_add, take_bits, drop_bits, take_add, take_bits, drop_bits, drop_drop]
  have fits : 8 * (0 + nbits / 64) ≤ bytes.length := by omega
  have room : 0 + 64 * (nbits / 64) < 2 ^ 64 := by omega
  have longs := weightLongs_count fits room
  have most := count_bits_le (bytes.take (8 * (nbits / 64)))
  rw [length_take] at most
  have few := count_bits_le ((bytes.drop (8 * (nbits / 64))).take (nbits % 64 / 8))
  rw [length_take] at few
  rw [Nat.mul_zero, drop_zero, Nat.zero_add] at longs
  rw [bitmapWeight]
  simp only [Nat.reduceMul]
  rw [longs, ok_bind, weightBytes_count (by omega) (by omega), ok_bind, split, count_append,
    count_append]
  by_cases partly : nbits % 8 = 0
  · rw [if_neg (not_not.mpr partly), partly, take_zero, count_nil, Nat.add_zero]
  · have here : 8 * (nbits / 64) + nbits % 64 / 8 < bytes.length := by omega
    have last : (bits (bytes.drop (8 * (nbits / 64) + nbits % 64 / 8))).take (nbits % 8) =
        (byteBits bytes[8 * (nbits / 64) + nbits % 64 / 8]).take (nbits % 8) := by
      rw [drop_eq_getElem_cons here, bits_cons,
        take_append_of_le_length (by rw [length_byteBits]; omega)]
    have less : ((byteBits bytes[8 * (nbits / 64) + nbits % 64 / 8]).take (nbits % 8)).count true ≤ nbits % 8 :=
      count_le_length.trans (length_take_le _ _)
    rw [if_pos partly, byteAt_eq here, ok_bind, hweight8_masked _ (Nat.mod_lt _ (by decide)), last,
      Nat.mod_eq_of_lt (by omega), Nat.add_assoc]

end Weight

/-- The bits that belong to the bitmap. -/
def SizedBitmap.front (bitmap : SizedBitmap) : List Bool :=
  (bits bitmap.bytes).take bitmap.nbits

/-- Every question is answered by the first `nbits` bits alone. -/
theorem bitmap_queries (bitmap : SizedBitmap) :
    bitmapWeight bitmap.bytes bitmap.nbits = .ok (bitmap.front.count true) ∧
    bitmapCountLeadingZero bitmap.bytes bitmap.nbits = .ok (run false bitmap.front) ∧
    bitmapFindFirstZero bitmap.bytes bitmap.nbits = .ok (run true bitmap.front) ∧
    ∀ start < bitmap.nbits,
      bitmapCountNextZero bitmap.bytes bitmap.nbits start = .ok (run false (bitmap.front.drop start)) ∧
      bitmapFindNextZero bitmap.bytes bitmap.nbits start = .ok (run true (bitmap.front.drop start)) := by
  obtain ⟨bytes, nbits, inside, addressable⟩ := bitmap
  have size : nbits < 2 ^ 64 := by omega
  refine ⟨bitmapWeight_count inside size, countLeading_run clz8_eq inside addressable,
    countLeading_run ffz8_eq inside addressable, ?_⟩
  intro start within
  constructor
  · exact countNext_run (fun byte _ small => clz8_masked byte small)
      (fun _ _ => countLeading_run clz8_eq) inside addressable within
  · exact countNext_run (fun byte _ small => ffz8_masked byte small)
      (fun _ _ => countLeading_run ffz8_eq) inside addressable within

/-- Four ones from bit 6 on, and then a zero. -/
theorem bitmap_queries_four : bitmapFindNextZero [0xEF, 0xCD, 0xA8, 0x19] 32 6 = .ok 4 := by
  have answered := ((bitmap_queries ⟨[0xEF, 0xCD, 0xA8, 0x19], 32, by decide, by decide⟩).2.2.2 6 (by decide)).2
  exact answered

/-! ## Sequences of calls -/

/-- A call of `bitmap_set` or of `bitmap_clear`. -/
structure RangeCall where
  value : Bool
  start : Nat
  len : Nat

def RangeCall.run (bitmap : Bitmap) (call : RangeCall) : Except Fault Bitmap :=
  (if call.value then bitmapSet else bitmapClear) bitmap call.start call.len

/-- Every bit is as the last call over its place leaves it. -/
def bitsBehind (calls : List RangeCall) (bytes : List UInt8) : List Bool :=
  (bits bytes).mapIdx fun place bit => calls.foldl (fun bit call =>
    if call.start ≤ place ∧ place < call.start + call.len then call.value else bit) bit

theorem calls_become {calls : List RangeCall} {bitmap : Bitmap}
    (size : 8 * bitmap.bytes.length < 2 ^ 64)
    (inside : ∀ call ∈ calls, call.start + call.len ≤ 8 * bitmap.bytes.length) :
    ∃ behind, calls.foldlM RangeCall.run bitmap = .ok behind ∧
      behind.bytes.length = bitmap.bytes.length ∧
      bits behind.bytes = bitsBehind calls bitmap.bytes := by
  induction calls generalizing bitmap with
  | nil => exact ⟨bitmap, rfl, rfl, (mapIdx_eq_iff.mpr fun _ => Option.map_id'.symm).symm⟩
  | cons call calls ih =>
    obtain ⟨first, others⟩ := forall_mem_cons.mp inside
    obtain ⟨between, ran, becomes⟩ : ∃ between, call.run bitmap = .ok between ∧
        RangeBecomes call.value call.start (call.start + call.len) bitmap between := by
      obtain ⟨value, start, len⟩ := call
      cases value with
      | false => exact bitmapClear_becomes (first.trans_lt size) first
      | true => exact bitmapSet_becomes (first.trans_lt size) first
    rw [← becomes.size] at size others
    obtain ⟨behind, rest, same, after⟩ := ih size others
    refine ⟨behind, by rw [foldlM_cons, ran, ok_bind, rest], same.trans becomes.size, ?_⟩
    refine after.trans (mapIdx_eq_iff.mpr fun place => ?_)
    rw [bitsBehind, List.getElem?_mapIdx]
    rcases Nat.lt_or_ge place (8 * bitmap.bytes.length) with within | beyond
    · rw [becomes.bit place within, List.getElem?_eq_getElem (by rwa [length_bits])]
      simp only [Option.map_some, foldl_cons]
      split <;> rfl
    · have none (bytes : List UInt8) (same : bytes.length = bitmap.bytes.length) :
          (bits bytes)[place]? = none := List.getElem?_eq_none (by rwa [length_bits, same])
      rw [none _ becomes.size, none _ rfl]
      rfl

/-- Behind any calls each bit is what the last call over its place set it to, and the queries answer
for these bits. -/
theorem bitmap_run_queries (bitmap : SizedBitmap) {calls : List RangeCall}
    (inside : ∀ call ∈ calls, call.start + call.len ≤ 8 * bitmap.bytes.length) :
    ∃ behind, calls.foldlM RangeCall.run ⟨bitmap.bytes, []⟩ = .ok behind ∧
      bits behind.bytes = bitsBehind calls bitmap.bytes ∧
      bitmapWeight behind.bytes bitmap.nbits =
        .ok (((bitsBehind calls bitmap.bytes).take bitmap.nbits).count true) ∧
      ∀ start < bitmap.nbits, bitmapFindNextZero behind.bytes bitmap.nbits start =
        .ok (run true (((bitsBehind calls bitmap.bytes).take bitmap.nbits).drop start)) := by
  obtain ⟨bytes, nbits, fits, addressable⟩ := bitmap
  have size : 8 * (Bitmap.mk bytes []).bytes.length < 2 ^ 64 := by
    dsimp only
    omega
  obtain ⟨behind, ran, same, after⟩ := calls_become size inside
  rw [← same] at fits addressable
  dsimp only at after ⊢
  rw [← after]
  exact ⟨behind, ran, rfl, bitmapWeight_count fits (by omega), fun start within =>
    countNext_run (fun byte _ small => ffz8_masked byte small)
      (fun _ _ => countLeading_run ffz8_eq) fits addressable within⟩

/-- Nine bits are set, and two of them are cleared again. -/
theorem bitmap_run_queries_two :
    ∃ behind, [RangeCall.mk true 3 9, ⟨false, 5, 2⟩].foldlM RangeCall.run ⟨[0, 0], []⟩ = .ok behind ∧
      bits behind.bytes = bitsBehind [⟨true, 3, 9⟩, ⟨false, 5, 2⟩] [0, 0] ∧
      bitmapWeight behind.bytes 16 = .ok 7 ∧ bitmapFindNextZero behind.bytes 16 3 = .ok 2 := by
  obtain ⟨behind, ran, same, weight, next⟩ := @bitmap_run_queries ⟨[0, 0], 16, by decide, by decide⟩
    [⟨true, 3, 9⟩, ⟨false, 5, 2⟩] (by simp)
  exact ⟨behind, ran, same, weight, next 3 (by decide)⟩

end CLibs.Bitmaps
