import Mathlib.Data.List.TakeWhile
import Mathlib.Data.Nat.Bitwise

/-!
# Bytes as bits

A sequence of bytes is a sequence of bits, the highest bit of each byte first.  A run is a longest
beginning of a sequence that has one value.
-/

namespace CLibs.BitStrings

open List

/-! ## Bits -/

def byteBits (byte : UInt8) : List Bool :=
  (List.range 8).map fun place => byte.toNat.testBit (7 - place)

/-- The bits of the bytes, the highest of each first. -/
def bits (bytes : List UInt8) : List Bool :=
  bytes.flatMap byteBits

@[simp]
theorem length_byteBits (byte : UInt8) : (byteBits byte).length = 8 := by
  rw [byteBits, length_map, length_range]

theorem getElem?_byteBits (byte : UInt8) {place : Nat} (inside : place < 8) :
    (byteBits byte)[place]? = some (byte.toNat.testBit (7 - place)) := by
  rw [byteBits, List.getElem?_map, List.getElem?_range inside]
  rfl

theorem bits_cons (byte : UInt8) (bytes : List UInt8) : bits (byte :: bytes) = byteBits byte ++ bits bytes := rfl

theorem bits_append (first second : List UInt8) : bits (first ++ second) = bits first ++ bits second :=
  flatMap_append

@[simp]
theorem length_bits (bytes : List UInt8) : (bits bytes).length = 8 * bytes.length := by
  induction bytes with
  | nil => rfl
  | cons byte bytes ih =>
    rw [bits_cons, length_append, length_byteBits, ih, length_cons]
    omega

theorem drop_bits (bytes : List UInt8) (count : Nat) :
    (bits bytes).drop (8 * count) = bits (bytes.drop count) := by
  induction count generalizing bytes with
  | zero => rfl
  | succ count ih =>
    cases bytes with
    | nil => simp [bits]
    | cons byte bytes =>
      have split : 8 * (count + 1) = (byteBits byte).length + 8 * count := by
        rw [length_byteBits]
        omega
      rw [bits_cons, split, drop_length_add_append, ih, drop_succ_cons]

theorem take_bits (bytes : List UInt8) (count : Nat) :
    (bits bytes).take (8 * count) = bits (bytes.take count) := by
  induction count generalizing bytes with
  | zero => rfl
  | succ count ih =>
    cases bytes with
    | nil => simp [bits]
    | cons byte bytes =>
      have split : 8 * (count + 1) = (byteBits byte).length + 8 * count := by
        rw [length_byteBits]
        omega
      rw [bits_cons, split, take_length_add_append, ih, take_succ_cons, bits_cons]

theorem getElem?_bits (bytes : List UInt8) (place : Nat) :
    (bits bytes)[place]? = bytes[place / 8]?.map fun byte => byte.toNat.testBit (7 - place % 8) := by
  have split : place = 8 * (place / 8) + place % 8 := (Nat.div_add_mod place 8).symm
  have inside : place % 8 < 8 := Nat.mod_lt _ (by decide)
  calc (bits bytes)[place]?
    _ = ((bits bytes).drop (8 * (place / 8)))[place % 8]? := by rw [List.getElem?_drop, ← split]
    _ = (bits (bytes.drop (place / 8)))[place % 8]? := by rw [drop_bits]
    _ = bytes[place / 8]?.map fun byte => byte.toNat.testBit (7 - place % 8) := by
        have head : bytes[place / 8]? = (bytes.drop (place / 8))[0]? := by
          rw [List.getElem?_drop, Nat.add_zero]
        rw [head]
        cases bytes.drop (place / 8) with
        | nil => rfl
        | cons byte rest =>
          rw [bits_cons, List.getElem?_append_left (by simpa using inside), getElem?_byteBits byte inside]
          rfl

/-! ## Runs -/

def run (value : Bool) (sequence : List Bool) : Nat :=
  (sequence.takeWhile (· == value)).length

variable {value : Bool} {first second sequence : List Bool}

theorem run_le_length (value : Bool) (sequence : List Bool) : run value sequence ≤ sequence.length := by
  have front : sequence.takeWhile (· == value) <+: sequence := takeWhile_prefix _
  exact front.length_le

theorem run_take (value : Bool) (sequence : List Bool) (count : Nat) :
    run value (sequence.take count) = min count (run value sequence) := by
  induction sequence generalizing count with
  | nil => rw [take_nil]; exact (Nat.min_zero _).symm
  | cons bit rest ih =>
    cases count with
    | zero => rw [take_zero, Nat.zero_min]; rfl
    | succ count =>
      by_cases same : bit = value
      · have longer (tail : List Bool) : run value (bit :: tail) = run value tail + 1 := by
          simp [run, same]
        rw [take_succ_cons, longer, longer, ih]
        omega
      · have stops (tail : List Bool) : run value (bit :: tail) = 0 := by
          simp [run, same]
        rw [take_succ_cons, stops, stops, Nat.min_zero]

theorem run_append_of_full (full : run value first = first.length) :
    run value (first ++ second) = first.length + run value second := by
  rw [run] at full ⊢
  rw [takeWhile_append, if_pos full, length_append]
  rfl

theorem run_append_of_lt (short : run value first < first.length) :
    run value (first ++ second) = run value first := by
  rw [run] at short ⊢
  rw [takeWhile_append, if_neg (Nat.ne_of_lt short)]
  rfl

end CLibs.BitStrings
