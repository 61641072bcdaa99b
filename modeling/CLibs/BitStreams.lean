import CLibs.BitStrings
import CLibs.FaultingPrograms
import Mathlib.Tactic.IntervalCases
import Mathlib.Tactic.Positivity
import Mathlib.Tactic.Ring

/-!
# Numbers as bits

A sequence of bits, the highest one first, is a number below a power of two, and each number has its
bits at every width.  What is put together of bits is put together of numbers; a byte is the number
of its eight bits.
-/

namespace CLibs.BitStrings

open List

/-! ## The number of a sequence -/

def number (sequence : List Bool) : Nat :=
  sequence.foldl (fun number bit => 2 * number + bit.toNat) 0

@[simp]
theorem number_nil : number [] = 0 := rfl

theorem number_concat (sequence : List Bool) (bit : Bool) :
    number (sequence ++ [bit]) = 2 * number sequence + bit.toNat := by
  simp [number]

theorem number_append (first second : List Bool) :
    number (first ++ second) = number first * 2 ^ second.length + number second := by
  induction second using List.reverseRecOn with
  | nil => simp
  | append_singleton second bit ih =>
    rw [← append_assoc, number_concat, ih, number_concat, length_append,
      length_singleton, pow_succ]
    ring

theorem number_lt (sequence : List Bool) : number sequence < 2 ^ sequence.length := by
  induction sequence using List.reverseRecOn with
  | nil => simp
  | append_singleton sequence bit ih =>
    have small : bit.toNat < 2 := Bool.toNat_lt bit
    rw [number_concat, length_append, length_singleton, pow_succ]
    omega

theorem number_split (sequence : List Bool) (count : Nat) :
    number (sequence.take count) = number sequence / 2 ^ (sequence.length - count) ∧
      number (sequence.drop count) = number sequence % 2 ^ (sequence.length - count) := by
  have whole := number_append (sequence.take count) (sequence.drop count)
  have small := number_lt (sequence.drop count)
  rw [take_append_drop, length_drop] at whole
  rw [length_drop] at small
  rw [whole, Nat.add_comm, Nat.add_mul_div_right _ _ (by positivity), Nat.div_eq_of_lt small,
    Nat.add_mul_mod_self_right, Nat.mod_eq_of_lt small, Nat.zero_add]
  exact ⟨rfl, rfl⟩

/-! ## The bits of a number -/

def numberBits (count value : Nat) : List Bool :=
  (List.range count).map fun place => value.testBit (count - 1 - place)

@[simp]
theorem length_numberBits (count value : Nat) : (numberBits count value).length = count := by
  simp [numberBits]

@[simp]
theorem numberBits_zero (value : Nat) : numberBits 0 value = [] := rfl

theorem numberBits_succ (count value : Nat) :
    numberBits (count + 1) value = value.testBit count :: numberBits count value := by
  simp only [numberBits, range_succ_eq_map, map_cons, map_map]
  refine congrArg₂ List.cons rfl (map_congr_left fun place _ => ?_)
  simp only [Function.comp]
  congr 1
  omega

theorem numberBits_byte (byte : UInt8) : numberBits 8 byte.toNat = byteBits byte := rfl

theorem number_cons (bit : Bool) (sequence : List Bool) :
    number (bit :: sequence) = bit.toNat * 2 ^ sequence.length + number sequence := by
  have split := number_append [bit] sequence
  simpa [number] using split

theorem number_numberBits (count value : Nat) : number (numberBits count value) = value % 2 ^ count := by
  induction count with
  | zero => simp [Nat.mod_one]
  | succ count ih =>
    have top : value / 2 ^ count % 2 = (value.testBit count).toNat := by
      rw [Nat.toNat_testBit]
    rw [numberBits_succ, number_cons, ih, length_numberBits, Nat.mod_pow_succ, top]
    ring

theorem number_byteBits (byte : UInt8) : number (byteBits byte) = byte.toNat := by
  rw [← numberBits_byte, number_numberBits]
  exact Nat.mod_eq_of_lt byte.toNat_lt

theorem numberBits_mod {count value other : Nat} (same : value % 2 ^ count = other % 2 ^ count) :
    numberBits count value = numberBits count other := by
  refine map_congr_left fun place listed => ?_
  have inside : count - 1 - place < count := by
    have := mem_range.mp listed
    omega
  have bits := congrArg (·.testBit (count - 1 - place)) same
  simpa [Nat.testBit_mod_two_pow, inside] using bits

theorem numberBits_number (sequence : List Bool) :
    numberBits sequence.length (number sequence) = sequence := by
  induction sequence with
  | nil => rfl
  | cons bit sequence ih =>
    have small := number_lt sequence
    have top : (number (bit :: sequence)).testBit sequence.length = bit := by
      rw [number_cons, Nat.mul_comm, Nat.testBit_two_pow_mul_add _ small]
      cases bit <;> simp
    have low : number (bit :: sequence) % 2 ^ sequence.length =
        number sequence % 2 ^ sequence.length := by
      rw [number_cons, Nat.mul_comm, Nat.mul_add_mod]
    rw [length_cons, numberBits_succ, top, numberBits_mod low, ih]

theorem numberBits_append (count more value : Nat) :
    numberBits (count + more) value = numberBits count (value >>> more) ++ numberBits more value := by
  induction count with
  | zero => simp
  | succ count ih =>
    rw [Nat.add_right_comm, numberBits_succ, ih, numberBits_succ, Nat.testBit_shiftRight,
      Nat.add_comm more, cons_append]

theorem take_numberBits (count more value : Nat) :
    (numberBits (count + more) value).take count = numberBits count (value >>> more) := by
  rw [numberBits_append, take_left' (length_numberBits _ _)]

theorem drop_numberBits (count more value : Nat) :
    (numberBits (count + more) value).drop count = numberBits more value := by
  rw [numberBits_append, drop_left' (length_numberBits _ _)]

theorem numberBits_shiftLeft (count more value : Nat) :
    numberBits (count + more) (value <<< more) =
      numberBits count value ++ List.replicate more false := by
  have zeros : numberBits more (value <<< more) = List.replicate more false := by
    refine eq_replicate_iff.mpr ⟨length_numberBits _ _, fun bit listed => ?_⟩
    obtain ⟨place, inside, rfl⟩ := mem_map.mp listed
    have below := mem_range.mp inside
    simp [Nat.testBit_shiftLeft]
    omega
  rw [numberBits_append, zeros, Nat.shiftLeft_shiftRight]

/-! ## Bytes without a bit -/

theorem byteBits_zero : byteBits 0 = List.replicate 8 false := by decide

theorem bits_zeros (count : Nat) :
    bits (List.replicate count 0) = List.replicate (8 * count) false := by
  induction count with
  | zero => rfl
  | succ count ih =>
    rw [replicate_succ, bits_cons, ih, byteBits_zero, replicate_append_replicate]
    congr 1
    omega

end CLibs.BitStrings

/-!
## The bit streams of `bits.c`

A `bits_t` is a buffer with an offset in bits and an error.  The loop of `bits_read_ue` that counts
zeros has fuel for its reads; a sum or a shift that an `int` cannot hold is a fault.
-/

namespace CLibs.BitStreams

open List

/-- `bits_t`, whose size is the length of its data. -/
structure Bits where
  data : List UInt8
  bits : Nat
  error : Int
  deriving DecidableEq, Repr

namespace Bits

open List

def size (bits : Bits) : Nat := bits.data.length

end Bits

def bitsInit (data : List UInt8) : Bits := ⟨data, 0, 0⟩

/-! ## Reading -/

def byteAt (data : List UInt8) (index : Nat) : Except Fault UInt8 :=
  data[index]?.elim (.error .outside) .ok

def bitsNext (bits : Bits) : Except Fault (Bits × Int) := do
  check (0 < bits.size)
  if bits.bits ≥ bits.size * 8 then return ({ bits with error := -1 }, 0)
  let byte ← byteAt bits.data (bits.bits / 8)
  let bit := byte &&& ((0x80 : UInt8) >>> UInt8.ofNat (bits.bits % 8))
  return (bits, if bit ≠ 0 then 1 else 0)

/-- The loop over whole bytes, and the beginning of the byte behind them. -/
def bitsNextTail : (rest : List UInt8) → (n : Nat) → (v : UInt64) → Except Fault UInt64
  | [], n, v => if n > 0 then .error .outside else .ok v
  | byte :: rest, n, v =>
    if n ≥ 8 then bitsNextTail rest (n - 8) ((v <<< 8) + byte.toUInt64)
    else if n > 0 then .ok ((v <<< UInt64.ofNat n) + (byte.toUInt64 >>> UInt64.ofNat (8 - n)))
    else .ok v

def bitsNextN (bits : Bits) (n : Nat) : Except Fault (Bits × UInt64) := do
  check (n > 0 ∧ n ≤ 64)
  check (0 < bits.size)
  if bits.bits + n > bits.size * 8 then return ({ bits with error := -1 }, 0)
  let byte ← byteAt bits.data (bits.bits / 8)
  let v := (byte &&& ((0xFF : UInt8) >>> UInt8.ofNat (bits.bits % 8))).toUInt64
  if n ≤ 8 - bits.bits % 8 then return (bits, v >>> UInt64.ofNat (8 - bits.bits % 8 - n))
  let v ← bitsNextTail (bits.data.drop (bits.bits / 8 + 1)) (n - (8 - bits.bits % 8)) v
  return (bits, v)

def bitsRead (bits : Bits) : Except Fault (Bits × Int) := do
  let (bits, bit) ← bitsNext bits
  if bits.error = 0 then return ({ bits with bits := bits.bits + 1 }, bit)
  return (bits, bit)

def bitsReadN (bits : Bits) (n : Nat) : Except Fault (Bits × UInt64) := do
  let (bits, bit) ← bitsNextN bits n
  if bits.error = 0 then return ({ bits with bits := bits.bits + n }, bit)
  return (bits, bit)

/-! ## Exp-Golomb codes -/

def intAdd (first second : Int) : Except Fault Int :=
  if -2 ^ 31 ≤ first + second ∧ first + second < 2 ^ 31 then .ok (first + second)
  else .error .outside

def intShift (count : Int) : Except Fault Int :=
  if 0 ≤ count ∧ count < 31 then .ok (2 ^ count.toNat) else .error .outside

/-- The loop that counts the zeros in front of a one, with fuel for its calls of `bits_read`. -/
def leadingZeros : (fuel : Nat) → Bits → (bit leadingZeroBits : Int) → Except Fault (Bits × Int)
  | fuel, bits, bit, leadingZeroBits =>
    if bit = 0 ∧ -1 ≠ bit then
      match fuel with
      | 0 => .error .fuel
      | fuel + 1 => do
          let (bits, bit) ← bitsRead bits
          check (bit = 0 ∨ bit = 1)
          let leadingZeroBits ← intAdd leadingZeroBits 1
          leadingZeros fuel bits bit leadingZeroBits
    else .ok (bits, leadingZeroBits)

def bitsReadUe (fuel : Nat) (bits : Bits) : Except Fault (Bits × Int) := do
  let (bits, leadingZeroBits) ← leadingZeros fuel bits 0 (-1)
  let (bits, bit) ←
    if leadingZeroBits > 0 then do
      check (leadingZeroBits < 32)
      let (bits, value) ← bitsReadN bits leadingZeroBits.toNat
      pure (bits, Int.bmod value.toNat (2 ^ 32))
    else pure (bits, 0)
  let shifted ← intShift leadingZeroBits
  let value ← intAdd (shifted - 1) bit
  return (bits, value)

/-- C's `%` and `/` on `int`. -/
def bitsReadSe (fuel : Nat) (bits : Bits) : Except Fault (Bits × Int) := do
  let (bits, v) ← bitsReadUe fuel bits
  let next ← intAdd v 1
  return (bits, (if 0 = v.tmod 2 then -1 else 1) * next.tdiv 2)

/-! ## Writing -/

def bitsWrite (bits : Bits) (v : Int) : Except Fault (Bits × Int) := do
  check (0 < bits.size)
  if bits.bits ≥ bits.size * 8 then return ({ bits with error := -1 }, -1)
  let byte ← byteAt bits.data (bits.bits / 8)
  let written := if v ≠ 0 then byte ||| ((0x80 : UInt8) >>> UInt8.ofNat (bits.bits % 8)) else byte
  return ({ bits with
    data := bits.data.set (bits.bits / 8) written
    bits := bits.bits + 1 }, 0)

/-- The loop over the bytes behind the first one. -/
def bitsWriteTail : (rest : List UInt8) → (n : Nat) → (v : UInt64) → Except Fault (List UInt8)
  | [], n, _ => if n > 0 then .error .assertion else .ok []
  | byte :: rest, n, v =>
    if n > 0 then do
      let rest ← bitsWriteTail rest (n - 8) (v <<< 8)
      return (v >>> 56).toUInt8 :: rest
    else .ok (byte :: rest)

def bitsWriteN (bits : Bits) (v : UInt64) (n : Nat) : Except Fault (Bits × Int) := do
  check (n > 0 ∧ n ≤ 64)
  check (0 < bits.size)
  if bits.bits + n > bits.size * 8 then return ({ bits with error := -1 }, -1)
  let v := v <<< UInt64.ofNat (64 - n)
  let byte ← byteAt bits.data (bits.bits / 8)
  let written := byte ||| (v >>> UInt64.ofNat (56 + bits.bits % 8)).toUInt8
  let rest ← bitsWriteTail (bits.data.drop (bits.bits / 8 + 1)) (n - (8 - bits.bits % 8))
    (v <<< UInt64.ofNat (8 - bits.bits % 8))
  return ({ bits with
    data := bits.data.take (bits.bits / 8) ++ written :: rest
    bits := bits.bits + n }, 0)

end CLibs.BitStreams

/-!
## Reading a bit stream

`bits_next_n` returns the number of the next bits: what the mask leaves of the first byte, the whole
bytes behind it, and the beginning of the last byte are parts of one sequence.
-/

namespace CLibs.BitStreams

open BitStrings List

/-! ## Words -/

variable {v : UInt64} {sequence : List Bool}

theorem word_shiftLeft (value : v.toNat = number sequence) {more : Nat}
    (fits : sequence.length + more ≤ 64) (proper : more < 64) :
    (v <<< UInt64.ofNat more).toNat = number sequence * 2 ^ more := by
  have small := number_lt sequence
  have bound : number sequence * 2 ^ more < 2 ^ 64 := by
    calc number sequence * 2 ^ more
      _ < 2 ^ sequence.length * 2 ^ more := Nat.mul_lt_mul_of_pos_right small (by positivity)
      _ = 2 ^ (sequence.length + more) := (pow_add 2 _ _).symm
      _ ≤ 2 ^ 64 := Nat.pow_le_pow_right (by decide) fits
  have count : (UInt64.ofNat more).toNat % 64 = more := by
    rw [UInt64.toNat_ofNat']
    omega
  rw [UInt64.toNat_shiftLeft, count, value, Nat.shiftLeft_eq, Nat.mod_eq_of_lt bound]

theorem word_append {w : UInt64} {first second : List Bool} (left : v.toNat = number first)
    (right : w.toNat = number second) (fits : first.length + second.length ≤ 64)
    (proper : second.length < 64) :
    ((v <<< UInt64.ofNat second.length) + w).toNat = number (first ++ second) := by
  have bound : number (first ++ second) < 2 ^ 64 := by
    have small := number_lt (first ++ second)
    rw [length_append] at small
    exact lt_of_lt_of_le small (Nat.pow_le_pow_right (by decide) fits)
  rw [UInt64.toNat_add, word_shiftLeft left fits proper, right, ← number_append,
    Nat.mod_eq_of_lt bound]

theorem word_shiftRight {v : UInt64} (value : v.toNat = number sequence)
    {count : Nat} (proper : sequence.length - count < 64) :
    (v >>> UInt64.ofNat (sequence.length - count)).toNat = number (sequence.take count) := by
  have shift : (UInt64.ofNat (sequence.length - count)).toNat % 64 = sequence.length - count := by
    rw [UInt64.toNat_ofNat']
    omega
  rw [UInt64.toNat_shiftRight, shift, value, Nat.shiftRight_eq_div_pow, (number_split _ _).1]

theorem word_byte (byte : UInt8) : byte.toUInt64.toNat = number (byteBits byte) := by
  rw [number_byteBits, UInt8.toNat_toUInt64]

theorem masked_byte (byte : UInt8) {passed : Nat} (inside : passed < 8) :
    (byte &&& ((0xFF : UInt8) >>> UInt8.ofNat passed)).toUInt64.toNat =
      number ((byteBits byte).drop passed) := by
  have mask : ((0xFF : UInt8) >>> UInt8.ofNat passed).toNat = 2 ^ (8 - passed) - 1 := by
    interval_cases passed <;> rfl
  rw [(number_split _ _).2, number_byteBits, length_byteBits, UInt8.toNat_toUInt64, UInt8.toNat_and,
    mask, Nat.and_two_pow_sub_one_eq_mod]

/-! ## The loop -/

theorem bitsNextTail_eq {rest : List UInt8} {n : Nat}
    (value : v.toNat = number sequence) (room : n ≤ 8 * rest.length)
    (fits : sequence.length + n ≤ 64) (started : 0 < sequence.length) :
    Yields (bitsNextTail rest n v) fun result =>
      result.toNat = number (sequence ++ (bits rest).take n) := by
  induction rest generalizing n v sequence with
  | nil =>
    obtain rfl : n = 0 := by simpa using room
    exact ⟨v, rfl, by simpa [bits] using value⟩
  | cons byte rest ih =>
    rw [bitsNextTail, bits_cons]
    rcases Nat.lt_or_ge n 8 with partly | whole
    · rw [if_neg (by omega)]
      have beginning : (byteBits byte ++ bits rest).take n = (byteBits byte).take n := by
        rw [take_append_of_le_length (by simp; omega)]
      rw [beginning]
      rcases Nat.eq_zero_or_pos n with rfl | positive
      · exact ⟨v, rfl, by simpa using value⟩
      · have length : ((byteBits byte).take n).length = n := by simp; omega
        have low := @word_shiftRight _ _ (word_byte byte) n (by simp; omega)
        have both := word_append value low (by rw [length]; exact fits) (by omega)
        rw [length] at both
        rw [if_pos positive]
        exact ⟨_, rfl, both⟩
    · rw [if_pos whole]
      have split : (byteBits byte ++ bits rest).take n = byteBits byte ++ (bits rest).take (n - 8) := by
        have width : n = (byteBits byte).length + (n - 8) := by rw [length_byteBits]; omega
        conv_lhs => rw [width]
        rw [take_length_add_append]
      have longer : (sequence ++ byteBits byte).length = sequence.length + 8 := by simp
      have both := word_append value (word_byte byte) (by rw [length_byteBits]; omega) (by simp)
      rw [split, ← append_assoc]
      rw [length_cons] at room
      exact ih both (by omega) (by omega) (by omega)

/-! ## The functions -/

variable {stream : Bits} {n : Nat}

def remaining (stream : Bits) : List Bool := (bits stream.data).drop stream.bits

theorem length_remaining (stream : Bits) :
    (remaining stream).length = 8 * stream.size - stream.bits := by
  simp [remaining, Bits.size]

theorem remaining_eq (inside : stream.bits < 8 * stream.size) :
    ∃ byte, byteAt stream.data (stream.bits / 8) = .ok byte ∧
      remaining stream = (byteBits byte).drop (stream.bits % 8) ++
        bits (stream.data.drop (stream.bits / 8 + 1)) := by
  have place : stream.bits / 8 < stream.data.length := by
    unfold Bits.size at inside
    omega
  have offset : stream.bits = 8 * (stream.bits / 8) + stream.bits % 8 := (Nat.div_add_mod _ _).symm
  refine ⟨stream.data[stream.bits / 8], by rw [byteAt, List.getElem?_eq_getElem place]; rfl, ?_⟩
  calc remaining stream
    _ = ((bits stream.data).drop (8 * (stream.bits / 8))).drop (stream.bits % 8) := by
        rw [drop_drop, ← offset]
        rfl
    _ = (byteBits stream.data[stream.bits / 8] ++
          bits (stream.data.drop (stream.bits / 8 + 1))).drop (stream.bits % 8) := by
        rw [drop_bits, drop_eq_getElem_cons place, bits_cons]
    _ = _ := by
        rw [drop_append_of_le_length]
        rw [length_byteBits]
        omega

theorem bitsNextN_eq (width : 0 < n ∧ n ≤ 64) (fits : stream.bits + n ≤ 8 * stream.size) :
    ∃ value, bitsNextN stream n = .ok (stream, value) ∧
      value.toNat = number ((remaining stream).take n) := by
  have passed : stream.bits % 8 < 8 := Nat.mod_lt _ (by decide)
  obtain ⟨byte, found, left⟩ := @remaining_eq stream (by omega)
  have first := masked_byte byte passed
  have length : ((byteBits byte).drop (stream.bits % 8)).length = 8 - stream.bits % 8 := by simp
  rw [bitsNextN, check_eq width, ok_bind, check_eq (by omega), ok_bind, if_neg (by omega), found,
    ok_bind, left]
  dsimp only
  split
  case isTrue inside =>
    have beginning := @word_shiftRight _ _ first n (by rw [length]; omega)
    rw [length] at beginning
    refine ⟨_, rfl, ?_⟩
    rw [take_append_of_le_length (by rw [length]; exact inside)]
    exact beginning
  case isFalse beyond =>
    have room : n - (8 - stream.bits % 8) ≤
        8 * (stream.data.drop (stream.bits / 8 + 1)).length := by
      rw [length_drop]
      unfold Bits.size at fits
      omega
    obtain ⟨value, returned, result⟩ :=
      bitsNextTail_eq first room (by rw [length]; omega) (by rw [length]; omega)
    refine ⟨value, by rw [returned]; rfl, ?_⟩
    have width : n = ((byteBits byte).drop (stream.bits % 8)).length + (n - (8 - stream.bits % 8)) := by
      rw [length]
      omega
    conv_rhs => rw [width]
    rw [take_length_add_append]
    exact result

theorem selected_bit (byte : UInt8) {passed : Nat} (inside : passed < 8) :
    byte &&& ((0x80 : UInt8) >>> UInt8.ofNat passed) ≠ 0 ↔ byte.toNat.testBit (7 - passed) = true := by
  have mask : ((0x80 : UInt8) >>> UInt8.ofNat passed).toNat = 2 ^ (7 - passed) := by
    interval_cases passed <;> rfl
  rw [Ne, ← UInt8.toNat_inj, UInt8.toNat_and, mask, Nat.and_two_pow]
  cases byte.toNat.testBit (7 - passed) <;> simp

variable {bit : Bool} {rest : List Bool}

theorem bitsNext_eq (next : remaining stream = bit :: rest) :
    bitsNext stream = .ok (stream, bit.toNat) := by
  have some : 0 < (remaining stream).length := by rw [next]; simp
  rw [length_remaining] at some
  have passed : stream.bits % 8 < 8 := Nat.mod_lt _ (by decide)
  obtain ⟨byte, found, left⟩ := @remaining_eq stream (by omega)
  have first : byte.toNat.testBit (7 - stream.bits % 8) = bit := by
    have head := congrArg (·[0]?) (left.symm.trans next)
    rw [List.getElem?_append_left (by simpa using passed), List.getElem?_drop, Nat.add_zero,
      getElem?_byteBits byte passed] at head
    simpa using head
  have selected := selected_bit byte passed
  rw [first] at selected
  rw [bitsNext, check_eq (by omega), ok_bind, if_neg (by omega), found, ok_bind]
  dsimp only
  cases bit with
  | false => rw [if_neg fun other => Bool.noConfusion (selected.mp other)]; rfl
  | true => rw [if_pos (selected.mpr rfl)]; rfl

theorem remaining_next (next : remaining stream = bit :: rest) :
    remaining { stream with bits := stream.bits + 1 } = rest := by
  have tail := congrArg List.tail next
  simpa [remaining] using tail

theorem remaining_advance (stream : Bits) (count : Nat) :
    remaining { stream with bits := stream.bits + count } = (remaining stream).drop count := by
  simp [remaining]

theorem bitsRead_eq (sound : stream.error = 0) (next : remaining stream = bit :: rest) :
    bitsRead stream = .ok ({ stream with bits := stream.bits + 1 }, bit.toNat) := by
  rw [bitsRead, bitsNext_eq next, ok_bind]
  dsimp only
  rw [if_pos sound]
  rfl

theorem bitsRead_end (nonempty : 0 < stream.size) (ended : remaining stream = []) :
    bitsRead stream = .ok ({ stream with error := -1 }, 0) := by
  have beyond := congrArg List.length ended
  rw [length_remaining, length_nil] at beyond
  rw [bitsRead, bitsNext, check_eq nonempty, ok_bind, if_pos (by omega)]
  rfl

theorem bitsReadN_eq (sound : stream.error = 0) (width : 0 < n ∧ n ≤ 64)
    (fits : stream.bits + n ≤ 8 * stream.size) :
    ∃ value, bitsReadN stream n = .ok ({ stream with bits := stream.bits + n }, value) ∧
      value.toNat = number ((remaining stream).take n) := by
  obtain ⟨value, returned, result⟩ := bitsNextN_eq width fits
  refine ⟨value, ?_, result⟩
  rw [bitsReadN, returned, ok_bind]
  dsimp only
  rw [if_pos sound]
  rfl

theorem bitsReadN_end (nonempty : 0 < stream.size) (width : 0 < n ∧ n ≤ 64)
    (beyond : 8 * stream.size < stream.bits + n) :
    bitsReadN stream n = .ok ({ stream with error := -1 }, 0) := by
  rw [bitsReadN, bitsNextN, check_eq width, ok_bind, check_eq nonempty, ok_bind, if_pos (by omega)]
  rfl

theorem bitsReadN_returns (sound : stream.error = 0) (nonempty : 0 < stream.size)
    (width : 0 < n ∧ n ≤ 64) : ∃ after value, bitsReadN stream n = .ok (after, value) := by
  rcases Nat.lt_or_ge (8 * stream.size) (stream.bits + n) with beyond | fits
  · exact ⟨_, _, bitsReadN_end nonempty width beyond⟩
  · obtain ⟨value, returned, -⟩ := bitsReadN_eq sound width fits
    exact ⟨_, value, returned⟩

end CLibs.BitStreams
