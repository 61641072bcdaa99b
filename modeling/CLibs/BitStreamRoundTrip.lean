import CLibs.BitStreams

/-!
# Writing a bit stream

A buffer of zeros holds what has been written to it, and zeros behind that.  A writer completes the
byte its offset stands in and overwrites the bytes behind it, so that the new bits follow the old
ones; read from the start in the same widths, they are the values that were written.
-/

namespace CLibs.BitStreams

open BitStrings List

/-! ## Bits with zeros behind them -/

/-- So many bits of a sequence with zeros behind it. -/
def padded (sequence : List Bool) (count : Nat) : List Bool :=
  (List.range count).map fun place => sequence.getD place false

@[simp]
theorem length_padded (sequence : List Bool) (count : Nat) : (padded sequence count).length = count := by
  simp [padded]

theorem padded_nil (count : Nat) : padded [] count = List.replicate count false := by
  simp [padded, map_const']

theorem padded_self (sequence : List Bool) : padded sequence sequence.length = sequence := by
  apply ext_getElem (by simp)
  intro place _ inside
  simp [padded, inside]

theorem padded_add (sequence : List Bool) (count more : Nat) :
    padded sequence (count + more) = padded sequence count ++ padded (sequence.drop count) more := by
  simp [padded, range_add, getD_eq_getElem?_getD]

theorem take_padded (sequence : List Bool) (count more : Nat) :
    (padded sequence (count + more)).take count = padded sequence count := by
  rw [padded_add, take_left' (length_padded _ _)]

theorem drop_padded (sequence : List Bool) (count more : Nat) :
    (padded sequence (count + more)).drop count = padded (sequence.drop count) more := by
  rw [padded_add, drop_left' (length_padded _ _)]

variable {count : Nat}

theorem padded_append_left {first : List Bool} (inside : count ≤ first.length)
    (second : List Bool) : padded (first ++ second) count = padded first count := by
  refine map_congr_left fun place listed => ?_
  have before : place < first.length := lt_of_lt_of_le (mem_range.mp listed) inside
  rw [getD_append _ _ _ _ before]

/-! ## Words and bytes -/

variable {v : UInt64} {sequence : List Bool}

structure Starts (v : UInt64) (sequence : List Bool) : Prop where
  bits : numberBits 64 v.toNat = padded sequence 64
  short : sequence.length ≤ 64

theorem shift_toNat (inside : count < 64) : (UInt64.ofNat count).toNat % 64 = count := by
  rw [UInt64.toNat_ofNat']
  omega

theorem Starts.shiftLeft (starts : Starts v sequence) (inside : count < 64) :
    Starts (v <<< UInt64.ofNat count) (sequence.drop count) := by
  have short := starts.short
  refine ⟨?_, by rw [length_drop]; omega⟩
  have width : 64 = count + (64 - count) := by omega
  have width' : 64 = (64 - count) + count := by omega
  have kept : numberBits (64 - count) v.toNat = padded (sequence.drop count) (64 - count) := by
    rw [← drop_numberBits count, ← width, starts.bits]
    conv_lhs => rw [width, drop_padded]
  have zeros : padded ((sequence.drop count).drop (64 - count)) count = List.replicate count false := by
    rw [drop_drop, drop_eq_nil_of_le (by omega), padded_nil]
  calc numberBits 64 (v <<< UInt64.ofNat count).toNat
    _ = numberBits 64 (v.toNat <<< count) := by
        rw [UInt64.toNat_shiftLeft, shift_toNat inside]
        exact numberBits_mod (Nat.mod_mod _ _)
    _ = padded (sequence.drop count) (64 - count) ++ List.replicate count false := by
        conv_lhs => rw [width', numberBits_shiftLeft, kept]
    _ = padded (sequence.drop count) 64 := by
        conv_rhs => rw [width', padded_add, zeros]

variable {passed : Nat}

theorem Starts.byte (starts : Starts v sequence) (inside : passed < 8) :
    byteBits (v >>> UInt64.ofNat (56 + passed)).toUInt8 =
      List.replicate passed false ++ padded sequence (8 - passed) := by
  have width : 8 = passed + (8 - passed) := by omega
  have beyond : v.toNat >>> (56 + passed) >>> (8 - passed) = 0 := by
    rw [← Nat.shiftRight_add, Nat.shiftRight_eq_div_pow]
    refine Nat.div_eq_of_lt (lt_of_lt_of_le v.toNat_lt (Nat.pow_le_pow_right (by decide) (by omega)))
  have kept : numberBits (8 - passed) (v.toNat >>> (56 + passed)) = padded sequence (8 - passed) := by
    rw [← take_numberBits, ← take_padded sequence (8 - passed) (56 + passed)]
    have whole : 8 - passed + (56 + passed) = 64 := by omega
    rw [whole, starts.bits]
  have nothing : numberBits passed 0 = List.replicate passed false := by
    simp [numberBits, map_const']
  rw [← numberBits_byte, UInt64.toNat_toUInt8, UInt64.toNat_shiftRight,
    shift_toNat (show 56 + passed < 64 by omega), numberBits_mod (Nat.mod_mod _ _)]
  conv_lhs => rw [width, numberBits_append, beyond, kept, nothing]

theorem byteBits_or (byte other : UInt8) :
    byteBits (byte ||| other) = List.zipWith or (byteBits byte) (byteBits other) := by
  simp [byteBits, zipWith_map, zipWith_self]

theorem bitsWriteTail_eq {rest : List UInt8} (blank : bits rest = padded [] (8 * rest.length))
    (starts : Starts v sequence) (room : sequence.length ≤ 8 * rest.length) :
    ∃ after, bitsWriteTail rest sequence.length v = .ok after ∧ after.length = rest.length ∧
      bits after = padded sequence (8 * rest.length) := by
  induction rest generalizing v sequence with
  | nil =>
    obtain rfl : sequence = [] := by simpa using room
    exact ⟨[], rfl, rfl, rfl⟩
  | cons byte rest ih =>
    rw [bitsWriteTail]
    rcases Nat.eq_zero_or_pos sequence.length with empty | positive
    · obtain rfl := eq_nil_of_length_eq_zero empty
      exact ⟨byte :: rest, rfl, rfl, blank⟩
    · have width : 8 * (byte :: rest).length = 8 + 8 * rest.length := by
        rw [length_cons]
        omega
      have still : bits rest = padded [] (8 * rest.length) := by
        have dropped := congrArg (List.drop 8) blank
        rw [width, drop_padded, bits_cons, drop_left' (length_byteBits _)] at dropped
        exact dropped
      obtain ⟨after, returned, length, value⟩ :=
        @ih (v <<< 8) (sequence.drop 8) still (starts.shiftLeft (show 8 < 64 by decide))
          (by rw [length_drop]; rw [width] at room; omega)
      have first := starts.byte (show 0 < 8 by decide)
      rw [length_drop] at returned
      refine ⟨(v >>> 56).toUInt8 :: after, ?_, by simp [length], ?_⟩
      · rw [if_pos positive, returned]
        rfl
      · rw [bits_cons, value, width, padded_add]
        congr 1

/-! ## The writers -/

structure Holding (size : Nat) (stream : Bits) (written : List Bool) : Prop where
  length : stream.size = size
  offset : stream.bits = written.length
  fits : written.length ≤ 8 * size
  contents : bits stream.data = padded written (8 * size)

variable {size n : Nat} {stream : Bits} {written more : List Bool}

theorem Holding.split (holding : Holding size stream written) (inside : written.length < 8 * size) :
    ∃ byte, byteAt stream.data (stream.bits / 8) = .ok byte ∧
      stream.bits / 8 < stream.data.length ∧
      byteBits byte = padded (written.drop (8 * (stream.bits / 8))) 8 ∧
      bits (stream.data.take (stream.bits / 8)) = padded written (8 * (stream.bits / 8)) ∧
      bits (stream.data.drop (stream.bits / 8 + 1)) =
        padded [] (8 * (stream.data.drop (stream.bits / 8 + 1)).length) := by
  have offset := holding.offset
  have length : stream.data.length = size := holding.length
  have place : stream.bits / 8 < stream.data.length := by omega
  have rest : (stream.data.drop (stream.bits / 8 + 1)).length = size - stream.bits / 8 - 1 := by
    rw [length_drop]
    omega
  have whole : 8 * size = 8 * (stream.bits / 8) + (8 + 8 * (size - stream.bits / 8 - 1)) := by omega
  have front := congrArg (List.take (8 * (stream.bits / 8))) holding.contents
  have back := congrArg (List.drop (8 * (stream.bits / 8))) holding.contents
  rw [take_bits, whole, take_padded] at front
  rw [drop_bits, whole, drop_padded, drop_eq_getElem_cons place, bits_cons, padded_add] at back
  obtain ⟨first, behind⟩ := append_inj back (by simp)
  refine ⟨stream.data[stream.bits / 8], by rw [byteAt, List.getElem?_eq_getElem place]; rfl, place,
    first, front, ?_⟩
  rw [behind, rest, drop_drop, drop_eq_nil_of_le (by omega)]

theorem Holding.extend (holding : Holding size stream written) (inside : written.length < 8 * size)
    (room : written.length + more.length ≤ 8 * size) {byte : UInt8} {rest : List UInt8}
    (length : rest.length = (stream.data.drop (stream.bits / 8 + 1)).length)
    (first : byteBits byte = padded (written.drop (8 * (stream.bits / 8)) ++ more) 8)
    (behind : bits rest = padded (more.drop (8 - stream.bits % 8)) (8 * rest.length)) :
    Holding size ⟨stream.data.take (stream.bits / 8) ++ byte :: rest, stream.bits + more.length,
      stream.error⟩ (written ++ more) := by
  obtain ⟨-, -, place, -, front, -⟩ := holding.split inside
  have offset := holding.offset
  have total : stream.data.length = size := holding.length
  rw [length_drop] at length
  have whole : 8 * size = 8 * (stream.bits / 8) + (8 + 8 * rest.length) := by omega
  refine ⟨?_, by rw [length_append, ← offset], by rw [length_append]; exact room, ?_⟩
  · rw [Bits.size, length_append, length_take_of_le (Nat.le_of_lt place), length_cons,
      length]
    omega
  · have before : 8 * (stream.bits / 8) ≤ written.length := by omega
    have last : (written.drop (8 * (stream.bits / 8))).length = stream.bits % 8 := by
      rw [length_drop]
      omega
    have shifted : (written.drop (8 * (stream.bits / 8)) ++ more).drop 8 =
        more.drop (8 - stream.bits % 8) := by
      rw [drop_append, drop_eq_nil_of_le (by omega), nil_append, last]
    rw [bits_append, bits_cons, front, first, behind, whole, padded_add, padded_add,
      padded_append_left before, drop_append_of_le_length before, shifted]

theorem holding_start (size : Nat) : Holding size (bitsInit (List.replicate size 0)) [] :=
  ⟨length_replicate, rfl, Nat.zero_le _, by
    rw [padded_nil]
    exact bits_zeros size⟩

theorem padded_or {last : List Bool} (length : last.length = passed) (inside : passed ≤ 8) :
    List.zipWith or (padded last 8) (List.replicate passed false ++ padded more (8 - passed)) =
      padded (last ++ more) 8 := by
  apply ext_getElem (by simp; omega)
  intro place _ bound
  rcases Nat.lt_or_ge place passed with before | after
  · subst length
    simp [padded, List.getElem?_append, before]
  · simp [padded, getElem_append, List.getElem?_append, length, Nat.not_lt.mpr after]

theorem selector_bits (inside : passed < 8) :
    byteBits ((0x80 : UInt8) >>> UInt8.ofNat passed) =
      List.replicate passed false ++ padded [true] (8 - passed) := by
  interval_cases passed <;> decide

theorem padded_append_false (last : List Bool) (count : Nat) :
    padded (last ++ [false]) count = padded last count := by
  refine map_congr_left fun place _ => ?_
  rcases Nat.lt_or_ge place last.length with before | after
  · rw [getD_append _ _ _ _ before]
  · have beyond : last[place]? = none := List.getElem?_eq_none after
    rw [getD_append_right _ _ _ _ after, getD_eq_getElem?_getD (l := last), beyond]
    cases place - last.length <;> simp

theorem starts_value (value : UInt64) (width : 0 < n ∧ n ≤ 64) :
    Starts (value <<< UInt64.ofNat (64 - n)) (numberBits n value.toNat) := by
  refine ⟨?_, by rw [length_numberBits]; exact width.2⟩
  have whole : 64 = n + (64 - n) := by omega
  have own : padded (numberBits n value.toNat) n = numberBits n value.toNat := by
    have self := padded_self (numberBits n value.toNat)
    rw [length_numberBits] at self
    exact self
  have behind : padded ((numberBits n value.toNat).drop n) (64 - n) =
      List.replicate (64 - n) false := by
    rw [drop_eq_nil_of_le (by simp), padded_nil]
  have shifted := numberBits_shiftLeft n (64 - n) value.toNat
  calc numberBits 64 (value <<< UInt64.ofNat (64 - n)).toNat
    _ = numberBits 64 (value.toNat <<< (64 - n)) := by
        rw [UInt64.toNat_shiftLeft, shift_toNat (by omega)]
        exact numberBits_mod (Nat.mod_mod _ _)
    _ = numberBits n value.toNat ++ List.replicate (64 - n) false := by rw [← shifted, ← whole]
    _ = padded (numberBits n value.toNat) 64 := by rw [whole, padded_add, own, behind, ← whole]

theorem bitsWriteN_eq (holding : Holding size stream written) (value : UInt64)
    (width : 0 < n ∧ n ≤ 64) (fits : written.length + n ≤ 8 * size) :
    ∃ after, bitsWriteN stream value n = .ok (after, 0) ∧ after.error = stream.error ∧
      Holding size after (written ++ numberBits n value.toNat) := by
  have offset := holding.offset
  have length : stream.size = size := holding.length
  have inside : written.length < 8 * size := by omega
  have passed : stream.bits % 8 < 8 := Nat.mod_lt _ (by decide)
  obtain ⟨byte, found, place, last, -, blank⟩ := holding.split inside
  have starts := starts_value value width
  have lastLength : (written.drop (8 * (stream.bits / 8))).length = stream.bits % 8 := by
    rw [length_drop]
    omega
  have rest : 8 * (stream.data.drop (stream.bits / 8 + 1)).length + 8 * (stream.bits / 8) + 8 =
      8 * size := by
    rw [length_drop]
    unfold Bits.size at length
    omega
  obtain ⟨tail, returned, tailLength, tailBits⟩ :=
    bitsWriteTail_eq blank (starts.shiftLeft (show 8 - stream.bits % 8 < 64 by omega))
      (by rw [length_drop, length_numberBits]; omega)
  rw [length_drop, length_numberBits] at returned
  have first : byteBits (byte ||| (value <<< UInt64.ofNat (64 - n) >>>
      UInt64.ofNat (56 + stream.bits % 8)).toUInt8) =
        padded (written.drop (8 * (stream.bits / 8)) ++ numberBits n value.toNat) 8 := by
    rw [byteBits_or, last, starts.byte passed, padded_or lastLength (Nat.le_of_lt passed)]
  have held := holding.extend inside (by rw [length_numberBits]; exact fits) tailLength first
    (by rw [tailBits, tailLength])
  rw [length_numberBits] at held
  refine ⟨_, ?_, ?_, held⟩
  · rw [bitsWriteN, check_eq width, ok_bind, check_eq (by omega), ok_bind, if_neg (by omega)]
    dsimp only
    rw [found, ok_bind, returned, ok_bind]
    rfl
  · rfl

theorem bitsWriteN_full (nonempty : 0 < stream.size) (value : UInt64) (width : 0 < n ∧ n ≤ 64)
    (beyond : 8 * stream.size < stream.bits + n) :
    bitsWriteN stream value n = .ok ({ stream with error := -1 }, -1) := by
  rw [bitsWriteN, check_eq width, ok_bind, check_eq nonempty, ok_bind, if_pos (by omega)]
  rfl

theorem bitsWrite_eq (holding : Holding size stream written) (v : Int)
    (fits : written.length < 8 * size) :
    ∃ after, bitsWrite stream v = .ok (after, 0) ∧ after.error = stream.error ∧
      Holding size after (written ++ [decide (v ≠ 0)]) := by
  have offset := holding.offset
  have length : stream.size = size := holding.length
  have passed : stream.bits % 8 < 8 := Nat.mod_lt _ (by decide)
  obtain ⟨byte, found, place, last, -, blank⟩ := holding.split fits
  have lastLength : (written.drop (8 * (stream.bits / 8))).length = stream.bits % 8 := by
    rw [length_drop]
    omega
  have none : [decide (v ≠ 0)].drop (8 - stream.bits % 8) = [] := drop_eq_nil_of_le (by simp; omega)
  have first : byteBits
      (if v ≠ 0 then byte ||| ((0x80 : UInt8) >>> UInt8.ofNat (stream.bits % 8)) else byte) =
        padded (written.drop (8 * (stream.bits / 8)) ++ [decide (v ≠ 0)]) 8 := by
    by_cases set : v ≠ 0
    · rw [if_pos set, byteBits_or, last, selector_bits passed, padded_or lastLength
        (Nat.le_of_lt passed), decide_eq_true set]
    · rw [if_neg set, last, decide_eq_false set, padded_append_false]
  have held := holding.extend fits (by simp; omega) rfl first (by rw [none, blank])
  refine ⟨_, ?_, ?_, held⟩
  · rw [bitsWrite, check_eq (by omega), ok_bind, if_neg (by omega)]
    dsimp only
    rw [found, ok_bind, set_eq_take_append_cons_drop, if_pos place]
    rfl
  · rfl

theorem bitsWrite_full (nonempty : 0 < stream.size) (v : Int)
    (beyond : 8 * stream.size ≤ stream.bits) :
    bitsWrite stream v = .ok ({ stream with error := -1 }, -1) := by
  rw [bitsWrite, check_eq nonempty, ok_bind, if_pos (by omega)]
  rfl

end CLibs.BitStreams

/-!
## What is written to a bit stream is read from it

A run writes single bits and values of up to 64 bits to a buffer of zeros, and goes on behind writes
that do not fit.
-/

namespace CLibs.BitStreams

open BitStrings List

/-! ## Operations -/

/-- One write with its value. -/
inductive Op
  | write (v : Int)
  | writeN (v : UInt64) (n : Nat)

namespace Op

open List

def width : Op → Nat
  | .write _ => 1
  | .writeN _ n => n

/-- The widths that `bits_write_n` asserts. -/
def Valid (op : Op) : Prop := 0 < op.width ∧ op.width ≤ 64

/-- What the bits of an operation stand for: any value but zero is one bit. -/
def value : Op → Nat
  | .write v => if v ≠ 0 then 1 else 0
  | .writeN v n => v.toNat % 2 ^ n

/-- The bits of an operation, the highest first. -/
def bits (op : Op) : List Bool := numberBits op.width op.value

def run (op : Op) (stream : Bits) : Except Fault (Bits × Int) :=
  match op with
  | .write v => bitsWrite stream v
  | .writeN v n => bitsWriteN stream v n

/-- The read in the width of the operation. -/
def read (op : Op) (stream : Bits) : Except Fault (Bits × Nat) :=
  match op with
  | .write _ => (bitsRead stream).map fun (stream, bit) => (stream, bit.toNat)
  | .writeN _ n => (bitsReadN stream n).map fun (stream, value) => (stream, value.toNat)

@[simp]
theorem length_bits (op : Op) : op.bits.length = op.width := length_numberBits _ _

theorem bits_write (v : Int) : (write v).bits = [decide (v ≠ 0)] := by
  by_cases zero : v = 0 <;> simp [bits, width, value, numberBits, zero]

theorem bits_writeN (v : UInt64) (n : Nat) : (writeN v n).bits = numberBits n v.toNat :=
  numberBits_mod (Nat.mod_mod _ _)

theorem number_bits (op : Op) : number op.bits = op.value := by
  have small : op.value < 2 ^ op.width := by
    cases op with
    | write v => simp only [value, width]; split <;> decide
    | writeN v n => exact Nat.mod_lt _ (by positivity)
  rw [bits, number_numberBits, Nat.mod_eq_of_lt small]

end Op

/-- The streams that a sequence of writes leads to, and those of the writes that succeeded. -/
inductive Runs (size : Nat) : Bits → List Op → Prop
  | start : Runs size (bitsInit (List.replicate size 0)) []
  | succeeds {stream after : Bits} {done : List Op} (op : Op) :
      Runs size stream done → op.Valid → op.run stream = .ok (after, 0) → Runs size after (done ++ [op])
  | fails {stream after : Bits} {done : List Op} {answer : Int} (op : Op) :
      Runs size stream done → op.Valid → op.run stream = .ok (after, answer) → answer ≠ 0 →
        Runs size after done

/-- Reads with the widths of some operations. -/
def readBack : List Op → Bits → Except Fault (List Nat)
  | [], _ => .ok []
  | op :: ops, stream => do
      let (stream, value) ← op.read stream
      let values ← readBack ops stream
      return value :: values

/-! ## One operation -/

variable {size : Nat} {stream : Bits} {written : List Bool} {done : List Op}

theorem Holding.run (holding : Holding size stream written) (nonempty : 0 < size) {op : Op}
    (valid : op.Valid) :
    ∃ after answer, op.run stream = .ok (after, answer) ∧
      if stream.bits + op.width ≤ 8 * size then
        answer = 0 ∧ Holding size after (written ++ op.bits)
      else answer = -1 ∧ after = { stream with error := -1 } := by
  have offset := holding.offset
  have length : stream.size = size := holding.length
  split
  case isTrue fits =>
    cases op with
    | write v =>
      obtain ⟨after, returned, -, holds⟩ := bitsWrite_eq holding v (by rw [Op.width] at fits; omega)
      exact ⟨after, 0, returned, rfl, by rw [Op.bits_write]; exact holds⟩
    | writeN v n =>
      obtain ⟨after, returned, -, holds⟩ := bitsWriteN_eq holding v valid (by rw [← offset]; exact fits)
      exact ⟨after, 0, returned, rfl, by rw [Op.bits_writeN]; exact holds⟩
  case isFalse beyond =>
    cases op with
    | write v =>
      rw [Op.width] at beyond
      exact ⟨_, -1, bitsWrite_full (by omega) v (by omega), rfl, rfl⟩
    | writeN v n =>
      rw [Op.width] at beyond
      exact ⟨_, -1, bitsWriteN_full (by omega) v valid (by omega), rfl, rfl⟩

theorem read_eq (sound : stream.error = 0) {op : Op} (valid : op.Valid) {rest : List Bool}
    (next : remaining stream = op.bits ++ rest) :
    ∃ after, op.read stream = .ok (after, op.value) ∧ after.error = 0 ∧ remaining after = rest := by
  have length := congrArg List.length next
  rw [length_remaining, length_append, Op.length_bits] at length
  have positive := valid.1
  cases op with
  | write v =>
    rw [Op.bits_write] at next
    refine ⟨{ stream with bits := stream.bits + 1 }, ?_, sound, remaining_next next⟩
    rw [Op.read, bitsRead_eq sound next]
    by_cases zero : v = 0 <;> simp [Except.map, Op.value, zero]
  | writeN v n =>
    rw [Op.width] at length positive
    obtain ⟨value, returned, result⟩ := @bitsReadN_eq stream n sound valid (by omega)
    have width : (Op.writeN v n).bits.length = n := Op.length_bits _
    rw [next, take_left' width, Op.number_bits] at result
    refine ⟨{ stream with bits := stream.bits + n }, ?_, sound, ?_⟩
    · rw [Op.read, returned]
      simp [Except.map, result]
    · rw [remaining_advance, next, drop_left' width]

theorem readBack_eq (valid : ∀ op ∈ done, op.Valid) (sound : stream.error = 0) {rest : List Bool}
    (next : remaining stream = done.flatMap Op.bits ++ rest) :
    readBack done stream = .ok (done.map Op.value) := by
  induction done generalizing stream with
  | nil => rfl
  | cons op done ih =>
    rw [flatMap_cons, append_assoc] at next
    obtain ⟨after, returned, still, behind⟩ := read_eq sound (valid op mem_cons_self) next
    rw [readBack, returned, ok_bind]
    dsimp only
    rw [ih (forall_mem_cons.mp valid).2 still behind]
    rfl

/-! ## A run -/

theorem padded_of_le {sequence : List Bool} {count : Nat} (fits : sequence.length ≤ count) :
    padded sequence count = sequence ++ List.replicate (count - sequence.length) false := by
  have whole : count = sequence.length + (count - sequence.length) := by omega
  conv_lhs => rw [whole, padded_add, padded_self, drop_length, padded_nil]

theorem Runs.holding (runs : Runs size stream done) (nonempty : 0 < size) :
    Holding size stream (done.flatMap Op.bits) ∧ ∀ op ∈ done, op.Valid := by
  induction runs with
  | start => exact ⟨holding_start size, by simp⟩
  | succeeds op _ valid returned ih =>
    obtain ⟨holding, earlier⟩ := ih
    obtain ⟨after, answer, outcome, step⟩ := holding.run nonempty valid
    obtain ⟨rfl, rfl⟩ := Prod.mk.inj (Except.ok.inj (returned.symm.trans outcome))
    split at step
    case isTrue fits =>
      refine ⟨?_, ?_⟩
      · rw [flatMap_append]
        simpa using step.2
      · exact forall_mem_append.mpr ⟨earlier, forall_mem_singleton.mpr valid⟩
    case isFalse => exact absurd step.1 (by decide)
  | fails op _ valid returned failed ih =>
    obtain ⟨holding, earlier⟩ := ih
    obtain ⟨after, answer, outcome, step⟩ := holding.run nonempty valid
    obtain ⟨rfl, rfl⟩ := Prod.mk.inj (Except.ok.inj (returned.symm.trans outcome))
    split at step
    case isTrue => exact absurd step.1 failed
    case isFalse =>
      rw [step.2]
      exact ⟨⟨holding.length, holding.offset, holding.fits, holding.contents⟩, earlier⟩

/-- After every run on a buffer that is not empty: exactly the operations that fit succeed, the others
leave data and offset and set the error, the bits of the successful ones stand in the buffer in their
order, and reads in their widths give their values. -/
theorem bit_stream_round_trip (nonempty : 0 < size) (runs : Runs size stream done) :
    (∀ op : Op, op.Valid → ∃ after answer, op.run stream = .ok (after, answer) ∧
      (answer = 0 ↔ stream.bits + op.width ≤ 8 * size) ∧
      (answer ≠ 0 → after.data = stream.data ∧ after.bits = stream.bits ∧ after.error = -1)) ∧
    stream.bits = (done.flatMap Op.bits).length ∧
    bits stream.data = done.flatMap Op.bits ++ List.replicate (8 * size - stream.bits) false ∧
    readBack done (bitsInit stream.data) = .ok (done.map Op.value) := by
  obtain ⟨holding, valid⟩ := runs.holding nonempty
  have contents := holding.contents
  rw [padded_of_le holding.fits, ← holding.offset] at contents
  refine ⟨fun op proper => ?_, holding.offset, contents,
    readBack_eq valid rfl (show remaining (bitsInit stream.data) = _ from contents)⟩
  obtain ⟨after, answer, outcome, step⟩ := holding.run nonempty proper
  refine ⟨after, answer, outcome, ?_⟩
  split at step
  case isTrue fits => exact ⟨⟨fun _ => fits, fun _ => step.1⟩, fun failed => absurd step.1 failed⟩
  case isFalse beyond =>
    obtain ⟨rfl, rfl⟩ := step
    exact ⟨⟨fun zero => absurd zero (by decide), fun fits => absurd fits beyond⟩,
      fun _ => ⟨rfl, rfl, rfl⟩⟩

/-- Three bits, then eight that no longer fit in the byte, and then one. -/
theorem bit_stream_round_trip_byte :
    Runs 1 ⟨[0xB0], 4, -1⟩ [.writeN 5 3, .write 2] ∧
      readBack [.writeN 5 3, .write 2] (bitsInit [0xB0]) = .ok [5, 1] := by
  have first : Runs 1 ⟨[0xA0], 3, 0⟩ ([] ++ [.writeN 5 3]) :=
    .succeeds (.writeN 5 3) .start ⟨by decide, by decide⟩ rfl
  have second : Runs 1 ⟨[0xA0], 3, -1⟩ ([] ++ [.writeN 5 3]) :=
    .fails (.writeN 9 8) first ⟨by decide, by decide⟩ rfl (by decide : (-1 : Int) ≠ 0)
  have third : Runs 1 ⟨[0xB0], 4, -1⟩ ([.writeN 5 3] ++ [.write 2]) :=
    .succeeds (.write 2) second ⟨by decide, by decide⟩ rfl
  exact ⟨third, (bit_stream_round_trip (by decide) third).2.2.2⟩

/-- A two is written as the bit one, which is not two modulo two; and in an empty buffer no
operation returns. -/
theorem bits_write_two :
    (bitsWrite (bitsInit [0]) 2 = .ok (⟨[0x80], 1, 0⟩, 0) ∧
      bitsRead (bitsInit [0x80]) = .ok (⟨[0x80], 1, 0⟩, 1) ∧ (1 : Int) ≠ 2 % 2 ^ 1) ∧
    bitsWrite (bitsInit []) 1 = .error .assertion :=
  ⟨⟨rfl, rfl, by decide⟩, rfl⟩

end CLibs.BitStreams
