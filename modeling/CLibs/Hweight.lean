import CLibs.BitStrings
import Mathlib.Data.Nat.Digits.Defs
import Mathlib.Algebra.Order.BigOperators.Group.List

/-!
# Hamming weights

`hweight.c` adds the bits of a word in neighbouring fields.  `sizeof(unsigned long)` is eight.  The
stages of `hweight64` do to each byte of the word what those of `hweight8` do to theirs, since no
field of a byte grows into the next one.
-/

namespace CLibs.Hweight

open BitStrings List

/-! ## Words -/

def hweight8 (w : UInt8) : Nat :=
  let w : UInt8 := w - (w >>> 1 &&& (0x55 : UInt8))
  let w : UInt8 := (w &&& (0x33 : UInt8)) + (w >>> 2 &&& (0x33 : UInt8))
  (w + w >>> 4 &&& (0x0F : UInt8)).toNat

def hweight64 (w : UInt64) : Nat :=
  let w : UInt64 := w - (w >>> 1 &&& (0x5555555555555555 : UInt64))
  let w : UInt64 := (w &&& (0x3333333333333333 : UInt64)) + (w >>> 2 &&& (0x3333333333333333 : UInt64))
  let w : UInt64 := w + w >>> 4 &&& (0x0F0F0F0F0F0F0F0F : UInt64)
  let w : UInt64 := w + w >>> 8
  let w : UInt64 := w + w >>> 16
  (w + w >>> 32 &&& (0x00000000000000FF : UInt64)).toNat

/-- The word in eight bytes of the memory, the lowest byte first. -/
def loadLong (bytes : List UInt8) : UInt64 :=
  .ofNat (Nat.ofDigits 256 (bytes.map UInt8.toNat))

theorem hweight8_eq (w : UInt8) : hweight8 w = (byteBits w).count true := by
  have all : ∀ v : Fin 256, hweight8 (UInt8.ofNat v) = (byteBits (UInt8.ofNat v)).count true := by
    decide +kernel
  have same := all ⟨w.toNat, w.toNat_lt⟩
  rwa [UInt8.ofNat_toNat] at same

/-! ## The stages on numbers -/

def pairs (mask w : Nat) : Nat := w - ((w >>> 1) &&& mask)

def nibbles (mask w : Nat) : Nat := (w &&& mask) + ((w >>> 2) &&& mask)

def octets (mask w : Nat) : Nat := (w + (w >>> 4)) &&& mask

theorem shift_and (shift mask high masks : Nat) {low : Nat} (small : shift ≤ 8) (cut : mask < 2 ^ (8 - shift))
    (byte : low < 256) :
    ((low + 256 * high) >>> shift) &&& (mask + 256 * masks) =
      ((low >>> shift) &&& mask) + 256 * ((high >>> shift) &&& masks) := by
  change ((low + 2 ^ 8 * high) >>> shift) &&& (mask + 2 ^ 8 * masks) =
    ((low >>> shift) &&& mask) + 2 ^ 8 * ((high >>> shift) &&& masks)
  have maskByte : mask < 2 ^ 8 := cut.trans_le (Nat.pow_le_pow_right (by decide) (by omega))
  have both : (low >>> shift) &&& mask < 2 ^ 8 := Nat.and_lt_two_pow _ maskByte
  apply Nat.eq_of_testBit_eq
  intro place
  rw [Nat.testBit_and, Nat.testBit_shiftRight, Nat.add_comm low, Nat.add_comm mask,
    Nat.add_comm (_ &&& mask), Nat.testBit_two_pow_mul_add _ byte, Nat.testBit_two_pow_mul_add _ maskByte,
    Nat.testBit_two_pow_mul_add _ both]
  by_cases inside : place < 8
  · rw [if_pos inside, if_pos inside, Nat.testBit_and, Nat.testBit_shiftRight]
    by_cases near : shift + place < 8
    · rw [if_pos near]
    · have off : mask.testBit place = false :=
        Nat.testBit_lt_two_pow (cut.trans_le (Nat.pow_le_pow_right (by decide) (by omega)))
      rw [off, Bool.and_false, Bool.and_false]
  · rw [if_neg inside, if_neg inside, if_neg (by omega), Nat.testBit_and, Nat.testBit_shiftRight]
    congr 2
    omega

theorem pairs_byte {low high masks : Nat} (byte : low < 256) :
    pairs (0x55 + 256 * masks) (low + 256 * high) = pairs 0x55 low + 256 * pairs masks high := by
  have split := shift_and 1 0x55 high masks (by decide) (by decide) byte
  have lowLess : (low >>> 1) &&& 0x55 ≤ low := Nat.and_le_left.trans (Nat.shiftRight_le low 1)
  have highLess : (high >>> 1) &&& masks ≤ high := Nat.and_le_left.trans (Nat.shiftRight_le high 1)
  rw [pairs, pairs, pairs, split]
  omega

theorem nibbles_byte {low high masks : Nat} (byte : low < 256) :
    nibbles (0x33 + 256 * masks) (low + 256 * high) = nibbles 0x33 low + 256 * nibbles masks high := by
  have plain := shift_and 0 0x33 high masks (by decide) (by decide) byte
  have split := shift_and 2 0x33 high masks (by decide) (by decide) byte
  simp only [Nat.shiftRight_zero] at plain
  rw [nibbles, nibbles, nibbles, plain, split]
  omega

theorem octets_byte {low high masks : Nat} (field : low ≤ 0x44) (next : high % 16 ≤ 4) :
    octets (0x0F + 256 * masks) (low + 256 * high) = octets 0x0F low + 256 * octets masks high := by
  have shifted : low + 256 * high + (low + 256 * high) >>> 4 =
      (low + low >>> 4 + 16 * (high % 16)) + 256 * (high + high >>> 4) := by
    simp only [Nat.shiftRight_eq_div_pow]
    omega
  have small : low + low >>> 4 + 16 * (high % 16) < 256 := by
    simp only [Nat.shiftRight_eq_div_pow]
    omega
  have plain := shift_and 0 0x0F (high + high >>> 4) masks (by decide) (by decide) small
  have lowest : (low + low >>> 4 + 16 * (high % 16)) &&& 0x0F = (low + low >>> 4) &&& 0x0F := by
    have mod (n : Nat) : n &&& 0x0F = n % 16 := Nat.and_two_pow_sub_one_eq_mod n 4
    rw [mod, mod]
    omega
  simp only [Nat.shiftRight_zero] at plain
  rw [octets, octets, octets, shifted, plain, lowest]

/-! ## The stages on digits -/

def repeated (mask count : Nat) : Nat :=
  Nat.ofDigits 256 (List.replicate count mask)

theorem repeated_succ (mask count : Nat) : repeated mask (count + 1) = mask + 256 * repeated mask count := rfl

theorem pairs_digits (digits : List Nat) (byte : ∀ digit ∈ digits, digit < 256) :
    pairs (repeated 0x55 digits.length) (Nat.ofDigits 256 digits) =
      Nat.ofDigits 256 (digits.map (pairs 0x55)) := by
  induction digits with
  | nil => rfl
  | cons digit digits ih =>
    rw [length_cons, repeated_succ, Nat.ofDigits_cons, map_cons, Nat.ofDigits_cons,
      ← ih (forall_mem_cons.mp byte).2]
    exact pairs_byte (byte digit mem_cons_self)

theorem nibbles_digits (digits : List Nat) (byte : ∀ digit ∈ digits, digit < 256) :
    nibbles (repeated 0x33 digits.length) (Nat.ofDigits 256 digits) =
      Nat.ofDigits 256 (digits.map (nibbles 0x33)) := by
  induction digits with
  | nil => rfl
  | cons digit digits ih =>
    rw [length_cons, repeated_succ, Nat.ofDigits_cons, map_cons, Nat.ofDigits_cons,
      ← ih (forall_mem_cons.mp byte).2]
    exact nibbles_byte (byte digit mem_cons_self)

theorem octets_digits (digits : List Nat) (field : ∀ digit ∈ digits, digit ≤ 0x44 ∧ digit % 16 ≤ 4) :
    octets (repeated 0x0F digits.length) (Nat.ofDigits 256 digits) =
      Nat.ofDigits 256 (digits.map (octets 0x0F)) := by
  induction digits with
  | nil => rfl
  | cons digit digits ih =>
    have next : Nat.ofDigits 256 digits % 16 ≤ 4 := by
      cases digits with
      | nil => exact Nat.zero_le _
      | cons second digits =>
        have low := (field second (by simp)).2
        rw [Nat.ofDigits_cons]
        omega
    rw [length_cons, repeated_succ, Nat.ofDigits_cons, map_cons, Nat.ofDigits_cons,
      ← ih (forall_mem_cons.mp field).2]
    exact octets_byte (field digit mem_cons_self).1 next

theorem stages_byte (byte : UInt8) :
    nibbles 0x33 (pairs 0x55 byte.toNat) ≤ 0x44 ∧ nibbles 0x33 (pairs 0x55 byte.toNat) % 16 ≤ 4 ∧
      octets 0x0F (nibbles 0x33 (pairs 0x55 byte.toNat)) = (byteBits byte).count true := by
  have all : ∀ v : Fin 256, nibbles 0x33 (pairs 0x55 v) ≤ 0x44 ∧ nibbles 0x33 (pairs 0x55 v) % 16 ≤ 4 ∧
      octets 0x0F (nibbles 0x33 (pairs 0x55 v)) = (byteBits (UInt8.ofNat v)).count true := by
    decide +kernel
  have here := all ⟨byte.toNat, byte.toNat_lt⟩
  rwa [UInt8.ofNat_toNat] at here

theorem stages_bytes (bytes : List UInt8) :
    octets (repeated 0x0F bytes.length) (nibbles (repeated 0x33 bytes.length)
        (pairs (repeated 0x55 bytes.length) (Nat.ofDigits 256 (bytes.map UInt8.toNat)))) =
      Nat.ofDigits 256 (bytes.map fun byte => (byteBits byte).count true) := by
  have first := pairs_digits (bytes.map UInt8.toNat) (by
    intro digit member
    obtain ⟨byte, -, rfl⟩ := mem_map.mp member
    exact byte.toNat_lt)
  have second := nibbles_digits ((bytes.map UInt8.toNat).map (pairs 0x55)) (by
    intro digit member
    obtain ⟨value, inside, rfl⟩ := mem_map.mp member
    obtain ⟨byte, -, rfl⟩ := mem_map.mp inside
    exact (Nat.sub_le _ _).trans_lt byte.toNat_lt)
  have third := octets_digits
    (((bytes.map UInt8.toNat).map (pairs 0x55)).map (nibbles 0x33)) (by
      intro digit member
      obtain ⟨value, inside, rfl⟩ := mem_map.mp member
      obtain ⟨other, within, rfl⟩ := mem_map.mp inside
      obtain ⟨byte, -, rfl⟩ := mem_map.mp within
      exact ⟨(stages_byte byte).1, (stages_byte byte).2.1⟩)
  simp only [length_map] at first second third
  rw [first, second, third]
  simp only [map_map]
  congr 1
  apply map_congr_left
  intro byte _
  exact (stages_byte byte).2.2

/-! ## The sum of the bytes -/

/-- The stages behind the third one. -/
def total (w : Nat) : Nat :=
  let w := w + w >>> 8
  let w := w + w >>> 16
  (w + w >>> 32) % 256

theorem shift_digits (count : Nat) {digits : List Nat} (byte : ∀ digit ∈ digits, digit < 256) :
    Nat.ofDigits 256 digits >>> (8 * count) = Nat.ofDigits 256 (digits.drop count) := by
  rw [Nat.shiftRight_eq_div_pow, Nat.pow_mul]
  exact Nat.ofDigits_div_pow_eq_ofDigits_drop count (by decide) digits byte

theorem total_digits {a b c d e f g h : Nat}
    (small : ∀ digit ∈ [a, b, c, d, e, f, g, h], digit ≤ 8) :
    total (Nat.ofDigits 256 [a, b, c, d, e, f, g, h]) = a + b + c + d + e + f + g + h := by
  simp only [mem_cons, not_mem_nil, or_false, forall_eq_or_imp, forall_eq] at small
  obtain ⟨hA, hB, hC, hD, hE, hF, hG, hH⟩ := small
  have first : Nat.ofDigits 256 [a, b, c, d, e, f, g, h] + Nat.ofDigits 256 [a, b, c, d, e, f, g, h] >>> 8 =
      Nat.ofDigits 256 [a + b, b + c, c + d, d + e, e + f, f + g, g + h, h] := by
    rw [shift_digits 1 (by simp; omega)]
    simp only [drop_succ_cons, drop_zero, Nat.ofDigits_cons, Nat.ofDigits_nil]
    ring
  have second : Nat.ofDigits 256 [a + b, b + c, c + d, d + e, e + f, f + g, g + h, h] +
      Nat.ofDigits 256 [a + b, b + c, c + d, d + e, e + f, f + g, g + h, h] >>> 16 =
      Nat.ofDigits 256 [a + b + (c + d), b + c + (d + e), c + d + (e + f), d + e + (f + g),
        e + f + (g + h), f + g + h, g + h, h] := by
    rw [shift_digits 2 (by simp; omega)]
    simp only [drop_succ_cons, drop_zero, Nat.ofDigits_cons, Nat.ofDigits_nil]
    ring
  rw [total, first, second, shift_digits 4 (by simp; omega)]
  simp only [drop_succ_cons, drop_zero]
  have head (low : Nat) (rest : List Nat) : Nat.ofDigits 256 (low :: rest) = low + 256 * Nat.ofDigits 256 rest :=
    Nat.ofDigits_cons
  rw [head (a + b + (c + d)), head (e + f + (g + h))]
  omega

theorem toNat_add_shift {w : UInt64} (shift : UInt64) (room : 2 * w.toNat < 2 ^ 64) :
    (w + w >>> shift).toNat = w.toNat + w.toNat >>> (shift.toNat % 64) := by
  have less : w.toNat >>> (shift.toNat % 64) ≤ w.toNat := Nat.shiftRight_le _ _
  rw [UInt64.toNat_add, UInt64.toNat_shiftRight]
  exact Nat.mod_eq_of_lt (by omega)

/-- The word is added up in three rounds. -/
theorem hweight64_eq (w : UInt64) : hweight64 w =
    total (octets (repeated 0x0F 8) (nibbles (repeated 0x33 8) (pairs (repeated 0x55 8) w.toNat))) := by
  have low : repeated 0x0F 8 = 0x0F0F0F0F0F0F0F0F := by decide
  have middle : repeated 0x33 8 = 0x3333333333333333 := by decide
  have high : repeated 0x55 8 = 0x5555555555555555 := by decide
  rw [low, middle, high, hweight64]
  have one : (w - (w >>> 1 &&& (0x5555555555555555 : UInt64))).toNat = pairs 0x5555555555555555 w.toNat := by
    have less : w >>> 1 &&& (0x5555555555555555 : UInt64) ≤ w := by
      rw [UInt64.le_iff_toNat_le, UInt64.toNat_and, UInt64.toNat_shiftRight]
      exact Nat.and_le_left.trans (Nat.shiftRight_le _ _)
    rw [UInt64.toNat_sub_of_le _ _ less, UInt64.toNat_and, UInt64.toNat_shiftRight]
    rfl
  generalize w - (w >>> 1 &&& (0x5555555555555555 : UInt64)) = x at one
  rw [← one]
  have bound : nibbles 0x3333333333333333 x.toNat ≤ 2 * 0x3333333333333333 :=
    (Nat.add_le_add Nat.and_le_right Nat.and_le_right).trans (by decide)
  have two : ((x &&& (0x3333333333333333 : UInt64)) + (x >>> 2 &&& (0x3333333333333333 : UInt64))).toNat =
      nibbles 0x3333333333333333 x.toNat := by
    rw [UInt64.toNat_add, UInt64.toNat_and, UInt64.toNat_and, UInt64.toNat_shiftRight]
    exact Nat.mod_eq_of_lt (bound.trans_lt (by decide))
  generalize (x &&& (0x3333333333333333 : UInt64)) + (x >>> 2 &&& (0x3333333333333333 : UInt64)) = y at two
  rw [← two] at bound ⊢
  have three : (y + y >>> 4 &&& (0x0F0F0F0F0F0F0F0F : UInt64)).toNat = octets 0x0F0F0F0F0F0F0F0F y.toNat := by
    rw [UInt64.toNat_and, toNat_add_shift 4 (by omega)]
    rfl
  have least : octets 0x0F0F0F0F0F0F0F0F y.toNat ≤ 0x0F0F0F0F0F0F0F0F := Nat.and_le_right
  generalize y + y >>> 4 &&& (0x0F0F0F0F0F0F0F0F : UInt64) = z at three
  rw [← three] at least ⊢
  have four : (z + z >>> 8).toNat = z.toNat + z.toNat >>> 8 := toNat_add_shift 8 (by omega)
  generalize z + z >>> 8 = u at four
  have five : (u + u >>> 16).toNat = u.toNat + u.toNat >>> 16 := toNat_add_shift 16 (by omega)
  generalize u + u >>> 16 = v at five
  have six : (v + v >>> 32).toNat = v.toNat + v.toNat >>> 32 := toNat_add_shift 32 (by omega)
  rw [total, UInt64.toNat_and, six, five, four]
  exact Nat.and_two_pow_sub_one_eq_mod _ 8

theorem hweight64_loadLong {bytes : List UInt8} (eight : bytes.length = 8) :
    hweight64 (loadLong bytes) = (bits bytes).count true := by
  have byte : ∀ digit ∈ bytes.map UInt8.toNat, digit < 256 := by
    intro digit member
    obtain ⟨byte, -, rfl⟩ := mem_map.mp member
    exact byte.toNat_lt
  have word : (loadLong bytes).toNat = Nat.ofDigits 256 (bytes.map UInt8.toNat) := by
    have below := Nat.ofDigits_lt_base_pow_length (by decide) byte
    rw [length_map, eight] at below
    exact Nat.mod_eq_of_lt below
  rw [hweight64_eq, word, ← eight, stages_bytes]
  clear word byte
  match bytes, eight with
  | [a, b, c, d, e, f, g, h], _ =>
    have small (byte : UInt8) : (byteBits byte).count true ≤ 8 :=
      count_le_length.trans_eq (length_byteBits byte)
    simp only [map_cons, map_nil]
    rw [total_digits (by simp [small])]
    simp only [bits, flatMap_cons, flatMap_nil, count_append, count_nil]
    omega

end CLibs.Hweight
