import CLibs.BitStrings
import CLibs.FaultingPrograms

/-!
# Ranges of a bitmap

The functions of `bitmap.c` that write a range of bits, with the bytes that they write.  Sizes are
`size_t`.  Both walk over whole bytes with a mask for the first one and have another mask for the
byte behind, so that one lemma about a byte and one about the loop serve the two.
-/

namespace CLibs.Bitmaps

open BitStrings

/-- The bytes, and the places that have been written. -/
structure Bitmap where
  bytes : List UInt8
  touched : List Nat

/-! ## Calls -/

def byteAt (bytes : List UInt8) (index : Nat) : Except Fault UInt8 :=
  match bytes[index]? with
  | none => .error .outside
  | some byte => .ok byte

/-- `((uint8_t)~0) >> nbits` for fewer than eight bits. -/
def maskBehind (nbits : Nat) : UInt8 :=
  255 >>> UInt8.ofNat nbits

/-- The first `nbits` bits of a byte. -/
def bitsMaskByte (nbits : Nat) : UInt8 :=
  ~~~maskBehind nbits

def assign (operation : UInt8 → UInt8 → UInt8) (bitmap : Bitmap) (index : Nat) (mask : UInt8) :
    Except Fault Bitmap := do
  let byte ← byteAt bitmap.bytes index
  .ok ⟨bitmap.bytes.set index (operation byte mask), bitmap.touched ++ [index]⟩

/-- The loop over the bytes before `last`: where it ends, with which mask, and the bitmap. -/
def maskLoop (operation : UInt8 → UInt8 → UInt8) (whole : UInt8) (last index : Nat) (mask : UInt8)
    (bitmap : Bitmap) : Except Fault (Nat × UInt8 × Bitmap) :=
  if index < last then do
    let bitmap ← assign operation bitmap index mask
    maskLoop operation whole last (index + 1) whole bitmap
  else .ok (index, mask, bitmap)
termination_by last - index

def bitmapSet (bitmap : Bitmap) (start len : Nat) : Except Fault Bitmap := do
  let stop := (start + len) % 2 ^ 64
  let (index, mask, bitmap) ←
    maskLoop (· ||| ·) 255 (stop / 8) (start / 8) (maskBehind (start % 8)) bitmap
  if stop % 8 ≠ 0 then assign (· ||| ·) bitmap index (mask &&& bitsMaskByte (stop % 8))
  else .ok bitmap

def bitmapClear (bitmap : Bitmap) (start len : Nat) : Except Fault Bitmap := do
  let stop := (start + len) % 2 ^ 64
  let (index, mask, bitmap) ←
    maskLoop (· &&& ·) 0 (stop / 8) (start / 8) (bitsMaskByte (start % 8)) bitmap
  if stop % 8 ≠ 0 then assign (· &&& ·) bitmap index (mask ||| maskBehind (stop % 8))
  else .ok bitmap

def bitmapTestBit (bitmap : List UInt8) (place : Nat) : Except Fault Nat := do
  let byte ← byteAt bitmap (place / 8)
  .ok (byte.toNat &&& 1 <<< (8 - 1 - place % 8))

/-! ## Bits of a bitmap -/

variable {bytes : List UInt8} {place : Nat}

theorem bitmapTestBit_bits {bit : Bool} (here : (bits bytes)[place]? = some bit) :
    ∃ read, bitmapTestBit bytes place = .ok read ∧ (read ≠ 0 ↔ bit = true) := by
  rw [getElem?_bits] at here
  obtain ⟨byte, found, rfl⟩ := Option.map_eq_some_iff.mp here
  refine ⟨_, by rw [bitmapTestBit, byteAt, found]; rfl, ?_⟩
  rw [Nat.one_shiftLeft, Nat.and_two_pow]
  cases byte.toNat.testBit (8 - 1 - place % 8) <;> simp

theorem maskBehind_bit {nbits : Nat} (few : nbits < 8) (inside : place < 8) :
    (maskBehind nbits).toNat.testBit (7 - place) = decide (nbits ≤ place) := by
  have all : ∀ nbits : Fin 8, ∀ place : Fin 8,
      (maskBehind nbits).toNat.testBit (7 - place) = decide (nbits ≤ place) := by decide
  exact all ⟨nbits, few⟩ ⟨place, inside⟩

theorem bitsMaskByte_bit {nbits : Nat} (few : nbits < 8) (inside : place < 8) :
    (bitsMaskByte nbits).toNat.testBit (7 - place) = decide (place < nbits) := by
  have all : ∀ nbits : Fin 8, ∀ place : Fin 8,
      (bitsMaskByte nbits).toNat.testBit (7 - place) = decide (place < nbits) := by decide
  exact all ⟨nbits, few⟩ ⟨place, inside⟩

theorem maskBehind_zero : maskBehind 0 = 255 := rfl

theorem bitsMaskByte_zero : bitsMaskByte 0 = 0 := rfl

/-! ## One byte -/

section Ranges

variable {value : Bool} {first middle last : Nat} {before between behind : Bitmap}

structure RangeBecomes (value : Bool) (first last : Nat) (before behind : Bitmap) : Prop where
  size : behind.bytes.length = before.bytes.length
  bit : ∀ place < 8 * before.bytes.length, (bits behind.bytes)[place]? =
    if first ≤ place ∧ place < last then some value else (bits before.bytes)[place]?
  touched : ∃ new, behind.touched = before.touched ++ new ∧
    (∀ index ∈ new, first / 8 ≤ index ∧ 8 * index < last) ∧
    ∀ index, index ∉ new → behind.bytes[index]? = before.bytes[index]?

theorem RangeBecomes.empty (none : last ≤ first) (bitmap : Bitmap) :
    RangeBecomes value first last bitmap bitmap := by
  refine ⟨rfl, ?_, [], (List.append_nil _).symm, nofun, fun _ _ => rfl⟩
  intro place _
  rw [if_neg (by omega)]

theorem RangeBecomes.trans (one : RangeBecomes value first middle before between)
    (two : RangeBecomes value middle last between behind) (ordered : first ≤ middle ∧ middle ≤ last) :
    RangeBecomes value first last before behind := by
  refine ⟨two.size.trans one.size, ?_, ?_⟩
  · intro place inside
    rw [two.bit place (by rw [one.size]; exact inside), one.bit place inside]
    grind
  · obtain ⟨new, touched, near, kept⟩ := one.touched
    obtain ⟨more, touchedMore, nearMore, keptMore⟩ := two.touched
    refine ⟨new ++ more, by rw [touchedMore, touched, List.append_assoc], ?_, ?_⟩
    · intro index member
      rcases List.mem_append.mp member with member | member
      · have := near index member
        omega
      · have := nearMore index member
        omega
    · intro index absent
      rw [List.mem_append, not_or] at absent
      rw [keptMore index absent.2, kept index absent.1]

def Covers (operation : UInt8 → UInt8 → UInt8) (mask : UInt8) (value : Bool) (first last : Nat) : Prop :=
  ∀ byte : UInt8, ∀ place < 8, (operation byte mask).toNat.testBit (7 - place) =
    if first ≤ place ∧ place < last then value else byte.toNat.testBit (7 - place)

variable {operation : UInt8 → UInt8 → UInt8}

theorem assign_becomes {mask : UInt8} {index : Nat}
    (covers : Covers operation mask value first last) (small : first < 8) (filled : 0 < last)
    (most : last ≤ 8) (inside : index < before.bytes.length) :
    ∃ behind, assign operation before index mask = .ok behind ∧
      RangeBecomes value (8 * index + first) (8 * index + last) before behind := by
  have found : before.bytes[index]? = Option.some before.bytes[index] := List.getElem?_eq_getElem inside
  refine ⟨_, by rw [assign, byteAt, found]; rfl, List.length_set, ?_, [index], rfl, ?_, ?_⟩
  · intro place _
    rw [getElem?_bits, getElem?_bits]
    have offset : place % 8 < 8 := Nat.mod_lt _ (by decide)
    by_cases here : place / 8 = index
    · have range : 8 * index + first ≤ place ∧ place < 8 * index + last ↔
          first ≤ place % 8 ∧ place % 8 < last := by omega
      rw [here, List.getElem?_set_self inside, found, Option.map_some, covers _ _ offset, Option.map_some]
      simp only [range]
      split <;> rfl
    · rw [List.getElem?_set_ne (Ne.symm here), if_neg (by omega)]
  · intro other member
    rw [List.mem_singleton.mp member]
    omega
  · intro other absent
    exact List.getElem?_set_ne fun same => absent (List.mem_singleton.mpr same.symm)

/-! ## The loop -/

theorem maskLoop_becomes {masks : Nat → UInt8}
    (covers : ∀ first < 8, Covers operation (masks first) value first 8) {final index : Nat}
    (small : first < 8) (inside : final ≤ before.bytes.length) (more : index < final) :
    ∃ behind, maskLoop operation (masks 0) final index (masks first) before =
        .ok (final, masks 0, behind) ∧
      RangeBecomes value (8 * index + first) (8 * final) before behind := by
  induction left : final - index generalizing index first before with
  | zero => omega
  | succ less ih =>
    obtain ⟨between, assigned, here⟩ := assign_becomes (covers first small) small (by decide) (le_refl 8)
      (Nat.lt_of_lt_of_le more inside)
    rw [maskLoop, if_pos more, assigned, ok_bind]
    by_cases next : index + 1 < final
    · have start : 0 < 8 := by decide
      have fits : final ≤ between.bytes.length := by
        rw [here.size]
        exact inside
      obtain ⟨behind, looped, rest⟩ := ih start fits next (by omega)
      exact ⟨behind, looped, here.trans rest (by omega)⟩
    · obtain rfl : index + 1 = final := by omega
      rw [maskLoop, if_neg next]
      exact ⟨between, rfl, here⟩

end Ranges

/-! ## The two functions -/

variable {first : Nat}

theorem maskBehind_covers (small : first < 8) :
    Covers (· ||| ·) (maskBehind first) true first 8 := by
  intro byte place inside
  dsimp only
  rw [UInt8.toNat_or, Nat.testBit_or, maskBehind_bit small inside]
  by_cases reached : first ≤ place <;> simp [reached, inside]

theorem bitsMaskByte_covers (small : first < 8) :
    Covers (· &&& ·) (bitsMaskByte first) false first 8 := by
  intro byte place inside
  dsimp only
  rw [UInt8.toNat_and, Nat.testBit_and, bitsMaskByte_bit small inside]
  by_cases reached : first ≤ place
  · simp [reached, inside]
  · simp [reached, Nat.not_le.mp reached]

theorem lastSet_covers {last : Nat} (small : first < 8) (few : last < 8) :
    Covers (· ||| ·) (maskBehind first &&& bitsMaskByte last) true first last := by
  intro byte place inside
  dsimp only
  rw [UInt8.toNat_or, Nat.testBit_or, UInt8.toNat_and, Nat.testBit_and, maskBehind_bit small inside,
    bitsMaskByte_bit few inside]
  by_cases reached : first ≤ place ∧ place < last <;> grind

theorem lastCleared_covers {last : Nat} (small : first < 8) (few : last < 8) :
    Covers (· &&& ·) (bitsMaskByte first ||| maskBehind last) false first last := by
  intro byte place inside
  dsimp only
  rw [UInt8.toNat_and, Nat.testBit_and, UInt8.toNat_or, Nat.testBit_or, maskBehind_bit few inside,
    bitsMaskByte_bit small inside]
  by_cases reached : first ≤ place ∧ place < last <;> grind

variable {value : Bool} {start : Nat} {bitmap : Bitmap}

theorem loop_becomes (masks : Nat → UInt8) {stop : Nat}
    (covers : ∀ first < 8, Covers operation (masks first) value first 8) (ordered : start ≤ stop)
    (inside : stop ≤ 8 * bitmap.bytes.length) :
    ∃ first behind, maskLoop operation (masks 0) (stop / 8) (start / 8) (masks (start % 8)) bitmap =
        .ok (stop / 8, masks first, behind) ∧ first < 8 ∧
      start ≤ 8 * (stop / 8) + first ∧ 8 * (stop / 8) + first ≤ stop ∧
      RangeBecomes value start (8 * (stop / 8) + first) bitmap behind := by
  have place : 8 * (start / 8) + start % 8 = start := Nat.div_add_mod start 8
  have offset : start % 8 < 8 := Nat.mod_lt _ (by decide)
  by_cases more : start / 8 < stop / 8
  · have fits : stop / 8 ≤ bitmap.bytes.length := by omega
    obtain ⟨behind, looped, loop⟩ := maskLoop_becomes covers offset fits more
    rw [place] at loop
    exact ⟨0, behind, looped, by decide, by omega, by omega, loop⟩
  · have same : start / 8 = stop / 8 := by omega
    refine ⟨start % 8, bitmap, ?_, offset, by omega, by omega, .empty (by omega) bitmap⟩
    rw [maskLoop, if_neg more, same]

theorem last_becomes {mask : UInt8} {stop : Nat} {between : Bitmap}
    (covers : Covers operation mask value first (stop % 8)) (small : first < 8)
    (ordered : start ≤ 8 * (stop / 8) + first) (most : 8 * (stop / 8) + first ≤ stop)
    (inside : stop ≤ 8 * bitmap.bytes.length)
    (loop : RangeBecomes value start (8 * (stop / 8) + first) bitmap between) :
    ∃ behind, (if stop % 8 ≠ 0 then assign operation between (stop / 8) mask else .ok between) =
      .ok behind ∧ RangeBecomes value start stop bitmap behind := by
  have final : 8 * (stop / 8) + stop % 8 = stop := Nat.div_add_mod stop 8
  by_cases whole : stop % 8 = 0
  · have end_eq : 8 * (stop / 8) + first = stop := by omega
    rw [end_eq] at loop
    exact ⟨between, if_neg (not_not.mpr whole), loop⟩
  · have offset : stop % 8 ≤ 8 := (Nat.mod_lt _ (by decide)).le
    have there : stop / 8 < between.bytes.length := by
      rw [loop.size]
      omega
    obtain ⟨behind, assigned, last⟩ :=
      assign_becomes covers small (Nat.pos_of_ne_zero whole) offset there
    rw [final] at last
    exact ⟨behind, (if_pos whole).trans assigned, loop.trans last ⟨ordered, most⟩⟩

variable {len : Nat}

theorem bitmapSet_becomes (noOverflow : start + len < 2 ^ 64)
    (inside : start + len ≤ 8 * bitmap.bytes.length) :
    ∃ behind, bitmapSet bitmap start len = .ok behind ∧
      RangeBecomes true start (start + len) bitmap behind := by
  obtain ⟨first, between, looped, small, ordered, most, loop⟩ :=
    loop_becomes maskBehind (fun _ => maskBehind_covers) (Nat.le_add_right start len) inside
  rw [maskBehind_zero] at looped
  rw [bitmapSet]
  simp only [Nat.mod_eq_of_lt noOverflow]
  rw [looped, ok_bind]
  exact last_becomes (lastSet_covers small (Nat.mod_lt _ (by decide))) small ordered most inside loop

theorem bitmapClear_becomes (noOverflow : start + len < 2 ^ 64)
    (inside : start + len ≤ 8 * bitmap.bytes.length) :
    ∃ behind, bitmapClear bitmap start len = .ok behind ∧
      RangeBecomes false start (start + len) bitmap behind := by
  obtain ⟨first, between, looped, small, ordered, most, loop⟩ :=
    loop_becomes bitsMaskByte (fun _ => bitsMaskByte_covers) (Nat.le_add_right start len) inside
  rw [bitsMaskByte_zero] at looped
  rw [bitmapClear]
  simp only [Nat.mod_eq_of_lt noOverflow]
  rw [looped, ok_bind]
  exact last_becomes (lastCleared_covers small (Nat.mod_lt _ (by decide))) small ordered most inside loop

def tested (bytes : List UInt8) (place : Nat) : Except Fault Bool :=
  (bitmapTestBit bytes place).map (· != 0)

theorem tested_eq (inside : place < 8 * bytes.length) :
    ∃ bit, (bits bytes)[place]? = some bit ∧ tested bytes place = .ok bit := by
  have here := List.getElem?_eq_getElem (l := bits bytes) (by rw [length_bits]; exact inside)
  obtain ⟨read, tested, set⟩ := bitmapTestBit_bits here
  refine ⟨_, here, ?_⟩
  rw [Bitmaps.tested, tested]
  refine congrArg Except.ok (Bool.eq_iff_iff.mpr ?_)
  rw [bne_iff_ne]
  exact set

/-- The bits of the range have the value, the others are as before, and only bytes with a bit of the
range are touched. -/
def WritesRange (value : Bool) (bytes : List UInt8) (start len : Nat) (outcome : Except Fault Bitmap) :
    Prop :=
  ∃ behind, outcome = .ok behind ∧ behind.bytes.length = bytes.length ∧
    (∀ place < 8 * bytes.length, tested behind.bytes place =
      if start ≤ place ∧ place < start + len then .ok value else tested bytes place) ∧
    (∀ index ∈ behind.touched, start / 8 ≤ index ∧ 8 * index < start + len) ∧
    ∀ index, index ∉ behind.touched → behind.bytes[index]? = bytes[index]?

theorem RangeBecomes.writes {behind : Bitmap}
    (becomes : RangeBecomes value start (start + len) ⟨bytes, []⟩ behind) :
    WritesRange value bytes start len (.ok behind) := by
  obtain ⟨size, bit, new, touched, near, kept⟩ := becomes
  obtain rfl : behind.touched = new := touched
  refine ⟨behind, rfl, size, ?_, near, kept⟩
  intro place inside
  obtain ⟨old, oldBit, oldTested⟩ := tested_eq inside
  have within : place < 8 * behind.bytes.length := by
    rw [size]
    exact inside
  obtain ⟨now, nowBit, nowTested⟩ := tested_eq within
  have same := bit place inside
  rw [nowBit, oldBit] at same
  rw [nowTested, oldTested]
  split at same
  · next range => rw [if_pos range, Option.some.inj same]
  · next range => rw [if_neg range, Option.some.inj same]

/-- `bitmap_set` and `bitmap_clear` write the bits of their range and nothing else. -/
theorem bitmap_ranges (bytes : List UInt8) (start len : Nat) (noOverflow : start + len < 2 ^ 64)
    (inside : start + len ≤ 8 * bytes.length) :
    WritesRange true bytes start len (bitmapSet ⟨bytes, []⟩ start len) ∧
      WritesRange false bytes start len (bitmapClear ⟨bytes, []⟩ start len) := by
  have fits : start + len ≤ 8 * (Bitmap.mk bytes []).bytes.length := inside
  constructor
  · obtain ⟨behind, set, becomes⟩ := bitmapSet_becomes noOverflow fits
    rw [set]
    exact becomes.writes
  · obtain ⟨behind, cleared, becomes⟩ := bitmapClear_becomes noOverflow fits
    rw [cleared]
    exact becomes.writes

/-- A range that begins and ends inside a byte. -/
theorem bitmap_ranges_two :
    WritesRange true [0x81, 0x0f, 0x00] 3 16 (bitmapSet ⟨[0x81, 0x0f, 0x00], []⟩ 3 16) ∧
      WritesRange false [0x81, 0x0f, 0x00] 3 16 (bitmapClear ⟨[0x81, 0x0f, 0x00], []⟩ 3 16) :=
  bitmap_ranges [0x81, 0x0f, 0x00] 3 16 (by decide) (by decide)

end CLibs.Bitmaps
