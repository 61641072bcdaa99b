import CLibs.MpoolLayouts

/-!
# Sound layouts of the memory pool

The layout of a pool is sound just if the size of a slot does not wrap around,
the context has room, and the distances of the slots fit into an `int64_t`; a
pool of a number of members has as many slots just if their number fits too.
-/

namespace CLibs.MpoolLayouts

def slotBytes (msize : Nat) : Nat :=
  (39 + msize) % 2 ^ 64 / 8 * 8

def slotCount (msize totalSize : Nat) : Nat :=
  (totalSize - 56) / (8 + slotBytes msize) % 2 ^ 32

/-- The memory has room for the context, and there are no slots or no size wraps
around and the distances of the slots that have an index are not negative. -/
def Fits (msize totalSize : Nat) : Prop :=
  56 ≤ totalSize ∧ (slotCount msize totalSize = 0 ∨
    39 + msize < 2 ^ 64 ∧ (min (slotCount msize totalSize) (2 ^ 31) - 1) * slotBytes msize < 2 ^ 63)

section Sound

variable {ctx : MpoolCtx} {msize totalSize : UInt64}

theorem max_eq (laid : Laid ctx msize totalSize) (room : 56 ≤ totalSize.toNat) :
    ctx.max.toNat = slotCount msize.toNat totalSize.toNat := by
  have total := totalSize.toNat_lt
  have less : (2 ^ 64 - 56 + totalSize.toNat) % 2 ^ 64 = totalSize.toNat - 56 := by omega
  rw [laid.max, laid.size, less]
  rfl

theorem max_eq_one (laid : Laid ctx msize totalSize) (noRoom : totalSize.toNat < 56) :
    ctx.max.toNat = 1 := by
  have enough := laid.enough
  have stride := laid.stride
  have less : (2 ^ 64 - 56 + totalSize.toNat) % 2 ^ 64 = 2 ^ 64 - 56 + totalSize.toNat := by omega
  rw [laid.max, less]
  have isOne : (2 ^ 64 - 56 + totalSize.toNat) / (8 + ctx.size.toNat) = 1 := by
    apply Nat.div_eq_of_lt_le <;> omega
  rw [isOne, Nat.mod_eq_of_lt (by omega)]

theorem slotBytes_of_fit {size : Nat} (fits : 39 + size < 2 ^ 64) :
    32 + size ≤ slotBytes size ∧ 32 ≤ slotBytes size := by
  unfold slotBytes
  omega

theorem slots_inside (laid : Laid ctx msize totalSize) (room : 56 ≤ totalSize.toNat) :
    ctx.pool.toNat + ctx.max.toNat * ctx.size.toNat ≤ totalSize.toNat := by
  have count : ctx.max.toNat * (8 + ctx.size.toNat) ≤ totalSize.toNat - 56 := by
    rw [max_eq laid room, laid.size]
    exact (Nat.mul_le_mul_right _ (Nat.mod_le _ _)).trans (Nat.div_mul_le_self _ _)
  rw [Nat.mul_add] at count
  rw [laid.pool]
  omega

theorem slot_end {i max : Nat} (size : Nat) (valid : i < max) : i * size + size ≤ max * size := by
  have less := Nat.mul_le_mul_right size (Nat.succ_le_of_lt valid)
  rwa [Nat.succ_mul] at less

theorem slot_subset {i : Nat} (valid : i < ctx.max.toNat) : slot ctx i ⊆
    Set.Ico ctx.pool.toNat (ctx.pool.toNat + ctx.max.toNat * ctx.size.toNat) := by
  have ends := slot_end ctx.size.toNat valid
  intro byte inSlot
  rw [slot, Set.mem_Ico, Nat.succ_mul] at inSlot
  exact Set.mem_Ico.mpr (by omega)

theorem slots_apart {i j : Nat} (different : i ≠ j) : Disjoint (slot ctx i) (slot ctx j) := by
  rw [Set.disjoint_left]
  intro byte inFirst inSecond
  rw [slot, Set.mem_Ico, Nat.succ_mul] at inFirst inSecond
  rcases Nat.lt_or_gt_of_ne different with less | more
  · have ends := slot_end ctx.size.toNat less
    omega
  · have ends := slot_end ctx.size.toNat more
    omega

theorem sound_of_indices (laid : Laid ctx msize totalSize) (room : 56 ≤ totalSize.toNat)
    (holds : ∀ i < ctx.max.toNat, sizeofItem.toNat + msize.toNat ≤ ctx.size.toNat)
    (by_idx : ∀ i < ctx.max.toNat, i < 2 ^ 31 →
      ∃ p, mpoolGetByIdx ctx i = some p ∧ mpoolGetIdx ctx p = .ok i)
    (others : ∀ p, ctx.pool.toNat ≤ p.toNat →
      p.toNat < ctx.pool.toNat + ctx.max.toNat * ctx.size.toNat →
      (∀ i < ctx.max.toNat, i < 2 ^ 31 → mpoolGetByIdx ctx i ≠ some p) →
      ∃ result < 0, mpoolGetIdx ctx p = .ok result) :
    Sound ctx msize.toNat totalSize.toNat := by
  have ends := slots_inside laid room
  have pool := laid.pool
  have queue := laid.queue
  have before : ∀ i < ctx.max.toNat, ∀ low high, high ≤ ctx.pool.toNat →
      Disjoint (slot ctx i) (Set.Ico low high) := by
    intro i valid low high below
    rw [Set.disjoint_left]
    intro byte inSlot inPart
    have inSlots := (slot_subset valid inSlot).1
    exact absurd inPart.2 (by omega)
  refine ⟨fun i j _ _ different => slots_apart different, fun i valid => ?_, fun i valid => ?_,
    fun i valid byte inSlot => ?_, holds, by_idx, others⟩
  · apply before i valid
    simp only [sizeofCtx, UInt64.reduceToNat]
    omega
  · apply before i valid
    simp only [sizeofPointer, UInt64.reduceToNat]
    omega
  · have inSlots := (slot_subset valid inSlot).2
    exact Set.mem_Ico.mpr ⟨Nat.zero_le _, by omega⟩

theorem mpoolGetIdx_slot (laid : Laid ctx msize totalSize) {p : UInt64} {i : Nat}
    (valid : i < ctx.max.toNat) (small : i < 2 ^ 31) (sizePos : 0 < ctx.size.toNat)
    (isData : p.toNat = ctx.pool.toNat + 32 + i * ctx.size.toNat)
    (positive : i * ctx.size.toNat < 2 ^ 63) : mpoolGetIdx ctx p = .ok i := by
  have isIndex : Int.bmod (i : Nat) (2 ^ 32) = i := by
    rw [Int.bmod_def]
    omega
  have notFar : ¬ ctx.max.toNat ≤ unsigned32 i := by
    rw [unsigned32_of_lt (by omega)]
    omega
  rw [mpoolGetIdx_eq laid isData sizePos, Nat.mul_div_cancel _ sizePos, Nat.mul_mod_left, isIndex,
    if_neg]
  rintro (negative | between | far)
  · omega
  · exact between rfl
  · exact notFar far

theorem mpoolGetIdx_other (laid : Laid ctx msize totalSize)
    (sizeFits : 32 ≤ ctx.size.toNat) {p : UInt64} (isBehind : ctx.pool.toNat ≤ p.toNat)
    (inSlots : p.toNat < ctx.pool.toNat + ctx.max.toNat * ctx.size.toNat)
    (other : ∀ i < ctx.max.toNat, i < 2 ^ 31 → mpoolGetByIdx ctx i ≠ some p) :
    ∃ result < 0, mpoolGetIdx ctx p = .ok result := by
  by_cases isHeader : p.toNat < ctx.pool.toNat + 32
  · exact ⟨-einval, by decide, mpoolGetIdx_header laid isBehind isHeader⟩
  · obtain ⟨distance, isDistance⟩ : ∃ distance, p.toNat = ctx.pool.toNat + 32 + distance :=
      ⟨p.toNat - (ctx.pool.toNat + 32), by omega⟩
    have sizePos : 0 < ctx.size.toNat := by omega
    rw [mpoolGetIdx_eq laid isDistance sizePos]
    split
    · exact ⟨-einval, by decide, rfl⟩
    · rename_i accepted
      rw [not_or, not_or, not_ne_iff] at accepted
      obtain ⟨-, whole, -⟩ := accepted
      obtain ⟨i, rfl⟩ := Nat.dvd_of_mod_eq_zero whole
      rw [Nat.mul_comm] at isDistance ⊢
      rw [Nat.mul_div_cancel _ sizePos]
      have valid : i < ctx.max.toNat := by
        by_contra outside
        have beyond := Nat.mul_le_mul_right ctx.size.toNat (Nat.le_of_not_lt outside)
        omega
      have maxSmall := ctx.max.toNat_lt
      have inMemory : ctx.pool.toNat + i * ctx.size.toNat + 32 < 2 ^ 64 := by
        have pSmall := p.toNat_lt
        omega
      obtain ⟨address, isAddress, sameValue⟩ := mpoolGetByIdx_eq valid inMemory
      obtain rfl : address = p := UInt64.toNat_inj.mp (sameValue.trans isDistance.symm)
      have large : 2 ^ 31 ≤ i := by
        by_contra small
        exact other i valid (by omega) isAddress
      refine ⟨_, ?_, rfl⟩
      rw [Int.bmod_def]
      omega

theorem sound_of_fits (laid : Laid ctx msize totalSize)
    (fits : Fits msize.toNat totalSize.toNat) : Sound ctx msize.toNat totalSize.toNat := by
  obtain ⟨room, noSlots | ⟨noWrap, positive⟩⟩ := fits
  · rw [← max_eq laid room] at noSlots
    apply sound_of_indices laid room
    · intro i valid
      omega
    · intro i valid
      omega
    · intro p isBehind inSlots
      rw [noSlots] at inSlots
      omega
  · rw [← max_eq laid room] at positive
    have isSize : ctx.size.toNat = slotBytes msize.toNat := laid.size
    rw [← isSize] at positive
    obtain ⟨sizeHolds, sizeFits⟩ := slotBytes_of_fit noWrap
    rw [← isSize] at sizeHolds sizeFits
    have ends := slots_inside laid room
    have total := totalSize.toNat_lt
    apply sound_of_indices laid room
    · intro i valid
      exact sizeHolds
    · intro i valid small
      have slotEnds := slot_end ctx.size.toNat valid
      obtain ⟨p, isData, distance⟩ := mpoolGetByIdx_eq valid (by omega)
      have notNegative : i * ctx.size.toNat < 2 ^ 63 := by
        apply lt_of_le_of_lt _ positive
        apply Nat.mul_le_mul_right
        omega
      exact ⟨p, isData, mpoolGetIdx_slot laid valid small (by omega) distance notNegative⟩
    · intro p isBehind inSlots other
      exact mpoolGetIdx_other laid sizeFits isBehind inSlots other

theorem fits_of_sound (laid : Laid ctx msize totalSize)
    (sound : Sound ctx msize.toNat totalSize.toNat) : Fits msize.toNat totalSize.toNat := by
  have sizePos : ∀ i < ctx.max.toNat, 32 < ctx.size.toNat := by
    intro i valid
    have holds := sound.holds i valid
    have msizePos := laid.msize_pos
    simp only [sizeofItem, UInt64.reduceToNat] at holds
    omega
  have inside : ∀ i < ctx.max.toNat, ctx.pool.toNat + i * ctx.size.toNat + 32 < totalSize.toNat := by
    intro i valid
    have large := sizePos i valid
    have lastByte : ctx.pool.toNat + i * ctx.size.toNat + 32 ∈ slot ctx i := by
      rw [slot, Set.mem_Ico, Nat.succ_mul]
      omega
    exact (sound.inside i valid lastByte).2
  have room : 56 ≤ totalSize.toNat := by
    by_contra noRoom
    have isOne := max_eq_one laid (by omega)
    have first := inside 0 (by omega)
    have pool := laid.pool
    omega
  refine ⟨room, ?_⟩
  rw [← max_eq laid room]
  rcases Nat.eq_zero_or_pos ctx.max.toNat with noSlots | someSlots
  · exact .inl noSlots
  · right
    have isSize : ctx.size.toNat = slotBytes msize.toNat := laid.size
    have large := sizePos 0 someSlots
    have holds := sound.holds 0 someSlots
    have mSmall := msize.toNat_lt
    rw [← isSize]
    refine ⟨?_, ?_⟩
    · simp only [sizeofItem, UInt64.reduceToNat] at holds
      rw [isSize, slotBytes] at holds
      omega
    · by_contra negative
      obtain ⟨i, isLast⟩ : ∃ i, i = min ctx.max.toNat (2 ^ 31) - 1 := ⟨_, rfl⟩
      rw [← isLast] at negative
      have valid : i < ctx.max.toNat := by omega
      obtain ⟨p, isData, index⟩ := sound.by_idx i valid (by omega)
      have inMemory := inside i valid
      have total := totalSize.toNat_lt
      obtain ⟨address, isAddress, distance⟩ := mpoolGetByIdx_eq valid (by omega)
      obtain rfl : p = address := Option.some.inj (isData.symm.trans isAddress)
      rw [mpoolGetIdx_eq laid distance (by omega), if_pos (.inl (by omega))] at index
      have same := Except.ok.inj index
      simp only [einval] at same
      omega

theorem sound_iff (laid : Laid ctx msize totalSize) :
    Sound ctx msize.toNat totalSize.toNat ↔ Fits msize.toNat totalSize.toNat :=
  ⟨fits_of_sound laid, sound_of_fits laid⟩

end Sound

/-! ## `mpool_calloc` -/

/-- The number of members is computed back from the size, and no size or product
wraps around. -/
def CallocFits (nmem msize : Nat) : Prop :=
  39 + msize < 2 ^ 64 ∧ 56 + (8 + slotBytes msize) * nmem < 2 ^ 64 ∧ nmem < 2 ^ 32 ∧
    (min nmem (2 ^ 31) - 1) * slotBytes msize < 2 ^ 63

theorem callocSize_toNat (nmem msize : UInt64) : (callocSize nmem msize).toNat =
    (56 + (8 + slotBytes msize.toNat) * nmem.toNat) % 2 ^ 64 := by
  have isSize : (slotSize msize).toNat = slotBytes msize.toNat := slotSize_toNat msize
  simp only [callocSize, UInt64.toNat_add, UInt64.toNat_mul, isSize, sizeofCtx, sizeofPointer,
    UInt64.reduceToNat, Nat.add_mul]
  generalize slotBytes msize.toNat * nmem.toNat = product
  omega

theorem laid_of_calloc {ctx : MpoolCtx} {nmem msize : UInt64}
    (returned : mpoolCalloc nmem msize = .ok (some ctx)) :
    0 < nmem.toNat ∧ Laid ctx msize (callocSize nmem msize) := by
  unfold mpoolCalloc at returned
  split at returned
  · cases returned
  · rename_i given
    rw [not_or, ← UInt64.toNat_inj, ← UInt64.toNat_inj] at given
    exact ⟨Nat.pos_of_ne_zero given.2, laid_of_init returned⟩

theorem slotCount_exact {nmem msize : Nat} (counted : nmem < 2 ^ 32) :
    slotCount msize (56 + (8 + slotBytes msize) * nmem) = nmem := by
  rw [slotCount, Nat.add_sub_cancel_left, Nat.mul_div_cancel_left _ (by omega),
    Nat.mod_eq_of_lt counted]

theorem calloc_sound_iff {ctx : MpoolCtx} {nmem msize : UInt64}
    (returned : mpoolCalloc nmem msize = .ok (some ctx)) :
    Sound ctx msize.toNat (callocSize nmem msize).toNat ∧ nmem.toNat ≤ ctx.max.toNat ↔
      CallocFits nmem.toNat msize.toNat := by
  obtain ⟨nmemPos, laid⟩ := laid_of_calloc returned
  have size := callocSize_toNat nmem msize
  have maxSmall := ctx.max.toNat_lt
  rw [sound_iff laid]
  constructor
  · rintro ⟨⟨room, slots⟩, enough⟩
    have isCount := max_eq laid room
    have counted : nmem.toNat ≤
        ((callocSize nmem msize).toNat - 56) / (8 + slotBytes msize.toNat) := by
      rw [isCount] at enough
      exact enough.trans (Nat.mod_le _ _)
    have product := (Nat.le_div_iff_mul_le (by omega)).mp counted
    rw [Nat.mul_comm] at product
    have noWrap : 56 + (8 + slotBytes msize.toNat) * nmem.toNat < 2 ^ 64 := by omega
    rw [Nat.mod_eq_of_lt noWrap] at size
    rw [size, slotCount_exact (by omega)] at slots
    rcases slots with noSlots | ⟨msizeFits, positive⟩
    · omega
    · exact ⟨msizeFits, noWrap, by omega, positive⟩
  · rintro ⟨msizeFits, noWrap, counted, positive⟩
    rw [Nat.mod_eq_of_lt noWrap] at size
    have room : 56 ≤ (callocSize nmem msize).toNat := by omega
    have isCount := max_eq laid room
    rw [size, slotCount_exact counted] at isCount
    refine ⟨⟨room, .inr ⟨msizeFits, ?_⟩⟩, isCount.ge⟩
    rw [size, slotCount_exact counted]
    exact positive

/-- The pools that `mpool_init` and `mpool_calloc` return are laid out as they
should be just if the sizes fit. -/
theorem mpool_layout_iff (nmem msize totalSize : UInt64) :
    (∀ ctx, mpoolInit msize totalSize = .ok (some ctx) →
      (Sound ctx msize.toNat totalSize.toNat ↔ Fits msize.toNat totalSize.toNat)) ∧
    ∀ ctx, mpoolCalloc nmem msize = .ok (some ctx) →
      (Sound ctx msize.toNat (callocSize nmem msize).toNat ∧ nmem.toNat ≤ ctx.max.toNat ↔
        CallocFits nmem.toNat msize.toNat) :=
  ⟨fun _ returned => sound_iff (laid_of_init returned), fun _ returned => calloc_sound_iff returned⟩

/-- Four members of ten bytes. -/
theorem mpool_layout_iff_four : ∃ ctx, mpoolCalloc 4 10 = .ok (some ctx) ∧
    Sound ctx 10 (callocSize 4 10).toNat ∧ 4 ≤ ctx.max.toNat := by
  have returned : mpoolCalloc 4 10 = .ok (some ⟨48, 10, 4, 0, 4, 56, 88⟩) := by rfl
  have fits : CallocFits 4 10 := by
    unfold CallocFits slotBytes
    decide
  exact ⟨_, returned, ((mpool_layout_iff 4 10 0).2 _ returned).mpr fits⟩

/-- The product wraps around for so many members, and the size of a slot for
such a large one. -/
theorem mpool_layout_wraps :
    (∃ ctx, mpoolCalloc 2305843009213693953 8 = .ok (some ctx) ∧ ctx.max = 1) ∧
    ∃ ctx, mpoolInit 18446744073709551615 200 = .ok (some ctx) ∧ ctx.max = 3 ∧
      ¬ Sound ctx 18446744073709551615 200 := by
  have first : mpoolCalloc 2305843009213693953 8 = .ok (some ⟨40, 8, 1, 0, 1, 56, 64⟩) := by rfl
  have second : mpoolInit 18446744073709551615 200 =
      .ok (some ⟨32, 18446744073709551615, 3, 0, 3, 56, 80⟩) := by rfl
  refine ⟨⟨_, first, rfl⟩, _, second, rfl, ?_⟩
  intro sound
  have holds := sound.holds 0 (by decide)
  exact absurd holds (by decide)

end CLibs.MpoolLayouts
