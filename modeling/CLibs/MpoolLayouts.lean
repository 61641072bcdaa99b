import Mathlib.Order.CompletePartialOrder
import Mathlib.Order.Interval.Set.Disjoint
import Mathlib.Tactic.Ring

/-!
# The layout of the memory pool

Model of `mpool_init`, `mpool_calloc`, `mpool_get_idx` and `mpool_get_by_idx` of
`mpool/mpool.c`, with all arithmetic on `size_t` and `int` as the machine does
it.  Addresses are offsets from the context, which lies at the start of the
memory of the pool; the memory is fresh, so its flags are clear.
-/

namespace CLibs.MpoolLayouts

/-! ## The code -/

/-- `sizeof(mpool_item_t)`, which is also the offset of its data. -/
def sizeofItem : UInt64 := 32

/-- `sizeof(mpool_ctx_t)` on a 64-bit machine. -/
def sizeofCtx : UInt64 := 56
def sizeofPointer : UInt64 := 8

def alignSize : UInt64 := 8

def einval : Int := 22

/-- The fields at the beginning of the memory of a pool. -/
structure MpoolCtx where
  size : UInt64
  msize : UInt64
  max : UInt32
  head : UInt32
  tail : UInt32
  queue : UInt64
  pool : UInt64

inductive Fault
  | division

def slotSize (msize : UInt64) : UInt64 :=
  (sizeofItem + msize + alignSize - 1) / alignSize * alignSize

/-- The context, or the null pointer. -/
def mpoolInit (msize totalSize : UInt64) : Except Fault (Option MpoolCtx) :=
  let size := slotSize msize
  if msize = 0 ∨ totalSize < sizeofCtx + sizeofPointer + size then .ok none
  else if sizeofPointer + size = 0 then .error .division
  else
    let max := ((totalSize - sizeofCtx) / (sizeofPointer + size)).toUInt32
    let queue := sizeofCtx
    .ok (some {
      size := size
      msize := msize
      max := max
      head := 0
      tail := max
      queue := queue
      pool := queue + sizeofPointer * max.toUInt64 })

def callocSize (nmem msize : UInt64) : UInt64 :=
  sizeofCtx + sizeofPointer * nmem + slotSize msize * nmem

def mpoolCalloc (nmem msize : UInt64) : Except Fault (Option MpoolCtx) :=
  if msize = 0 ∨ nmem = 0 then .ok none else mpoolInit msize (callocSize nmem msize)

/-- An `int` as it is compared with an `uint32_t`. -/
def unsigned32 (value : Int) : Nat :=
  (value % 2 ^ 32).toNat

/-- The address of the data of an item, or the null pointer. -/
def mpoolGetByIdx (ctx : MpoolCtx) (idx : Int) : Option UInt64 :=
  if idx < 0 ∨ ctx.max.toNat ≤ unsigned32 idx then none
  else some (ctx.pool + UInt64.ofNat idx.toNat * ctx.size + sizeofItem)

def mpoolGetIdx (ctx : MpoolCtx) (p : UInt64) : Except Fault Int :=
  let l := p - sizeofItem - ctx.pool
  -- `l` is read as `int64_t` here, and as `size_t` in the division
  if 2 ^ 63 ≤ l.toNat then .ok (-einval)
  else if ctx.size = 0 then .error .division
  else if l % ctx.size ≠ 0 then .ok (-einval)
  else
    let idx := Int.bmod (l / ctx.size).toNat (2 ^ 32)
    if ctx.max.toNat ≤ unsigned32 idx then .ok (-einval) else .ok idx

/-! ## What is expected of a pool -/

def slot (ctx : MpoolCtx) (i : Nat) : Set Nat :=
  Set.Ico (ctx.pool.toNat + i * ctx.size.toNat) (ctx.pool.toNat + (i + 1) * ctx.size.toNat)

/-- The slots are apart from each other and from what stands in front of them, inside the memory,
and have the indices that they are asked for. -/
structure Sound (ctx : MpoolCtx) (msize totalSize : Nat) : Prop where
  apart : ∀ i j, i < ctx.max.toNat → j < ctx.max.toNat → i ≠ j → Disjoint (slot ctx i) (slot ctx j)
  past_context : ∀ i < ctx.max.toNat, Disjoint (slot ctx i) (Set.Ico 0 sizeofCtx.toNat)
  past_queue : ∀ i < ctx.max.toNat, Disjoint (slot ctx i)
    (Set.Ico ctx.queue.toNat (ctx.queue.toNat + sizeofPointer.toNat * ctx.max.toNat))
  inside : ∀ i < ctx.max.toNat, slot ctx i ⊆ Set.Ico 0 totalSize
  holds : ∀ i < ctx.max.toNat, sizeofItem.toNat + msize ≤ ctx.size.toNat
  by_idx : ∀ i < ctx.max.toNat, i < 2 ^ 31 →
    ∃ p, mpoolGetByIdx ctx i = some p ∧ mpoolGetIdx ctx p = .ok i
  others : ∀ p, ctx.pool.toNat ≤ p.toNat →
    p.toNat < ctx.pool.toNat + ctx.max.toNat * ctx.size.toNat →
    (∀ i < ctx.max.toNat, i < 2 ^ 31 → mpoolGetByIdx ctx i ≠ some p) →
    ∃ result < 0, mpoolGetIdx ctx p = .ok result

/-! ## Contexts -/

theorem slotSize_toNat (msize : UInt64) :
    (slotSize msize).toNat = (39 + msize.toNat) % 2 ^ 64 / 8 * 8 := by
  simp only [slotSize, sizeofItem, alignSize, UInt64.toNat_mul, UInt64.toNat_div,
    UInt64.toNat_sub, UInt64.toNat_add, UInt64.reduceToNat]
  omega

/-- What `mpool_init` stores, and what it has checked. -/
structure Laid (ctx : MpoolCtx) (msize totalSize : UInt64) : Prop where
  size : ctx.size.toNat = (39 + msize.toNat) % 2 ^ 64 / 8 * 8
  max : ctx.max.toNat =
    (2 ^ 64 - 56 + totalSize.toNat) % 2 ^ 64 / (8 + ctx.size.toNat) % 2 ^ 32
  queue : ctx.queue.toNat = 56
  pool : ctx.pool.toNat = 56 + 8 * ctx.max.toNat
  msize_pos : 0 < msize.toNat
  enough : (64 + ctx.size.toNat) % 2 ^ 64 ≤ totalSize.toNat
  stride : 8 + ctx.size.toNat < 2 ^ 64

theorem laid_of_init {ctx : MpoolCtx} {msize totalSize : UInt64}
    (returned : mpoolInit msize totalSize = .ok (some ctx)) : Laid ctx msize totalSize := by
  have size := slotSize_toNat msize
  have total := totalSize.toNat_lt
  simp only [mpoolInit] at returned
  split at returned
  · cases returned
  · rename_i checked
    split at returned
    · cases returned
    · rename_i notZero
      rw [not_or, UInt64.not_lt, UInt64.le_iff_toNat_le, ← UInt64.toNat_inj] at checked
      rw [← UInt64.toNat_inj] at notZero
      simp only [sizeofCtx, sizeofPointer, UInt64.toNat_add, UInt64.toNat_ofNat] at checked notZero
      have stride : 8 + (slotSize msize).toNat < 2 ^ 64 := by omega
      have enough : (64 + (slotSize msize).toNat) % 2 ^ 64 ≤ totalSize.toNat := by omega
      cases returned
      have maxSmall := ((totalSize - sizeofCtx) / (sizeofPointer + slotSize msize)).toUInt32.toNat_lt
      refine ⟨size, ?_, rfl, ?_, by omega, enough, stride⟩
      · simp only [UInt64.toNat_toUInt32, UInt64.toNat_div, UInt64.toNat_sub, UInt64.toNat_add,
          sizeofCtx, sizeofPointer, UInt64.reduceToNat, Nat.mod_eq_of_lt stride]
      · simp only [UInt64.toNat_add, UInt64.toNat_mul, UInt32.toNat_toUInt64]
        simp only [sizeofCtx, sizeofPointer, UInt64.reduceToNat] at maxSmall ⊢
        omega

/-! ## Addresses and indices -/

section Addresses

variable {ctx : MpoolCtx} {msize totalSize : UInt64}

theorem unsigned32_of_lt {i : Nat} (small : i < 2 ^ 32) : unsigned32 i = i := by
  unfold unsigned32
  omega

theorem distance_toNat (laid : Laid ctx msize totalSize) (p : UInt64) :
    (p - sizeofItem - ctx.pool).toNat =
      (2 ^ 64 - (32 + ctx.pool.toNat) + p.toNat) % 2 ^ 64 := by
  have pool := laid.pool
  have maxSmall := ctx.max.toNat_lt
  simp only [UInt64.toNat_sub, sizeofItem, UInt64.reduceToNat]
  omega

theorem mpoolGetIdx_eq (laid : Laid ctx msize totalSize) {p : UInt64} {distance : Nat}
    (isBehind : p.toNat = ctx.pool.toNat + 32 + distance) (sizePos : 0 < ctx.size.toNat) :
    mpoolGetIdx ctx p =
      if 2 ^ 63 ≤ distance ∨ distance % ctx.size.toNat ≠ 0 ∨
          ctx.max.toNat ≤ unsigned32 (Int.bmod (distance / ctx.size.toNat : Nat) (2 ^ 32)) then
        .ok (-einval)
      else .ok (Int.bmod (distance / ctx.size.toNat : Nat) (2 ^ 32)) := by
  have pool := laid.pool
  have maxSmall := ctx.max.toNat_lt
  have pSmall := p.toNat_lt
  have isDistance : (p - sizeofItem - ctx.pool).toNat = distance := by
    rw [distance_toNat laid, isBehind]
    omega
  have notZero : ctx.size ≠ 0 := by
    rintro isZero
    rw [isZero] at sizePos
    exact absurd sizePos (by decide)
  have mod_iff : (p - sizeofItem - ctx.pool) % ctx.size ≠ 0 ↔ distance % ctx.size.toNat ≠ 0 := by
    rw [ne_eq, ← UInt64.toNat_inj, UInt64.toNat_mod, isDistance]
    rfl
  simp only [mpoolGetIdx, isDistance, if_neg notZero, UInt64.toNat_div, mod_iff]
  by_cases negative : 2 ^ 63 ≤ distance
  · rw [if_pos negative, if_pos (.inl negative)]
  · by_cases between : distance % ctx.size.toNat ≠ 0
    · rw [if_neg negative, if_pos between, if_pos (.inr (.inl between))]
    · simp only [negative, between, false_or, if_false]

theorem mpoolGetIdx_header (laid : Laid ctx msize totalSize) {p : UInt64}
    (isBehind : ctx.pool.toNat ≤ p.toNat) (isHeader : p.toNat < ctx.pool.toNat + 32) :
    mpoolGetIdx ctx p = .ok (-einval) := by
  have pool := laid.pool
  have maxSmall := ctx.max.toNat_lt
  have isNegative : 2 ^ 63 ≤ (p - sizeofItem - ctx.pool).toNat := by
    rw [distance_toNat laid]
    omega
  exact if_pos isNegative

theorem mpoolGetByIdx_eq {i : Nat} (valid : i < ctx.max.toNat)
    (inMemory : ctx.pool.toNat + i * ctx.size.toNat + 32 < 2 ^ 64) :
    ∃ p, mpoolGetByIdx ctx i = some p ∧ p.toNat = ctx.pool.toNat + 32 + i * ctx.size.toNat := by
  have maxSmall := ctx.max.toNat_lt
  have isIndex : ¬ ((i : Int) < 0 ∨ ctx.max.toNat ≤ unsigned32 i) := by
    rw [unsigned32_of_lt (by omega)]
    omega
  refine ⟨_, if_neg isIndex, ?_⟩
  have iSmall : i < 2 ^ 64 := by omega
  simp only [UInt64.toNat_add, UInt64.toNat_mul, UInt64.toNat_ofNat', Int.toNat_natCast, sizeofItem,
    UInt64.reduceToNat, Nat.mod_eq_of_lt iSmall]
  generalize i * ctx.size.toNat = offset at inMemory ⊢
  omega

end Addresses

end CLibs.MpoolLayouts
