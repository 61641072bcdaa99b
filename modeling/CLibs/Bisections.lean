import Mathlib.Data.Int.Order.Basic
import Mathlib.Order.Lattice

/-!
# Bisection that stops at an equal entry

The loop halves an interval of an ordered sequence and remembers the entry it looked at last.  That
entry is equal to the target, or it is the first one above or the last one below it; so with its two
neighbours it has an entry that is nearest to the target.
-/

namespace CLibs

section Bisection

variable {Failure Value : Type}

/-- The loop: the entry that was looked at last. -/
def bisectFrom [LT Value] [DecidableLT Value] (probe : Nat → Except Failure Value) (target : Value)
    (start stop last : Nat) : Except Failure Nat :=
  if start < stop then
    match probe ((start + stop) / 2) with
    | .error failure => .error failure
    | .ok value =>
      if target < value then
        bisectFrom probe target start ((start + stop) / 2) ((start + stop) / 2)
      else if value < target then
        bisectFrom probe target ((start + stop) / 2 + 1) stop ((start + stop) / 2)
      else .ok ((start + stop) / 2)
  else .ok last
termination_by stop - start

variable [LinearOrder Value]

/-- An entry at the target, or next to where it would stand. -/
structure Beside (value : Nat → Value) (target : Value) (count index : Nat) : Prop where
  inside : index < count
  beside : value index = target ∨
    (target < value index ∧ ∀ before < index, value before < target) ∨
    (value index < target ∧ ∀ behind < count, index < behind → target < value behind)

/-- A sequence that never goes down. -/
def OrderedUpTo (value : Nat → Value) (count : Nat) : Prop :=
  ∀ behind < count, ∀ before ≤ behind, value before ≤ value behind

structure Bracket (value : Nat → Value) (target : Value) (count start stop last : Nat) : Prop where
  within : stop ≤ count
  below : ∀ before < start, value before < target
  above : ∀ behind < count, stop ≤ behind → target < value behind
  empty : stop ≤ start → Beside value target count last

variable {value : Nat → Value} {target : Value} {count start stop last : Nat}

theorem Bracket.lower (bracket : Bracket value target count start stop last)
    (ordered : OrderedUpTo value count) {middle : Nat} (middle_stop : middle < stop)
    (above : target < value middle) :
    Bracket value target count start middle middle where
  within := by
    have within := bracket.within
    omega
  below := bracket.below
  above := fun behind inside after => lt_of_lt_of_le above (ordered behind inside middle after)
  empty := fun reached =>
    { inside := Nat.lt_of_lt_of_le middle_stop bracket.within
      beside := .inr (.inl ⟨above, fun before less =>
        bracket.below before (Nat.lt_of_lt_of_le less reached)⟩) }

theorem Bracket.upper (bracket : Bracket value target count start stop last)
    (ordered : OrderedUpTo value count) {middle : Nat} (middle_stop : middle < stop)
    (below : value middle < target) :
    Bracket value target count (middle + 1) stop middle where
  within := bracket.within
  below := fun before less => lt_of_le_of_lt (ordered middle
    (Nat.lt_of_lt_of_le middle_stop bracket.within) before (Nat.le_of_lt_succ less)) below
  above := bracket.above
  empty := fun reached =>
    { inside := Nat.lt_of_lt_of_le middle_stop bracket.within
      beside := .inr (.inr ⟨below, fun behind inside after =>
        bracket.above behind inside (Nat.le_trans reached after)⟩) }

theorem bisectFrom_beside {probe : Nat → Except Failure Value}
    (known : ∀ index < count, probe index = .ok (value index)) (ordered : OrderedUpTo value count)
    (bracket : Bracket value target count start stop last) :
    ∃ found, bisectFrom probe target start stop last = .ok found ∧
      Beside value target count found := by
  induction size : stop - start using Nat.strongRecOn generalizing start stop last with
  | _ size ih =>
    have within := bracket.within
    rw [bisectFrom]
    by_cases more : start < stop
    · rw [if_pos more, known _ (by omega)]
      dsimp only
      split
      · next above =>
          exact ih _ (by omega) (bracket.lower ordered (by omega) above) rfl
      · split
        · next below =>
            exact ih _ (by omega) (bracket.upper ordered (by omega) below) rfl
        · next above below =>
            exact ⟨_, rfl, by omega, .inl (le_antisymm (not_lt.mp above) (not_lt.mp below))⟩
    · rw [if_neg more]
      exact ⟨last, rfl, bracket.empty (Nat.not_lt.mp more)⟩

theorem Bracket.whole (last : Nat) (some : 0 < count) : Bracket value target count 0 count last where
  within := Nat.le_refl count
  below := fun _ less => absurd less (Nat.not_lt_zero _)
  above := fun _ inside after => absurd inside (Nat.not_lt.mpr after)
  empty := fun none => absurd some (Nat.not_lt.mpr none)

end Bisection

/-! ## The nearest entry -/

section Nearest

variable {value : Nat → Int} {target : Int} {count index : Nat}

/-- The entries before and behind, where there are such. -/
def neighbourBefore (index : Nat) : Nat := if index > 0 then index - 1 else index

def neighbourBehind (count index : Nat) : Nat := if index + 1 < count then index + 1 else index

theorem neighbourBefore_lt (inside : index < count) : neighbourBefore index < count := by
  unfold neighbourBefore
  split <;> omega

theorem neighbourBehind_lt (inside : index < count) : neighbourBehind count index < count := by
  unfold neighbourBehind
  split <;> omega

theorem Beside.nearest (beside : Beside value target count index) (ordered : OrderedUpTo value count)
    {other : Nat} (inside : other < count) :
    (value index - target).natAbs ≤ (value other - target).natAbs ∨
      (value (neighbourBefore index) - target).natAbs ≤ (value other - target).natAbs ∨
      (value (neighbourBehind count index) - target).natAbs ≤ (value other - target).natAbs := by
  rcases beside.beside with equal | ⟨above, below⟩ | ⟨below, above⟩
  · left
    omega
  · rcases Nat.lt_or_ge other index with before | behind
    · right
      left
      have order := ordered (index - 1) (by have := beside.inside; omega) other (by omega)
      have less := below (index - 1) (by omega)
      rw [neighbourBefore, if_pos (by omega)]
      omega
    · left
      have order := ordered other inside index behind
      omega
  · rcases Nat.lt_or_ge index other with behind | before
    · right
      right
      have order := ordered other inside (index + 1) behind
      have more := above (index + 1) (by omega) (by omega)
      rw [neighbourBehind, if_pos (by omega)]
      omega
    · left
      have order := ordered index beside.inside other before
      omega

end Nearest

end CLibs
