import Mathlib.Algebra.Group.Int.Defs
import Mathlib.Algebra.GroupWithZero.Nat
import Mathlib.Data.List.Basic

/-!
# Tallies over threads

Threads stand in a list, each in a phase of its own.  A tally adds up a weight of
the phases; a step of one thread changes it by the difference of two weights.
-/

namespace CLibs

open List

variable {Phase : Type}

/-- What all threads have together. -/
def tally (weight : Phase → Nat) (phases : List Phase) : Nat := (phases.map weight).sum

theorem tally_cons (weight : Phase → Nat) (phase : Phase) (phases : List Phase) :
    tally weight (phase :: phases) = weight phase + tally weight phases := by
  unfold tally
  rw [map_cons, sum_cons]

theorem tally_set {weight : Phase → Nat} {phases : List Phase} {thread : Nat} {old : Phase}
    (here : phases[thread]? = some old) (new : Phase) :
    tally weight (phases.set thread new) + weight old = tally weight phases + weight new := by
  induction phases generalizing thread with
  | nil => cases here
  | cons phase phases ih =>
    cases thread with
    | zero =>
      rw [set_cons_zero, tally_cons, tally_cons, ← Option.some.inj here]
      omega
    | succ thread =>
      have rest := ih here
      rw [set_cons_succ, tally_cons, tally_cons]
      omega

theorem tally_eq_zero {weight : Phase → Nat} {phases : List Phase}
    (none : ∀ phase ∈ phases, weight phase = 0) : tally weight phases = 0 := by
  induction phases with
  | nil => rfl
  | cons phase phases ih =>
    rw [tally_cons, none phase mem_cons_self,
      ih (forall_mem_cons.mp none).2]

theorem tally_add (first second : Phase → Nat) (phases : List Phase) :
    tally (fun phase => first phase + second phase) phases =
      tally first phases + tally second phases := by
  induction phases with
  | nil => rfl
  | cons phase phases ih =>
    rw [tally_cons, tally_cons, tally_cons, ih]
    omega

theorem le_tally {weight : Phase → Nat} {phases : List Phase} {thread : Nat} {phase : Phase}
    (here : phases[thread]? = some phase) : weight phase ≤ tally weight phases := by
  induction phases generalizing thread with
  | nil => cases here
  | cons first phases ih =>
    rw [tally_cons]
    cases thread with
    | zero =>
      rw [← Option.some.inj here]
      exact Nat.le_add_right _ _
    | succ thread => exact Nat.le_trans (ih here) (Nat.le_add_left _ _)

theorem tally_append (weight : Phase → Nat) (first second : List Phase) :
    tally weight (first ++ second) = tally weight first + tally weight second := by
  unfold tally
  rw [map_append, sum_append]

theorem tally_replicate (weight : Phase → Nat) (count : Nat) (phase : Phase) :
    tally weight (List.replicate count phase) = count * weight phase := by
  induction count with
  | zero => exact (Nat.zero_mul _).symm
  | succ count ih =>
    rw [replicate_succ, tally_cons, ih, Nat.succ_mul, Nat.add_comm]

theorem tally_le {small large : Phase → Nat} (le : ∀ phase, small phase ≤ large phase)
    (phases : List Phase) : tally small phases ≤ tally large phases := by
  induction phases with
  | nil => exact Nat.le_refl 0
  | cons phase phases ih =>
    rw [tally_cons, tally_cons]
    exact Nat.add_le_add (le phase) ih

theorem tally_congr {first second : Phase → Nat} {phases : List Phase}
    (same : ∀ phase ∈ phases, first phase = second phase) :
    tally first phases = tally second phases := by
  unfold tally
  rw [map_congr_left same]

end CLibs
