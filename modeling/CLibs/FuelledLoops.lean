import Mathlib.Logic.Basic

/-!
# Loops with fuel

A loop of the source that follows pointers or counts up is a function of the fuel it may use;
running out of fuel is a fault, as a failed assertion is. `Returns program value` says that the
program ends: every sufficient amount of fuel gives this value.
-/

namespace CLibs

section Returns

variable {Fault Value Result : Type}

/-- The program returns the value as soon as it has enough fuel. -/
def Returns (program : Nat → Except Fault Value) (value : Value) : Prop :=
  ∃ enough, ∀ fuel ≥ enough, program fuel = .ok value

variable {program : Nat → Except Fault Value}

theorem Returns.unique {first second : Value} (returns : Returns program first)
    (again : Returns program second) : first = second := by
  obtain ⟨enough, returns⟩ := returns
  obtain ⟨more, again⟩ := again
  have same := (returns (max enough more) (Nat.le_max_left _ _)).symm.trans
    (again (max enough more) (Nat.le_max_right _ _))
  exact Except.ok.inj same

variable {value : Value}

theorem Returns.of_add (enough : Nat) (returned : ∀ more, program (more + enough) = .ok value) :
    Returns program value := by
  refine ⟨enough, fun fuel sufficient => ?_⟩
  obtain ⟨more, rfl⟩ := Nat.exists_eq_add_of_le' sufficient
  exact returned more

theorem Returns.pure (value : Value) : Returns (fun _ => (.ok value : Except Fault Value)) value :=
  ⟨0, fun _ _ => rfl⟩

theorem Returns.bind {next : Nat → Value → Except Fault Result} {result : Result}
    (first : Returns program value) (second : Returns (fun fuel => next fuel value) result) :
    Returns (fun fuel => program fuel >>= next fuel) result := by
  obtain ⟨enough, first⟩ := first
  obtain ⟨more, second⟩ := second
  refine ⟨max enough more, fun fuel sufficient => ?_⟩
  change (program fuel).bind (next fuel) = .ok result
  rw [first fuel (Nat.le_trans (Nat.le_max_left _ _) sufficient)]
  exact second fuel (Nat.le_trans (Nat.le_max_right _ _) sufficient)

theorem Returns.map (returns : Returns program value) (wrap : Value → Result) :
    Returns (fun fuel => (program fuel).map wrap) (wrap value) := by
  obtain ⟨enough, returns⟩ := returns
  refine ⟨enough, fun fuel sufficient => ?_⟩
  simp only [returns fuel sufficient, Except.map]

theorem Returns.iterate {loop body : Nat → Except Fault Value}
    (unfold : ∀ fuel, loop (fuel + 1) = body fuel) (returns : Returns body value) :
    Returns loop value := by
  obtain ⟨enough, returns⟩ := returns
  refine ⟨enough + 1, fun fuel sufficient => ?_⟩
  obtain ⟨less, rfl⟩ : ∃ less, fuel = less + 1 := ⟨fuel - 1, by omega⟩
  rw [unfold]
  exact returns less (by omega)

end Returns

end CLibs
