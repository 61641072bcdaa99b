import Mathlib.Logic.Basic

/-!
# Sequences of guarded calls

A component is driven by calls.  `Runs guard step` relates a state, a list of calls and the state
the calls lead to; `guard` is the discipline the caller keeps (or the condition under which a result
is claimed) and `step` is what one call can do.
-/

namespace CLibs

section Runs

variable {State Call : Type*}

/-- The calls of a run, each of which meets the guard in the state that it finds. -/
inductive Runs (guard : State → Call → Prop) (step : State → Call → State → Prop) :
    State → List Call → State → Prop
  | nil (state : State) : Runs guard step state [] state
  | cons {first second last : State} {call : Call} {calls : List Call}
      (guarded : guard first call) (stepped : step first call second)
      (rest : Runs guard step second calls last) :
      Runs guard step first (call :: calls) last

variable {guard : State → Call → Prop} {step : State → Call → State → Prop}

theorem Runs.invariant {inv : State → Prop}
    (preserved : ∀ state call next, inv state → guard state call →
      step state call next → inv next)
    {first last : State} {calls : List Call}
    (run : Runs guard step first calls last) (initial : inv first) : inv last := by
  induction run with
  | nil state => exact initial
  | cons guarded stepped rest ih =>
    exact ih (preserved _ _ _ initial guarded stepped)

variable {first last : State} {calls : List Call}

theorem Runs.append {second : State} {moreCalls : List Call}
    (run : Runs guard step first calls second) (more : Runs guard step second moreCalls last) :
    Runs guard step first (calls ++ moreCalls) last := by
  induction run with
  | nil state => exact more
  | cons guarded stepped rest ih => exact .cons guarded stepped (ih more)

theorem Runs.weaken {weaker : State → Call → Prop}
    (implied : ∀ state call, guard state call → weaker state call)
    (run : Runs guard step first calls last) :
    Runs weaker step first calls last := by
  induction run with
  | nil state => exact .nil state
  | cons guarded stepped rest ih => exact .cons (implied _ _ guarded) stepped ih

theorem Runs.of_foldlM [∀ state call, Decidable (guard state call)]
    {next : State → Call → Option State}
    (folded : calls.foldlM (fun state call => if guard state call then next state call else none)
      first = some last) :
    Runs guard (fun state call after => next state call = some after) first calls last := by
  induction calls generalizing first with
  | nil =>
    obtain rfl := Option.some.inj folded
    exact .nil _
  | cons call calls ih =>
    rw [List.foldlM_cons] at folded
    obtain ⟨second, stepped, rest⟩ := Option.bind_eq_some_iff.mp folded
    by_cases guarded : guard first call
    · rw [if_pos guarded] at stepped
      exact .cons guarded stepped (ih rest)
    · rw [if_neg guarded] at stepped
      exact absurd stepped nofun

end Runs

end CLibs
