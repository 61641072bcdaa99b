import CLibs.FaultingPrograms

/-!
# Refinement of call sequences

A component answers calls and may fault.  A model of it answers the same calls
and never faults.  When every single call keeps a relation between the states
of the two and gets the same answer, every sequence of calls does.
-/

namespace CLibs

section Refinement

variable {State Model Call Answer : Type}

/-- The answers of the calls, and the state behind them. -/
def runCalls (step : Call → State → Except Fault (Answer × State)) :
    List Call → State → Except Fault (List Answer × State)
  | [], state => .ok ([], state)
  | call :: calls, state => do
      let (answer, next) ← step call state
      let (answers, last) ← runCalls step calls next
      pure (answer :: answers, last)

/-- The same for a model, which cannot fault. -/
def modelCalls (step : Call → Model → Answer × Model) : List Call → Model → List Answer × Model
  | [], model => ([], model)
  | call :: calls, model =>
    let (answer, next) := step call model
    let (answers, last) := modelCalls step calls next
    (answer :: answers, last)

def Simulates (related : State → Model → Prop) (outcome : Except Fault (Answer × State))
    (expected : Answer × Model) : Prop :=
  Yields outcome fun (answer, next) => answer = expected.1 ∧ related next expected.2

theorem runCalls_simulates {step : Call → State → Except Fault (Answer × State)}
    {modelStep : Call → Model → Answer × Model} {related : State → Model → Prop}
    {allowed : Call → Prop}
    (each : ∀ call state model, allowed call → related state model →
      Simulates related (step call state) (modelStep call model))
    (calls : List Call) {state : State} {model : Model} (allowedCalls : ∀ call ∈ calls, allowed call)
    (initial : related state model) :
    Yields (runCalls step calls state) fun (answers, last) =>
      answers = (modelCalls modelStep calls model).1 ∧
        related last (modelCalls modelStep calls model).2 := by
  induction calls generalizing state model with
  | nil => exact .pure ⟨rfl, initial⟩
  | cons call calls ih =>
    apply Yields.bind (each call state model (allowedCalls call List.mem_cons_self) initial)
    rintro ⟨answer, next⟩ ⟨same, related⟩
    apply Yields.bind (ih (List.forall_mem_cons.mp allowedCalls).2 related)
    rintro ⟨answers, last⟩ ⟨restSame, restRelated⟩
    apply Yields.pure
    dsimp only at same restSame ⊢
    rw [same, restSame]
    exact ⟨rfl, restRelated⟩

end Refinement

end CLibs
