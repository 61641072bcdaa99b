import Mathlib.Logic.Basic

/-!
# Programs that can fault

A function of the source either returns or faults: a failed assertion or a bad
access ends the program.  `Yields program post` says that the program returns,
with a value that has the property; its rules follow the program statement by
statement.
-/

namespace CLibs

/-- How a function of the source can fail to return. -/
inductive Fault
  | assertion
  | outside
  | unwritten
  | fuel
  deriving DecidableEq, Repr

/-- An assertion of the source. -/
def check (condition : Prop) [Decidable condition] : Except Fault Unit :=
  if condition then .ok () else .error .assertion

variable {condition : Prop}

theorem check_eq [Decidable condition] (holds : condition) :
    check condition = .ok () := if_pos holds

theorem check_error [Decidable condition] (fails : ¬condition) :
    check condition = .error .assertion := if_neg fails

theorem of_check [Decidable condition] {value : Unit} (passed : check condition = .ok value) :
    condition := by
  unfold check at passed
  split at passed
  · assumption
  · cases passed

section Yields

variable {Value Result : Type}

/-- The program does not fault, and what it returns is as stated. -/
def Yields (program : Except Fault Value) (post : Value → Prop) : Prop :=
  ∃ value, program = .ok value ∧ post value

variable {value : Value}

theorem Yields.pure {post : Value → Prop} (holds : post value) :
    Yields (Pure.pure value) post :=
  ⟨value, rfl, holds⟩

variable {program : Except Fault Value} {next : Value → Except Fault Result}

theorem Yields.bind {middle : Value → Prop} {post : Result → Prop} (first : Yields program middle)
    (second : ∀ value, middle value → Yields (next value) post) :
    Yields (program >>= next) post := by
  obtain ⟨value, rfl, holds⟩ := first
  exact second value holds

theorem Yields.step {program : Except Fault Value} {next : Value → Except Fault Result}
    {value : Value} {post : Result → Prop} (known : program = .ok value)
    (rest : Yields (next value) post) : Yields (program >>= next) post := by
  subst known
  exact rest

theorem Yields.mono {weak strong : Value → Prop} (yields : Yields program strong)
    (weaker : ∀ value, strong value → weak value) :
    Yields program weak := by
  obtain ⟨value, returned, holds⟩ := yields
  exact ⟨value, returned, weaker value holds⟩

variable {fault : Fault}

theorem Yields.error {middle : Value → Prop} (first : Yields program middle)
    (second : ∀ value, middle value → next value = .error fault) :
    program >>= next = .error fault := by
  obtain ⟨value, rfl, holds⟩ := first
  exact second value holds

theorem error_bind (failed : program = .error fault) (next : Value → Except Fault Result) :
    program >>= next = .error fault := by
  subst failed
  rfl

theorem error_step (known : program = .ok value) (rest : next value = .error fault) :
    program >>= next = .error fault := by
  subst known
  exact rest

theorem ok_bind (value : Value) (next : Value → Except Fault Result) :
    Except.ok value >>= next = next value := rfl

theorem ok_of_bind {result : Result} (returned : program >>= next = .ok result) :
    ∃ value, program = .ok value ∧ next value = .ok result := by
  cases program with
  | error fault => exact absurd returned nofun
  | ok value => exact ⟨value, rfl, returned⟩

theorem ok_of_toOption (returned : program.toOption = some value) : program = .ok value := by
  cases program with
  | error fault => cases returned
  | ok result => rw [Option.some.inj returned]

def faultOf : Except Fault Value → Option Fault
  | .ok _ => none
  | .error fault => some fault

theorem Yields.ite [Decidable condition] {yes no : Except Fault Value} {post : Value → Prop}
    (taken : condition → Yields yes post) (skipped : ¬condition → Yields no post) :
    Yields (if condition then yes else no) post := by
  split
  · exact taken ‹_›
  · exact skipped ‹_›

end Yields

end CLibs
