import CLibs.FaultingPrograms

/-!
# Programs that hand events over

`Settles program may post` says how a program can end: with a fault that `may`
allows, or with a value that has the property.  A traced program hands events
over while it runs, and what it handed over stays handed over when it faults;
`Traced.Ends` says in addition what every event is like, and `Traced.Keeps` says
so only up to an event that is not sound.  `Traced.Agrees` compares a program
with a description that stops at such an event.
-/

namespace CLibs

open List

section Settles

variable {Value Result : Type} {may : Fault → Prop}

/-- The program faults in a way it may, or returns such a value. -/
def Settles (program : Except Fault Value) (may : Fault → Prop) (post : Value → Prop) : Prop :=
  match program with
  | .error fault => may fault
  | .ok value => post value

variable {program : Except Fault Value}

theorem Settles.bind {next : Value → Except Fault Result} {middle : Value → Prop}
    {post : Result → Prop} (first : Settles program may middle)
    (second : ∀ value, middle value → Settles (next value) may post) :
    Settles (program >>= next) may post := by
  cases program with
  | error fault => exact first
  | ok value => exact second value first

theorem Settles.mono {weak strong : Value → Prop} (settles : Settles program may strong)
    (weaker : ∀ value, strong value → weak value) :
    Settles program may weak := by
  cases program with
  | error fault => exact settles
  | ok value => exact weaker value settles

variable {post : Value → Prop}

theorem Settles.allow {others : Fault → Prop} (settles : Settles program may post)
    (allowed : ∀ fault, may fault → others fault) :
    Settles program others post := by
  cases program with
  | error fault => exact allowed fault settles
  | ok value => exact settles

theorem Settles.ite {condition : Prop} [Decidable condition] {yes no : Except Fault Value}
    (taken : condition → Settles yes may post) (skipped : ¬condition → Settles no may post) :
    Settles (if condition then yes else no) may post := by
  split
  · exact taken ‹_›
  · exact skipped ‹_›

theorem Settles.check {condition : Prop} [Decidable condition] (allowed : may .assertion) :
    Settles (check condition) may fun _ => condition := by
  by_cases holds : condition
  · rw [check_eq holds]
    exact holds
  · rw [check_error holds]
    exact allowed

theorem Settles.ok {value : Value} (settles : Settles program may post)
    (returned : program = .ok value) : post value := by
  rw [returned] at settles
  exact settles

end Settles

/-- What a program handed over, and how it ended. -/
structure Traced (Event Value : Type) where
  events : List Event
  result : Except Fault Value

namespace Traced

open List

variable {Event Value Result : Type}

def andThen (program : Traced Event Value) (next : Value → Traced Event Result) :
    Traced Event Result :=
  match program.result with
  | .error fault => ⟨program.events, .error fault⟩
  | .ok value => ⟨program.events ++ (next value).events, (next value).result⟩

instance : Monad (Traced Event) where
  pure value := ⟨[], .ok value⟩
  bind := andThen

def emit (event : Event) : Traced Event Unit := ⟨[event], .ok ()⟩

def lift (program : Except Fault Value) : Traced Event Value := ⟨[], program⟩

variable {program : Traced Event Value} {value : Value}

theorem bind_result (returned : program.result = .ok value) (next : Value → Traced Event Result) :
    (program >>= next).result = (next value).result := by
  change (andThen program next).result = _
  unfold andThen
  rw [returned]

theorem bind_assoc {Last : Type} (program : Traced Event Value) (next : Value → Traced Event Result)
    (last : Result → Traced Event Last) :
    (program >>= next) >>= last = program >>= fun value => next value >>= last := by
  change andThen (andThen program next) last = andThen program fun value => andThen (next value) last
  obtain ⟨events, result⟩ := program
  cases result with
  | error fault => rfl
  | ok value =>
    unfold andThen
    dsimp only
    cases (next value).result with
    | error fault => rfl
    | ok middle =>
      dsimp only
      rw [append_assoc]

theorem emit_result (event : Event) (next : Unit → Traced Event Result) :
    (emit event >>= next).result = (next ()).result := rfl

/-- Every event is as `each` says, and the program ends as `may` and `post` say. -/
structure Ends (program : Traced Event Value) (each : Event → Prop) (may : Fault → Prop)
    (post : Value → Prop) : Prop where
  events : ∀ event ∈ program.events, each event
  result : Settles program.result may post

variable {each : Event → Prop} {may : Fault → Prop}

variable {post : Value → Prop}

theorem Ends.pure (holds : post value) :
    Ends (Pure.pure value : Traced Event Value) each may post :=
  ⟨fun _ member => absurd member not_mem_nil, holds⟩

theorem Ends.lift {program : Except Fault Value} (settles : Settles program may post) :
    Ends (Traced.lift program : Traced Event Value) each may post :=
  ⟨fun _ member => absurd member not_mem_nil, settles⟩

variable {next : Value → Traced Event Result} {middle : Value → Prop}

theorem Ends.bind {post : Result → Prop} (first : Ends program each may middle)
    (second : ∀ value, middle value → Ends (next value) each may post) :
    Ends (program >>= next) each may post := by
  obtain ⟨events, result⟩ := program
  cases result with
  | error fault => exact ⟨first.events, first.result⟩
  | ok value =>
    have rest := second value first.result
    refine ⟨?_, rest.result⟩
    exact forall_mem_append.mpr ⟨first.events, rest.events⟩

theorem Ends.step {program : Except Fault Value} {next : Value → Traced Event Result}
    {value : Value} {post : Result → Prop} (known : program = .ok value)
    (rest : Ends (next value) each may post) :
    Ends (Traced.lift program >>= next) each may post := by
  subst known
  exact ⟨rest.events, rest.result⟩

variable {event : Event}

theorem Ends.emit {next : Unit → Traced Event Result} {post : Result → Prop} (holds : each event)
    (rest : Ends (next ()) each may post) :
    Ends (Traced.emit event >>= next) each may post := by
  refine ⟨?_, rest.result⟩
  exact forall_mem_cons.mpr ⟨holds, rest.events⟩

theorem Ends.allow {others : Fault → Prop} (ends : Ends program each may post)
    (allowed : ∀ fault, may fault → others fault) :
    Ends program each others post :=
  ⟨ends.events, ends.result.allow allowed⟩

variable {condition : Prop} {yes no : Traced Event Value}

theorem Ends.ite [Decidable condition] (taken : condition → Ends yes each may post)
    (skipped : ¬condition → Ends no each may post) :
    Ends (if condition then yes else no) each may post := by
  split
  · exact taken ‹_›
  · exact skipped ‹_›

/-! ## Programs followed while their events are sound -/

/-- Every event up to the first one that is not sound is as `each` says, and when
all are sound, what follows holds. -/
def Along (each sound : Event → Prop) : List Event → Prop → Prop
  | [], last => last
  | event :: events, last => each event ∧ (sound event → Along each sound events last)

variable {sound : Event → Prop}

variable {last : Prop}

theorem Along.append {first second : List Event}
    (along : Along each sound first (Along each sound second last)) :
    Along each sound (first ++ second) last := by
  induction first with
  | nil => exact along
  | cons event events ih => exact ⟨along.1, fun holds => ih (along.2 holds)⟩

variable {events : List Event}

theorem Along.mono {other : Prop} (along : Along each sound events last) (weaker : last → other) :
    Along each sound events other := by
  induction events with
  | nil => exact weaker along
  | cons event events ih => exact ⟨along.1, fun holds => ih (along.2 holds)⟩

theorem Along.all (along : Along each sound events last) (all : ∀ event ∈ events, sound event) :
    (∀ event ∈ events, each event) ∧ last := by
  induction events with
  | nil => exact ⟨fun _ member => absurd member not_mem_nil, along⟩
  | cons event events ih =>
    have rest := ih (along.2 (all event mem_cons_self))
      (forall_mem_cons.mp all).2
    refine ⟨?_, rest.2⟩
    exact forall_mem_cons.mpr ⟨along.1, rest.1⟩

theorem Along.sound_of {good : Event → Prop} (along : Along each sound events last)
    (all : ∀ event ∈ events, good event) (tells : ∀ event, each event → good event → sound event) :
    ∀ event ∈ events, sound event := by
  induction events with
  | nil => exact fun _ member => absurd member not_mem_nil
  | cons event events ih =>
    have here := tells event along.1 (all event mem_cons_self)
    have rest := ih (along.2 here) (forall_mem_cons.mp all).2
    exact forall_mem_cons.mpr ⟨here, rest⟩

def Keeps (program : Traced Event Value) (each sound : Event → Prop) (may : Fault → Prop)
    (post : Value → Prop) : Prop :=
  Along each sound program.events (Settles program.result may post)

theorem Keeps.pure (holds : post value) :
    Keeps (Pure.pure value : Traced Event Value) each sound may post :=
  holds

theorem Keeps.lift {program : Except Fault Value} (settles : Settles program may post) :
    Keeps (Traced.lift program : Traced Event Value) each sound may post :=
  settles

theorem Keeps.bind {post : Result → Prop} (first : Keeps program each sound may middle)
    (second : ∀ value, middle value → Keeps (next value) each sound may post) :
    Keeps (program >>= next) each sound may post := by
  obtain ⟨events, result⟩ := program
  cases result with
  | error fault => exact first
  | ok value => exact Along.append (Along.mono first (second value))

theorem Keeps.mono {weak strong : Value → Prop} (keeps : Keeps program each sound may strong)
    (weaker : ∀ value, strong value → weak value) :
    Keeps program each sound may weak :=
  Along.mono keeps fun settles => settles.mono weaker

/-! ## Programs against a checked description -/

/-- Why a checked run goes no further: an event that is not sound, or a fault. -/
inductive Flaw
  | event
  | halt (fault : Fault)
  deriving DecidableEq

def expect (holds : Prop) [Decidable holds] : Except Flaw Unit :=
  if holds then .ok () else .error .event

variable {holds : Prop}

theorem expect_eq [Decidable holds] (given : holds) : expect holds = .ok () :=
  if_pos given

theorem expect_error [Decidable holds] (fails : ¬holds) :
    expect holds = .error .event :=
  if_neg fails

def flaw? : Except Flaw Value → Option Flaw
  | .ok _ => none
  | .error flaw => some flaw

section Checked

variable [DecidablePred sound]

variable (sound) in
/-- The result of a program, if all its events are sound. -/
def checked (program : Traced Event Value) : Except Flaw Value :=
  if ∀ event ∈ program.events, sound event then program.result.mapError .halt else .error .event

theorem checked_all (all : ∀ event ∈ program.events, sound event) :
    program.checked sound = program.result.mapError .halt := if_pos all

theorem checked_not_all (stopped : ¬∀ event ∈ program.events, sound event) :
    program.checked sound = .error .event := if_neg stopped

/-- A program keeps its properties, and its checked result is what the description says. -/
structure Agrees (program : Traced Event Value) (description : Except Flaw Value)
    (each sound : Event → Prop) [DecidablePred sound] (may : Fault → Prop)
    (post : Value → Prop) : Prop where
  keeps : Keeps program each sound may post
  described : program.checked sound = description

theorem Agrees.pure (holds : post value) :
    Agrees (Pure.pure value : Traced Event Value) (Pure.pure value) each sound may post :=
  ⟨Keeps.pure holds, if_pos fun _ member => absurd member not_mem_nil⟩

theorem Agrees.lift {program : Except Fault Value} (settles : Settles program may post) :
    Agrees (Traced.lift program : Traced Event Value) (program.mapError .halt) each sound may post :=
  ⟨Keeps.lift settles, if_pos fun _ member => absurd member not_mem_nil⟩

theorem Agrees.mono {description : Except Flaw Value} {weak strong : Value → Prop}
    (agrees : Agrees program description each sound may strong)
    (weaker : ∀ value, strong value → weak value) :
    Agrees program description each sound may weak :=
  ⟨agrees.keeps.mono weaker, agrees.described⟩

theorem Agrees.ite [Decidable condition] {here otherwise : Except Flaw Value}
    (taken : condition → Agrees yes here each sound may post)
    (skipped : ¬condition → Agrees no otherwise each sound may post) :
    Agrees (if condition then yes else no) (if condition then here else otherwise) each sound may
      post := by
  split
  · exact taken ‹_›
  · exact skipped ‹_›

theorem Agrees.bind {description : Except Flaw Value} {nextDescription : Value → Except Flaw Result}
    {post : Result → Prop} (first : Agrees program description each sound may middle)
    (second : ∀ value, middle value →
      Agrees (next value) (nextDescription value) each sound may post) :
    Agrees (program >>= next) (description >>= nextDescription) each sound may post := by
  refine ⟨first.keeps.bind fun value holds => (second value holds).keeps, ?_⟩
  have known := first.described
  have keeps := first.keeps
  obtain ⟨events, result⟩ := program
  subst known
  by_cases all : ∀ event ∈ events, sound event
  · have whole : Traced.checked sound ⟨events, result⟩ = result.mapError .halt := checked_all all
    rw [whole]
    cases result with
    | error fault =>
      have same : (⟨events, .error fault⟩ : Traced Event Value) >>= next =
        ⟨events, .error fault⟩ := rfl
      rw [same]
      exact checked_all all
    | ok value =>
      refine Eq.trans ?_ (second value (keeps.all all).2).described
      change Traced.checked sound ⟨events ++ (next value).events, (next value).result⟩ = _
      unfold Traced.checked
      simp only [forall_mem_append, eq_true all, true_and]
  · have stopped : Traced.checked sound ⟨events, result⟩ = .error .event := checked_not_all all
    rw [stopped]
    apply checked_not_all
    intro every
    apply all
    intro event member
    cases result with
    | error fault => exact every event member
    | ok value => exact every event (mem_append_left _ member)

theorem Agrees.emit {next : Unit → Traced Event Result} [Decidable holds]
    {description : Unit → Except Flaw Result} {post : Result → Prop} (given : each event)
    (same : sound event ↔ holds)
    (rest : sound event → Agrees (next ()) (description ()) each sound may post) :
    Agrees (Traced.emit event >>= next) (expect holds >>= description) each sound may post := by
  have first : Agrees (Traced.emit event) (expect holds) each sound may fun _ => sound event := by
    refine ⟨⟨given, id⟩, ?_⟩
    unfold Traced.checked expect Traced.emit
    simp only [forall_mem_singleton, same]
    rfl
  exact first.bind fun _ => rest

end Checked

end Traced

end CLibs
