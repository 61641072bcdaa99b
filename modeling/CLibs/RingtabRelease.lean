import CLibs.GuardedRuns
import CLibs.Ringtab

/-!
# Finished items are released once

Every item goes through the same stages: its slot is handed to the producer,
the consumer is done with it, and `release_fn` gets it.  The dirty range is
stored as its first slot only, so it must not cover the whole ring; `RangeFits`
says that the next finished item does not make it do so.
-/

namespace CLibs.Ringtabs

open List

/-! ## Stages of a slot -/

/-- What happens to the item in a slot. -/
inductive ItemEvent
  | handedOut (slot : Nat)
  | done (slot : Nat)
  | released (slot : Nat)
  deriving DecidableEq

def ItemEvent.slot : ItemEvent → Nat
  | .handedOut slot => slot
  | .done slot => slot
  | .released slot => slot

/-- How far the item in a slot has come. -/
inductive Stage
  | free
  | filled
  | finished
  deriving DecidableEq

def Stage.after : Stage → ItemEvent → Option Stage
  | .free, .handedOut _ => some .filled
  | .filled, .done _ => some .finished
  | .finished, .released _ => some .free
  | _, _ => none

/-- The stage of a slot behind the events, if they were in order. -/
def stageOf (slot : Nat) (events : List ItemEvent) : Option Stage :=
  events.foldl (fun stage event =>
    if event.slot = slot then stage.bind (·.after event) else stage) (some .free)

theorem stageOf_append (slot : Nat) (events : List ItemEvent) (event : ItemEvent) :
    stageOf slot (events ++ [event]) =
      if event.slot = slot then (stageOf slot events).bind (·.after event)
      else stageOf slot events := by
  rw [stageOf, foldl_append]
  rfl

/-- Item number `item` when `released` items were released, `finished` ones are
done with and `produced` ones were handed out. -/
def itemStage (finished produced item : Nat) : Stage :=
  if item < finished then .finished else if item < produced then .filled else .free

structure Stages (nItems released finished produced : Nat) (events : List ItemEvent) : Prop where
  inside : ∀ item, released ≤ item → item < released + nItems →
    stageOf (item % nItems) events = some (itemStage finished produced item)
  outside : ∀ slot ≥ nItems, stageOf slot events = some .free

section Stages

variable {nItems released finished produced : Nat} {events : List ItemEvent}

theorem Stages.event (stages : Stages nItems released finished produced events)
    {item finished' produced' : Nat} {event : ItemEvent} (from_ : released ≤ item)
    (below : item < released + nItems) (at_ : event.slot = item % nItems)
    (turn : (itemStage finished produced item).after event =
      some (itemStage finished' produced' item))
    (others : ∀ other, other ≠ item →
      itemStage finished' produced' other = itemStage finished produced other) :
    Stages nItems released finished' produced' (events ++ [event]) := by
  constructor
  · intro other after before
    rw [stageOf_append, at_]
    by_cases same : other = item
    · subst same
      rw [if_pos rfl, stages.inside other from_ below, Option.bind_some, turn]
    · have different : item % nItems ≠ other % nItems := by
        rcases Nat.lt_or_gt_of_ne same with less | greater
        · exact (mod_ne_of_lt_of_sub_lt less (by omega)).symm
        · exact mod_ne_of_lt_of_sub_lt greater (by omega)
      rw [if_neg different, stages.inside other after before, others other same]
  · intro slot large
    have positive : 0 < nItems := by omega
    have different : item % nItems ≠ slot := by
      have bound := Nat.mod_lt item positive
      omega
    rw [stageOf_append, at_, if_neg different]
    exact stages.outside slot large

theorem Stages.handOut (stages : Stages nItems released finished produced events)
    (ordered : finished ≤ produced) (earlier : released ≤ finished)
    (room : produced < released + nItems) :
    Stages nItems released finished (produced + 1)
      (events ++ [.handedOut (produced % nItems)]) := by
  apply stages.event (by omega) room rfl
  · unfold itemStage
    rw [if_neg (by omega), if_neg (by omega), if_neg (by omega), if_pos (by omega)]
    rfl
  · intro other different
    unfold itemStage
    by_cases before : other < produced
    · rw [if_pos before, if_pos (by omega : other < produced + 1)]
    · rw [if_neg before, if_neg (by omega : ¬ other < produced + 1)]

theorem Stages.finish (stages : Stages nItems released finished produced events)
    (some_left : finished < produced) (earlier : released ≤ finished)
    (near : finished < released + nItems) :
    Stages nItems released (finished + 1) produced (events ++ [.done (finished % nItems)]) := by
  apply stages.event earlier near rfl
  · unfold itemStage
    rw [if_neg (by omega), if_pos some_left, if_pos (by omega)]
    rfl
  · intro other different
    unfold itemStage
    by_cases before : other < finished
    · rw [if_pos before, if_pos (by omega)]
    · rw [if_neg before, if_neg (by omega : ¬ other < finished + 1)]

theorem Stages.release (stages : Stages nItems released finished produced events)
    (dirty : released < finished) (ordered : finished ≤ produced)
    (bounded : produced ≤ released + nItems) :
    Stages nItems (released + 1) finished produced (events ++ [.released (released % nItems)]) := by
  have positive : 0 < nItems := by omega
  have at_ : (ItemEvent.released (released % nItems)).slot = released % nItems := rfl
  constructor
  · intro item after before
    rw [stageOf_append, at_]
    by_cases turn : item = released + nItems
    · subst turn
      have last : itemStage finished produced released = .finished := if_pos dirty
      have free : itemStage finished produced (released + nItems) = .free := by
        unfold itemStage
        rw [if_neg (by omega), if_neg (by omega)]
      rw [Nat.add_mod_right, if_pos rfl, stages.inside released (Nat.le_refl _) (by omega), last,
        free]
      rfl
    · have different : released % nItems ≠ item % nItems :=
        mod_ne_of_lt_of_sub_lt (by omega) (by omega)
      rw [if_neg different]
      exact stages.inside item (by omega) (by omega)
  · intro slot large
    have different : released % nItems ≠ slot := by
      have bound := Nat.mod_lt released positive
      omega
    rw [stageOf_append, at_, if_neg different]
    exact stages.outside slot large

theorem Stages.releaseAll (stages : Stages nItems released finished produced events)
    (ordered : finished ≤ produced) (bounded : produced ≤ released + nItems) (length : Nat)
    (dirty : released + length ≤ finished) :
    Stages nItems (released + length) finished produced
      (events ++ (List.range length).map fun index =>
        .released ((released + index) % nItems)) := by
  induction length with
  | zero =>
    rw [range_zero, map_nil, append_nil]
    exact stages
  | succ length ih =>
    rw [range_succ, map_append, ← append_assoc]
    exact (ih (by omega)).release (by omega) ordered (by omega)

theorem Stages.slot (stages : Stages nItems released finished produced events) (slot : Nat) :
    stageOf slot events = some .free ∨ ∃ item ≥ released,
      stageOf slot events = some (itemStage finished produced item) := by
  rcases Nat.lt_or_ge slot nItems with inside | outside
  · right
    have positive : 0 < nItems := by omega
    have bound := Nat.mod_lt released positive
    rcases Nat.lt_or_ge slot (released % nItems) with behind | ahead
    · refine ⟨released + (slot + nItems - released % nItems), Nat.le_add_right _ _, ?_⟩
      rw [← stages.inside _ (Nat.le_add_right _ _) (by omega), ← Nat.mod_add_mod,
        Nat.add_sub_cancel' (by omega), Nat.add_mod_right, Nat.mod_eq_of_lt inside]
    · refine ⟨released + (slot - released % nItems), Nat.le_add_right _ _, ?_⟩
      rw [← stages.inside _ (Nat.le_add_right _ _) (by omega), ← Nat.mod_add_mod,
        Nat.add_sub_cancel' ahead, Nat.mod_eq_of_lt inside]
  · exact .inl (stages.outside slot outside)

theorem Stages.inTurn (stages : Stages nItems released finished produced events) (slot : Nat) :
    stageOf slot events ≠ none := by
  rcases stages.slot slot with free | ⟨item, -, staged⟩
  · rw [free]
    exact nofun
  · rw [staged]
    exact nofun

theorem Stages.settled (stages : Stages nItems finished finished produced events) (slot : Nat) :
    stageOf slot events ≠ some .finished := by
  rcases stages.slot slot with free | ⟨item, unreleased, staged⟩
  · rw [free]
    exact nofun
  · rw [staged, itemStage, if_neg (by omega)]
    split <;> exact nofun

end Stages

/-! ## Sessions -/

/-- A table, whether an item was obtained from `ringtab_use_item` since the last
`ringtab_done_item`, and what has happened to the slots. -/
structure Custody where
  rtab : Ringtab
  holding : Bool
  events : List ItemEvent

def Custody.init (nItems : Nat) : Custody := ⟨ringtabInit nItems, false, []⟩

/-- The calls of the side that refills and of the side that uses the items. -/
inductive CustodyCall
  | produce
  | use
  | done
  | cleanup

def CustodyCall.run : CustodyCall → Custody → Except Fault Custody
  | .produce, custody => do
      let (released, item, rtab) ← ringtabProduceItem custody.rtab
      pure { custody with
        rtab := rtab
        events := custody.events ++ released.map .released ++ item.toList.map .handedOut }
  | .use, custody =>
    let (item, rtab) := ringtabUseItem custody.rtab
    .ok { custody with rtab := rtab, holding := custody.holding || item.isSome }
  | .done, custody =>
    .ok { custody with
      rtab := ringtabDoneItem custody.rtab
      holding := false
      events := custody.events ++ custody.rtab.inUse.toList.map .done }
  | .cleanup, custody => do
      let (released, rtab) ← ringtabCleanup custody.rtab
      pure { custody with rtab := rtab, events := custody.events ++ released.map .released }

/-- The call returns. -/
def Kept (custody : Custody) (call : CustodyCall) (next : Custody) : Prop :=
  call.run custody = .ok next

/-- `ringtab_done_item` is called for an item that was obtained before. -/
def Obtained (custody : Custody) : CustodyCall → Prop
  | .done => custody.holding = true
  | _ => True

/-- The slot behind the item in use is not the first slot of the dirty range,
so the range does not come to cover the whole ring. -/
def RangeFits (custody : Custody) : CustodyCall → Prop
  | .done => ∀ inUse, custody.rtab.inUse = some inUse →
      (inUse + 1) % custody.rtab.nItems ≠ custody.rtab.dirty.getD inUse
  | _ => True

structure Guarded (nItems released finished produced : Nat) (custody : Custody) : Prop where
  size : custody.rtab.nItems = nItems
  counts : Counts custody.rtab finished produced
  earlier : released ≤ finished
  near : finished < released + nItems
  bounded : produced ≤ released + nItems
  inUse : custody.rtab.inUse = some custody.rtab.head ∨
    (custody.rtab.inUse = none ∧ released = finished)
  held : custody.holding = true → custody.rtab.inUse = some custody.rtab.head ∧ finished < produced
  dirty : custody.rtab.dirty = if released < finished then some (released % nItems) else none
  stages : Stages nItems released finished produced custody.events

section Guarded

variable {nItems released finished produced : Nat} {custody : Custody}

theorem Custody.init_guarded (positive : 0 < nItems) :
    Guarded nItems 0 0 0 (Custody.init nItems) := by
  refine ⟨rfl, ringtabInit_counts positive, Nat.le_refl _, by omega, by omega, .inr ⟨rfl, rfl⟩,
    nofun, rfl, ?_⟩
  exact ⟨fun item _ _ => rfl, fun slot _ => rfl⟩

theorem Guarded.cleanup (guarded : Guarded nItems released finished produced custody) :
    ∃ slots next, ringtabCleanup custody.rtab = .ok (slots, next) ∧
      Guarded nItems finished finished produced
        { custody with rtab := next, events := custody.events ++ slots.map .released } := by
  have earlier := guarded.earlier
  have near := guarded.near
  have bounded := guarded.bounded
  have size := guarded.size
  have ordered := guarded.counts.ordered
  have dirty := guarded.dirty
  by_cases some_dirty : released < finished
  · rw [if_pos some_dirty] at dirty
    have inUse : custody.rtab.inUse = some custody.rtab.head := by
      rcases guarded.inUse with used | ⟨-, clean⟩
      · exact used
      · omega
    have length : released + (finished - released) = finished := by omega
    have cleaned := cleanup_range guarded.counts.positive (size ▸ dirty)
      (by omega : 0 < finished - released) (by omega)
      (by rw [length]; exact guarded.counts.head) inUse
    refine ⟨_, _, cleaned, size, guarded.counts.congr rfl rfl rfl rfl, Nat.le_refl _, by omega,
      by omega, .inl inUse, guarded.held, ?_, ?_⟩
    · rw [if_neg (Nat.lt_irrefl _)]
    · have stages := guarded.stages.releaseAll ordered bounded (finished - released)
        (Nat.le_of_eq length)
      rw [length] at stages
      rw [map_map, size]
      exact stages
  · have clean : released = finished := by omega
    rw [if_neg some_dirty] at dirty
    subst clean
    refine ⟨[], custody.rtab, cleanup_clean dirty, ?_⟩
    rw [map_nil, append_nil]
    exact guarded

theorem Guarded.cleanupRun (guarded : Guarded nItems released finished produced custody) :
    ∃ next, CustodyCall.cleanup.run custody = .ok next ∧
      Guarded nItems finished finished produced next := by
  obtain ⟨slots, rtab, cleaned, kept⟩ := guarded.cleanup
  refine ⟨_, ?_, kept⟩
  simp only [CustodyCall.run, cleaned, bind, Except.bind, pure, Except.pure]

theorem Guarded.produce (guarded : Guarded nItems released finished produced custody) :
    ∃ next produced', CustodyCall.produce.run custody = .ok next ∧
      Guarded nItems finished finished produced' next := by
  obtain ⟨slots, rtab, cleaned, guarded⟩ := guarded.cleanup
  have size := guarded.size
  have ordered := guarded.counts.ordered
  have bounded := guarded.bounded
  dsimp only at size
  have ran : CustodyCall.produce.run custody = .ok { custody with
      rtab := (ringtabPutItem rtab).2
      events := custody.events ++ slots.map .released ++
        (ringtabPutItem rtab).1.toList.map .handedOut } := by
    simp only [CustodyCall.run, ringtabProduceItem, cleaned, bind, Except.bind, pure, Except.pure]
  by_cases whole : produced = finished + nItems
  · refine ⟨_, produced, ran, ?_⟩
    rw [guarded.counts.putItem_full (by dsimp only; omega), Option.toList_none, map_nil,
      append_nil]
    exact guarded
  · obtain ⟨next, put, counts, nItemsEq, head, dirty, inUse⟩ := guarded.counts.putItem_some
      (by dsimp only; omega)
    dsimp only at put nItemsEq head dirty inUse counts
    refine ⟨_, produced + 1, ran, ?_⟩
    rw [put, Option.toList_some]
    have stages := guarded.stages.handOut ordered (Nat.le_refl _) (by omega)
    refine ⟨nItemsEq.trans size, counts, Nat.le_refl _, guarded.near, by omega, ?_, ?_, ?_, ?_⟩
    · dsimp only
      rw [head, inUse]
      exact guarded.inUse
    · intro holding
      have held := guarded.held holding
      dsimp only at held ⊢
      rw [head, inUse]
      exact ⟨held.1, Nat.lt_succ_of_lt held.2⟩
    · dsimp only
      rw [dirty]
      exact guarded.dirty
    · rw [size]
      exact stages

theorem Guarded.use (guarded : Guarded nItems released finished produced custody) :
    ∃ next, CustodyCall.use.run custody = .ok next ∧
      Guarded nItems released finished produced next := by
  have ran : CustodyCall.use.run custody = .ok { custody with
      rtab := (ringtabUseItem custody.rtab).2
      holding := custody.holding || (ringtabUseItem custody.rtab).1.isSome } := rfl
  rcases guarded.counts.useItem with ⟨-, used⟩ | ⟨more, used⟩
  · rw [used, Option.isSome_none, Bool.or_false] at ran
    exact ⟨_, ran, guarded⟩
  · rw [used, Option.isSome_some, Bool.or_true] at ran
    exact ⟨_, ran, guarded.size, guarded.counts.congr rfl rfl rfl rfl, guarded.earlier,
      guarded.near, guarded.bounded, .inl rfl, fun _ => ⟨rfl, more⟩, guarded.dirty,
      guarded.stages⟩

theorem Guarded.done (guarded : Guarded nItems released finished produced custody)
    (obtained : Obtained custody .done) (fits : RangeFits custody .done) :
    ∃ next, CustodyCall.done.run custody = .ok next ∧
      Guarded nItems released (finished + 1) produced next := by
  obtain ⟨inUse, some_left⟩ := guarded.held obtained
  have size := guarded.size
  have earlier := guarded.earlier
  have near := guarded.near
  have head := guarded.counts.head
  have counts := guarded.counts.doneItem inUse some_left
  have first : custody.rtab.dirty.getD custody.rtab.head = released % nItems := by
    rw [guarded.dirty]
    split
    · rfl
    · have clean : finished = released := by omega
      rw [Option.getD_none, head, size, clean]
  have nearer : finished + 1 < released + nItems := by
    have different := fits custody.rtab.head inUse
    rw [first, head, size, Nat.mod_add_mod] at different
    by_contra last
    have turn : finished + 1 = released + nItems := by omega
    rw [turn, Nat.add_mod_right] at different
    exact different rfl
  have ran : CustodyCall.done.run custody = .ok { custody with
      rtab := ringtabDoneItem custody.rtab
      holding := false
      events := custody.events ++ custody.rtab.inUse.toList.map .done } := rfl
  rw [inUse, Option.toList_some] at ran
  refine ⟨_, ran, size, counts, Nat.le_succ_of_le earlier, nearer, guarded.bounded, .inl rfl,
    nofun, ?_, ?_⟩
  · dsimp only [ringtabDoneItem]
    rw [if_pos (by omega : released < finished + 1), guarded.dirty, inUse]
    split
    · exact if_neg nofun
    · have same : finished = released := by omega
      rw [if_pos rfl, head, size, same]
  · have stages := guarded.stages.finish some_left earlier near
    rw [head, size]
    exact stages

end Guarded

/-- Along every run in which done items were obtained before and the dirty range
never comes to cover the ring: what happens to a slot happens in its turn, and
once a clean-up or a produce call has run, no slot holds a finished item that
was not released. -/
theorem ringtab_releases_once {nItems : Nat} (positive : 0 < nItems) {calls : List CustodyCall}
    {custody : Custody}
    (run : Runs (fun custody call => Obtained custody call ∧ RangeFits custody call) Kept
      (Custody.init nItems) calls custody) :
    (∀ slot, stageOf slot custody.events ≠ none) ∧
    ∀ call : CustodyCall, call = .produce ∨ call = .cleanup →
      Yields (call.run custody) fun next => ∀ slot,
        stageOf slot next.events ≠ none ∧ stageOf slot next.events ≠ some .finished := by
  have kept : ∃ released finished produced, Guarded nItems released finished produced custody := by
    apply run.invariant
    · rintro state call next ⟨released, finished, produced, guarded⟩ ⟨obtained, fits⟩ stepped
      cases call with
      | produce =>
        obtain ⟨last, more, ran, kept⟩ := guarded.produce
        obtain rfl := Except.ok.inj (ran.symm.trans stepped)
        exact ⟨_, _, _, kept⟩
      | use =>
        obtain ⟨last, ran, kept⟩ := guarded.use
        obtain rfl := Except.ok.inj (ran.symm.trans stepped)
        exact ⟨_, _, _, kept⟩
      | done =>
        obtain ⟨last, ran, kept⟩ := guarded.done obtained fits
        obtain rfl := Except.ok.inj (ran.symm.trans stepped)
        exact ⟨_, _, _, kept⟩
      | cleanup =>
        obtain ⟨last, ran, kept⟩ := guarded.cleanupRun
        obtain rfl := Except.ok.inj (ran.symm.trans stepped)
        exact ⟨_, _, _, kept⟩
    · exact ⟨0, 0, 0, Custody.init_guarded positive⟩
  obtain ⟨released, finished, produced, guarded⟩ := kept
  refine ⟨fun slot => guarded.stages.inTurn slot, ?_⟩
  rintro call (rfl | rfl)
  · obtain ⟨next, more, ran, kept⟩ := guarded.produce
    exact ⟨next, ran, fun slot => ⟨kept.stages.inTurn slot, kept.stages.settled slot⟩⟩
  · obtain ⟨next, ran, kept⟩ := guarded.cleanupRun
    exact ⟨next, ran, fun slot => ⟨kept.stages.inTurn slot, kept.stages.settled slot⟩⟩

/-- Two items of a table of three are finished before a clean-up. -/
theorem ringtab_releases_once_two :
    ∃ custody, Runs (fun custody call => Obtained custody call ∧ RangeFits custody call) Kept
        (Custody.init 3) [.produce, .produce, .use, .done, .use, .done, .cleanup] custody ∧
      custody.events = [.handedOut 0, .handedOut 1, .done 0, .done 1, .released 0, .released 1] ∧
      ∀ slot, stageOf slot custody.events ≠ none := by
  have run : Runs (fun custody call => Obtained custody call ∧ RangeFits custody call) Kept
      (Custody.init 3) [.produce, .produce, .use, .done, .use, .done, .cleanup]
      ⟨⟨3, 2, 2, none, some 2, false⟩, false,
        [.handedOut 0, .handedOut 1, .done 0, .done 1, .released 0, .released 1]⟩ :=
    .cons ⟨trivial, trivial⟩ rfl (.cons ⟨trivial, trivial⟩ rfl (.cons ⟨trivial, trivial⟩ rfl
      (.cons ⟨rfl, by rintro inUse ⟨⟩; decide⟩ rfl (.cons ⟨trivial, trivial⟩ rfl
        (.cons ⟨rfl, by rintro inUse ⟨⟩; decide⟩ rfl
          (.cons ⟨trivial, trivial⟩ rfl (.nil _)))))))
  exact ⟨_, run, rfl, (ringtab_releases_once (by decide) run).1⟩

/-- When every item of the table is finished before a clean-up, the next clean-up releases none. -/
theorem ringtab_loses_finished_items :
    ∃ custody, Runs Obtained Kept (Custody.init 2)
        [.produce, .produce, .use, .done, .use, .done, .produce] custody ∧
      custody.events = [.handedOut 0, .handedOut 1, .done 0, .done 1, .handedOut 0] ∧
      stageOf 0 custody.events = none := by
  have run : Runs Obtained Kept (Custody.init 2)
      [.produce, .produce, .use, .done, .use, .done, .produce]
      ⟨⟨2, 0, 1, some 0, some 0, false⟩, false,
        [.handedOut 0, .handedOut 1, .done 0, .done 1, .handedOut 0]⟩ :=
    .cons trivial rfl (.cons trivial rfl (.cons trivial rfl (.cons rfl rfl
      (.cons trivial rfl (.cons rfl rfl (.cons trivial rfl (.nil _)))))))
  exact ⟨_, run, rfl, rfl⟩

end CLibs.Ringtabs
