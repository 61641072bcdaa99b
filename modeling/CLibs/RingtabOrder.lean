import CLibs.GuardedRuns
import CLibs.Ringtab

/-!
# The refill mechanism delivers in order

A session is a ring table with what its producer and its consumer have seen.
`ringtab_consume_item` finishes the item in use whether there is one or not,
so the result is about sessions whose consumer keeps to `InOrder`.
-/

namespace CLibs.Ringtabs

open List

/-- A table, the slots handed to the producer and to the consumer, the number
of items the consumer is done with, and whether it holds one. -/
structure Session where
  rtab : Ringtab
  produced : List Nat
  consumed : List Nat
  finished : Nat
  holding : Bool

def Session.init (nItems : Nat) : Session := ⟨ringtabInit nItems, [], [], 0, false⟩

/-- The calls of producer and consumer. -/
inductive RefillCall
  | produce
  | consume

def RefillCall.run : RefillCall → Session → Except Fault Session
  | .produce, session => do
      let (_, item, rtab) ← ringtabProduceItem session.rtab
      pure { session with rtab := rtab, produced := session.produced ++ item.toList }
  | .consume, session =>
    let (item, rtab) := ringtabConsumeItem session.rtab
    .ok { session with
      rtab := rtab
      consumed := session.consumed ++ item.toList
      finished := session.finished + session.holding.toNat
      holding := item.isSome }

def Refilled (session : Session) (call : RefillCall) (next : Session) : Prop :=
  call.run session = .ok next

/-- The consumer holds an item, or it asks for its first one while the table is
not full. -/
def InOrder (session : Session) : RefillCall → Prop
  | .produce => True
  | .consume => session.holding = true ∨ (session.rtab.inUse = none ∧ session.rtab.full = false)

/-- What the refill mechanism is for: the consumer gets the slots in the order in which they were
produced, each call the next one as long as there is one, and finishes what it was given. -/
structure Delivers (nItems : Nat) (session : Session) : Prop where
  inOrder : session.consumed <+: session.produced
  once : session.consumed.length = session.finished + session.holding.toNat
  next : InOrder session .consume →
    (ringtabConsumeItem session.rtab).1 = session.produced[session.consumed.length]?
  used : ringtabItemsUsed session.rtab = session.produced.length - session.finished
  usedBounds : 0 ≤ ringtabItemsUsed session.rtab ∧ ringtabItemsUsed session.rtab ≤ nItems
  producible : Yields (ringtabProduceItem session.rtab) fun (_, item, _) =>
    item = none ↔ (session.produced.length : Int) - session.finished = nItems

/-! ## The invariant -/

def itemSlots (nItems count : Nat) : List Nat := (List.range count).map (· % nItems)

theorem length_itemSlots (nItems count : Nat) : (itemSlots nItems count).length = count := by
  rw [itemSlots, length_map, length_range]

theorem itemSlots_succ (nItems count : Nat) :
    itemSlots nItems (count + 1) = itemSlots nItems count ++ [count % nItems] := by
  rw [itemSlots, range_succ, map_append]
  rfl

theorem itemSlots_prefix (nItems : Nat) {count more : Nat} (fewer : count ≤ more) :
    itemSlots nItems count <+: itemSlots nItems more := by
  obtain ⟨extra, rfl⟩ := Nat.exists_eq_add_of_le fewer
  induction extra with
  | zero => exact prefix_rfl
  | succ extra ih =>
    rw [← Nat.add_assoc, itemSlots_succ]
    exact (ih (Nat.le_add_right _ _)).trans (prefix_append _ _)

structure Tracked (nItems : Nat) (session : Session) : Prop where
  size : session.rtab.nItems = nItems
  counts : Counts session.rtab session.finished session.produced.length
  produced : session.produced = itemSlots nItems session.produced.length
  consumed : session.consumed = itemSlots nItems (session.finished + session.holding.toNat)
  held : session.finished + session.holding.toNat ≤ session.produced.length
  inUse : session.rtab.inUse = some session.rtab.head ∨
    (session.rtab.inUse = none ∧ session.rtab.dirty = none ∧ session.finished = 0 ∧
      session.holding = false)
  dirty : ∀ dirty, session.rtab.dirty = some dirty → dirty < nItems

variable {nItems : Nat} {session : Session}

theorem Tracked.cleanup (tracked : Tracked nItems session) :
    ∃ released marked,
      ringtabCleanup session.rtab = .ok (released, { session.rtab with dirty := marked }) ∧
      (∀ dirty, marked = some dirty → dirty < nItems) ∧
      (session.rtab.dirty = none → marked = none) := by
  have positive := tracked.counts.positive
  cases marked : session.rtab.dirty with
  | none =>
    refine ⟨[], none, ?_, nofun, fun _ => rfl⟩
    rw [cleanup_clean marked, ← marked]
  | some dirty =>
    have below := tracked.dirty dirty marked
    have inUse : session.rtab.inUse = some session.rtab.head := by
      rcases tracked.inUse with used | unused
      · exact used
      · exact absurd (marked.symm.trans unused.2.1) nofun
    by_cases reached : dirty = session.rtab.head
    · refine ⟨[], some dirty, ?_, ?_, nofun⟩
      · rw [cleanup_inUse marked (inUse.trans (congrArg some reached.symm)), ← marked]
      · intro other same
        rw [← Option.some.inj same]
        exact below
    · have headBelow : session.rtab.head < session.rtab.nItems := by
        rw [tracked.counts.head]
        exact Nat.mod_lt _ positive
      have nItemsEq := tracked.size
      -- the range goes from the dirty slot to the head, perhaps around the end
      have ends : ∃ length, 0 < length ∧ length < session.rtab.nItems ∧
          session.rtab.head = (dirty + length) % session.rtab.nItems := by
        rcases Nat.lt_or_ge dirty session.rtab.head with before | after
        · refine ⟨session.rtab.head - dirty, by omega, by omega, ?_⟩
          rw [Nat.add_sub_cancel' (Nat.le_of_lt before), Nat.mod_eq_of_lt headBelow]
        · refine ⟨session.rtab.head + session.rtab.nItems - dirty, by omega, by omega, ?_⟩
          rw [Nat.add_sub_cancel' (by omega), Nat.add_mod_right, Nat.mod_eq_of_lt headBelow]
      obtain ⟨length, nonempty, short, head⟩ := ends
      refine ⟨_, none, cleanup_range positive ?_ nonempty short head inUse, nofun, fun _ => rfl⟩
      rw [marked, Nat.mod_eq_of_lt (by omega)]

theorem Tracked.produceItem (tracked : Tracked nItems session) :
    ∃ released item next, ringtabProduceItem session.rtab = .ok (released, item, next) ∧
      (item = none ↔ session.produced.length = session.finished + nItems) ∧
      Tracked nItems { session with rtab := next, produced := session.produced ++ item.toList } := by
  obtain ⟨released, marked, cleaned, below, clean⟩ := tracked.cleanup
  have counts : Counts { session.rtab with dirty := marked } session.finished
      session.produced.length := tracked.counts.congr rfl rfl rfl rfl
  have inUse : session.rtab.inUse = some session.rtab.head ∨
      (session.rtab.inUse = none ∧ marked = none ∧ session.finished = 0 ∧
        session.holding = false) :=
    tracked.inUse.imp_right fun ⟨unused, noDirty, fresh⟩ => ⟨unused, clean noDirty, fresh⟩
  have produced : ringtabProduceItem session.rtab =
      .ok (released, ringtabPutItem { session.rtab with dirty := marked }) := by
    simp only [ringtabProduceItem, cleaned, bind, Except.bind, pure, Except.pure]
  have size := tracked.size
  by_cases whole : session.produced.length = session.finished + nItems
  · rw [counts.putItem_full (by dsimp only; omega)] at produced
    refine ⟨released, none, _, produced, by simp only [whole], ?_⟩
    rw [Option.toList_none, append_nil]
    exact ⟨tracked.size, counts, tracked.produced, tracked.consumed, tracked.held, inUse, below⟩
  · have bounded := tracked.counts.bounded
    obtain ⟨next, put, counts, nItemsEq, head, dirty, used⟩ := counts.putItem_some
      (by dsimp only; omega)
    rw [put] at produced
    refine ⟨released, _, next, produced, by simp only [reduceCtorEq, whole], ?_⟩
    have longer : (session.produced ++ [session.produced.length % session.rtab.nItems]).length =
        session.produced.length + 1 := by rw [length_append, length_singleton]
    refine ⟨nItemsEq.trans size, ?_, ?_, tracked.consumed, ?_, ?_, ?_⟩
    · dsimp only [Option.toList_some]
      rw [longer]
      exact counts
    · dsimp only [Option.toList_some]
      rw [longer, itemSlots_succ, ← tracked.produced, size]
    · dsimp only [Option.toList_some]
      rw [longer]
      exact Nat.le_succ_of_le tracked.held
    · dsimp only
      rw [head, used, dirty]
      exact inUse
    · dsimp only
      rw [dirty]
      exact below

theorem Tracked.useItem {finished : Nat} {done : Ringtab} (tracked : Tracked nItems session)
    (size : done.nItems = nItems) (counts : Counts done finished session.produced.length)
    (consumed : session.consumed = itemSlots nItems finished) (inUse : done.inUse = some done.head)
    (dirty : ∀ dirty, done.dirty = some dirty → dirty < nItems) :
    Tracked nItems { session with
      rtab := (ringtabUseItem done).2
      consumed := session.consumed ++ (ringtabUseItem done).1.toList
      finished := finished
      holding := (ringtabUseItem done).1.isSome } ∧
    (ringtabUseItem done).1 = session.produced[session.consumed.length]? := by
  have place : session.consumed.length = finished := by rw [consumed, length_itemSlots]
  rcases counts.useItem with ⟨last, used⟩ | ⟨more, used⟩
  · rw [used, Option.toList_none, append_nil]
    refine ⟨⟨size, counts, tracked.produced, consumed, Nat.le_of_eq last, .inl inUse, dirty⟩, ?_⟩
    rw [List.getElem?_eq_none (by omega)]
  · rw [used, Option.toList_some]
    refine ⟨⟨size, counts.congr rfl rfl rfl rfl, tracked.produced, ?_, more, .inl rfl, dirty⟩, ?_⟩
    · dsimp only [Option.isSome_some, Bool.toNat_true]
      rw [itemSlots_succ, consumed, size]
    · rw [tracked.produced, place, itemSlots, List.getElem?_map, List.getElem?_range more, size]
      rfl

theorem consume_run (session : Session) :
    RefillCall.consume.run session = .ok { session with
      rtab := (ringtabUseItem (ringtabDoneItem session.rtab)).2
      consumed := session.consumed ++ (ringtabUseItem (ringtabDoneItem session.rtab)).1.toList
      finished := session.finished + session.holding.toNat
      holding := (ringtabUseItem (ringtabDoneItem session.rtab)).1.isSome } :=
  rfl

theorem Tracked.consume {next : Session} (tracked : Tracked nItems session)
    (allowed : InOrder session .consume) (consumed : RefillCall.consume.run session = .ok next) :
    Tracked nItems next ∧
      (ringtabConsumeItem session.rtab).1 = session.produced[session.consumed.length]? := by
  rw [consume_run] at consumed
  rw [← Except.ok.inj consumed]
  have size := tracked.size
  have positive := tracked.counts.positive
  rcases allowed with holding | ⟨unused, notFull⟩
  · -- the item in use is finished
    have inUse : session.rtab.inUse = some session.rtab.head := by
      rcases tracked.inUse with used | ⟨-, -, -, notHolding⟩
      · exact used
      · exact absurd (holding.symm.trans notHolding) nofun
    have held := tracked.held
    have delivered := tracked.consumed
    rw [holding, Bool.toNat_true] at held delivered ⊢
    have counts := tracked.counts.doneItem inUse held
    refine tracked.useItem size counts delivered rfl ?_
    intro dirty marked
    dsimp only [ringtabDoneItem] at marked
    split at marked
    · rw [inUse] at marked
      rw [← Option.some.inj marked, tracked.counts.head, size]
      exact Nat.mod_lt _ (by omega)
    · exact tracked.dirty dirty marked
  · -- nothing has been in use yet
    rcases tracked.inUse with used | ⟨-, clean, fresh, notHolding⟩
    · exact absurd (unused.symm.trans used) nofun
    · have delivered := tracked.consumed
      have counts := tracked.counts
      rw [notHolding, Bool.toNat_false, Nat.add_zero] at delivered ⊢
      rw [fresh] at counts delivered ⊢
      have first : (ringtabDoneItem session.rtab).head = 0 := by
        dsimp only [ringtabDoneItem]
        rw [unused]
        exact Nat.zero_mod _
      have unchanged : Counts (ringtabDoneItem session.rtab) 0 session.produced.length := by
        refine counts.congr rfl ?_ rfl notFull.symm
        rw [first, counts.head, Nat.zero_mod]
      refine tracked.useItem size unchanged delivered rfl ?_
      intro dirty marked
      dsimp only [ringtabDoneItem] at marked
      rw [if_pos clean, unused] at marked
      exact nomatch marked

theorem Tracked.delivers (tracked : Tracked nItems session) :
    Delivers nItems session := by
  have used := tracked.counts.itemsUsed
  have ordered := tracked.counts.ordered
  have bounded := tracked.counts.bounded
  have size := tracked.size
  refine ⟨?_, ?_, fun allowed => (tracked.consume allowed rfl).2, used, ⟨by omega, by omega⟩, ?_⟩
  · rw [tracked.produced, tracked.consumed]
    exact itemSlots_prefix nItems tracked.held
  · rw [tracked.consumed, length_itemSlots]
  · obtain ⟨released, item, next, produced, full, -⟩ := tracked.produceItem
    refine ⟨_, produced, ?_⟩
    dsimp only
    rw [full]
    omega

theorem Session.init_tracked (positive : 0 < nItems) :
    Tracked nItems (Session.init nItems) :=
  ⟨rfl, ringtabInit_counts positive, rfl, rfl, Nat.le_refl _, .inr ⟨rfl, rfl, rfl, rfl⟩, nofun⟩

/-- Whatever the number of items and however the calls interleave, as long as
the consumer keeps to `InOrder`. -/
theorem ringtab_delivers {nItems : Nat} (positive : 0 < nItems) {calls : List RefillCall}
    {session : Session} (run : Runs InOrder Refilled (Session.init nItems) calls session) :
    Delivers nItems session := by
  apply Tracked.delivers
  refine run.invariant ?_ (Session.init_tracked positive)
  intro state call next tracked allowed stepped
  cases call with
  | produce =>
    obtain ⟨released, item, rtab, produced, -, kept⟩ := tracked.produceItem
    have same : RefillCall.produce.run state =
        .ok { state with rtab := rtab, produced := state.produced ++ item.toList } := by
      simp only [RefillCall.run, produced, bind, Except.bind, pure, Except.pure]
    obtain rfl := Except.ok.inj (same.symm.trans stepped)
    exact kept
  | consume => exact (tracked.consume allowed stepped).1

/-- Three items go through a table of two. -/
theorem ringtab_delivers_three :
    ∃ session, Runs InOrder Refilled (Session.init 2)
        [.produce, .consume, .produce, .consume, .produce] session ∧
      session.produced = [0, 1, 0] ∧ session.consumed = [0, 1] ∧ Delivers 2 session := by
  have run : Runs InOrder Refilled (Session.init 2)
      [.produce, .consume, .produce, .consume, .produce]
      ⟨⟨2, 1, 1, none, some 1, true⟩, [0, 1, 0], [0, 1], 1, true⟩ :=
    .cons trivial rfl (.cons (.inr ⟨rfl, rfl⟩) rfl (.cons trivial rfl
      (.cons (.inl rfl) rfl (.cons trivial rfl (.nil _)))))
  exact ⟨_, run, rfl, rfl, ringtab_delivers (by decide) run⟩

/-- A consumer that asks again after it found the table empty skips the next
item, and one that comes first when the table is full loses all of it. -/
theorem ringtab_skips_items :
    (∃ session, Runs (fun _ _ => True) Refilled (Session.init 2)
        [.produce, .consume, .consume, .produce, .consume] session ∧
      session.produced = [0, 1] ∧ session.consumed = [0] ∧ session.finished = 1 ∧
      ringtabItemsUsed session.rtab = 0 ∧ ¬ Delivers 2 session) ∧
    ∃ session, Runs (fun _ _ => True) Refilled (Session.init 2)
        [.produce, .produce, .consume] session ∧
      session.produced = [0, 1] ∧ session.consumed = [] ∧ session.finished = 0 ∧
      ringtabItemsUsed session.rtab = 0 ∧ ¬ Delivers 2 session := by
  have skipping : Runs (fun _ _ => True) Refilled (Session.init 2)
      [.produce, .consume, .consume, .produce, .consume]
      ⟨⟨2, 0, 0, some 1, some 0, false⟩, [0, 1], [0], 1, false⟩ :=
    .cons trivial rfl (.cons trivial rfl (.cons trivial rfl
      (.cons trivial rfl (.cons trivial rfl (.nil _)))))
  have losing : Runs (fun _ _ => True) Refilled (Session.init 2) [.produce, .produce, .consume]
      ⟨⟨2, 0, 0, none, some 0, false⟩, [0, 1], [], 0, false⟩ :=
    .cons trivial rfl (.cons trivial rfl (.cons trivial rfl (.nil _)))
  refine ⟨⟨_, skipping, rfl, rfl, rfl, rfl, ?_⟩, ⟨_, losing, rfl, rfl, rfl, rfl, ?_⟩⟩
  · exact fun delivers => absurd delivers.used (by decide)
  · exact fun delivers => absurd delivers.used (by decide)

end CLibs.Ringtabs
