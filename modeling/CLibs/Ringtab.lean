import CLibs.FaultingPrograms
import CLibs.RingCounters

/-!
# The ring table of `ringtab.c`

Model of `ringtab.h` and `ringtab.c`.  An item is named by its slot.  `RINGTAB_ITEM_NONE` is `none`,
and as it is -1 in the source, the increment of `none` is 0.  The indices are below `n_items`, which
is an `int16_t`, so none of them wraps at 16 bits.  The look-ahead functions (`ringtab_peek_next`,
`ringtab_peek_last`), `ringtab_get_item` and `ringtab_cleanup_all` are left out: the refill
mechanism does not use them.
-/

namespace CLibs.Ringtabs

/-- The places in the table: `dirty` is the oldest item that is not released. -/
structure Ringtab where
  nItems : Nat
  head : Nat
  tail : Nat
  dirty : Option Nat
  inUse : Option Nat
  full : Bool

def ringtabInit (nItems : Nat) : Ringtab where
  nItems := nItems
  head := 0
  tail := 0
  dirty := none
  inUse := none
  full := false

def ringtabItemsUsed (rtab : Ringtab) : Int :=
  if rtab.full then rtab.nItems
  else
    let diff : Int := rtab.tail - rtab.head
    if diff ≥ 0 then diff else rtab.nItems + diff

/-- The slot to write to, or none when the table is full. -/
def ringtabPutItem (rtab : Ringtab) : Option Nat × Ringtab :=
  if ringtabItemsUsed rtab ≥ rtab.nItems then (none, rtab)
  else
    let tail := (rtab.tail + 1) % rtab.nItems
    (some rtab.tail, { rtab with tail := tail, full := rtab.full || decide (tail = rtab.head) })

def ringtabUseItem (rtab : Ringtab) : Option Nat × Ringtab :=
  if ringtabItemsUsed rtab = 0 then (none, rtab)
  else (some rtab.head, { rtab with inUse := some rtab.head })

def ringtabDoneItem (rtab : Ringtab) : Ringtab :=
  let next := (rtab.inUse.elim 0 (· + 1)) % rtab.nItems
  { rtab with
    dirty := if rtab.dirty = none then rtab.inUse else rtab.dirty
    inUse := some next
    head := next
    full := false }

def ringtabGetDirty (rtab : Ringtab) : Option Nat × Ringtab :=
  match rtab.dirty with
  | none => (none, rtab)
  | some dirty =>
    if rtab.inUse = some dirty then (none, rtab)
    else
      let next := (dirty + 1) % rtab.nItems
      (some dirty, { rtab with dirty := if next = rtab.head then none else some next })

/-- The loop of `ringtab_cleanup`, with the slots it hands to `release_fn`. -/
def cleanupLoop : (fuel : Nat) → Ringtab → Except Fault (List Nat × Ringtab)
  | 0, _ => .error .fuel
  | fuel + 1, rtab =>
    match ringtabGetDirty rtab with
    | (none, rtab) => .ok ([], rtab)
    | (some item, rtab) => do
        let (released, rtab) ← cleanupLoop fuel rtab
        pure (item :: released, rtab)

/-- Each round takes one of the slots. -/
def ringtabCleanup (rtab : Ringtab) : Except Fault (List Nat × Ringtab) :=
  cleanupLoop (rtab.nItems + 1) rtab

/-- The slots it releases, and the one it hands out. -/
def ringtabProduceItem (rtab : Ringtab) : Except Fault (List Nat × Option Nat × Ringtab) := do
  let (released, rtab) ← ringtabCleanup rtab
  pure (released, ringtabPutItem rtab)

def ringtabConsumeItem (rtab : Ringtab) : Option Nat × Ringtab :=
  ringtabUseItem (ringtabDoneItem rtab)

/-! ## Counting the items -/

/-- `produced` items were handed out to the producer and `finished` of them are
done with; the others are in the table. -/
structure Counts (rtab : Ringtab) (finished produced : Nat) : Prop where
  positive : 0 < rtab.nItems
  head : rtab.head = finished % rtab.nItems
  tail : rtab.tail = produced % rtab.nItems
  ordered : finished ≤ produced
  bounded : produced ≤ finished + rtab.nItems
  full : rtab.full = true ↔ produced = finished + rtab.nItems

section Counted

variable {rtab : Ringtab} {finished produced : Nat}

theorem ringtabInit_counts {nItems : Nat} (positive : 0 < nItems) :
    Counts (ringtabInit nItems) 0 0 := by
  refine ⟨positive, (Nat.zero_mod _).symm, (Nat.zero_mod _).symm, Nat.le_refl _, Nat.zero_le _, ?_⟩
  simp only [ringtabInit, Nat.zero_add, Bool.false_eq_true, false_iff]
  omega

theorem Counts.itemsUsed (counts : Counts rtab finished produced) :
    ringtabItemsUsed rtab = produced - finished := by
  have ordered := counts.ordered
  have bounded := counts.bounded
  unfold ringtabItemsUsed
  split
  · rename_i full
    have exact := counts.full.mp full
    omega
  · rename_i notFull
    have short : produced ≠ finished + rtab.nItems := fun whole => notFull (counts.full.mpr whole)
    have slot : finished % rtab.nItems < rtab.nItems := Nat.mod_lt _ counts.positive
    have tail : rtab.tail = (finished % rtab.nItems + (produced - finished)) % rtab.nItems := by
      rw [Nat.mod_add_mod, Nat.add_sub_cancel' ordered]
      exact counts.tail
    rw [add_mod_ring slot (by omega)] at tail
    have head := counts.head
    dsimp only
    split at tail <;> split <;> omega

theorem Counts.putItem_full (counts : Counts rtab finished produced)
    (whole : produced = finished + rtab.nItems) : ringtabPutItem rtab = (none, rtab) := by
  unfold ringtabPutItem
  rw [counts.itemsUsed, if_pos (by omega)]

theorem Counts.putItem_some (counts : Counts rtab finished produced)
    (room : produced < finished + rtab.nItems) :
    ∃ next, ringtabPutItem rtab = (some (produced % rtab.nItems), next) ∧
      Counts next finished (produced + 1) ∧ next.nItems = rtab.nItems ∧ next.head = rtab.head ∧
      next.dirty = rtab.dirty ∧ next.inUse = rtab.inUse := by
  have ordered := counts.ordered
  have notFull : rtab.full = false := by
    rw [← Bool.not_eq_true, counts.full]
    omega
  have notMany : ¬ ringtabItemsUsed rtab ≥ rtab.nItems := by
    rw [counts.itemsUsed]
    omega
  unfold ringtabPutItem
  rw [if_neg notMany]
  dsimp only
  refine ⟨{ rtab with
      tail := (rtab.tail + 1) % rtab.nItems
      full := rtab.full || decide ((rtab.tail + 1) % rtab.nItems = rtab.head) },
    by rw [← counts.tail], ?_, rfl, rfl, rfl, rfl⟩
  refine ⟨counts.positive, counts.head, ?_, by omega, room, ?_⟩
  · rw [counts.tail, Nat.mod_add_mod]
  · dsimp only
    rw [notFull, Bool.false_or, decide_eq_true_iff, counts.tail, Nat.mod_add_mod, counts.head]
    constructor
    · intro same
      by_contra different
      exact mod_ne_of_lt_of_sub_lt (by omega : finished < produced + 1) (by omega) same.symm
    · intro whole
      rw [whole, Nat.add_mod_right]

theorem Counts.doneItem (counts : Counts rtab finished produced) (inUse : rtab.inUse = some rtab.head)
    (some_left : finished < produced) :
    Counts (ringtabDoneItem rtab) (finished + 1) produced := by
  have bounded := counts.bounded
  refine ⟨counts.positive, ?_, counts.tail, some_left, by dsimp only [ringtabDoneItem]; omega, ?_⟩
  · dsimp only [ringtabDoneItem]
    rw [inUse, counts.head]
    exact Nat.mod_add_mod _ _ _
  · dsimp only [ringtabDoneItem]
    simp only [Bool.false_eq_true, false_iff]
    omega

theorem Counts.useItem (counts : Counts rtab finished produced) :
    (finished = produced ∧ ringtabUseItem rtab = (none, rtab)) ∨
      (finished < produced ∧ ringtabUseItem rtab =
        (some (finished % rtab.nItems), { rtab with inUse := some rtab.head })) := by
  have ordered := counts.ordered
  unfold ringtabUseItem
  rw [counts.itemsUsed]
  split
  · exact .inl ⟨by omega, rfl⟩
  · exact .inr ⟨by omega, by rw [counts.head]⟩

theorem Counts.congr (counts : Counts rtab finished produced) {next : Ringtab}
    (nItems : next.nItems = rtab.nItems) (head : next.head = rtab.head)
    (tail : next.tail = rtab.tail) (full : next.full = rtab.full) :
    Counts next finished produced := by
  refine ⟨?_, ?_, ?_, counts.ordered, ?_, ?_⟩
  · rw [nItems]
    exact counts.positive
  · rw [nItems, head]
    exact counts.head
  · rw [nItems, tail]
    exact counts.tail
  · rw [nItems]
    exact counts.bounded
  · rw [nItems, full]
    exact counts.full

end Counted

/-! ## Cleaning up -/

section Cleanup

variable {rtab : Ringtab}

theorem cleanup_clean (clean : rtab.dirty = none) : ringtabCleanup rtab = .ok ([], rtab) := by
  simp only [ringtabCleanup, cleanupLoop, ringtabGetDirty, clean]

theorem cleanup_inUse {dirty : Nat} (marked : rtab.dirty = some dirty)
    (inUse : rtab.inUse = some dirty) : ringtabCleanup rtab = .ok ([], rtab) := by
  simp only [ringtabCleanup, cleanupLoop, ringtabGetDirty, marked, inUse, if_true]

theorem cleanupLoop_range {first length fuel : Nat} (positive : 0 < rtab.nItems)
    (marked : rtab.dirty = some (first % rtab.nItems)) (nonempty : 0 < length)
    (short : length < rtab.nItems) (head : rtab.head = (first + length) % rtab.nItems)
    (inUse : rtab.inUse = some rtab.head) (enough : length < fuel) :
    cleanupLoop fuel rtab =
      .ok ((List.range length).map (fun index => (first + index) % rtab.nItems),
        { rtab with dirty := none }) := by
  induction length generalizing first fuel rtab with
  | zero => exact absurd nonempty (Nat.lt_irrefl 0)
  | succ length ih =>
    obtain ⟨fuel, rfl⟩ : ∃ rest, fuel = rest + 1 := ⟨fuel - 1, by omega⟩
    have different : rtab.inUse ≠ some (first % rtab.nItems) := by
      rw [inUse, head]
      intro same
      exact mod_ne_of_lt_of_sub_lt (by omega : first < first + (length + 1)) (by omega)
        (Option.some.inj same).symm
    have rest : (List.range (length + 1)).map (fun index => (first + index) % rtab.nItems) =
        first % rtab.nItems ::
          (List.range length).map (fun index => (first + 1 + index) % rtab.nItems) := by
      rw [List.range_succ_eq_map, List.map_cons, List.map_map, Nat.add_zero]
      congr 1
      apply List.map_congr_left
      intro index _
      rw [Function.comp_apply, Nat.succ_eq_add_one, Nat.add_comm index, Nat.add_assoc]
    simp only [cleanupLoop, ringtabGetDirty, marked, if_neg different, Nat.mod_add_mod]
    rcases Nat.eq_zero_or_pos length with rfl | more
    · rw [if_pos head.symm]
      obtain ⟨fuel, rfl⟩ : ∃ rest, fuel = rest + 1 := ⟨fuel - 1, by omega⟩
      rfl
    · have inside : (first + 1) % rtab.nItems ≠ rtab.head := by
        rw [head]
        exact mod_ne_of_lt_of_sub_lt (by omega) (by omega)
      rw [if_neg inside, rest]
      have tailEq : first + (length + 1) = first + 1 + length := by omega
      have inner := @ih { rtab with dirty := some ((first + 1) % rtab.nItems) } (first + 1) fuel
        positive rfl more (Nat.lt_of_succ_lt short) (tailEq ▸ head) inUse (by omega)
      rw [inner]
      rfl

/-- `ringtab_cleanup` releases every slot of the range in order. -/
theorem cleanup_range {first length : Nat} (positive : 0 < rtab.nItems)
    (marked : rtab.dirty = some (first % rtab.nItems)) (nonempty : 0 < length)
    (short : length < rtab.nItems) (head : rtab.head = (first + length) % rtab.nItems)
    (inUse : rtab.inUse = some rtab.head) :
    ringtabCleanup rtab =
      .ok ((List.range length).map (fun index => (first + index) % rtab.nItems),
        { rtab with dirty := none }) :=
  cleanupLoop_range positive marked nonempty short head inUse (by omega)

end Cleanup

end CLibs.Ringtabs
