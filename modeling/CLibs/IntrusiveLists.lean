import Mathlib.Data.Finset.Insert

/-!
# Intrusive lists with a back pointer to a cell

An item links itself into a list through `next` and `pprev`.  The cell that `pprev` names holds the
pointer to the item: it is the head of the list or the `next` field of the item before.  Heads are
named by an arbitrary type, so a head may also be a variable on the stack.

`Linked links lists loose members` says that the memory `links` holds the lists `lists`, one for
each head, without sharing.  At the head `loose` the first item is not required to point back.
-/

namespace CLibs

open List

/-- The places that hold a pointer to an item. -/
inductive Cell (Head Item : Type*)
  | head (head : Head)
  | next (item : Item)

structure Links (Head Item : Type*) where
  first : Head → Option Item
  next : Item → Option Item
  pprev : Item → Option (Cell Head Item)

namespace Links

open List

variable {Head Item : Type*}

def load (links : Links Head Item) : Cell Head Item → Option Item
  | .head head => links.first head
  | .next item => links.next item

/-! ## Lists in memory -/

/-- The items form a list whose first pointer is in `cell`. -/
def Chain (links : Links Head Item) : Cell Head Item → List Item → Prop
  | cell, [] => links.load cell = none
  | cell, item :: rest =>
    links.load cell = some item ∧ links.pprev item = some cell ∧ links.Chain (.next item) rest

/-- As `Chain`, but the first item need not point back to the cell. -/
def LooseChain (links : Links Head Item) (cell : Cell Head Item) : List Item → Prop
  | [] => links.load cell = none
  | item :: rest => links.load cell = some item ∧ links.Chain (.next item) rest

structure Linked (links : Links Head Item) (lists : Head → List Item) (loose : Option Head)
    (members : Finset Item) : Prop where
  chain : ∀ head, loose ≠ some head → links.Chain (.head head) (lists head)
  loose_chain : ∀ head, links.LooseChain (.head head) (lists head)
  nodup : ∀ head, (lists head).Nodup
  unique : ∀ {item first second}, item ∈ lists first → item ∈ lists second → first = second
  mem_members : ∀ item, item ∈ members ↔ ∃ head, item ∈ lists head
  unlinked : ∀ item, item ∉ members → links.pprev item = none ∧ links.next item = none

variable {links : Links Head Item} {cell : Cell Head Item} {items : List Item}

theorem Chain.loose (chain : links.Chain cell items) : links.LooseChain cell items := by
  cases items with
  | nil => exact chain
  | cons item rest => exact ⟨chain.1, chain.2.2⟩

theorem Chain.congr {other : Links Head Item} (chain : links.Chain cell items)
    (sameCell : other.load cell = links.load cell)
    (sameItems : ∀ item ∈ items,
      other.next item = links.next item ∧ other.pprev item = links.pprev item) :
    other.Chain cell items := by
  induction items generalizing cell with
  | nil => exact sameCell.trans chain
  | cons item rest ih =>
    obtain ⟨loaded, back, tail⟩ := chain
    have same := sameItems item mem_cons_self
    refine ⟨sameCell.trans loaded, same.2.trans back, ih tail same.1 ?_⟩
    intro member memberMem
    exact sameItems member (mem_cons_of_mem _ memberMem)

theorem LooseChain.congr {other : Links Head Item} (chain : links.LooseChain cell items)
    (sameCell : other.load cell = links.load cell)
    (sameItems : ∀ item ∈ items,
      other.next item = links.next item ∧ other.pprev item = links.pprev item) :
    other.LooseChain cell items := by
  cases items with
  | nil => exact sameCell.trans chain
  | cons item rest =>
    refine ⟨sameCell.trans chain.1, chain.2.congr (sameItems item mem_cons_self).1 ?_⟩
    intro member memberMem
    exact sameItems member (mem_cons_of_mem _ memberMem)

/-- The links lead from the cell to the item. -/
inductive OnList (links : Links Head Item) : Cell Head Item → Item → Prop
  | here {cell : Cell Head Item} {item : Item} (loaded : links.load cell = some item) :
      OnList links cell item
  | further {cell : Cell Head Item} {first item : Item} (loaded : links.load cell = some first)
      (rest : OnList links (.next first) item) : OnList links cell item

theorem Chain.onList_iff (chain : links.Chain cell items) (item : Item) :
    links.OnList cell item ↔ item ∈ items := by
  induction items generalizing cell with
  | nil =>
    have ends : links.load cell = none := chain
    constructor
    · rintro (loaded | ⟨loaded, _⟩) <;> simp [ends] at loaded
    · simp
  | cons first rest ih =>
    obtain ⟨loaded, -, tail⟩ := chain
    rw [mem_cons, ← ih tail]
    constructor
    · rintro (found | ⟨found, later⟩)
      · exact .inl (Option.some.inj (found.symm.trans loaded))
      · rw [Option.some.inj (found.symm.trans loaded)] at later
        exact .inr later
    · rintro (rfl | later)
      · exact .here loaded
      · exact .further loaded later

variable {item : Item}

theorem Chain.pprev_cases (chain : links.Chain cell items) (member : item ∈ items) :
    links.pprev item = some cell ∨ ∃ before ∈ items, links.pprev item = some (.next before) := by
  induction items generalizing cell with
  | nil => simp at member
  | cons first rest ih =>
    rcases mem_cons.mp member with rfl | inRest
    · exact .inl chain.2.1
    · rcases ih chain.2.2 inRest with atFirst | ⟨before, beforeMem, back⟩
      · exact .inr ⟨first, mem_cons_self, atFirst⟩
      · exact .inr ⟨before, mem_cons_of_mem _ beforeMem, back⟩

theorem Chain.load_pprev (chain : links.Chain cell items) (member : item ∈ items) :
    ∃ place, links.pprev item = some place ∧ links.load place = some item := by
  induction items generalizing cell with
  | nil => simp at member
  | cons first rest ih =>
    rcases mem_cons.mp member with rfl | inRest
    · exact ⟨cell, chain.2.1, chain.1⟩
    · exact ih chain.2.2 inRest

theorem Chain.pprev_next (chain : links.Chain cell items) {successor : Item} (member : item ∈ items)
    (follows : links.next item = some successor) :
    successor ∈ items ∧ links.pprev successor = some (.next item) := by
  induction items generalizing cell with
  | nil => simp at member
  | cons first rest ih =>
    rcases mem_cons.mp member with rfl | inRest
    · cases rest with
      | nil =>
        have ends : links.next item = none := chain.2.2
        rw [follows] at ends
        exact absurd ends (by simp)
      | cons second rest =>
        have loaded : links.next item = some second := chain.2.2.1
        obtain rfl : second = successor := Option.some.inj (loaded.symm.trans follows)
        exact ⟨by simp, chain.2.2.2.1⟩
    · obtain ⟨inside, back⟩ := ih chain.2.2 inRest
      exact ⟨mem_cons_of_mem _ inside, back⟩

/-! ## Operations -/

section Operations

variable [DecidableEq Item]

def setPprev (links : Links Head Item) (item : Item) (value : Option (Cell Head Item)) :
    Links Head Item :=
  { links with pprev := Function.update links.pprev item value }

def setPprevOf (links : Links Head Item) (item : Option Item)
    (value : Option (Cell Head Item)) : Links Head Item :=
  match item with
  | none => links
  | some item => links.setPprev item value

variable [DecidableEq Head]

def store (links : Links Head Item) (cell : Cell Head Item) (value : Option Item) :
    Links Head Item :=
  match cell with
  | .head head => { links with first := Function.update links.first head value }
  | .next item => { links with next := Function.update links.next item value }

def clear (links : Links Head Item) (item : Item) : Links Head Item :=
  (links.store (.next item) none).setPprev item none

/-- Insert an item at the front of a list. -/
def push (links : Links Head Item) (head : Head) (item : Item) : Links Head Item :=
  let links := links.setPprev item (some (.head head))
  let links := links.store (.next item) (links.first head)
  let links := links.setPprevOf (links.next item) (some (.next item))
  links.store (.head head) (some item)

/-- Take an item out of whichever list it is in. -/
def unlink (links : Links Head Item) (item : Item) : Links Head Item :=
  let links := match links.pprev item with
    | some cell => links.store cell (links.next item)
    | none => links
  let links := links.setPprevOf (links.next item) (links.pprev item)
  links.clear item

def move (links : Links Head Item) (source target : Head) : Links Head Item :=
  (links.store (.head target) (links.first source)).store (.head source) none

/-- Take the first item off a list and repair the back pointer of the next. -/
def pop (links : Links Head Item) (head : Head) (item : Item) : Links Head Item :=
  let links := links.setPprevOf (links.next item) (some (.head head))
  let links := links.store (.head head) (links.next item)
  links.clear item

/-- Take the first item off a list and leave the next one as it is. -/
def drop (links : Links Head Item) (head : Head) (item : Item) : Links Head Item :=
  (links.store (.head head) (links.next item)).clear item

/-! ### What the operations do to each field -/

section SetPprev

variable (links : Links Head Item)

omit [DecidableEq Head]

theorem setPprevOf_first (target : Option Item) (value : Option (Cell Head Item)) :
    (links.setPprevOf target value).first = links.first := by
  cases target <;> rfl

theorem setPprevOf_next (target : Option Item) (value : Option (Cell Head Item)) :
    (links.setPprevOf target value).next = links.next := by
  cases target <;> rfl

variable {other : Item}

theorem setPprevOf_pprev_of_ne {target : Option Item} {value : Option (Cell Head Item)}
    (different : target ≠ some other) :
    (links.setPprevOf target value).pprev other = links.pprev other := by
  cases target with
  | none => rfl
  | some item =>
    have apart : other ≠ item := fun same => different (congrArg some same.symm)
    exact Function.update_of_ne apart _ _

@[simp]
theorem setPprevOf_pprev_self (item : Item) (value : Option (Cell Head Item)) :
    (links.setPprevOf (some item) value).pprev item = value :=
  Function.update_self _ _ _

end SetPprev

variable (links : Links Head Item) (head : Head) (item : Item)

@[simp]
theorem store_load_self (cell : Cell Head Item) (value : Option Item) :
    (links.store cell value).load cell = value := by
  cases cell <;> simp [store, load]

theorem store_load_of_ne {place : Cell Head Item} {value : Option Item} (different : place ≠ cell) :
    (links.store cell value).load place = links.load place := by
  cases cell with
  | head head =>
    cases place with
    | head other => exact Function.update_of_ne (fun same => different (congrArg _ same)) _ _
    | next item => rfl
  | next item =>
    cases place with
    | head other => rfl
    | next other => exact Function.update_of_ne (fun same => different (congrArg _ same)) _ _

@[simp]
theorem store_pprev (cell : Cell Head Item) (value : Option Item) :
    (links.store cell value).pprev = links.pprev := by
  cases cell <;> rfl

omit [DecidableEq Head] in
@[simp]
theorem setPprevOf_load (target : Option Item) (value : Option (Cell Head Item))
    (cell : Cell Head Item) : (links.setPprevOf target value).load cell = links.load cell := by
  cases target <;> cases cell <;> rfl

theorem clear_load_self : (links.clear item).load (.next item) = none :=
  Function.update_self _ _ _

theorem clear_load_of_ne (different : cell ≠ .next item) :
    (links.clear item).load cell = links.load cell := by
  change (links.store (.next item) none).load cell = links.load cell
  exact store_load_of_ne links different

theorem clear_pprev_self : (links.clear item).pprev item = none :=
  Function.update_self _ _ _

theorem clear_pprev_of_ne (different : other ≠ item) :
    (links.clear item).pprev other = links.pprev other :=
  Function.update_of_ne different _ _

@[simp]
theorem push_first : (links.push head item).first = Function.update links.first head (some item) := by
  simp [push, store, setPprevOf_first, setPprev]

@[simp]
theorem push_next :
    (links.push head item).next = Function.update links.next item (links.first head) := by
  simp [push, store, setPprevOf_next, setPprev]

theorem push_pprev_self (notFirst : links.first head ≠ some item) :
    (links.push head item).pprev item = some (.head head) := by
  have pushed : (links.push head item).pprev item = ((links.setPprev item (some (.head head))).store
      (.next item) (links.first head)).pprev item := by
    apply setPprevOf_pprev_of_ne
    simpa [store, setPprev] using notFirst
  simpa [store, setPprev] using pushed

theorem push_pprev_first {old : Item} (first : links.first head = some old) :
    (links.push head item).pprev old = some (.next item) := by
  simp [push, store, setPprev, first, setPprevOf]

theorem push_pprev_of_ne (different : other ≠ item) (notFirst : links.first head ≠ some other) :
    (links.push head item).pprev other = links.pprev other := by
  have pushed : (links.push head item).pprev other = ((links.setPprev item (some (.head head))).store
      (.next item) (links.first head)).pprev other := by
    apply setPprevOf_pprev_of_ne
    simpa [store, setPprev] using notFirst
  simpa [store, setPprev, Function.update_of_ne different] using pushed

end Operations

end Links

end CLibs
