import Mathlib.Data.List.Basic

/-!
# Passes that compress runs in place

An array is passed once with a pointer to the head of the current run; each item
either joins the run or starts the next.  `Passed` splits the array into the
runs found so far and the items ahead, and says what the two moves do to it.
-/

namespace CLibs

open List

structure Run (Item : Type) where
  head : Item
  members : List Item

variable {Item : Type}

def Run.items (run : Run Item) : List Item := run.head :: run.members

def runItems (runs : List (Run Item)) : List Item := runs.flatMap Run.items

@[simp]
theorem runItems_nil : runItems ([] : List (Run Item)) = [] := rfl

@[simp]
theorem runItems_cons (run : Run Item) (runs : List (Run Item)) :
    runItems (run :: runs) = run.items ++ runItems runs := rfl

@[simp]
theorem runItems_append (first second : List (Run Item)) :
    runItems (first ++ second) = runItems first ++ runItems second :=
  flatMap_append

theorem modify_behind (before : List Item) (item : Item) (behind : List Item)
    (change : Item → Item) :
    (before ++ item :: behind).modify before.length change = before ++ change item :: behind := by
  induction before with
  | nil => rfl
  | cons other before ih =>
    rw [cons_append, length_cons, modify_succ_cons, ih, cons_append]

theorem map_modify_of {Value : Type} {view : Item → Value} {change : Item → Item}
    (unseen : ∀ item, view (change item) = view item) (items : List Item) (index : Nat) :
    (items.modify index change).map view = items.map view := by
  induction items generalizing index with
  | nil => rw [modify_nil]
  | cons item items ih =>
    cases index with
    | zero => rw [modify_zero_cons, map_cons, map_cons, unseen]
    | succ index => rw [modify_succ_cons, map_cons, map_cons, ih]

/-- The array behind the item at `index`: the finished runs, the current one and what stands ahead. -/
structure Passed (items : List Item) (pointer : Option Nat) (index : Nat)
    (done : List (Run Item)) (current : Option (Run Item)) (ahead : List Item) : Prop where
  items : items = runItems done ++ (runItems current.toList ++ ahead)
  pointer : pointer = current.map fun _ => (runItems done).length
  index : index = (runItems done ++ runItems current.toList).length

theorem Passed.start_of (items : List Item) : Passed items none 0 [] none items where
  items := rfl
  pointer := rfl
  index := rfl

namespace Passed

open List

variable {items : List Item} {pointer : Option Nat} {index : Nat} {done : List (Run Item)}
  {current : Option (Run Item)} {run : Run Item} {item : Item} {ahead : List Item}

theorem getElem? (passed : Passed items pointer index done current ahead) (distance : Nat) :
    items[index + distance]? = ahead[distance]? := by
  rw [passed.items, ← append_assoc, passed.index,
    List.getElem?_append_right (Nat.le_add_right _ _), Nat.add_sub_cancel_left]

theorem length (passed : Passed items pointer index done current ahead) :
    items.length = index + ahead.length := by
  rw [passed.items, ← append_assoc, length_append, passed.index]

theorem getElem?_head (passed : Passed items pointer index done (some run) ahead) :
    items[(runItems done).length]? = some run.head := by
  rw [passed.items, List.getElem?_append_right (Nat.le_refl _), Nat.sub_self]
  rfl

theorem modify_ahead (passed : Passed items pointer index done current (item :: ahead))
    (change : Item → Item) :
    items.modify index change =
      runItems done ++ (runItems current.toList ++ (change item :: ahead)) := by
  rw [passed.items, ← append_assoc, passed.index, modify_behind, append_assoc]

theorem getElem?_head_modify (passed : Passed items pointer index done (some run) (item :: ahead))
    (change : Item → Item) :
    (items.modify index change)[(runItems done).length]? = some run.head := by
  rw [passed.modify_ahead, List.getElem?_append_right (Nat.le_refl _), Nat.sub_self]
  rfl

theorem start (passed : Passed items pointer index done current (item :: ahead))
    (change : Item → Item) :
    Passed (items.modify index change) (some index) (index + 1) (done ++ current.toList)
      (some ⟨change item, []⟩) ahead where
  items := by
    rw [passed.modify_ahead, runItems_append, append_assoc]
    rfl
  pointer := by
    rw [passed.index, runItems_append]
    rfl
  index := by
    rw [passed.index]
    simp [Run.items]
    omega

theorem join (passed : Passed items pointer index done (some run) (item :: ahead))
    (change changeHead : Item → Item) :
    Passed ((items.modify index change).modify (runItems done).length changeHead) pointer
      (index + 1) done (some ⟨changeHead run.head, run.members ++ [change item]⟩) ahead where
  items := by
    rw [passed.modify_ahead]
    simp [Run.items, modify_behind]
  pointer := passed.pointer
  index := by
    rw [passed.index]
    simp [Run.items]
    omega

end Passed

end CLibs
