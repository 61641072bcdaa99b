import Mathlib.Data.List.Basic

/-!
# Arrays of slots

An array of which the first `count` slots are in use.  A slot beyond the count
keeps what was last written into it: whether that matters depends on what the
owner of the array does before it puts the slot into use again.
-/

namespace CLibs

/-- An array of which the first `count` slots are in use. -/
structure SlotArray (Slot : Type) where
  slots : Nat → Slot
  count : Nat

namespace SlotArray

variable {Slot : Type}

/-- The slots in use. -/
def live (array : SlotArray Slot) : List Slot := (List.range array.count).map array.slots

def set (array : SlotArray Slot) (index : Nat) (slot : Slot) : SlotArray Slot :=
  { array with slots := Function.update array.slots index slot }

def modify (array : SlotArray Slot) (index : Nat) (change : Slot → Slot) : SlotArray Slot :=
  array.set index (change (array.slots index))

/-- Closes the gap at `index` by moving the slots behind it down by one. -/
def removeAt (array : SlotArray Slot) (index : Nat) : SlotArray Slot where
  slots := fun position =>
    if index ≤ position ∧ position + 1 < array.count then array.slots (position + 1)
    else array.slots position
  count := array.count - 1

def find (array : SlotArray Slot) (test : Slot → Bool) : Option Nat :=
  (List.range array.count).find? fun index => test (array.slots index)

@[simp] theorem set_count (array : SlotArray Slot) (index : Nat) (slot : Slot) :
    (array.set index slot).count = array.count := rfl

@[simp] theorem set_same (array : SlotArray Slot) (index : Nat) (slot : Slot) :
    (array.set index slot).slots index = slot := Function.update_self _ _ _

variable {index : Nat}

theorem set_other (array : SlotArray Slot) {other : Nat} (slot : Slot) (different : other ≠ index) :
    (array.set index slot).slots other = array.slots other :=
  Function.update_of_ne different _ _

@[simp] theorem modify_count (array : SlotArray Slot) (index : Nat) (change : Slot → Slot) :
    (array.modify index change).count = array.count := rfl

@[simp] theorem modify_same (array : SlotArray Slot) (index : Nat) (change : Slot → Slot) :
    (array.modify index change).slots index = change (array.slots index) := set_same _ _ _

theorem modify_other (array : SlotArray Slot) {other : Nat} (change : Slot → Slot)
    (different : other ≠ index) : (array.modify index change).slots other = array.slots other :=
  set_other _ _ different

theorem modify_slots (array : SlotArray Slot) (index : Nat) (change : Slot → Slot) (other : Nat) :
    (array.modify index change).slots other =
      if other = index then change (array.slots other) else array.slots other := by
  split
  · rename_i here
    subst here
    exact modify_same _ _ _
  · rename_i elsewhere
    exact modify_other _ _ elsewhere

theorem removeAt_slots (array : SlotArray Slot) {position : Nat}
    (inside : position + 1 < array.count) :
    (array.removeAt index).slots position =
      array.slots (if position < index then position else position + 1) := by
  dsimp only [removeAt]
  split
  · rw [if_neg (by omega)]
  · rw [if_pos (by omega)]

variable {array : SlotArray Slot}

theorem mem_live {slot : Slot} :
    slot ∈ array.live ↔ ∃ index < array.count, array.slots index = slot := by
  simp [live]

theorem live_length (array : SlotArray Slot) : array.live.length = array.count := by
  unfold live
  rw [List.length_map, List.length_range]

theorem find_some {test : Slot → Bool} (found : array.find test = some index) :
    index < array.count ∧ test (array.slots index) = true := by
  have member := List.mem_of_find?_eq_some found
  have passed := List.find?_some found
  exact ⟨List.mem_range.mp member, passed⟩

theorem find_none {test : Slot → Bool} (missing : array.find test = none)
    (inside : index < array.count) : test (array.slots index) = false := by
  have failed := List.find?_eq_none.mp missing index (List.mem_range.mpr inside)
  exact eq_false_of_ne_true failed

end SlotArray

end CLibs
