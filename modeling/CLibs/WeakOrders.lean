import Mathlib.Order.Antisymmetrization

/-!
# Ranks in a strict weak order

A test that is a strict weak order has ties.  The items that tie have one rank, and the ranks are in a
linear order, so that what holds of keys from a linear order holds of such a test.
-/

namespace CLibs.WeakOrders

variable {Item : Type} (less : Item → Item → Bool)

def Ranked (_ : Item → Item → Bool) : Type :=
  Item

variable [weak : IsStrictWeakOrder Item fun first second => less first second = true]

variable {first second : Item}

theorem not_less_of_less (before : less first second = true) :
    ¬less second first = true := by
  intro behind
  exact weak.irrefl first (weak.trans first second first before behind)

theorem not_less_trans {third : Item} (one : ¬less second first = true)
    (two : ¬less third second = true) : ¬less third first = true := by
  intro before
  have notOne : ¬less first second = true := fun behind => two (weak.trans _ _ _ before behind)
  have notTwo : ¬less second third = true := fun behind => one (weak.trans _ _ _ behind before)
  exact (weak.incomp_trans first second third ⟨notOne, one⟩ ⟨notTwo, two⟩).2 before

instance : Preorder (Ranked less) where
  le first second := ¬less second first = true
  lt first second := less first second = true
  le_refl item := weak.irrefl item
  le_trans _ _ _ one two := not_less_trans less one two
  lt_iff_le_not_ge first second := by
    constructor
    · intro before
      exact ⟨not_less_of_less less before, not_not.mpr before⟩
    · rintro ⟨-, before⟩
      exact not_not.mp before

instance : DecidableLE (Ranked less) := fun first second =>
  inferInstanceAs (Decidable ¬less second first = true)

instance : DecidableLT (Ranked less) := fun first second =>
  inferInstanceAs (Decidable (less first second = true))

instance : @Std.Total (Ranked less) (· ≤ ·) where
  total first second := by
    by_cases before : less first second = true
    · exact .inl (not_less_of_less less before)
    · exact .inr before

abbrev Rank : Type :=
  Antisymmetrization (Ranked less) (· ≤ ·)

def rank (item : Item) : Rank less :=
  toAntisymmetrization (α := Ranked less) (· ≤ ·) item

theorem rank_le : rank less first ≤ rank less second ↔ ¬less second first = true :=
  Iff.rfl

theorem rank_lt : rank less first < rank less second ↔ less first second = true :=
  Iff.rfl

end CLibs.WeakOrders
