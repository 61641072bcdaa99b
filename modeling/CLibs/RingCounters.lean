import Mathlib.Data.List.Nodup
import Mathlib.Data.List.Range
import Mathlib.Data.Nat.ModEq

/-!
# Rings addressed by free-running counters

A ring of `capacity` cells is read at `head` and written at `tail`.  Both
counters run freely and wrap at `word`; the cell of a counter value is the
value modulo `capacity`.  `ringWindow` lists the cells from `head` on, and
the lemmas say when the cell at `tail` is outside of that window.
-/

namespace CLibs

/-- The cells of `count` consecutive counter values that start at `head`. -/
def ringWindow (word capacity head count : Nat) : List Nat :=
  (List.range count).map fun offset => (head + offset) % word % capacity

/-- Number of counter values between two wrapped counters. -/
def ringDistance (word head tail : Nat) : Nat :=
  (tail + word - head) % word

variable {word capacity head tail count : Nat}

@[simp]
theorem ringWindow_length : (ringWindow word capacity head count).length = count := by
  simp [ringWindow]

@[simp]
theorem ringWindow_zero : ringWindow word capacity head 0 = [] :=
  rfl

theorem ringWindow_succ :
    ringWindow word capacity head (count + 1) =
      ringWindow word capacity head count ++ [(head + count) % word % capacity] := by
  simp [ringWindow, List.range_succ]

theorem ringWindow_eq_cons :
    ringWindow word capacity head (count + 1) =
      head % word % capacity :: ringWindow word capacity (head + 1) count := by
  simp only [ringWindow, List.range_succ_eq_map, List.map_cons, List.map_map, Nat.add_zero]
  congr 1
  apply List.map_congr_left
  intro offset _
  simp only [Function.comp_apply]
  congr 2
  omega

theorem ringWindow_mod :
    ringWindow word capacity (head % word) count = ringWindow word capacity head count := by
  simp [ringWindow]

theorem add_ringDistance_mod (headFits : head < word) (tailFits : tail < word) :
    (head + ringDistance word head tail) % word = tail := by
  unfold ringDistance
  rw [Nat.add_mod_mod]
  have regroup : head + (tail + word - head) = tail + word := by omega
  rw [regroup, Nat.add_mod_right, Nat.mod_eq_of_lt tailFits]

theorem ringDistance_eq_zero_iff (headFits : head < word) (tailFits : tail < word) :
    ringDistance word head tail = 0 ↔ tail = head := by
  constructor
  · intro zero
    have reached := add_ringDistance_mod headFits tailFits
    rw [zero, Nat.add_zero, Nat.mod_eq_of_lt headFits] at reached
    exact reached.symm
  · intro same
    simp [ringDistance, same]

theorem ringDistance_tail_succ (headFits : head < word) (tailFits : tail < word)
    (room : ringDistance word head tail + 1 < word) :
    ringDistance word head ((tail + 1) % word) = ringDistance word head tail + 1 := by
  unfold ringDistance at room ⊢
  by_cases wraps : tail + 1 = word
  · have first : (tail + word - head) % word = tail - head := by
      rw [show tail + word - head = tail - head + word by omega, Nat.add_mod_right]
      exact Nat.mod_eq_of_lt (by omega)
    rw [wraps, Nat.mod_self, first]
    rw [first] at room
    rw [Nat.mod_eq_of_lt (by omega : 0 + word - head < word)]
    omega
  · rw [Nat.mod_eq_of_lt (by omega : tail + 1 < word)]
    rw [show tail + 1 + word - head = tail + word - head + 1 by omega]
    rw [Nat.add_mod, Nat.mod_eq_of_lt (by omega : 1 < word)]
    exact Nat.mod_eq_of_lt room

theorem ringDistance_head_succ (headFits : head < word) (tailFits : tail < word)
    (nonempty : 0 < ringDistance word head tail) :
    ringDistance word ((head + 1) % word) tail = ringDistance word head tail - 1 := by
  unfold ringDistance at nonempty ⊢
  by_cases wraps : head + 1 = word
  · rw [wraps, Nat.mod_self]
    rw [show tail + word - 0 = tail + word by omega, Nat.add_mod_right,
      Nat.mod_eq_of_lt tailFits]
    rw [show tail + word - head = tail + 1 by omega] at nonempty ⊢
    by_cases full : tail + 1 = word
    · rw [full, Nat.mod_self] at nonempty
      omega
    · rw [Nat.mod_eq_of_lt (by omega)]
      omega
  · rw [Nat.mod_eq_of_lt (by omega : head + 1 < word)]
    by_cases ordered : head < tail
    · rw [show tail + word - (head + 1) = tail - head - 1 + word by omega,
        show tail + word - head = tail - head + word by omega,
        Nat.add_mod_right, Nat.add_mod_right, Nat.mod_eq_of_lt (by omega),
        Nat.mod_eq_of_lt (by omega)]
    · by_cases same : tail = head
      · rw [same] at nonempty
        simp at nonempty
      · rw [Nat.mod_eq_of_lt (by omega), Nat.mod_eq_of_lt (by omega)]
        omega

theorem mod_ne_of_lt_of_sub_lt {first second modulus : Nat} (ordered : first < second)
    (near : second < first + modulus) : first % modulus ≠ second % modulus := by
  intro same
  have divides : modulus ∣ second - first := (Nat.modEq_iff_dvd' ordered.le).mp same
  have positive : 0 < second - first := by omega
  have bound := Nat.le_of_dvd positive divides
  omega

theorem add_mod_ring {slot offset : Nat} (inside : slot < capacity) (short : offset ≤ capacity) :
    (slot + offset) % capacity =
      if slot + offset < capacity then slot + offset else slot + offset - capacity := by
  split
  · rename_i straight
    exact Nat.mod_eq_of_lt straight
  · rename_i around
    rw [Nat.mod_eq_sub_mod (by omega), Nat.mod_eq_of_lt (by omega)]

end CLibs
