import CLibs.FaultingPrograms
import Mathlib.Data.List.Perm.Subperm
import Mathlib.Order.Basic
import Mathlib.Order.Lattice

/-!
# Binary heaps in lists

The parent of the place `i` is `(i - 1) / 2`.  `siftUp` and `siftDown` swap an item with
its parent, or with its smaller child, until it is in order.  Each works on a list that
is in order but for the edges at one place, and whose other edges at that place bridge it.
-/

namespace CLibs.ArrayHeaps

open List

variable {Item Key : Type} [LinearOrder Key] {key : Item → Key} {heap : List Item} {idx : Nat}

def siftUp (key : Item → Key) : (fuel idx : Nat) → List Item → Except Fault (List Item)
  | 0, _, _ => .error .fuel
  | fuel + 1, idx, heap =>
    if idx = 0 then .ok heap
    else
      match heap[(idx - 1) / 2]?, heap[idx]? with
      | some parent, some item =>
        if key parent ≤ key item then .ok heap
        else siftUp key fuel ((idx - 1) / 2) (heap.swap ((idx - 1) / 2) idx)
      | _, _ => .error .outside

def smaller (key : Item → Key) (heap : List Item) (place child : Nat) : Bool :=
  match heap[place]?, heap[child]? with
  | some item, some other => decide (key other < key item)
  | _, _ => false

def smallest (key : Item → Key) (heap : List Item) (idx : Nat) : Nat :=
  let place := if smaller key heap idx (idx * 2 + 1) then idx * 2 + 1 else idx
  if smaller key heap place (idx * 2 + 2) then idx * 2 + 2 else place

def siftDown (key : Item → Key) : (fuel idx : Nat) → List Item → Except Fault (List Item)
  | 0, _, _ => .error .fuel
  | fuel + 1, idx, heap =>
    if heap.length ≤ idx then .ok heap
    else if smallest key heap idx ≠ idx then
      siftDown key fuel (smallest key heap idx) (heap.swap (smallest key heap idx) idx)
    else .ok heap

/-! ## Order -/

def Below (key : Item → Key) (heap : List Item) (place other : Nat) : Prop :=
  ∀ item ∈ heap[place]?, ∀ above ∈ heap[other]?, key above ≤ key item

/-- No item is less than the one above it. -/
structure IsHeap (key : Item → Key) (heap : List Item) : Prop where
  edge : ∀ place, 0 < place → Below key heap place ((place - 1) / 2)

structure UpOrder (key : Item → Key) (heap : List Item) (idx : Nat) : Prop where
  except : ∀ place, 0 < place → place ≠ idx → Below key heap place ((place - 1) / 2)
  bridge : 0 < idx → ∀ place, 0 < place → (place - 1) / 2 = idx →
    Below key heap place ((idx - 1) / 2)

structure DownOrder (key : Item → Key) (heap : List Item) (idx : Nat) : Prop where
  except : ∀ place, 0 < place → (place - 1) / 2 ≠ idx → Below key heap place ((place - 1) / 2)
  bridge : 0 < idx → ∀ place, 0 < place → (place - 1) / 2 = idx →
    Below key heap place ((idx - 1) / 2)

theorem IsHeap.nil : IsHeap key [] := ⟨fun _ _ _ found => absurd found nofun⟩

theorem IsHeap.first_le (isHeap : IsHeap key heap) (place : Nat) : Below key heap place 0 := by
  induction place using Nat.strongRecOn with
  | ind place ih =>
    intro item here first found
    rcases Nat.eq_zero_or_pos place with rfl | positive
    · obtain rfl := Option.some.inj (here.symm.trans found)
      exact le_refl _
    · obtain ⟨bound, -⟩ := List.getElem?_eq_some_iff.mp here
      have parent := List.getElem?_eq_getElem (Nat.lt_of_le_of_lt
        (by omega : (place - 1) / 2 ≤ place) bound)
      exact le_trans (ih _ (by omega) _ parent _ found) (isHeap.edge place positive _ here _ parent)

theorem IsHeap.congr (isHeap : IsHeap key heap) {other : Item → Key}
    (same : ∀ item ∈ heap, other item = key item) : IsHeap other heap where
  edge := by
    intro place later lower found upper atop
    rw [same lower (mem_of_getElem? found), same upper (mem_of_getElem? atop)]
    exact isHeap.edge place later lower found upper atop

theorem IsHeap.le_of_mem {first item : Item} {rest : List Item}
    (isHeap : IsHeap key (first :: rest)) (listed : item ∈ first :: rest) :
    key first ≤ key item := by
  obtain ⟨place, found⟩ := mem_iff_getElem?.mp listed
  exact isHeap.first_le place item found first rfl

/-! ## Swaps -/

theorem swap_getElem? {first second : Nat} (one : first < heap.length) (two : second < heap.length)
    (place : Nat) : (heap.swap first second)[place]? =
      if place = first then heap[second]? else if place = second then heap[first]?
      else heap[place]? := by
  rw [swap_eq_of_lt one two, List.getElem?_set, List.getElem?_set, length_set,
    List.getElem?_eq_getElem one, List.getElem?_eq_getElem two]
  by_cases atFirst : place = first
  · subst atFirst
    by_cases same : second = place
    · subst same
      simp [two]
    · simp [same, one]
  · by_cases atSecond : place = second
    · subst atSecond
      simp [atFirst, two]
    · simp [atFirst, atSecond, Ne.symm atFirst, Ne.symm atSecond]

theorem swap_length (first second : Nat) : (heap.swap first second).length = heap.length :=
  (swap_perm heap first second).length_eq

/-! ## Sifting up -/

theorem UpOrder.swap (order : UpOrder key heap idx) {parent item : Item} (positive : 0 < idx)
    (above : heap[(idx - 1) / 2]? = some parent) (here : heap[idx]? = some item)
    (larger : key item ≤ key parent) :
    UpOrder key (heap.swap ((idx - 1) / 2) idx) ((idx - 1) / 2) := by
  have one := (List.getElem?_eq_some_iff.mp above).1
  have two := (List.getElem?_eq_some_iff.mp here).1
  have above' : parent ∈ heap[(idx - 1) / 2]? := above
  have here' : item ∈ heap[idx]? := here
  refine ⟨?_, ?_⟩
  · intro place later differs lower found upper atop
    rw [swap_getElem? one two] at found atop
    rw [if_neg differs] at found
    by_cases atIdx : place = idx
    · subst atIdx
      rw [if_pos rfl] at found
      rw [if_pos rfl] at atop
      obtain rfl := Option.some.inj (found.symm.trans above')
      obtain rfl := Option.some.inj (atop.symm.trans here')
      exact larger
    · rw [if_neg atIdx] at found
      by_cases sibling : (place - 1) / 2 = (idx - 1) / 2
      · rw [if_pos sibling] at atop
        obtain rfl := Option.some.inj (atop.symm.trans here')
        have edge := order.except place later atIdx lower found
        rw [sibling] at edge
        exact le_trans larger (edge parent above')
      · rw [if_neg sibling] at atop
        by_cases child : (place - 1) / 2 = idx
        · rw [if_pos child] at atop
          exact order.bridge positive place later child lower found upper atop
        · rw [if_neg child] at atop
          exact order.except place later atIdx lower found upper atop
  · intro higher place later below lower found upper atop
    have edge := order.except ((idx - 1) / 2) higher (by omega) parent above'
    rw [swap_getElem? one two] at found atop
    rw [if_neg (by omega), if_neg (by omega)] at atop
    rw [if_neg (by omega)] at found
    by_cases atIdx : place = idx
    · subst atIdx
      rw [if_pos rfl] at found
      obtain rfl := Option.some.inj (found.symm.trans above')
      exact edge upper atop
    · rw [if_neg atIdx] at found
      have sibling := order.except place later atIdx lower found
      rw [below] at sibling
      exact le_trans (edge upper atop) (sibling parent above')

theorem UpOrder.siftUp (order : UpOrder key heap idx) (inside : idx < heap.length ∨ idx = 0)
    {fuel : Nat} (enough : idx < fuel) :
    ∃ next, siftUp key fuel idx heap = .ok next ∧ next.Perm heap ∧ IsHeap key next := by
  induction fuel generalizing idx heap with
  | zero => exact absurd enough (Nat.not_lt_zero _)
  | succ fuel ih =>
    rw [ArrayHeaps.siftUp]
    by_cases root : idx = 0
    · rw [if_pos root]
      subst root
      exact ⟨heap, rfl, .rfl, ⟨fun place later => order.except place later (by omega)⟩⟩
    have bound : idx < heap.length := inside.resolve_right root
    have above := List.getElem?_eq_getElem (by omega : (idx - 1) / 2 < heap.length)
    have here := List.getElem?_eq_getElem bound
    rw [if_neg root, above, here]
    dsimp only
    by_cases ordered : key heap[(idx - 1) / 2] ≤ key heap[idx]
    · rw [if_pos ordered]
      refine ⟨heap, rfl, .rfl, ⟨fun place later => ?_⟩⟩
      by_cases atIdx : place = idx
      · subst atIdx
        intro item found upper atop
        obtain rfl := Option.some.inj (found.symm.trans here)
        obtain rfl := Option.some.inj (atop.symm.trans above)
        exact ordered
      · exact order.except place later atIdx
    · rw [if_neg ordered]
      have swapped := order.swap (Nat.pos_of_ne_zero root) above here (le_of_lt (lt_of_not_ge ordered))
      obtain ⟨next, returned, perm, isHeap⟩ := ih swapped
        (.inl (by rw [swap_length]; omega)) (by omega)
      exact ⟨next, returned, perm.trans (swap_perm ..), isHeap⟩

/-! ## Sifting down -/

theorem smaller_iff {place child : Nat} : smaller key heap place child = true ↔
    ∃ item other, heap[place]? = some item ∧ heap[child]? = some other ∧ key other < key item := by
  unfold smaller
  split
  · rename_i item other here there
    rw [decide_eq_true_iff, here, there]
    constructor
    · intro less
      exact ⟨item, other, rfl, rfl, less⟩
    · rintro ⟨_, _, same, alike, less⟩
      rw [Option.some.inj same, Option.some.inj alike]
      exact less
  · rename_i missing
    refine iff_of_false nofun ?_
    rintro ⟨item, other, here, there, -⟩
    exact missing item other here there

theorem below_self (place : Nat) : Below key heap place place := by
  intro item here above there
  obtain rfl := Option.some.inj (here.symm.trans there)
  exact le_refl _

theorem below_of_le {place other : Nat} {item above : Item} (here : heap[place]? = some item)
    (there : heap[other]? = some above) (le : key above ≤ key item) : Below key heap place other := by
  intro lower found upper atop
  obtain rfl := Option.some.inj (here.symm.trans found)
  obtain rfl := Option.some.inj (there.symm.trans atop)
  exact le

theorem not_smaller {place child : Nat} (none : ¬smaller key heap place child = true) :
    Below key heap child place := by
  intro item here above there
  by_contra less
  exact none (smaller_iff.mpr ⟨above, item, there, here, lt_of_not_ge less⟩)

variable (key heap idx) in
theorem smallest_cases :
    (smallest key heap idx = idx ∧ Below key heap (idx * 2 + 1) idx ∧
      Below key heap (idx * 2 + 2) idx) ∨
    ∃ item other, heap[idx]? = some item ∧ heap[smallest key heap idx]? = some other ∧
      key other < key item ∧
      (smallest key heap idx = idx * 2 + 1 ∨ smallest key heap idx = idx * 2 + 2) ∧
      Below key heap (idx * 2 + 1) (smallest key heap idx) ∧
      Below key heap (idx * 2 + 2) (smallest key heap idx) := by
  unfold smallest
  by_cases left : smaller key heap idx (idx * 2 + 1) = true
  · obtain ⟨item, other, here, there, less⟩ := smaller_iff.mp left
    rw [if_pos left]
    right
    by_cases right : smaller key heap (idx * 2 + 1) (idx * 2 + 2) = true
    · obtain ⟨_, third, same, found, lesser⟩ := smaller_iff.mp right
      obtain rfl := Option.some.inj (same.symm.trans there)
      rw [if_pos right]
      exact ⟨item, third, here, found, lt_trans lesser less, .inr rfl,
        below_of_le there found (le_of_lt lesser), below_self _⟩
    · rw [if_neg right]
      exact ⟨item, other, here, there, less, .inl rfl, below_self _, not_smaller right⟩
  · rw [if_neg left]
    have ordered := not_smaller left
    by_cases right : smaller key heap idx (idx * 2 + 2) = true
    · obtain ⟨item, third, here, found, less⟩ := smaller_iff.mp right
      rw [if_pos right]
      refine .inr ⟨item, third, here, found, less, .inr rfl, ?_, below_self _⟩
      intro second other above atop
      obtain rfl := Option.some.inj (atop.symm.trans found)
      exact le_trans (le_of_lt less) (ordered second other item here)
    · rw [if_neg right]
      exact .inl ⟨rfl, ordered, not_smaller right⟩

theorem DownOrder.swap (order : DownOrder key heap idx) {item other : Item} {child : Nat}
    (here : heap[idx]? = some item) (there : heap[child]? = some other) (less : key other < key item)
    (isChild : child = idx * 2 + 1 ∨ child = idx * 2 + 2)
    (left : Below key heap (idx * 2 + 1) child) (right : Below key heap (idx * 2 + 2) child) :
    DownOrder key (heap.swap child idx) child := by
  have one := (List.getElem?_eq_some_iff.mp there).1
  have two := (List.getElem?_eq_some_iff.mp here).1
  have parent : (child - 1) / 2 = idx := by omega
  refine ⟨?_, ?_⟩
  · intro place later differs lower found upper atop
    rw [swap_getElem? one two] at found atop
    rw [if_neg differs] at atop
    by_cases below : (place - 1) / 2 = idx
    · rw [if_pos below] at atop
      obtain rfl := Option.some.inj (atop.symm.trans there)
      by_cases atChild : place = child
      · rw [if_pos atChild] at found
        obtain rfl := Option.some.inj (found.symm.trans here)
        exact le_of_lt less
      · rw [if_neg atChild, if_neg (by omega)] at found
        have sibling : place = idx * 2 + 1 ∨ place = idx * 2 + 2 := by omega
        rcases sibling with rfl | rfl
        · exact left lower found _ there
        · exact right lower found _ there
    · rw [if_neg below] at atop
      rw [if_neg (by omega)] at found
      by_cases atIdx : place = idx
      · rw [if_pos atIdx] at found
        exact order.bridge (by omega) child (by omega) parent lower found upper (atIdx ▸ atop)
      · rw [if_neg atIdx] at found
        exact order.except place later below lower found upper atop
  · intro _ place later below lower found upper atop
    rw [swap_getElem? one two] at found atop
    rw [parent, if_neg (by omega), if_pos rfl] at atop
    rw [if_neg (by omega), if_neg (by omega)] at found
    obtain rfl := Option.some.inj (atop.symm.trans there)
    have edge := order.except place later (by omega) lower found
    rw [below] at edge
    exact edge _ there

theorem DownOrder.isHeap (order : DownOrder key heap idx) (left : Below key heap (idx * 2 + 1) idx)
    (right : Below key heap (idx * 2 + 2) idx) : IsHeap key heap where
  edge := by
    intro place later
    by_cases below : (place - 1) / 2 = idx
    · rw [below]
      have child : place = idx * 2 + 1 ∨ place = idx * 2 + 2 := by omega
      rcases child with rfl | rfl
      · exact left
      · exact right
    · exact order.except place later below

theorem below_outside {place : Nat} (outside : heap.length ≤ place) (other : Nat) :
    Below key heap place other := by
  intro item here
  rw [List.getElem?_eq_none outside] at here
  cases here

/-- One item out of place sinks to where the heap is in order. -/
theorem DownOrder.siftDown (order : DownOrder key heap idx) {fuel : Nat}
    (enough : heap.length - idx < fuel) :
    ∃ next, siftDown key fuel idx heap = .ok next ∧ next.Perm heap ∧ IsHeap key next := by
  induction fuel generalizing idx heap with
  | zero => exact absurd enough (Nat.not_lt_zero _)
  | succ fuel ih =>
    rw [ArrayHeaps.siftDown]
    by_cases outside : heap.length ≤ idx
    · rw [if_pos outside]
      exact ⟨heap, rfl, .rfl, order.isHeap (below_outside (by omega) _) (below_outside (by omega) _)⟩
    rw [if_neg outside]
    rcases smallest_cases key heap idx with
      ⟨same, left, right⟩ | ⟨item, other, here, there, less, isChild, left, right⟩
    · rw [if_neg (not_not.mpr same)]
      exact ⟨heap, rfl, .rfl, order.isHeap left right⟩
    · have bound := (List.getElem?_eq_some_iff.mp there).1
      rw [if_pos (by omega)]
      obtain ⟨next, returned, perm, isHeap⟩ := ih
        (order.swap here there less isChild left right) (by rw [swap_length]; omega)
      exact ⟨next, returned, perm.trans (swap_perm ..), isHeap⟩

/-! ## The ends of a heap -/

theorem IsHeap.pushed (isHeap : IsHeap key heap) (item : Item) :
    UpOrder key (heap ++ [item]) heap.length where
  except := by
    intro place later differs lower found upper atop
    have bound := (List.getElem?_eq_some_iff.mp found).1
    rw [length_append, length_singleton] at bound
    have found' : (heap ++ [item])[place]? = some lower := found
    have atop' : (heap ++ [item])[(place - 1) / 2]? = some upper := atop
    rw [List.getElem?_append_left (by omega)] at found' atop'
    exact isHeap.edge place later lower found' upper atop'
  bridge := by
    intro _ place later below
    exact below_outside (by rw [length_append, length_singleton]; omega) _

theorem IsHeap.replaced {first : Item} {rest : List Item} (isHeap : IsHeap key (first :: rest))
    {item : Item} {others : List Item} (starts : others <+: rest) :
    DownOrder key (item :: others) 0 where
  except := by
    intro place later below lower found upper atop
    obtain ⟨place, rfl⟩ := Nat.exists_eq_succ_of_ne_zero (Nat.ne_of_gt later)
    obtain ⟨parent, same⟩ := Nat.exists_eq_succ_of_ne_zero below
    have kept : ∀ place : Nat, ∀ item : Item, others[place]? = some item →
        rest[place]? = some item := by
      intro place item here
      obtain ⟨more, rfl⟩ := starts
      rw [List.getElem?_append_left (List.getElem?_eq_some_iff.mp here).1, here]
    have edge := isHeap.edge (place + 1) later
    rw [same] at atop edge
    exact edge lower (kept _ _ found) upper (kept _ _ atop)
  bridge := fun positive => absurd positive (Nat.lt_irrefl 0)

end CLibs.ArrayHeaps
