import CLibs.ArrayHeaps
import CLibs.WeakOrders
import Mathlib.Algebra.Group.Int.Defs
import Mathlib.Algebra.GroupWithZero.Nat

/-!
# `heap.c`

The elements of a heap are those of `elts[0..size)`; behind them is room up to the capacity.
Memory is available.  `less` is the callback with its parameter.  An `int` that would leave its range
is a fault.
-/

namespace CLibs.Heaps

open ArrayHeaps WeakOrders List

variable {Elt : Type}

/-- `struct heap` without its callback. -/
structure Heap (Elt : Type) where
  elts : List Elt
  capacity : Nat

def Heap.size (heap : Heap Elt) : Nat :=
  heap.elts.length

/-! ## Calls -/

def heapCreate : Heap Elt where
  elts := []
  capacity := 0

def intAdd (first second : Nat) : Except Fault Nat :=
  if first + second < 2 ^ 31 then .ok (first + second) else .error .outside

def heapReserve (heap : Heap Elt) (size : Nat) : Heap Elt :=
  if heap.capacity < size then { heap with capacity := size } else heap

/-- `less` of the elements at two places. -/
def lessAt (less : Elt → Elt → Bool) (elts : List Elt) (first second : Nat) : Except Fault Bool :=
  match elts[first]?, elts[second]? with
  | some one, some two => .ok (less one two)
  | _, _ => .error .outside

def percolateUp (less : Elt → Elt → Bool) : (fuel n : Nat) → List Elt → Except Fault (List Elt)
  | 0, _, _ => .error .fuel
  | fuel + 1, n, elts =>
    if n = 0 then .ok elts
    else do
      let p := (n - 1) / 2
      let ordered ← lessAt less elts p n
      if ordered then .ok elts else percolateUp less fuel p (elts.swap p n)

def pickLess (less : Elt → Elt → Bool) (elts : List Elt) (limit c min : Nat) : Except Fault Nat :=
  if c < limit then do
    let before ← lessAt less elts c min
    .ok (if before then c else min)
  else .ok min

/-- The loop of `heap_percolate_down`, with `limit` for `heap->size - 1`. -/
def percolateDown (less : Elt → Elt → Bool) (limit : Nat) :
    (fuel n : Nat) → List Elt → Except Fault (List Elt)
  | 0, _, _ => .error .fuel
  | fuel + 1, n, elts =>
    if n < limit then do
      let min ← pickLess less elts limit (n * 2 + 1) n
      let min ← pickLess less elts limit (n * 2 + 2) min
      if n = min then .ok elts else percolateDown less limit fuel min (elts.swap min n)
    else .ok elts

/-- The room that `heap_push` makes for an element that brings the size to `next`. -/
def pushReserve (heap : Heap Elt) (next : Nat) : Except Fault (Heap Elt) :=
  if heap.capacity ≤ next then do
    let size ← intAdd heap.size 2014
    .ok (heapReserve heap size)
  else .ok heap

/-- `heap_push`: what it returns, and the heap. -/
def heapPush (less : Elt → Elt → Bool) (heap : Heap Elt) (ptr : Elt) : Except Fault (Int × Heap Elt) := do
  let next ← intAdd heap.size 1
  let heap ← pushReserve heap next
  if heap.capacity ≤ next then .ok (-12, heap)
  else if heap.size < heap.capacity then do
    let elts ← percolateUp less (heap.size + 1) heap.size (heap.elts ++ [ptr])
    .ok (0, { heap with elts })
  else .error .outside

def heapPop (less : Elt → Elt → Bool) (heap : Heap Elt) : Except Fault (Heap Elt) :=
  if heap.size < 1 then .ok heap
  else
    match heap.elts[heap.size - 1]? with
    | none => .error .outside
    | some last => do
        let elts ← percolateDown less (heap.size - 1) heap.size 0 (heap.elts.set 0 last)
        .ok { heap with elts := elts.dropLast }

def heapTop (heap : Heap Elt) : Option Elt :=
  heap.elts[0]?

def heapDrain (less : Elt → Elt → Bool) : (fuel : Nat) → Heap Elt → Except Fault (List Elt)
  | 0, _ => .error .fuel
  | fuel + 1, heap =>
    match heapTop heap with
    | none => .ok []
    | some top => do
        let heap ← heapPop less heap
        let rest ← heapDrain less fuel heap
        .ok (top :: rest)

/-! ## Order -/

variable {less : Elt → Elt → Bool} {elts front : List Elt} {heap : Heap Elt}

/-- No item comes before its parent. -/
def HeapOrder (less : Elt → Elt → Bool) (elts : List Elt) : Prop :=
  ∀ place item parent, 0 < place → elts[place]? = some item → elts[(place - 1) / 2]? = some parent →
    ¬less item parent = true

theorem lessAt_eq {first second : Nat} {one two : Elt} (here : elts[first]? = some one)
    (there : elts[second]? = some two) : lessAt less elts first second = .ok (less one two) := by
  rw [lessAt, here, there]

variable [IsStrictWeakOrder Elt fun first second => less first second = true]

theorem heapOrder_iff : HeapOrder less elts ↔ IsHeap (rank less) elts := by
  constructor
  · intro order
    refine ⟨fun place later item here parent above => ?_⟩
    exact (rank_le less).mpr (order place item parent later here above)
  · rintro ⟨edge⟩ place item parent later here above
    exact (rank_le less).mp (edge place later item here parent above)

theorem percolateUp_order {n : Nat} (order : UpOrder (rank less) elts n) (inside : n < elts.length)
    {fuel : Nat} (enough : n < fuel) :
    ∃ next, percolateUp less fuel n elts = .ok next ∧ next.Perm elts ∧ IsHeap (rank less) next := by
  induction fuel generalizing n elts with
  | zero => exact absurd enough (Nat.not_lt_zero _)
  | succ fuel ih =>
    rw [percolateUp]
    by_cases root : n = 0
    · rw [if_pos root]
      subst root
      exact ⟨elts, rfl, .rfl, ⟨fun place later => order.except place later (by omega)⟩⟩
    have above := List.getElem?_eq_getElem (by omega : (n - 1) / 2 < elts.length)
    have here := List.getElem?_eq_getElem inside
    rw [if_neg root]
    dsimp only
    rw [lessAt_eq above here, ok_bind]
    by_cases ordered : less elts[(n - 1) / 2] elts[n] = true
    · rw [if_pos ordered]
      refine ⟨elts, rfl, .rfl, ⟨fun place later => ?_⟩⟩
      by_cases atPlace : place = n
      · subst atPlace
        exact below_of_le here above ((rank_lt less).mpr ordered).le
      · exact order.except place later atPlace
    · rw [if_neg ordered]
      have swapped := order.swap (Nat.pos_of_ne_zero root) above here ((rank_le less).mpr ordered)
      obtain ⟨next, returned, perm, isHeap⟩ := ih swapped (by rw [swap_length]; omega) (by omega)
      exact ⟨next, returned, perm.trans (swap_perm ..), isHeap⟩

/-! ## Sifting down -/

theorem swap_append {first second : Nat} (one : first < front.length) (two : second < front.length)
    (rest : List Elt) : (front ++ rest).swap first second = front.swap first second ++ rest := by
  have length : (front ++ rest).length = front.length + rest.length := length_append
  rw [swap_eq_of_lt one two, swap_eq_of_lt (by omega) (by omega),
    getElem_append_left one, getElem_append_left two, set_append_left _ _ one,
    set_append_left _ _ (by rw [length_set]; exact two)]

theorem pickLess_eq {min : Nat} (inside : min < front.length) (c : Nat) (rest : List Elt) :
    pickLess less (front ++ rest) front.length c min =
      .ok (if smaller (rank less) front min c then c else min) := by
  have here := List.getElem?_eq_getElem inside
  rw [pickLess]
  by_cases bound : c < front.length
  · have there := List.getElem?_eq_getElem bound
    have tested : smaller (rank less) front min c = less front[c] front[min] := by
      rw [smaller, here, there]
      exact Bool.eq_iff_iff.mpr (decide_eq_true_iff.trans (rank_lt less))
    rw [if_pos bound, lessAt_eq ((List.getElem?_append_left bound).trans there)
      ((List.getElem?_append_left inside).trans here), ok_bind, tested]
  · have none : smaller (rank less) front min c = false := by
      rw [smaller, List.getElem?_eq_none (Nat.le_of_not_lt bound)]
      split
      · next found => cases found
      · rfl
    rw [if_neg bound, none]
    rfl

theorem smaller_inside {place child : Nat} (found : smaller (rank less) front place child = true) :
    child < front.length := by
  obtain ⟨-, other, -, there, -⟩ := smaller_iff.mp found
  exact (List.getElem?_eq_some_iff.mp there).1

theorem pick_inside {min c : Nat} (inside : min < front.length) :
    (if smaller (rank less) front min c then c else min) < front.length := by
  split
  · next found => exact smaller_inside found
  · exact inside

theorem percolateDown_eq (fuel n : Nat) (rest : List Elt) :
    percolateDown less front.length fuel n (front ++ rest) =
      (siftDown (rank less) fuel n front).map (· ++ rest) := by
  induction fuel generalizing n front with
  | zero => rfl
  | succ fuel ih =>
    rw [percolateDown, siftDown]
    by_cases inside : n < front.length
    · rw [if_pos inside, if_neg (Nat.not_le.mpr inside), pickLess_eq inside, ok_bind,
        pickLess_eq (pick_inside inside), ok_bind]
      change (if n = smallest (rank less) front n then _ else _) = _
      have bound : smallest (rank less) front n < front.length := pick_inside (pick_inside inside)
      by_cases same : smallest (rank less) front n = n
      · rw [if_pos same.symm, if_neg (not_not.mpr same)]
        rfl
      · rw [if_neg (Ne.symm same), if_pos same]
        change percolateDown less front.length fuel (smallest (rank less) front n)
          ((front ++ rest).swap (smallest (rank less) front n) n) = _
        rw [swap_append bound inside, ← ih, swap_length]
    · rw [if_neg inside, if_pos (Nat.le_of_not_lt inside)]
      rfl

/-! ## The two calls -/

theorem heapPush_order (order : HeapOrder less heap.elts) (small : heap.size + 1 < 2 ^ 30) (ptr : Elt) :
    ∃ next, heapPush less heap ptr = .ok (0, next) ∧ HeapOrder less next.elts ∧
      next.elts.Perm (ptr :: heap.elts) := by
  have one : intAdd heap.size 1 = .ok (heap.size + 1) := if_pos (by omega)
  have many : intAdd heap.size 2014 = .ok (heap.size + 2014) := if_pos (by omega)
  have inside : heap.elts.length < (heap.elts ++ [ptr]).length := by simp
  obtain ⟨elts, sifted, perm, isHeap⟩ := percolateUp_order ((heapOrder_iff.mp order).pushed ptr) inside
    (Nat.lt_succ_self heap.elts.length)
  obtain ⟨capacity, reserved, room⟩ : ∃ capacity,
      pushReserve heap (heap.size + 1) = .ok ⟨heap.elts, capacity⟩ ∧ heap.size + 1 < capacity := by
    by_cases full : heap.capacity ≤ heap.size + 1
    · refine ⟨heap.size + 2014, ?_, by omega⟩
      rw [pushReserve, if_pos full, many, ok_bind, heapReserve, if_pos (by omega)]
    · exact ⟨heap.capacity, if_neg full, by omega⟩
  refine ⟨⟨elts, capacity⟩, ?_, heapOrder_iff.mpr isHeap, perm.trans (perm_append_singleton _ _)⟩
  rw [heapPush, one, ok_bind, reserved, ok_bind]
  dsimp only
  rw [if_neg (by omega), if_pos (by change heap.size < capacity; omega)]
  change (percolateUp less (heap.elts.length + 1) heap.elts.length (heap.elts ++ [ptr]) >>= _) = _
  rw [sifted, ok_bind]

theorem heapPop_order {top : Elt} {rest : List Elt} (capacity : Nat)
    (order : HeapOrder less (top :: rest)) :
    ∃ next, heapPop less ⟨top :: rest, capacity⟩ = .ok next ∧ HeapOrder less next.elts ∧
      next.elts.Perm rest := by
  rcases eq_nil_or_concat rest with rfl | ⟨middle, last, rfl⟩
  · exact ⟨⟨[], capacity⟩, rfl, fun place item parent _ here _ => (by cases here), .rfl⟩
  · rw [concat_eq_append] at order ⊢
    have replaced : DownOrder (rank less) (last :: middle) 0 :=
      (heapOrder_iff.mp order).replaced (prefix_append middle [last])
    obtain ⟨next, sifted, perm, isHeap⟩ := replaced.siftDown (Nat.lt_succ_self (last :: middle).length)
    have size : (top :: (middle ++ [last])).length = (last :: middle).length + 1 := by simp
    have there : (top :: (middle ++ [last]))[(last :: middle).length + 1 - 1]? = some last := by simp
    have moved : percolateDown less (last :: middle).length ((last :: middle).length + 1) 0
        (last :: middle ++ [last]) = .ok (next ++ [last]) := by
      rw [percolateDown_eq, sifted]
      rfl
    refine ⟨⟨next, capacity⟩, ?_, heapOrder_iff.mpr isHeap, ?_⟩
    · rw [heapPop, Heap.size, if_neg (by simp), size, there]
      dsimp only
      rw [set_cons_zero]
      change (percolateDown less (last :: middle).length _ 0 (last :: middle ++ [last]) >>= _) = _
      rw [moved, ok_bind, dropLast_concat]
    · exact perm.trans (perm_append_singleton _ _).symm

/-! ## Runs -/

/-- The heaps that calls lead to, with sizes below `2 ^ 30`. -/
inductive Reachable (less : Elt → Elt → Bool) : Heap Elt → Prop
  | create : Reachable less heapCreate
  | push {heap next : Heap Elt} {ptr : Elt} {code : Int} (before : Reachable less heap)
      (small : heap.size + 1 < 2 ^ 30) (pushed : heapPush less heap ptr = .ok (code, next)) :
      Reachable less next
  | pop {heap next : Heap Elt} (before : Reachable less heap) (popped : heapPop less heap = .ok next) :
      Reachable less next

/-- What a call of `heap_pop` is to do: it takes away what `heap_top` returned before it. -/
def PopsTop (less : Elt → Elt → Bool) (heap : Heap Elt) : Prop :=
  ∃ next, heapPop less heap = .ok next ∧ HeapOrder less next.elts ∧
    match heapTop heap with
    | none => next = heap
    | some top => heap.elts.Perm (top :: next.elts)

theorem heapPop_pops (order : HeapOrder less heap.elts) : PopsTop less heap := by
  obtain ⟨elts, capacity⟩ := heap
  cases elts with
  | nil => exact ⟨⟨[], capacity⟩, rfl, order, rfl⟩
  | cons top rest =>
    obtain ⟨next, popped, nextOrder, perm⟩ := heapPop_order capacity order
    exact ⟨next, popped, nextOrder, perm.symm.cons top⟩

theorem reachable_order (reachable : Reachable less heap) : HeapOrder less heap.elts := by
  induction reachable with
  | create => exact fun place item parent _ here _ => nomatch here
  | push _ small pushed ih =>
    obtain ⟨next, same, order, -⟩ := heapPush_order ih small _
    obtain ⟨-, rfl⟩ := Prod.mk.inj (Except.ok.inj (pushed.symm.trans same))
    exact order
  | pop _ popped ih =>
    obtain ⟨next, same, order, -⟩ := heapPop_pops ih
    obtain rfl := Except.ok.inj (popped.symm.trans same)
    exact order

theorem heapDrain_sorted (order : HeapOrder less heap.elts) {fuel : Nat} (enough : heap.size < fuel) :
    ∃ popped, heapDrain less fuel heap = .ok popped ∧ popped.Perm heap.elts ∧
      popped.Pairwise fun earlier later => ¬less later earlier = true := by
  induction fuel generalizing heap with
  | zero => exact absurd enough (Nat.not_lt_zero _)
  | succ fuel ih =>
    obtain ⟨elts, capacity⟩ := heap
    cases elts with
    | nil => exact ⟨[], rfl, .rfl, .nil⟩
    | cons top rest =>
      obtain ⟨next, popped, nextOrder, perm⟩ := heapPop_order capacity order
      have size : next.elts.length = rest.length := perm.length_eq
      have bound : rest.length + 1 < fuel + 1 := enough
      obtain ⟨tail, drained, same, sorted⟩ := ih nextOrder (by change next.elts.length < fuel; omega)
      have whole : (top :: tail).Perm (top :: rest) := (same.trans perm).cons top
      refine ⟨top :: tail, ?_, whole, pairwise_cons.mpr ⟨?_, sorted⟩⟩
      · change (heapPop less ⟨top :: rest, capacity⟩ >>= _) = _
        rw [popped, ok_bind, drained, ok_bind]
      · intro later member
        exact (rank_le less).mp ((heapOrder_iff.mp order).le_of_mem
          (whole.subset (mem_cons_of_mem top member)))

/-- Behind every run of calls the heap is a priority queue. -/
theorem heap_priorityQueue (reachable : Reachable less heap) :
    HeapOrder less heap.elts ∧
    (∀ ptr, heap.size + 1 < 2 ^ 30 → ∃ next, heapPush less heap ptr = .ok (0, next) ∧
      HeapOrder less next.elts ∧ next.elts.Perm (ptr :: heap.elts)) ∧
    PopsTop less heap ∧
    ∃ popped, heapDrain less (heap.size + 1) heap = .ok popped ∧ popped.Perm heap.elts ∧
      popped.Pairwise fun earlier later => ¬less later earlier = true := by
  have order := reachable_order reachable
  exact ⟨order, fun ptr small => heapPush_order order small ptr, heapPop_pops order,
    heapDrain_sorted order (Nat.lt_succ_self _)⟩

/-- Numbers with ties between an even one and the next. -/
def lessHalf (first second : Nat) : Bool :=
  decide (first / 2 < second / 2)

instance : IsStrictWeakOrder Nat fun first second => lessHalf first second = true where
  irrefl number := by simp [lessHalf]
  trans first second third := by
    simp only [lessHalf, decide_eq_true_iff]
    omega
  incomp_trans first second third := by
    simp only [lessHalf, decide_eq_true_iff]
    omega

/-- Two items of which none is less than the other. -/
theorem heap_priorityQueue_tie :
    HeapOrder lessHalf [6, 7] ∧ PopsTop lessHalf ⟨[6, 7], 2014⟩ := by
  have first : heapPush lessHalf heapCreate 7 = .ok (0, ⟨[7], 2014⟩) := by
    simp [heapPush, heapCreate, intAdd, Heap.size, pushReserve, heapReserve, percolateUp, ok_bind]
  have second : heapPush lessHalf ⟨[7], 2014⟩ 6 = .ok (0, ⟨[6, 7], 2014⟩) := by
    simp [heapPush, intAdd, Heap.size, pushReserve, percolateUp, lessAt, lessHalf, ok_bind]
  have reached : Reachable lessHalf ⟨[6, 7], 2014⟩ :=
    .push (.push .create (by decide) first) (by decide) second
  exact ⟨(heap_priorityQueue reached).1, (heap_priorityQueue reached).2.2.1⟩

end CLibs.Heaps
