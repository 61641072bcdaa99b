import CLibs.CheckedBuffers
import CLibs.RingCounters

/-!
# Rings of equal elements in a buffer

A buffer of bytes used as a ring of `capacity` elements of `esize` bytes.
`RingHolds` says which elements stand from a position on, counted in elements
and taken around the end of the ring.  Elements are stored and read in two
pieces: up to the end of the ring, and from its beginning.
-/

namespace CLibs

open List

namespace Buffer

open List

variable {Cell : Type}

/-- The elements stand in the ring, the first one at `head`. -/
def RingHolds (buffer : Buffer Cell) (esize capacity head : Nat) (items : List (List Cell)) :
    Prop :=
  ∀ index item, items[index]? = some item →
    buffer.Holds ((head + index) % capacity * esize) item

section Elements

variable {esize : Nat} {items : List (List Cell)}

theorem flatten_length (sized : ∀ item ∈ items, item.length = esize) :
    items.flatten.length = items.length * esize := by
  induction items with
  | nil => rw [length_nil, Nat.zero_mul, flatten_nil, length_nil]
  | cons item items ih =>
    rw [flatten_cons, length_append, sized item mem_cons_self,
      ih (forall_mem_cons.mp sized).2,
      length_cons, Nat.succ_mul, Nat.add_comm]

theorem flatten_take (sized : ∀ item ∈ items, item.length = esize) (count : Nat) :
    items.flatten.take (count * esize) = (items.take count).flatten := by
  induction items generalizing count with
  | nil => rw [flatten_nil, take_nil, take_nil, flatten_nil]
  | cons item items ih =>
    have rest : ∀ other ∈ items, other.length = esize := (forall_mem_cons.mp sized).2
    cases count with
    | zero => rw [Nat.zero_mul, take_zero, take_zero, flatten_nil]
    | succ count =>
      have length : (count + 1) * esize = item.length + count * esize := by
        rw [sized item mem_cons_self, Nat.succ_mul, Nat.add_comm]
      rw [flatten_cons, take_succ_cons, flatten_cons, length,
        take_length_add_append, ih rest]

theorem flatten_drop (sized : ∀ item ∈ items, item.length = esize) (count : Nat) :
    items.flatten.drop (count * esize) = (items.drop count).flatten := by
  have whole : (items.take count).flatten ++ items.flatten.drop (count * esize) =
      (items.take count).flatten ++ (items.drop count).flatten := by
    rw [← flatten_take sized, take_append_drop, flatten_take sized,
      ← flatten_append, take_append_drop]
  exact append_cancel_left whole

theorem holds_flatten {buffer : Buffer Cell} {position : Nat}
    (sized : ∀ item ∈ items, item.length = esize) (fits : position ≤ buffer.size) :
    buffer.Holds position items.flatten ↔
      ∀ index item, items[index]? = some item → buffer.Holds (position + index * esize) item := by
  induction items generalizing position with
  | nil => exact ⟨fun _ index item found => (nomatch found), fun _ => holds_nil fits⟩
  | cons item items ih =>
    have size := sized item mem_cons_self
    have rest : ∀ other ∈ items, other.length = esize := (forall_mem_cons.mp sized).2
    rw [flatten_cons, holds_append, size]
    constructor
    · rintro ⟨first, later⟩ index other found
      cases index with
      | zero =>
        obtain rfl := Option.some.inj found
        rw [Nat.zero_mul, Nat.add_zero]
        exact first
      | succ index =>
        have inside := first.fits
        rw [size] at inside
        have here := (ih rest inside).mp later index other found
        rw [Nat.succ_mul, Nat.add_comm (index * esize), ← Nat.add_assoc]
        exact here
    · intro every
      have first : buffer.Holds position item := by
        have here := every 0 item rfl
        rw [Nat.zero_mul, Nat.add_zero] at here
        exact here
      have inside := first.fits
      rw [size] at inside
      refine ⟨first, (ih rest inside).mpr fun index other found => ?_⟩
      have here := every (index + 1) other found
      rw [Nat.succ_mul, Nat.add_comm (index * esize), ← Nat.add_assoc] at here
      exact here

end Elements

/-! ## Going around the end -/

section Ring

variable {esize capacity head : Nat} {items queue : List (List Cell)} {buffer : Buffer Cell}

theorem RingHolds.congr {other : Nat} (holds : buffer.RingHolds esize capacity head items)
    (same : head % capacity = other % capacity) :
    buffer.RingHolds esize capacity other items := by
  intro index item found
  rw [Nat.add_mod, ← same, ← Nat.add_mod]
  exact holds index item found

theorem ringHolds_append {more : List (List Cell)} :
    buffer.RingHolds esize capacity head (items ++ more) ↔
      buffer.RingHolds esize capacity head items ∧
        buffer.RingHolds esize capacity (head + items.length) more := by
  constructor
  · intro holds
    constructor
    · intro index item found
      have bound := (List.getElem?_eq_some_iff.mp found).1
      exact holds index item (by rw [List.getElem?_append_left bound]; exact found)
    · intro index item found
      rw [Nat.add_assoc]
      apply holds
      rw [List.getElem?_append_right (Nat.le_add_right _ _), Nat.add_sub_cancel_left]
      exact found
  · rintro ⟨first, second⟩ index item found
    rcases Nat.lt_or_ge index items.length with before | after
    · rw [List.getElem?_append_left before] at found
      exact first index item found
    · rw [List.getElem?_append_right after] at found
      have here := second (index - items.length) item found
      rw [Nat.add_assoc, Nat.add_sub_cancel' after] at here
      exact here

/-- How many elements fit before the end of the ring. -/
def ringPiece (capacity slot count : Nat) : Nat := min count (capacity - slot)

/-- The buffer after the elements were stored in two pieces. -/
def ringWritten (buffer : Buffer Cell) (esize capacity slot : Nat) (items : List (List Cell)) :
    Buffer Cell :=
  let piece := ringPiece capacity slot items.length
  (buffer.written (slot * esize) (items.take piece).flatten).written 0 (items.drop piece).flatten

variable {slot : Nat}

theorem take_sized (sized : ∀ item ∈ items, item.length = esize) (count : Nat) :
    ∀ item ∈ items.take count, item.length = esize :=
  fun item member => sized item (mem_of_mem_take member)

theorem drop_sized (sized : ∀ item ∈ items, item.length = esize) (count : Nat) :
    ∀ item ∈ items.drop count, item.length = esize :=
  fun item member => sized item (mem_of_mem_drop member)

theorem ringPiece_fits (sized : ∀ item ∈ items, item.length = esize) (inside : slot < capacity)
    (short : items.length ≤ capacity) (size : capacity * esize ≤ buffer.size) :
    slot * esize + (items.take (ringPiece capacity slot items.length)).flatten.length ≤
        buffer.size ∧
      0 + (items.drop (ringPiece capacity slot items.length)).flatten.length ≤ buffer.size := by
  rw [flatten_length (take_sized sized _), flatten_length (drop_sized sized _), length_take,
    length_drop, ← Nat.add_mul, Nat.zero_add]
  unfold ringPiece
  constructor
  · exact Nat.le_trans (Nat.mul_le_mul_right esize (by omega)) size
  · exact Nat.le_trans (Nat.mul_le_mul_right esize (by omega)) size

theorem ringWritten_holds (sized : ∀ item ∈ items, item.length = esize) (inside : slot < capacity)
    (short : items.length ≤ capacity) (size : capacity * esize ≤ buffer.size) :
    (buffer.ringWritten esize capacity slot items).RingHolds esize capacity slot items := by
  obtain ⟨firstFits, secondFits⟩ := ringPiece_fits sized inside short size
  intro index item found
  have bound := (List.getElem?_eq_some_iff.mp found).1
  rw [add_mod_ring inside (by omega)]
  dsimp only [ringWritten]
  generalize pieceEq : ringPiece capacity slot items.length = piece at firstFits secondFits ⊢
  unfold ringPiece at pieceEq
  split
  · rename_i straight
    have first := written_holds buffer _ firstFits
    rw [holds_flatten (take_sized sized _) (by simp only [written_size]; omega)] at first
    have here := first index item (by rw [List.getElem?_take_of_lt (by omega)]; exact found)
    rw [← Nat.add_mul] at here
    apply here.written
    right
    rw [flatten_length (drop_sized sized _), length_drop, Nat.zero_add]
    exact Nat.mul_le_mul_right esize (by omega)
  · rename_i around
    have second := written_holds (buffer.written (slot * esize) (items.take piece).flatten) _
      secondFits
    rw [holds_flatten (drop_sized sized _) (Nat.zero_le _)] at second
    have here := second (index - piece) item (by
      rw [List.getElem?_drop, Nat.add_sub_cancel' (by omega)]
      exact found)
    have place : index - piece = slot + index - capacity := by omega
    rw [Nat.zero_add, place] at here
    exact here

theorem RingHolds.ringWritten (holds : buffer.RingHolds esize capacity head queue)
    (sized : ∀ item ∈ items, item.length = esize)
    (queueSized : ∀ item ∈ queue, item.length = esize) (inside : slot < capacity)
    (room : queue.length + items.length ≤ capacity)
    (behind : (head + queue.length) % capacity = slot) :
    (buffer.ringWritten esize capacity slot items).RingHolds esize capacity head queue := by
  intro index item found
  have bound := (List.getElem?_eq_some_iff.mp found).1
  have itemSize := queueSized item (mem_of_getElem? found)
  have first : head % capacity < capacity := Nat.mod_lt _ (by omega)
  have here := holds index item found
  rw [← Nat.mod_add_mod, add_mod_ring first (by omega)] at here ⊢
  rw [← Nat.mod_add_mod, add_mod_ring first (by omega)] at behind
  dsimp only [Buffer.ringWritten]
  generalize pieceEq : ringPiece capacity slot items.length = piece
  unfold ringPiece at pieceEq
  generalize placeEq : (if head % capacity + index < capacity then head % capacity + index
    else head % capacity + index - capacity) = place at here ⊢
  have outside : (place + 1 ≤ slot ∨ slot + piece ≤ place) ∧ items.length - piece ≤ place := by
    split at placeEq <;> split at behind <;> omega
  have place_end : place * esize + item.length = (place + 1) * esize := by
    rw [itemSize, Nat.succ_mul]
  apply Holds.written
  · apply here.written
    rw [flatten_length (take_sized sized _), length_take, place_end, ← Nat.add_mul]
    rcases outside.1 with before | after
    · exact .inl (Nat.mul_le_mul_right esize before)
    · exact .inr (Nat.mul_le_mul_right esize (by omega))
  · right
    rw [flatten_length (drop_sized sized _), length_drop, Nat.zero_add]
    exact Nat.mul_le_mul_right esize outside.2

/-- A run of items is at most two pieces of the buffer. -/
theorem RingHolds.pieces (holds : buffer.RingHolds esize capacity slot items)
    (sized : ∀ item ∈ items, item.length = esize) (inside : slot < capacity)
    (short : items.length ≤ capacity) (size : capacity * esize ≤ buffer.size) :
    buffer.Holds (slot * esize) (items.take (ringPiece capacity slot items.length)).flatten ∧
      buffer.Holds 0 (items.drop (ringPiece capacity slot items.length)).flatten := by
  have slotFits : slot * esize ≤ buffer.size :=
    Nat.le_trans (Nat.mul_le_mul_right esize (Nat.le_of_lt inside)) size
  generalize pieceEq : ringPiece capacity slot items.length = piece
  unfold ringPiece at pieceEq
  constructor
  · rw [holds_flatten (take_sized sized _) slotFits]
    intro index item found
    have bound := (List.getElem?_eq_some_iff.mp found).1
    rw [length_take] at bound
    rw [List.getElem?_take_of_lt (by omega)] at found
    have here := holds index item found
    rw [Nat.mod_eq_of_lt (by omega)] at here
    rw [← Nat.add_mul]
    exact here
  · rw [holds_flatten (drop_sized sized _) (Nat.zero_le _)]
    intro index item found
    have bound := (List.getElem?_eq_some_iff.mp found).1
    rw [length_drop] at bound
    rw [List.getElem?_drop] at found
    have here := holds (piece + index) item found
    rw [add_mod_ring inside (by omega), if_neg (by omega)] at here
    have place : slot + (piece + index) - capacity = index := by omega
    rw [place] at here
    rw [Nat.zero_add]
    exact here

end Ring

end Buffer

end CLibs
