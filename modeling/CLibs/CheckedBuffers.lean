import CLibs.FaultingPrograms
import Mathlib.Data.List.Basic

/-!
# Buffers with checked accesses

A buffer of a fixed size whose cells may not have been written yet.  Every access is checked: one
that leaves the buffer, or that reads a cell nobody has written, is a fault.  `Holds` says which
bytes stand from a position on.
-/

namespace CLibs

open List

/-- A block of memory, of which a cell that nobody has written is `none`. -/
structure Buffer (Cell : Type) where
  size : Nat
  cells : Nat → Option Cell

namespace Buffer

open List

variable {Cell : Type}

def alloc (size : Nat) : Buffer Cell := ⟨size, fun _ => none⟩

def written (buffer : Buffer Cell) (position : Nat) (bytes : List Cell) : Buffer Cell where
  size := buffer.size
  cells := fun index =>
    if position ≤ index ∧ index < position + bytes.length then bytes[index - position]?
    else buffer.cells index

def moved (buffer : Buffer Cell) (target source length : Nat) : Buffer Cell where
  size := buffer.size
  cells := fun index =>
    if target ≤ index ∧ index < target + length then buffer.cells (source + (index - target))
    else buffer.cells index

def load (buffer : Buffer Cell) (position : Nat) : Except Fault Cell :=
  if position < buffer.size then
    (buffer.cells position).elim (.error .unwritten) .ok
  else .error .outside

def store (buffer : Buffer Cell) (position : Nat) (bytes : List Cell) :
    Except Fault (Buffer Cell) :=
  if position + bytes.length ≤ buffer.size then .ok (buffer.written position bytes)
  else .error .outside

def storeIf (buffer : Buffer Cell) (condition : Prop) [Decidable condition] (position : Nat)
    (bytes : List Cell) : Except Fault (Buffer Cell) :=
  if condition then buffer.store position bytes else .ok buffer

def move (buffer : Buffer Cell) (target source length : Nat) : Except Fault (Buffer Cell) :=
  if target + length ≤ buffer.size ∧ source + length ≤ buffer.size then
    .ok (buffer.moved target source length)
  else .error .outside

def modify (buffer : Buffer Cell) (position : Nat) (change : Cell → Cell) :
    Except Fault (Buffer Cell) :=
  (buffer.load position).bind fun cell => buffer.store position [change cell]

def read (buffer : Buffer Cell) (position length : Nat) : Except Fault (List Cell) :=
  (List.range length).mapM fun index => buffer.load (position + index)

def contents (buffer : Buffer Cell) : Except Fault (List Cell) :=
  (List.range buffer.size).mapM buffer.load

@[simp] theorem alloc_size (size : Nat) : (alloc size : Buffer Cell).size = size := rfl

@[simp] theorem written_size (buffer : Buffer Cell) (position : Nat) (bytes : List Cell) :
    (buffer.written position bytes).size = buffer.size := rfl

@[simp] theorem moved_size (buffer : Buffer Cell) (target source length : Nat) :
    (buffer.moved target source length).size = buffer.size := rfl

/-- From `position` on the buffer has these bytes. -/
structure Holds (buffer : Buffer Cell) (position : Nat) (bytes : List Cell) : Prop where
  fits : position + bytes.length ≤ buffer.size
  cell : ∀ index < bytes.length, buffer.cells (position + index) = bytes[index]?

variable {buffer : Buffer Cell} {position : Nat} {bytes : List Cell}

theorem store_eq (fits : position + bytes.length ≤ buffer.size) :
    buffer.store position bytes = .ok (buffer.written position bytes) :=
  if_pos fits

variable {target source length : Nat}

theorem move_eq (fits : target + length ≤ buffer.size) (inside : source + length ≤ buffer.size) :
    buffer.move target source length = .ok (buffer.moved target source length) :=
  if_pos ⟨fits, inside⟩

theorem holds_nil (fits : position ≤ buffer.size) :
    buffer.Holds position [] :=
  ⟨fits, fun index bound => absurd bound (Nat.not_lt_zero index)⟩

theorem holds_append {buffer : Buffer Cell} {position : Nat} {first second : List Cell} :
    buffer.Holds position (first ++ second) ↔
      buffer.Holds position first ∧ buffer.Holds (position + first.length) second := by
  constructor
  · intro holds
    have fits := holds.fits
    rw [length_append] at fits
    refine ⟨⟨by omega, fun index bound => ?_⟩, ⟨by omega, fun index bound => ?_⟩⟩
    · rw [holds.cell index (by rw [length_append]; omega), List.getElem?_append_left bound]
    · have cell := holds.cell (first.length + index) (by rw [length_append]; omega)
      rw [List.getElem?_append_right (Nat.le_add_right _ _), Nat.add_sub_cancel_left] at cell
      rw [Nat.add_assoc, cell]
  · rintro ⟨left, right⟩
    have fits := right.fits
    refine ⟨by rw [length_append]; omega, fun index bound => ?_⟩
    rw [length_append] at bound
    rcases Nat.lt_or_ge index first.length with before | after
    · rw [left.cell index before, List.getElem?_append_left before]
    · have cell := right.cell (index - first.length) (by omega)
      rw [List.getElem?_append_right after, ← cell, Nat.add_assoc, Nat.add_sub_cancel' after]

theorem Holds.append {behind : Nat} {first second : List Cell} (left : buffer.Holds position first)
    (right : buffer.Holds behind second) (next : behind = position + first.length) :
    buffer.Holds position (first ++ second) := by
  subst next
  exact holds_append.mpr ⟨left, right⟩

theorem written_holds (buffer : Buffer Cell) (bytes : List Cell)
    (fits : position + bytes.length ≤ buffer.size) :
    (buffer.written position bytes).Holds position bytes := by
  refine ⟨fits, fun index bound => ?_⟩
  simp only [written]
  rw [if_pos (by omega), Nat.add_sub_cancel_left]

theorem Holds.written {more : List Cell} (holds : buffer.Holds position bytes)
    (outside : position + bytes.length ≤ target ∨ target + more.length ≤ position) :
    (buffer.written target more).Holds position bytes := by
  refine ⟨holds.fits, fun index bound => ?_⟩
  simp only [Buffer.written]
  rw [if_neg (by omega), holds.cell index bound]

theorem Holds.extend {buffer : Buffer Cell} {position target : Nat} {bytes : List Cell}
    (holds : buffer.Holds position bytes) (more : List Cell)
    (next : target = position + bytes.length) (fits : target + more.length ≤ buffer.size) :
    (buffer.written target more).Holds position (bytes ++ more) := by
  exact (holds.written (.inl (Nat.le_of_eq next.symm))).append (written_holds buffer more fits) next

theorem Holds.set_cell (holds : buffer.Holds position bytes) (cell : Cell)
    (inside : position ≤ target) :
    (buffer.written target [cell]).Holds position (bytes.set (target - position) cell) := by
  refine ⟨by rw [length_set]; exact holds.fits, fun index bound => ?_⟩
  rw [length_set] at bound
  simp only [Buffer.written, length_singleton]
  rcases eq_or_ne (target - position) index with here | elsewhere
  · subst here
    rw [if_pos (by omega), List.getElem?_set_self bound, Nat.add_sub_cancel' inside, Nat.sub_self]
    rfl
  · rw [if_neg (by omega), List.getElem?_set_ne elsewhere, holds.cell index bound]

theorem Holds.moved_target (holds : buffer.Holds source bytes) (whole : length = bytes.length)
    (fits : target + length ≤ buffer.size) :
    (buffer.moved target source length).Holds target bytes := by
  subst whole
  refine ⟨fits, fun index bound => ?_⟩
  simp only [moved]
  rw [if_pos (by omega), Nat.add_sub_cancel_left, holds.cell index bound]

theorem Holds.moved_outside (holds : buffer.Holds position bytes)
    (outside : position + bytes.length ≤ target ∨ target + length ≤ position) :
    (buffer.moved target source length).Holds position bytes := by
  refine ⟨holds.fits, fun index bound => ?_⟩
  simp only [moved]
  rw [if_neg (by omega), holds.cell index bound]

theorem Holds.load_eq {buffer : Buffer Cell} {position place : Nat} {bytes : List Cell} {cell : Cell}
    (holds : buffer.Holds position bytes) (inside : position ≤ place)
    (found : bytes[place - position]? = some cell) : buffer.load place = .ok cell := by
  obtain ⟨bound, -⟩ := List.getElem?_eq_some_iff.mp found
  have known := holds.cell (place - position) bound
  have fits := holds.fits
  rw [Nat.add_sub_cancel' inside, found] at known
  simp only [load]
  rw [if_pos (by omega), known]
  rfl

theorem Holds.modify_eq {place : Nat} {cell : Cell} {change : Cell → Cell}
    (holds : buffer.Holds position bytes) (inside : position ≤ place)
    (found : bytes[place - position]? = some cell) :
    buffer.modify place change = .ok (buffer.written place [change cell]) := by
  obtain ⟨bound, -⟩ := List.getElem?_eq_some_iff.mp found
  have fits := holds.fits
  simp only [modify, holds.load_eq inside found, Except.bind]
  exact store_eq (by simp only [length_singleton]; omega)

theorem Holds.read_eq (holds : buffer.Holds position bytes) (whole : length = bytes.length) :
    buffer.read position length = .ok bytes := by
  have loaded : ∀ count ≤ bytes.length,
      (List.range count).mapM (fun index => buffer.load (position + index)) =
        .ok (bytes.take count) := by
    intro count
    induction count with
    | zero => intro _; rfl
    | succ count ih =>
      intro bound
      have inside : count < bytes.length := bound
      have found : bytes[position + count - position]? = some bytes[count] := by
        rw [Nat.add_sub_cancel_left]
        exact List.getElem?_eq_getElem inside
      rw [range_succ, mapM_append, ih (by omega)]
      simp only [mapM_cons, mapM_nil, holds.load_eq (Nat.le_add_right _ _) found]
      rw [take_add_one, List.getElem?_eq_getElem inside]
      rfl
  rw [read, whole, loaded bytes.length (Nat.le_refl _), take_length]

theorem Holds.contents_eq (holds : buffer.Holds 0 bytes) (whole : bytes.length = buffer.size) :
    buffer.contents = .ok bytes := by
  have known := holds.read_eq whole.symm
  simp only [read, Nat.zero_add] at known
  exact known

end Buffer

end CLibs
