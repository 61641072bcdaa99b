import CLibs.CheckedBuffers
import Mathlib.Algebra.Group.Int.Defs
import Mathlib.Algebra.GroupWithZero.Nat
import Mathlib.Data.List.TakeWhile

/-!
# The query splitter of `uri-query.c`

Model of `uri_query`.  A query is a position in a string, which is given by its characters without
the terminating NUL; `finish` is the end pointer.  The searches run to the end of the string.  The
first 64 items are collected in an array of the function, the others in one that is reallocated by
64 items at a time; the allocator is a parameter.
-/

namespace CLibs.Uris

open List

def ampersand : UInt8 := 0x26
def equals : UInt8 := 0x3d

/-- `strpbrk` from a position on: the first character out of a set. -/
def strpbrk (text accept : List UInt8) (position : Nat) : Option Nat :=
  let skipped := (text.drop position).takeWhile fun c => !accept.contains c
  if position + skipped.length < text.length then some (position + skipped.length) else none

def strchr (text : List UInt8) (c : UInt8) (position : Nat) : Option Nat :=
  strpbrk text [c] position

/-- A pointer difference as an `int`. -/
def asInt (difference : Int) : Int := Int.bmod difference (2 ^ 32)

def intMax : Int := 2147483647

structure QueryItem where
  name : Nat
  nName : Int
  value : Option Nat
  nValue : Int
  deriving DecidableEq

/-- `N`, the number of items in the array of the function. -/
def itemsN : Nat := 64

structure QueryStore where
  count : Int
  capacity : Int
  items0 : Buffer QueryItem
  items : Option (Buffer QueryItem)

def emptyStore : QueryStore := ⟨0, 0, Buffer.alloc itemsN, none⟩

/-- `realloc`: the cells of the old array are kept. -/
def reallocItems (items : Option (Buffer QueryItem)) (size : Nat) : Buffer QueryItem where
  size := size
  cells := fun index =>
    items.bind fun old => if index < old.size then old.cells index else none

/-- The array behind the first 64 items, with room for another one; none when there is no
memory. -/
def growItems (available : Nat → Bool) (store : QueryStore) : Except Fault (Option QueryStore) :=
  if store.count ≥ store.capacity then do
    check (store.count + 64 ≤ intMax)
    let capacity := store.count + 64
    if available capacity.toNat then
      return some { store with
        capacity := capacity, items := some (reallocItems store.items capacity.toNat) }
    else return none
  else return some store

def nextItem (available : Nat → Bool) (store : QueryStore) (item : QueryItem) :
    Except Fault (Option QueryStore) :=
  if store.count < itemsN then do
    let items0 ← store.items0.store store.count.toNat [item]
    return some { store with count := store.count + 1, items0 := items0 }
  else do
    match ← growItems available store with
    | none => return none
    | some store =>
      match store.items with
      | none => .error .outside
      | some items => do
          check (store.count + 1 ≤ intMax)
          let items ← items.store store.count.toNat [item]
          return some { store with count := store.count + 1, items := some items }

/-- The item that starts at `query` and whose name ends at the separator `p`, and the separator or
end behind it. -/
def queryItem (text : List UInt8) (finish query p : Nat) : QueryItem × Nat :=
  if text[p]? = some equals then
    let behind := (strchr text ampersand (p + 1)).getD finish
    (⟨query, asInt (p - query), some (p + 1), asInt ((behind : Int) - ((p + 1 : Nat) : Int))⟩, behind)
  else (⟨query, asInt (p - query), none, 0⟩, p)

/-- How the loop ends: with a `return` or with the items for what follows. -/
inductive QueryEnd
  | returns (code : Int) (items : Option (Buffer QueryItem))
  | breaks (store : QueryStore)

def enomem : Int := 12

/-- The loop of `uri_query`; `strpbrk` never gives the position of the NUL, so its assertion
holds. -/
def uriQueryLoop (available : Nat → Bool) (text : List UInt8) (finish : Nat) :
    Nat → Nat → Nat → QueryStore → Except Fault QueryEnd
  | 0, p, _, store => if p < finish then .error .fuel else .ok (.breaks store)
  | fuel + 1, p, query, store =>
    if p < finish then
      match strpbrk text [ampersand, equals] query with
      | none => .ok (.breaks store)
      | some p =>
        if finish < p then .ok (.breaks store)
        else if p = query then
          if text[p]? = some ampersand then
            uriQueryLoop available text finish fuel p (p + 1) store
          else .ok (.returns (-1) none)
        else do
          match ← nextItem available store (queryItem text finish query p).1 with
          | none => .ok (.returns (-enomem) store.items)
          | some store =>
            uriQueryLoop available text finish fuel (queryItem text finish query p).2
              ((queryItem text finish query p).2 + 1) store
    else .ok (.breaks store)

/-- The items are handed over in one array. -/
def collectItems (available : Nat → Bool) (store : QueryStore) :
    Except Fault (Int × Option (Buffer QueryItem)) :=
  if store.count ≤ itemsN ∧ 0 < store.count then
    if available store.count.toNat then do
      let first ← store.items0.read 0 store.count.toNat
      let items ← (Buffer.alloc store.count.toNat).store 0 first
      return (store.count, some items)
    else return (-enomem, none)
  else if itemsN < store.count then do
    let first ← store.items0.read 0 itemsN
    match store.items with
    | none => .error .outside
    | some items => do
        let items ← items.store 0 first
        return (store.count, some items)
  else return (store.count, store.items)

/-- `uri_query` of the string from position 0 on: its result and `*items`. -/
def uriQuery (available : Nat → Bool) (text : List UInt8) (finish : Nat) :
    Except Fault (Int × Option (Buffer QueryItem)) := do
  match ← uriQueryLoop available text finish (finish + 1) 0 0 emptyStore with
  | .returns code items => return (code, items)
  | .breaks store => collectItems available store

/-! ## The items as a list -/

section Store

variable {available : Nat → Bool} {store : QueryStore} {done : List QueryItem} {item : QueryItem}

/-- The room of the second array for this many items: it grows by 64. -/
def roomFor (count : Nat) : Nat := if count ≤ itemsN then 0 else (count + 63) / 64 * 64

structure Stored (store : QueryStore) (done : List QueryItem) : Prop where
  count : store.count = done.length
  size0 : store.items0.size = itemsN
  first : store.items0.Holds 0 (done.take itemsN)
  capacity : store.capacity = roomFor done.length
  rest : itemsN < done.length → ∃ items, store.items = some items ∧
    items.size = roomFor done.length ∧ items.Holds itemsN (done.drop itemsN)
  bare : done.length ≤ itemsN → store.items = none

theorem emptyStore_stored : Stored emptyStore [] where
  count := rfl
  size0 := rfl
  first := Buffer.holds_nil (Nat.zero_le _)
  capacity := rfl
  rest := fun more => absurd more (by decide)
  bare := fun _ => rfl

/-- The most items that can be counted: there the capacity would exceed an `int`. -/
def itemLimit : Nat := 2147483584

theorem roomFor_ge {count : Nat} (many : itemsN < count) : count ≤ roomFor count := by
  unfold roomFor itemsN at *
  rw [if_neg (by omega)]
  omega

theorem roomFor_succ {count : Nat} (many : itemsN ≤ count) :
    roomFor (count + 1) = if roomFor count ≤ count then count + 64 else roomFor count := by
  unfold roomFor itemsN at *
  split <;> split <;> split <;> omega

theorem reallocItems_holds {items : Buffer QueryItem} {size position : Nat}
    {cells : List QueryItem} (holds : items.Holds position cells) (grows : items.size ≤ size) :
    (reallocItems (some items) size).Holds position cells := by
  have fits := holds.fits
  refine ⟨Nat.le_trans fits grows, fun index bound => ?_⟩
  rw [← holds.cell index bound]
  exact if_pos (by omega)

theorem growItems_stored (memory : ∀ size, available size = true) (stored : Stored store done)
    (many : itemsN ≤ done.length) (fewer : done.length < itemLimit) :
    ∃ capacity items, growItems available store =
        .ok (some { store with capacity := capacity, items := some items }) ∧
      capacity = roomFor (done.length + 1) ∧ items.size = roomFor (done.length + 1) ∧
      items.Holds itemsN (done.drop itemsN) := by
  have grown := roomFor_succ many
  unfold growItems
  rw [stored.count, stored.capacity]
  by_cases full : roomFor done.length ≤ done.length
  · rw [if_pos full] at grown
    have small : (done.length : Int) + 64 ≤ intMax := by
      unfold roomFor itemLimit itemsN at *
      unfold intMax
      split at full <;> omega
    have asNat : ((done.length : Int) + 64).toNat = done.length + 64 := by omega
    rw [if_pos (by omega), check_eq small, ok_bind, if_pos (memory _), asNat, grown]
    refine ⟨_, reallocItems store.items (done.length + 64), rfl, by omega, rfl, ?_⟩
    rcases Nat.lt_or_eq_of_le many with more | exact
    · obtain ⟨items, kept, size, holds⟩ := stored.rest more
      rw [kept]
      exact reallocItems_holds holds (by omega)
    · have none : done.drop itemsN = [] := by rw [exact, drop_length]
      rw [none]
      refine Buffer.holds_nil ?_
      simp only [reallocItems]
      omega
  · rw [if_neg full] at grown
    have more : itemsN < done.length := by
      unfold roomFor at full
      split at full <;> omega
    obtain ⟨items, kept, size, holds⟩ := stored.rest more
    rw [if_neg (by omega), grown]
    refine ⟨store.capacity, items, ?_, stored.capacity, size, holds⟩
    rw [← stored.count, ← kept]
    rfl

theorem nextItem_stored (memory : ∀ size, available size = true) (stored : Stored store done)
    (fewer : done.length < itemLimit) :
    ∃ store', nextItem available store item = .ok (some store') ∧
      Stored store' (done ++ [item]) := by
  unfold nextItem
  rw [stored.count]
  by_cases few : done.length < itemsN
  · have whole : done.take itemsN = done := take_of_length_le (Nat.le_of_lt few)
    have all : (done ++ [item]).take itemsN = done ++ [item] :=
      take_of_length_le (by rw [length_append, length_singleton]; exact few)
    have holds := stored.first
    rw [whole] at holds
    have fits : done.length + [item].length ≤ store.items0.size := by
      rw [stored.size0]
      exact few
    rw [if_pos (by omega), Int.toNat_natCast, Buffer.store_eq fits, ok_bind]
    refine ⟨_, rfl, ?_, stored.size0, ?_, ?_, fun more => ?_, fun _ => stored.bare (by omega)⟩
    · rw [length_append]
      rfl
    · rw [all]
      exact holds.extend [item] (Nat.zero_add _).symm fits
    · have before := stored.capacity
      unfold roomFor at before ⊢
      rw [if_pos (by omega)] at before
      rw [if_pos (by rw [length_append, length_singleton]; omega)]
      exact before
    · rw [length_append, length_singleton] at more
      omega
  · have many : itemsN ≤ done.length := Nat.le_of_not_lt few
    obtain ⟨capacity, items, grown, room, size, holds⟩ := growItems_stored memory stored many fewer
    have small : (done.length : Int) + 1 ≤ intMax := by
      unfold itemLimit at fewer
      unfold intMax
      omega
    have enough := @roomFor_ge (done.length + 1) (by omega)
    have fits : done.length + [item].length ≤ items.size := by
      rw [size]
      exact enough
    have next : done.length = itemsN + (done.drop itemsN).length := by
      rw [length_drop]
      omega
    rw [if_neg (by omega), grown, ok_bind]
    simp only [stored.count]
    rw [check_eq small, ok_bind, Int.toNat_natCast, Buffer.store_eq fits, ok_bind]
    refine ⟨_, rfl, ?_, stored.size0, ?_, ?_, fun _ => ⟨_, rfl, ?_, ?_⟩, fun less => ?_⟩
    · rw [length_append]
      rfl
    · rw [take_append_of_le_length many]
      exact stored.first
    · rw [length_append]
      exact room
    · rw [length_append]
      exact size
    · rw [drop_append_of_le_length many]
      exact holds.extend [item] next fits
    · rw [length_append, length_singleton] at less
      omega

theorem nextItem_overflows (stored : Stored store done) (full : done.length = itemLimit) :
    nextItem available store item = .error .assertion := by
  have many : ¬store.count < itemsN := by
    rw [stored.count, full]
    decide
  have large : ¬store.count + 64 ≤ intMax := by
    rw [stored.count, full]
    decide
  have grows : store.count ≥ store.capacity := by
    rw [stored.count, stored.capacity, full]
    decide
  rw [nextItem, if_neg many, growItems, if_pos grows, check_error large]
  rfl

/-- What `*items` points to. -/
def Listed : Option (Buffer QueryItem) → List QueryItem → Prop
  | none, list => list = []
  | some items, list => items.Holds 0 list

theorem collectItems_listed (memory : ∀ size, available size = true) (stored : Stored store done) :
    ∃ items, collectItems available store = .ok ((done.length : Int), items) ∧
      Listed items done := by
  unfold collectItems
  rw [stored.count]
  by_cases few : done.length ≤ itemsN
  · have whole : done.take itemsN = done := take_of_length_le few
    have holds := stored.first
    rw [whole] at holds
    by_cases positive : 0 < done.length
    · rw [if_pos (by omega), if_pos (memory _), Int.toNat_natCast, holds.read_eq rfl, ok_bind,
        Buffer.store_eq (by rw [Nat.zero_add]; exact Nat.le_refl _), ok_bind]
      exact ⟨_, rfl, Buffer.written_holds _ done (by rw [Nat.zero_add]; exact Nat.le_refl _)⟩
    · rw [if_neg (by omega), if_neg (by omega), stored.bare few]
      exact ⟨none, rfl, eq_nil_of_length_eq_zero (by omega)⟩
  · have more : itemsN < done.length := Nat.lt_of_not_le few
    obtain ⟨items, kept, size, holds⟩ := stored.rest more
    have front : (done.take itemsN).length = itemsN := by rw [length_take]; omega
    have enough := roomFor_ge more
    have fits : 0 + (done.take itemsN).length ≤ items.size := by omega
    rw [if_neg (by omega), if_pos (by omega), stored.first.read_eq front.symm, ok_bind, kept]
    simp only
    rw [Buffer.store_eq fits, ok_bind]
    refine ⟨_, rfl, ?_⟩
    have both := (Buffer.written_holds items (done.take itemsN) fits).append
      (holds.written (.inr (by omega))) (by rw [front, Nat.zero_add])
    rwa [take_append_drop] at both

end Store

end CLibs.Uris

/-!
## The items of the parts of a query

A part in front of a `&` of the query is read as it stands; the searches for the last part run on
behind the end pointer.  `scan` says which items are made of the parts, and whether the loop returns
early.
-/

namespace CLibs.Uris

open List

/-! ## The searches -/

section Search

variable {text accept front rest : List UInt8} {position found : Nat} {c : UInt8}

theorem strpbrk_eq (whole : text.drop position = front ++ c :: rest)
    (free : ∀ x ∈ front, x ∉ accept) (member : c ∈ accept) :
    strpbrk text accept position = some (position + front.length) := by
  have length := congrArg List.length whole
  rw [length_drop, length_append, length_cons] at length
  have skipped : (text.drop position).takeWhile (fun x => !accept.contains x) = front := by
    rw [whole, takeWhile_append_of_pos fun x inside => by simpa using free x inside,
      takeWhile_cons_of_neg (by simpa using member), append_nil]
  unfold strpbrk
  rw [skipped]
  exact if_pos (by omega)

theorem strpbrk_skips (whole : text.drop position = front ++ rest)
    (free : ∀ x ∈ front, x ∉ accept) (search : strpbrk text accept position = some found) :
    position + front.length ≤ found := by
  simp only [strpbrk] at search
  rw [whole, takeWhile_append_of_pos fun x inside => by simpa using free x inside] at search
  split at search
  · rw [← Option.some.inj search, length_append]
    omega
  · cases search

theorem strpbrk_none (free : ∀ x ∈ text.drop position, x ∉ accept) :
    strpbrk text accept position = none := by
  have all : (text.drop position).takeWhile (fun x => !accept.contains x) = text.drop position :=
    takeWhile_eq_self_iff.mpr fun x member => by simpa using free x member
  simp only [strpbrk]
  rw [all, length_drop]
  exact if_neg (by omega)

theorem strpbrk_behind (whole : text.drop position = front ++ rest)
    (free : ∀ x ∈ front, x ∉ accept)
    (head : ∀ x, rest.head? = some x → x ∉ accept) :
    strpbrk text accept position = none ∨
      ∃ found, strpbrk text accept position = some found ∧ position + front.length < found := by
  cases rest with
  | nil =>
    refine .inl (strpbrk_none fun x member => free x ?_)
    rwa [whole, append_nil] at member
  | cons d rest =>
    cases search : strpbrk text accept position with
    | none => exact .inl rfl
    | some found =>
      refine .inr ⟨found, rfl, ?_⟩
      have split : text.drop position = (front ++ [d]) ++ rest := by
        rw [whole]
        simp
      have skips := strpbrk_skips split (fun x member => ?_) search
      · rw [length_append, length_singleton] at skips
        omega
      · rcases mem_append.mp member with before | last
        · exact free x before
        · exact head x (congrArg some (mem_singleton.mp last).symm)

theorem getElem?_of_drop (whole : text.drop position = front ++ c :: rest) :
    text[position + front.length]? = some c := by
  rw [← List.getElem?_drop, whole, List.getElem?_append_right (Nat.le_refl _), Nat.sub_self]
  rfl

theorem drop_behind (whole : text.drop position = front ++ rest) :
    text.drop (position + front.length) = rest := by
  rw [← drop_drop, whole, drop_left]

end Search

/-! ## The items of the parts -/

/-- A part of the query that starts with `=`. -/
def nameless (part : List UInt8) : Prop := part.head? = some equals

instance (part : List UInt8) : Decidable (nameless part) :=
  inferInstanceAs (Decidable (part.head? = some equals))

def nameOf (part : List UInt8) : List UInt8 := part.takeWhile fun c => decide (c ≠ equals)

def itemFrom (text : List UInt8) (finish query : Nat) (part : List UInt8) : QueryItem :=
  (queryItem text finish query (query + (nameOf part).length)).1

/-- The items of the last part, and whether the loop returns early. -/
def lastItems (text : List UInt8) (finish query : Nat) (last : List UInt8) :
    List QueryItem × Bool :=
  if last = [] then ([], decide (0 < query ∧ (text.drop finish).head? = some equals))
  else if nameless last then ([], true)
  else if equals ∈ last ∨ (text.drop finish).head? = some ampersand ∨
      (text.drop finish).head? = some equals then
    ([itemFrom text finish query last], false)
  else ([], false)

def scan (text : List UInt8) (finish : Nat) : Nat → List (List UInt8) → List QueryItem × Bool
  | _, [] => ([], false)
  | query, part :: more =>
    if more = [] then lastItems text finish query part
    else if part = [] then scan text finish (query + 1) more
    else if nameless part then ([], true)
    else
      let behind := scan text finish (query + part.length + 1) more
      (itemFrom text finish query part :: behind.1, behind.2)

theorem part_cases (part : List UInt8) :
    part = [] ∨ nameless part ∨
      (∃ name value, part = name ++ equals :: value ∧ name ≠ [] ∧ equals ∉ name ∧
        nameOf part = name) ∨
      (part ≠ [] ∧ equals ∉ part ∧ nameOf part = part) := by
  by_cases member : equals ∈ part
  · obtain ⟨name, value, rfl, free⟩ := eq_append_cons_of_mem member
    refine .inr ?_
    cases name with
    | nil => exact .inl rfl
    | cons c name =>
      refine .inr (.inl ⟨c :: name, value, rfl, cons_ne_nil c name, free, ?_⟩)
      rw [nameOf, takeWhile_append_of_pos, takeWhile_cons_of_neg (by simp),
        append_nil]
      exact fun x inside => decide_eq_true fun same => free (same ▸ inside)
  · by_cases nothing : part = []
    · exact .inl nothing
    · refine .inr (.inr (.inr ⟨nothing, member, ?_⟩))
      exact takeWhile_eq_self_iff.mpr fun x inside =>
        decide_eq_true fun same => member (same ▸ inside)

end CLibs.Uris
