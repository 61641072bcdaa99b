import CLibs.UriQueryLoop
import Mathlib.Data.List.Forall2

/-!
# The pairs of a query

The characters in front of the end pointer are to be split at `&`, the parts at their first `=`.
An item denotes a pair if its pointers and lengths give the bytes of the pair; for one part this is
a matter of its lengths and of what the searches skip behind it.
-/

namespace CLibs.Uris

open List

/-! ## The splitting that is meant -/

/-- A name and a value, if there is one. -/
abbrev QueryPair := List UInt8 × Option (List UInt8)

def pairOf (part : List UInt8) : QueryPair :=
  (nameOf part,
    if equals ∈ part then some ((part.dropWhile fun c => decide (c ≠ equals)).drop 1) else none)

def querySplit (chars : List UInt8) : Option (List QueryPair) :=
  let parts := chars.splitOn ampersand
  if parts.any (fun part => decide (nameless part)) then none
  else some ((parts.filter fun part => decide (part ≠ [])).map pairOf)

/-- A pointer and a length give these bytes, none of them behind the end pointer. -/
structure Stands (text : List UInt8) (finish position : Nat) (length : Int)
    (bytes : List UInt8) : Prop where
  length : length = bytes.length
  inside : position + bytes.length ≤ finish
  bytes : (text.drop position).take bytes.length = bytes

def StandsValue (text : List UInt8) (finish : Nat) :
    Option Nat → Int → Option (List UInt8) → Prop
  | none, length, none => length = 0
  | some position, length, some bytes => Stands text finish position length bytes
  | _, _, _ => False

/-- The pointers and lengths of the item give the pair. -/
def Denotes (text : List UInt8) (finish : Nat) (item : QueryItem) (pair : QueryPair) : Prop :=
  Stands text finish item.name item.nName pair.1 ∧
    StandsValue text finish item.value item.nValue pair.2

/-- `uri_query` gives the pairs of the query in order, or fails if a part has no name. -/
def Splits (available : Nat → Bool) (text : List UInt8) (finish : Nat) : Prop :=
  match querySplit (text.take finish) with
  | none => ∃ code items, uriQuery available text finish = .ok (code, items) ∧ code < 0
  | some pairs => ∃ items list,
      uriQuery available text finish = .ok ((pairs.length : Int), items) ∧ Listed items list ∧
        List.Forall₂ (Denotes text finish) list pairs

/-! ## The condition -/

/-- The lengths of a part are numbers of an `int`. -/
def PartFits (part : List UInt8) : Prop :=
  (nameOf part).length < 2 ^ 31 ∧ ((pairOf part).2.getD []).length < 2 ^ 31

/-- What may follow the last part of a query. -/
def LastRight (text : List UInt8) (finish : Nat) (last : List UInt8) : Prop :=
  if last = [] then finish = 0 ∨ (text.drop finish).head? ≠ some equals
  else if equals ∈ last then
    ampersand ∈ text.drop finish → 2 ^ 32 ∣ (text.drop finish).idxOf ampersand
  else (text.drop finish).head? = some ampersand

def itemsBefore (parts : List (List UInt8)) : Nat :=
  ((parts.takeWhile fun part => decide ¬nameless part).filter fun part => decide (part ≠ [])).length

/-- There are few items, and one has no name, or all fit and the last one is right. -/
def SplitsWhen (text : List UInt8) (finish : Nat) : Prop :=
  let parts := (text.take finish).splitOn ampersand
  itemsBefore parts ≤ itemLimit ∧
    ((∃ part ∈ parts, nameless part) ∨
      (∀ part ∈ parts, PartFits part) ∧ ∀ last, parts.getLast? = some last →
        LastRight text finish last)

/-! ## One part -/

theorem asInt_eq_iff (length past : Nat) :
    asInt ((length : Int) + past) = length ↔ length < 2 ^ 31 ∧ 2 ^ 32 ∣ past := by
  simp only [asInt, Int.bmod_def]
  omega

theorem asInt_self_iff (length : Nat) : asInt (length : Int) = length ↔ length < 2 ^ 31 := by
  have both := asInt_eq_iff length 0
  simpa using both

section Part

variable {text : List UInt8} {finish q : Nat}

theorem stands_iff {position : Nat} {length : Int} {bytes rest : List UInt8}
    (whole : text.drop position = bytes ++ rest) (inside : position + bytes.length ≤ finish) :
    Stands text finish position length bytes ↔ length = bytes.length := by
  refine ⟨fun stands => stands.length, fun same => ⟨same, inside, ?_⟩⟩
  rw [whole, take_left]

theorem pairOf_value {name value : List UInt8} (noEquals : equals ∉ name) :
    pairOf (name ++ equals :: value) = (name, some value) := by
  have all : ∀ x ∈ name, decide (x ≠ equals) = true :=
    fun x inside => decide_eq_true fun same => noEquals (same ▸ inside)
  unfold pairOf nameOf
  rw [takeWhile_append_of_pos all, takeWhile_cons_of_neg (by simp), append_nil,
    if_pos (by simp), dropWhile_append_of_pos all, dropWhile_cons_of_neg (by simp)]
  rfl

theorem pairOf_name {part : List UInt8} (noEquals : equals ∉ part) (named : nameOf part = part) :
    pairOf part = (part, none) := by
  rw [pairOf, named, if_neg noEquals]

theorem denotes_value_iff {name value rest : List UInt8} {behind past : Nat}
    (whole : text.drop q = name ++ equals :: (value ++ rest))
    (inside : q + name.length + 1 + value.length ≤ finish) (noEquals : equals ∉ name)
    (search : (strchr text ampersand (q + name.length + 1)).getD finish = behind)
    (skipped : behind = q + name.length + 1 + value.length + past) :
    Denotes text finish (queryItem text finish q (q + name.length)).1
        (pairOf (name ++ equals :: value)) ↔
      PartFits (name ++ equals :: value) ∧ 2 ^ 32 ∣ past := by
  have here : text[q + name.length]? = some equals := getElem?_of_drop whole
  have split : text.drop q = (name ++ [equals]) ++ (value ++ rest) := by
    rw [whole]
    simp
  have valued : text.drop (q + name.length + 1) = value ++ rest := by
    have dropped := drop_behind split
    rwa [length_append, length_singleton, ← Nat.add_assoc] at dropped
  have nameLength : ((q + name.length : Nat) : Int) - q = name.length := by omega
  have valueLength : (behind : Int) - ((q + name.length + 1 : Nat) : Int) =
      (value.length : Int) + past := by omega
  have item : (queryItem text finish q (q + name.length)).1 =
      ⟨q, asInt name.length, some (q + name.length + 1), asInt ((value.length : Int) + past)⟩ := by
    simp only [queryItem, here, if_true, search, nameLength, valueLength]
  have fits : PartFits (name ++ equals :: value) ↔
      name.length < 2 ^ 31 ∧ value.length < 2 ^ 31 := by
    have pair := @pairOf_value name value noEquals
    have first : nameOf (name ++ equals :: value) = name := congrArg Prod.fst pair
    unfold PartFits
    rw [first, pair]
    rfl
  rw [item, pairOf_value noEquals, fits, Denotes]
  simp only [StandsValue]
  rw [stands_iff whole (by omega), stands_iff valued inside, asInt_self_iff, asInt_eq_iff, and_assoc]

theorem denotes_name_iff {part rest : List UInt8} {separator : UInt8}
    (whole : text.drop q = part ++ separator :: rest) (other : separator ≠ equals)
    (inside : q + part.length ≤ finish) (noEquals : equals ∉ part) (named : nameOf part = part) :
    Denotes text finish (queryItem text finish q (q + part.length)).1 (pairOf part) ↔
      PartFits part := by
  have here : text[q + part.length]? = some separator := getElem?_of_drop whole
  have nameLength : ((q + part.length : Nat) : Int) - q = part.length := by omega
  have item : (queryItem text finish q (q + part.length)).1 = ⟨q, asInt part.length, none, 0⟩ := by
    simp only [queryItem, here, Option.some.injEq, other, if_false, nameLength]
  rw [item, PartFits, pairOf_name noEquals named, named, Denotes, stands_iff whole inside,
    asInt_self_iff]
  simp [StandsValue]

end Part

end CLibs.Uris

/-!
## When the query is split as it should be

The parts in front of a `&` of the query are, as long as their lengths are numbers of an `int`.  For
the last part the searches run on behind the end pointer, so what follows the query decides: a
value has to end there, a name without a value is only kept in front of a `&`, and an empty last
part must not be followed by a `=`.
-/

namespace CLibs.Uris

open List

/-! ## All parts -/

section Parts

variable {text : List UInt8} {finish q : Nat}

def pairsOf (parts : List (List UInt8)) : List QueryPair :=
  (parts.filter fun part => decide (part ≠ [])).map pairOf

theorem scan_nameless (parts : List (List UInt8)) :
    ∀ q, (∃ part ∈ parts, nameless part) →
      (scan text finish q parts).2 = true ∧
        (scan text finish q parts).1.length = itemsBefore parts := by
  induction parts with
  | nil => rintro q ⟨part, member, -⟩; cases member
  | cons part more ih =>
    intro q exist
    rw [scan]
    by_cases starts : nameless part
    · have nonempty : part ≠ [] := by
        rintro rfl
        cases starts
      have before : itemsBefore (part :: more) = 0 := by simp [itemsBefore, starts]
      rw [before]
      by_cases last : more = []
      · simp [last, lastItems, nonempty, starts]
      · simp [last, nonempty, starts]
    · have later : ∃ part ∈ more, nameless part := by
        obtain ⟨other, member, found⟩ := exist
        rcases mem_cons.mp member with rfl | inside
        · exact absurd found starts
        · exact ⟨other, inside, found⟩
      have last : more ≠ [] := by
        rintro rfl
        obtain ⟨other, member, -⟩ := later
        cases member
      rw [if_neg last]
      by_cases nothing : part = []
      · subst nothing
        have before : itemsBefore ([] :: more) = itemsBefore more := by
          simp [itemsBefore, starts]
        rw [if_pos rfl, before]
        exact ih (q + 1) later
      · have before : itemsBefore (part :: more) = itemsBefore more + 1 := by
          simp [itemsBefore, starts, nothing]
        obtain ⟨early, length⟩ := ih (q + part.length + 1) later
        rw [if_neg nothing, if_neg starts, before]
        exact ⟨early, congrArg (· + 1) length⟩

theorem itemsBefore_named {parts : List (List UInt8)} (named : ∀ part ∈ parts, ¬nameless part) :
    itemsBefore parts = (pairsOf parts).length := by
  have all : parts.takeWhile (fun part => decide ¬nameless part) = parts :=
    takeWhile_eq_self_iff.mpr fun part member => decide_eq_true (named part member)
  rw [itemsBefore, all, pairsOf, length_map]

theorem denotes_part_iff {part rest : List UInt8}
    (whole : text.drop q = part ++ ampersand :: rest) (inside : q + part.length ≤ finish)
    (free : ampersand ∉ part) (nonempty : part ≠ []) (named : ¬nameless part) :
    Denotes text finish (itemFrom text finish q part) (pairOf part) ↔ PartFits part := by
  rcases part_cases part with rfl | starts | ⟨name, value, rfl, -, noEquals, same⟩ |
      ⟨-, noEquals, same⟩
  · exact absurd rfl nonempty
  · exact absurd starts named
  · rw [length_append, length_cons] at inside
    rw [mem_append, mem_cons, not_or, not_or] at free
    have split : text.drop q = name ++ equals :: (value ++ ampersand :: rest) := by
      rw [whole]
      simp
    have joined : text.drop q = (name ++ [equals]) ++ (value ++ ampersand :: rest) := by
      rw [split]
      simp
    have valued : text.drop (q + name.length + 1) = value ++ ampersand :: rest := by
      have dropped := drop_behind joined
      rwa [length_append, length_singleton, ← Nat.add_assoc] at dropped
    have search : strchr text ampersand (q + name.length + 1) =
        some (q + name.length + 1 + value.length) :=
      strpbrk_eq valued (fun x member same => free.2.2 (mem_singleton.mp same ▸ member))
        mem_cons_self
    rw [itemFrom, same, denotes_value_iff split (by omega) noEquals (by rw [search]; rfl)
      (Nat.add_zero _).symm]
    exact and_iff_left (Nat.dvd_zero _)
  · rw [itemFrom, same]
    exact denotes_name_iff whole (by decide) inside noEquals same

theorem denotes_last_iff {name value : List UInt8}
    (whole : text.drop q = name ++ equals :: value ++ text.drop finish)
    (ends : q + (name ++ equals :: value).length = finish)
    (free : ampersand ∉ value) (noEquals : equals ∉ name) :
    Denotes text finish (queryItem text finish q (q + name.length)).1
        (pairOf (name ++ equals :: value)) ↔
      PartFits (name ++ equals :: value) ∧
        (ampersand ∈ text.drop finish → 2 ^ 32 ∣ (text.drop finish).idxOf ampersand) := by
  rw [length_append, length_cons] at ends
  have split : text.drop q = name ++ equals :: (value ++ text.drop finish) := by
    rw [whole]
    simp
  have joined : text.drop q = (name ++ [equals]) ++ (value ++ text.drop finish) := by
    rw [split]
    simp
  have valued : text.drop (q + name.length + 1) = value ++ text.drop finish := by
    have dropped := drop_behind joined
    rwa [length_append, length_singleton, ← Nat.add_assoc] at dropped
  have absent : ∀ x ∈ value, x ∉ [ampersand] :=
    fun x member same => free (mem_singleton.mp same ▸ member)
  by_cases member : ampersand ∈ text.drop finish
  · obtain ⟨skipped, rest, same, clear⟩ := eq_append_cons_of_mem member
    have found : text.drop (q + name.length + 1) = (value ++ skipped) ++ ampersand :: rest := by
      rw [valued, same]
      simp
    have search : strchr text ampersand (q + name.length + 1) =
        some (q + name.length + 1 + (value ++ skipped).length) := by
      refine strpbrk_eq found (fun x inside same => ?_) mem_cons_self
      rcases mem_append.mp inside with first | second
      · exact absent x first same
      · exact clear (mem_singleton.mp same ▸ second)
    have index : (text.drop finish).idxOf ampersand = skipped.length := by
      rw [same, idxOf_append_of_notMem clear, idxOf_cons_self, Nat.add_zero]
    have denotes := @denotes_value_iff text finish q name value (text.drop finish)
      (q + name.length + 1 + (value ++ skipped).length) skipped.length split (by omega) noEquals
      (by rw [search]; rfl) (by rw [length_append]; omega)
    rw [denotes, index]
    simp [member]
  · have search : (strchr text ampersand (q + name.length + 1)).getD finish = finish := by
      have nowhere : strchr text ampersand (q + name.length + 1) = none := by
        refine strpbrk_none fun x inside same => ?_
        rw [valued] at inside
        rcases mem_append.mp inside with first | second
        · exact absent x first same
        · exact member (mem_singleton.mp same ▸ second)
      rw [nowhere]
      rfl
    rw [denotes_value_iff split (by omega) noEquals search (by omega : finish =
      q + name.length + 1 + value.length + 0)]
    simp [member]

theorem lastItems_right_iff {last : List UInt8}
    (whole : text.drop q = last ++ text.drop finish) (ends : q + last.length = finish)
    (free : ampersand ∉ last) (named : ¬nameless last) :
    ((lastItems text finish q last).2 = false ∧
        List.Forall₂ (Denotes text finish) (lastItems text finish q last).1 (pairsOf [last])) ↔
      PartFits last ∧ LastRight text finish last := by
  unfold lastItems LastRight
  rcases part_cases last with rfl | starts | ⟨name, value, rfl, nonempty, noEquals, same⟩ |
      ⟨nonempty, noEquals, same⟩
  · rw [length_nil, Nat.add_zero] at ends
    subst ends
    have fits : PartFits [] := ⟨by decide, by decide⟩
    have zero : q = 0 ∨ 0 < q := by omega
    simp only [if_true, fits, true_and, pairsOf]
    constructor
    · rintro ⟨late, -⟩
      rw [decide_eq_false_iff_not] at late
      exact zero.imp id fun positive head => late ⟨positive, head⟩
    · intro right
      refine ⟨decide_eq_false fun both => ?_, List.Forall₂.nil⟩
      rcases right with none | other
      · omega
      · exact other both.2
  · exact absurd starts named
  · have nonempty : name ++ equals :: value ≠ [] := by simp
    have member : equals ∈ name ++ equals :: value := by simp
    have absent := free
    rw [mem_append, mem_cons, not_or, not_or] at absent
    have pairs : pairsOf [name ++ equals :: value] = [pairOf (name ++ equals :: value)] := by
      simp [pairsOf]
    rw [if_neg nonempty, if_neg named, if_pos (.inl member), if_neg nonempty, if_pos member, pairs,
      itemFrom, same, ← denotes_last_iff whole ends absent.2.2 noEquals]
    simp
  · have pairs : pairsOf [last] = [pairOf last] := by simp [pairsOf, nonempty]
    rw [if_neg nonempty, if_neg named, if_neg nonempty, if_neg noEquals, pairs]
    by_cases isAmpersand : (text.drop finish).head? = some ampersand
    · obtain ⟨rest, split⟩ : ∃ rest, text.drop finish = ampersand :: rest := by
        cases left : text.drop finish with
        | nil => simp [left] at isAmpersand
        | cons c rest =>
          rw [left] at isAmpersand
          obtain rfl := Option.some.inj isAmpersand
          exact ⟨rest, rfl⟩
      rw [if_pos (.inr (.inl isAmpersand)), itemFrom, same]
      rw [split] at whole
      have denotes := @denotes_name_iff text finish q last rest ampersand whole (by decide)
        (Nat.le_of_eq ends) noEquals same
      simp [isAmpersand, denotes]
    · by_cases isEquals : (text.drop finish).head? = some equals
      · have here : text[q + last.length]? = some equals := by
          cases left : text.drop finish with
          | nil => simp [left] at isEquals
          | cons c rest =>
            rw [left] at isEquals whole
            obtain rfl := Option.some.inj isEquals
            exact getElem?_of_drop whole
        have wrong : ¬Denotes text finish (queryItem text finish q (q + last.length)).1
            (pairOf last) := by
          rw [pairOf_name noEquals same]
          rintro ⟨-, value⟩
          simp only [queryItem, here, if_true, StandsValue] at value
        rw [if_pos (.inr (.inr isEquals)), itemFrom, same]
        constructor
        · rintro ⟨-, all⟩
          exact absurd (forall₂_cons.mp all).1 wrong
        · rintro ⟨-, head⟩
          exact absurd head isAmpersand
      · have none : ¬(equals ∈ last ∨ (text.drop finish).head? = some ampersand ∨
            (text.drop finish).head? = some equals) := by
          rintro (member | head | head)
          · exact noEquals member
          · exact isAmpersand head
          · exact isEquals head
        rw [if_neg none]
        constructor
        · rintro ⟨-, all⟩
          cases all
        · rintro ⟨-, head⟩
          exact absurd head isAmpersand

theorem scan_right_iff (size : Nat) :
    ∀ (chars : List UInt8) (q : Nat), chars.length < size →
      text.drop q = chars ++ text.drop finish → q + chars.length = finish →
      (∀ part ∈ chars.splitOn ampersand, ¬nameless part) →
      (((scan text finish q (chars.splitOn ampersand)).2 = false ∧
          List.Forall₂ (Denotes text finish) (scan text finish q (chars.splitOn ampersand)).1
            (pairsOf (chars.splitOn ampersand))) ↔
        (∀ part ∈ chars.splitOn ampersand, PartFits part) ∧
          ∀ last, (chars.splitOn ampersand).getLast? = some last → LastRight text finish last) := by
  induction size with
  | zero => exact fun _ _ short => absurd short (Nat.not_lt_zero _)
  | succ size ih =>
    intro chars q short whole ends named
    by_cases member : ampersand ∈ chars
    · obtain ⟨part, rest, rfl, free⟩ := eq_append_cons_of_mem member
      rw [length_append, length_cons] at short ends
      rw [splitOn_append_cons_self_of_not_mem free] at named ⊢
      have split : text.drop q = part ++ ampersand :: (rest ++ text.drop finish) := by
        rw [whole]
        simp
      have joined : text.drop q = (part ++ [ampersand]) ++ (rest ++ text.drop finish) := by
        rw [split]
        simp
      have behind : text.drop (q + part.length + 1) = rest ++ text.drop finish := by
        have dropped := drop_behind joined
        rwa [length_append, length_singleton, ← Nat.add_assoc] at dropped
      have more := splitOn_ne_nil ampersand rest
      have right := ih rest (q + part.length + 1) (by omega) behind (by omega)
        (forall_mem_cons.mp named).2
      have last : (part :: rest.splitOn ampersand).getLast? =
          (rest.splitOn ampersand).getLast? := List.getLast?_cons_of_ne_nil more
      have unnamed := named part mem_cons_self
      rw [scan, if_neg more, last, forall_mem_cons]
      by_cases nothing : part = []
      · subst nothing
        have fits : PartFits [] := ⟨by decide, by decide⟩
        have pairs : pairsOf ([] :: rest.splitOn ampersand) = pairsOf (rest.splitOn ampersand) :=
          by simp [pairsOf]
        rw [if_pos rfl, pairs]
        rw [length_nil, Nat.add_zero] at right
        rw [right]
        simp [fits]
      · have pairs : pairsOf (part :: rest.splitOn ampersand) =
            pairOf part :: pairsOf (rest.splitOn ampersand) := by simp [pairsOf, nothing]
        have denotes := denotes_part_iff split (by omega : q + part.length ≤ finish) free nothing
          unnamed
        rw [if_neg nothing, if_neg unnamed, pairs, forall₂_cons, denotes, and_assoc, ← right]
        constructor
        · rintro ⟨late, fits, all⟩
          exact ⟨fits, late, all⟩
        · rintro ⟨fits, late, all⟩
          exact ⟨late, fits, all⟩
    · rw [splitOn_eq_singleton member] at named
      rw [splitOn_eq_singleton member, scan, if_pos rfl,
        lastItems_right_iff whole ends member (named chars mem_cons_self)]
      simp

end Parts

/-! ## The whole query -/

theorem Listed.unique {items : Option (Buffer QueryItem)} {first second : List QueryItem}
    (listed : Listed items first) (again : Listed items second)
    (length : first.length = second.length) : first = second := by
  cases items with
  | none => exact listed.trans again.symm
  | some items =>
    refine ext_getElem? fun index => ?_
    rcases Nat.lt_or_ge index first.length with inside | outside
    · rw [← listed.cell index inside, again.cell index (length ▸ inside)]
    · rw [List.getElem?_eq_none outside, List.getElem?_eq_none (length ▸ outside)]

variable {available : Nat → Bool} {text : List UInt8} {finish : Nat}

/-- For every string and every end pointer into it, `uri_query` splits the query as it should
exactly when the items and their lengths can be counted in an `int` and the last part ends as the
searches expect it. -/
theorem uri_query_splits_iff (memory : ∀ size, available size = true)
    (inside : finish ≤ text.length) :
    Splits available text finish ↔ SplitsWhen text finish := by
  have length : (text.take finish).length = finish := by
    rw [length_take]
    exact Nat.min_eq_left inside
  obtain ⟨fits, past⟩ := uriQuery_scan memory inside
  unfold Splits SplitsWhen querySplit
  by_cases exist : ∃ part ∈ (text.take finish).splitOn ampersand, nameless part
  · have any : ((text.take finish).splitOn ampersand).any
        (fun part => decide (nameless part)) = true := by simpa using exist
    obtain ⟨early, before⟩ := @scan_nameless text finish _ 0 exist
    simp only [any, if_true, exist, true_or, and_true, ← before]
    rw [early] at fits
    constructor
    · rintro ⟨code, items, returned, -⟩
      by_contra many
      rw [past (Nat.lt_of_not_le many)] at returned
      cases returned
    · intro within
      exact ⟨-1, none, fits within, by decide⟩
  · have any : ((text.take finish).splitOn ampersand).any
        (fun part => decide (nameless part)) = false := by simpa using exist
    have named : ∀ part ∈ (text.take finish).splitOn ampersand, ¬nameless part :=
      fun part member starts => exist ⟨part, member, starts⟩
    have right := @scan_right_iff text finish (finish + 1) (text.take finish) 0 (by omega)
      (by rw [drop_zero, take_append_drop]) (by rw [length, Nat.zero_add]) named
    simp only [any, Bool.false_eq_true, if_false, exist, false_or]
    rw [← right, itemsBefore_named named]
    constructor
    · rintro ⟨items, list, returned, listed, all⟩
      rcases Nat.lt_or_ge itemLimit
          (scan text finish 0 ((text.take finish).splitOn ampersand)).1.length with many | few
      · rw [past many] at returned
        cases returned
      · have ended := fits few
        cases late : (scan text finish 0 ((text.take finish).splitOn ampersand)).2 with
        | true =>
          rw [if_pos late, returned] at ended
          injection ended with same
          injection same with negative
          omega
        | false =>
          rw [if_neg (by simp [late])] at ended
          obtain ⟨others, known, found⟩ := ended
          rw [returned] at known
          injection known with same
          injection same with counts places
          subst places
          have counted : list.length =
              (scan text finish 0 ((text.take finish).splitOn ampersand)).1.length := by
            rw [all.length_eq]
            exact Int.ofNat.inj counts
          obtain rfl := listed.unique found counted
          refine ⟨?_, rfl, all⟩
          rw [pairsOf, ← all.length_eq]
          exact few
    · rintro ⟨count, late, all⟩
      have counts := all.length_eq
      have ended := fits (by rw [counts]; exact count)
      rw [if_neg (by simp [late])] at ended
      obtain ⟨items, returned, listed⟩ := ended
      refine ⟨items, _, ?_, listed, all⟩
      rw [returned, counts]
      rfl

/-- The query `a=1`. -/
theorem uri_query_splits_iff_pair :
    Splits (fun _ => true) [0x61, equals, 0x31] 3 ↔ SplitsWhen [0x61, equals, 0x31] 3 :=
  uri_query_splits_iff (fun _ => rfl) (by decide)

/-- A name without a value at the end of the string: it is dropped. -/
theorem uri_query_drops :
    querySplit [0x61, equals, 0x31, ampersand, 0x62] = some [([0x61], some [0x31]), ([0x62], none)] ∧
      ¬Splits (fun _ => true) [0x61, equals, 0x31, ampersand, 0x62] 5 := by
  have split : querySplit [0x61, equals, 0x31, ampersand, 0x62] =
      some [([0x61], some [0x31]), ([0x62], none)] := by decide
  refine ⟨split, fun splits => ?_⟩
  have whole : [0x61, equals, 0x31, ampersand, 0x62].take 5 =
      [0x61, equals, 0x31, ampersand, 0x62] := rfl
  obtain ⟨fits, -⟩ := @uriQuery_scan (fun _ => true) [0x61, equals, 0x31, ampersand, 0x62] 5
    (fun _ => rfl) (by decide)
  have one : (scan [0x61, equals, 0x31, ampersand, 0x62] 5 0
      ([0x61, equals, 0x31, ampersand, 0x62].splitOn ampersand)).1.length = 1 := by decide
  have late : (scan [0x61, equals, 0x31, ampersand, 0x62] 5 0
      ([0x61, equals, 0x31, ampersand, 0x62].splitOn ampersand)).2 = false := by decide
  rw [whole, one] at fits
  have ended := fits (by decide)
  rw [late, if_neg (by decide)] at ended
  obtain ⟨items, returned, -⟩ := ended
  rw [Splits, whole, split] at splits
  obtain ⟨others, list, again, -⟩ := splits
  rw [returned] at again
  injection again with same
  injection same with counts
  cases counts

end CLibs.Uris
