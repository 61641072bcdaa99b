import CLibs.UriBounds

/-!
# The text in front of a fragment

Whether the second pass comes to a fragment is said of the text alone: its components, as the first
pass has classified them, stand one behind the other in front of a `#`.
-/

namespace CLibs.Uris

open List

/-! ## The text in front of a fragment -/

def SchemePart (present : Bool) (part : List UInt8) : Prop :=
  if present then ∃ name first second, part = name ++ [colon, first, second] ∧ colon ∉ name
  else part = []

def UserinfoPart (present : Bool) (part : List UInt8) : Prop :=
  if present then ∃ user, part = user ++ [atSign] ∧ atSign ∉ user else part = []

/-- The host, in brackets or up to a character that ends it. -/
def HostPart (present : Bool) (part behind : List UInt8) : Prop :=
  if present then
    ((∃ address, part = openBracket :: address ++ [closeBracket] ∧ closeBracket ∉ address) ∨
      part.head? ≠ some openBracket ∧ ∀ c ∈ part, c ≠ 0 ∧ endsHost c = false) ∧
    ∀ c, behind.head? = some c → c = 0 ∨ endsHost c = true
  else part = []

/-- The character that is skipped, whatever it is, and digits. -/
def PortPart (present : Bool) (part : List UInt8) : Prop :=
  if present then ∃ first digits, part = first :: digits ∧ ∀ c ∈ digits, isDigit c = true
  else part = []

def PathPart (part : List UInt8) : Prop :=
  part = [] ∨ ∃ path, part = slash :: path ∧ ∀ c ∈ path, c ≠ 0 ∧ c ≠ question ∧ c ≠ number

def QueryPart (part : List UInt8) : Prop :=
  part = [] ∨ ∃ query, part = question :: query ∧ ∀ c ∈ query, c ≠ 0 ∧ c ≠ number

/-- The components of the text stand one behind the other in front of a `#`. -/
def HasFragment (items : Items) (text fragment : List UInt8) : Prop :=
  ∃ scheme userinfo host port path query,
    text = scheme ++ (userinfo ++ (host ++ (port ++ (path ++ (query ++ number :: fragment))))) ∧
    SchemePart items.hasScheme scheme ∧ UserinfoPart items.hasUserinfo userinfo ∧
    HostPart items.hasHost host (port ++ (path ++ (query ++ number :: fragment))) ∧
    PortPart items.hasPort port ∧ PathPart path ∧ QueryPart query

/-! ## Where the second pass stands -/

section Parts

variable {items : Items} {text rest : List UInt8}

theorem dropWhile_eq_iff {inside : UInt8 → Bool} {c : UInt8} :
    text.dropWhile inside = c :: rest ↔
      ∃ front, text = front ++ c :: rest ∧ (∀ x ∈ front, inside x = true) ∧ inside c = false := by
  induction text with
  | nil => simp
  | cons d text ih =>
    cases stays : inside d with
    | false =>
      rw [dropWhile_cons_of_neg (by simp [stays])]
      constructor
      · rintro ⟨⟩
        exact ⟨[], rfl, nofun, stays⟩
      · rintro ⟨front, whole, all, -⟩
        cases front with
        | nil => exact whole
        | cons x front =>
          obtain ⟨rfl, -⟩ := List.cons.inj whole
          exact absurd (all d mem_cons_self) (by simp [stays])
    | true =>
      rw [dropWhile_cons_of_pos stays, ih]
      constructor
      · rintro ⟨front, whole, all, ends⟩
        exact ⟨d :: front, by rw [whole]; rfl, by simpa [stays] using all, ends⟩
      · rintro ⟨front, whole, all, ends⟩
        cases front with
        | nil =>
          obtain ⟨rfl, -⟩ := List.cons.inj whole
          exact absurd ends (by simp [stays])
        | cons x front =>
          rw [cons_append] at whole
          obtain ⟨rfl, tails⟩ := List.cons.inj whole
          exact ⟨front, tails, (forall_mem_cons.mp all).2, ends⟩

theorem dropWhile_delimiter_iff {delimiter c : UInt8} :
    (text.dropWhile fun x => decide (x ≠ delimiter)) = c :: rest ↔
      c = delimiter ∧ ∃ front, text = front ++ delimiter :: rest ∧ delimiter ∉ front := by
  rw [dropWhile_eq_iff]
  simp only [decide_eq_true_eq, decide_eq_false_iff_not, not_not]
  constructor
  · rintro ⟨front, whole, all, rfl⟩
    exact ⟨rfl, front, whole, fun member => all c member rfl⟩
  · rintro ⟨rfl, front, whole, free⟩
    exact ⟨front, whole, fun x member same => free (same ▸ member), rfl⟩

theorem behindScheme_iff (more : rest ≠ []) :
    behindScheme items text = rest ↔
      ∃ part, text = part ++ rest ∧ SchemePart items.hasScheme part := by
  unfold behindScheme SchemePart
  cases items.hasScheme with
  | false =>
    simp only [Bool.false_eq_true, if_false]
    refine ⟨fun same => ⟨[], same, rfl⟩, ?_⟩
    rintro ⟨part, rfl, rfl⟩
    rfl
  | true =>
    simp only [if_true]
    constructor
    · intro same
      match left : text.dropWhile fun c => decide (c ≠ colon) with
      | [] | [_] | [_, _] =>
        rw [left] at same
        exact absurd same.symm more
      | c :: first :: second :: behind =>
        rw [left] at same
        subst same
        obtain ⟨rfl, name, whole, free⟩ := dropWhile_delimiter_iff.mp left
        exact ⟨name ++ [colon, first, second], by rw [whole]; simp, name, first, second, rfl,
          free⟩
    · rintro ⟨part, rfl, name, first, second, rfl, free⟩
      rw [append_assoc, cons_append,
        dropWhile_delimiter_iff.mpr ⟨rfl, name, rfl, free⟩]
      rfl

theorem behindUserinfo_iff (more : rest ≠ []) :
    behindUserinfo items text = rest ↔
      ∃ part, text = part ++ rest ∧ UserinfoPart items.hasUserinfo part := by
  unfold behindUserinfo UserinfoPart
  cases items.hasUserinfo with
  | false =>
    simp only [Bool.false_eq_true, if_false]
    refine ⟨fun same => ⟨[], same, rfl⟩, ?_⟩
    rintro ⟨part, rfl, rfl⟩
    rfl
  | true =>
    simp only [if_true]
    constructor
    · intro same
      match left : text.dropWhile fun c => decide (c ≠ atSign) with
      | [] =>
        rw [left] at same
        exact absurd same.symm more
      | c :: behind =>
        rw [left] at same
        subst same
        obtain ⟨rfl, user, whole, free⟩ := dropWhile_delimiter_iff.mp left
        exact ⟨user ++ [atSign], by rw [whole]; simp, user, rfl, free⟩
    · rintro ⟨part, rfl, user, rfl, free⟩
      rw [append_assoc, cons_append,
        dropWhile_delimiter_iff.mpr ⟨rfl, user, rfl, free⟩]
      rfl

theorem badEnd_eq_false_iff :
    badEnd text = false ↔ ∀ c, text.head? = some c → c = 0 ∨ endsHost c = true := by
  cases text with
  | nil => simp [badEnd]
  | cons c rest => by_cases zero : c = 0 <;> simp [badEnd, zero]

theorem stops_iff {c : UInt8} :
    (decide (c ≠ 0) && !endsHost c) = false ↔ c = 0 ∨ endsHost c = true := by
  by_cases zero : c = 0 <;> simp [zero]

theorem behindHost_iff (more : rest ≠ []) :
    behindHost items text = some rest ↔
      ∃ part, text = part ++ rest ∧ HostPart items.hasHost part rest := by
  unfold behindHost HostPart
  cases items.hasHost with
  | false =>
    simp only [Bool.false_eq_true, if_false, Option.some.injEq]
    refine ⟨fun same => ⟨[], same, rfl⟩, ?_⟩
    rintro ⟨part, rfl, rfl⟩
    rfl
  | true =>
    simp only [if_true]
    constructor
    · intro same
      split at same
      · next bracket =>
          split at same
          · cases same
          · next fine =>
              have ends := badEnd_eq_false_iff.mp (Bool.eq_false_iff.mpr fine)
              rw [Option.some.inj same] at ends
              cases text with
              | nil => cases bracket
              | cons c behind =>
                obtain rfl := Option.some.inj bracket
                match left : behind.dropWhile fun c => decide (c ≠ closeBracket) with
                | [] =>
                  simp only [drop_one, tail_cons, left, tail_nil,
                    Option.some.injEq] at same
                  exact absurd same.symm more
                | c :: after =>
                  simp only [drop_one, tail_cons, left, Option.some.injEq] at same
                  subst same
                  obtain ⟨rfl, address, whole, free⟩ := dropWhile_delimiter_iff.mp left
                  exact ⟨openBracket :: address ++ [closeBracket], by rw [whole]; simp,
                    .inl ⟨address, rfl, free⟩, ends⟩
      · next name =>
          cases rest with
          | nil => exact absurd rfl more
          | cons c rest =>
            obtain ⟨front, whole, all, ends⟩ := dropWhile_eq_iff.mp (Option.some.inj same)
            refine ⟨front, whole, .inr ⟨?_, fun x member => ?_⟩, ?_⟩
            · cases front with
              | nil => exact nofun
              | cons x front => rwa [whole, cons_append, List.head?_cons] at name
            · simpa using all x member
            · rintro d ⟨⟩
              exact stops_iff.mp ends
    · rintro ⟨part, rfl, ⟨address, rfl, free⟩ | ⟨name, inside⟩, ends⟩
      · have left := @dropWhile_delimiter_iff (address ++ closeBracket :: rest) rest closeBracket
          closeBracket
        simp only [cons_append, List.head?_cons, if_true, append_assoc, nil_append,
          drop_one, tail_cons, left.mpr ⟨rfl, address, rfl, free⟩,
          badEnd_eq_false_iff.mpr ends, Bool.false_eq_true, if_false]
      · cases rest with
        | nil => exact absurd rfl more
        | cons c rest =>
          have stops := stops_iff.mpr (ends c rfl)
          have other : (part ++ c :: rest).head? ≠ some openBracket := by
            cases part with
            | nil =>
              intro bracket
              obtain rfl := Option.some.inj bracket
              revert stops
              decide
            | cons x part => exact name
          rw [if_neg other, dropWhile_eq_iff.mpr ⟨part, rfl, fun x member => ?_, stops⟩]
          simpa using inside x member

/-- What stands behind a port, a host or a scheme in front of a path, a query or a fragment. -/
def Continues (rest : List UInt8) : Prop :=
  ∃ c more, rest = c :: more ∧ (c = slash ∨ c = question ∨ c = number)

theorem Continues.nonempty (continues : Continues rest) : rest ≠ [] := by
  obtain ⟨c, more, rfl, -⟩ := continues
  exact cons_ne_nil c more

theorem behindPort_iff (continues : Continues rest) :
    behindPort items text = some rest ↔ ∃ part, text = part ++ rest ∧ PortPart items.hasPort part := by
  obtain ⟨c, more, rfl, follows⟩ := continues
  have digit : isDigit c = false := by rcases follows with rfl | rfl | rfl <;> rfl
  have fine : badEnd (c :: more) = false := by rcases follows with rfl | rfl | rfl <;> rfl
  unfold behindPort PortPart
  cases items.hasPort with
  | false =>
    simp only [Bool.false_eq_true, if_false, Option.some.injEq]
    refine ⟨fun same => ⟨[], same, rfl⟩, ?_⟩
    rintro ⟨part, rfl, rfl⟩
    rfl
  | true =>
    simp only [if_true]
    constructor
    · intro same
      split at same
      · cases same
      · obtain ⟨digits, whole, all, -⟩ := dropWhile_eq_iff.mp (Option.some.inj same)
        cases text with
        | nil => cases digits <;> cases whole
        | cons first behind => exact ⟨first :: digits, congrArg (first :: ·) whole, first, digits, rfl, all⟩
    · rintro ⟨part, rfl, first, digits, rfl, all⟩
      have left := @dropWhile_eq_iff (digits ++ c :: more) more isDigit c
      simp only [cons_append, drop_one, tail_cons,
        left.mpr ⟨digits, rfl, all, digit⟩, fine, Bool.false_eq_true, if_false]

theorem behindPath_iff {c : UInt8} (follows : c = question ∨ c = number) :
    behindPath text = c :: rest ↔ ∃ part, text = part ++ c :: rest ∧ PathPart part := by
  have ends : decide (c ≠ 0 ∧ c ≠ question ∧ c ≠ number) = false := by
    rcases follows with rfl | rfl <;> rfl
  unfold behindPath
  constructor
  · intro same
    split at same
    · next starts =>
        obtain ⟨front, whole, all, -⟩ := dropWhile_eq_iff.mp same
        cases front with
        | nil =>
          rw [whole] at starts
          obtain rfl := Option.some.inj starts
          rcases follows with clash | clash <;> cases clash
        | cons d path =>
          rw [whole] at starts
          obtain rfl := Option.some.inj starts
          exact ⟨slash :: path, whole, .inr ⟨path, rfl, fun x member =>
            of_decide_eq_true (all x (mem_cons_of_mem _ member))⟩⟩
    · exact ⟨[], same, .inl rfl⟩
  · rintro ⟨part, rfl, rfl | ⟨path, rfl, inside⟩⟩
    · have other : ¬([] ++ c :: rest).head? = some slash := by
        rcases follows with rfl | rfl <;> exact nofun
      rw [if_neg other]
      rfl
    · have starts : (slash :: path ++ c :: rest).head? = some slash := rfl
      rw [if_pos starts,
        dropWhile_eq_iff.mpr ⟨slash :: path, rfl, fun x member => ?_, ends⟩]
      rcases mem_cons.mp member with rfl | later
      · rfl
      · exact decide_eq_true (inside x later)

theorem behindQuery_iff {fragment : List UInt8} :
    behindQuery text = number :: fragment ↔
      ∃ part, text = part ++ number :: fragment ∧ QueryPart part := by
  unfold behindQuery
  constructor
  · intro same
    split at same
    · next starts =>
        obtain ⟨query, whole, all, -⟩ := dropWhile_eq_iff.mp same
        cases text with
        | nil => cases starts
        | cons c behind =>
          obtain rfl := Option.some.inj starts
          exact ⟨question :: query, congrArg (question :: ·) whole, .inr ⟨query, rfl,
            fun x member => of_decide_eq_true (all x member)⟩⟩
    · exact ⟨[], same, .inl rfl⟩
  · rintro ⟨part, rfl, rfl | ⟨query, rfl, inside⟩⟩
    · rfl
    · have left := @dropWhile_eq_iff (query ++ number :: fragment) fragment
        (fun c => decide (c ≠ 0 ∧ c ≠ number)) number
      have starts : (question :: query ++ number :: fragment).head? = some question := rfl
      rw [if_pos starts]
      exact left.mpr ⟨query, rfl, fun x member => decide_eq_true (inside x member), rfl⟩

end Parts

/-! ## When the parser comes to a fragment -/

section Fragment

variable {items : Items} {text fragment : List UInt8}

theorem pathText_continues {path query : List UInt8} (pathPart : PathPart path)
    (queryPart : QueryPart query) : Continues (path ++ (query ++ number :: fragment)) := by
  rcases pathPart with rfl | ⟨path, rfl, -⟩
  · rcases queryPart with rfl | ⟨query, rfl, -⟩
    · exact ⟨number, fragment, rfl, .inr (.inr rfl)⟩
    · exact ⟨question, _, rfl, .inr (.inl rfl)⟩
  · exact ⟨slash, _, rfl, .inl rfl⟩

theorem queryText_head {query : List UInt8} (queryPart : QueryPart query) :
    ∃ c rest, query ++ number :: fragment = c :: rest ∧ (c = question ∨ c = number) := by
  rcases queryPart with rfl | ⟨query, rfl, -⟩
  · exact ⟨number, fragment, rfl, .inr rfl⟩
  · exact ⟨question, _, rfl, .inl rfl⟩

/-- Where the fragment begins, in terms of the text. -/
theorem fragmentStart_iff :
    fragmentStart items text = some (number :: fragment) ↔ HasFragment items text fragment := by
  constructor
  · intro start
    obtain ⟨behind, hosted, ported⟩ := Option.bind_eq_some_iff.mp start
    obtain ⟨rest, ported, asked⟩ := Option.map_eq_some_iff.mp ported
    obtain ⟨query, queried, queryPart⟩ := behindQuery_iff.mp asked
    obtain ⟨c, more, head, follows⟩ := @queryText_head fragment query queryPart
    obtain ⟨path, pathed, pathPart⟩ := (behindPath_iff follows).mp (queried.trans head)
    rw [← head] at pathed
    have continues := @pathText_continues fragment path query pathPart queryPart
    rw [pathed] at ported
    obtain ⟨port, ported, portPart⟩ := (behindPort_iff continues).mp ported
    have nonempty : behind ≠ [] := by
      rw [ported]
      exact append_ne_nil_of_right_ne_nil _ continues.nonempty
    obtain ⟨host, hosted, hostPart⟩ := (behindHost_iff nonempty).mp hosted
    have remains : hostStart items text ≠ [] := by
      rw [hosted]
      exact append_ne_nil_of_right_ne_nil _ nonempty
    obtain ⟨userinfo, informed, userinfoPart⟩ := (behindUserinfo_iff remains).mp rfl
    have schemed : behindScheme items text ≠ [] := by
      rw [informed]
      exact append_ne_nil_of_right_ne_nil _ remains
    obtain ⟨scheme, whole, schemePart⟩ := (behindScheme_iff schemed).mp rfl
    rw [hosted, ported] at informed
    rw [ported] at hostPart
    exact ⟨scheme, userinfo, host, port, path, query, by rw [whole, informed], schemePart,
      userinfoPart, hostPart, portPart, pathPart, queryPart⟩
  · rintro ⟨scheme, userinfo, host, port, path, query, rfl, schemePart, userinfoPart, hostPart,
      portPart, pathPart, queryPart⟩
    have continues := @pathText_continues fragment path query pathPart queryPart
    have behind := append_ne_nil_of_right_ne_nil port continues.nonempty
    have remains := append_ne_nil_of_right_ne_nil host behind
    have schemed := append_ne_nil_of_right_ne_nil userinfo remains
    obtain ⟨c, more, head, follows⟩ := @queryText_head fragment query queryPart
    unfold fragmentStart hostStart
    rw [(behindScheme_iff schemed).mpr ⟨scheme, rfl, schemePart⟩,
      (behindUserinfo_iff remains).mpr ⟨userinfo, rfl, userinfoPart⟩,
      (behindHost_iff behind).mpr ⟨host, rfl, hostPart⟩, Option.bind_some,
      (behindPort_iff continues).mpr ⟨port, rfl, portPart⟩, Option.map_some, head,
      (behindPath_iff follows).mpr ⟨path, rfl, pathPart⟩, ← head,
      behindQuery_iff.mpr ⟨query, rfl, queryPart⟩]

theorem HasFragment.hostStart_ne_nil (has : HasFragment items text fragment) :
    hostStart items text ≠ [] := by
  obtain ⟨scheme, userinfo, host, port, path, query, rfl, schemePart, userinfoPart, -, -,
    pathPart, queryPart⟩ := has
  have continues := @pathText_continues fragment path query pathPart queryPart
  have behind := append_ne_nil_of_right_ne_nil port continues.nonempty
  have remains := append_ne_nil_of_right_ne_nil host behind
  have schemed := append_ne_nil_of_right_ne_nil userinfo remains
  unfold hostStart
  rw [(behindScheme_iff schemed).mpr ⟨scheme, rfl, schemePart⟩,
    (behindUserinfo_iff remains).mpr ⟨userinfo, rfl, userinfoPart⟩]
  exact remains

end Fragment

end CLibs.Uris
