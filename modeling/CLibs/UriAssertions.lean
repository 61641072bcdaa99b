import CLibs.UriHostPrefixes

/-!
# From the states of the first pass to the texts

Each state knows what kind of text it has read and where the components that it has found stand.
So the pass can only fail at a `]` behind a text that leads into a host, and what it has found
stands in front of the end of the text unless the whole text leads into a host.
-/

namespace CLibs.Uris

open List

/-! ## From the states to the texts -/

def Reads (items : Items) : State → List UInt8 → Prop
  | .scheme, front => front ≠ [] ∧ SchemeText front ∧ items = { noItems with hasHost := true }
  | .authority, front => (∃ name, SchemeText name ∧ front = name ++ [colon]) ∧
      items = { noItems with hasHost := true }
  | .host, front => HostPrefix front ∧ Marks items front
  | .port, front => (∀ text, (∀ c ∈ text, Plain c) → HostPrefix (front ++ (text ++ [atSign]))) ∧
      MarksBefore items front
  | .hostIpv6, front => (∀ text, AddressText text → HostPrefix (front ++ (text ++ [closeBracket]))) ∧
      MarksBefore items front

/-- How the first pass ends: at a `]` of a host, with an error, or with components that leave
something for the host unless the whole text leads into one. -/
def Ends (front rest : List UInt8) (result : Except Fault (Option Items)) : Prop :=
  (result = .error .assertion ∧
    ∃ more behind, rest = more ++ closeBracket :: behind ∧ HostPrefix (front ++ more)) ∨
  result = .ok none ∨
  ∃ items, result = .ok (some items) ∧ items.hasHost = true ∧
    (MarksBefore items (front ++ rest) ∨ HostPrefix (front ++ rest) ∧ Marks items (front ++ rest))

section Step

variable {items : Items} {front rest : List UInt8} {c : UInt8}

theorem Ends.cons {result : Except Fault (Option Items)} (ends : Ends (front ++ [c]) rest result) :
    Ends front (c :: rest) result := by
  have whole : front ++ [c] ++ rest = front ++ c :: rest := by simp
  rcases ends with ⟨failed, more, behind, rfl, host⟩ | failed | ⟨items, found, has, marks⟩
  · exact .inl ⟨failed, c :: more, behind, rfl, by simpa using host⟩
  · exact .inr (.inl failed)
  · exact .inr (.inr ⟨items, found, has, by rwa [whole] at marks⟩)

theorem Ends.early {items : Items} (marks : Marks items front) :
    Ends front (c :: rest) (.ok (some items)) :=
  .inr (.inr ⟨items, rfl, marks.host, .inl ⟨front, c, rest, rfl, marks⟩⟩)

theorem MarksBefore.ends {items : Items} (before : MarksBefore items front) :
    Ends front rest (.ok (some items)) := by
  have host : items.hasHost = true := by
    obtain ⟨_, _, _, _, marks⟩ := before
    exact marks.host
  exact .inr (.inr ⟨items, rfl, host, .inl (before.append rest)⟩)

theorem plain_of_valid (valid : uriCharactersCheck c = true) (notColon : c ≠ colon)
    (notSlash : c ≠ slash) (notQuestion : c ≠ question) (notNumber : c ≠ number)
    (notOpen : c ≠ openBracket) (notClose : c ≠ closeBracket) (notAt : c ≠ atSign) : Plain c := by
  refine ⟨valid, ?_⟩
  simp [genDelims, notColon, notSlash, notQuestion, notNumber, notOpen, notClose, notAt]

def ReadsOn (rest : List UInt8) : Prop :=
  ∀ state items front, Reads items state front → Ends front rest (uriCheckFrom state items rest)

theorem scheme_step (text : SchemeText front) (valid : uriCharactersCheck c = true)
    (bracket : front = [] → c ≠ openBracket) (on : ReadsOn rest) :
    Ends front (c :: rest)
      (uriCheckFrom .scheme { noItems with hasHost := true } (c :: rest)) := by
  simp only [uriCheckFrom, valid, not_true_eq_false, if_false]
  by_cases isColon : c = colon
  · subst isColon
    rw [if_pos rfl]
    exact (on .authority _ _ ⟨⟨front, text, rfl⟩, rfl⟩).cons
  rw [if_neg isColon]
  by_cases isAt : c = atSign
  · subst isAt
    rw [if_pos rfl]
    exact (on .host { noItems with hasHost := true, hasUserinfo := true } _
      ⟨.user front text, ⟨rfl, fun has => (by cases has), fun _ _ => by simp⟩⟩).cons
  rw [if_neg isAt]
  split
  · exact Ends.early (bare_marks false front)
  · next others =>
      rw [not_or, not_or] at others
      refine (on .scheme _ _ ⟨by simp, ⟨?_, fun d member => ?_⟩, rfl⟩).cons
      · cases front with
        | nil => exact fun same => bracket rfl (Option.some.inj same)
        | cons d front => exact text.1
      · rcases mem_append.mp member with inside | last
        · exact text.2 d inside
        · obtain rfl := mem_singleton.mp last
          by_cases isOpen : d = openBracket
          · exact .inr (.inl isOpen)
          by_cases isClose : d = closeBracket
          · exact .inr (.inr isClose)
          exact .inl (plain_of_valid valid isColon others.1 others.2.1 others.2.2 isOpen isClose
            isAt)

theorem authority_step (reads : Reads items .authority front)
    (valid : uriCharactersCheck c = true) (on : ReadsOn rest)
    (skip : ∀ rest', rest = slash :: rest' → ReadsOn rest') :
    Ends front (c :: rest) (uriCheckFrom .authority items (c :: rest)) := by
  obtain ⟨⟨name, text, rfl⟩, rfl⟩ := reads
  by_cases isSlash : c = slash
  · subst isSlash
    have port := bare_marks true (name ++ [colon])
    cases rest with
    | nil => exact Ends.early port
    | cons next rest =>
      have unfold : uriCheckFrom .authority { noItems with hasHost := true }
          (slash :: next :: rest) = if next = slash then
            uriCheckFrom .host { noItems with hasHost := true, hasScheme := true } rest
          else .ok (some { noItems with hasHost := true, hasPort := true }) := rfl
      rw [unfold]
      split
      · next same =>
          subst same
          have host : HostPrefix (name ++ [colon] ++ [slash] ++ [slash]) := by
            simpa using HostPrefix.scheme name text
          refine (skip rest rfl .host { noItems with hasHost := true, hasScheme := true } _
            ⟨host, ⟨rfl, fun _ => ?_, nofun⟩⟩).cons.cons
          exact ⟨name, [], by simp, ⟨text.colon_notin, text.atSign_notin⟩,
            fun user => nomatch user⟩
      · exact Ends.early port
  · rw [uriCheckFrom_authority valid isSlash]
    refine (on .port { noItems with hasHost := true, hasPort := true } _
      ⟨fun more plain => ?_, ?_⟩).cons
    · simpa using HostPrefix.password name c more text valid isSlash plain
    · exact ⟨name ++ [colon], c, [], rfl, bare_marks true _⟩

theorem host_step (reads : Reads items .host front) (valid : uriCharactersCheck c = true)
    (on : ReadsOn rest) : Ends front (c :: rest) (uriCheckFrom .host items (c :: rest)) := by
  obtain ⟨host, marks⟩ := reads
  simp only [uriCheckFrom, valid, not_true_eq_false, if_false]
  by_cases isClose : c = closeBracket
  · subst isClose
    rw [if_pos rfl]
    exact .inl ⟨rfl, [], rest, rfl, by simpa using host⟩
  rw [if_neg isClose]
  by_cases isAt : c = atSign
  · subst isAt
    rw [if_pos rfl]
    exact (on .host _ _ ⟨host.userinfo _, marks.informed [] items.hasPort⟩).cons
  rw [if_neg isAt]
  by_cases isOpen : c = openBracket
  · subst isOpen
    rw [if_pos rfl]
    refine (on .hostIpv6 _ _ ⟨fun text address => ?_, front, _, [], rfl, marks⟩).cons
    simpa using host.bracket _ text address
  rw [if_neg isOpen]
  by_cases isColon : c = colon
  · subst isColon
    rw [if_pos rfl]
    refine (on .port _ _ ⟨fun text plain => ?_, front, _, [], rfl, marks.port true⟩).cons
    simpa using host.port _ text plain
  rw [if_neg isColon]
  split
  · exact Ends.early marks
  · next others =>
      rw [not_or, not_or] at others
      have plain := plain_of_valid valid isColon others.1 others.2.1 others.2.2 isOpen isClose isAt
      exact (on .host _ _ ⟨host.plain _ c plain, marks.append [c]⟩).cons

theorem port_step (reads : Reads items .port front) (valid : uriCharactersCheck c = true)
    (on : ReadsOn rest) : Ends front (c :: rest) (uriCheckFrom .port items (c :: rest)) := by
  obtain ⟨host, before⟩ := reads
  simp only [uriCheckFrom, valid, not_true_eq_false, if_false]
  by_cases isAt : c = atSign
  · subst isAt
    rw [if_pos rfl]
    refine (on .host _ _ ⟨by simpa using host [] (forall_mem_nil _), ?_⟩).cons
    obtain ⟨start, d, more, rfl, marks⟩ := before
    have found := marks.informed (d :: more) false
    simpa using found
  rw [if_neg isAt]
  split
  · exact .inr (.inl rfl)
  next brackets =>
    rw [not_or, not_or] at brackets
    split
    · obtain ⟨start, d, more, rfl, marks⟩ := before
      exact MarksBefore.ends ⟨start, d, more, rfl, marks.port true⟩
    next others =>
      rw [not_or, not_or] at others
      have plain := plain_of_valid valid brackets.2.2 others.1 others.2.1 others.2.2 brackets.1
        brackets.2.1 isAt
      refine (on .port _ _ ⟨fun text all => ?_, before.append [c]⟩).cons
      simpa using host (c :: text) (forall_mem_cons.mpr ⟨plain, all⟩)

theorem hostIpv6_step (reads : Reads items .hostIpv6 front) (valid : uriCharactersCheck c = true)
    (on : ReadsOn rest) : Ends front (c :: rest) (uriCheckFrom .hostIpv6 items (c :: rest)) := by
  obtain ⟨host, before⟩ := reads
  simp only [uriCheckFrom, valid, not_true_eq_false, if_false]
  by_cases isClose : c = closeBracket
  · subst isClose
    rw [if_pos rfl]
    refine (on .host _ _ ⟨by simpa using host [] (forall_mem_nil _), ?_⟩).cons
    obtain ⟨start, d, more, rfl, marks⟩ := before
    rw [append_assoc]
    exact marks.append _
  rw [if_neg isClose]
  split
  · exact .inr (.inl rfl)
  next others =>
    rw [not_or, not_or, not_or, not_or] at others
    have allowed : Plain c ∨ c = colon := by
      by_cases isColon : c = colon
      · exact .inr isColon
      · exact .inl (plain_of_valid valid isColon others.2.2.1 others.2.2.2.1 others.2.2.2.2
          others.2.1 isClose others.1)
    refine (on .hostIpv6 _ _ ⟨fun text all => ?_, before.append [c]⟩).cons
    simpa using host (c :: text) (forall_mem_cons.mpr ⟨allowed, all⟩)

theorem invalid_ends (state : State) (invalid : uriCharactersCheck c = false) :
    Ends front (c :: rest) (uriCheckFrom state items (c :: rest)) := by
  refine .inr (.inl ?_)
  cases rest <;> cases state <;> simp [uriCheckFrom, invalid]

theorem reads_nil {state : State} (reads : Reads items state front) :
    Ends front [] (.ok (some items)) := by
  have whole : front ++ [] = front := append_nil front
  cases state with
  | scheme =>
    obtain ⟨nonempty, -, rfl⟩ := reads
    cases front with
    | nil => exact absurd rfl nonempty
    | cons c rest => exact MarksBefore.ends ⟨[], c, rest, rfl, bare_marks false []⟩
  | authority =>
    obtain ⟨⟨name, -, rfl⟩, rfl⟩ := reads
    exact MarksBefore.ends ⟨name, colon, [], rfl, bare_marks false name⟩
  | host => exact .inr (.inr ⟨items, rfl, reads.2.host, .inr (by rwa [whole])⟩)
  | port => exact reads.2.ends
  | hostIpv6 => exact reads.2.ends

theorem readsOn (size : Nat) : ∀ rest : List UInt8, rest.length ≤ size → ReadsOn rest := by
  induction size with
  | zero =>
    intro rest short state items front reads
    obtain rfl := eq_nil_of_length_eq_zero (Nat.le_zero.mp short)
    have done : uriCheckFrom state items [] = .ok (some items) := by simp [uriCheckFrom]
    rw [done]
    exact reads_nil reads
  | succ size ih =>
    intro rest short state items front reads
    cases rest with
    | nil =>
      have done : uriCheckFrom state items [] = .ok (some items) := by simp [uriCheckFrom]
      rw [done]
      exact reads_nil reads
    | cons c rest =>
      have less : rest.length ≤ size := Nat.le_of_succ_le_succ short
      have on := ih rest less
      cases valid : uriCharactersCheck c with
      | false => exact invalid_ends state valid
      | true =>
        cases state with
        | scheme =>
          obtain ⟨nonempty, text, rfl⟩ := reads
          exact scheme_step text valid (fun none => absurd none nonempty) on
        | authority =>
          refine authority_step reads valid on fun rest' same => ih rest' ?_
          rw [same, length_cons] at less
          omega
        | host => exact host_step reads valid on
        | port => exact port_step reads valid on
        | hostIpv6 => exact hostIpv6_step reads valid on

theorem uriCheck_ends (text : List UInt8) (nonempty : text ≠ []) (relative : text.head? ≠ some slash) :
    Ends [] text (uriCheck text) := by
  cases text with
  | nil => exact absurd rfl nonempty
  | cons c rest =>
    have notSlash : c ≠ slash := fun same => relative (congrArg some same)
    have on := readsOn rest.length rest (Nat.le_refl _)
    simp only [uriCheck]
    by_cases valid : uriCharactersCheck c = true
    · rw [if_neg (not_not_intro valid), if_neg notSlash]
      by_cases bracket : c = openBracket
      · subst bracket
        rw [if_pos rfl]
        refine (on .hostIpv6 _ _ ⟨fun text address => ?_, [], _, [], rfl, bare_marks false []⟩).cons
        exact HostPrefix.address text address
      · rw [if_neg bracket]
        have empty : SchemeText [] := ⟨by simp, fun d member => absurd member not_mem_nil⟩
        exact scheme_step empty valid (fun _ => bracket) on
    · rw [if_pos valid]
      exact .inr (.inl rfl)

end Step

end CLibs.Uris

/-!
## The assertions of the parser

The first pass asserts that it finds no `]` among the characters of a host, the second that
something is left for the host.  Neither is checked before: the first fails exactly when a `]`
stands behind a text that leads into a host, the second exactly when such a text is all there is
and ends with its scheme or its first `@`.
-/

namespace CLibs.Uris

open List

/-! ## When the parser returns -/

/-- The text ends with its scheme or its first `@`. -/
def EndsBeforeHost (text : List UInt8) : Prop :=
  (∃ name, text = name ++ [colon, slash, slash]) ∨ ∃ user, text = user ++ [atSign] ∧ atSign ∉ user

/-- No `]` stands behind a text that leads into a host, and the text goes on behind its scheme and
its first `@`. -/
def KeepsAssertions (text : List UInt8) : Prop :=
  (∀ front rest, text = front ++ closeBracket :: rest → ¬HostPrefix front) ∧
    ¬(HostPrefix text ∧ EndsBeforeHost text)

variable {name text : List UInt8}

theorem HostPrefix.of_slashes (host : HostPrefix text)
    (whole : text = name ++ [colon, slash, slash]) : SchemeText name := by
  have split : name ++ [colon, slash, slash] = name ++ [colon, slash] ++ [slash] := by simp
  rw [split] at whole
  cases host with
  | scheme other text =>
    have same : other ++ [colon, slash] ++ [slash] = name ++ [colon, slash] ++ [slash] := by
      simpa using whole
    have equal := append_cancel_right same
    rwa [← append_cancel_right equal]
  | plain front c host plain =>
    have last := (append_inj' whole rfl).2
    rw [singleton_inj] at last
    exact absurd last plain.ne.2.1
  | user | password | address | userinfo | port | bracket =>
    have last := (append_inj' whole rfl).2
    cases last

theorem uriCheck_scheme_only (text : SchemeText name) :
    uriCheck (name ++ [colon, slash, slash]) =
      .ok (some { noItems with hasHost := true, hasScheme := true }) := by
  rw [text.starts (by decide) (by decide) (by decide)]
  rfl

variable {items : Items}

theorem behindUserinfo_end {user : List UInt8} (has : items.hasUserinfo = true)
    (free : atSign ∉ user) : behindUserinfo items (user ++ [atSign]) = [] := by
  rw [behindUserinfo, if_pos has, dropWhile_delimiter_iff.mpr ⟨rfl, user, rfl, free⟩]
  rfl

theorem behindScheme_end {rest : List UInt8} (has : items.hasScheme = true) (free : colon ∉ name) :
    behindScheme items (name ++ colon :: slash :: slash :: rest) = rest := by
  rw [behindScheme, if_pos has, dropWhile_delimiter_iff.mpr ⟨rfl, name, rfl, free⟩]
  rfl

theorem HostPrefix.nothing_left (host : HostPrefix text) (ends : EndsBeforeHost text) :
    ∃ items, uriCheck text = .ok (some items) ∧ items.hasHost = true ∧
      hostStart items text = [] := by
  rcases ends with ⟨name, whole⟩ | ⟨user, whole, free⟩
  · have scheme := host.of_slashes whole
    subst whole
    refine ⟨_, uriCheck_scheme_only scheme, rfl, ?_⟩
    rw [hostStart, behindScheme_end rfl scheme.colon_notin]
    rfl
  · obtain ⟨items, marks, found, check⟩ := host.check
    have checked : uriCheck text = .ok (some items) := by
      have read := check []
      rwa [append_nil] at read
    have has := found (by simp [whole])
    refine ⟨items, checked, marks.host, ?_⟩
    cases scheme : items.hasScheme with
    | false =>
      rw [hostStart, behindScheme, if_neg (by simp [scheme]), whole]
      exact behindUserinfo_end has free
    | true =>
      obtain ⟨name, rest, same, absent, inside⟩ := marks.scheme scheme
      rcases eq_nil_or_concat rest with rfl | ⟨before, last, concat⟩
      · exact absurd (inside has) not_mem_nil
      · rw [concat_eq_append] at concat
        subst concat
        rw [same, hostStart, behindScheme_end scheme absent.1]
        have split : user ++ [atSign] =
            name ++ colon :: slash :: slash :: before ++ [last] := by
          rw [← whole, same]
          simp
        obtain ⟨front, sign⟩ := append_inj' split rfl
        obtain rfl := singleton_inj.mp sign
        refine behindUserinfo_end has fun member => free ?_
        rw [front]
        simp [member]

theorem Marks.endsBeforeHost (marks : Marks items text) (nonempty : text ≠ [])
    (nothing : hostStart items text = []) : EndsBeforeHost text := by
  have ended : ∀ rest : List UInt8, (items.hasUserinfo = true → atSign ∈ rest) →
      behindUserinfo items rest = [] →
      rest = [] ∨ ∃ before, rest = before ++ [atSign] ∧ atSign ∉ before := by
    intro rest inside none
    cases has : items.hasUserinfo with
    | false =>
      rw [behindUserinfo, if_neg (by simp [has])] at none
      exact .inl none
    | true =>
      obtain ⟨before, behind, rfl, free⟩ := eq_append_cons_of_mem (inside has)
      rw [behindUserinfo, if_pos has, dropWhile_delimiter_iff.mpr ⟨rfl, before, rfl, free⟩] at none
      have none : behind = [] := none
      exact .inr ⟨before, by rw [none], free⟩
  cases scheme : items.hasScheme with
  | false =>
    rw [hostStart, behindScheme, if_neg (by simp [scheme])] at nothing
    exact .inr ((ended text (marks.userinfo scheme) nothing).resolve_left nonempty)
  | true =>
    obtain ⟨name, rest, rfl, absent, inside⟩ := marks.scheme scheme
    rw [hostStart, behindScheme_end scheme absent.1] at nothing
    rcases ended rest inside nothing with rfl | ⟨before, rfl, free⟩
    · exact .inl ⟨name, rfl⟩
    · refine .inr ⟨name ++ colon :: slash :: slash :: before, by simp, ?_⟩
      simp only [mem_append, mem_cons, not_or]
      exact ⟨absent.2, by decide, by decide, by decide, free⟩

theorem uriCheck_zero (zero : text.head? = some 0) : uriCheck text = .ok none := by
  cases text with
  | nil => cases zero
  | cons c rest =>
    obtain rfl := Option.some.inj zero
    rfl

/-- For every text, the parser returns, without an assertion that fails, exactly when no `]` stands
behind a text that leads into a host and the text goes on behind its scheme and first `@`. -/
theorem uri_parse_returns_iff (text : List UInt8) :
    (∀ malloc after, ∃ result, uriParse malloc text after = .ok result) ↔ KeepsAssertions text := by
  constructor
  · intro returns
    have parsed : text ≠ [] → text.head? ≠ some 0 →
        uriParse true text 0 = uriParseComplex text 0 :=
      fun nonempty first => if_neg (by simp [nonempty, first])
    refine ⟨fun front rest whole host => ?_, fun ⟨host, ends⟩ => ?_⟩
    · obtain ⟨items, -, -, check⟩ := host.check
      have failed : uriCheck text = .error .assertion := by
        rw [whole, check]
        rfl
      have nonempty : text ≠ [] := by simp [whole]
      have first : text.head? ≠ some 0 := by
        intro zero
        rw [uriCheck_zero zero] at failed
        cases failed
      obtain ⟨result, returned⟩ := returns true 0
      rw [parsed nonempty first, uriParseComplex, failed] at returned
      cases returned
    · obtain ⟨items, checked, has, nothing⟩ := host.nothing_left ends
      have nonempty : text ≠ [] := by
        rintro rfl
        rcases ends with ⟨name, whole⟩ | ⟨user, whole, -⟩ <;> simp at whole
      have first : text.head? ≠ some 0 := by
        intro zero
        rw [uriCheck_zero zero] at checked
        cases checked
      obtain ⟨result, returned⟩ := returns true 0
      rw [parsed nonempty first, uriParseComplex, checked, ok_bind] at returned
      rcases uriParseItems_returns items text 0 with ⟨failed, -⟩ | ⟨-, something⟩
      · simp only [failed] at returned
        cases returned
      · exact something ⟨has, nothing⟩
  · rintro ⟨unbracketed, goesOn⟩ malloc after
    by_cases early : text = [] ∨ text.head? = some 0 ∨ ¬malloc
    · exact ⟨none, if_pos early⟩
    have parsed : uriParse malloc text after = uriParseComplex text after := if_neg early
    rw [not_or, not_or] at early
    rw [parsed]
    have left : ∀ items, uriCheck text = .ok (some items) →
        ¬(items.hasHost = true ∧ hostStart items text = []) →
        ∃ result, uriParseComplex text after = .ok result := by
      intro items checked something
      rw [uriParseComplex, checked, ok_bind]
      rcases uriParseItems_returns items text after with ⟨-, nothing⟩ | ⟨returned, -⟩
      · exact absurd nothing something
      · exact returned
    by_cases relative : text.head? = some slash
    · cases text with
      | nil => cases relative
      | cons c rest =>
        obtain rfl := Option.some.inj relative
        exact left noItems rfl (by simp [noItems])
    · rcases uriCheck_ends text early.1 relative with
        ⟨-, more, behind, whole, host⟩ | refused | ⟨items, checked, has, marks⟩
      · exact absurd host (unbracketed more behind whole)
      · refine ⟨none, ?_⟩
        rw [uriParseComplex, refused]
        rfl
      · apply left items checked
        rintro ⟨-, nothing⟩
        rcases marks with before | ⟨host, marks⟩
        · exact before.hostStart_ne_nil nothing
        · exact goesOn ⟨host, marks.endsBeforeHost early.1 nothing⟩

/-- A `]` behind a scheme, and a text that ends with its userinfo. -/
theorem uri_parse_asserts :
    uriParse true [0x61, colon, slash, slash, closeBracket] 0 = .error .assertion ∧
      uriParse true [0x61, atSign] 0 = .error .assertion := by
  decide

end CLibs.Uris
