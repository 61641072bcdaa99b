import CLibs.UriRendering

/-!
# Parsing a rendered URI

The second pass splits the text on the guess of the first.  Each of its steps
returns its component and leaves the text behind it, so the passes agree on a
rendered text whenever the first one finds its components; the block behind the
`uri_t` is large enough for all of them.
-/

namespace CLibs.Uris

open List

/-! ## One component -/

section Parse

variable {size used : Nat} {text tail : List UInt8}

theorem keep_eq (fits : used + (text.length + 1) ≤ size) :
    keep size used text = .ok (used + (text.length + 1)) := if_pos fits

theorem takeWhile_component {inside : UInt8 → Bool} (all : ∀ c ∈ text, inside c = true)
    (ends : ∀ c, tail.head? = some c → inside c = false) :
    (text ++ tail).takeWhile inside = text := by
  rw [takeWhile_append_of_pos all]
  cases tail with
  | nil => exact append_nil text
  | cons c tail =>
    rw [takeWhile_cons_of_neg (by simp [ends c rfl]), append_nil]

theorem parseUpTo_eq {delimiter : UInt8} {skip : Nat} (absent : ∀ c ∈ text, c ≠ delimiter)
    (fits : used + (text.length + 1) ≤ size) :
    parseUpTo delimiter skip size used (text ++ delimiter :: tail) =
      .ok ⟨some text, (delimiter :: tail).drop skip, used + (text.length + 1)⟩ := by
  have value : (text ++ delimiter :: tail).takeWhile (fun c => decide (c ≠ delimiter)) = text := by
    apply takeWhile_component
    · exact fun c member => decide_eq_true (absent c member)
    · rintro c ⟨⟩
      exact decide_eq_false (not_not_intro rfl)
  unfold parseUpTo
  simp only [value, keep_eq fits, drop_left]
  rfl

theorem allowed_ne_zero {c : UInt8} (valid : uriCharactersCheck c = true) : c ≠ 0 := by
  rintro rfl
  exact absurd valid (by decide)

theorem Ending.badEnd (ending : Ending tail) : badEnd tail = false := by
  cases tail with
  | nil => rfl
  | cons c tail => rcases ending c rfl with rfl | rfl | rfl <;> rfl

theorem Plain.inside_host {c : UInt8} (plain : Plain c) :
    (decide (c ≠ 0) && !endsHost c) = true := by
  obtain ⟨notColon, notSlash, notQuestion, notNumber, -⟩ := plain.ne
  have nonzero := allowed_ne_zero plain.1
  simp [endsHost, notColon, notSlash, notQuestion, notNumber, nonzero]

/-! ## A port -/

theorem digit_toNat : ∀ digit < 10, (UInt8.ofNat (0x30 + digit)).toNat = 0x30 + digit := by decide

theorem digit_isDigit : ∀ digit < 10, isDigit (UInt8.ofNat (0x30 + digit)) = true := by decide

theorem portValue_digits {digits : List Nat} (small : ∀ digit ∈ digits, digit < 10)
    (bound : Nat.ofDigits 10 digits < 2 ^ 31) :
    portValue (digits.reverse.map fun digit => UInt8.ofNat (0x30 + digit)) =
      (Nat.ofDigits 10 digits : Nat) := by
  induction digits with
  | nil => rfl
  | cons digit digits ih =>
    have value := digit_toNat digit (small digit mem_cons_self)
    rw [Nat.ofDigits_cons] at bound ⊢
    have higher := ih (forall_mem_cons.mp small).2
      (by omega)
    unfold portValue at higher ⊢
    rw [reverse_cons, map_append, foldl_append, higher, map_singleton,
      foldl_cons, foldl_nil, value]
    rw [Int.bmod_eq_of_le (by omega) (by omega)]
    push_cast
    omega

theorem portValue_decimal {value : Nat} (bound : value < 2 ^ 31) :
    portValue (decimal value) = value := by
  unfold decimal
  split
  · rename_i zero
    rw [zero]
    rfl
  · rw [portValue_digits]
    · rw [Nat.ofDigits_digits]
    · exact fun digit member => Nat.digits_lt_base (by decide) member
    · rwa [Nat.ofDigits_digits]

theorem decimal_isDigit {value : Nat} : ∀ c ∈ decimal value, isDigit c = true := by
  intro c member
  unfold decimal at member
  split at member
  · rw [mem_singleton.mp member]
    decide
  · obtain ⟨digit, digits, rfl⟩ := mem_map.mp member
    exact digit_isDigit digit (Nat.digits_lt_base (by decide) (mem_reverse.mp digits))

end Parse

/-! ## The second pass over a rendered text -/

/-- The bytes that an optional component takes in the block. -/
def taken (component : Option (List UInt8)) : Nat := (component.map (·.length + 1)).getD 0

namespace Components

open List

variable {parts : Components} {size used : Nat}

theorem Valid.parseScheme_eq (valid : parts.Valid) (fits : used + taken parts.scheme ≤ size) :
    parseScheme parts.items size used parts.render =
      .ok ⟨parts.scheme, parts.userinfoText ++ parts.hostText, used + taken parts.scheme⟩ := by
  unfold parseScheme items render schemeText
  cases given : parts.scheme with
  | none => rfl
  | some text =>
    rw [given] at fits
    rw [Option.map_some, Option.getD_some, append_assoc, Option.isSome_some, if_pos rfl]
    exact parseUpTo_eq (fun c member => (valid.scheme text given c member).ne.1) fits

theorem Valid.parseUserinfo_eq (valid : parts.Valid)
    (fits : used + taken (parts.userinfo.map (·.text)) ≤ size) :
    parseUserinfo parts.items size used (parts.userinfoText ++ parts.hostText) =
      .ok ⟨parts.userinfo.map (·.text), parts.hostText,
        used + taken (parts.userinfo.map (·.text))⟩ := by
  unfold parseUserinfo items userinfoText
  cases given : parts.userinfo with
  | none => rfl
  | some userinfo =>
    rw [given] at fits
    rw [Option.map_some, Option.getD_some, append_assoc, Option.isSome_some, if_pos rfl]
    refine parseUpTo_eq ?_ fits
    intro c member
    rcases valid.userinfo_allowed given c member with plain | rfl
    · exact plain.ne.2.2.2.2.2.2
    · decide

theorem portText_badEnd (parts : Components) :
    badEnd (parts.portText ++ parts.tailText) = false := by
  unfold portText
  cases parts.port with
  | none => exact parts.tailText_ending.badEnd
  | some port => rfl

theorem Valid.parseHost_eq (valid : parts.Valid)
    (fits : used + (parts.host.value.length + 1) ≤ size) :
    parseHost parts.items size used parts.hostText =
      .ok (some ⟨some parts.host.value, parts.portText ++ parts.tailText,
        used + (parts.host.value.length + 1)⟩) := by
  have sound := parts.portText_badEnd
  unfold parseHost items hostText
  rw [if_pos rfl]
  cases given : parts.host with
  | name text =>
    rw [given] at fits
    obtain ⟨nonempty, plain⟩ := valid.name text given
    have value : (text ++ (parts.portText ++ parts.tailText)).takeWhile
        (fun c => decide (c ≠ 0) && !endsHost c) = text := by
      apply takeWhile_component fun c member => (plain c member).inside_host
      intro c first
      cases rest : parts.portText ++ parts.tailText with
      | nil =>
        rw [rest] at first
        exact absurd first nofun
      | cons other tail =>
        rw [rest] at first sound
        rw [← Option.some.inj first]
        exact sound
    cases text with
    | nil => exact absurd rfl nonempty
    | cons c text =>
      have notOpen := (plain c mem_cons_self).ne.2.2.2.2.1
      have room : used + ((c :: text).length + 1) ≤ size := fits
      simp only [Host.text, Host.value]
      rw [cons_append] at value ⊢
      simp only [notOpen, if_false, value, keep_eq room]
      rw [← cons_append, drop_left]
      rfl
  | ipv6 text =>
    rw [given] at fits
    have value : (text ++ closeBracket :: (parts.portText ++ parts.tailText)).takeWhile
        (fun c => decide (c ≠ closeBracket)) = text := by
      apply takeWhile_component
      · intro c member
        rcases valid.ipv6 text given c member with plain | rfl
        · exact decide_eq_true plain.ne.2.2.2.2.2.1
        · rfl
      · rintro c ⟨⟩
        rfl
    have room : used + (text.length + 1) ≤ size := fits
    simp only [Host.text, Host.value, cons_append, append_assoc, nil_append,
      if_true, value, keep_eq room, drop_left, drop_succ_cons, drop_zero, sound,
      Bool.false_eq_true, if_false]
    rfl

theorem Valid.parsePort_eq (valid : parts.Valid) :
    parsePort parts.items (parts.portText ++ parts.tailText) =
      some (((parts.port.getD 0 : Nat) : Int), parts.tailText) := by
  have sound := parts.tailText_ending.badEnd
  unfold parsePort items portText
  cases given : parts.port with
  | none => rfl
  | some port =>
    have digits : (decimal port ++ parts.tailText).takeWhile isDigit = decimal port := by
      apply takeWhile_component decimal_isDigit
      intro c first
      rcases parts.tailText_ending c first with rfl | rfl | rfl <;> rfl
    simp only [Option.map_some, Option.getD_some, cons_append, drop_succ_cons,
      drop_zero, Option.isSome_some, if_true, digits, drop_left, sound,
      portValue_decimal (valid.port port given), Bool.false_eq_true, if_false]

theorem Valid.parsePath_eq (valid : parts.Valid)
    (fits : used + ((parts.path.getD []).length + 2) ≤ size) :
    parsePath size used parts.tailText =
      .ok ⟨slash :: parts.path.getD [], parts.queryText ++ parts.fragmentText,
        used + ((parts.path.getD []).length + 2)⟩ := by
  unfold parsePath tailText pathText
  have ends : ∀ c, (parts.queryText ++ parts.fragmentText).head? = some c →
      c = question ∨ c = number := by
    intro c first
    unfold queryText fragmentText at first
    cases query : parts.query <;> cases fragment : parts.fragment <;>
      simp only [query, fragment, Option.map_none, Option.map_some, Option.getD_none,
        Option.getD_some, nil_append, cons_append, List.head?_cons, List.head?_nil,
        Option.some.injEq, reduceCtorEq] at first <;>
      simp only [← first, true_or, or_true]
  cases given : parts.path with
  | none =>
    rw [given] at fits
    have other : (parts.queryText ++ parts.fragmentText).head? ≠ some slash := by
      intro first
      rcases ends slash first with same | same <;> exact absurd same (by decide)
    simp only [Option.map_none, Option.getD_none, nil_append, other, if_false]
    have room : used + ([slash].length + 1) ≤ size := fits
    rw [keep_eq room]
    rfl
  | some text =>
    rw [given] at fits
    have value : (slash :: text ++ (parts.queryText ++ parts.fragmentText)).takeWhile
        (fun c => decide (c ≠ 0 ∧ c ≠ question ∧ c ≠ number)) = slash :: text := by
      apply takeWhile_component
      · intro c member
        rcases mem_cons.mp member with rfl | inside
        · decide
        · obtain ⟨allowed, notQuestion, notNumber⟩ := valid.path text given c inside
          exact decide_eq_true ⟨allowed_ne_zero allowed, notQuestion, notNumber⟩
      · intro c first
        rcases ends c first with rfl | rfl <;> rfl
    have room : used + ((slash :: text).length + 1) ≤ size := fits
    rw [Option.map_some, Option.getD_some, if_pos (by rfl)]
    simp only [value, keep_eq room, drop_left]
    rfl

theorem Valid.parseQuery_eq (valid : parts.Valid) (fits : used + taken parts.query ≤ size) :
    parseQuery size used (parts.queryText ++ parts.fragmentText) =
      .ok ⟨parts.query, parts.fragmentText, used + taken parts.query⟩ := by
  unfold parseQuery queryText
  have ends : ∀ c, parts.fragmentText.head? = some c → c = number := by
    intro c first
    unfold fragmentText at first
    cases fragment : parts.fragment with
    | none =>
      rw [fragment] at first
      exact absurd first nofun
    | some text =>
      rw [fragment] at first
      exact (Option.some.inj first).symm
  cases given : parts.query with
  | none =>
    have other : parts.fragmentText.head? ≠ some question := fun first =>
      absurd (ends question first) (by decide)
    simp only [Option.map_none, Option.getD_none, nil_append, other, if_false]
    rfl
  | some text =>
    rw [given] at fits
    have value : (text ++ parts.fragmentText).takeWhile
        (fun c => decide (c ≠ 0 ∧ c ≠ number)) = text := by
      apply takeWhile_component
      · intro c member
        obtain ⟨allowed, notNumber⟩ := valid.query text given c member
        exact decide_eq_true ⟨allowed_ne_zero allowed, notNumber⟩
      · intro c first
        rw [ends c first]
        rfl
    have room : used + (text.length + 1) ≤ size := fits
    rw [Option.map_some, Option.getD_some, cons_append, List.head?_cons, if_pos rfl]
    simp only [drop_succ_cons, drop_zero, value, keep_eq room, drop_left]
    rfl

theorem Valid.parseFragment_eq (valid : parts.Valid) (fits : used + taken parts.fragment ≤ size) :
    parseFragment size used 0 parts.fragmentText = .ok parts.fragment := by
  unfold parseFragment fragmentText
  cases given : parts.fragment with
  | none => rfl
  | some text =>
    rw [given] at fits
    have value : (text ++ [0]).takeWhile (fun c => decide (c ≠ 0)) = text := by
      apply takeWhile_component
      · exact fun c member => decide_eq_true (allowed_ne_zero (valid.fragment text given c member))
      · rintro c ⟨⟩
        rfl
    have room : used + (text.length + 1) ≤ size := fits
    rw [Option.map_some, Option.getD_some, List.head?_cons, if_pos rfl]
    simp only [drop_succ_cons, drop_zero, value, keep_eq room]
    rfl

theorem taken_le (parts : Components) :
    taken parts.scheme + taken (parts.userinfo.map (·.text)) + (parts.host.value.length + 1) +
        ((parts.path.getD []).length + 2) + taken parts.query + taken parts.fragment ≤
      parts.render.length + 5 := by
  have scheme : taken parts.scheme ≤ parts.schemeText.length := by
    unfold taken schemeText
    cases parts.scheme <;> simp
  have userinfo : taken (parts.userinfo.map (·.text)) ≤ parts.userinfoText.length := by
    unfold taken userinfoText
    cases parts.userinfo <;> simp
  have host : parts.host.value.length ≤ parts.host.text.length := by
    cases parts.host with
    | name text => exact Nat.le_refl _
    | ipv6 text => simp only [Host.value, Host.text, length_append, length_cons]; omega
  have path : (parts.path.getD []).length ≤ parts.pathText.length := by
    unfold pathText
    cases parts.path <;> simp
  have query : taken parts.query ≤ parts.queryText.length := by
    unfold taken queryText
    cases parts.query <;> simp
  have fragment : taken parts.fragment ≤ parts.fragmentText.length := by
    unfold taken fragmentText
    cases parts.fragment <;> simp
  simp only [render, hostText, tailText, length_append]
  omega

theorem Valid.uriParseItems_render (valid : parts.Valid) :
    uriParseItems parts.items parts.render 0 = .ok (some parts.uri) := by
  have room := parts.taken_le
  have scheme : parseScheme parts.items (parts.render.length + 5) 0 parts.render = _ :=
    valid.parseScheme_eq (by omega)
  unfold uriParseItems
  dsimp only
  rw [scheme]
  dsimp only [bind, Except.bind]
  rw [valid.parseUserinfo_eq (by omega)]
  dsimp only
  rw [valid.parseHost_eq (by omega)]
  dsimp only
  rw [valid.parsePort_eq]
  dsimp only
  rw [valid.parsePath_eq (by omega)]
  dsimp only
  rw [valid.parseQuery_eq (by omega)]
  dsimp only
  rw [valid.parseFragment_eq (by omega)]
  rfl

end Components

/-! ## Both passes -/

section Both

variable {items : Items} {text : List UInt8} {after : UInt8}

theorem uriParse_of_check (found : uriCheck text = .ok (some items))
    (host : items.hasHost = true) : uriParse true text after = uriParseItems items text after := by
  have readable : ¬ (text = [] ∨ text.head? = some 0 ∨ ¬ true) := by
    rintro (empty | zero | missing)
    · subst empty
      rw [← Option.some.inj (Except.ok.inj found)] at host
      exact absurd host nofun
    · cases text with
      | nil => exact absurd zero nofun
      | cons c text =>
        rw [Option.some.inj zero] at found
        exact absurd found nofun
    · exact missing rfl
  unfold uriParse uriParseComplex
  rw [if_neg readable, found]
  rfl

theorem uriParse_of_check_none (found : uriCheck text = .ok none) :
    uriParse true text after = .ok none := by
  unfold uriParse uriParseComplex
  split
  · rfl
  · rw [found]
    rfl

theorem uriParseItems_userinfo {uri : Uri} (missed : items.hasUserinfo = false)
    (parsed : uriParseItems items text after = .ok (some uri)) : uri.userinfo = none := by
  unfold uriParseItems parseUserinfo at parsed
  rw [missed] at parsed
  obtain ⟨scheme, -, parsed⟩ := ok_of_bind parsed
  obtain ⟨userinfo, nothing, parsed⟩ := ok_of_bind parsed
  obtain ⟨host, -, parsed⟩ := ok_of_bind parsed
  have absent : userinfo.value = none := by rw [← Except.ok.inj nothing]
  cases host with
  | none => exact absurd parsed nofun
  | some host =>
    dsimp only at parsed
    split at parsed
    · exact absurd parsed nofun
    · obtain ⟨path, -, parsed⟩ := ok_of_bind parsed
      obtain ⟨query, -, parsed⟩ := ok_of_bind parsed
      obtain ⟨fragment, -, parsed⟩ := ok_of_bind parsed
      rw [← Option.some.inj (Except.ok.inj parsed)]
      exact absent

end Both

/-! ## A password that is taken for a port -/

namespace Components

open List

variable {parts : Components}

/-- What the first pass makes of a text in which it misses the user. -/
def Missed (checked : Except Fault (Option Items)) : Prop :=
  checked = .ok none ∨
    ∃ items : Items, checked = .ok (some items) ∧ items.hasHost = true ∧ items.hasUserinfo = false

theorem Valid.missed_second_colon {scheme password : List UInt8} {userinfo : Userinfo}
    (valid : parts.Valid) (given : parts.scheme = some scheme)
    (user : parts.userinfo = some userinfo) (written : userinfo.password = some password)
    (second : colon ∈ password) : uriCheck parts.render = .ok none := by
  have text : parts.userinfoText ++ parts.hostText =
      userinfo.user ++ colon :: (password ++ atSign :: parts.hostText) := by
    simp only [userinfoText, Userinfo.text, user, written, Option.map_some, Option.getD_some,
      append_assoc, cons_append, nil_append]
  rw [valid.check_scheme given, text, uriCheckFrom_plain (by decide) (valid.user userinfo user)]
  calc
    _ = uriCheckFrom .port _ (password ++ atSign :: parts.hostText) := rfl
    _ = .ok none :=
      uriCheckFrom_port_colon (valid.password userinfo user password written) second

theorem Valid.missed_at_sign (valid : parts.Valid) {items : Items} (port : items.hasPort = true)
    (host : items.hasHost = true) (missed : items.hasUserinfo = false) :
    Missed (uriCheckFrom .port items parts.hostText) := by
  unfold hostText
  cases given : parts.host with
  | ipv6 text => exact .inl rfl
  | name text =>
    have named : uriCheckFrom .port items (text ++ (parts.portText ++ parts.tailText)) =
        uriCheckFrom .port items (parts.portText ++ parts.tailText) :=
      uriCheckFrom_plain (by decide) (valid.name text given).2
    rw [Host.text, named]
    unfold portText
    cases parts.port with
    | some number => exact .inl rfl
    | none =>
      right
      refine ⟨items, ?_, host, missed⟩
      exact uriCheckFrom_ending parts.tailText_ending (.inr (.inr ⟨rfl, port⟩))

theorem Valid.missed_without_scheme {password : List UInt8} {userinfo : Userinfo}
    (valid : parts.Valid) (absent : parts.scheme = none)
    (user : parts.userinfo = some userinfo) (written : userinfo.password = some password)
    (taken : password = [] ∨ colon ∈ password.tail) : Missed (uriCheck parts.render) := by
  have allowed := valid.password userinfo user password written
  have text : userinfo.text ++ atSign :: parts.hostText =
      userinfo.user ++ colon :: (password ++ atSign :: parts.hostText) := by
    simp only [Userinfo.text, written, Option.map_some, Option.getD_some, append_assoc,
      cons_append]
  have colons : uriCheckFrom .scheme hosted (colon :: (password ++ atSign :: parts.hostText)) =
      uriCheckFrom .authority hosted (password ++ atSign :: parts.hostText) := rfl
  rw [valid.check_userinfo absent user, text,
    uriCheckFrom_plain (by decide) (valid.user userinfo user), colons]
  cases password with
  | nil =>
    rw [nil_append, uriCheckFrom_authority (by decide) (by decide)]
    exact valid.missed_at_sign rfl rfl rfl
  | cons c rest =>
    have second : colon ∈ rest := taken.resolve_left (cons_ne_nil c rest)
    have first : uriCharactersCheck c = true ∧ c ≠ slash := by
      rcases allowed c mem_cons_self with plain | rfl
      · exact ⟨plain.1, plain.ne.2.1⟩
      · decide
    left
    rw [cons_append, uriCheckFrom_authority first.1 first.2]
    apply uriCheckFrom_port_colon _ second
    exact (forall_mem_cons.mp allowed).2

theorem Valid.missed (valid : parts.Valid) (indistinct : ¬parts.Distinct) :
    parts.userinfo ≠ none ∧ Missed (uriCheck parts.render) := by
  unfold Distinct at indistinct
  push Not at indistinct
  obtain ⟨userinfo, user, password, written, taken⟩ := indistinct
  refine ⟨by simp [user], ?_⟩
  cases scheme : parts.scheme with
  | some text =>
    left
    apply valid.missed_second_colon scheme user written
    simpa [scheme] using taken
  | none =>
    apply valid.missed_without_scheme scheme user written
    simpa [scheme, Classical.or_iff_not_imp_left] using taken

/-! ## The round trip -/

/-- Parsing a rendered text returns its components exactly if the password
cannot be taken for a port. -/
theorem uri_parse_inverts_rendering (valid : parts.Valid) :
    uriParse true parts.render 0 = .ok (some parts.uri) ↔ parts.Distinct := by
  constructor
  · intro parsed
    by_contra indistinct
    obtain ⟨present, missed | ⟨items, found, host, missed⟩⟩ := valid.missed indistinct
    · rw [uriParse_of_check_none missed] at parsed
      exact absurd parsed nofun
    · rw [uriParse_of_check found host] at parsed
      have absent : parts.userinfo.map (·.text) = none := uriParseItems_userinfo missed parsed
      exact present (Option.map_eq_none_iff.mp absent)
  · intro distinct
    rw [uriParse_of_check (valid.uriCheck_render distinct) rfl]
    exact valid.uriParseItems_render

def fullParts : Components where
  scheme := some [0x68, 0x74, 0x74, 0x70]
  userinfo := some ⟨[0x75, 0x73, 0x65, 0x72], some [0x70, 0x61, 0x73, 0x73]⟩
  host := .ipv6 [0x3a, 0x3a, 0x31]
  port := some 8080
  path := some [0x61]
  query := some [0x62]
  fragment := some [0x63]

theorem forall_of_all {test : UInt8 → Prop} [DecidablePred test] {text : List UInt8}
    (all : text.all (fun c => decide (test c)) = true) : ∀ c ∈ text, test c := by
  intro c member
  exact of_decide_eq_true (all_eq_true.mp all c member)

theorem fullParts_valid : fullParts.Valid where
  scheme := by
    rintro text ⟨⟩
    exact forall_of_all rfl
  user := by
    rintro userinfo ⟨⟩
    exact forall_of_all rfl
  password := by
    rintro userinfo ⟨⟩ text ⟨⟩
    exact forall_of_all rfl
  name := by
    rintro text ⟨⟩
  ipv6 := by
    rintro text ⟨⟩
    exact forall_of_all rfl
  port := by
    rintro port ⟨⟩
    decide
  path := by
    rintro text ⟨⟩
    exact forall_of_all rfl
  query := by
    rintro text ⟨⟩
    exact forall_of_all rfl
  fragment := by
    rintro text ⟨⟩
    exact forall_of_all rfl

/-- A URI with all of its components. -/
theorem uri_parse_inverts_rendering_full :
    fullParts.Distinct ∧ uriParse true fullParts.render 0 = .ok (some fullParts.uri) := by
  have distinct : fullParts.Distinct := by
    rintro userinfo ⟨⟩ text ⟨⟩
    decide
  exact ⟨distinct, (uri_parse_inverts_rendering fullParts_valid).mpr distinct⟩

/-- `user:@host`, with an empty password and no scheme. -/
def emptyPassword : Components where
  scheme := none
  userinfo := some ⟨[0x75, 0x73, 0x65, 0x72], some []⟩
  host := .name [0x68, 0x6f, 0x73, 0x74]
  port := none
  path := none
  query := none
  fragment := none

theorem emptyPassword_valid : emptyPassword.Valid where
  scheme := by
    rintro text ⟨⟩
  user := by
    rintro userinfo ⟨⟩
    exact forall_of_all rfl
  password := by
    rintro userinfo ⟨⟩ text ⟨⟩
    exact forall_of_all rfl
  name := by
    rintro text ⟨⟩
    exact ⟨nofun, forall_of_all rfl⟩
  ipv6 := by
    rintro text ⟨⟩
  port := by
    rintro port ⟨⟩
  path := by
    rintro text ⟨⟩
  query := by
    rintro text ⟨⟩
  fragment := by
    rintro text ⟨⟩

/-- The at sign is read as the first character of a port and the text is refused. -/
theorem uri_parse_refuses_empty_password :
    emptyPassword.Valid ∧ uriParse true emptyPassword.render 0 = .ok none ∧
      uriParse true emptyPassword.render 0 ≠ .ok (some emptyPassword.uri) :=
  ⟨emptyPassword_valid, by decide, by decide⟩

end Components

end CLibs.Uris
