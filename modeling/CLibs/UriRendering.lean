import CLibs.UriParse
import Mathlib.Data.Nat.Digits.Defs

/-!
# The first pass over a rendered URI

Components are rendered as in the comment of `uri-parse.h`.  The first pass
guesses which components there are; its chunk lemmas say that a state reads over
the characters of a component, so the guess is found by following the states
along the rendered text.
-/

namespace CLibs.Uris

open List

/-! ## Components and their text -/

/-- The delimiters of the generic syntax. -/
def genDelims : List UInt8 :=
  [colon, slash, question, number, openBracket, closeBracket, atSign]

/-- A character of a name: unreserved, of a sub-delimiter or of an escape. -/
def Plain (c : UInt8) : Prop := uriCharactersCheck c = true ∧ c ∉ genDelims

instance : DecidablePred Plain := fun _ => inferInstanceAs (Decidable (_ ∧ _))

/-- User and password. -/
structure Userinfo where
  user : List UInt8
  password : Option (List UInt8)

inductive Host
  | name (text : List UInt8)
  | ipv6 (text : List UInt8)

/-- The path is given without its first slash. -/
structure Components where
  scheme : Option (List UInt8)
  userinfo : Option Userinfo
  host : Host
  port : Option Nat
  path : Option (List UInt8)
  query : Option (List UInt8)
  fragment : Option (List UInt8)

def Userinfo.text (userinfo : Userinfo) : List UInt8 :=
  userinfo.user ++ (userinfo.password.map (colon :: ·)).getD []

def Host.value : Host → List UInt8
  | .name text => text
  | .ipv6 text => text

def Host.text : Host → List UInt8
  | .name text => text
  | .ipv6 text => openBracket :: text ++ [closeBracket]

def decimal (value : Nat) : List UInt8 :=
  if value = 0 then [0x30]
  else (Nat.digits 10 value).reverse.map fun digit => UInt8.ofNat (0x30 + digit)

namespace Components

open List

def schemeText (parts : Components) : List UInt8 :=
  (parts.scheme.map (· ++ [colon, slash, slash])).getD []

def userinfoText (parts : Components) : List UInt8 :=
  (parts.userinfo.map (·.text ++ [atSign])).getD []

def portText (parts : Components) : List UInt8 :=
  (parts.port.map (colon :: decimal ·)).getD []

def pathText (parts : Components) : List UInt8 := (parts.path.map (slash :: ·)).getD []

def queryText (parts : Components) : List UInt8 := (parts.query.map (question :: ·)).getD []

def fragmentText (parts : Components) : List UInt8 := (parts.fragment.map (number :: ·)).getD []

def tailText (parts : Components) : List UInt8 :=
  parts.pathText ++ (parts.queryText ++ parts.fragmentText)

def hostText (parts : Components) : List UInt8 :=
  parts.host.text ++ (parts.portText ++ parts.tailText)

/-- The components with the delimiters between them. -/
def render (parts : Components) : List UInt8 :=
  parts.schemeText ++ (parts.userinfoText ++ parts.hostText)

/-- What the parser should find. -/
def uri (parts : Components) : Uri where
  scheme := parts.scheme
  userinfo := parts.userinfo.map (·.text)
  host := some parts.host.value
  port := (parts.port.getD 0 : Nat)
  path := slash :: parts.path.getD []
  query := parts.query
  fragment := parts.fragment

/-- The characters that each component may have. -/
structure Valid (parts : Components) : Prop where
  scheme : ∀ text, parts.scheme = some text → ∀ c ∈ text, Plain c
  user : ∀ userinfo, parts.userinfo = some userinfo → ∀ c ∈ userinfo.user, Plain c
  password : ∀ userinfo, parts.userinfo = some userinfo → ∀ text, userinfo.password = some text →
    ∀ c ∈ text, Plain c ∨ c = colon
  name : ∀ text, parts.host = .name text → text ≠ [] ∧ ∀ c ∈ text, Plain c
  ipv6 : ∀ text, parts.host = .ipv6 text → ∀ c ∈ text, Plain c ∨ c = colon
  port : ∀ port, parts.port = some port → port < 2 ^ 31
  path : ∀ text, parts.path = some text → ∀ c ∈ text,
    uriCharactersCheck c = true ∧ c ≠ question ∧ c ≠ number
  query : ∀ text, parts.query = some text → ∀ c ∈ text, uriCharactersCheck c = true ∧ c ≠ number
  fragment : ∀ text, parts.fragment = some text → ∀ c ∈ text, uriCharactersCheck c = true

/-- The first pass tells the password from a port. -/
def Distinct (parts : Components) : Prop :=
  ∀ userinfo, parts.userinfo = some userinfo → ∀ text, userinfo.password = some text →
    if parts.scheme.isSome then colon ∉ text else text ≠ [] ∧ colon ∉ text.tail

end Components

/-! ## The first pass -/

section Check

variable {items : Items} {tail : List UInt8}

variable {c : UInt8}

theorem Plain.ne (plain : Plain c) :
    c ≠ colon ∧ c ≠ slash ∧ c ≠ question ∧ c ≠ number ∧ c ≠ openBracket ∧ c ≠ closeBracket ∧
      c ≠ atSign := by
  have absent := plain.2
  simp only [genDelims, mem_cons, not_mem_nil, or_false, not_or] at absent
  exact absent

variable {state : State} {chunk : List UInt8}

theorem uriCheckFrom_chunk
    (stays : ∀ c ∈ chunk, ∀ rest,
      uriCheckFrom state items (c :: rest) = uriCheckFrom state items rest) :
    uriCheckFrom state items (chunk ++ tail) = uriCheckFrom state items tail := by
  induction chunk with
  | nil => rfl
  | cons c chunk ih =>
    rw [cons_append, stays c mem_cons_self]
    exact ih (forall_mem_cons.mp stays).2

theorem Plain.stays (plain : Plain c) (reading : state ≠ .authority) (rest : List UInt8) :
    uriCheckFrom state items (c :: rest) = uriCheckFrom state items rest := by
  have valid := plain.1
  obtain ⟨notColon, notSlash, notQuestion, notNumber, notOpen, notClose, notAt⟩ := plain.ne
  cases state with
  | authority => exact absurd rfl reading
  | scheme | host | port | hostIpv6 =>
    simp only [uriCheckFrom, valid, notColon, notSlash, notQuestion, notNumber, notOpen, notClose,
      notAt, not_true_eq_false, if_false, or_self]

theorem uriCheckFrom_plain (reading : state ≠ .authority) (plain : ∀ c ∈ chunk, Plain c) :
    uriCheckFrom state items (chunk ++ tail) = uriCheckFrom state items tail :=
  uriCheckFrom_chunk fun c member => (plain c member).stays reading

theorem uriCheckFrom_ipv6 (address : ∀ c ∈ chunk, Plain c ∨ c = colon) :
    uriCheckFrom .hostIpv6 items (chunk ++ closeBracket :: tail) =
      uriCheckFrom .host items tail := by
  rw [uriCheckFrom_chunk]
  · rfl
  · intro c member rest
    rcases address c member with plain | rfl
    · exact plain.stays (by decide) rest
    · rfl

theorem uriCheckFrom_authority (valid : uriCharactersCheck c = true) (notSlash : c ≠ slash) :
    uriCheckFrom .authority items (c :: tail) =
      uriCheckFrom .port { items with hasPort := true } tail := by
  cases tail with
  | nil | cons => simp only [uriCheckFrom, valid, notSlash, not_true_eq_false, if_false]

theorem uriCheckFrom_port_colon (allowed : ∀ c ∈ chunk, Plain c ∨ c = colon)
    (second : colon ∈ chunk) : uriCheckFrom .port items (chunk ++ tail) = .ok none := by
  induction chunk with
  | nil => exact absurd second not_mem_nil
  | cons c chunk ih =>
    rcases allowed c mem_cons_self with plain | rfl
    · rw [cons_append, plain.stays (by decide)]
      apply ih
      · exact (forall_mem_cons.mp allowed).2
      · exact (mem_cons.mp second).resolve_left plain.ne.1.symm
    · rfl

/-- A text that an authority can stand before. -/
def Ending (tail : List UInt8) : Prop :=
  ∀ c, tail.head? = some c → c = slash ∨ c = question ∨ c = number

theorem uriCheckFrom_ending (ending : Ending tail)
    (reading : state = .scheme ∨ state = .host ∨ (state = .port ∧ items.hasPort = true)) :
    uriCheckFrom state items tail = .ok (some items) := by
  cases tail with
  | nil => rfl
  | cons c tail =>
    rcases reading with rfl | rfl | ⟨rfl, port⟩
    · rcases ending c rfl with rfl | rfl | rfl <;> rfl
    · rcases ending c rfl with rfl | rfl | rfl <;> rfl
    · have same : { items with hasPort := true } = items := by rw [← port]
      have found : (.ok (some { items with hasPort := true }) : Except Fault (Option Items)) =
          .ok (some items) := by rw [same]
      rcases ending c rfl with rfl | rfl | rfl <;> exact found

/-! ## The first pass over a rendered text -/

theorem digit_plain : ∀ digit < 10, Plain (UInt8.ofNat (0x30 + digit)) := by decide

theorem decimal_plain {value : Nat} : ∀ c ∈ decimal value, Plain c := by
  intro c member
  unfold decimal at member
  split at member
  · rw [mem_singleton.mp member]
    decide
  · obtain ⟨digit, digits, rfl⟩ := mem_map.mp member
    exact digit_plain digit (Nat.digits_lt_base (by decide) (mem_reverse.mp digits))

theorem decimal_ne_nil {value : Nat} : decimal value ≠ [] := by
  unfold decimal
  split
  · exact cons_ne_nil _ _
  · rename_i positive
    simpa [Nat.digits_eq_nil_iff_eq_zero] using positive

theorem uriCheckFrom_decimal (ending : Ending tail) {value : Nat}
    (reading : state = .scheme ∨ state = .host) :
    uriCheckFrom state items (colon :: (decimal value ++ tail)) =
      .ok (some { items with hasPort := true }) := by
  have plain := @decimal_plain value
  cases written : decimal value with
  | nil => exact absurd written decimal_ne_nil
  | cons digit digits =>
    rw [written] at plain
    have first := plain digit mem_cons_self
    have others : uriCheckFrom .port { items with hasPort := true } (digits ++ tail) =
        .ok (some { items with hasPort := true }) := by
      rw [uriCheckFrom_plain (by decide) (forall_mem_cons.mp plain).2]
      exact uriCheckFrom_ending ending (.inr (.inr ⟨rfl, rfl⟩))
    rcases reading with rfl | rfl
    · calc
        _ = uriCheckFrom .authority items (digit :: (digits ++ tail)) := rfl
        _ = _ := (uriCheckFrom_authority first.1 first.ne.2.1).trans others
    · calc
        _ = uriCheckFrom .port { items with hasPort := true } (digit :: (digits ++ tail)) := rfl
        _ = _ := (first.stays (by decide) _).trans others

theorem uriCheckFrom_userinfo {userinfo : Userinfo} (reading : state = .scheme ∨ state = .host)
    (free : items.hasPort = false) (user : ∀ c ∈ userinfo.user, Plain c)
    (allowed : ∀ text, userinfo.password = some text → ∀ c ∈ text, Plain c ∨ c = colon)
    (distinct : ∀ text, userinfo.password = some text →
      if state = .host then colon ∉ text else text ≠ [] ∧ colon ∉ text.tail) :
    uriCheckFrom state items (userinfo.text ++ atSign :: tail) =
      uriCheckFrom .host { items with hasUserinfo := true } tail := by
  have notAuthority : state ≠ .authority := by
    rcases reading with rfl | rfl <;> decide
  unfold Userinfo.text
  rw [append_assoc, uriCheckFrom_plain notAuthority user]
  have closes (chunk : List UInt8) (plain : ∀ c ∈ chunk, Plain c) :
      uriCheckFrom .port { items with hasPort := true } (chunk ++ atSign :: tail) =
        uriCheckFrom .host { items with hasUserinfo := true } tail := by
    rw [uriCheckFrom_plain (by decide) plain]
    have same : { items with hasPort := false, hasUserinfo := true } =
        { items with hasUserinfo := true } := by rw [← free]
    rw [← same]
    rfl
  cases given : userinfo.password with
  | none => rcases reading with rfl | rfl <;> rfl
  | some password =>
    have characters := allowed password given
    have separate := distinct password given
    rcases reading with rfl | rfl
    · obtain ⟨nonempty, single⟩ := separate
      cases password with
      | nil => exact absurd rfl nonempty
      | cons c rest =>
        have first : uriCharactersCheck c = true ∧ c ≠ slash := by
          rcases characters c mem_cons_self with plain | rfl
          · exact ⟨plain.1, plain.ne.2.1⟩
          · decide
        calc
          _ = uriCheckFrom .authority items (c :: (rest ++ atSign :: tail)) := rfl
          _ = uriCheckFrom .port { items with hasPort := true } (rest ++ atSign :: tail) :=
            uriCheckFrom_authority first.1 first.2
          _ = _ := by
            apply closes
            intro other member
            apply (characters other (mem_cons_of_mem c member)).resolve_right
            rintro rfl
            exact single member
    · calc
        _ = uriCheckFrom .port { items with hasPort := true } (password ++ atSign :: tail) := rfl
        _ = _ := by
          apply closes
          intro other member
          apply (characters other member).resolve_right
          rintro rfl
          exact separate member

end Check

namespace Components

open List

variable {parts : Components}

theorem tailText_ending (parts : Components) : Ending parts.tailText := by
  intro c first
  unfold tailText pathText queryText fragmentText at first
  cases path : parts.path <;> cases query : parts.query <;> cases fragment : parts.fragment <;>
    simp only [path, query, fragment, Option.map_none, Option.map_some, Option.getD_none,
      Option.getD_some, nil_append, cons_append, List.head?_cons, List.head?_nil,
      Option.some.injEq, reduceCtorEq] at first <;>
    simp only [← first, true_or, or_true]

variable {tail : List UInt8}

theorem Valid.host_stays {items : Items} (valid : parts.Valid) :
    uriCheckFrom .host items (parts.host.text ++ tail) = uriCheckFrom .host items tail := by
  cases given : parts.host with
  | name text => exact uriCheckFrom_plain (by decide) (valid.name text given).2
  | ipv6 text =>
    calc
      _ = uriCheckFrom .hostIpv6 items (text ++ closeBracket :: tail) := by
        simp only [Host.text, append_assoc, cons_append, nil_append]
        rfl
      _ = _ := uriCheckFrom_ipv6 (valid.ipv6 text given)

theorem uriCheckFrom_portText {items : Items} {state : State}
    (reading : state = .scheme ∨ state = .host) (free : items.hasPort = false) :
    uriCheckFrom state items (parts.portText ++ parts.tailText) =
      .ok (some { items with hasPort := parts.port.isSome }) := by
  unfold portText
  cases parts.port with
  | none =>
    have same : { items with hasPort := false } = items := by rw [← free]
    rw [Option.isSome_none, same]
    exact uriCheckFrom_ending parts.tailText_ending (reading.imp_right .inl)
  | some port => exact uriCheckFrom_decimal parts.tailText_ending reading

theorem Valid.check_hostText {items : Items} (valid : parts.Valid) (free : items.hasPort = false) :
    uriCheckFrom .host items parts.hostText =
      .ok (some { items with hasPort := parts.port.isSome }) :=
  valid.host_stays.trans (uriCheckFrom_portText (.inr rfl) free)

/-- What the first pass should find. -/
def items (parts : Components) : Items where
  hasScheme := parts.scheme.isSome
  hasUserinfo := parts.userinfo.isSome
  hasHost := true
  hasPort := parts.port.isSome

def hosted : Items := { noItems with hasHost := true }

theorem uriCheck_scheme {c : UInt8} (notSlash : c ≠ slash) (notOpen : c ≠ openBracket) :
    uriCheck (c :: tail) = uriCheckFrom .scheme hosted (c :: tail) := by
  by_cases valid : uriCharactersCheck c = true
  · simp only [uriCheck, valid, not_true_eq_false, if_false, notSlash, notOpen]
    rfl
  · simp only [uriCheck, uriCheckFrom, valid, Bool.false_eq_true, not_false_eq_true, if_true]

theorem uriCheck_component {chunk : List UInt8} {delimiter : UInt8}
    (allowed : ∀ c ∈ chunk, Plain c ∨ c = colon) (ends : delimiter = colon ∨ delimiter = atSign) :
    uriCheck (chunk ++ delimiter :: tail) =
      uriCheckFrom .scheme hosted (chunk ++ delimiter :: tail) := by
  cases chunk with
  | nil => rcases ends with rfl | rfl <;> exact uriCheck_scheme (by decide) (by decide)
  | cons c chunk =>
    rcases allowed c mem_cons_self with plain | rfl
    · exact uriCheck_scheme plain.ne.2.1 plain.ne.2.2.2.2.1
    · exact uriCheck_scheme (by decide) (by decide)

theorem Valid.check_scheme {text : List UInt8} (valid : parts.Valid)
    (given : parts.scheme = some text) :
    uriCheck parts.render =
      uriCheckFrom .host { hosted with hasScheme := true } (parts.userinfoText ++ parts.hostText) := by
  have plain := valid.scheme text given
  have rendered : parts.render =
      text ++ colon :: slash :: slash :: (parts.userinfoText ++ parts.hostText) := by
    simp only [render, schemeText, given, Option.map_some, Option.getD_some, append_assoc,
      cons_append, nil_append]
  rw [rendered, uriCheck_component (fun c member => .inl (plain c member)) (.inl rfl),
    uriCheckFrom_plain (by decide) plain]
  rfl

variable {userinfo : Userinfo}

theorem Valid.userinfo_allowed (valid : parts.Valid) (given : parts.userinfo = some userinfo) :
    ∀ c ∈ userinfo.text, Plain c ∨ c = colon := by
  intro c member
  unfold Userinfo.text at member
  rcases mem_append.mp member with user | password
  · exact .inl (valid.user userinfo given c user)
  · cases written : userinfo.password with
    | none =>
      rw [written] at password
      exact absurd password not_mem_nil
    | some text =>
      rw [written] at password
      rcases mem_cons.mp password with rfl | inside
      · exact .inr rfl
      · exact valid.password userinfo given text written c inside

theorem render_userinfo (absent : parts.scheme = none) (given : parts.userinfo = some userinfo) :
    parts.render = userinfo.text ++ atSign :: parts.hostText := by
  simp only [render, schemeText, userinfoText, absent, given, Option.map_some, Option.map_none,
    Option.getD_some, Option.getD_none, append_assoc, cons_append, nil_append]

theorem Valid.check_userinfo (valid : parts.Valid) (absent : parts.scheme = none)
    (given : parts.userinfo = some userinfo) :
    uriCheck parts.render =
      uriCheckFrom .scheme hosted (userinfo.text ++ atSign :: parts.hostText) := by
  rw [render_userinfo absent given]
  exact uriCheck_component (valid.userinfo_allowed given) (.inr rfl)

theorem Valid.check_host (valid : parts.Valid) (absent : parts.scheme = none)
    (nobody : parts.userinfo = none) :
    uriCheck parts.render = .ok (some { hosted with hasPort := parts.port.isSome }) := by
  have rendered : parts.render = parts.host.text ++ (parts.portText ++ parts.tailText) := by
    simp only [render, schemeText, userinfoText, absent, nobody, Option.map_none, Option.getD_none,
      nil_append, hostText]
  rw [rendered]
  cases given : parts.host with
  | name text =>
    obtain ⟨nonempty, plain⟩ := valid.name text given
    have start : uriCheck (text ++ (parts.portText ++ parts.tailText)) =
        uriCheckFrom .scheme hosted (text ++ (parts.portText ++ parts.tailText)) := by
      cases text with
      | nil => exact absurd rfl nonempty
      | cons c text =>
        have first := (plain c mem_cons_self).ne
        exact uriCheck_scheme first.2.1 first.2.2.2.2.1
    calc
      _ = _ := start
      _ = _ := uriCheckFrom_plain (by decide) plain
      _ = _ := uriCheckFrom_portText (.inl rfl) rfl
  | ipv6 text =>
    calc
      _ = uriCheckFrom .hostIpv6 hosted
          (text ++ closeBracket :: (parts.portText ++ parts.tailText)) := by
        simp only [Host.text, append_assoc, cons_append, nil_append]
        rfl
      _ = _ := uriCheckFrom_ipv6 (valid.ipv6 text given)
      _ = _ := uriCheckFrom_portText (.inr rfl) rfl

/-- The check finds exactly the parts that are there. -/
theorem Valid.uriCheck_render (valid : parts.Valid) (distinct : parts.Distinct) :
    uriCheck parts.render = .ok (some parts.items) := by
  unfold items
  cases scheme : parts.scheme with
  | some text =>
    rw [valid.check_scheme scheme]
    unfold userinfoText
    cases given : parts.userinfo with
    | none => exact valid.check_hostText rfl
    | some userinfo =>
      rw [Option.map_some, Option.getD_some, append_assoc, singleton_append,
        uriCheckFrom_userinfo (.inr rfl) rfl (valid.user userinfo given)
          (valid.password userinfo given)]
      · exact valid.check_hostText rfl
      · intro password written
        have separate := distinct userinfo given password written
        rwa [scheme] at separate
  | none =>
    cases given : parts.userinfo with
    | none => exact valid.check_host scheme given
    | some userinfo =>
      rw [valid.check_userinfo scheme given,
        uriCheckFrom_userinfo (.inl rfl) rfl (valid.user userinfo given)
          (valid.password userinfo given)]
      · exact valid.check_hostText rfl
      · intro password written
        have separate := distinct userinfo given password written
        rwa [scheme] at separate

end Components

end CLibs.Uris
