import CLibs.FaultingPrograms
import Mathlib.Algebra.Group.Int.Defs
import Mathlib.Algebra.GroupWithZero.Nat
import Mathlib.Data.List.Basic

/-!
# The parser of `uri-parse.c`

Model of `uri_parse`, `uri_check` and `uri_parse_complex`.  A text is the list
of its `len` bytes; `after` is the byte behind them, which the fragment loop
reads.  The components are copied into a block of `len + 5` bytes behind the
`uri_t`, each with a terminating zero.  `uri_path`, `uri_userinfo` and the query
splitter of `uri-query.c` are left out.
-/

namespace CLibs.Uris

def slash : UInt8 := 0x2f
def colon : UInt8 := 0x3a
def question : UInt8 := 0x3f
def number : UInt8 := 0x23
def atSign : UInt8 := 0x40
def openBracket : UInt8 := 0x5b
def closeBracket : UInt8 := 0x5d

/-- `s_characters`, the words that have a character set. -/
def characters : List UInt32 := [0x00, 0xAFFFFFFA, 0xAFFFFFFF, 0x47FFFFFE, 0x00, 0x00, 0x00, 0x00]

def uriCharactersCheck (c : UInt8) : Bool :=
  (characters.getD (c.toNat / 32) 0).toNat.testBit (c.toNat % 32)

/-- `strchr(":/?#", c)` of a character that is not zero. -/
def endsHost (c : UInt8) : Bool := [colon, slash, question, number].contains c

/-! ## Which components there are -/

structure Items where
  hasScheme : Bool
  hasUserinfo : Bool
  hasHost : Bool
  hasPort : Bool
  deriving DecidableEq

/-- The states behind `URI_PARSE_START`; `URI_PARSE_USERINFO` is never entered. -/
inductive State
  | scheme
  | authority
  | host
  | port
  | hostIpv6
  deriving DecidableEq

/-- The loop of `uri_check`; none is its -1. -/
def uriCheckFrom (state : State) (items : Items) : List UInt8 → Except Fault (Option Items)
  | [] => .ok (some items)
  | c :: rest =>
    if ¬ uriCharactersCheck c then .ok none
    else
      match state with
      | .scheme =>
        if c = colon then uriCheckFrom .authority items rest
        else if c = atSign then uriCheckFrom .host { items with hasUserinfo := true } rest
        else if c = slash ∨ c = question ∨ c = number then .ok (some items)
        else uriCheckFrom .scheme items rest
      | .authority =>
        if c = slash then
          match rest with
          | [] => .ok (some { items with hasPort := true })
          | next :: rest =>
            if next = slash then uriCheckFrom .host { items with hasScheme := true } rest
            else .ok (some { items with hasPort := true })
        else uriCheckFrom .port { items with hasPort := true } rest
      | .host =>
        if c = closeBracket then .error .assertion
        else if c = atSign then uriCheckFrom .host { items with hasUserinfo := true } rest
        else if c = openBracket then uriCheckFrom .hostIpv6 items rest
        else if c = colon then uriCheckFrom .port { items with hasPort := true } rest
        else if c = slash ∨ c = question ∨ c = number then .ok (some items)
        else uriCheckFrom .host items rest
      | .port =>
        if c = atSign then
          uriCheckFrom .host { items with hasPort := false, hasUserinfo := true } rest
        else if c = openBracket ∨ c = closeBracket ∨ c = colon then .ok none
        else if c = slash ∨ c = question ∨ c = number then
          .ok (some { items with hasPort := true })
        else uriCheckFrom .port items rest
      | .hostIpv6 =>
        if c = closeBracket then uriCheckFrom .host items rest
        else if c = atSign ∨ c = openBracket ∨ c = slash ∨ c = question ∨ c = number then
          .ok none
        else uriCheckFrom .hostIpv6 items rest

def noItems : Items := ⟨false, false, false, false⟩

def uriCheck : List UInt8 → Except Fault (Option Items)
  | [] => .ok (some noItems)
  | c :: rest =>
    if ¬ uriCharactersCheck c then .ok none
    else if c = slash then .ok (some noItems)
    else if c = openBracket then uriCheckFrom .hostIpv6 { noItems with hasHost := true } rest
    else uriCheckFrom .scheme { noItems with hasHost := true } (c :: rest)

/-! ## The components -/

/-- The parts of a URI that the parser returns. -/
structure Uri where
  scheme : Option (List UInt8)
  userinfo : Option (List UInt8)
  host : Option (List UInt8)
  port : Int
  path : List UInt8
  query : Option (List UInt8)
  fragment : Option (List UInt8)
  deriving DecidableEq

/-- The bytes taken of the block once the text and its zero are copied there. -/
def keep (size used : Nat) (text : List UInt8) : Except Fault Nat :=
  if used + text.length + 1 ≤ size then .ok (used + text.length + 1) else .error .outside

/-- A component, the text behind it and the bytes taken of the block. -/
structure Part (Value : Type) where
  value : Value
  rest : List UInt8
  used : Nat

/-- A component up to a delimiter, which is skipped together with what follows. -/
def parseUpTo (delimiter : UInt8) (skip size used : Nat) (text : List UInt8) :
    Except Fault (Part (Option (List UInt8))) := do
  let value := text.takeWhile fun c => decide (c ≠ delimiter)
  let used ← keep size used value
  pure ⟨some value, (text.drop value.length).drop skip, used⟩

def parseScheme (items : Items) (size used : Nat) (text : List UInt8) :
    Except Fault (Part (Option (List UInt8))) :=
  if items.hasScheme then parseUpTo colon 3 size used text else .ok ⟨none, text, used⟩

def parseUserinfo (items : Items) (size used : Nat) (text : List UInt8) :
    Except Fault (Part (Option (List UInt8))) :=
  if items.hasUserinfo then parseUpTo atSign 1 size used text else .ok ⟨none, text, used⟩

/-- Whether the text goes on with a character that cannot stand behind a host
or a port. -/
def badEnd : List UInt8 → Bool
  | [] => false
  | c :: _ => decide (c ≠ 0) && !endsHost c

def parseHost (items : Items) (size used : Nat) (text : List UInt8) :
    Except Fault (Option (Part (Option (List UInt8)))) :=
  if items.hasHost then
    match text with
    | [] => .error .assertion
    | c :: behind =>
      if c = openBracket then do
        let value := behind.takeWhile fun c => decide (c ≠ closeBracket)
        let used ← keep size used value
        let rest := (behind.drop value.length).drop 1
        if badEnd rest then pure none else pure (some ⟨some value, rest, used⟩)
      else do
        let value := text.takeWhile fun c => decide (c ≠ 0) && !endsHost c
        let used ← keep size used value
        pure (some ⟨some value, text.drop value.length, used⟩)
  else .ok (some ⟨none, text, used⟩)

def isDigit (c : UInt8) : Bool := decide (0x30 ≤ c ∧ c ≤ 0x39)

/-- `uri->port = uri->port * 10 + (*str - '0')` over the digits, on an `int`. -/
def portValue (digits : List UInt8) : Int :=
  digits.foldl (fun port c => Int.bmod (port * 10 + (c.toNat - 0x30)) (2 ^ 32)) 0

/-- The port, which takes no bytes; none is a return of -1. -/
def parsePort (items : Items) (text : List UInt8) : Option (Int × List UInt8) :=
  if items.hasPort then
    let digits := (text.drop 1).takeWhile isDigit
    let rest := (text.drop 1).drop digits.length
    if badEnd rest then none else some (portValue digits, rest)
  else some (0, text)

def parsePath (size used : Nat) (text : List UInt8) : Except Fault (Part (List UInt8)) :=
  if text.head? = some slash then do
    let value := text.takeWhile fun c => decide (c ≠ 0 ∧ c ≠ question ∧ c ≠ number)
    let used ← keep size used value
    pure ⟨value, text.drop value.length, used⟩
  else do
    let used ← keep size used [slash]
    pure ⟨[slash], text, used⟩

def parseQuery (size used : Nat) (text : List UInt8) :
    Except Fault (Part (Option (List UInt8))) :=
  if text.head? = some question then do
    let value := (text.drop 1).takeWhile fun c => decide (c ≠ 0 ∧ c ≠ number)
    let used ← keep size used value
    pure ⟨some value, (text.drop 1).drop value.length, used⟩
  else .ok ⟨none, text, used⟩

/-- The loop increments before it reads, so it also takes the byte behind the
text if that is not zero. -/
def parseFragment (size used : Nat) (after : UInt8) (text : List UInt8) :
    Except Fault (Option (List UInt8)) :=
  if text.head? = some number then do
    let value := (text.drop 1 ++ [after]).takeWhile fun c => decide (c ≠ 0)
    let _ ← keep size used value
    pure (some value)
  else .ok none

def uriParseItems (items : Items) (text : List UInt8) (after : UInt8) :
    Except Fault (Option Uri) := do
  let size := text.length + 5
  let scheme ← parseScheme items size 0 text
  let userinfo ← parseUserinfo items size scheme.used scheme.rest
  match ← parseHost items size userinfo.used userinfo.rest with
  | none => pure none
  | some host =>
    match parsePort items host.rest with
    | none => pure none
    | some (port, rest) => do
        let path ← parsePath size host.used rest
        let query ← parseQuery size path.used path.rest
        let fragment ← parseFragment size query.used after query.rest
        pure (some ⟨scheme.value, userinfo.value, host.value, port, path.value, query.value,
          fragment⟩)

def uriParseComplex (text : List UInt8) (after : UInt8) : Except Fault (Option Uri) := do
  match ← uriCheck text with
  | none => pure none
  | some items => uriParseItems items text after

/-- `uri_parse`; none is its null. -/
def uriParse (malloc : Bool) (text : List UInt8) (after : UInt8) : Except Fault (Option Uri) :=
  if text = [] ∨ text.head? = some 0 ∨ ¬ malloc then .ok none else uriParseComplex text after

end CLibs.Uris
