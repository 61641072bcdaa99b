import CLibs.CheckedBuffers
import Mathlib.Data.List.Nodup
import Mathlib.Data.List.TakeWhile

/-!
# Configuration files

`cfg_write_to_file` writes a line `key=value` for each entry of a json-c object.
`cfg_create_from_file` reads lines with a machine of eight states, which adds the entry
of a line one step behind its newline, from the state it remembers.  Keys and values are
C strings, and an object keeps its keys in the order of their insertion.
-/

namespace CLibs.Config

open List

/-! ## Objects -/

/-- A json-c object with strings in it. -/
@[ext] structure Cfg where
  entries : List (List UInt8 × List UInt8)
  unique : (entries.map Prod.fst).Nodup

def withValue (key value : List UInt8) (entry : List UInt8 × List UInt8) :
    List UInt8 × List UInt8 :=
  if entry.1 = key then (key, value) else entry

theorem withValue_fst (key value : List UInt8) (entries : List (List UInt8 × List UInt8)) :
    (entries.map (withValue key value)).map Prod.fst = entries.map Prod.fst := by
  rw [map_map]
  refine map_congr_left fun entry _ => ?_
  dsimp only [Function.comp]
  unfold withValue
  split
  · rename_i same
    exact same.symm
  · rfl

def jsonObjectNewObject : Cfg := ⟨[], nodup_nil⟩

/-- `json_object_object_add`: a known key keeps its place. -/
def jsonObjectObjectAdd (cfg : Cfg) (key value : List UInt8) : Cfg :=
  if known : key ∈ cfg.entries.map Prod.fst then
    ⟨cfg.entries.map (withValue key value), by rw [withValue_fst]; exact cfg.unique⟩
  else
    ⟨cfg.entries ++ [(key, value)], by
      rw [map_append, map_singleton, nodup_append_comm, singleton_append,
        nodup_cons]
      exact ⟨known, cfg.unique⟩⟩

def cfgIter {Data : Type} (cfg : Cfg) (handler : List UInt8 → List UInt8 → Data → Data)
    (privData : Data) : Data :=
  cfg.entries.foldl (fun data entry => handler entry.1 entry.2 data) privData

/-! ## Writing -/

def cfgDoWriteToFile (key data file : List UInt8) : List UInt8 :=
  file ++ (key ++ 0x3D :: data ++ [0x0A])

/-- The file that `cfg_write_to_file` leaves. -/
def cfgWriteToFile (cfg : Cfg) : List UInt8 := cfgIter cfg cfgDoWriteToFile []

/-! ## Reading -/

def lineSize : Nat := 512

/-- What `fgets` takes from a file, with room for this many bytes, and what is left. -/
def fgetsTake : (room : Nat) → List UInt8 → List UInt8 × List UInt8
  | 0, file => ([], file)
  | _ + 1, [] => ([], [])
  | room + 1, c :: file =>
    if c = 0x0A then ([c], file) else (c :: (fgetsTake room file).1, (fgetsTake room file).2)

/-- `fgets` into a buffer of its size; at the end of the file it reads nothing. -/
def fgets (size : Nat) : List UInt8 → Option (List UInt8 × List UInt8)
  | [] => none
  | c :: file => some (fgetsTake (size - 1) (c :: file))

inductive CfgParseState
  | space
  | sharp
  | key
  | waitEqual
  | waitValue
  | value
  | linebreak
  | ending
  deriving DecidableEq, Repr

/-- The variables of `cfg_create_from_file`.  Both indices are set before they are used. -/
structure Parser where
  cfg : Cfg
  key : Buffer UInt8
  value : Buffer UInt8
  datap : Nat
  iKey : Nat
  iValue : Nat
  state : CfgParseState
  lastState : CfgParseState

/-- A buffer behind `memset(buffer, 0, LINE_SIZE)`. -/
def zeroed : Buffer UInt8 := ⟨lineSize, fun _ => some 0⟩

def isBlank (c : UInt8) : Prop := c = 0x20 ∨ c = 0x09

instance (c : UInt8) : Decidable (isBlank c) := inferInstanceAs (Decidable (_ ∨ _))

def cString (buffer : Buffer UInt8) : (remaining position : Nat) → Except Fault (List UInt8)
  | 0, _ => .error .outside
  | remaining + 1, position => do
      let c ← buffer.load position
      if c = 0 then return []
      let rest ← cString buffer remaining (position + 1)
      return c :: rest

/-- The state changes, and is remembered. -/
def Parser.go (parser : Parser) (state : CfgParseState) : Parser :=
  { parser with lastState := parser.state, state := state, datap := parser.datap + 1 }

def Parser.stay (parser : Parser) : Parser := { parser with datap := parser.datap + 1 }

def Parser.putKey (parser : Parser) (c : UInt8) : Except Fault Parser := do
  let key ← parser.key.store parser.iKey [c]
  .ok { parser with key := key, iKey := parser.iKey + 1 }

def Parser.putValue (parser : Parser) (c : UInt8) : Except Fault Parser := do
  let value ← parser.value.store parser.iValue [c]
  .ok { parser with value := value, iValue := parser.iValue + 1 }

def Parser.add (parser : Parser) : Except Fault Parser := do
  let key ← parser.key.store parser.iKey [0]
  let value ← parser.value.store parser.iValue [0]
  let name ← cString key lineSize 0
  let data ← cString value lineSize 0
  .ok { parser with
    key := key
    value := value
    cfg := jsonObjectObjectAdd parser.cfg name data }

/-- What `PARSE_STATE_LINEBREAK` does in the state before the newline. -/
def Parser.flush (parser : Parser) : Except Fault Parser :=
  if parser.lastState = .value then parser.add else .ok parser

/-- The body of the inner loop. -/
def cfgParseStep (line : Buffer UInt8) (parser : Parser) : Except Fault Parser :=
  match parser.state with
  | .space => do
      let c ← line.load parser.datap
      if isBlank c then return parser.stay
      if c = 0x23 then return parser.go .sharp
      if c = 0x0A then return parser.go .linebreak
      let parser ← { parser with key := zeroed, iKey := 0 }.putKey c
      return parser.go .key
  | .sharp => .ok (parser.go .linebreak)
  | .key => do
      let c ← line.load parser.datap
      if c = 0x0A then return parser.go .linebreak
      if c = 0x3D then return parser.go .waitValue
      if isBlank c then return parser.go .waitEqual
      let parser ← parser.putKey c
      return parser.stay
  | .waitEqual => do
      let c ← line.load parser.datap
      if isBlank c then return parser.stay
      if c = 0x3D then return parser.go .waitValue
      return parser.go .linebreak
  | .waitValue => do
      let c ← line.load parser.datap
      if isBlank c then return parser.stay
      if c = 0x0A then return parser.go .linebreak
      let parser ← { parser with value := zeroed, iValue := 0 }.putValue c
      return parser.go .value
  | .value => do
      let c ← line.load parser.datap
      if c = 0x0A then return parser.go .linebreak
      let parser ← parser.putValue c
      return parser.stay
  | .linebreak => do
      let parser ← parser.flush
      return parser.go .ending
  | .ending => .ok parser.stay

/-- The inner loop.  It leaves the line before it runs out of fuel. -/
def cfgParseLine (line : Buffer UInt8) : (fuel : Nat) → Parser → Except Fault Parser
  | 0, _ => .error .fuel
  | fuel + 1, parser =>
    if parser.state = .ending then .ok parser
    else do
      let parser ← cfgParseStep line parser
      cfgParseLine line fuel parser

/-- The loop over the lines; `line` still has what an earlier line left in it. -/
def cfgReadLines : (fuel : Nat) → List UInt8 → Buffer UInt8 → Parser → Except Fault Cfg
  | 0, _, _, _ => .error .fuel
  | fuel + 1, file, line, parser =>
    match fgets (lineSize - 1) file with
    | none => .ok parser.cfg
    | some (text, file) => do
        let line ← line.store 0 (text ++ [0])
        let parser ← cfgParseLine line (lineSize + 3)
          { parser with datap := 0, state := .space, lastState := .space }
        cfgReadLines fuel file line parser

/-- `cfg_create_from_file`; no file is `none`, and so is what is returned then. -/
def cfgCreateFromFile : Option (List UInt8) → Except Fault (Option Cfg)
  | none => .ok none
  | some file => do
      let cfg ← cfgReadLines (file.length + 1) file zeroed
        ⟨jsonObjectNewObject, zeroed, zeroed, 0, 0, 0, .space, .space⟩
      .ok (some cfg)

end CLibs.Config

/-!
## What the lines of a configuration file say

A line `key = value`, with blanks in front of the key and around the `=`, adds an entry.  Every
other line adds nothing.  `lineEntry` reads the entry off the characters of the line, and
`lineEntry_iff` says that it is this shape that it looks for.  A line that stops early shows what it
is before it ends.
-/

namespace CLibs.Config

open List

/-- A key goes on up to a blank or an `=`. -/
def onKey (c : UInt8) : Bool := !decide (isBlank c) && c != 0x3D

def skipBlanks (text : List UInt8) : List UInt8 := text.dropWhile fun c => decide (isBlank c)

/-- The value that stands behind the `=`. -/
def valueOf (text : List UInt8) : Option (List UInt8) :=
  if skipBlanks text = [] then none else some (skipBlanks text)

/-- The value of a line, from behind its key. -/
def valueBehind (text : List UInt8) : Option (List UInt8) :=
  match skipBlanks text with
  | [] => none
  | c :: more => if c = 0x3D then valueOf more else none

def lineEntry (content : List UInt8) : Option (List UInt8 × List UInt8) :=
  match skipBlanks content with
  | [] => none
  | c :: rest =>
    if c = 0x23 then none
    else (valueBehind (rest.dropWhile onKey)).map fun value => (c :: rest.takeWhile onKey, value)

/-- Behind the key stand a blank and then no `=`. -/
def BreaksOff : List UInt8 → Prop
  | [] => False
  | c :: more => isBlank c ∧ (skipBlanks more).head? ≠ some 0x3D

instance : (text : List UInt8) → Decidable (BreaksOff text)
  | [] => inferInstanceAs (Decidable False)
  | _ :: _ => inferInstanceAs (Decidable (_ ∧ _))

/-- A line that shows before its end that it adds nothing. -/
def StopsEarly (content : List UInt8) : Prop :=
  (skipBlanks content).head? = some 0x23 ∨
    BreaksOff ((skipBlanks content).tail.dropWhile onKey)

instance (content : List UInt8) : Decidable (StopsEarly content) :=
  inferInstanceAs (Decidable (_ ∨ _))

def addEntry (cfg : Cfg) : Option (List UInt8 × List UInt8) → Cfg
  | none => cfg
  | some (key, value) => jsonObjectObjectAdd cfg key value

/-! ## The shape of an entry -/

structure EntryLine (content key value : List UInt8) : Prop where
  shape : ∃ before behind between, content = before ++ key ++ behind ++ 0x3D :: between ++ value ∧
    (∀ c ∈ before, isBlank c) ∧ (∀ c ∈ behind, isBlank c) ∧ ∀ c ∈ between, isBlank c
  keyStart : ∃ c rest, key = c :: rest ∧ ¬isBlank c ∧ c ≠ 0x23 ∧
    ∀ other ∈ rest, ¬isBlank other ∧ other ≠ 0x3D
  valueStart : ∃ c rest, value = c :: rest ∧ ¬isBlank c

variable {c : UInt8} {text more blanks content key value : List UInt8}

theorem skipBlanks_append (all : ∀ c ∈ blanks, isBlank c) :
    skipBlanks (blanks ++ text) = skipBlanks text := by
  induction blanks with
  | nil => rfl
  | cons c blanks ih =>
    have blank := all c mem_cons_self
    rw [cons_append, skipBlanks, dropWhile_cons, if_pos (decide_eq_true blank)]
    exact ih (forall_mem_cons.mp all).2

theorem skipBlanks_cons (visible : ¬isBlank c) : skipBlanks (c :: text) = c :: text := by
  rw [skipBlanks, dropWhile_cons, if_neg (by rwa [decide_eq_true_eq])]

theorem skipBlanks_start (starts : skipBlanks text = c :: more) : ¬isBlank c := by
  induction text with
  | nil => cases starts
  | cons other text ih =>
    by_cases blank : isBlank other
    · refine ih ?_
      rw [← starts, skipBlanks, skipBlanks, dropWhile_cons,
        if_pos (decide_eq_true blank)]
    · rw [skipBlanks_cons blank] at starts
      obtain ⟨rfl, -⟩ := List.cons.inj starts
      exact blank

theorem blanks_split (text : List UInt8) :
    ∃ blanks, text = blanks ++ skipBlanks text ∧ ∀ c ∈ blanks, isBlank c := by
  refine ⟨text.takeWhile fun c => decide (isBlank c), takeWhile_append_dropWhile.symm, ?_⟩
  intro c listed
  simpa using mem_takeWhile_imp listed

theorem onKey_iff : onKey c = true ↔ ¬isBlank c ∧ c ≠ 0x3D := by
  simp [onKey]

theorem onKey_stops (stops : ¬onKey c = true) : isBlank c ∨ c = 0x3D := by
  by_contra neither
  rw [not_or] at neither
  exact stops (onKey_iff.mpr neither)

theorem valueOf_iff :
    valueOf text = some value ↔ skipBlanks text = value ∧ value ≠ [] := by
  unfold valueOf
  split
  · rename_i empty
    constructor
    · intro none
      cases none
    · rintro ⟨rfl, nonempty⟩
      exact absurd empty nonempty
  · rename_i nonempty
    constructor
    · intro same
      obtain rfl := Option.some.inj same
      exact ⟨rfl, nonempty⟩
    · rintro ⟨rfl, -⟩
      rfl

theorem valueBehind_iff :
    valueBehind text = some value ↔ ∃ more, skipBlanks text = 0x3D :: more ∧ valueOf more = some value := by
  unfold valueBehind
  split
  · rename_i empty
    simp [empty]
  · rename_i c more starts
    rw [starts]
    split
    · rename_i equal
      subst equal
      simp
    · rename_i other
      simp [other]

theorem valueBehind_equal : valueBehind (0x3D :: text) = valueOf text := by
  rw [valueBehind, skipBlanks_cons (by decide)]
  rfl

theorem valueBehind_blank (blank : isBlank c) : valueBehind (c :: text) = valueBehind text := by
  have skipped : skipBlanks (c :: text) = skipBlanks text :=
    @skipBlanks_append text [c] (by simpa using blank)
  rw [valueBehind, skipped]
  rfl

theorem lineEntry_iff : lineEntry content = some (key, value) ↔ EntryLine content key value := by
  constructor
  · intro found
    unfold lineEntry at found
    split at found
    · cases found
    rename_i c rest starts
    split at found
    · cases found
    rename_i noSharp
    obtain ⟨other, some, same⟩ := Option.map_eq_some_iff.mp found
    obtain ⟨rfl, rfl⟩ := Prod.mk.inj same
    obtain ⟨more, equal, valued⟩ := valueBehind_iff.mp some
    obtain ⟨skipped, nonempty⟩ := valueOf_iff.mp valued
    obtain ⟨before, whole, beforeBlank⟩ := blanks_split content
    obtain ⟨behind, afterKey, behindBlank⟩ := blanks_split (rest.dropWhile onKey)
    obtain ⟨between, afterEqual, betweenBlank⟩ := blanks_split more
    refine ⟨⟨before, behind, between, ?_, beforeBlank, behindBlank, betweenBlank⟩,
      ⟨c, _, rfl, skipBlanks_start starts, noSharp, ?_⟩, ?_⟩
    · have split := @takeWhile_append_dropWhile _ onKey rest
      rw [whole, starts, ← skipped]
      nth_rewrite 1 [← split]
      rw [afterKey, equal]
      nth_rewrite 1 [afterEqual]
      simp
    · intro other listed
      exact onKey_iff.mp (mem_takeWhile_imp listed)
    · obtain ⟨first, tail, rfl⟩ := exists_cons_of_ne_nil nonempty
      exact ⟨first, tail, rfl, skipBlanks_start skipped⟩
  · rintro ⟨⟨before, behind, between, rfl, beforeBlank, behindBlank, betweenBlank⟩,
      ⟨c, rest, rfl, visible, noSharp, onRest⟩, ⟨first, tail, rfl, start⟩⟩
    have skipped : skipBlanks (before ++ c :: rest ++ behind ++ 0x3D :: between ++ first :: tail) =
        c :: (rest ++ (behind ++ 0x3D :: (between ++ first :: tail))) := by
      rw [append_assoc, append_assoc, append_assoc, skipBlanks_append beforeBlank]
      rw [cons_append, skipBlanks_cons visible]
      simp
    have onKeys : ∀ other ∈ rest, onKey other = true :=
      fun other listed => onKey_iff.mpr (onRest other listed)
    have ends : (behind ++ 0x3D :: (between ++ first :: tail)).takeWhile onKey = [] := by
      cases behind with
      | nil => rfl
      | cons blank behind =>
        have noKey : ¬onKey blank = true :=
          fun on => (onKey_iff.mp on).1 (behindBlank blank mem_cons_self)
        rw [cons_append, takeWhile_cons, if_neg noKey]
    have taken : (rest ++ (behind ++ 0x3D :: (between ++ first :: tail))).takeWhile onKey = rest := by
      rw [takeWhile_append_of_pos onKeys, ends, append_nil]
    have left : (rest ++ (behind ++ 0x3D :: (between ++ first :: tail))).dropWhile onKey =
        behind ++ 0x3D :: (between ++ first :: tail) := by
      have split := @takeWhile_append_dropWhile _ onKey
        (rest ++ (behind ++ 0x3D :: (between ++ first :: tail)))
      rw [taken] at split
      exact append_cancel_left split
    have valued : valueBehind (behind ++ 0x3D :: (between ++ first :: tail)) =
        some (first :: tail) := by
      refine valueBehind_iff.mpr ⟨between ++ first :: tail, ?_, valueOf_iff.mpr ⟨?_, cons_ne_nil _ _⟩⟩
      · rw [skipBlanks_append behindBlank, skipBlanks_cons (by decide)]
      · rw [skipBlanks_append betweenBlank, skipBlanks_cons start]
    unfold lineEntry
    rw [skipped]
    dsimp only
    rw [if_neg noSharp, left, taken, valued]
    rfl

/-! ## Lines that stop early -/

theorem lineEntry_blank (empty : skipBlanks content = []) : lineEntry content = none := by
  rw [lineEntry, empty]

theorem lineEntry_starts (starts : skipBlanks content = c :: more) (noSharp : c ≠ 0x23) :
    lineEntry content = (valueBehind (more.dropWhile onKey)).map fun value =>
      (c :: more.takeWhile onKey, value) := by
  rw [lineEntry, starts]
  exact if_neg noSharp

theorem not_stopsEarly_blank (empty : skipBlanks content = []) : ¬StopsEarly content := by
  rw [StopsEarly, empty]
  rintro (none | none) <;> cases none

theorem stopsEarly_starts (starts : skipBlanks content = c :: more) :
    StopsEarly content ↔ c = 0x23 ∨ BreaksOff (more.dropWhile onKey) := by
  rw [StopsEarly, starts, List.head?_cons, tail_cons, Option.some_inj]

theorem BreaksOff.valueBehind_eq (breaks : BreaksOff text) : valueBehind text = none := by
  cases text with
  | nil => rfl
  | cons c text =>
    rw [valueBehind_blank breaks.1, Option.eq_none_iff_forall_ne_some]
    intro value found
    obtain ⟨after, equal, -⟩ := valueBehind_iff.mp found
    exact breaks.2 (by rw [equal]; rfl)

theorem StopsEarly.lineEntry_eq (stops : StopsEarly content) : lineEntry content = none := by
  cases starts : skipBlanks content with
  | nil => exact lineEntry_blank starts
  | cons c rest =>
    by_cases sharp : c = 0x23
    · rw [lineEntry, starts]
      exact if_pos sharp
    · have breaks := ((stopsEarly_starts starts).mp stops).resolve_left sharp
      rw [lineEntry_starts starts sharp, breaks.valueBehind_eq]
      rfl

end CLibs.Config
