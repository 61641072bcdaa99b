import CLibs.ConfigScans

/-!
# The lines of a file read each by itself

`cfgCreateFromOwnLines` gives the machine a buffer that ends with the newline of the line, or with
the NUL behind it: a scan that looks further, at what an earlier line has left or behind the
buffer, is a fault.  A scan that stays in its own line goes the same way in the buffer of the
program.
-/

namespace CLibs.Config

open List

/-- A line and its newline, or its NUL; nothing stands behind it. -/
def ownLine (text : List UInt8) : Buffer UInt8 where
  size := (text.takeWhile fun c => c != 0x0A).length + 1
  cells := fun index => (text ++ [0])[index]?

/-- The loop over the lines, with each scan kept in its own line. -/
def cfgReadOwnLines : (fuel : Nat) → List UInt8 → Parser → Except Fault Cfg
  | 0, _, _ => .error .fuel
  | fuel + 1, file, parser =>
    match fgets (lineSize - 1) file with
    | none => .ok parser.cfg
    | some (text, file) => do
        let parser ← cfgParseLine (ownLine text) (lineSize + 3)
          { parser with datap := 0, state := .space, lastState := .space }
        cfgReadOwnLines fuel file parser

def cfgCreateFromOwnLines (file : List UInt8) : Except Fault Cfg :=
  cfgReadOwnLines (file.length + 1) file
    ⟨jsonObjectNewObject, zeroed, zeroed, 0, 0, 0, .space, .space⟩

/-! ## Parts of a buffer -/

structure PartOf (own line : Buffer UInt8) : Prop where
  size : own.size ≤ line.size
  cells : ∀ index < own.size, own.cells index = line.cells index

variable {own line : Buffer UInt8} {parser after : Parser} {c : UInt8}
  {content text file rest : List UInt8} {fuel room : Nat}

theorem PartOf.load (part : PartOf own line) {position : Nat}
    (loaded : own.load position = .ok c) : line.load position = .ok c := by
  unfold Buffer.load at *
  by_cases inside : position < own.size
  · rw [if_pos inside] at loaded
    rw [if_pos (Nat.lt_of_lt_of_le inside part.size), ← part.cells position inside]
    exact loaded
  · rw [if_neg inside] at loaded
    cases loaded

theorem PartOf.look {Value : Type} {value : Value} (part : PartOf own line) {position : Nat}
    {next : UInt8 → Except Fault Value} (ended : own.load position >>= next = .ok value) :
    line.load position >>= next = .ok value := by
  cases loaded : own.load position with
  | error fault =>
    rw [loaded] at ended
    cases ended
  | ok c =>
    rw [loaded] at ended
    rw [part.load loaded]
    exact ended

theorem PartOf.step (part : PartOf own line) (stepped : cfgParseStep own parser = .ok after) :
    cfgParseStep line parser = .ok after := by
  unfold cfgParseStep at *
  cases state : parser.state <;> rw [state] at stepped
  case space | key | waitEqual | waitValue | value => exact part.look stepped
  case sharp | linebreak | ending => exact stepped

theorem PartOf.parseLine (part : PartOf own line)
    (ended : cfgParseLine own fuel parser = .ok after) :
    cfgParseLine line fuel parser = .ok after := by
  induction fuel generalizing parser with
  | zero => cases ended
  | succ fuel ih =>
    rw [cfgParseLine] at ended ⊢
    split at ended
    · rename_i atEnd
      rw [if_pos atEnd]
      exact ended
    · rename_i running
      rw [if_neg running]
      cases stepped : cfgParseStep own parser with
      | error fault =>
        rw [stepped] at ended
        cases ended
      | ok next =>
        rw [stepped] at ended
        rw [part.step stepped]
        exact ih ended

theorem ownLine_partOf (fits : text.length < lineSize) (size : line.size = lineSize) :
    PartOf (ownLine text) (line.written 0 (text ++ [0])) := by
  have shorter : (ownLine text).size ≤ text.length + 1 :=
    Nat.succ_le_succ (takeWhile_sublist _).length_le
  refine ⟨?_, fun index inside => ?_⟩
  · rw [Buffer.written_size, size]
    omega
  · have within : 0 ≤ index ∧ index < 0 + (text ++ [(0 : UInt8)]).length := by
      rw [length_append, length_singleton]
      omega
    simp only [Buffer.written]
    rw [if_pos within]
    rfl

/-! ## What is read of the file -/

theorem fgetsTake_length (room : Nat) (file : List UInt8) :
    (fgetsTake room file).1.length ≤ room := by
  induction room generalizing file with
  | zero => exact Nat.le_refl 0
  | succ room ih =>
    cases file with
    | nil => exact Nat.zero_le _
    | cons c file =>
      rw [fgetsTake]
      split
      · exact Nat.succ_le_succ (Nat.zero_le room)
      · exact Nat.succ_le_succ (ih file)

theorem fgetsTake_part (noNewline : ∀ c ∈ content, c ≠ 0x0A)
    (full : content.length = room ∨ content.length ≤ room ∧ rest = []) :
    fgetsTake room (content ++ rest) = (content, rest) := by
  induction content generalizing room with
  | nil =>
    rcases full with rfl | ⟨-, rfl⟩
    · rfl
    · cases room <;> rfl
  | cons c content ih =>
    rw [length_cons] at full
    obtain ⟨room, rfl⟩ : ∃ less, room = less + 1 := ⟨room - 1, by omega⟩
    have further := @ih room (forall_mem_cons.mp noNewline).2
      (full.imp Nat.succ.inj fun ends => ⟨Nat.le_of_succ_le_succ ends.1, ends.2⟩)
    rw [cons_append, fgetsTake, if_neg (noNewline c mem_cons_self), further]

theorem cfgReadLines_of_own {cfg : Cfg} (size : line.size = lineSize)
    (read : cfgReadOwnLines fuel file parser = .ok cfg) :
    cfgReadLines fuel file line parser = .ok cfg := by
  induction fuel generalizing file line parser with
  | zero => cases read
  | succ fuel ih =>
    rw [cfgReadOwnLines] at read
    rw [cfgReadLines]
    cases file with
    | nil => exact read
    | cons c file =>
      rw [fgets] at read ⊢
      have short := fgetsTake_length (lineSize - 1 - 1) (c :: file)
      generalize fgetsTake (lineSize - 1 - 1) (c :: file) = taken at *
      obtain ⟨text, left⟩ := taken
      have fits : text.length < lineSize := Nat.lt_of_le_of_lt short (by decide)
      have stored : line.store 0 (text ++ [0]) = .ok (line.written 0 (text ++ [0])) := by
        refine Buffer.store_eq ?_
        rw [size, length_append, length_singleton]
        omega
      dsimp only at read ⊢
      rw [stored, ok_bind]
      cases parsed : cfgParseLine (ownLine text) (lineSize + 3)
          { parser with datap := 0, state := .space, lastState := .space } with
      | error fault =>
        rw [parsed] at read
        cases read
      | ok after =>
        rw [parsed] at read
        rw [(ownLine_partOf fits size).parseLine parsed]
        exact ih size read

end CLibs.Config

/-!
## What a configuration file gives

The lines are the parts of the file between its newlines.  As far as every scan finds the end of its
line, the map is the one that the entries of the lines make in their order.  A scan that gets to a
NUL, in a last line without a newline or in front of a newline that `fgets` has no room for, goes on
behind it, unless the line has stopped it early.
-/

namespace CLibs.Config

open List

/-- The bytes that `fgets` takes at most. -/
def longestLine : Nat := lineSize - 2

def addLine (cfg : Cfg) (content : List UInt8) : Cfg := addEntry cfg (lineEntry content)

/-- The map that the lines of a file make, each one read by itself. -/
def linesCfg (file : List UInt8) : Cfg := (file.splitOn 0x0A).foldl addLine jsonObjectNewObject

/-- Every line has a newline that is read with it, or stops early, or is the empty rest of the
file. -/
def LinesEnd : List (List UInt8) → Prop
  | [] => True
  | [last] => last = [] ∨ StopsEarly last
  | content :: next :: others =>
    (content.length < longestLine ∨ StopsEarly content) ∧ LinesEnd (next :: others)

/-- The lines that are spoken of. -/
def LineShort (content : List UInt8) : Prop :=
  content.length ≤ longestLine ∧ ∀ c ∈ content, c ≠ 0

variable {parser : Parser} {content rest file text : List UInt8} {parts : List (List UInt8)}
  {fuel : Nat} {cfg : Cfg}

theorem addLine_early (stops : StopsEarly content) (cfg : Cfg) : addLine cfg content = cfg := by
  rw [addLine, stops.lineEntry_eq]
  rfl

theorem linesEnd_cons (nonempty : parts ≠ []) :
    LinesEnd (content :: parts) ↔
      (content.length < longestLine ∨ StopsEarly content) ∧ LinesEnd parts := by
  obtain ⟨next, others, rfl⟩ := exists_cons_of_ne_nil nonempty
  exact Iff.rfl

/-! ## One line -/

theorem ownLine_left {stop : UInt8} (stops : stop = 0x0A ∨ stop = 0)
    (size : (ownLine text).size = content.length + 1)
    (holds : ∀ index < content.length + 1, (text ++ [0])[index]? = (content ++ [stop])[index]?)
    (noNewline : 0x0A ∉ content) (short : LineShort content) :
    Left (ownLine text) 0 content stop where
  here := by
    have length : (content ++ [stop]).length = content.length + 1 := length_append
    refine ⟨by rw [length, size, Nat.zero_add], fun index inside => ?_⟩
    rw [length] at inside
    rw [Nat.zero_add]
    exact holds index inside
  size := by rw [size, Nat.zero_add]
  plain := fun c listed => ⟨fun newline => noNewline (newline ▸ listed), short.2 c listed⟩
  stops := stops
  short := by
    have long := short.1
    rw [size]
    unfold longestLine lineSize at *
    omega

theorem takeWhile_line (noNewline : 0x0A ∉ content) (rest : List UInt8) :
    (content ++ 0x0A :: rest).takeWhile (fun c => c != 0x0A) = content ∧
      content.takeWhile (fun c => c != 0x0A) = content := by
  have all : ∀ c ∈ content, (c != 0x0A) = true := by
    intro c listed
    exact bne_iff_ne.mpr fun newline => noNewline (newline ▸ listed)
  constructor
  · rw [takeWhile_append_of_pos all, takeWhile_cons]
    exact append_nil content
  · exact takeWhile_eq_self_iff.mpr all

theorem newline_left (noNewline : 0x0A ∉ content) (short : LineShort content) :
    Left (ownLine (content ++ [0x0A])) 0 content 0x0A := by
  refine ownLine_left (.inl rfl) ?_ ?_ noNewline short
  · rw [ownLine, (takeWhile_line noNewline []).1]
  · intro index inside
    exact List.getElem?_append_left (by rwa [length_append, length_singleton])

theorem nul_left (noNewline : 0x0A ∉ content) (short : LineShort content) :
    Left (ownLine content) 0 content 0 := by
  refine ownLine_left (.inr rfl) ?_ (fun _ _ => rfl) noNewline short
  rw [ownLine, (takeWhile_line noNewline []).2]

/-- The machine at the start of a line. -/
def Parser.begin (parser : Parser) : Parser :=
  { parser with datap := 0, state := .space, lastState := .space }

theorem Left.parseLine {line : Buffer UInt8} {stop : UInt8} (left : Left line 0 content stop) :
    (cfgParseLine line (lineSize + 3) parser.begin).map Parser.cfg =
      if StopsEarly content then .ok parser.cfg
      else endOf stop (addEntry parser.cfg (lineEntry content)) := by
  have short := left.short
  refine Scans.parseLine (@line_scans line parser.begin content (line.size + 2) stop rfl left
    (Nat.lt_succ_self _)) ?_
  omega

theorem readOwnLines_ok (taken : fgets (lineSize - 1) file = some (text, rest))
    (parsed : (cfgParseLine (ownLine text) (lineSize + 3) parser.begin).map Parser.cfg = .ok cfg) :
    ∃ after : Parser, after.cfg = cfg ∧
      cfgReadOwnLines (fuel + 1) file parser = cfgReadOwnLines fuel rest after := by
  cases scanned : cfgParseLine (ownLine text) (lineSize + 3) parser.begin with
  | error fault =>
    rw [scanned] at parsed
    cases parsed
  | ok after =>
    rw [scanned] at parsed
    refine ⟨after, Except.ok.inj parsed, ?_⟩
    rw [cfgReadOwnLines, taken]
    change (cfgParseLine (ownLine text) (lineSize + 3) parser.begin >>= _) = _
    rw [scanned]
    rfl

theorem readOwnLines_error {fault : Fault} (taken : fgets (lineSize - 1) file = some (text, rest))
    (parsed : (cfgParseLine (ownLine text) (lineSize + 3) parser.begin).map Parser.cfg =
      .error fault) : cfgReadOwnLines (fuel + 1) file parser = .error fault := by
  cases scanned : cfgParseLine (ownLine text) (lineSize + 3) parser.begin with
  | error other =>
    rw [scanned] at parsed
    rw [cfgReadOwnLines, taken]
    change (cfgParseLine (ownLine text) (lineSize + 3) parser.begin >>= _) = _
    rw [scanned]
    exact congrArg Except.error (Except.error.inj parsed)
  | ok after =>
    rw [scanned] at parsed
    cases parsed

theorem fgets_some (nonempty : file ≠ [])
    (taken : fgetsTake (lineSize - 1 - 1) file = (text, rest)) :
    fgets (lineSize - 1) file = some (text, rest) := by
  obtain ⟨c, others, rfl⟩ := exists_cons_of_ne_nil nonempty
  rw [fgets, taken]

/-! ## The file -/

/-- What the loop comes to. -/
def ReadsTo (parts : List (List UInt8)) (cfg : Cfg) (result : Except Fault Cfg) : Prop :=
  (LinesEnd parts → result = .ok (parts.foldl addLine cfg)) ∧
    (¬LinesEnd parts → result = .error .outside)

theorem ReadsTo.unended (nonempty : content ++ rest ≠ []) (noNewline : 0x0A ∉ content)
    (short : LineShort content) (full : content.length = longestLine ∨ rest = [])
    (noRest : ¬StopsEarly content → ¬LinesEnd (content :: parts))
    (rests : StopsEarly content → (LinesEnd (content :: parts) ↔ LinesEnd parts))
    (further : ∀ after : Parser, after.cfg = parser.cfg →
      ReadsTo parts after.cfg (cfgReadOwnLines fuel rest after)) :
    ReadsTo (content :: parts) parser.cfg (cfgReadOwnLines (fuel + 1) (content ++ rest) parser) := by
  have taken := fgets_some nonempty
    (@fgetsTake_part content rest longestLine (fun c listed newline => noNewline (newline ▸ listed))
      (full.imp id fun ends => ⟨short.1, ends⟩))
  have parsed := @Left.parseLine parser content _ 0 (nul_left noNewline short)
  by_cases stops : StopsEarly content
  · rw [if_pos stops] at parsed
    obtain ⟨after, same, reads⟩ := @readOwnLines_ok parser rest _ content fuel _ taken parsed
    obtain ⟨ends, leaves⟩ := further after same
    rw [reads]
    rw [same] at ends
    refine ⟨fun all => ?_, fun not => leaves fun all => not ((rests stops).mpr all)⟩
    rw [foldl_cons, addLine_early stops]
    exact ends ((rests stops).mp all)
  · rw [if_neg stops] at parsed
    exact ⟨fun all => absurd all (noRest stops), fun _ => readOwnLines_error taken parsed⟩

theorem readOwnLines_scan (short : ∀ part ∈ file.splitOn 0x0A, LineShort part)
    (enough : file.length < fuel) :
    ReadsTo (file.splitOn 0x0A) parser.cfg (cfgReadOwnLines fuel file parser) := by
  induction fuel generalizing file parser with
  | zero => exact absurd enough (Nat.not_lt_zero _)
  | succ fuel ih =>
    by_cases empty : file = []
    · subst empty
      exact ⟨fun _ => rfl, fun not => absurd (.inl rfl) not⟩
    by_cases member : 0x0A ∈ file
    · obtain ⟨content, rest, rfl, noNewline⟩ := eq_append_cons_of_mem member
      rw [length_append, length_cons] at enough
      rw [splitOn_append_cons_self_of_not_mem noNewline] at short ⊢
      have first := short content mem_cons_self
      have others := (forall_mem_cons.mp short).2
      have cons := @linesEnd_cons content _ (splitOn_ne_nil (0x0A : UInt8) rest)
      rcases Nat.lt_or_eq_of_le first.1 with fits | full
      · have taken := fgets_some empty
          (@fgetsTake_line longestLine content
            (fun c listed newline => noNewline (newline ▸ listed)) fits rest)
        have parsed := @Left.parseLine parser content _ 0x0A (newline_left noNewline first)
        have added : (if StopsEarly content then .ok parser.cfg
            else endOf 0x0A (addEntry parser.cfg (lineEntry content))) =
            (.ok (addLine parser.cfg content) : Except Fault Cfg) := by
          split
          · rename_i stops
            rw [addLine_early stops]
          · rfl
        rw [added] at parsed
        obtain ⟨after, same, reads⟩ := @readOwnLines_ok parser rest _ _ fuel _ taken parsed
        obtain ⟨ends, leaves⟩ := @ih after rest others (by omega)
        rw [same] at ends
        rw [reads]
        exact ⟨fun all => ends (cons.mp all).2,
          fun not => leaves fun all => not (cons.mpr ⟨.inl fits, all⟩)⟩
      · have blank : ∀ part ∈ (0x0A :: rest : List UInt8).splitOn 0x0A, LineShort part := by
          rw [← nil_append (0x0A :: rest),
            splitOn_append_cons_self_of_not_mem not_mem_nil]
          exact forall_mem_cons.mpr ⟨⟨Nat.zero_le _, nofun⟩, others⟩
        refine .unended empty noNewline first (.inl full) ?_ ?_ ?_
        · exact fun goesOn all => goesOn ((cons.mp all).1.resolve_left (by omega))
        · exact fun stops => cons.trans (and_iff_right (.inr stops))
        · intro after _
          have further := @ih after (0x0A :: rest) blank
            (by rw [length_cons]; unfold longestLine lineSize at full; omega)
          rw [← nil_append (0x0A :: rest),
            splitOn_append_cons_self_of_not_mem not_mem_nil] at further
          obtain ⟨ends, leaves⟩ := further
          have same := @linesEnd_cons [] _ (splitOn_ne_nil (0x0A : UInt8) rest)
          have blank : ([] : List UInt8).length < longestLine := by decide
          exact ⟨fun all => ends (same.mpr ⟨.inl blank, all⟩),
            fun not => leaves fun all => not (same.mp all).2⟩
    · rw [splitOn_eq_singleton member] at short ⊢
      have only := short file mem_cons_self
      have unended := @ReadsTo.unended parser file [] [] fuel (by rwa [append_nil]) member only
        (.inr rfl) (fun goesOn all => all.elim empty goesOn)
        (fun stops => ⟨fun _ => trivial, fun _ => .inr stops⟩) ?_
      · rwa [append_nil] at unended
      · intro after _
        obtain ⟨less, rfl⟩ : ∃ less, fuel = less + 1 := by
          have positive := length_pos_iff.mpr empty
          exact ⟨fuel - 1, by omega⟩
        exact ⟨fun _ => rfl, fun not => absurd trivial not⟩

/-- The map is made of the lines, and every scan stays in its own line. -/
structure LinesAlone (file : List UInt8) : Prop where
  map : cfgCreateFromFile (some file) = .ok (some (linesCfg file))
  own : cfgCreateFromOwnLines file = .ok (linesCfg file)

/-- The lines are read independently just when every scan finds the end of its line. -/
theorem cfg_lines_alone_iff (short : ∀ part ∈ file.splitOn 0x0A, LineShort part) :
    LinesAlone file ↔ LinesEnd (file.splitOn 0x0A) := by
  obtain ⟨ends, leaves⟩ := @readOwnLines_scan
    ⟨jsonObjectNewObject, zeroed, zeroed, 0, 0, 0, .space, .space⟩ file (file.length + 1) short
    (Nat.lt_succ_self _)
  constructor
  · intro alone
    by_contra not
    have faults := leaves not
    have own := alone.own
    rw [cfgCreateFromOwnLines, faults] at own
    cases own
  · intro all
    have own := ends all
    refine ⟨?_, own⟩
    dsimp only [cfgCreateFromFile]
    rw [cfgReadLines_of_own rfl own, ok_bind]
    rfl

/-- An entry, a comment behind a line with blanks, and nothing behind the last newline. -/
theorem cfg_lines_alone_iff_three :
    (∀ part ∈ ([0x61, 0x3D, 0x62, 0x0A, 0x20, 0x23, 0x0A] : List UInt8).splitOn 0x0A,
      LineShort part) ∧ LinesAlone [0x61, 0x3D, 0x62, 0x0A, 0x20, 0x23, 0x0A] := by
  have split : ([0x61, 0x3D, 0x62, 0x0A, 0x20, 0x23, 0x0A] : List UInt8).splitOn 0x0A =
      [[0x61, 0x3D, 0x62], [0x20, 0x23], []] := by decide
  have short : ∀ part ∈ ([0x61, 0x3D, 0x62, 0x0A, 0x20, 0x23, 0x0A] : List UInt8).splitOn 0x0A,
      LineShort part := by
    rw [split]
    intro part listed
    simp only [mem_cons, not_mem_nil, or_false] at listed
    rcases listed with rfl | rfl | rfl <;> exact ⟨by simp [longestLine, lineSize], by simp⟩
  refine ⟨short, (cfg_lines_alone_iff short).mpr ?_⟩
  rw [split]
  exact ⟨.inl (by decide), .inl (by decide), .inl rfl⟩

/-- A last line that is a key only takes its value from the line before it. -/
theorem cfg_lines_run_on :
    ¬∀ file : List UInt8, (∀ part ∈ file.splitOn 0x0A, LineShort part) → LinesAlone file := by
  intro alone
  have split : ([0x6B, 0x6B, 0x3D, 0x31, 0x0A, 0x61] : List UInt8).splitOn 0x0A =
      [[0x6B, 0x6B, 0x3D, 0x31], [0x61]] := by decide
  have map := (alone [0x6B, 0x6B, 0x3D, 0x31, 0x0A, 0x61] (by
    rw [split]
    intro part listed
    simp only [mem_cons, not_mem_nil, or_false] at listed
    rcases listed with rfl | rfl <;> exact ⟨by simp [longestLine, lineSize], by simp⟩)).map
  have said : (linesCfg [0x6B, 0x6B, 0x3D, 0x31, 0x0A, 0x61]).entries =
      [([0x6B, 0x6B], [0x31])] := by
    rw [linesCfg, split]
    decide
  have read : (cfgCreateFromFile (some [0x6B, 0x6B, 0x3D, 0x31, 0x0A, 0x61])).map
      (Option.map Cfg.entries) = .ok (some [([0x6B, 0x6B], [0x31]), ([0x61], [0x31])]) := by
    rfl
  rw [map] at read
  have same : (linesCfg [0x6B, 0x6B, 0x3D, 0x31, 0x0A, 0x61]).entries =
      [([0x6B, 0x6B], [0x31]), ([0x61], [0x31])] := Option.some.inj (Except.ok.inj read)
  rw [said] at same
  exact absurd same (by decide)

/-! ## A file that is written again -/

/-- A line without a NUL that is read together with its newline. -/
structure PlainLine (content : List UInt8) : Prop where
  noNewline : 0x0A ∉ content
  noNul : 0 ∉ content
  fits : content.length < longestLine

def fileOf (lines : List (List UInt8)) : List UInt8 := lines.flatMap (· ++ [0x0A])

theorem fileOf_parts (plain : ∀ line ∈ parts, PlainLine line) :
    (fileOf parts).splitOn 0x0A = parts ++ [[]] ∧ LinesEnd (parts ++ [[]]) := by
  induction parts with
  | nil => exact ⟨splitOn_nil _, .inl rfl⟩
  | cons content parts ih =>
    obtain ⟨first, others⟩ := forall_mem_cons.mp plain
    obtain ⟨split, ends⟩ := ih others
    have file : fileOf (content :: parts) = content ++ 0x0A :: fileOf parts := by simp [fileOf]
    rw [file, splitOn_append_cons_self_of_not_mem first.noNewline, split]
    exact ⟨rfl, (linesEnd_cons (by simp)).mpr ⟨.inl first.fits, ends⟩⟩

theorem create_fileOf (plain : ∀ line ∈ parts, PlainLine line) :
    cfgCreateFromFile (some (fileOf parts)) =
      .ok (some (parts.foldl addLine jsonObjectNewObject)) := by
  obtain ⟨split, ends⟩ := fileOf_parts plain
  have short : ∀ part ∈ parts ++ [[]], LineShort part := by
    intro part listed
    rcases mem_append.mp listed with line | last
    · exact ⟨(plain part line).fits.le, by rintro c inside rfl; exact (plain part line).noNul inside⟩
    · simp_all [LineShort]
  rw [← split] at ends short
  have own := (@readOwnLines_scan ⟨jsonObjectNewObject, zeroed, zeroed, 0, 0, 0, .space, .space⟩
    _ _ short (Nat.lt_succ_self _)).1 ends
  rw [split, foldl_append] at own
  dsimp only [cfgCreateFromFile]
  rw [cfgReadLines_of_own rfl own, ok_bind]
  rfl

def entryText (entry : List UInt8 × List UInt8) : List UInt8 := entry.1 ++ 0x3D :: entry.2

/-- An entry that is read from the line written for it. -/
def Said (entry : List UInt8 × List UInt8) : Prop :=
  PlainLine (entryText entry) ∧ lineEntry (entryText entry) = some entry

theorem Said.of_line {entry : List UInt8 × List UInt8} (plain : PlainLine content)
    (reads : lineEntry content = some entry) : Said entry := by
  obtain ⟨⟨before, behind, between, rfl, -⟩, keyStart, valueStart⟩ := lineEntry_iff.mp reads
  have part : (entryText entry).Sublist
      (before ++ entry.1 ++ behind ++ 0x3D :: between ++ entry.2) := by
    simp only [entryText, append_assoc, cons_append]
    exact .trans (.append_left (.trans (.cons_cons _ (sublist_append_right between _))
      (sublist_append_right behind _)) _) (sublist_append_right before _)
  exact ⟨⟨fun listed => plain.noNewline (part.subset listed),
      fun listed => plain.noNul (part.subset listed), part.length_le.trans_lt plain.fits⟩,
    lineEntry_iff.mpr ⟨⟨[], [], [], by simp [entryText], by simp⟩, keyStart, valueStart⟩⟩

theorem Said.addLine (said : ∀ entry ∈ cfg.entries, Said entry) (plain : PlainLine content) :
    ∀ entry ∈ (addLine cfg content).entries, Said entry := by
  unfold Config.addLine
  cases reads : lineEntry content with
  | none => exact said
  | some added =>
    have new := Said.of_line plain reads
    dsimp only [addEntry, jsonObjectObjectAdd]
    split
    · refine forall_mem_map.mpr fun old held => ?_
      unfold withValue
      split
      · exact new
      · exact said old held
    · exact forall_mem_append.mpr ⟨said, forall_mem_singleton.mpr new⟩

theorem foldl_said {entries : List (List UInt8 × List UInt8)} (said : ∀ entry ∈ entries, Said entry)
    (fresh : ((cfg.entries ++ entries).map Prod.fst).Nodup) :
    ((entries.map entryText).foldl addLine cfg).entries = cfg.entries ++ entries := by
  induction entries generalizing cfg with
  | nil => exact (append_nil _).symm
  | cons entry entries ih =>
    obtain ⟨first, others⟩ := forall_mem_cons.mp said
    have unknown : entry.1 ∉ cfg.entries.map Prod.fst := by
      rw [map_append, nodup_append_comm] at fresh
      exact disjoint_of_nodup_append fresh mem_cons_self
    have added : (addLine cfg (entryText entry)).entries = cfg.entries ++ [entry] := by
      rw [addLine, first.2]
      exact add_entries unknown entry.2
    rw [append_cons, ← added] at fresh ⊢
    exact ih others fresh

/-- A file with any such lines gives a map that survives being written and read again. -/
theorem cfg_rewrite_keeps (plain : ∀ line ∈ parts, PlainLine line) :
    ∃ cfg, cfgCreateFromFile (some (fileOf parts)) = .ok (some cfg) ∧
      cfgCreateFromFile (some (cfgWriteToFile cfg)) = .ok (some cfg) := by
  refine ⟨_, create_fileOf plain, ?_⟩
  have said := List.foldlRecOn (motive := fun cfg => ∀ entry ∈ cfg.entries, Said entry) parts addLine
    (b := jsonObjectNewObject) (forall_mem_nil _)
    fun _ said line listed => Said.addLine said (plain line listed)
  generalize parts.foldl addLine jsonObjectNewObject = cfg at said
  have written : cfgWriteToFile cfg = fileOf (cfg.entries.map entryText) := by
    rw [cfgWriteToFile_eq, fileOf, flatMap_map]
    rfl
  rw [written, create_fileOf (forall_mem_map.mpr fun entry held => (said entry held).1)]
  exact congrArg (Except.ok ∘ some) (Cfg.ext (foldl_said said cfg.unique))

/-- The lines ` =b =c`, whose key begins with `=`, `k = 1`, `#`, and again the key `k`: `k=2`. -/
theorem cfg_rewrite_keeps_one :
    let lines : List (List UInt8) :=
      [[0x20, 0x3D, 0x62, 0x20, 0x3D, 0x63], [0x6B, 0x20, 0x3D, 0x20, 0x31], [0x23],
        [0x6B, 0x3D, 0x32]]
    ∃ cfg, cfgCreateFromFile (some (fileOf lines)) = .ok (some cfg) ∧
      cfgCreateFromFile (some (cfgWriteToFile cfg)) = .ok (some cfg) := by
  intro lines
  have plain : ∀ line ∈ lines, PlainLine line := by
    simp only [lines, forall_mem_cons]
    exact ⟨⟨by decide, by decide, by decide⟩, ⟨by decide, by decide, by decide⟩,
      ⟨by decide, by decide, by decide⟩, ⟨by decide, by decide, by decide⟩, forall_mem_nil _⟩
  exact cfg_rewrite_keeps plain

end CLibs.Config
