import CLibs.ConfigRoundTrip

/-!
# The scan of one line

From every state the machine is followed to the end of the line, whatever stands there: a newline,
or the NUL behind an unterminated line.  `Scans` gives the configuration that the scan ends with,
or the fault of an access behind the buffer, together with a bound on its steps.
-/

namespace CLibs.Config

open List

variable {line : Buffer UInt8} {parser : Parser} {c : UInt8} {done more rest : List UInt8}
  {key value : List UInt8} {bound : Nat} {result : Except Fault Cfg}

def Scans (line : Buffer UInt8) (bound : Nat) (parser : Parser) (result : Except Fault Cfg) : Prop :=
  ∃ steps, parser.datap + steps ≤ bound ∧
    ∀ fuel, (cfgParseLine line (steps + fuel) parser).map Parser.cfg = result

theorem Walks.scans {steps : Nat} {next : Parser} (walks : Walks line steps parser next)
    (datap : next.datap = parser.datap + steps) (scans : Scans line bound next result) :
    Scans line bound parser result := by
  obtain ⟨others, within, ended⟩ := scans
  refine ⟨steps + others, by omega, fun fuel => ?_⟩
  rw [Nat.add_assoc, walks]
  exact ended fuel

theorem Scans.step {next : Parser} (running : parser.state ≠ .ending)
    (stepped : cfgParseStep line parser = .ok next) (datap : next.datap = parser.datap + 1)
    (scans : Scans line bound next result) : Scans line bound parser result :=
  (Walks.cons running stepped (.nil next)).scans datap scans

theorem Scans.ending (ended : parser.state = .ending) (within : parser.datap < bound) :
    Scans line bound parser (.ok parser.cfg) := by
  refine ⟨1, within, fun fuel => ?_⟩
  rw [Nat.add_comm, cfgParseLine, if_pos ended]
  rfl

theorem Scans.fault {fault : Fault} (running : parser.state ≠ .ending)
    (failed : cfgParseStep line parser = .error fault) (within : parser.datap < bound) :
    Scans line bound parser (.error fault) := by
  refine ⟨1, within, fun fuel => ?_⟩
  rw [Nat.add_comm, cfgParseLine, if_neg running, failed]
  rfl

theorem Scans.parseLine {fuel : Nat} (scans : Scans line bound parser result)
    (enough : bound ≤ parser.datap + fuel) :
    (cfgParseLine line fuel parser).map Parser.cfg = result := by
  obtain ⟨steps, within, ended⟩ := scans
  obtain ⟨spare, rfl⟩ : ∃ spare, fuel = steps + spare := ⟨fuel - steps, by omega⟩
  exact ended spare

/-! ## The end of a line -/

theorem linebreak_scans (state : parser.state = .linebreak) (nothing : parser.lastState ≠ .value)
    (within : parser.datap + 1 < bound) : Scans line bound parser (.ok parser.cfg) := by
  have stepped : cfgParseStep line parser = .ok (parser.go .ending) := by
    unfold cfgParseStep
    rw [state]
    dsimp only [Parser.flush]
    rw [if_neg nothing, ok_bind]
    rfl
  exact .step (by rw [state]; decide) stepped rfl (.ending rfl within)

/-- What is stored of a string: its bytes, free of NUL, with room for a NUL behind them. -/
structure StringIn (buffer : Buffer UInt8) (index : Nat) (text : List UInt8) : Prop where
  index : index = text.length
  holds : buffer.Holds 0 text
  size : buffer.size = lineSize
  noNul : ∀ c ∈ text, c ≠ 0

variable {buffer : Buffer UInt8} {text : List UInt8}

theorem StringIn.room {index : Nat}
    (string : StringIn buffer index text) (short : text.length < lineSize) :
    index < buffer.size := by
  rw [string.index, string.size]
  exact short

theorem StringIn.cString {index : Nat}
    (string : StringIn buffer index text) (short : text.length < lineSize) :
    buffer.store index [0] = .ok (buffer.written index [0]) ∧
      Config.cString (buffer.written index [0]) lineSize 0 = .ok text := by
  have room := string.room short
  have stored := string.holds.extend [0] (by rw [string.index, Nat.zero_add]) room
  exact ⟨Buffer.store_eq room, cString_eq stored string.noNul short⟩

theorem add_stored (named : StringIn parser.key parser.iKey key)
    (valued : StringIn parser.value parser.iValue value) (keyShort : key.length < lineSize)
    (valueShort : value.length < lineSize) :
    Yields parser.add fun after => after.cfg = jsonObjectObjectAdd parser.cfg key value ∧
      after.datap = parser.datap := by
  obtain ⟨keyStored, name⟩ := named.cString keyShort
  obtain ⟨valueStored, data⟩ := valued.cString valueShort
  unfold Parser.add
  rw [keyStored, ok_bind, valueStored, ok_bind, name, ok_bind, data, ok_bind]
  exact ⟨_, rfl, rfl, rfl⟩

theorem linebreak_adds (state : parser.state = .linebreak) (last : parser.lastState = .value)
    (named : StringIn parser.key parser.iKey key)
    (valued : StringIn parser.value parser.iValue value) (keyShort : key.length < lineSize)
    (valueShort : value.length < lineSize) (within : parser.datap + 1 < bound) :
    Scans line bound parser (.ok (jsonObjectObjectAdd parser.cfg key value)) := by
  obtain ⟨after, added, cfg, datap⟩ := add_stored named valued keyShort valueShort
  have stepped : cfgParseStep line parser = .ok (after.go .ending) := by
    unfold cfgParseStep
    rw [state]
    dsimp only [Parser.flush]
    rw [if_pos last, added, ok_bind]
    rfl
  rw [← cfg]
  have ended := @Scans.ending line (after.go .ending) bound rfl
    (by change after.datap + 1 < bound; omega)
  exact .step (by rw [state]; decide) stepped (by change after.datap + 1 = _; omega) ended

/-! ## Blanks -/

/-- The states that skip blanks. -/
def Skipping (state : CfgParseState) : Prop :=
  state = .space ∨ state = .waitEqual ∨ state = .waitValue

theorem blank_step (skipping : Skipping parser.state) (here : line.Holds parser.datap (c :: rest))
    (blank : isBlank c) : cfgParseStep line parser = .ok parser.stay := by
  unfold cfgParseStep
  rcases skipping with state | state | state <;>
  · rw [state]
    dsimp only
    rw [Holds.load_head here, ok_bind, if_pos blank]
    rfl

theorem blanks_scans {blanks : List UInt8} (skipping : Skipping parser.state)
    (here : line.Holds parser.datap (blanks ++ rest)) (all : ∀ c ∈ blanks, isBlank c)
    (scans : Scans line bound { parser with datap := parser.datap + blanks.length } result) :
    Scans line bound parser result := by
  induction blanks generalizing parser with
  | nil => exact scans
  | cons c blanks ih =>
    have running : parser.state ≠ .ending := by
      rcases skipping with state | state | state <;> rw [state] <;> decide
    refine .step running (blank_step skipping here (all c mem_cons_self)) rfl ?_
    refine @ih parser.stay skipping (Holds.tail here)
      (forall_mem_cons.mp all).2 ?_
    have moved : parser.stay.datap + blanks.length = parser.datap + (c :: blanks).length := by
      rw [length_cons]
      change parser.datap + 1 + blanks.length = _
      omega
    rw [moved]
    exact scans

/-! ## What is left of the line -/

structure Left (line : Buffer UInt8) (position : Nat) (more : List UInt8) (stop : UInt8) :
    Prop where
  here : line.Holds position (more ++ [stop])
  size : line.size = position + more.length + 1
  plain : ∀ c ∈ more, c ≠ 0x0A ∧ c ≠ 0
  stops : stop = 0x0A ∨ stop = 0
  short : line.size < lineSize

variable {stop : UInt8} {position : Nat} {blanks : List UInt8}

theorem Left.behind (left : Left line position (blanks ++ more) stop) :
    Left line (position + blanks.length) more stop where
  here := by
    have here := left.here
    rw [append_assoc] at here
    exact (Buffer.holds_append.mp here).2
  size := by
    rw [left.size, length_append]
    omega
  plain := fun c listed => left.plain c (mem_append_right _ listed)
  stops := left.stops
  short := left.short

theorem Left.tail (left : Left line position (c :: more) stop) :
    Left line (position + 1) more stop :=
  @Left.behind line more stop position [c] left

/-- What comes of a scan that gets to the end of the line: behind a NUL it does not stop. -/
def endOf (stop : UInt8) (cfg : Cfg) : Except Fault Cfg :=
  if stop = 0 then .error .outside else .ok cfg

theorem outside_scans (state : parser.state = .key ∨ parser.state = .value)
    (outside : line.size ≤ parser.datap) (within : parser.datap < bound) :
    Scans line bound parser (.error .outside) := by
  have missing : line.load parser.datap = .error .outside := if_neg (Nat.not_lt.mpr outside)
  have failed : cfgParseStep line parser = .error .outside := by
    unfold cfgParseStep
    rcases state with state | state <;>
    · rw [state]
      dsimp only
      rw [missing]
      rfl
  exact .fault (by rcases state with state | state <;> rw [state] <;> decide) failed within

/-- The states that look at the next character, and stop at a newline. -/
def Looking (state : CfgParseState) : Prop :=
  state = .space ∨ state = .key ∨ state = .waitValue ∨ state = .value

theorem newline_step (looking : Looking parser.state)
    (here : line.Holds parser.datap (0x0A :: rest)) :
    cfgParseStep line parser = .ok (parser.go .linebreak) := by
  unfold cfgParseStep
  rcases looking with state | state | state | state <;>
  · rw [state]
    dsimp only
    rw [Holds.load_head here, ok_bind]
    rfl

theorem Looking.running {state : CfgParseState} (looking : Looking state) : state ≠ .ending := by
  rcases looking with rfl | rfl | rfl | rfl <;> decide

theorem newline_scans (looking : Looking parser.state) (incomplete : parser.state ≠ .value)
    (here : line.Holds parser.datap (0x0A :: rest)) (within : parser.datap + 2 < bound) :
    Scans line bound parser (.ok parser.cfg) :=
  .step looking.running (newline_step looking here) rfl
    (@linebreak_scans line (parser.go .linebreak) bound rfl incomplete within)

/-! ## The value -/

theorem StringIn.extend {index : Nat}
    (string : StringIn buffer index text) (plain : ∀ c ∈ more, c ≠ 0) {after : Buffer UInt8}
    (size : after.size = buffer.size) (holds : after.Holds 0 (text ++ more)) :
    StringIn after (text ++ more).length (text ++ more) where
  index := rfl
  holds := holds
  size := size.trans string.size
  noNul := fun c listed => (mem_append.mp listed).elim (string.noNul c) (plain c)

theorem value_scans (state : parser.state = .value)
    (named : StringIn parser.key parser.iKey key)
    (valued : StringIn parser.value parser.iValue value)
    (left : Left line parser.datap more stop) (keyBefore : key.length ≤ parser.datap)
    (valueBefore : value.length ≤ parser.datap) (enough : line.size + 1 < bound) :
    Scans line bound parser
      (endOf stop (jsonObjectObjectAdd parser.cfg key (value ++ more))) := by
  have size := left.size
  have short := left.short
  obtain ⟨buffer, walks, same, holds⟩ := @value_walks line parser value more [stop] state left.here
    (fun c listed => (left.plain c listed).1) valued.holds valued.index
    (by rw [valued.size]; omega)
  refine walks.scans rfl ?_
  have whole := valued.extend (fun c listed => (left.plain c listed).2) same holds
  have length : (value ++ more).length = value.length + more.length := length_append
  have stopHere := (Buffer.holds_append.mp left.here).2
  rcases left.stops with rfl | rfl
  · have stepped := @newline_step line { parser with
      value := buffer
      iValue := (value ++ more).length
      datap := parser.datap + more.length } [] (.inr (.inr (.inr state))) stopHere
    refine .step (by rw [state]; decide) stepped rfl ?_
    exact @linebreak_adds line _ key (value ++ more) bound rfl state named whole (by omega)
      (by omega) (by change parser.datap + more.length + 1 + 1 < bound; omega)
  · have room : (value ++ more).length < buffer.size := by
      rw [same, valued.size, length]
      omega
    have stepped := @value_step line { parser with
      value := buffer
      iValue := (value ++ more).length
      datap := parser.datap + more.length } 0 [] state stopHere (by decide) room
    refine .step (by rw [state]; decide) stepped rfl ?_
    exact outside_scans (.inr state) (by rw [size])
      (by change parser.datap + more.length + 1 < bound; omega)

theorem StringIn.single (plain : c ≠ 0) : StringIn (zeroed.written 0 [c]) 1 [c] where
  index := rfl
  holds := Buffer.written_holds zeroed [c] (show 0 + 1 ≤ 512 by decide)
  size := rfl
  noNul := fun other listed => by rwa [mem_singleton.mp listed]

theorem waitValue_step (state : parser.state = .waitValue)
    (here : line.Holds parser.datap (c :: rest)) (visible : ¬isBlank c) (char : c ≠ 0x0A) :
    cfgParseStep line parser = .ok { parser with
      value := zeroed.written 0 [c]
      iValue := 1
      state := .value
      lastState := .waitValue
      datap := parser.datap + 1 } := by
  unfold cfgParseStep
  rw [state]
  dsimp only
  rw [Holds.load_head here, ok_bind, if_neg visible, if_neg char,
    putValue_eq (by decide : 0 < lineSize), ok_bind, ← state]
  rfl

def withKey (key : List UInt8) (value : Option (List UInt8)) : Option (List UInt8 × List UInt8) :=
  value.map fun value => (key, value)

theorem waitValue_scans (state : parser.state = .waitValue)
    (named : StringIn parser.key parser.iKey key) (left : Left line parser.datap more stop)
    (keyBefore : key.length ≤ parser.datap) (enough : line.size + 1 < bound) :
    Scans line bound parser
      (endOf stop (addEntry parser.cfg (withKey key (valueOf more)))) := by
  obtain ⟨blanks, whole, blank⟩ := blanks_split more
  rw [whole] at left
  have behind := left.behind
  refine @blanks_scans line parser _ bound _ blanks (.inr (.inr state))
    (by have here := left.here; rwa [append_assoc] at here) blank ?_
  have size := behind.size
  unfold valueOf
  cases visible : skipBlanks more with
  | nil =>
    rw [visible] at behind
    rw [if_pos rfl]
    rcases behind.stops with rfl | rfl
    · exact @newline_scans line { parser with datap := parser.datap + blanks.length } [] bound
        (.inr (.inr (.inl state))) (by rw [state]; decide) behind.here
        (by change parser.datap + blanks.length + 2 < bound; rw [visible] at size; omega)
    · have stepped := @waitValue_step line
        { parser with datap := parser.datap + blanks.length } 0 [] state behind.here
        (by decide) (by decide)
      refine .step (by rw [state]; decide) stepped rfl ?_
      rw [visible] at size
      exact outside_scans (.inr rfl) (Nat.le_of_eq size)
        (by change parser.datap + blanks.length + 1 < bound; omega)
  | cons c rest =>
    rw [visible] at behind
    rw [if_neg nofun]
    have plain := behind.plain c mem_cons_self
    have stepped := @waitValue_step line
      { parser with datap := parser.datap + blanks.length } c (rest ++ [stop]) state behind.here
      (skipBlanks_start visible) plain.1
    refine .step (by rw [state]; decide) stepped rfl ?_
    exact @value_scans line _ rest key [c] bound stop rfl named (.single plain.2) behind.tail
      (by change key.length ≤ parser.datap + blanks.length + 1; omega)
      (by change 1 ≤ parser.datap + blanks.length + 1; omega) enough

/-! ## The key -/

theorem waitEqual_step (state : parser.state = .waitEqual)
    (here : line.Holds parser.datap (c :: rest)) (visible : ¬isBlank c) :
    cfgParseStep line parser =
      .ok (parser.go (if c = 0x3D then .waitValue else .linebreak)) := by
  unfold cfgParseStep
  rw [state]
  dsimp only
  rw [Holds.load_head here, ok_bind, if_neg visible]
  split <;> rfl

theorem waitEqual_scans (state : parser.state = .waitEqual)
    (named : StringIn parser.key parser.iKey key) (left : Left line parser.datap more stop)
    (keyBefore : key.length ≤ parser.datap) (enough : line.size + 1 < bound) :
    Scans line bound parser
      (if (skipBlanks more).head? = some 0x3D then
        endOf stop (addEntry parser.cfg (withKey key (valueBehind more)))
      else .ok parser.cfg) := by
  obtain ⟨blanks, whole, blank⟩ := blanks_split more
  rw [whole] at left
  have behind := left.behind
  refine @blanks_scans line parser _ bound _ blanks (.inr (.inl state))
    (by have here := left.here; rwa [append_assoc] at here) blank ?_
  have size := behind.size
  have breaks : ∀ c rest, line.Holds (parser.datap + blanks.length) (c :: rest) → ¬isBlank c →
      c ≠ 0x3D → Scans line bound { parser with datap := parser.datap + blanks.length }
        (.ok parser.cfg) := by
    intro c rest here visible other
    have stepped := @waitEqual_step line
      { parser with datap := parser.datap + blanks.length } c rest state here visible
    rw [if_neg other] at stepped
    refine .step (by rw [state]; decide) stepped rfl ?_
    refine @linebreak_scans line _ bound rfl ?_ ?_
    · change parser.state ≠ .value
      rw [state]
      decide
    · change parser.datap + blanks.length + 1 + 1 < bound
      omega
  unfold valueBehind
  cases visible : skipBlanks more with
  | nil =>
    rw [visible] at behind
    rw [if_neg nofun]
    have none : ¬isBlank stop ∧ stop ≠ 0x3D := by
      rcases behind.stops with rfl | rfl <;> exact ⟨by decide, by decide⟩
    exact breaks stop [] behind.here none.1 none.2
  | cons c rest =>
    rw [visible] at behind
    rw [List.head?_cons]
    by_cases equal : c = 0x3D
    · subst equal
      rw [if_pos rfl]
      have stepped := @waitEqual_step line
        { parser with datap := parser.datap + blanks.length } 0x3D (rest ++ [stop]) state
        behind.here (by decide)
      refine .step (by rw [state]; decide) stepped rfl ?_
      exact @waitValue_scans line _ rest key bound stop rfl named behind.tail
        (by change key.length ≤ parser.datap + blanks.length + 1; omega) enough
    · rw [if_neg fun same => equal (Option.some.inj same)]
      exact breaks c _ behind.here (skipBlanks_start visible) equal

theorem key_nul_step (state : parser.state = .key)
    (here : line.Holds parser.datap (0 :: rest)) (room : parser.iKey < parser.key.size) :
    cfgParseStep line parser = .ok { parser with
      key := parser.key.written parser.iKey [0]
      iKey := parser.iKey + 1
      datap := parser.datap + 1 } := by
  unfold cfgParseStep
  rw [state]
  dsimp only
  rw [Holds.load_head here, ok_bind, if_neg (by decide), if_neg (by decide), if_neg (by decide),
    putKey_eq room, ok_bind, ← state]
  rfl

theorem key_equal_step (state : parser.state = .key)
    (here : line.Holds parser.datap (0x3D :: rest)) :
    cfgParseStep line parser = .ok (parser.go .waitValue) := by
  unfold cfgParseStep
  rw [state]
  dsimp only
  rw [Holds.load_head here, ok_bind]
  rfl

theorem key_blank_step (state : parser.state = .key) (here : line.Holds parser.datap (c :: rest))
    (blank : isBlank c) : cfgParseStep line parser = .ok (parser.go .waitEqual) := by
  have noNewline : c ≠ 0x0A := by
    rintro rfl
    exact absurd blank (by decide)
  have noEqual : c ≠ 0x3D := by
    rintro rfl
    exact absurd blank (by decide)
  unfold cfgParseStep
  rw [state]
  dsimp only
  rw [Holds.load_head here, ok_bind, if_neg noNewline, if_neg noEqual, if_pos blank]
  rfl

theorem key_scans (state : parser.state = .key) (named : StringIn parser.key parser.iKey key)
    (left : Left line parser.datap more stop) (keyBefore : key.length ≤ parser.datap)
    (enough : line.size + 1 < bound) :
    Scans line bound parser
      (if BreaksOff (more.dropWhile onKey) then .ok parser.cfg
      else endOf stop (addEntry parser.cfg
        (withKey (key ++ more.takeWhile onKey) (valueBehind (more.dropWhile onKey))))) := by
  have split := (@takeWhile_append_dropWhile _ onKey more).symm
  have onKeys : ∀ c ∈ more.takeWhile onKey, onKey c = true :=
    fun c listed => mem_takeWhile_imp listed
  have stopped : ∀ c rest, more.dropWhile onKey = c :: rest → ¬onKey c = true := by
    intro c rest dropped
    have nonempty : more.dropWhile onKey ≠ [] := by
      rw [dropped]
      exact nofun
    have head := head_dropWhile_not onKey nonempty
    simp only [dropped, head_cons] at head
    rw [head]
    decide
  generalize more.takeWhile onKey = front at *
  generalize more.dropWhile onKey = rest at *
  subst split
  have size := left.size
  rw [length_append] at size
  have short := left.short
  have behind := left.behind
  have here := left.here
  rw [append_assoc] at here
  have keyChars : ∀ c ∈ front, KeyChar c := by
    intro c listed
    obtain ⟨noBlank, noEqual⟩ := onKey_iff.mp (onKeys c listed)
    obtain ⟨noNewline, noNul⟩ := left.plain c (mem_append_left _ listed)
    exact ⟨noBlank, noNewline, noEqual, noNul⟩
  obtain ⟨buffer, walks, same, holds⟩ := @key_walks line parser key front (rest ++ [stop]) state
    here keyChars named.holds named.index (by rw [named.size]; omega)
  refine walks.scans rfl ?_
  have whole := named.extend (fun c listed => (keyChars c listed).noNul) same holds
  have length : (key ++ front).length = key.length + front.length := length_append
  cases rest with
  | nil =>
    rw [if_neg (show ¬BreaksOff [] from id)]
    rw [length_nil] at size
    rcases left.stops with rfl | rfl
    · exact @newline_scans line { parser with
        key := buffer
        iKey := (key ++ front).length
        datap := parser.datap + front.length } [] bound (.inr (.inl state))
        (by rw [state]; decide) behind.here
        (by change parser.datap + front.length + 2 < bound; omega)
    · have room : (key ++ front).length < buffer.size := by
        rw [same, named.size, length]
        omega
      have stepped := @key_nul_step line { parser with
        key := buffer
        iKey := (key ++ front).length
        datap := parser.datap + front.length } [] state behind.here room
      refine .step (by rw [state]; decide) stepped rfl ?_
      exact outside_scans (.inl state) (by rw [size]; exact Nat.le_refl _)
        (by change parser.datap + front.length + 1 < bound; omega)
  | cons c rest =>
    rw [length_cons] at size
    have before : (key ++ front).length ≤ parser.datap + front.length + 1 := by
      rw [length]
      omega
    rcases onKey_stops (stopped c rest rfl) with blank | rfl
    · have stepped := @key_blank_step line { parser with
        key := buffer
        iKey := (key ++ front).length
        datap := parser.datap + front.length } c (rest ++ [stop]) state behind.here blank
      refine .step (by rw [state]; decide) stepped rfl ?_
      have scans := @waitEqual_scans line (({ parser with
        key := buffer
        iKey := (key ++ front).length
        datap := parser.datap + front.length } : Parser).go .waitEqual) rest (key ++ front) bound
        stop rfl whole behind.tail before enough
      rw [valueBehind_blank blank]
      by_cases equal : (skipBlanks rest).head? = some 0x3D
      · rw [if_pos equal] at scans
        rw [if_neg fun breaks : BreaksOff (c :: rest) => breaks.2 equal]
        exact scans
      · rw [if_neg equal] at scans
        rw [if_pos (show BreaksOff (c :: rest) from ⟨blank, equal⟩)]
        exact scans
    · have stepped := @key_equal_step line { parser with
        key := buffer
        iKey := (key ++ front).length
        datap := parser.datap + front.length } (rest ++ [stop]) state behind.here
      refine .step (by rw [state]; decide) stepped rfl ?_
      rw [if_neg fun breaks : BreaksOff (0x3D :: rest) => absurd breaks.1 (by decide),
        valueBehind_equal]
      exact @waitValue_scans line _ rest (key ++ front) bound stop rfl whole behind.tail before
        enough

/-! ## The line -/

theorem space_sharp_step (state : parser.state = .space)
    (here : line.Holds parser.datap (0x23 :: rest)) :
    cfgParseStep line parser = .ok (parser.go .sharp) := by
  unfold cfgParseStep
  rw [state]
  dsimp only
  rw [Holds.load_head here, ok_bind]
  rfl

theorem space_step (state : parser.state = .space) (here : line.Holds parser.datap (c :: rest))
    (visible : ¬isBlank c) (noSharp : c ≠ 0x23) (char : c ≠ 0x0A) :
    cfgParseStep line parser = .ok { parser with
      key := zeroed.written 0 [c]
      iKey := 1
      state := .key
      lastState := .space
      datap := parser.datap + 1 } := by
  unfold cfgParseStep
  rw [state]
  dsimp only
  rw [Holds.load_head here, ok_bind, if_neg visible, if_neg noSharp, if_neg char,
    putKey_eq (by decide : 0 < lineSize), ok_bind, ← state]
  rfl

/-- A line is read from its beginning to its end. -/
theorem line_scans (state : parser.state = .space) (left : Left line parser.datap more stop)
    (enough : line.size + 1 < bound) :
    Scans line bound parser
      (if StopsEarly more then .ok parser.cfg
      else endOf stop (addEntry parser.cfg (lineEntry more))) := by
  obtain ⟨blanks, whole, blank⟩ := blanks_split more
  have left' := left
  rw [whole] at left'
  have behind := left'.behind
  refine @blanks_scans line parser _ bound _ blanks (.inl state)
    (by have here := left'.here; rwa [append_assoc] at here) blank ?_
  have size := behind.size
  cases visible : skipBlanks more with
  | nil =>
    rw [visible] at behind size
    rw [length_nil] at size
    rw [if_neg (not_stopsEarly_blank visible), lineEntry_blank visible]
    rcases behind.stops with rfl | rfl
    · exact @newline_scans line { parser with datap := parser.datap + blanks.length } [] bound
        (.inl state) (by rw [state]; decide) behind.here
        (by change parser.datap + blanks.length + 2 < bound; omega)
    · have stepped := @space_step line
        { parser with datap := parser.datap + blanks.length } 0 [] state behind.here
        (by decide) (by decide) (by decide)
      refine .step (by rw [state]; decide) stepped rfl ?_
      exact outside_scans (.inl rfl) (Nat.le_of_eq size)
        (by change parser.datap + blanks.length + 1 < bound; omega)
  | cons c rest =>
    rw [visible] at behind size
    rw [length_cons] at size
    have early := stopsEarly_starts visible
    by_cases sharp : c = 0x23
    · rw [if_pos (early.mpr (.inl sharp))]
      subst sharp
      have stepped := @space_sharp_step line
        { parser with datap := parser.datap + blanks.length } (rest ++ [stop]) state behind.here
      refine .step (by rw [state]; decide) stepped rfl ?_
      have sharps : cfgParseStep line
          (({ parser with datap := parser.datap + blanks.length } : Parser).go .sharp) =
          .ok ((({ parser with datap := parser.datap + blanks.length } : Parser).go .sharp).go
            .linebreak) := rfl
      refine .step (show CfgParseState.sharp ≠ .ending by decide) sharps rfl ?_
      exact @linebreak_scans line _ bound rfl (show CfgParseState.sharp ≠ .value by decide)
        (by change parser.datap + blanks.length + 1 + 1 + 1 < bound; omega)
    · have plain := behind.plain c mem_cons_self
      have stepped := @space_step line
        { parser with datap := parser.datap + blanks.length } c (rest ++ [stop]) state behind.here
        (skipBlanks_start visible) sharp plain.1
      refine .step (by rw [state]; decide) stepped rfl ?_
      have scans := @key_scans line { parser with
        key := zeroed.written 0 [c]
        iKey := 1
        state := .key
        lastState := .space
        datap := parser.datap + blanks.length + 1 } rest [c] bound stop rfl (.single plain.2)
        behind.tail (by change 1 ≤ parser.datap + blanks.length + 1; omega) enough
      rw [lineEntry_starts visible sharp]
      by_cases breaks : BreaksOff (rest.dropWhile onKey)
      · rw [if_pos breaks] at scans
        rw [if_pos (early.mpr (.inr breaks))]
        exact scans
      · rw [if_neg breaks] at scans
        rw [if_neg fun stops => (early.mp stops).elim sharp breaks]
        exact scans

end CLibs.Config
