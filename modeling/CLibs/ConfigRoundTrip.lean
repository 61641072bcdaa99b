import CLibs.ConfigFiles

/-!
# Configuration files read back as written

A line is followed character by character: the key is collected up to the first `=`,
the value up to the newline, and the step behind the newline adds both.  The entries of
the file are then added one by one in their order.
-/

namespace CLibs.Config

open List

variable {line : Buffer UInt8} {parser : Parser} {c : UInt8} {done more rest : List UInt8}
  {key value : List UInt8}

/-! ## Single steps -/

variable {buffer : Buffer UInt8} {position : Nat}

theorem Holds.load_head (holds : buffer.Holds position (c :: rest)) :
    buffer.load position = .ok c :=
  holds.load_eq (Nat.le_refl _) (by rw [Nat.sub_self]; rfl)

theorem Holds.tail (holds : buffer.Holds position (c :: rest)) : buffer.Holds (position + 1) rest :=
  ((@Buffer.holds_append _ _ _ [c] rest).mp holds).2

/-- The line takes the machine from one state to another in so many steps. -/
def Walks (line : Buffer UInt8) (steps : Nat) (first last : Parser) : Prop :=
  ∀ fuel, cfgParseLine line (steps + fuel) first = cfgParseLine line fuel last

theorem Walks.nil (parser : Parser) : Walks line 0 parser parser := by
  intro fuel
  rw [Nat.zero_add]

theorem Walks.cons {steps : Nat} {second last : Parser} (running : parser.state ≠ .ending)
    (stepped : cfgParseStep line parser = .ok second) (walks : Walks line steps second last) :
    Walks line (steps + 1) parser last := by
  intro fuel
  rw [Nat.add_right_comm, cfgParseLine, if_neg running, stepped, ok_bind, walks]

theorem Walks.trans {steps others : Nat} {second last : Parser}
    (walks : Walks line steps parser second) (further : Walks line others second last) :
    Walks line (steps + others) parser last := by
  intro fuel
  rw [Nat.add_assoc, walks, further]

/-- A character that goes on a key. -/
structure KeyChar (c : UInt8) : Prop where
  noBlank : ¬isBlank c
  noNewline : c ≠ 0x0A
  noEqual : c ≠ 0x3D
  noNul : c ≠ 0

instance (c : UInt8) : Decidable (KeyChar c) :=
  decidable_of_iff (¬isBlank c ∧ c ≠ 0x0A ∧ c ≠ 0x3D ∧ c ≠ 0)
    ⟨fun ⟨noBlank, noNewline, noEqual, noNul⟩ => ⟨noBlank, noNewline, noEqual, noNul⟩,
      fun char => ⟨char.noBlank, char.noNewline, char.noEqual, char.noNul⟩⟩

/-- A key and a value that the grammar of the file can hold. -/
structure Writable (key value : List UInt8) : Prop where
  keyChars : ∀ c ∈ key, KeyChar c
  keyNonempty : key ≠ []
  keyStart : key.head? ≠ some 0x23
  valueChars : ∀ c ∈ value, c ≠ 0x0A ∧ c ≠ 0
  valueNonempty : value ≠ []
  valueStart : ∀ c, value.head? = some c → ¬isBlank c
  short : key.length + value.length ≤ 508

def entryLine (key value : List UInt8) : List UInt8 := key ++ 0x3D :: value ++ [0x0A]

theorem putKey_eq (room : parser.iKey < parser.key.size) (c : UInt8) :
    parser.putKey c = .ok { parser with
      key := parser.key.written parser.iKey [c], iKey := parser.iKey + 1 } := by
  unfold Parser.putKey
  rw [Buffer.store_eq room, ok_bind]

theorem putValue_eq (room : parser.iValue < parser.value.size) (c : UInt8) :
    parser.putValue c = .ok { parser with
      value := parser.value.written parser.iValue [c], iValue := parser.iValue + 1 } := by
  unfold Parser.putValue
  rw [Buffer.store_eq room, ok_bind]

/-! ## The key -/

theorem key_step (state : parser.state = .key) (here : line.Holds parser.datap (c :: rest))
    (char : KeyChar c) (room : parser.iKey < parser.key.size) :
    cfgParseStep line parser = .ok { parser with
      key := parser.key.written parser.iKey [c]
      iKey := parser.iKey + 1
      datap := parser.datap + 1 } := by
  unfold cfgParseStep
  rw [state]
  dsimp only
  rw [Holds.load_head here, ok_bind, if_neg char.noNewline, if_neg char.noEqual,
    if_neg char.noBlank, putKey_eq room, ok_bind, ← state]
  rfl

/-! ## The value -/

theorem value_step (state : parser.state = .value) (here : line.Holds parser.datap (c :: rest))
    (char : c ≠ 0x0A) (room : parser.iValue < parser.value.size) :
    cfgParseStep line parser = .ok { parser with
      value := parser.value.written parser.iValue [c]
      iValue := parser.iValue + 1
      datap := parser.datap + 1 } := by
  unfold cfgParseStep
  rw [state]
  dsimp only
  rw [Holds.load_head here, ok_bind, if_neg char, putValue_eq room, ok_bind, ← state]
  rfl

/-! ## The bytes of a key or a value -/

section

variable (put : Buffer UInt8 → Nat → Nat → Parser) (good : UInt8 → Prop)

theorem collects (runs : ∀ buffer index place, (put buffer index place).state ≠ .ending)
    (step : ∀ {buffer index place c rest}, line.Holds place (c :: rest) → good c →
      index < buffer.size → cfgParseStep line (put buffer index place) =
        .ok (put (buffer.written index [c]) (index + 1) (place + 1)))
    (here : line.Holds place (more ++ rest)) (chars : ∀ c ∈ more, good c)
    (stored : buffer.Holds 0 done) (room : done.length + more.length ≤ buffer.size) :
    ∃ after, Walks line more.length (put buffer done.length place)
        (put after (done ++ more).length (place + more.length)) ∧
      after.size = buffer.size ∧ after.Holds 0 (done ++ more) := by
  induction more generalizing buffer done place with
  | nil =>
    rw [append_nil]
    exact ⟨buffer, .nil _, rfl, stored⟩
  | cons c more ih =>
    rw [length_cons] at room
    have stepped := step here (chars c mem_cons_self)
      (show done.length < buffer.size by omega)
    have grown : (buffer.written done.length [c]).Holds 0 (done ++ [c]) :=
      stored.extend _ (Nat.zero_add _).symm (by rw [length_singleton]; omega)
    have length : (done ++ [c]).length = done.length + 1 := length_append
    obtain ⟨after, walks, size, holds⟩ := ih (Holds.tail here)
      (forall_mem_cons.mp chars).2 grown
      (by rw [length, Buffer.written_size]; omega)
    rw [length] at walks
    refine ⟨after, ?_, size, ?_⟩
    · have all := Walks.cons (runs _ _ _) stepped walks
      rw [append_assoc, singleton_append, Nat.add_assoc, Nat.add_comm 1] at all
      exact all
    · rw [append_cons]
      exact holds

end

theorem key_walks (state : parser.state = .key) (here : line.Holds parser.datap (more ++ rest))
    (chars : ∀ c ∈ more, KeyChar c) (stored : parser.key.Holds 0 done)
    (index : parser.iKey = done.length) (room : done.length + more.length ≤ parser.key.size) :
    ∃ key, Walks line more.length parser { parser with
        key := key
        iKey := (done ++ more).length
        datap := parser.datap + more.length } ∧
      key.size = parser.key.size ∧ key.Holds 0 (done ++ more) := by
  have walks := collects (fun key index place =>
      { parser with key := key, iKey := index, datap := place }) KeyChar
    (fun _ _ _ => by rw [state]; decide) (fun here char room => key_step state here char room)
    here chars stored room
  rw [← index] at walks
  exact walks

theorem value_walks (state : parser.state = .value) (here : line.Holds parser.datap (more ++ rest))
    (chars : ∀ c ∈ more, c ≠ 0x0A) (stored : parser.value.Holds 0 done)
    (index : parser.iValue = done.length) (room : done.length + more.length ≤ parser.value.size) :
    ∃ value, Walks line more.length parser { parser with
        value := value
        iValue := (done ++ more).length
        datap := parser.datap + more.length } ∧
      value.size = parser.value.size ∧ value.Holds 0 (done ++ more) := by
  have walks := collects (fun value index place =>
      { parser with value := value, iValue := index, datap := place }) (· ≠ 0x0A)
    (fun _ _ _ => by rw [state]; decide) (fun here char room => value_step state here char room)
    here chars stored room
  rw [← index] at walks
  exact walks

/-! ## The end of a line -/

theorem cString_eq {text : List UInt8} {remaining : Nat}
    (holds : buffer.Holds position (text ++ [0])) (plain : ∀ c ∈ text, c ≠ 0)
    (enough : text.length < remaining) : cString buffer remaining position = .ok text := by
  induction text generalizing position remaining with
  | nil =>
    obtain ⟨remaining, rfl⟩ := Nat.exists_eq_succ_of_ne_zero (Nat.ne_of_gt enough)
    rw [cString, Holds.load_head holds, ok_bind, if_pos rfl]
    rfl
  | cons c text ih =>
    obtain ⟨remaining, rfl⟩ :=
      Nat.exists_eq_succ_of_ne_zero (Nat.ne_of_gt (Nat.zero_lt_of_lt enough))
    rw [cString, Holds.load_head holds, ok_bind, if_neg (plain c mem_cons_self),
      ih (Holds.tail holds) (forall_mem_cons.mp plain).2
        (Nat.lt_of_succ_lt_succ enough)]
    rfl

structure HasKey (parser : Parser) (key : List UInt8) : Prop where
  index : parser.iKey = key.length
  holds : parser.key.Holds 0 key
  size : parser.key.size = lineSize

structure HasValue (parser : Parser) (value : List UInt8) : Prop where
  index : parser.iValue = value.length
  holds : parser.value.Holds 0 value
  size : parser.value.size = lineSize

theorem add_eq (hasKey : HasKey parser key) (hasValue : HasValue parser value)
    (writable : Writable key value) :
    Yields parser.add fun after => after.cfg = jsonObjectObjectAdd parser.cfg key value := by
  have short := writable.short
  have keyRoom : parser.iKey + [(0 : UInt8)].length ≤ parser.key.size := by
    rw [hasKey.size, hasKey.index, length_singleton]
    unfold lineSize
    omega
  have valueRoom : parser.iValue + [(0 : UInt8)].length ≤ parser.value.size := by
    rw [hasValue.size, hasValue.index, length_singleton]
    unfold lineSize
    omega
  have name := hasKey.holds.extend [0] (by rw [hasKey.index, Nat.zero_add]) keyRoom
  have data := hasValue.holds.extend [0] (by rw [hasValue.index, Nat.zero_add]) valueRoom
  unfold Parser.add
  rw [Buffer.store_eq keyRoom, ok_bind, Buffer.store_eq valueRoom, ok_bind,
    cString_eq name (fun c listed => (writable.keyChars c listed).noNul)
      (by unfold lineSize; omega), ok_bind,
    cString_eq data (fun c listed => (writable.valueChars c listed).2)
      (by unfold lineSize; omega), ok_bind]
  exact ⟨_, rfl, rfl⟩

/-! ## A line -/

theorem key_phase (writable : Writable key value) (state : parser.state = .space)
    (here : line.Holds parser.datap (key ++ rest)) :
    ∃ next, Walks line key.length parser next ∧ next.state = .key ∧ HasKey next key ∧
      next.datap = parser.datap + key.length ∧ next.cfg = parser.cfg := by
  obtain ⟨c, key, rfl⟩ := exists_cons_of_ne_nil writable.keyNonempty
  have first := writable.keyChars c mem_cons_self
  have noSharp : c ≠ 0x23 := fun sharp => writable.keyStart (congrArg some sharp)
  have short := writable.short
  rw [length_cons] at short
  have begins : cfgParseStep line parser = .ok { parser with
      key := zeroed.written 0 [c]
      iKey := 1
      state := .key
      lastState := .space
      datap := parser.datap + 1 } := by
    unfold cfgParseStep
    rw [state]
    dsimp only
    rw [Holds.load_head here, ok_bind, if_neg first.noBlank, if_neg noSharp, if_neg first.noNewline,
      putKey_eq (by decide : 0 < lineSize), ok_bind, ← state]
    rfl
  obtain ⟨buffer, walks, size, holds⟩ := @key_walks line { parser with
      key := zeroed.written 0 [c]
      iKey := 1
      state := .key
      lastState := .space
      datap := parser.datap + 1 } [c] key rest rfl (Holds.tail here)
    (forall_mem_cons.mp writable.keyChars).2
    (Buffer.written_holds zeroed [c] (show 0 + 1 ≤ 512 by decide)) rfl
    (show 1 + key.length ≤ 512 by omega)
  refine ⟨_, .cons (by rw [state]; decide) begins walks, rfl, ⟨rfl, holds, size⟩, ?_, rfl⟩
  rw [length_cons, Nat.add_comm key.length, ← Nat.add_assoc]

theorem equal_phase (hasKey : HasKey parser key) (state : parser.state = .key)
    (here : line.Holds parser.datap (0x3D :: rest)) :
    ∃ next, Walks line 1 parser next ∧ next.state = .waitValue ∧ HasKey next key ∧
      next.datap = parser.datap + 1 ∧ next.cfg = parser.cfg := by
  have stepped : cfgParseStep line parser = .ok (parser.go .waitValue) := by
    unfold cfgParseStep
    rw [state]
    dsimp only
    rw [Holds.load_head here, ok_bind, if_neg (by decide), if_pos rfl]
    rfl
  exact ⟨_, .cons (by rw [state]; decide) stepped (.nil _), rfl,
    ⟨hasKey.index, hasKey.holds, hasKey.size⟩, rfl, rfl⟩

theorem value_phase (writable : Writable key value) (hasKey : HasKey parser key)
    (state : parser.state = .waitValue) (here : line.Holds parser.datap (value ++ rest)) :
    ∃ next, Walks line value.length parser next ∧ next.state = .value ∧ HasKey next key ∧
      HasValue next value ∧ next.datap = parser.datap + value.length ∧ next.cfg = parser.cfg := by
  obtain ⟨c, value, rfl⟩ := exists_cons_of_ne_nil writable.valueNonempty
  have short := writable.short
  rw [length_cons] at short
  have begins : cfgParseStep line parser = .ok { parser with
      value := zeroed.written 0 [c]
      iValue := 1
      state := .value
      lastState := .waitValue
      datap := parser.datap + 1 } := by
    unfold cfgParseStep
    rw [state]
    dsimp only
    rw [Holds.load_head here, ok_bind, if_neg (writable.valueStart c rfl),
      if_neg (writable.valueChars c mem_cons_self).1, putValue_eq (by decide : 0 < lineSize),
      ok_bind, ← state]
    rfl
  obtain ⟨buffer, walks, size, holds⟩ := @value_walks line { parser with
      value := zeroed.written 0 [c]
      iValue := 1
      state := .value
      lastState := .waitValue
      datap := parser.datap + 1 } [c] value rest rfl (Holds.tail here)
    (fun other listed => (writable.valueChars other (mem_cons_of_mem c listed)).1)
    (Buffer.written_holds zeroed [c] (show 0 + 1 ≤ 512 by decide)) rfl
    (show 1 + value.length ≤ 512 by omega)
  refine ⟨_, .cons (by rw [state]; decide) begins walks, rfl,
    ⟨hasKey.index, hasKey.holds, hasKey.size⟩, ⟨rfl, holds, size⟩, ?_, rfl⟩
  rw [length_cons, Nat.add_comm value.length, ← Nat.add_assoc]

theorem newline_phase (writable : Writable key value) (hasKey : HasKey parser key)
    (hasValue : HasValue parser value) (state : parser.state = .value)
    (here : line.Holds parser.datap (0x0A :: rest)) :
    ∃ next, Walks line 2 parser next ∧ next.state = .ending ∧
      next.cfg = jsonObjectObjectAdd parser.cfg key value := by
  have stepped : cfgParseStep line parser = .ok (parser.go .linebreak) := by
    unfold cfgParseStep
    rw [state]
    dsimp only
    rw [Holds.load_head here, ok_bind, if_pos rfl]
    rfl
  obtain ⟨after, added, cfg⟩ := @add_eq (parser.go .linebreak) key value
    ⟨hasKey.index, hasKey.holds, hasKey.size⟩ ⟨hasValue.index, hasValue.holds, hasValue.size⟩ writable
  have ends : cfgParseStep line (parser.go .linebreak) = .ok (after.go .ending) := by
    have remembered : (parser.go .linebreak).lastState = .value := state
    have now : (parser.go .linebreak).state = .linebreak := rfl
    unfold cfgParseStep
    rw [now]
    dsimp only [Parser.flush]
    rw [if_pos remembered, added, ok_bind]
    rfl
  exact ⟨_, .cons (by rw [state]; decide) stepped (.cons nofun ends (.nil _)), rfl, cfg⟩

theorem line_walks (writable : Writable key value)
    (here : line.Holds parser.datap (entryLine key value)) (state : parser.state = .space) :
    ∃ after, Walks line (key.length + 1 + value.length + 2) parser after ∧ after.state = .ending ∧
      after.cfg = jsonObjectObjectAdd parser.cfg key value := by
  have text : entryLine key value = key ++ (0x3D :: (value ++ [0x0A])) := by
    unfold entryLine
    rw [append_assoc, cons_append]
  rw [text] at here
  obtain ⟨atEqual, first, inKey, hasKey, datap, cfg⟩ := key_phase writable state here
  have behindKey := (Buffer.holds_append.mp here).2
  rw [← datap] at behindKey
  obtain ⟨atValue, second, waiting, keeps, datap', cfg'⟩ := equal_phase hasKey inKey behindKey
  have behindEqual := Holds.tail behindKey
  rw [← datap'] at behindEqual
  obtain ⟨atNewline, third, inValue, stays, hasValue, datap'', cfg''⟩ :=
    value_phase writable keeps waiting behindEqual
  have behindValue := (Buffer.holds_append.mp behindEqual).2
  rw [← datap''] at behindValue
  obtain ⟨after, fourth, ended, added⟩ := newline_phase writable stays hasValue inValue behindValue
  refine ⟨after, ((first.trans second).trans third).trans fourth, ended, ?_⟩
  rw [added, cfg'', cfg', cfg]

/-! ## The file -/

theorem fgetsTake_line {room : Nat} {text : List UInt8} (noNewline : ∀ c ∈ text, c ≠ 0x0A)
    (enough : text.length < room) (rest : List UInt8) :
    fgetsTake room (text ++ 0x0A :: rest) = (text ++ [0x0A], rest) := by
  induction text generalizing room with
  | nil =>
    obtain ⟨room, rfl⟩ := Nat.exists_eq_succ_of_ne_zero (Nat.ne_of_gt enough)
    rfl
  | cons c text ih =>
    obtain ⟨room, rfl⟩ := Nat.exists_eq_succ_of_ne_zero (Nat.ne_of_gt (Nat.zero_lt_of_lt enough))
    rw [cons_append, fgetsTake, if_neg (noNewline c mem_cons_self),
      ih (forall_mem_cons.mp noNewline).2
        (Nat.lt_of_succ_lt_succ enough)]
    rfl

theorem entryLine_length (key value : List UInt8) :
    (entryLine key value).length = key.length + 1 + value.length + 1 := by
  unfold entryLine
  rw [length_append, length_append, length_cons, length_singleton]
  omega

theorem Writable.fgets_eq (writable : Writable key value) (rest : List UInt8) :
    fgets (lineSize - 1) (entryLine key value ++ rest) = some (entryLine key value, rest) := by
  have short := writable.short
  have split : entryLine key value ++ rest = (key ++ 0x3D :: value) ++ 0x0A :: rest := by
    unfold entryLine
    rw [append_assoc, append_assoc, append_assoc]
    rfl
  have plain : ∀ c ∈ key ++ 0x3D :: value, c ≠ 0x0A := by
    intro c listed
    rcases mem_append.mp listed with inKey | listed
    · exact (writable.keyChars c inKey).noNewline
    rcases mem_cons.mp listed with rfl | inValue
    · decide
    · exact (writable.valueChars c inValue).1
  have taken := @fgetsTake_line (lineSize - 1 - 1) _ plain
    (by rw [length_append, length_cons]; unfold lineSize; omega) rest
  obtain ⟨c, others, some⟩ := exists_cons_of_ne_nil
    (append_ne_nil_of_left_ne_nil (append_ne_nil_of_left_ne_nil writable.keyNonempty
      (0x3D :: value)) (0x0A :: rest))
  rw [split, some, fgets, ← some, taken]
  rfl

def linesText (entries : List (List UInt8 × List UInt8)) : List UInt8 :=
  entries.flatMap fun entry => entryLine entry.1 entry.2

theorem cfgWriteToFile_eq (cfg : Cfg) : cfgWriteToFile cfg = linesText cfg.entries := by
  have grown : ∀ (entries : List (List UInt8 × List UInt8)) (file : List UInt8),
      entries.foldl (fun data entry => cfgDoWriteToFile entry.1 entry.2 data) file =
        file ++ linesText entries := by
    intro entries
    induction entries with
    | nil => simp [linesText]
    | cons entry entries ih =>
      intro file
      rw [foldl_cons, ih]
      simp [linesText, cfgDoWriteToFile, entryLine]
  exact grown cfg.entries []

theorem add_entries {cfg : Cfg} (fresh : key ∉ cfg.entries.map Prod.fst) (value : List UInt8) :
    (jsonObjectObjectAdd cfg key value).entries = cfg.entries ++ [(key, value)] := by
  unfold jsonObjectObjectAdd
  rw [dif_neg fresh]

theorem readLines_yields {entries : List (List UInt8 × List UInt8)}
    (writable : ∀ entry ∈ entries, Writable entry.1 entry.2)
    (fresh : ((parser.cfg.entries ++ entries).map Prod.fst).Nodup) (size : line.size = lineSize)
    {fuel : Nat} (enough : entries.length < fuel) :
    Yields (cfgReadLines fuel (linesText entries) line parser) fun cfg =>
      cfg.entries = parser.cfg.entries ++ entries := by
  induction entries generalizing line parser fuel with
  | nil =>
    obtain ⟨fuel, rfl⟩ := Nat.exists_eq_succ_of_ne_zero (Nat.ne_of_gt enough)
    exact ⟨parser.cfg, rfl, (append_nil _).symm⟩
  | cons entry entries ih =>
    obtain ⟨fuel, rfl⟩ := Nat.exists_eq_succ_of_ne_zero (Nat.ne_of_gt (Nat.zero_lt_of_lt enough))
    obtain ⟨key, value⟩ := entry
    have first : Writable key value := writable _ mem_cons_self
    have short := first.short
    have split : linesText ((key, value) :: entries) =
        entryLine key value ++ linesText entries := flatMap_cons
    have room : 0 + (entryLine key value ++ [0]).length ≤ line.size := by
      rw [size, length_append, entryLine_length, length_singleton]
      unfold lineSize
      omega
    have held := (Buffer.holds_append.mp (Buffer.written_holds line _ room)).1
    obtain ⟨after, walks, ended, added⟩ := @line_walks _
      { parser with datap := 0, state := .space, lastState := .space } _ _ first held rfl
    have unknown : key ∉ parser.cfg.entries.map Prod.fst := by
      rw [map_append, map_cons, nodup_middle, nodup_cons] at fresh
      exact fun listed => fresh.1 (mem_append_left _ listed)
    have entries' : after.cfg.entries = parser.cfg.entries ++ [(key, value)] := by
      rw [added]
      exact add_entries unknown value
    have parsed : cfgParseLine (line.written 0 (entryLine key value ++ [0])) (lineSize + 3)
        { parser with datap := 0, state := .space, lastState := .space } = .ok after := by
      obtain ⟨left, fuels⟩ : ∃ left, lineSize + 3 =
          key.length + 1 + value.length + 2 + (left + 1) :=
        ⟨lineSize + 3 - (key.length + 1 + value.length + 2) - 1, by unfold lineSize; omega⟩
      rw [fuels, walks, cfgParseLine, if_pos ended]
    obtain ⟨cfg, returned, all⟩ := @ih (line.written 0 (entryLine key value ++ [0])) after
      (forall_mem_cons.mp writable).2
      (by rw [entries', append_assoc]; exact fresh) size fuel (Nat.lt_of_succ_lt_succ enough)
    refine ⟨cfg, ?_, ?_⟩
    · rw [cfgReadLines, split, first.fgets_eq]
      dsimp only
      rw [Buffer.store_eq room, ok_bind, parsed, ok_bind, returned]
    · dsimp only
      rw [all, entries', append_assoc]
      rfl

/-- A configuration is read back from the file it has been written to. -/
theorem cfg_read_write {cfg : Cfg} (writable : ∀ entry ∈ cfg.entries, Writable entry.1 entry.2) :
    cfgCreateFromFile (some (cfgWriteToFile cfg)) = .ok (some cfg) := by
  have enough : cfg.entries.length < (linesText cfg.entries).length + 1 := by
    have long : ∀ entries : List (List UInt8 × List UInt8),
        entries.length ≤ (linesText entries).length := by
      intro entries
      induction entries with
      | nil => exact Nat.le_refl 0
      | cons entry entries ih =>
        have line := entryLine_length entry.1 entry.2
        change entries.length + 1 ≤ (entryLine entry.1 entry.2 ++ linesText entries).length
        rw [length_append]
        omega
    exact Nat.lt_succ_of_le (long cfg.entries)
  have start : jsonObjectNewObject.entries ++ cfg.entries = cfg.entries := nil_append _
  obtain ⟨read, returned, entries⟩ := @readLines_yields zeroed
    ⟨jsonObjectNewObject, zeroed, zeroed, 0, 0, 0, .space, .space⟩ cfg.entries writable
    (by dsimp only; rw [start]; exact cfg.unique) rfl _ enough
  have same : read = cfg := Cfg.ext (entries.trans start)
  rw [cfgWriteToFile_eq]
  dsimp only [cfgCreateFromFile]
  rw [returned, ok_bind, same]

/-- Two entries, one with an `=`, a `#` and blanks in its value. -/
theorem cfg_read_write_two :
    cfgCreateFromFile (some (cfgWriteToFile
      ⟨[([0x61], [0x3D, 0x20, 0x23, 0x20]), ([0x62, 0x23], [0x31])], by decide⟩)) =
      .ok (some ⟨[([0x61], [0x3D, 0x20, 0x23, 0x20]), ([0x62, 0x23], [0x31])], by decide⟩) := by
  refine cfg_read_write ?_
  exact forall_mem_cons.mpr ⟨⟨by decide +kernel, by decide, by decide, by decide +kernel, by decide,
      by simp [isBlank], by decide⟩,
    forall_mem_singleton.mpr ⟨by decide +kernel, by decide, by decide, by decide +kernel, by decide,
      by simp [isBlank], by decide⟩⟩

end CLibs.Config
