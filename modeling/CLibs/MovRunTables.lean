import CLibs.MovTimeTables

/-!
# Tables of runs

What marking writes is a table of runs: its entries, each repeated as often as
it says, are the deltas of the samples in order.  The reader's nested loops are
one loop over the repeated entries.
-/

namespace CLibs.Mov

open List

/-! ## Marks -/

structure Marked (runs : List (Run Sample)) (deltas : List Nat) : Prop where
  head : ∀ run ∈ runs, run.head.firstChunk = run.members.length + 1
  members : ∀ run ∈ runs, ∀ sample ∈ run.members, sample.firstChunk = 0
  deltas : deltas =
    runs.flatMap fun run => List.replicate (run.members.length + 1) run.head.samplesPerChunk

/-- The samples before `i` are marked and stand for the deltas. -/
def Marks (marking : Marking) (i : Nat) (deltas : List Nat) (ahead : List Sample) : Prop :=
  ∃ done current, Passed marking.samples marking.sample i done current ahead ∧
    Marked (done ++ current.toList) deltas ∧ marking.count = (done ++ current.toList).length

theorem startMarking_marks (samples : List Sample) : Marks (startMarking samples) 0 [] samples :=
  ⟨[], none, Passed.start_of samples,
    { head := fun _ member => absurd member not_mem_nil
      members := fun _ member => absurd member not_mem_nil
      deltas := rfl }, rfl⟩

section Marks

variable {marking : Marking} {i delta : Nat} {deltas : List Nat} {sample : Sample}
  {ahead : List Sample}

variable {runs : List (Run Sample)}

theorem Marked.append {run : Run Sample} (marked : Marked runs deltas)
    (head : run.head.firstChunk = run.members.length + 1)
    (members : ∀ sample ∈ run.members, sample.firstChunk = 0) :
    Marked (runs ++ [run])
      (deltas ++ List.replicate (run.members.length + 1) run.head.samplesPerChunk) where
  head other member := by
    rcases mem_append.mp member with old | new
    · exact marked.head other old
    · rw [mem_singleton.mp new]
      exact head
  members other member := by
    rcases mem_append.mp member with old | new
    · exact marked.members other old
    · rw [mem_singleton.mp new]
      exact members
  deltas := by
    rw [flatMap_append, ← marked.deltas, flatMap_singleton]

theorem Marked.of_append {run : Run Sample} (marked : Marked (runs ++ [run]) deltas) :
    Marked runs (runs.flatMap fun run =>
      List.replicate (run.members.length + 1) run.head.samplesPerChunk) where
  head other member := marked.head other (mem_append_left _ member)
  members other member := marked.members other (mem_append_left _ member)
  deltas := rfl

theorem Marks.start (marks : Marks marking i deltas (sample :: ahead)) :
    Marks (startRun marking i delta) (i + 1) (deltas ++ [delta]) ahead := by
  obtain ⟨done, current, passed, marked, count⟩ := marks
  refine ⟨_, _, passed.start _, ?_, ?_⟩
  · exact marked.append rfl fun _ member => absurd member not_mem_nil
  · rw [length_append]
    exact congrArg (· + 1) count

theorem joinsRun_eq {head : Nat} (pointer : marking.sample = some head) :
    joinsRun marking delta =
      decide (delta = (marking.samples.getD head default).samplesPerChunk) := by
  unfold joinsRun
  rw [pointer]

theorem Marks.join (marks : Marks marking i deltas (sample :: ahead))
    (joins : joinsRun marking delta = true) (bound : i + 1 < 2 ^ 32) :
    Yields (joinRun marking i) fun joined =>
      Marks joined (i + 1) (deltas ++ [delta]) ahead ∧ joined.cttsV1 = marking.cttsV1 ∧
        joined.samples.map Sample.unmarked = marking.samples.map Sample.unmarked := by
  obtain ⟨done, current, passed, marked, count⟩ := marks
  cases current with
  | none =>
    have null : marking.sample = none := passed.pointer
    unfold joinsRun at joins
    rw [null] at joins
    exact absurd joins nofun
  | some run =>
    have pointer : marking.sample = some (runItems done).length := passed.pointer
    rw [pointer] at passed
    have same : delta = run.head.samplesPerChunk := by
      rw [joinsRun_eq pointer, getD_eq_getElem?_getD, passed.getElem?_head] at joins
      exact of_decide_eq_true joins
    have inRuns : run ∈ done ++ (some run).toList := mem_append_right _ mem_cons_self
    have length := marked.head run inRuns
    have short : run.members.length + 1 ≤ i := by
      have index := passed.index
      simp only [Option.toList_some, runItems_cons, runItems_nil, Run.items, length_append,
        length_cons, length_nil] at index
      omega
    unfold joinRun
    rw [pointer]
    apply Yields.step (check_eq _)
    · apply Yields.pure
      refine ⟨⟨done, _, passed.join _ _, ?_, ?_⟩, rfl, ?_⟩
      · have head : (run.head.firstChunk + 1) % 2 ^ 32 =
            (run.members ++ [{ sample with firstChunk := 0 }]).length + 1 := by
          rw [length_append, length_singleton, length]
          exact Nat.mod_eq_of_lt (by omega)
        have members : ∀ other ∈ run.members ++ [{ sample with firstChunk := 0 }],
            other.firstChunk = 0 := by
          intro other member
          rcases mem_append.mp member with before | last
          · exact marked.members run inRuns other before
          · rw [mem_singleton.mp last]
        have longer : Marked (done ++ [⟨{ run.head with
            firstChunk := (run.head.firstChunk + 1) % 2 ^ 32 },
            run.members ++ [{ sample with firstChunk := 0 }]⟩]) _ :=
          marked.of_append.append head members
        rw [marked.deltas, same]
        simpa [replicate_succ'] using longer
      · rw [length_append] at count ⊢
        exact count
      · apply (map_modify_of _ _ _).trans
        · apply map_modify_of
          exact fun _ => rfl
        · exact fun _ => rfl
    · rw [getD_eq_getElem?_getD, passed.getElem?_head_modify, Option.getD_some, length]
      exact Nat.succ_pos _

theorem startRun_unmarked :
    (startRun marking i delta).samples.map Sample.unmarked =
      marking.samples.map Sample.unmarked := by
  apply map_modify_of
  exact fun _ => rfl

end Marks

/-! ## The table in the file -/

section Table

variable {file : ByteFile} {runs : List (Run Sample)} {deltas : List Nat} {rest : List UInt8}

def runEntries (runs : List (Run Sample)) : List Stts :=
  runs.map fun run => ⟨run.head.firstChunk, run.head.samplesPerChunk⟩

def Stts.text (entry : Stts) : List UInt8 :=
  bigEndian 4 entry.sampleCount ++ bigEndian 4 entry.sampleDelta

theorem writeRuns_members {samples : List Sample} (zero : ∀ sample ∈ samples, sample.firstChunk = 0) :
    writeRuns file samples = file := by
  induction samples with
  | nil => rfl
  | cons sample samples ih =>
    unfold writeRuns at ih ⊢
    rw [foldl_cons, if_pos (zero sample mem_cons_self)]
    exact ih (forall_mem_cons.mp zero).2

theorem writeRuns_eq (heads : ∀ run ∈ runs, run.head.firstChunk ≠ 0)
    (members : ∀ run ∈ runs, ∀ sample ∈ run.members, sample.firstChunk = 0) (atEnd : file.AtEnd) :
    writeRuns file (runItems runs) = file.append ((runEntries runs).flatMap Stts.text) := by
  induction runs generalizing file with
  | nil => exact (ByteFile.append_nil atEnd).symm
  | cons run runs ih =>
    have head := heads run mem_cons_self
    have entry : w32 (w32 file run.head.firstChunk) run.head.samplesPerChunk =
        file.append (Stts.text ⟨run.head.firstChunk, run.head.samplesPerChunk⟩) := by
      rw [w32_eq atEnd, w32_eq atEnd.append, ByteFile.append_append]
      rfl
    have others {file : ByteFile} (atEnd : file.AtEnd) :=
      ih (forall_mem_cons.mp heads).2
        (forall_mem_cons.mp members).2 atEnd
    calc
      writeRuns file (runItems (run :: runs))
          = writeRuns (writeRuns (w32 (w32 file run.head.firstChunk) run.head.samplesPerChunk)
              run.members) (runItems runs) := by
        unfold writeRuns
        rw [runItems_cons, Run.items, cons_append, foldl_cons, foldl_append,
          if_neg head]
      _ = writeRuns (file.append (Stts.text ⟨run.head.firstChunk, run.head.samplesPerChunk⟩))
            (runItems runs) := by
        rw [writeRuns_members (members run mem_cons_self), entry]
      _ = _ := by
        rw [others atEnd.append, ByteFile.append_append]
        rfl

theorem readStts_eq {entry : Stts} (count : entry.sampleCount < 2 ^ 32)
    (delta : entry.sampleDelta < 2 ^ 32) (ahead : file.Ahead (entry.text ++ rest)) :
    readStts file = (entry, file.skip 8) ∧ (file.skip 8).Ahead rest := by
  unfold Stts.text at ahead
  rw [append_assoc] at ahead
  obtain ⟨first, behind⟩ := r32_reads.bigEndian count ahead
  obtain ⟨second, last⟩ := r32_reads.bigEndian delta behind
  refine ⟨?_, last⟩
  unfold readStts
  rw [first]
  dsimp only
  rw [second]
  rfl

def tableText (version count : Nat) (entries : List UInt8) : List UInt8 :=
  bigEndian 1 version ++ (bigEndian 3 0 ++ (bigEndian 4 count ++ entries))

theorem readTable_eq {Entry : Type} {entry : ByteFile → Entry × ByteFile}
    {encode : Entry → List UInt8} {width version : Nat} {entries : List Entry}
    (known : version < 256) (bound : entries.length < 2 ^ 32)
    (reads : ∀ given ∈ entries, ∀ (file : ByteFile) (rest : List UInt8),
      file.Ahead (encode given ++ rest) →
        entry file = (given, file.skip width) ∧ (file.skip width).Ahead rest)
    (ahead : file.Ahead (tableText version entries.length (entries.flatMap encode) ++ rest)) :
    ∃ behind : ByteFile, readTable entry file = (entries, behind) ∧ behind.Ahead rest := by
  unfold tableText at ahead
  simp only [append_assoc] at ahead
  obtain ⟨versionEq, ahead⟩ := r8_reads.bigEndian known ahead
  obtain ⟨flagsEq, ahead⟩ := r24_reads.bigEndian (by decide) ahead
  obtain ⟨countEq, ahead⟩ := r32_reads.bigEndian bound ahead
  obtain ⟨entriesEq, ahead⟩ := readEntries_eq reads ahead
  refine ⟨_, ?_, ahead⟩
  unfold readTable
  rw [versionEq]
  dsimp only
  rw [flagsEq]
  dsimp only
  rw [countEq]
  exact entriesEq

theorem readBoxHeader_eq {size : Nat} {tag : List UInt8} (letters : tag.length = 4)
    (bound : size < 2 ^ 32) (ahead : file.Ahead (bigEndian 4 size ++ (tag ++ rest))) :
    ∃ behind : ByteFile, readBoxHeader file = (⟨size, bigValue tag⟩, behind) ∧
      behind.Ahead rest := by
  obtain ⟨sizeEq, ahead⟩ := r32_reads.bigEndian bound ahead
  have tagEq := r32_reads _ _ _ letters ahead
  have behind := ahead.skip
  rw [letters] at behind
  refine ⟨_, ?_, behind⟩
  unfold readBoxHeader
  rw [sizeEq]
  dsimp only
  rw [tagEq]

end Table

/-! ## One loop over the repeated entries -/

section Apply

variable {store : Stts → Nat → List Sample → Except Fault (List Sample)}

/-- Every entry as often as it says. -/
def repeated (entries : List Stts) : List Stts :=
  entries.flatMap fun entry => List.replicate entry.sampleCount entry

def applyEach (store : Stts → Nat → List Sample → Except Fault (List Sample)) :
    List Stts → Nat → List Sample → Except Fault (Nat × List Sample)
  | [], n, samples => .ok (n, samples)
  | entry :: entries, n, samples => do
      let samples ← store entry n samples
      applyEach store entries (n + 1) samples

theorem applyEach_replicate (entry : Stts) (entries : List Stts) (count n : Nat)
    (samples : List Sample) :
    applyEach store (List.replicate count entry ++ entries) n samples =
      applyRun (store entry) count n samples >>= fun found =>
        applyEach store entries found.1 found.2 := by
  induction count generalizing n samples with
  | zero => rfl
  | succ count ih =>
    rw [replicate_succ, cons_append, applyEach, applyRun, bind_assoc]
    exact congrArg _ (funext fun stored => ih (n + 1) stored)

theorem applyEntries_eq (entries : List Stts) (n : Nat) (samples : List Sample) :
    applyEntries store entries n samples = applyEach store (repeated entries) n samples := by
  induction entries generalizing n samples with
  | nil => rfl
  | cons entry entries ih =>
    unfold repeated at ih ⊢
    rw [flatMap_cons, applyEach_replicate, applyEntries]
    exact congrArg _ (funext fun found => ih found.1 found.2)

variable {deltas : List Nat}

theorem Marked.repeated_deltas (marked : Marked runs deltas) :
    (repeated (runEntries runs)).map (·.sampleDelta) = deltas := by
  rw [marked.deltas]
  have heads := marked.head
  clear marked
  induction runs with
  | nil => rfl
  | cons run runs ih =>
    have others := ih (forall_mem_cons.mp heads).2
    unfold repeated runEntries at others ⊢
    rw [map_cons, flatMap_cons, flatMap_cons, map_append, others,
      map_replicate, heads run mem_cons_self]

theorem Marked.count_le (marked : Marked runs deltas) : runs.length ≤ deltas.length := by
  rw [marked.deltas]
  clear marked
  induction runs with
  | nil => exact Nat.le_refl 0
  | cons run runs ih =>
    rw [flatMap_cons, length_append, length_replicate, length_cons]
    omega

theorem Marked.entry_lt (marked : Marked runs deltas) (count : deltas.length < 2 ^ 32)
    (fits : ∀ delta ∈ deltas, delta < 2 ^ 32) :
    ∀ entry ∈ runEntries runs, entry.sampleCount < 2 ^ 32 ∧ entry.sampleDelta < 2 ^ 32 := by
  intro entry member
  obtain ⟨run, inRuns, rfl⟩ := mem_map.mp member
  have part : (List.replicate (run.members.length + 1) run.head.samplesPerChunk).Sublist deltas := by
    rw [marked.deltas]
    exact sublist_flatten_of_mem (mem_map_of_mem inRuns)
  constructor
  · have length := part.length_le
    rw [length_replicate] at length
    have head := marked.head run inRuns
    dsimp only
    omega
  · apply fits
    apply part.subset
    exact mem_replicate.mpr ⟨Nat.succ_ne_zero _, rfl⟩

structure Table (entries : List Stts) (deltas : List Nat) : Prop where
  count : entries.length < 2 ^ 32
  fits : ∀ entry ∈ entries, entry.sampleCount < 2 ^ 32 ∧ entry.sampleDelta < 2 ^ 32
  used : ∀ entry ∈ entries, 0 < entry.sampleCount
  deltas : (repeated entries).map (·.sampleDelta) = deltas

theorem Marked.table (marked : Marked runs deltas) (count : deltas.length < 2 ^ 32)
    (fits : ∀ delta ∈ deltas, delta < 2 ^ 32) :
    Table (runEntries runs) deltas where
  count := by
    have fewer := marked.count_le
    unfold runEntries
    rw [length_map]
    omega
  fits := marked.entry_lt count fits
  used entry member := by
    obtain ⟨run, inRuns, rfl⟩ := mem_map.mp member
    have head := marked.head run inRuns
    dsimp only
    omega
  deltas := marked.repeated_deltas

theorem Table.delta_mem {entries : List Stts} (table : Table entries deltas) {entry : Stts}
    (member : entry ∈ entries) : entry.sampleDelta ∈ deltas := by
  rw [← table.deltas]
  apply mem_map_of_mem
  apply mem_flatMap_of_mem member
  exact mem_replicate.mpr ⟨Nat.ne_of_gt (table.used entry member), rfl⟩

theorem Table.repeated_length {entries : List Stts} (table : Table entries deltas) :
    (repeated entries).length = deltas.length := by
  rw [← table.deltas, length_map]

end Apply

end CLibs.Mov
