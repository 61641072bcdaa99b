import CLibs.MovTimeReading

/-!
# Chunk tables of `mov-stco.c`, `mov-stsc.c` and `mov-stsz.c`

The writer gathers adjacent samples into chunks, writes one entry for each run
of chunks with the same number of samples, and one size for a track whose
samples all have it.  The reader undoes the three compressions with a nested
loop over entries, chunks and samples.
-/

namespace CLibs.Mov

open List

/-! ## Gathering the chunks -/

/-- The pass of `mov_build_stco`; `bytes` is the size of the chunk so far. -/
structure Chunking where
  samples : List Sample
  sample : Option Nat
  count : Nat
  bytes : Nat

def startChunk (chunking : Chunking) (i : Nat) : Chunking where
  samples := chunking.samples.modify i fun sample =>
    { sample with firstChunk := (chunking.count + 1) % 2 ^ 32, samplesPerChunk := 1 }
  sample := some i
  count := (chunking.count + 1) % 2 ^ 32
  bytes := (chunking.samples.getD i default).bytes

def joinChunk (chunking : Chunking) (head i : Nat) : Chunking where
  samples := (chunking.samples.modify i fun sample => { sample with firstChunk := 0 }).modify head
    fun sample => { sample with samplesPerChunk := (sample.samplesPerChunk + 1) % 2 ^ 32 }
  sample := some head
  count := chunking.count
  bytes := (chunking.bytes + (chunking.samples.getD i default).bytes) % 2 ^ 64

def stcoStep (chunking : Chunking) (i : Nat) : Chunking :=
  match chunking.sample with
  | none => startChunk chunking i
  | some head =>
    let first := chunking.samples.getD head default
    let sample := chunking.samples.getD i default
    if (first.offset + chunking.bytes) % 2 ^ 64 = sample.offset ∧
        first.sampleDescriptionIndex = sample.sampleDescriptionIndex then
      joinChunk chunking head i
    else startChunk chunking i

def buildStcoFrom : Nat → Nat → Chunking → Chunking
  | 0, _, chunking => chunking
  | left + 1, i, chunking => buildStcoFrom left (i + 1) (stcoStep chunking i)

def movBuildStco (stsdCount : Nat) (samples : List Sample) : Except Fault Chunking := do
  check (stsdCount > 0)
  pure (buildStcoFrom samples.length 0 ⟨samples, none, 0, 0⟩)

/-! ## Writing the boxes -/

def repeats (chunk : Option Sample) (sample : Sample) : Prop :=
  ∃ last ∈ chunk, last.samplesPerChunk = sample.samplesPerChunk ∧
    last.sampleDescriptionIndex = sample.sampleDescriptionIndex

instance (chunk : Option Sample) (sample : Sample) : Decidable (repeats chunk sample) :=
  inferInstanceAs (Decidable (∃ last ∈ chunk, _))

/-- The entries of `stsc`: a chunk that has the numbers of the last entry is left out. -/
def writeStscEntries : Option Sample → Nat → ByteFile → List Sample → Nat × ByteFile
  | _, entry, file, [] => (entry, file)
  | chunk, entry, file, sample :: samples =>
    if sample.firstChunk = 0 ∨ repeats chunk sample then
      writeStscEntries chunk entry file samples
    else
      let file := w32 (w32 (w32 file sample.firstChunk) sample.samplesPerChunk)
        sample.sampleDescriptionIndex
      writeStscEntries (some sample) (entry + 1) file samples

def movWriteStsc (file : ByteFile) (samples : List Sample) : ByteFile :=
  let offset := file.position
  let file := (w32 file 0).write (movTag 's' 't' 's' 'c')
  let file := w32 (w32 file 0) 0
  let written := writeStscEntries none 0 file samples
  let size := (12 + 4 + written.1 * 12) % 2 ^ 32
  let offset2 := written.2.position
  let file := w32 (written.2.seek offset) size
  let file := w32 (file.seek (offset + 12)) written.1
  file.seek offset2

/-- Whether a size differs from the one before it. -/
def sizesDiffer : List Sample → Bool
  | first :: second :: samples =>
    decide (second.bytes ≠ first.bytes) || sizesDiffer (second :: samples)
  | _ => false

def movWriteStsz (file : ByteFile) (samples : List Sample) : ByteFile :=
  let size := (12 + 8 + (if sizesDiffer samples then 4 * samples.length else 0)) % 2 ^ 32
  let file := (w32 file size).write (movTag 's' 't' 's' 'z')
  let file := w32 file 0
  if sizesDiffer samples then
    samples.foldl (fun file sample => w32 file sample.bytes) (w32 (w32 file 0) samples.length)
  else
    w32 (w32 file (if samples.length < 1 then 0 else (samples.getD 0 default).bytes)) samples.length

def isCo64 (samples : List Sample) (trackOffset : Nat) : Bool :=
  match samples.getLast? with
  | none => false
  | some sample => decide ((sample.offset + trackOffset) % 2 ^ 64 > uint32Max)

def movWriteStco (file : ByteFile) (samples : List Sample) (trackOffset count : Nat) : ByteFile :=
  let co64 := isCo64 samples trackOffset
  let file := (w32 file (tableSize count (if co64 then 8 else 4))).write
    (if co64 then movTag 'c' 'o' '6' '4' else movTag 's' 't' 'c' 'o')
  let file := w32 (w32 file 0) count
  samples.foldl
    (fun file sample =>
      if sample.firstChunk = 0 then file
      else if co64 then w64 file ((sample.offset + trackOffset) % 2 ^ 64)
      else w32 file ((sample.offset + trackOffset) % 2 ^ 64))
    file

/-! ## Reading the boxes -/

/-- A track while its boxes are read. -/
structure ReadTrack where
  samples : List Sample
  sampleCount : Nat
  stbl : Stbl

def noTrack : ReadTrack := ⟨[], 0, noStbl⟩

def readStsc (file : ByteFile) : Stsc × ByteFile :=
  let first := r32 file
  let count := r32 first.2
  let index := r32 count.2
  (⟨first.1, count.1, index.1⟩, index.2)

/-- The array has one entry more, computed in 32 bits. -/
def movReadStsc (track : ReadTrack) (file : ByteFile) : Except Fault (ReadTrack × ByteFile) := do
  check (track.stbl.stsc = [])
  let table := readTable readStsc file
  if table.1.length < (table.1.length + 1) % 2 ^ 32 then
    pure ({ track with stbl := { track.stbl with stsc := table.1 } }, table.2)
  else .error .outside

/-- The sizes go to samples that are zeroed; there is room for one more, computed in 32 bits. -/
def storeSizes (sizes : List Nat) (room : Nat) : Except Fault (List Sample) :=
  if sizes.length ≤ room then
    let zeroed : Sample := ⟨0, 0, 0, 0, 0, 0, 0⟩
    .ok (sizes.map (fun size => { zeroed with bytes := size }) ++
      List.replicate (room - sizes.length) zeroed)
  else .error .outside

def movReadStsz (track : ReadTrack) (file : ByteFile) : Except Fault (ReadTrack × ByteFile) := do
  let version := r8 file
  let flags := r24 version.2
  let size := r32 flags.2
  let count := r32 size.2
  check (track.sampleCount = 0 ∧ track.samples = [])
  let sizes := if size.1 = 0 then readEntries r32 count.1 count.2
    else (List.replicate count.1 size.1, count.2)
  let samples ← storeSizes sizes.1 (if count.1 = 0 then 0 else (count.1 + 1) % 2 ^ 32)
  pure ({ track with samples := samples, sampleCount := count.1 }, sizes.2)

def movReadStco (track : ReadTrack) (type : Nat) (file : ByteFile) :
    Except Fault (ReadTrack × ByteFile) := do
  check (track.stbl.stco = [])
  if type = bigValue (movTag 's' 't' 'c' 'o') then
    let table := readTable r32 file
    pure ({ track with stbl := { track.stbl with stco := table.1 } }, table.2)
  else if type = bigValue (movTag 'c' 'o' '6' '4') then
    let table := readTable r64 file
    pure ({ track with stbl := { track.stbl with stco := table.1 } }, table.2)
  else .error .assertion

/-- The boxes of `mov_reader_box` that locate samples; another box is skipped. -/
def readChunkBox (track : ReadTrack) (file : ByteFile) : Except Fault (ReadTrack × ByteFile) :=
  let box := readBoxHeader file
  if box.1.type = bigValue (movTag 's' 't' 's' 'c') then movReadStsc track box.2
  else if box.1.type = bigValue (movTag 's' 't' 's' 'z') then movReadStsz track box.2
  else if box.1.type = bigValue (movTag 's' 't' 'c' 'o') ∨
      box.1.type = bigValue (movTag 'c' 'o' '6' '4') then movReadStco track box.1.type box.2
  else .ok (track, box.2.seek (box.2.position + (box.1.size - 8)))

/-! ## Undoing the chunks -/

/-- The samples of a chunk, from the sample `n` on. -/
def applyChunk (entry : Stsc) : Nat → Nat → Nat → List Sample → Except Fault (Nat × List Sample)
  | 0, _, n, samples => .ok (n, samples)
  | left + 1, chunkOffset, n, samples => do
      let samples ← storeSample samples n fun sample =>
        { sample with
          sampleDescriptionIndex := entry.sampleDescriptionIndex
          offset := chunkOffset }
      let sample := samples.getD n default
      let previous := samples.getD (n - 1) default
      check (sample.bytes > 0)
      check (n = 0 ∨ (previous.offset + previous.bytes) % 2 ^ 64 ≤ sample.offset)
      applyChunk entry left ((chunkOffset + sample.bytes) % 2 ^ 64) (n + 1) samples

/-- The chunks of an entry, from the chunk `j` on; chunks are numbered from one. -/
def applyChunks (stco : List Nat) (entry : Stsc) :
    Nat → Nat → Nat → List Sample → Except Fault (Nat × List Sample)
  | 0, _, n, samples => .ok (n, samples)
  | left + 1, j, n, samples =>
    if 0 < j ∧ j ≤ stco.length then do
      let (n, samples) ← applyChunk entry entry.samplesPerChunk (stco.getD (j - 1) 0) n samples
      applyChunks stco entry left (j + 1) n samples
    else .error .outside

def nextChunk (stco : List Nat) : List Stsc → Nat
  | [] => (stco.length + 1) % 2 ^ 32
  | entry :: _ => entry.firstChunk

def applyStsc (stco : List Nat) : List Stsc → Nat → List Sample → Except Fault (Nat × List Sample)
  | [], n, samples => .ok (n, samples)
  | entry :: entries, n, samples => do
      check (entry.firstChunk ≤ stco.length)
      let (n, samples) ← applyChunks stco entry (nextChunk stco entries - entry.firstChunk)
        entry.firstChunk n samples
      applyStsc stco entries n samples

def movApplyStco (track : ReadTrack) : Except Fault ReadTrack := do
  check (track.stbl.stsc.length > 0 ∧ track.stbl.stco.length > 0)
  let (n, samples) ← applyStsc track.stbl.stco track.stbl.stsc 0 track.samples
  check (n = track.sampleCount)
  pure { track with samples := samples }

/-! ## All tables -/

def writeChunks (file : ByteFile) (stsdCount trackOffset : Nat) (samples : List Sample) :
    Except Fault ByteFile := do
  let built ← movBuildStco stsdCount samples
  let file := movWriteStsc file built.samples
  let file := movWriteStsz file built.samples
  pure (movWriteStco file built.samples trackOffset built.count)

def readChunks (file : ByteFile) : Except Fault ReadTrack := do
  let stsc ← readChunkBox noTrack file
  let stsz ← readChunkBox stsc.1 stsc.2
  let stco ← readChunkBox stsz.1 stsz.2
  movApplyStco stco.1

def chunksRoundTrip (file : ByteFile) (stsdCount trackOffset : Nat) (samples : List Sample) :
    Except Fault ReadTrack := do
  let written ← writeChunks file stsdCount trackOffset samples
  readChunks (written.seek file.bytes.length)

end CLibs.Mov

/-!
## The chunks that are gathered

`mov_build_stco` leaves runs of adjacent samples: the head of each holds the
number of the chunk and the number of its samples.  The offsets of a run follow
from the offset of its head and the sizes, which is all that is written.
-/

namespace CLibs.Mov

open List

/-- The offsets of adjacent samples with the given sizes. -/
def following (start : Nat) : List Nat → List Nat
  | [] => []
  | size :: sizes => start :: following ((start + size) % 2 ^ 64) sizes

theorem following_append (start : Nat) (sizes : List Nat) (size : Nat) :
    following (start % 2 ^ 64) (sizes ++ [size]) =
      following (start % 2 ^ 64) sizes ++ [(start + sizes.sum) % 2 ^ 64] := by
  induction sizes generalizing start with
  | nil => rfl
  | cons other sizes ih =>
    have next : (start % 2 ^ 64 + other) % 2 ^ 64 = (start + other) % 2 ^ 64 :=
      Nat.mod_add_mod start (2 ^ 64) other
    rw [cons_append, following, following, next, ih, sum_cons, Nat.add_assoc,
      cons_append]

structure Gathered (run : Run Sample) : Prop where
  count : run.head.samplesPerChunk = run.members.length + 1
  members : ∀ sample ∈ run.members, sample.firstChunk = 0
  index : ∀ sample ∈ run.members,
    sample.sampleDescriptionIndex = run.head.sampleDescriptionIndex
  offsets : run.items.map (·.offset) = following run.head.offset (run.items.map (·.bytes))

structure Chunks (runs : List (Run Sample)) : Prop where
  gathered : ∀ run ∈ runs, Gathered run
  numbered : runs.map (·.head.firstChunk) = List.range' 1 runs.length

/-- The samples before `i` are gathered; the bytes are those of the current chunk. -/
def Gathers (chunking : Chunking) (i : Nat) (ahead : List Sample) : Prop :=
  ∃ done current, Passed chunking.samples chunking.sample i done current ahead ∧
    Chunks (done ++ current.toList) ∧ chunking.count = (done ++ current.toList).length ∧
      ∀ run ∈ current, chunking.bytes = (run.items.map (·.bytes)).sum % 2 ^ 64

theorem startChunking_gathers (samples : List Sample) :
    Gathers ⟨samples, none, 0, 0⟩ 0 samples :=
  ⟨[], none, Passed.start_of samples,
    { gathered := fun _ member => absurd member not_mem_nil
      numbered := rfl }, rfl, fun _ member => absurd member nofun⟩

/-! ## One step -/

section Step

variable {chunking : Chunking} {i : Nat} {sample : Sample} {ahead : List Sample}
  {runs : List (Run Sample)} {run : Run Sample}

theorem Chunks.append (chunks : Chunks runs) (gathered : Gathered run)
    (number : run.head.firstChunk = runs.length + 1) : Chunks (runs ++ [run]) where
  gathered other member := by
    rcases mem_append.mp member with old | new
    · exact chunks.gathered other old
    · rw [mem_singleton.mp new]
      exact gathered
  numbered := by
    rw [map_append, chunks.numbered, length_append, length_singleton,
      List.range'_concat, map_singleton, number, Nat.one_mul, Nat.add_comm 1]

theorem Chunks.of_append (chunks : Chunks (runs ++ [run])) :
    Chunks runs ∧ Gathered run ∧ run.head.firstChunk = runs.length + 1 := by
  have numbered := chunks.numbered
  rw [map_append, length_append, length_singleton, List.range'_concat,
    map_singleton, Nat.one_mul, Nat.add_comm 1] at numbered
  obtain ⟨before, last⟩ := append_inj numbered (by simp)
  constructor
  · exact
      { gathered := fun other member => chunks.gathered other (mem_append_left _ member)
        numbered := before }
  · exact ⟨chunks.gathered run (mem_append_right _ mem_cons_self), head_eq_of_cons_eq last⟩

theorem runs_le_items (runs : List (Run Sample)) : runs.length ≤ (runItems runs).length := by
  induction runs with
  | nil => exact Nat.le_refl 0
  | cons run runs ih =>
    rw [runItems_cons, length_append, length_cons, Run.items, length_cons]
    omega

theorem Gathers.getD (gathers : Gathers chunking i (sample :: ahead)) :
    chunking.samples.getD i default = sample := by
  obtain ⟨done, current, passed, -⟩ := gathers
  have first := passed.getElem? 0
  rw [Nat.add_zero] at first
  rw [getD_eq_getElem?_getD, first]
  rfl

theorem Gathers.start (gathers : Gathers chunking i (sample :: ahead)) (bound : i + 1 < 2 ^ 32)
    (size : sample.bytes < 2 ^ 32) : Gathers (startChunk chunking i) (i + 1) ahead := by
  have found := gathers.getD
  obtain ⟨done, current, passed, chunks, count, -⟩ := gathers
  have few := runs_le_items (done ++ current.toList)
  rw [runItems_append, ← passed.index] at few
  have next : (chunking.count + 1) % 2 ^ 32 = (done ++ current.toList).length + 1 := by
    rw [count]
    exact Nat.mod_eq_of_lt (by omega)
  refine ⟨_, _, passed.start _, ?_, ?_, ?_⟩
  · apply chunks.append
    · exact
        { count := rfl
          members := fun _ member => absurd member not_mem_nil
          index := fun _ member => absurd member not_mem_nil
          offsets := rfl }
    · exact next
  · rw [length_append]
    exact next
  · rintro run ⟨⟩
    change (chunking.samples.getD i default).bytes = (sample.bytes + 0) % 2 ^ 64
    rw [found, Nat.add_zero, Nat.mod_eq_of_lt (by omega)]

theorem Gathered.join (gathered : Gathered run) (bound : run.members.length + 2 < 2 ^ 32)
    (adjacent : (run.head.offset + (run.items.map (·.bytes)).sum) % 2 ^ 64 = sample.offset)
    (index : run.head.sampleDescriptionIndex = sample.sampleDescriptionIndex) :
    Gathered
      ⟨{ run.head with samplesPerChunk := (run.head.samplesPerChunk + 1) % 2 ^ 32 },
        run.members ++ [{ sample with firstChunk := 0 }]⟩ where
  count := by
    dsimp only
    rw [gathered.count, length_append, length_singleton]
    exact Nat.mod_eq_of_lt bound
  members other member := by
    rcases mem_append.mp member with old | new
    · exact gathered.members other old
    · rw [mem_singleton.mp new]
  index other member := by
    rcases mem_append.mp member with old | new
    · exact gathered.index other old
    · rw [mem_singleton.mp new]
      exact index.symm
  offsets := by
    have offsets := gathered.offsets
    have longer := following_append (run.head.offset + run.head.bytes)
      (run.members.map (·.bytes)) sample.bytes
    unfold Run.items at offsets adjacent ⊢
    rw [map_cons, map_cons, following] at offsets
    rw [map_cons, sum_cons, ← Nat.add_assoc] at adjacent
    rw [adjacent, ← tail_eq_of_cons_eq offsets] at longer
    rw [map_cons, map_cons, map_append, map_append, following]
    exact congrArg _ longer.symm

theorem Gathers.join {head : Nat} (gathers : Gathers chunking i (sample :: ahead))
    (bound : i + 1 < 2 ^ 32) (pointer : chunking.sample = some head)
    (adjacent : ((chunking.samples.getD head default).offset + chunking.bytes) % 2 ^ 64 =
      sample.offset)
    (index : (chunking.samples.getD head default).sampleDescriptionIndex =
      sample.sampleDescriptionIndex) :
    Gathers (joinChunk chunking head i) (i + 1) ahead := by
  have next := gathers.getD
  obtain ⟨done, current, passed, chunks, count, bytes⟩ := gathers
  cases current with
  | none => exact absurd (pointer.symm.trans passed.pointer) nofun
  | some run =>
    have place : head = (runItems done).length :=
      Option.some.inj (pointer.symm.trans passed.pointer)
    subst place
    obtain ⟨before, gathered, number⟩ := chunks.of_append
    have found : chunking.samples.getD (runItems done).length default = run.head := by
      rw [getD_eq_getElem?_getD, passed.getElem?_head]
      rfl
    have size := bytes run rfl
    have short : run.members.length + 1 ≤ i := by
      have index := passed.index
      simp only [Option.toList_some, runItems_cons, runItems_nil, Run.items, length_append,
        length_cons, length_nil] at index
      omega
    rw [found, size, Nat.add_mod_mod] at adjacent
    rw [found] at index
    refine ⟨done, _, pointer ▸ passed.join _ _, ?_, ?_, ?_⟩
    · exact before.append (gathered.join (by omega) adjacent index) number
    · rw [length_append] at count ⊢
      exact count
    · rintro other ⟨⟩
      have total : ((run.head :: (run.members ++ [sample])).map (·.bytes)).sum =
          (run.items.map (·.bytes)).sum + sample.bytes := by
        rw [← cons_append, map_append, sum_append]
        rfl
      change (chunking.bytes + (chunking.samples.getD i default).bytes) % 2 ^ 64 = _
      rw [next, size, Nat.mod_add_mod, ← total]
      simp [Run.items]

theorem Gathers.step (gathers : Gathers chunking i (sample :: ahead)) (bound : i + 1 < 2 ^ 32)
    (size : sample.bytes < 2 ^ 32) : Gathers (stcoStep chunking i) (i + 1) ahead := by
  unfold stcoStep
  split
  · exact gathers.start bound size
  case h_2 head pointer =>
    dsimp only
    rw [gathers.getD]
    split
    case isTrue joins => exact gathers.join bound pointer joins.1 joins.2
    case isFalse apart => exact gathers.start bound size

theorem stcoStep_unmarked (chunking : Chunking) (i : Nat) :
    (stcoStep chunking i).samples.map Sample.unmarked =
      chunking.samples.map Sample.unmarked := by
  have started : (startChunk chunking i).samples.map Sample.unmarked =
      chunking.samples.map Sample.unmarked := by
    apply map_modify_of
    exact fun _ => rfl
  unfold stcoStep
  split
  · exact started
  case h_2 head pointer =>
    dsimp only
    split
    · apply (map_modify_of _ _ _).trans
      · apply map_modify_of
        exact fun _ => rfl
      · exact fun _ => rfl
    · exact started

end Step

/-! ## The whole pass -/

section Build

variable {chunking : Chunking} {i : Nat} {samples ahead : List Sample}

theorem buildStcoFrom_gathers (gathers : Gathers chunking i ahead)
    (bound : i + ahead.length < 2 ^ 32) (sizes : ∀ sample ∈ ahead, sample.bytes < 2 ^ 32) :
    Gathers (buildStcoFrom ahead.length i chunking) (i + ahead.length) [] ∧
      (buildStcoFrom ahead.length i chunking).samples.map Sample.unmarked =
        chunking.samples.map Sample.unmarked := by
  induction ahead generalizing chunking i with
  | nil => exact ⟨gathers, rfl⟩
  | cons sample ahead ih =>
    rw [length_cons] at bound
    have stepped := gathers.step (by omega) (sizes sample mem_cons_self)
    obtain ⟨ended, kept⟩ := ih stepped (by omega)
      (forall_mem_cons.mp sizes).2
    have total : i + (ahead.length + 1) = i + 1 + ahead.length := by omega
    rw [length_cons, buildStcoFrom, total]
    exact ⟨ended, kept.trans (stcoStep_unmarked chunking i)⟩

/-- The samples are cut into chunks that leave out none. -/
theorem movBuildStco_chunks {stsdCount : Nat} (described : stsdCount > 0)
    (bound : samples.length < 2 ^ 32) (sizes : ∀ sample ∈ samples, sample.bytes < 2 ^ 32) :
    Yields (movBuildStco stsdCount samples) fun built => ∃ runs,
      built.samples = runItems runs ∧ Chunks runs ∧ built.count = runs.length ∧
        (runItems runs).map Sample.unmarked = samples.map Sample.unmarked := by
  obtain ⟨gathers, unmarked⟩ := buildStcoFrom_gathers (startChunking_gathers samples)
    (by rwa [Nat.zero_add]) sizes
  obtain ⟨done, current, passed, chunks, count, -⟩ := gathers
  have items := passed.items
  rw [append_nil, ← runItems_append] at items
  rw [items] at unmarked
  apply Yields.step (check_eq described)
  apply Yields.pure
  exact ⟨_, items, chunks, count, unmarked⟩

end Build

end CLibs.Mov
