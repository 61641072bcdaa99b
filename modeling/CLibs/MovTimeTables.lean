import CLibs.MovRecords

/-!
# Time tables of `mov-stts.c`

Model of the decoding and composition time tables.  The writer marks the first
sample of each run of equal deltas with the length of the run and the delta; the
reader undoes the runs by adding up the deltas.
-/

namespace CLibs.Mov

/-! ## Marking the runs -/

/-- A pass over the samples of a track: the pointer `sample`, the number of
entries and `MOV_TRACK_FLAG_CTTS_V1`. -/
structure Marking where
  samples : List Sample
  sample : Option Nat
  count : Nat
  cttsV1 : Bool

def startMarking (samples : List Sample) : Marking := ⟨samples, none, 0, false⟩

def startRun (marking : Marking) (i delta : Nat) : Marking :=
  { marking with
    samples := marking.samples.modify i fun sample =>
      { sample with firstChunk := 1, samplesPerChunk := delta }
    sample := some i
    count := marking.count + 1 }

/-- The pointer is null for the first sample only, which both loops test. -/
def joinsRun (marking : Marking) (delta : Nat) : Bool :=
  match marking.sample with
  | none => false
  | some head => delta = (marking.samples.getD head default).samplesPerChunk

def joinRun (marking : Marking) (i : Nat) : Except Fault Marking :=
  match marking.sample with
  | none => .error .outside
  | some head => do
      let samples := marking.samples.modify i fun sample => { sample with firstChunk := 0 }
      check ((samples.getD head default).firstChunk > 0)
      pure
        { marking with
          samples := samples.modify head fun sample =>
            { sample with firstChunk := (sample.firstChunk + 1) % 2 ^ 32 } }

def sttsDelta (samples : List Sample) (i : Nat) : Nat :=
  let dts := (samples.getD i default).dts
  let next := (samples.getD (i + 1) default).dts
  uint32 (if i + 1 < samples.length ∧ next > dts then int64 (next - dts) else 1)

def sttsStep (marking : Marking) (i : Nat) : Except Fault Marking :=
  let delta := sttsDelta marking.samples i
  if joinsRun marking delta then joinRun marking i else .ok (startRun marking i delta)

def buildSttsFrom : Nat → Nat → Marking → Except Fault Marking
  | 0, _, marking => .ok marking
  | left + 1, i, marking => do
      let dts := (marking.samples.getD i default).dts
      let next := (marking.samples.getD (i + 1) default).dts
      check (next ≥ dts ∨ i + 1 = marking.samples.length)
      let marking ← sttsStep marking i
      buildSttsFrom left (i + 1) marking

def movBuildStts (samples : List Sample) : Except Fault Marking :=
  buildSttsFrom samples.length 0 (startMarking samples)

def cttsDelta (sample : Sample) : Nat := uint32 (int64 (sample.pts - sample.dts))

def cttsStep (marking : Marking) (i : Nat) : Except Fault Marking :=
  let sample := marking.samples.getD i default
  let delta := cttsDelta sample
  if joinsRun marking delta then joinRun marking i
  else
    .ok { startRun marking i delta with
      cttsV1 := marking.cttsV1 || decide (sample.pts < sample.dts) }

def buildCttsFrom : Nat → Nat → Marking → Except Fault Marking
  | 0, _, marking => .ok marking
  | left + 1, i, marking => do
      let marking ← cttsStep marking i
      buildCttsFrom left (i + 1) marking

def movBuildCtts (samples : List Sample) : Except Fault Marking :=
  buildCttsFrom samples.length 0 (startMarking samples)

/-! ## Writing and reading the boxes -/

def writeRuns (file : ByteFile) (samples : List Sample) : ByteFile :=
  samples.foldl
    (fun file sample =>
      if sample.firstChunk = 0 then file
      else w32 (w32 file sample.firstChunk) sample.samplesPerChunk)
    file

def tableSize (count width : Nat) : Nat := (12 + 4 + count * width) % 2 ^ 32

def movWriteStts (file : ByteFile) (samples : List Sample) (count : Nat) : ByteFile :=
  let file := (w32 file (tableSize count 8)).write (movTag 's' 't' 't' 's')
  let file := w32 (w32 file 0) count
  writeRuns file samples

def movWriteCtts (file : ByteFile) (samples : List Sample) (cttsV1 : Bool) (count : Nat) :
    ByteFile :=
  let file := (w32 file (tableSize count 8)).write (movTag 'c' 't' 't' 's')
  let file := w32 (w24 (w8 file (if cttsV1 then 1 else 0)) 0) count
  writeRuns file samples

def readStts (file : ByteFile) : Stts × ByteFile :=
  let count := r32 file
  let delta := r32 count.2
  (⟨count.1, delta.1⟩, delta.2)

def readTable {Entry : Type} (entry : ByteFile → Entry × ByteFile) (file : ByteFile) :
    List Entry × ByteFile :=
  let version := r8 file
  let flags := r24 version.2
  let count := r32 flags.2
  readEntries entry count.1 count.2

/-- The error of the file is what the function returns. -/
def movReadStts (stbl : Stbl) (file : ByteFile) : Except Fault (Stbl × ByteFile) := do
  check (stbl.stts = [])
  let table := readTable readStts file
  pure ({ stbl with stts := table.1 }, table.2)

def movReadCtts (stbl : Stbl) (file : ByteFile) : Except Fault (Stbl × ByteFile) := do
  check (stbl.ctts = [])
  let table := readTable readStts file
  pure ({ stbl with ctts := table.1 }, table.2)

/-- The boxes of `mov_reader_box` that hold times; another box is skipped. -/
def readTimeBox (stbl : Stbl) (file : ByteFile) : Except Fault (Stbl × ByteFile) :=
  let box := readBoxHeader file
  if box.1.type = bigValue (movTag 's' 't' 't' 's') then movReadStts stbl box.2
  else if box.1.type = bigValue (movTag 'c' 't' 't' 's') then movReadCtts stbl box.2
  else .ok (stbl, box.2.seek (box.2.position + (box.1.size - 8)))

/-! ## Undoing the runs -/

def storeSample (samples : List Sample) (n : Nat) (change : Sample → Sample) :
    Except Fault (List Sample) :=
  if n < samples.length then .ok (samples.modify n change) else .error .outside

def applyRun (store : Nat → List Sample → Except Fault (List Sample)) :
    Nat → Nat → List Sample → Except Fault (Nat × List Sample)
  | 0, n, samples => .ok (n, samples)
  | count + 1, n, samples => do
      let samples ← store n samples
      applyRun store count (n + 1) samples

def applyEntries (store : Stts → Nat → List Sample → Except Fault (List Sample)) :
    List Stts → Nat → List Sample → Except Fault (Nat × List Sample)
  | [], n, samples => .ok (n, samples)
  | entry :: entries, n, samples => do
      let (n, samples) ← applyRun (store entry) entry.sampleCount n samples
      applyEntries store entries n samples

def sttsStore (entry : Stts) (n : Nat) (samples : List Sample) : Except Fault (List Sample) :=
  let dts := int64 ((samples.getD (n - 1) default).dts + entry.sampleDelta)
  storeSample samples n fun sample => { sample with dts := dts, pts := dts }

def movApplyStts (stbl : Stbl) (sampleCount : Nat) (samples : List Sample) :
    Except Fault (List Sample) := do
  let (n, samples) ← applyEntries sttsStore stbl.stts 1 samples
  check (n - 1 = sampleCount)
  pure samples

/-- The smallest negative offset; -1 is left out. -/
def dtsShift (entries : List Stts) : Int :=
  entries.foldl
    (fun shift entry =>
      let delta := int32 entry.sampleDelta
      if delta < 0 ∧ shift > delta ∧ delta ≠ -1 then delta else shift)
    0

def cttsStore (shift : Int) (entry : Stts) (n : Nat) (samples : List Sample) :
    Except Fault (List Sample) :=
  storeSample samples n fun sample =>
    { sample with pts := int64 (sample.pts + int32 (int32 entry.sampleDelta - shift)) }

def movApplyCtts (stbl : Stbl) (sampleCount : Nat) (samples : List Sample) :
    Except Fault (List Sample) := do
  let shift := dtsShift stbl.ctts
  check (shift ≤ 0)
  let (n, samples) ← applyEntries (cttsStore shift) stbl.ctts 0 samples
  check (stbl.ctts = [] ∨ n = sampleCount)
  pure samples

/-! ## Both tables -/

def writeTimes (file : ByteFile) (samples : List Sample) : Except Fault ByteFile := do
  let stts ← movBuildStts samples
  let file := movWriteStts file stts.samples stts.count
  let ctts ← movBuildCtts stts.samples
  pure (movWriteCtts file ctts.samples ctts.cttsV1 ctts.count)

/-- The two boxes and what `mov_read_trak` makes of them. -/
def readTimes (file : ByteFile) (sampleCount : Nat) (samples : List Sample) :
    Except Fault (List Sample) := do
  let (stbl, file) ← readTimeBox noStbl file
  let (stbl, _) ← readTimeBox stbl file
  let samples ← movApplyStts stbl sampleCount samples
  movApplyCtts stbl sampleCount samples

def timesRoundTrip (file : ByteFile) (samples slots : List Sample) :
    Except Fault (List Sample) := do
  let written ← writeTimes file samples
  readTimes (written.seek file.bytes.length) samples.length slots

end CLibs.Mov
