import CLibs.MovTimeTables

/-!
# Edit lists of `mov-elst.c`

The writer stores the first presentation time as an empty edit and the
composition offset of the first sample as the media time of the second edit; the
reader takes the duration of the empty edit for the first decoding time.
-/

namespace CLibs.Mov

structure Elst where
  segmentDuration : Nat
  mediaTime : Int
  mediaRateInteger : Int
  mediaRateFraction : Int
  deriving DecidableEq

/-- What the times of a track are written from. -/
structure TimedTrack where
  samples : List Sample
  startDts : Int
  tkhdDuration : Nat
  mdhdTimescale : Nat

def int16 (value : Int) : Int := Int.bmod value (2 ^ 16)

def uint64 (value : Int) : Nat := (value % 2 ^ 64).toNat

/-! ## Writing -/

def writeEdit (file : ByteFile) (version duration : Nat) (mediaTime : Int) : ByteFile :=
  let file := if version = 1 then w64 (w64 file duration) (uint64 mediaTime)
    else w32 (w32 file (uint32 duration)) (uint32 mediaTime)
  w16 (w16 file 1) 0

/-- The first presentation time in the units of the movie; `int64_t` division truncates. -/
def elstDelay (mvhdTimescale : Nat) (track : TimedTrack) : Int :=
  (int64 ((track.samples.getD 0 default).pts * mvhdTimescale)).tdiv track.mdhdTimescale

def elstVersion (mvhdTimescale : Nat) (track : TimedTrack) : Nat :=
  if elstDelay mvhdTimescale track > uint32Max then 1
  else if track.tkhdDuration > uint32Max then 1 else 0

/-- A negative composition offset is written as zero. -/
def elstTime (track : TimedTrack) : Int :=
  let first := track.samples.getD 0 default
  let time := int64 (first.pts - first.dts)
  if time < 0 then 0 else time

def movWriteElst (file : ByteFile) (mvhdTimescale : Nat) (track : TimedTrack) :
    Except Fault ByteFile := do
  check (track.startDts = (track.samples.getD 0 default).dts)
  let delay := elstDelay mvhdTimescale track
  let version := elstVersion mvhdTimescale track
  let count := if delay > 0 then 2 else 1
  let size := 12 + 4 + count * (if version ≠ 0 then 20 else 12)
  let file := (w32 file size).write (movTag 'e' 'l' 's' 't')
  let file := w32 (w24 (w8 file version) 0) count
  let file := if delay > 0 then writeEdit file version (uint64 delay) (-1) else file
  pure (writeEdit file version track.tkhdDuration (elstTime track))

/-! ## Reading -/

def readElst (version : Nat) (file : ByteFile) : Elst × ByteFile :=
  let duration := if version = 1 then r64 file else r32 file
  let time := if version = 1 then r64 duration.2 else r32 duration.2
  let integer := r16 time.2
  let fraction := r16 integer.2
  (⟨duration.1, if version = 1 then int64 time.1 else int32 time.1, int16 integer.1,
    int16 fraction.1⟩, fraction.2)

/-- The assertion on the version stands in the loop over the entries. -/
def movReadElst (elst : List Elst) (file : ByteFile) : Except Fault (List Elst × ByteFile) := do
  let version := r8 file
  let flags := r24 version.2
  let count := r32 flags.2
  check (elst = [])
  check (count.1 = 0 ∨ version.1 = 1 ∨ version.1 = 0)
  pure (readEntries (readElst version.1) count.1 count.2)

def movApplyElst (elst : List Elst) (samples : List Sample) : Except Fault (List Sample) := do
  let samples ← storeSample samples 0 fun sample => { sample with dts := 0, pts := 0 }
  elst.foldlM
    (fun samples edit =>
      if edit.mediaTime = -1 then
        storeSample samples 0 fun sample =>
          { sample with dts := int64 edit.segmentDuration, pts := int64 edit.segmentDuration }
      else .ok samples)
    samples

/-! ## The times of a track -/

/-- The edit list and the time tables of `mov_write_trak`; `mov_write_stbl` leaves
out composition offsets that are all zero. -/
def writeTrackTimes (file : ByteFile) (mvhdTimescale : Nat) (track : TimedTrack) :
    Except Fault ByteFile := do
  let file ← movWriteElst file mvhdTimescale track
  let stts ← movBuildStts track.samples
  let file := movWriteStts file stts.samples stts.count
  let ctts ← movBuildCtts stts.samples
  if ctts.samples.length > 0 ∧
      (ctts.count > 1 ∨ (ctts.samples.getD 0 default).samplesPerChunk ≠ 0) then
    pure (movWriteCtts file ctts.samples ctts.cttsV1 ctts.count)
  else pure file

/-- The boxes that are left are read like `mov_reader_box` does, while one can follow. -/
def readLastBox (stbl : Stbl) (file : ByteFile) : Except Fault (Stbl × ByteFile) :=
  if file.position + 8 < file.bytes.length then readTimeBox stbl file else .ok (stbl, file)

/-- The edit list and the tables, applied in the order of `mov_read_trak`. -/
def readTrackTimes (file : ByteFile) (sampleCount : Nat) (samples : List Sample) :
    Except Fault (List Sample) := do
  let box := readBoxHeader file
  let (elst, file) ← movReadElst [] box.2
  let (stbl, file) ← readTimeBox noStbl file
  let (stbl, _) ← readLastBox stbl file
  let samples ← movApplyElst elst samples
  let samples ← movApplyStts stbl sampleCount samples
  movApplyCtts stbl sampleCount samples

def trackTimesRoundTrip (file : ByteFile) (mvhdTimescale : Nat) (track : TimedTrack)
    (slots : List Sample) : Except Fault (List Sample) := do
  let written ← writeTrackTimes file mvhdTimescale track
  readTrackTimes (written.seek file.bytes.length) track.samples.length slots

end CLibs.Mov
