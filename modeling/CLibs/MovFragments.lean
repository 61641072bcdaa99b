import CLibs.MovBoxLanding
import CLibs.MovEditList

/-!
# Fragmented files: `fmp4-writer.c` and the boxes of a movie fragment

The writer gathers the samples of every track and writes them as one movie
fragment when a video key frame comes.  A box is modelled as the bytes that stand
in the file when its size has been filled in.  The reader walks over the
fragments with `mov_reader_box`; the `moov` before them has no samples and, since
it is written with a sample count of zero, no edit list.  Memory is available.
-/

namespace CLibs.Mov

/-! ## The writer -/

/-- The media that a track can be of. -/
inductive Handler
  | audio
  | video
  | subtitle
  deriving DecidableEq

/-- A sample that waits for its fragment. -/
structure Packet where
  data : List UInt8
  pts : Int
  dts : Int
  flags : Nat
  deriving DecidableEq

def Packet.key (packet : Packet) : Bool := packet.flags.testBit 0

/-- The part of `mov_track_t` that the fragment writer uses. -/
structure FragmentTrack where
  trackId : Nat
  handler : Handler
  samples : List Packet
  startDts : Int
  lastDts : Int
  turnLastDuration : Int
  deriving DecidableEq

def int64Min : Int := -2 ^ 63

/-- A track behind `fmp4_writer_add_audio`, `fmp4_writer_add_video` or
`fmp4_writer_add_subtitle`. -/
def addedTrack (trackId : Nat) (handler : Handler) : FragmentTrack :=
  ⟨trackId, handler, [], int64Min, int64Min, 0⟩

def FragmentTrack.bytes (track : FragmentTrack) : Nat :=
  (track.samples.map fun packet => packet.data.length).sum

def durations (last : Int) : List Packet → List Nat
  | [] => []
  | [_] => [uint32 last]
  | packet :: next :: packets =>
    uint32 (next.dts - packet.dts) :: durations last (next :: packets)

/-! ### Boxes -/

/-- A box with its size in front, as `mov_write_size` leaves it. -/
def boxText (letters body : List UInt8) : List UInt8 :=
  bigEndian 4 (8 + body.length) ++ (letters ++ body)

def movWriteMfhd (fragment : Nat) : List UInt8 :=
  boxText (movTag 'm' 'f' 'h' 'd') (bigEndian 4 0 ++ bigEndian 4 fragment)

def dependsOnI : Nat := 0x02000000

def dependsOnNotI : Nat := 0x01000000

def isNoSyncSample : Nat := 0x00010000

/-- The default duration, size and flags of `fmp4_write_traf`. -/
def defaultDuration (track : FragmentTrack) : Nat :=
  (durations track.turnLastDuration track.samples).headD 0

def defaultSize (track : FragmentTrack) : Nat :=
  (track.samples.map fun packet => packet.data.length).headD 0

def defaultFlags (track : FragmentTrack) : Nat :=
  if track.handler = .audio then dependsOnI else isNoSyncSample + dependsOnNotI

/-- The default flags, the description index, the default base, and the default
duration and size of a fragment that is not empty. -/
def tfhdFlags : Nat := 0x20 + 0x02 + 0x020000 + 0x08 + 0x10

def movWriteTfhd (track : FragmentTrack) : List UInt8 :=
  boxText (movTag 't' 'f' 'h' 'd') (bigEndian 1 0 ++ (bigEndian 3 tfhdFlags ++
    (bigEndian 4 track.trackId ++ (bigEndian 4 1 ++ (bigEndian 4 (defaultDuration track) ++
      (bigEndian 4 (defaultSize track) ++ bigEndian 4 (defaultFlags track)))))))

/-- `baseMediaDecodeTime`, relative to the first sample of the track. -/
def baseMediaDecodeTime (track : FragmentTrack) : Nat :=
  uint64 ((track.samples.map fun packet => packet.dts).headD 0 - track.startDts)

def movWriteTfdt (track : FragmentTrack) : List UInt8 :=
  let version := if baseMediaDecodeTime track > 2 ^ 31 - 1 then 1 else 0
  boxText (movTag 't' 'f' 'd' 't') (bigEndian 1 version ++ (bigEndian 3 0 ++
    if version = 1 then bigEndian 8 (baseMediaDecodeTime track)
    else bigEndian 4 (baseMediaDecodeTime track)))

/-- What the samples of a run give for themselves. -/
structure RunFlags where
  firstFlags : Bool
  duration : Bool
  size : Bool
  offset : Bool
  deriving DecidableEq

def runFlags (track : FragmentTrack) : RunFlags where
  firstFlags := (track.samples.map Packet.key).headD false
  duration := (durations track.turnLastDuration track.samples).any fun duration =>
    duration != defaultDuration track
  size := track.samples.any fun packet => packet.data.length != defaultSize track
  offset := track.samples.any fun packet => packet.pts != packet.dts

/-- `MOV_TRUN_FLAG_DATA_OFFSET_PRESENT` and the others. -/
def RunFlags.value (flags : RunFlags) : Nat :=
  0x0001 + (if flags.firstFlags then 0x0004 else 0) + (if flags.duration then 0x0100 else 0) +
    (if flags.size then 0x0200 else 0) + (if flags.offset then 0x0800 else 0)

def runEntry (flags : RunFlags) (packet : Packet) (duration : Nat) : List UInt8 :=
  (if flags.duration then bigEndian 4 duration else []) ++
    ((if flags.size then bigEndian 4 packet.data.length else []) ++
      if flags.offset then bigEndian 4 (uint32 (packet.pts - packet.dts)) else [])

/-- A run of all the samples of the track: `fmp4_write_moof` gave them offsets
without a gap, from `offset` on. -/
def movWriteTrun (track : FragmentTrack) (offset moof : Nat) : List UInt8 :=
  let flags := runFlags track
  boxText (movTag 't' 'r' 'u' 'n') (bigEndian 1 1 ++ (bigEndian 3 flags.value ++
    (bigEndian 4 track.samples.length ++ (bigEndian 4 (moof + offset) ++
      ((if flags.firstFlags then bigEndian 4 dependsOnI else []) ++
        (track.samples.zipWith (runEntry flags)
          (durations track.turnLastDuration track.samples)).flatten)))))

def fmp4WriteTraf (track : FragmentTrack) (offset moof : Nat) : List UInt8 :=
  boxText (movTag 't' 'r' 'a' 'f')
    (movWriteTfhd track ++ (movWriteTfdt track ++ movWriteTrun track offset moof))

/-- The tracks that have samples, whose data stands from `offset` on. -/
def writeTrafs (moof : Nat) : Nat → List FragmentTrack → List UInt8
  | _, [] => []
  | offset, track :: tracks =>
    (if track.samples = [] then [] else fmp4WriteTraf track offset moof) ++
      writeTrafs moof (offset + track.bytes) tracks

def fmp4WriteMoof (tracks : List FragmentTrack) (fragment moof : Nat) : List UInt8 :=
  boxText (movTag 'm' 'o' 'o' 'f') (movWriteMfhd fragment ++ writeTrafs moof 0 tracks)

def mdatHeader (mdatSize : Nat) : List UInt8 :=
  if mdatSize + 8 ≤ uint32Max then
    bigEndian 4 (mdatSize % 2 ^ 32 + 8) ++ movTag 'm' 'd' 'a' 't'
  else bigEndian 4 1 ++ (movTag 'm' 'd' 'a' 't' ++ bigEndian 8 (mdatSize + 16))

/-- The samples in the order of their offsets. -/
def mediaData (tracks : List FragmentTrack) : List UInt8 :=
  (tracks.map fun track => (track.samples.map Packet.data).flatten).flatten

/-- The fragment box is written twice, the second time with its own size. -/
def fragmentText (tracks : List FragmentTrack) (fragment mdatSize : Nat) : List UInt8 :=
  let refsize := (fmp4WriteMoof tracks fragment 0).length
  fmp4WriteMoof tracks fragment (refsize + 8) ++ (mdatHeader mdatSize ++ mediaData tracks)

/-! ### Calls -/

/-- The writer with what it has written. -/
structure Fmp4Writer where
  tracks : List FragmentTrack
  mdatSize : Nat
  fragmentId : Nat
  file : List UInt8

def FragmentTrack.clear (track : FragmentTrack) : FragmentTrack := { track with samples := [] }

/-- A fragment without media data is not written. -/
def fmp4WriteFragment (writer : Fmp4Writer) : Fmp4Writer :=
  if writer.mdatSize < 1 then writer
  else
    { tracks := writer.tracks.map FragmentTrack.clear
      mdatSize := 0
      fragmentId := writer.fragmentId + 1
      file := writer.file ++ fragmentText writer.tracks (writer.fragmentId + 1) writer.mdatSize }

/-- One call of `fmp4_writer_write`. -/
structure Fmp4Call where
  track : Nat
  data : List UInt8
  pts : Int
  dts : Int
  flags : Nat

def scaled (time : Int) : Int := Int.tdiv (int64 (time * 1000)) 1000

def Fmp4Call.packet (call : Fmp4Call) : Packet :=
  ⟨call.data, scaled call.pts, scaled call.dts, call.flags⟩

def FragmentTrack.takeDuration (dts : Int) (track : FragmentTrack) : FragmentTrack :=
  { track with
    turnLastDuration := if dts > track.lastDts ∧ int64Min ≠ track.lastDts then
      int64 (dts - track.lastDts) else 0 }

def FragmentTrack.store (packet : Packet) (track : FragmentTrack) : FragmentTrack :=
  { track with
    samples := track.samples ++ [packet]
    startDts := if int64Min = track.startDts then packet.dts else track.startDts
    lastDts := packet.dts }

/-- `fmp4_writer_write`: a key frame of a video begins a new fragment. -/
def fmp4WriterWrite (writer : Fmp4Writer) (call : Fmp4Call) : Fmp4Writer :=
  match writer.tracks[call.track]? with
  | none => writer
  | some track =>
    let timed := { writer with
      tracks := writer.tracks.modify call.track (FragmentTrack.takeDuration call.dts) }
    let ready := if track.handler = .video ∧ call.packet.key then fmp4WriteFragment timed else timed
    { ready with
      tracks := ready.tracks.modify call.track (FragmentTrack.store call.packet)
      mdatSize := ready.mdatSize + call.data.length }

/-- The fragments that `fmp4_writer_save_segment` leaves in the file. -/
def fmp4Fragments (tracks : List FragmentTrack) (calls : List Fmp4Call) : List UInt8 :=
  (fmp4WriteFragment (calls.foldl fmp4WriterWrite ⟨tracks, 0, 0, []⟩)).file

/-! ## The reader -/

structure Tfhd where
  flags : Nat
  baseDataOffset : Nat
  sampleDescriptionIndex : Nat
  defaultSampleDuration : Nat
  defaultSampleSize : Nat
  defaultSampleFlags : Nat
  deriving DecidableEq

/-- A sample that was read; its flags are `MOV_AV_FLAG_KEYFREAME` or none. -/
structure FoundSample where
  offset : Nat
  bytes : Nat
  pts : Int
  dts : Int
  key : Bool
  sampleDescriptionIndex : Nat
  deriving DecidableEq

/-- The part of `mov_track_t` that the fragment reader uses. -/
structure FoundTrack where
  trackId : Nat
  elst : List Elst
  trex : Tfhd
  tfhd : Tfhd
  tfdtDts : Int
  samples : List FoundSample
  deriving DecidableEq

/-- The reader between two boxes of a fragment. -/
structure FragmentReader where
  tracks : List FoundTrack
  track : Option Nat
  moofOffset : Nat
  implicitOffset : Nat
  deriving DecidableEq

def fieldOr (present : Bool) (default : Nat) (file : ByteFile) : Nat × ByteFile :=
  if present then r32 file else (default, file)

/-- `mov_find_track`, as the index of the track. -/
def movFindTrack (tracks : List FoundTrack) (trackId : Nat) : Option Nat :=
  tracks.findIdx? fun track => track.trackId = trackId

def readBaseOffset (state : FragmentReader) (flags : Nat) (file : ByteFile) : Nat × ByteFile :=
  if flags.testBit 0 then r64 file
  else if flags.testBit 17 then (state.moofOffset, file)
  else (state.implicitOffset, file)

def readTfhdFields (state : FragmentReader) (trex : Tfhd) (flags : Nat) (file : ByteFile) :
    Tfhd × ByteFile :=
  let base := readBaseOffset state flags file
  let index := fieldOr (flags.testBit 1) trex.sampleDescriptionIndex base.2
  let duration := fieldOr (flags.testBit 3) trex.defaultSampleDuration index.2
  let size := fieldOr (flags.testBit 4) trex.defaultSampleSize duration.2
  let sampleFlags := fieldOr (flags.testBit 5) trex.defaultSampleFlags size.2
  (⟨flags, base.1, index.1, duration.1, size.1, sampleFlags.1⟩, sampleFlags.2)

def storeTfhd (index : Nat) (fields : Tfhd × ByteFile) (state : FragmentReader) :
    Int × Reader FragmentReader :=
  (movBufferError fields.2, ⟨fields.2, { state with
    track := some index
    tracks := state.tracks.modify index fun track => { track with tfhd := fields.1 } }⟩)

def readTfhdOf (found : Option Nat) (flags : Nat) (file : ByteFile) (state : FragmentReader) :
    Int × Reader FragmentReader :=
  match found with
  | none => (-1, ⟨file, { state with track := none }⟩)
  | some index =>
    let trex := ((state.tracks.map FoundTrack.trex)[index]?).getD ⟨0, 0, 0, 0, 0, 0⟩
    storeTfhd index (readTfhdFields state trex flags file) state

def movReadTfhd (reader : Reader FragmentReader) : Int × Reader FragmentReader :=
  let flags := r24 (r8 reader.file).2
  let trackId := r32 flags.2
  readTfhdOf (movFindTrack reader.state.tracks trackId.1) flags.1 trackId.2 reader.state

def movApplyElstTfdt (track : FoundTrack) : FoundTrack :=
  { track with
    tfdtDts := track.elst.foldl (fun dts edit =>
      if edit.mediaTime = -1 then int64 (dts + edit.segmentDuration) else dts) track.tfdtDts }

/-- `baseMediaDecodeTime` in the width that the version gives. -/
def readDecodeTime (file : ByteFile) : Nat × ByteFile :=
  let version := r8 file
  let flags := r24 version.2
  if version.1 = 1 then r64 flags.2 else r32 flags.2

def movReadTfdt (reader : Reader FragmentReader) : Int × Reader FragmentReader :=
  let time := readDecodeTime reader.file
  match reader.state.track with
  | none => (-1, ⟨time.2, reader.state⟩)
  | some index =>
    (movBufferError time.2, ⟨time.2, { reader.state with
      tracks := reader.state.tracks.modify index fun track =>
        movApplyElstTfdt { track with tfdtDts := int64 time.1 } }⟩)

structure RunReading where
  samples : List FoundSample
  dataOffset : Nat
  tfdtDts : Int
  file : ByteFile

/-- One sample of a run, whose flags are `sampleFlags` unless it has its own. -/
def readRunSample (version flags : Nat) (tfhd : Tfhd) (sampleFlags : Nat) (run : RunReading) :
    RunReading :=
  let duration := fieldOr (flags.testBit 8) tfhd.defaultSampleDuration run.file
  let size := fieldOr (flags.testBit 9) tfhd.defaultSampleSize duration.2
  let given := fieldOr (flags.testBit 10) sampleFlags size.2
  let offset := fieldOr (flags.testBit 11) 0 given.2
  let composition : Int := if version = 1 then int32 offset.1 else offset.1
  let sample : FoundSample :=
    { offset := run.dataOffset
      bytes := size.1
      pts := int64 (run.tfdtDts + composition)
      dts := run.tfdtDts
      key := !(given.1.testBit 16 || given.1.testBit 24)
      sampleDescriptionIndex := tfhd.sampleDescriptionIndex }
  ⟨run.samples ++ [sample], (run.dataOffset + size.1) % 2 ^ 64, int64 (run.tfdtDts + duration.1),
    offset.2⟩

def readRun (version flags : Nat) (tfhd : Tfhd) : Nat → Nat → RunReading → RunReading
  | 0, _, run => run
  | count + 1, sampleFlags, run =>
    readRun version flags tfhd count tfhd.defaultSampleFlags
      (readRunSample version flags tfhd sampleFlags run)

/-- The flags of the first sample, which are `tfhd.flags` unless the run has its own,
and the run before it is read. -/
def runStart (track : FoundTrack) (file : ByteFile) : Nat × RunReading :=
  let flags := r24 (r8 file).2
  let count := r32 flags.2
  let dataOffset := fieldOr (flags.1.testBit 0) 0 count.2
  let first := fieldOr (flags.1.testBit 2) track.tfhd.flags dataOffset.2
  let base := (track.tfhd.baseDataOffset + int32 dataOffset.1) % 2 ^ 64
  (first.1, ⟨track.samples, base.toNat, track.tfdtDts, first.2⟩)

def readTrunOf (track : FoundTrack) (file : ByteFile) : RunReading :=
  let version := r8 file
  let flags := r24 version.2
  let count := r32 flags.2
  let start := runStart track file
  readRun version.1 flags.1 track.tfhd count.1 start.1 start.2

def storeRun (index : Nat) (run : RunReading) (state : FragmentReader) :
    Int × Reader FragmentReader :=
  (movBufferError run.file, ⟨run.file, { state with
    implicitOffset := run.dataOffset
    tracks := state.tracks.modify index fun track =>
      { track with samples := run.samples, tfdtDts := run.tfdtDts } }⟩)

/-- Without a current track there is nothing to store to. -/
def movReadTrun (reader : Reader FragmentReader) : Int × Reader FragmentReader :=
  match reader.state.track with
  | none => (-1, reader)
  | some index =>
    match reader.state.tracks[index]? with
    | none => (-1, reader)
    | some track => storeRun index (readTrunOf track reader.file) reader.state

def movReadMfhd (reader : Reader FragmentReader) : Int × Reader FragmentReader :=
  let file := (readEntries r32 2 reader.file).2
  (movBufferError file, ⟨file, reader.state⟩)

def readFragmentBox (box : Box) (reader : Reader FragmentReader) : Int × Reader FragmentReader :=
  if box.type = tag 'm' 'f' 'h' 'd' then movReadMfhd reader
  else if box.type = tag 't' 'f' 'h' 'd' then movReadTfhd reader
  else if box.type = tag 't' 'f' 'd' 't' then movReadTfdt reader
  else if box.type = tag 't' 'r' 'u' 'n' then movReadTrun reader
  else (movBufferError (reader.skip box.size).file, reader.skip box.size)

/-! ### The parsers keep the file -/

theorem fieldOr_follows (present : Bool) (default : Nat) (file : ByteFile) :
    Follows file (fieldOr present default file).2 := by
  unfold fieldOr
  split
  · exact (r32_readsWidth file).1.toFollows
  · exact Follows.refl file

theorem readTfhdFields_follows (state : FragmentReader) (trex : Tfhd) (flags : Nat)
    (file : ByteFile) : Follows file (readTfhdFields state trex flags file).2 := by
  have base : Follows file (readBaseOffset state flags file).2 := by
    unfold readBaseOffset
    split
    · exact (r64_readsWidth file).1.toFollows
    · split
      · exact Follows.refl file
      · exact Follows.refl file
  have index := base.trans (fieldOr_follows (flags.testBit 1) trex.sampleDescriptionIndex _)
  have duration := index.trans (fieldOr_follows (flags.testBit 3) trex.defaultSampleDuration _)
  have size := duration.trans (fieldOr_follows (flags.testBit 4) trex.defaultSampleSize _)
  exact size.trans (fieldOr_follows (flags.testBit 5) trex.defaultSampleFlags _)

theorem readTfhdOf_follows (found : Option Nat) (flags : Nat) (file : ByteFile)
    (state : FragmentReader) : Follows file (readTfhdOf found flags file state).2.file := by
  cases found with
  | none => exact Follows.refl file
  | some index => exact readTfhdFields_follows state _ flags file

theorem movReadTfhd_eq (reader : Reader FragmentReader) :
    movReadTfhd reader =
      readTfhdOf (movFindTrack reader.state.tracks (r32 (r24 (r8 reader.file).2).2).1)
        (r24 (r8 reader.file).2).1 (r32 (r24 (r8 reader.file).2).2).2 reader.state := rfl

theorem movReadTfhd_follows (reader : Reader FragmentReader) :
    Follows reader.file (movReadTfhd reader).2.file := by
  have flags := (r8_readsWidth reader.file).1.trans (r24_readsWidth _).1
  have trackId := (flags.trans (r32_readsWidth _).1).toFollows
  rw [movReadTfhd_eq]
  exact trackId.trans (readTfhdOf_follows _ _ _ _)

theorem readDecodeTime_large {file : ByteFile} (large : (r8 file).1 = 1) :
    readDecodeTime file = r64 (r24 (r8 file).2).2 :=
  if_pos large

theorem readDecodeTime_small {file : ByteFile} (small : (r8 file).1 ≠ 1) :
    readDecodeTime file = r32 (r24 (r8 file).2).2 :=
  if_neg small

theorem movReadTfdt_follows (reader : Reader FragmentReader) :
    Follows reader.file (movReadTfdt reader).2.file := by
  have time : Follows reader.file (readDecodeTime reader.file).2 := by
    have flags := (r8_readsWidth reader.file).1.trans (r24_readsWidth _).1
    by_cases large : (r8 reader.file).1 = 1
    · rw [readDecodeTime_large large]
      exact (flags.trans (r64_readsWidth _).1).toFollows
    · rw [readDecodeTime_small large]
      exact (flags.trans (r32_readsWidth _).1).toFollows
  unfold movReadTfdt
  dsimp only
  split
  · exact time
  · exact time

theorem readRunSample_follows (version flags : Nat) (tfhd : Tfhd) (sampleFlags : Nat)
    (run : RunReading) :
    Follows run.file (readRunSample version flags tfhd sampleFlags run).file := by
  have duration := fieldOr_follows (flags.testBit 8) tfhd.defaultSampleDuration run.file
  have size := duration.trans (fieldOr_follows (flags.testBit 9) tfhd.defaultSampleSize _)
  have given := size.trans (fieldOr_follows (flags.testBit 10) sampleFlags _)
  exact given.trans (fieldOr_follows (flags.testBit 11) 0 _)

theorem readRun_follows (version flags : Nat) (tfhd : Tfhd) (count sampleFlags : Nat)
    (run : RunReading) :
    Follows run.file (readRun version flags tfhd count sampleFlags run).file := by
  induction count generalizing sampleFlags run with
  | zero => exact Follows.refl _
  | succ count ih =>
    exact (readRunSample_follows version flags tfhd sampleFlags run).trans (ih _ _)

theorem readTrunOf_eq (track : FoundTrack) (file : ByteFile) :
    readTrunOf track file =
      readRun (r8 file).1 (r24 (r8 file).2).1 track.tfhd (r32 (r24 (r8 file).2).2).1
        (runStart track file).1 (runStart track file).2 := rfl

theorem runStart_eq (track : FoundTrack) (file : ByteFile) : ∃ samples offset dts,
    runStart track file =
      let dataOffset := fieldOr ((r24 (r8 file).2).1.testBit 0) 0 (r32 (r24 (r8 file).2).2).2
      let first := fieldOr ((r24 (r8 file).2).1.testBit 2) track.tfhd.flags dataOffset.2
      (first.1, ⟨samples, offset, dts, first.2⟩) :=
  ⟨_, _, _, rfl⟩

-- a lemma of its own, so that the kernel does not evaluate what was read
theorem started_file (first : Nat × ByteFile) (samples : List FoundSample) (offset : Nat)
    (dts : Int) : (first.1, (⟨samples, offset, dts, first.2⟩ : RunReading)).2.file = first.2 := rfl

theorem runStart_follows (track : FoundTrack) (file : ByteFile) :
    Follows file (runStart track file).2.file := by
  have flags := (r8_readsWidth file).1.trans (r24_readsWidth _).1
  have count := (flags.trans (r32_readsWidth _).1).toFollows
  have offset := count.trans (fieldOr_follows ((r24 (r8 file).2).1.testBit 0) 0 _)
  obtain ⟨samples, dataOffset, dts, start⟩ := runStart_eq track file
  rw [start, started_file]
  exact offset.trans (fieldOr_follows ((r24 (r8 file).2).1.testBit 2) track.tfhd.flags _)

theorem readTrunOf_follows (track : FoundTrack) (file : ByteFile) :
    Follows file (readTrunOf track file).file := by
  rw [readTrunOf_eq]
  exact (runStart_follows track file).trans (readRun_follows _ _ _ _ _ _)

theorem storeRun_file (index : Nat) (run : RunReading) (state : FragmentReader) :
    (storeRun index run state).2.file = run.file := rfl

theorem movReadTrun_follows (reader : Reader FragmentReader) :
    Follows reader.file (movReadTrun reader).2.file := by
  unfold movReadTrun
  split
  · exact Follows.refl _
  · split
    · exact Follows.refl _
    · next track _ =>
        rw [storeRun_file]
        exact readTrunOf_follows track reader.file

theorem readFragmentBox_follows (box : Box) (reader : Reader FragmentReader) :
    Follows reader.file (readFragmentBox box reader).2.file := by
  unfold readFragmentBox
  split
  · exact (readEntries_advances r32_readsWidth 1 _).toFollows
  · split
    · exact movReadTfhd_follows reader
    · split
      · exact movReadTfdt_follows reader
      · split
        · exact movReadTrun_follows reader
        · exact skip_follows _ _

/-- The walk over fragments, with or without assertions. -/
def fragmentParsers (asserts : Bool) : Parsers FragmentReader where
  asserts := asserts
  hasTrack state := state.track.isSome
  handlerType _ := 0
  describe _ state := state
  openTrack state := state
  closeTrack state := state
  openMoof offset state := { state with moofOffset := offset, implicitOffset := offset }
  other box reader := some (readFragmentBox box reader)
  other_bytes := by
    rintro box reader _ ⟨⟩
    exact (readFragmentBox_follows box reader).bytes
  other_error := by
    rintro box reader _ ⟨⟩ failed
    by_contra fine
    have before := (readFragmentBox_follows box reader).error (by simpa using fine)
    rw [failed] at before
    cases before

/-- A track as the `moov` leaves it. -/
def openedTrack (track : FragmentTrack) : FoundTrack :=
  ⟨track.trackId, [], ⟨0, 0, 1, 0, 0, 0⟩, ⟨0, 0, 0, 0, 0, 0⟩, 0, []⟩

/-- The walk from the first fragment on, behind the boxes that stand in `head`. -/
def readFragments (asserts : Bool) (fuel : Nat) (head text : List UInt8)
    (tracks : List FragmentTrack) : Traced Visit (Int × Reader FragmentReader) :=
  readBoxes (fragmentParsers asserts) fuel ⟨uint64Max, movRoot⟩ head.length
    ⟨⟨head ++ text, head.length, false⟩, ⟨tracks.map openedTrack, none, 0, 0⟩⟩

end CLibs.Mov
