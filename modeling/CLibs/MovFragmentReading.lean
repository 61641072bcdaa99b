import CLibs.MovBoxPassing
import CLibs.MovEditListBoxes

/-!
# Reading the boxes of a fragment back

Each box of a movie fragment is passed by the walk, and what it stores in the
track is given as a function of the track that was written.
-/

namespace CLibs.Mov

open List

variable {asserts : Bool} {state : FragmentReader} {file : ByteFile} {rest : List UInt8}
  {index : Nat}

/-! ## Fields -/

theorem movBufferError_skip {size : Nat} (fine : file.error = false) :
    movBufferError (file.skip size) = 0 := by
  unfold movBufferError
  rw [if_neg]
  change ¬file.error = true
  rw [fine]
  decide

theorem fieldOr_eq {present : Bool} {default value : Nat} (bound : value < 2 ^ 32)
    (agrees : present = false → value = default)
    (ahead : file.Ahead ((if present then bigEndian 4 value else []) ++ rest)) :
    fieldOr present default file =
        (value, file.skip (if present then bigEndian 4 value else []).length) ∧
      (file.skip (if present then bigEndian 4 value else []).length).Ahead rest := by
  cases present with
  | false =>
    rw [agrees rfl]
    exact ⟨rfl, ahead⟩
  | true =>
    obtain ⟨read, behind⟩ := r32_reads.bigEndian bound ahead
    rw [if_pos rfl, bigEndian_length]
    exact ⟨read, behind⟩

theorem mod_reads {width value : Nat} {reader : ByteFile → Nat × ByteFile}
    (reads : ByteFile.ReadsBig width reader)
    (ahead : file.Ahead (bigEndian width value ++ rest)) :
    reader file = (value % 256 ^ width, file.skip width) ∧ (file.skip width).Ahead rest := by
  constructor
  · rw [reads file _ rest (bigEndian_length width value) ahead, bigValue_bigEndian]
  · have behind := ahead.skip
    rwa [bigEndian_length] at behind

/-! ## Choosing the parser -/

section Choice

variable (size : Nat) (reader : Reader FragmentReader)

theorem readFragmentBox_mfhd : readFragmentBox ⟨size, bigValue (movTag 'm' 'f' 'h' 'd')⟩ reader =
    movReadMfhd reader :=
  if_pos rfl

theorem readFragmentBox_tfhd : readFragmentBox ⟨size, bigValue (movTag 't' 'f' 'h' 'd')⟩ reader =
    movReadTfhd reader :=
  (if_neg (show bigValue (movTag 't' 'f' 'h' 'd') ≠ tag 'm' 'f' 'h' 'd' by decide)).trans
    (if_pos rfl)

theorem readFragmentBox_tfdt : readFragmentBox ⟨size, bigValue (movTag 't' 'f' 'd' 't')⟩ reader =
    movReadTfdt reader :=
  (if_neg (show bigValue (movTag 't' 'f' 'd' 't') ≠ tag 'm' 'f' 'h' 'd' by decide)).trans
    ((if_neg (show bigValue (movTag 't' 'f' 'd' 't') ≠ tag 't' 'f' 'h' 'd' by decide)).trans
      (if_pos rfl))

theorem readFragmentBox_trun : readFragmentBox ⟨size, bigValue (movTag 't' 'r' 'u' 'n')⟩ reader =
    movReadTrun reader :=
  (if_neg (show bigValue (movTag 't' 'r' 'u' 'n') ≠ tag 'm' 'f' 'h' 'd' by decide)).trans
    ((if_neg (show bigValue (movTag 't' 'r' 'u' 'n') ≠ tag 't' 'f' 'h' 'd' by decide)).trans
      ((if_neg (show bigValue (movTag 't' 'r' 'u' 'n') ≠ tag 't' 'f' 'd' 't' by decide)).trans
        (if_pos rfl)))

end Choice

theorem fragmentParsers_other (box : Box) (reader : Reader FragmentReader) :
    (fragmentParsers asserts).other box reader = some (readFragmentBox box reader) := rfl

/-! ## The header of the fragment -/

theorem movWriteMfhd_passes (fragment position : Nat) :
    Passes (fragmentParsers asserts) (tag 'm' 'o' 'o' 'f') (movWriteMfhd fragment) position state
      state := by
  apply other_passes rfl
  · simp [bigEndian]
  · simp only [length_append, bigEndian_length]
    decide
  · decide
  · intro file rest ahead
    have fine := ahead.error
    rw [append_assoc] at ahead
    obtain ⟨flags, ahead⟩ := mod_reads r32_reads ahead
    obtain ⟨sequence, ahead⟩ := mod_reads r32_reads ahead
    have read : readEntries r32 2 file = ([0, fragment % 256 ^ 4], file.skip 8) := by
      unfold readEntries readEntries readEntries
      rw [flags]
      dsimp only
      rw [sequence]
      rfl
    rw [fragmentParsers_other, readFragmentBox_mfhd]
    unfold movReadMfhd
    rw [read]
    dsimp only
    rw [movBufferError_skip fine]
    simp only [length_append, bigEndian_length]

/-! ## The header of a track fragment -/

/-- What `mov_read_tfhd` finds in the header of the track. -/
def writtenTfhd (track : FragmentTrack) (moofOffset : Nat) : Tfhd :=
  ⟨tfhdFlags, moofOffset, 1, defaultDuration track, defaultSize track, defaultFlags track⟩

theorem uint32_lt (value : Int) : uint32 value < 2 ^ 32 := by
  unfold uint32
  omega

theorem durations_lt (last : Int) (packets : List Packet) :
    ∀ duration ∈ durations last packets, duration < 2 ^ 32 := by
  induction packets with
  | nil => exact fun _ member => absurd member not_mem_nil
  | cons packet packets ih =>
    cases packets with
    | nil =>
      intro duration member
      rw [mem_singleton.mp member]
      exact uint32_lt last
    | cons following packets =>
      exact forall_mem_cons.mpr ⟨uint32_lt _, ih⟩

theorem headD_lt {values : List Nat} {bound : Nat} (positive : 0 < bound)
    (all : ∀ value ∈ values, value < bound) : values.headD 0 < bound := by
  cases values with
  | nil => exact positive
  | cons value values => exact all value mem_cons_self

theorem defaultDuration_lt (track : FragmentTrack) : defaultDuration track < 2 ^ 32 :=
  headD_lt (by decide) (durations_lt _ _)

structure Stored (track : FragmentTrack) : Prop where
  trackId : track.trackId < 2 ^ 32
  size : ∀ packet ∈ track.samples, packet.data.length < 2 ^ 32
  count : track.samples.length < 2 ^ 32

variable {track : FragmentTrack}

theorem Stored.defaultSize_lt (stored : Stored track) :
    defaultSize track < 2 ^ 32 := by
  apply headD_lt (by decide)
  intro size member
  obtain ⟨packet, packetMem, rfl⟩ := mem_map.mp member
  exact stored.size packet packetMem

theorem defaultFlags_lt (track : FragmentTrack) : defaultFlags track < 2 ^ 32 := by
  unfold defaultFlags
  split <;> decide

def tfhdBody (track : FragmentTrack) : List UInt8 :=
  bigEndian 1 0 ++ (bigEndian 3 tfhdFlags ++ (bigEndian 4 track.trackId ++ (bigEndian 4 1 ++
    (bigEndian 4 (defaultDuration track) ++
      (bigEndian 4 (defaultSize track) ++ bigEndian 4 (defaultFlags track))))))

theorem tfhdBody_length (track : FragmentTrack) : (tfhdBody track).length = 24 := by
  unfold tfhdBody
  simp only [length_append, bigEndian_length]

def tfhdState (track : FragmentTrack) (index : Nat) (state : FragmentReader) : FragmentReader :=
  { state with
    track := some index
    tracks := state.tracks.modify index fun found =>
      { found with tfhd := writtenTfhd track state.moofOffset } }

theorem movReadTfhd_eq_state (stored : Stored track)
    (found : movFindTrack state.tracks track.trackId = some index)
    (ahead : file.Ahead (tfhdBody track ++ rest)) :
    movReadTfhd ⟨file, state⟩ = (0, ⟨file.skip 24, tfhdState track index state⟩) := by
  have fine := ahead.error
  unfold tfhdBody at ahead
  simp only [append_assoc] at ahead
  obtain ⟨version, ahead⟩ := mod_reads r8_reads ahead
  obtain ⟨flags, ahead⟩ := r24_reads.bigEndian (show tfhdFlags < 256 ^ 3 by decide) ahead
  obtain ⟨trackId, ahead⟩ := r32_reads.bigEndian stored.trackId ahead
  obtain ⟨description, ahead⟩ := r32_reads.bigEndian (show 1 < 256 ^ 4 by decide) ahead
  obtain ⟨duration, ahead⟩ := r32_reads.bigEndian (defaultDuration_lt track) ahead
  obtain ⟨size, ahead⟩ := r32_reads.bigEndian stored.defaultSize_lt ahead
  obtain ⟨sampleFlags, ahead⟩ := r32_reads.bigEndian (defaultFlags_lt track) ahead
  simp only [ByteFile.skip_skip] at flags trackId description duration size sampleFlags
  have fields : ∀ trex, readTfhdFields state trex tfhdFlags (file.skip 8) =
      (writtenTfhd track state.moofOffset, file.skip 24) := by
    intro trex
    unfold readTfhdFields readBaseOffset fieldOr
    rw [show tfhdFlags.testBit 0 = false by decide, show tfhdFlags.testBit 17 = true by decide,
      show tfhdFlags.testBit 1 = true by decide, show tfhdFlags.testBit 3 = true by decide,
      show tfhdFlags.testBit 4 = true by decide, show tfhdFlags.testBit 5 = true by decide]
    simp only [Bool.false_eq_true, if_false, if_true]
    rw [description, duration, size, sampleFlags]
    rfl
  rw [movReadTfhd_eq]
  dsimp only
  rw [version]
  dsimp only
  rw [flags]
  dsimp only
  rw [trackId]
  dsimp only
  rw [found]
  unfold readTfhdOf
  dsimp only
  rw [fields]
  unfold storeTfhd
  dsimp only
  rw [movBufferError_skip fine]
  rfl

theorem movWriteTfhd_passes (stored : Stored track)
    (found : movFindTrack state.tracks track.trackId = some index) (position : Nat) :
    Passes (fragmentParsers asserts) (tag 't' 'r' 'a' 'f') (movWriteTfhd track) position state
      (tfhdState track index state) := by
  have length := tfhdBody_length track
  change Passes _ _ (boxText (movTag 't' 'f' 'h' 'd') (tfhdBody track)) _ _ _
  apply other_passes rfl
  · intro empty
    rw [empty] at length
    cases length
  · omega
  · decide
  · intro file rest ahead
    rw [fragmentParsers_other, readFragmentBox_tfhd, movReadTfhd_eq_state stored found ahead, length]

/-! ## The decode time -/

def tfdtState (track : FragmentTrack) (index : Nat) (state : FragmentReader) : FragmentReader :=
  { state with
    tracks := state.tracks.modify index fun found =>
      { found with tfdtDts := int64 ((track.samples.map Packet.dts).headD 0 - track.startDts) } }

def tfdtVersion (track : FragmentTrack) : Nat :=
  if baseMediaDecodeTime track > 2 ^ 31 - 1 then 1 else 0

def tfdtBody (track : FragmentTrack) : List UInt8 :=
  bigEndian 1 (tfdtVersion track) ++ (bigEndian 3 0 ++
    if tfdtVersion track = 1 then bigEndian 8 (baseMediaDecodeTime track)
    else bigEndian 4 (baseMediaDecodeTime track))

theorem readDecodeTime_eq (ahead : file.Ahead (tfdtBody track ++ rest)) :
    readDecodeTime file = (baseMediaDecodeTime track, file.skip (tfdtBody track).length) := by
  have bound : baseMediaDecodeTime track < 2 ^ 64 := by
    unfold baseMediaDecodeTime uint64
    omega
  unfold tfdtBody at ahead ⊢
  simp only [append_assoc] at ahead
  by_cases large : baseMediaDecodeTime track > 2 ^ 31 - 1
  · have one : tfdtVersion track = 1 := if_pos large
    rw [one, if_pos rfl] at ahead ⊢
    obtain ⟨version, ahead⟩ := r8_reads.bigEndian (show 1 < 256 ^ 1 by decide) ahead
    obtain ⟨flags, ahead⟩ := mod_reads r24_reads ahead
    obtain ⟨time, ahead⟩ := r64_reads.bigEndian bound ahead
    rw [readDecodeTime_large (by rw [version]), version]
    dsimp only
    rw [flags]
    dsimp only
    rw [time]
    simp only [ByteFile.skip_skip, length_append, bigEndian_length]
  · have zero : tfdtVersion track = 0 := if_neg large
    rw [zero, if_neg (by decide)] at ahead ⊢
    obtain ⟨version, ahead⟩ := r8_reads.bigEndian (show 0 < 256 ^ 1 by decide) ahead
    obtain ⟨flags, ahead⟩ := mod_reads r24_reads ahead
    have small : baseMediaDecodeTime track < 256 ^ 4 := by omega
    obtain ⟨time, ahead⟩ := r32_reads.bigEndian small ahead
    have notLarge : (r8 file).1 ≠ 1 := by
      rw [version]
      exact Nat.zero_ne_one
    rw [readDecodeTime_small notLarge, version]
    dsimp only
    rw [flags]
    dsimp only
    rw [time]
    simp only [ByteFile.skip_skip, length_append, bigEndian_length]

theorem modify_congr {Value : Type} {values : List Value} {change other : Value → Value}
    (same : ∀ value, values[index]? = some value → change value = other value) :
    values.modify index change = values.modify index other := by
  apply ext_getElem?
  intro place
  rw [List.getElem?_modify, List.getElem?_modify]
  by_cases here : index = place
  · rw [← here]
    cases found : values[index]? with
    | none => rfl
    | some value =>
      simp only [if_true]
      exact congrArg some (same value found)
  · simp only [here, if_false]

theorem movReadTfdt_eq_state (current : state.track = some index)
    (unedited : ∀ found ∈ state.tracks, found.elst = [])
    (ahead : file.Ahead (tfdtBody track ++ rest)) :
    movReadTfdt ⟨file, state⟩ =
      (0, ⟨file.skip (tfdtBody track).length, tfdtState track index state⟩) := by
  have fine := ahead.error
  unfold movReadTfdt
  dsimp only
  rw [readDecodeTime_eq ahead, current]
  dsimp only
  rw [movBufferError_skip fine]
  have applied : state.tracks.modify index (fun found =>
      movApplyElstTfdt { found with tfdtDts := int64 (baseMediaDecodeTime track) }) =
      (tfdtState track index state).tracks := by
    apply modify_congr
    intro found here
    unfold movApplyElstTfdt baseMediaDecodeTime
    dsimp only
    rw [unedited found (mem_of_getElem? here), int64_uint64]
    rfl
  rw [applied, ← current]
  rfl

theorem movWriteTfdt_passes (current : state.track = some index)
    (unedited : ∀ found ∈ state.tracks, found.elst = []) (position : Nat) :
    Passes (fragmentParsers asserts) (tag 't' 'r' 'a' 'f') (movWriteTfdt track) position state
      (tfdtState track index state) := by
  have length : 8 ≤ (tfdtBody track).length ∧ (tfdtBody track).length ≤ 12 := by
    unfold tfdtBody
    simp only [length_append, bigEndian_length]
    split
    · simp only [bigEndian_length]
      omega
    · simp only [bigEndian_length]
      omega
  change Passes _ _ (boxText (movTag 't' 'f' 'd' 't') (tfdtBody track)) _ _ _
  apply other_passes rfl
  · intro empty
    rw [empty] at length
    exact absurd length.1 (by decide)
  · omega
  · decide
  · intro file rest ahead
    rw [fragmentParsers_other, readFragmentBox_tfdt, movReadTfdt_eq_state current unedited ahead]

/-! ## The run -/

/-- The samples that a run gives: the first is marked by `key`, the later ones by `later`. -/
def runSamples (later : Bool) : Bool → Nat → Int → List Packet → List Nat → List FoundSample
  | key, offset, dts, packet :: packets, duration :: durations =>
    { offset := offset
      bytes := packet.data.length
      pts := int64 (dts + int32 (packet.pts - packet.dts))
      dts := dts
      key := key
      sampleDescriptionIndex := 1 } ::
      runSamples later later ((offset + packet.data.length) % 2 ^ 64) (int64 (dts + duration))
        packets durations
  | _, _, _, _, _ => []

def runOffset : Nat → List Packet → Nat
  | offset, [] => offset
  | offset, packet :: packets => runOffset ((offset + packet.data.length) % 2 ^ 64) packets

def runTime : Int → List Nat → Int
  | dts, [] => dts
  | dts, duration :: durations => runTime (int64 (dts + duration)) durations

def keyFlags (flags : Nat) : Bool := !(flags.testBit 16 || flags.testBit 24)

theorem RunFlags.value_bits (flags : RunFlags) :
    flags.value < 256 ^ 3 ∧ flags.value.testBit 0 = true ∧
      flags.value.testBit 2 = flags.firstFlags ∧ flags.value.testBit 8 = flags.duration ∧
      flags.value.testBit 9 = flags.size ∧ flags.value.testBit 10 = false ∧
      flags.value.testBit 11 = flags.offset := by
  obtain ⟨firstFlags, duration, size, offset⟩ := flags
  cases firstFlags <;> cases duration <;> cases size <;> cases offset <;> decide

structure Agrees (flags : RunFlags) (tfhd : Tfhd) (packets : List Packet) (durations : List Nat) :
    Prop where
  duration : ∀ duration ∈ durations, flags.duration = false → duration = tfhd.defaultSampleDuration
  size : ∀ packet ∈ packets, flags.size = false → packet.data.length = tfhd.defaultSampleSize
  offset : ∀ packet ∈ packets, flags.offset = false → packet.pts = packet.dts
  durationBound : ∀ duration ∈ durations, duration < 2 ^ 32
  sizeBound : ∀ packet ∈ packets, packet.data.length < 2 ^ 32
  described : tfhd.sampleDescriptionIndex = 1

variable {flags : RunFlags} {tfhd : Tfhd} {durations : List Nat}

theorem Agrees.tail {packet : Packet} {packets : List Packet} {duration : Nat}
    (agrees : Agrees flags tfhd (packet :: packets) (duration :: durations)) :
    Agrees flags tfhd packets durations where
  duration other member := agrees.duration other (mem_cons_of_mem _ member)
  size other member := agrees.size other (mem_cons_of_mem _ member)
  offset other member := agrees.offset other (mem_cons_of_mem _ member)
  durationBound other member := agrees.durationBound other (mem_cons_of_mem _ member)
  sizeBound other member := agrees.sizeBound other (mem_cons_of_mem _ member)
  described := agrees.described

theorem readRunSample_eq {packet : Packet} {packets : List Packet} {duration : Nat}
    {run : RunReading} (sampleFlags : Nat)
    (agrees : Agrees flags tfhd (packet :: packets) (duration :: durations))
    (ahead : run.file.Ahead (runEntry flags packet duration ++ rest)) :
    readRunSample 1 flags.value tfhd sampleFlags run =
        ⟨run.samples ++ [⟨run.dataOffset, packet.data.length,
            int64 (run.tfdtDts + int32 (packet.pts - packet.dts)), run.tfdtDts,
            keyFlags sampleFlags, 1⟩],
          (run.dataOffset + packet.data.length) % 2 ^ 64, int64 (run.tfdtDts + duration),
          run.file.skip (runEntry flags packet duration).length⟩ ∧
      (run.file.skip (runEntry flags packet duration).length).Ahead rest := by
  obtain ⟨-, -, -, durationBit, sizeBit, flagsBit, offsetBit⟩ := flags.value_bits
  have behind := ahead.skip
  unfold runEntry at ahead
  simp only [append_assoc] at ahead
  obtain ⟨durationEq, ahead⟩ := fieldOr_eq (agrees.durationBound _ mem_cons_self)
    (agrees.duration _ mem_cons_self) ahead
  obtain ⟨sizeEq, ahead⟩ := fieldOr_eq (agrees.sizeBound _ mem_cons_self)
    (agrees.size _ mem_cons_self) ahead
  have absent : flags.offset = false → uint32 (packet.pts - packet.dts) = 0 := by
    intro none
    rw [agrees.offset _ mem_cons_self none, Int.sub_self]
    decide
  obtain ⟨offsetEq, ahead⟩ := fieldOr_eq (uint32_lt _) absent ahead
  refine ⟨?_, behind⟩
  unfold readRunSample
  rw [durationBit, sizeBit, flagsBit, offsetBit, durationEq]
  dsimp only
  rw [sizeEq]
  unfold fieldOr at offsetEq ⊢
  simp only [Bool.false_eq_true, if_false]
  rw [offsetEq]
  simp only [ByteFile.skip_skip, if_true, int32_uint32, agrees.described]
  unfold runEntry keyFlags
  simp only [length_append, Nat.add_assoc]

theorem readRun_eq (packets : List Packet) (lengths : durations.length = packets.length)
    (agrees : Agrees flags tfhd packets durations) {run : RunReading} (sampleFlags : Nat)
    (ahead : run.file.Ahead ((packets.zipWith (runEntry flags) durations).flatten ++ rest)) :
    readRun 1 flags.value tfhd packets.length sampleFlags run =
      ⟨run.samples ++ runSamples (keyFlags tfhd.defaultSampleFlags) (keyFlags sampleFlags)
          run.dataOffset run.tfdtDts packets durations,
        runOffset run.dataOffset packets, runTime run.tfdtDts durations,
        run.file.skip (packets.zipWith (runEntry flags) durations).flatten.length⟩ := by
  induction packets generalizing durations run sampleFlags with
  | nil =>
    rw [length_eq_zero_iff.mp lengths]
    simp [readRun, runSamples, runOffset, runTime, ByteFile.skip]
  | cons packet packets ih =>
    cases durations with
    | nil => cases lengths
    | cons duration durations =>
      rw [zipWith_cons_cons, flatten_cons, append_assoc] at ahead
      obtain ⟨sample, behind⟩ := readRunSample_eq sampleFlags agrees ahead
      rw [length_cons, readRun, sample,
        ih (Nat.succ.inj lengths) agrees.tail tfhd.defaultSampleFlags behind]
      simp only [runSamples, runOffset, runTime, zipWith_cons_cons, flatten_cons,
        length_append, ByteFile.skip_skip, append_assoc, singleton_append]

end CLibs.Mov
