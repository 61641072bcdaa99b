import CLibs.MovFragmentReading

/-!
# What a fragment adds to the tracks of the reader

The run of a track adds its samples to the track with the same number; a
fragment does so for every track that has samples, and leaves the others alone.
-/

namespace CLibs.Mov

open List

variable {asserts : Bool} {state : FragmentReader} {file : ByteFile} {rest : List UInt8}
  {index offset moof position : Nat} {track : FragmentTrack}

/-! ## The run of a track -/

/-- Where the data of a run starts. -/
def dataBase (moofOffset moof offset : Nat) : Nat :=
  (((moofOffset : Int) + int32 ((moof + offset) % 2 ^ 32 : Nat)) % 2 ^ 64).toNat

def startTime (track : FragmentTrack) : Int :=
  int64 ((track.samples.map Packet.dts).headD 0 - track.startDts)

def FragmentTrack.durations (track : FragmentTrack) : List Nat :=
  Mov.durations track.turnLastDuration track.samples

/-- The samples that the run of the track gives: the first is always a key frame,
and the later ones are in a sound track. -/
def foundSamples (track : FragmentTrack) (base : Nat) : List FoundSample :=
  runSamples (track.handler = .audio) true base (startTime track) track.samples track.durations

def addRun (track : FragmentTrack) (moofOffset offset moof : Nat) (found : FoundTrack) :
    FoundTrack :=
  { found with
    tfhd := writtenTfhd track moofOffset
    samples := found.samples ++ foundSamples track (dataBase moofOffset moof offset)
    tfdtDts := runTime (startTime track) track.durations }

theorem durations_length (last : Int) (packets : List Packet) :
    (durations last packets).length = packets.length := by
  induction packets with
  | nil => rfl
  | cons packet packets ih =>
    cases packets with
    | nil => rfl
    | cons following packets => exact congrArg Nat.succ ih

theorem keyFlags_first (track : FragmentTrack) :
    keyFlags (if (runFlags track).firstFlags then dependsOnI else tfhdFlags) = true := by
  split <;> decide

theorem keyFlags_later (track : FragmentTrack) :
    keyFlags (defaultFlags track) = decide (track.handler = .audio) := by
  unfold defaultFlags
  cases track.handler <;> decide

theorem Stored.agrees (stored : Stored track) (moofOffset : Nat) :
    Agrees (runFlags track) (writtenTfhd track moofOffset) track.samples track.durations where
  duration duration member absent := by
    change duration = defaultDuration track
    have all := any_eq_false.mp absent duration member
    simpa using all
  size packet member absent := by
    change packet.data.length = defaultSize track
    have all := any_eq_false.mp absent packet member
    simpa using all
  offset packet member absent := by
    have all := any_eq_false.mp absent packet member
    simpa using all
  durationBound := durations_lt _ _
  sizeBound := stored.size
  described := rfl

def trunBody (track : FragmentTrack) (offset moof : Nat) : List UInt8 :=
  bigEndian 1 1 ++ (bigEndian 3 (runFlags track).value ++ (bigEndian 4 track.samples.length ++
    (bigEndian 4 (moof + offset) ++
      ((if (runFlags track).firstFlags then bigEndian 4 dependsOnI else []) ++
        (track.samples.zipWith (runEntry (runFlags track)) track.durations).flatten))))

theorem trunBody_positive (track : FragmentTrack) (offset moof : Nat) :
    0 < (trunBody track offset moof).length := by
  unfold trunBody
  simp only [length_append, bigEndian_length]
  omega

theorem firstFlags_eq {present : Bool}
    (ahead : file.Ahead ((if present then bigEndian 4 dependsOnI else []) ++ rest)) :
    fieldOr present tfhdFlags file = (if present then dependsOnI else tfhdFlags,
        file.skip (if present then bigEndian 4 dependsOnI else []).length) ∧
      (file.skip (if present then bigEndian 4 dependsOnI else []).length).Ahead rest := by
  cases present with
  | false => exact ⟨rfl, ahead⟩
  | true =>
    obtain ⟨read, behind⟩ := r32_reads.bigEndian (show dependsOnI < 256 ^ 4 by decide) ahead
    rw [if_pos rfl, if_pos rfl, bigEndian_length]
    exact ⟨read, behind⟩

theorem readTrunOf_run {found : FoundTrack} {moofOffset : Nat} (stored : Stored track)
    (header : found.tfhd = writtenTfhd track moofOffset) (time : found.tfdtDts = startTime track)
    (ahead : file.Ahead (trunBody track offset moof ++ rest)) :
    readTrunOf found file =
      ⟨found.samples ++ foundSamples track (dataBase moofOffset moof offset),
        runOffset (dataBase moofOffset moof offset) track.samples,
        runTime (startTime track) track.durations,
        file.skip (trunBody track offset moof).length⟩ := by
  obtain ⟨valueBound, offsetBit, firstBit, -, -, -, -⟩ := (runFlags track).value_bits
  have lengths : track.durations.length = track.samples.length := durations_length _ _
  unfold trunBody at ahead ⊢
  simp only [append_assoc] at ahead
  obtain ⟨version, ahead⟩ := r8_reads.bigEndian (show 1 < 256 ^ 1 by decide) ahead
  obtain ⟨flags, ahead⟩ := r24_reads.bigEndian valueBound ahead
  obtain ⟨count, ahead⟩ := r32_reads.bigEndian stored.count ahead
  obtain ⟨dataOffset, ahead⟩ := mod_reads r32_reads ahead
  obtain ⟨first, ahead⟩ := firstFlags_eq ahead
  simp only [ByteFile.skip_skip] at flags count dataOffset first ahead
  have start : runStart found file =
      (if (runFlags track).firstFlags then dependsOnI else tfhdFlags,
        ⟨found.samples, dataBase moofOffset moof offset, startTime track,
          file.skip (1 + 3 + 4 + 4 +
            (if (runFlags track).firstFlags then bigEndian 4 dependsOnI else []).length)⟩) := by
    unfold runStart
    rw [version]
    dsimp only
    rw [flags]
    dsimp only
    rw [count, offsetBit, firstBit, header, time]
    dsimp only
    have present : fieldOr true 0 (file.skip (1 + 3 + 4)) = r32 (file.skip (1 + 3 + 4)) := rfl
    rw [present, dataOffset]
    dsimp only
    rw [show (writtenTfhd track moofOffset).flags = tfhdFlags from rfl, first]
    rfl
  rw [readTrunOf_eq, start, version]
  dsimp only
  rw [flags]
  dsimp only
  rw [count]
  dsimp only
  rw [header, readRun_eq track.samples lengths (stored.agrees moofOffset) _ ahead, keyFlags_first]
  dsimp only
  rw [show (writtenTfhd track moofOffset).defaultSampleFlags = defaultFlags track from rfl,
    keyFlags_later, ByteFile.skip_skip]
  unfold foundSamples
  simp only [length_append, bigEndian_length, Nat.add_assoc]

def trunState (track : FragmentTrack) (index offset moof : Nat) (state : FragmentReader) :
    FragmentReader :=
  { state with
    implicitOffset := runOffset (dataBase state.moofOffset moof offset) track.samples
    tracks := state.tracks.modify index fun found =>
      { found with
        samples := found.samples ++ foundSamples track (dataBase state.moofOffset moof offset)
        tfdtDts := runTime (startTime track) track.durations } }

theorem movReadTrun_state {found : FoundTrack} (stored : Stored track)
    (current : state.track = some index) (here : state.tracks[index]? = some found)
    (header : found.tfhd = writtenTfhd track state.moofOffset)
    (time : found.tfdtDts = startTime track)
    (ahead : file.Ahead (trunBody track offset moof ++ rest)) :
    movReadTrun ⟨file, state⟩ = (0, ⟨file.skip (trunBody track offset moof).length,
      trunState track index offset moof state⟩) := by
  have fine := ahead.error
  unfold movReadTrun
  dsimp only
  rw [current]
  dsimp only
  rw [here]
  dsimp only
  rw [readTrunOf_run stored header time ahead]
  unfold storeRun
  dsimp only
  rw [movBufferError_skip fine]
  have stored : state.tracks.modify index (fun other =>
      { other with
        samples := found.samples ++ foundSamples track (dataBase state.moofOffset moof offset)
        tfdtDts := runTime (startTime track) track.durations }) =
      (trunState track index offset moof state).tracks := by
    apply modify_congr
    intro other otherHere
    rw [Option.some.inj (here.symm.trans otherHere)]
  rw [stored]
  unfold trunState
  rw [current]

theorem movWriteTrun_passes {found : FoundTrack} (stored : Stored track)
    (short : 8 + (trunBody track offset moof).length < 2 ^ 32)
    (current : state.track = some index) (here : state.tracks[index]? = some found)
    (header : found.tfhd = writtenTfhd track state.moofOffset)
    (time : found.tfdtDts = startTime track) :
    Passes (fragmentParsers asserts) (tag 't' 'r' 'a' 'f') (movWriteTrun track offset moof) position
      state (trunState track index offset moof state) := by
  change Passes _ _ (boxText (movTag 't' 'r' 'u' 'n') (trunBody track offset moof)) _ _ _
  apply other_passes rfl
  · exact ne_nil_of_length_pos (trunBody_positive track offset moof)
  · exact short
  · decide
  · intro file rest ahead
    rw [fragmentParsers_other, readFragmentBox_trun,
      movReadTrun_state stored current here header time ahead]

/-! ## A track fragment -/

theorem modify_modify {Value : Type} (values : List Value) (index : Nat)
    (first second : Value → Value) :
    (values.modify index first).modify index second =
      values.modify index fun value => second (first value) := by
  apply ext_getElem?
  intro place
  simp only [List.getElem?_modify]
  by_cases here : index = place
  · simp only [here, if_true]
    cases values[place]? <;> rfl
  · simp only [here, if_false]
    cases values[place]? <;> rfl

def trafState (track : FragmentTrack) (index offset moof : Nat) (state : FragmentReader) :
    FragmentReader where
  tracks := state.tracks.modify index (addRun track state.moofOffset offset moof)
  track := some index
  moofOffset := state.moofOffset
  implicitOffset := runOffset (dataBase state.moofOffset moof offset) track.samples

theorem trunState_tfdtState :
    trunState track index offset moof (tfdtState track index (tfhdState track index state)) =
      trafState track index offset moof state := by
  unfold trunState tfdtState tfhdState trafState
  simp only [modify_modify]
  rfl

structure Opened (numbers : List Nat) (state : FragmentReader) : Prop where
  trackIds : state.tracks.map FoundTrack.trackId = numbers
  distinct : numbers.Nodup
  unedited : ∀ found ∈ state.tracks, found.elst = []

variable {numbers : List Nat}

theorem Opened.movFindTrack_eq (opened : Opened numbers state) {trackId : Nat}
    (here : numbers[index]? = some trackId) :
    movFindTrack state.tracks trackId = some index := by
  unfold movFindTrack
  have ids := opened.trackIds
  rw [← ids, List.getElem?_map] at here
  obtain ⟨found, foundHere, foundId⟩ := Option.map_eq_some_iff.mp here
  obtain ⟨inside, value⟩ := List.getElem?_eq_some_iff.mp foundHere
  rw [List.findIdx?_eq_some_iff_getElem]
  refine ⟨inside, by simp [value, foundId], ?_⟩
  intro earlier before
  have distinct := opened.distinct
  rw [← ids] at distinct
  have differ := pairwise_iff_getElem.mp distinct earlier index (by simp; omega) (by simpa) before
  simp only [getElem_map, value, foundId] at differ
  simpa using differ

theorem modify_trackIds {tracks : List FoundTrack} {change : FoundTrack → FoundTrack}
    (same : ∀ found, (change found).trackId = found.trackId) (index : Nat) :
    (tracks.modify index change).map FoundTrack.trackId = tracks.map FoundTrack.trackId := by
  apply ext_getElem?
  intro place
  simp only [List.getElem?_map, List.getElem?_modify]
  cases tracks[place]? with
  | none => rfl
  | some found =>
    by_cases here : index = place
    · simp [here, same]
    · simp [here]

theorem Opened.modify (opened : Opened numbers state) {change : FoundTrack → FoundTrack}
    {other : FragmentReader} (tracks : other.tracks = state.tracks.modify index change)
    (same : ∀ found, (change found).trackId = found.trackId)
    (edits : ∀ found, (change found).elst = found.elst) : Opened numbers other where
  trackIds := by rw [tracks, modify_trackIds same, opened.trackIds]
  distinct := opened.distinct
  unedited found member := by
    rw [tracks] at member
    obtain ⟨place, placeHere⟩ := List.getElem?_of_mem member
    rw [List.getElem?_modify] at placeHere
    cases before : state.tracks[place]? with
    | none => simp [before] at placeHere
    | some earlier =>
      have none := opened.unedited earlier (mem_of_getElem? before)
      by_cases here : index = place
      · simp only [before, here, if_true] at placeHere
        rw [← Option.some.inj placeHere]
        exact (edits earlier).trans none
      · simp only [before, here, if_false] at placeHere
        rw [← Option.some.inj placeHere]
        exact none

theorem Opened.found (opened : Opened numbers state) {trackId : Nat}
    (here : numbers[index]? = some trackId) : ∃ found, state.tracks[index]? = some found := by
  rw [← opened.trackIds, List.getElem?_map] at here
  obtain ⟨found, foundHere, -⟩ := Option.map_eq_some_iff.mp here
  exact ⟨found, foundHere⟩

theorem fmp4WriteTraf_passes (opened : Opened numbers state) (stored : Stored track)
    (number : numbers[index]? = some track.trackId)
    (short : (fmp4WriteTraf track offset moof).length < 2 ^ 32) :
    Passes (fragmentParsers asserts) (tag 'm' 'o' 'o' 'f') (fmp4WriteTraf track offset moof)
      position state (trafState track index offset moof state) := by
  obtain ⟨found, here⟩ := opened.found number
  have afterHeader : Opened numbers (tfhdState track index state) :=
    opened.modify rfl (fun _ => rfl) fun _ => rfl
  have behind : (tfdtState track index (tfhdState track index state)).tracks[index]? =
      some { found with tfhd := writtenTfhd track state.moofOffset, tfdtDts := startTime track } := by
    unfold tfdtState tfhdState
    simp only [modify_modify, List.getElem?_modify, here, if_true]
    rfl
  have lengths : (fmp4WriteTraf track offset moof).length = 8 + ((movWriteTfhd track).length +
      ((movWriteTfdt track).length + (movWriteTrun track offset moof).length)) := by
    unfold fmp4WriteTraf
    rw [boxText_length _ _ rfl, length_append, length_append]
  have run : (movWriteTrun track offset moof).length = 8 + (trunBody track offset moof).length :=
    boxText_length _ _ rfl
  have whole : Passes (fragmentParsers asserts) (tag 't' 'r' 'a' 'f')
      (movWriteTfhd track ++ (movWriteTfdt track ++ movWriteTrun track offset moof)) (position + 8)
      state (trafState track index offset moof state) := by
    rw [← trunState_tfdtState]
    apply (movWriteTfhd_passes stored (opened.movFindTrack_eq number) _).append
    apply (movWriteTfdt_passes rfl afterHeader.unedited _).append
    exact movWriteTrun_passes stored (by omega) rfl behind rfl rfl
  apply default_passes rfl
  · exact ne_nil_of_length_pos (by simp only [length_append]; omega)
  · rw [← boxText_length (movTag 't' 'r' 'a' 'f') _ rfl]
    exact short
  · decide
  · exact whole

/-! ## A movie fragment -/

/-- The state behind the track fragments, from the track `index` on. -/
def trafsState (moof : Nat) : Nat → Nat → List FragmentTrack → FragmentReader → FragmentReader
  | _, _, [], state => state
  | index, offset, track :: tracks, state =>
    trafsState moof (index + 1) (offset + track.bytes) tracks
      (if track.samples = [] then state else trafState track index offset moof state)

theorem Opened.trafState (opened : Opened numbers state) :
    Opened numbers (Mov.trafState track index offset moof state) :=
  opened.modify rfl (fun _ => rfl) fun _ => rfl

theorem writeTrafs_passes (tracks : List FragmentTrack) (opened : Opened numbers state)
    (stored : ∀ track ∈ tracks, Stored track)
    (places : ∀ place track, tracks[place]? = some track →
      numbers[index + place]? = some track.trackId)
    (short : (writeTrafs moof offset tracks).length < 2 ^ 32) :
    Passes (fragmentParsers asserts) (tag 'm' 'o' 'o' 'f') (writeTrafs moof offset tracks) position
      state (trafsState moof index offset tracks state) := by
  induction tracks generalizing index offset state position with
  | nil => exact Passes.nil
  | cons track tracks ih =>
    unfold writeTrafs at short ⊢
    rw [length_append] at short
    have later : ∀ place other, tracks[place]? = some other →
        numbers[index + 1 + place]? = some other.trackId := by
      intro place other here
      rw [Nat.add_assoc, Nat.add_comm 1]
      exact places (place + 1) other here
    have storedLater : ∀ track ∈ tracks, Stored track :=
      (forall_mem_cons.mp stored).2
    unfold trafsState
    by_cases none : track.samples = []
    · simp only [none, if_true, nil_append]
      exact ih opened storedLater later (by omega)
    · simp only [none, if_false] at short ⊢
      have shortFirst : (fmp4WriteTraf track offset moof).length < 2 ^ 32 := by omega
      exact (fmp4WriteTraf_passes opened (stored track mem_cons_self) (places 0 track rfl)
        shortFirst).append (ih opened.trafState storedLater later (by omega))

end CLibs.Mov
