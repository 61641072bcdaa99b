import CLibs.MovFragmentRuns

/-!
# Reading the fragments of a run back

If all sizes fit their fields, the walk over the file returns with the samples of
every fragment.  What is read for the samples of a track agrees with what was
written exactly if it does so in every piece of the calls.
-/

namespace CLibs.Mov

open List

/-! ## Files whose sizes fit -/

/-- The sizes of samples and boxes fit their 32 bits, and the offsets of the file 63 bits. -/
structure Limits (head : List UInt8) (handlers : List Handler) (calls : List Fmp4Call) : Prop where
  sizes : ∀ call ∈ calls, call.data.length < 2 ^ 32
  boxes : 24 + 84 * handlers.length + 12 * calls.length < 2 ^ 32
  file : (head ++ fmp4Fragments (addedTracks handlers) calls).length < 2 ^ 63

variable {asserts : Bool} {head : List UInt8} {handlers : List Handler} {calls : List Fmp4Call}
  {given piece : List Fmp4Call} {fragment : Fragment} {fuel : Nat}

theorem fragmentEntries_length (flags : RunFlags) (packets : List Packet) (durations : List Nat) :
    (packets.zipWith (runEntry flags) durations).flatten.length ≤ 12 * packets.length := by
  induction packets generalizing durations with
  | nil => exact Nat.zero_le _
  | cons packet packets ih =>
    cases durations with
    | nil => exact Nat.zero_le _
    | cons duration durations =>
      have entry : (runEntry flags packet duration).length ≤ 12 := by
        unfold runEntry
        cases flags.duration <;> cases flags.size <;> cases flags.offset <;>
          simp [bigEndian_length]
      rw [zipWith_cons_cons, flatten_cons, length_append, length_cons]
      have rest := ih durations
      omega

theorem fmp4WriteTraf_length_le (track : FragmentTrack) (offset moof : Nat) :
    (fmp4WriteTraf track offset moof).length ≤ 84 + 12 * track.samples.length := by
  have entries := fragmentEntries_length (runFlags track) track.samples track.durations
  have first : (if (runFlags track).firstFlags then bigEndian 4 dependsOnI else []).length ≤ 4 := by
    split
    · exact Nat.le_of_eq (bigEndian_length _ _)
    · exact Nat.zero_le _
  have run : (movWriteTrun track offset moof).length ≤ 24 + 12 * track.samples.length := by
    change (boxText _ (trunBody track offset moof)).length ≤ _
    rw [boxText_length _ _ rfl]
    unfold trunBody
    simp only [length_append, bigEndian_length]
    omega
  have header : (movWriteTfhd track).length = 32 := by
    change (boxText _ (tfhdBody track)).length = _
    rw [boxText_length _ _ rfl, tfhdBody_length]
  have time : (movWriteTfdt track).length ≤ 20 := by
    change (boxText _ (tfdtBody track)).length ≤ _
    rw [boxText_length _ _ rfl]
    unfold tfdtBody
    simp only [length_append, bigEndian_length]
    split
    · simp only [bigEndian_length]
      decide
    · simp only [bigEndian_length]
      decide
  unfold fmp4WriteTraf
  rw [boxText_length _ _ rfl, length_append, length_append]
  omega

theorem writeTrafs_length_le (moof offset : Nat) (tracks : List FragmentTrack) :
    (writeTrafs moof offset tracks).length ≤
      84 * tracks.length + 12 * (allSamples tracks).length := by
  induction tracks generalizing offset with
  | nil => exact Nat.zero_le _
  | cons track tracks ih =>
    have rest := ih (offset + track.bytes)
    have first : (if track.samples = [] then [] else fmp4WriteTraf track offset moof).length ≤
        84 + 12 * track.samples.length := by
      split
      · exact Nat.zero_le _
      · exact fmp4WriteTraf_length_le track offset moof
    unfold allSamples at rest ⊢
    rw [writeTrafs, length_append, flatMap_cons, length_append, length_cons]
    omega

variable {tracks : List FragmentTrack}

theorem Collected.moof {past : List Fmp4Call} (collected : Collected handlers past piece tracks)
    (number moof : Nat) :
    (fmp4WriteMoof tracks number moof).length ≤
      24 + 84 * handlers.length + 12 * piece.length := by
  have trafs := writeTrafs_length_le moof 0 tracks
  have count : (allSamples tracks).length = piece.length := by
    rw [collected.whole.length_eq, length_map]
  rw [collected.length, count] at trafs
  unfold fmp4WriteMoof movWriteMfhd
  rw [boxText_length _ _ rfl, length_append, boxText_length _ _ rfl, length_append,
    bigEndian_length, bigEndian_length]
  omega

theorem packetsOf_length (place : Nat) (calls : List Fmp4Call) :
    (packetsOf place calls).length ≤ calls.length := by
  unfold packetsOf
  rw [length_map]
  exact length_filter_le _ _

theorem Collected.trackIds {past : List Fmp4Call}
    (collected : Collected handlers past piece tracks) :
    tracks.map FragmentTrack.trackId = List.range' 1 handlers.length := by
  apply ext_getElem?
  intro place
  rw [List.getElem?_map]
  by_cases inside : place < handlers.length
  · have here := List.getElem?_eq_getElem (collected.length.symm ▸ inside : place < tracks.length)
    have holds := collected.holds place _ _ here (List.getElem?_eq_getElem inside)
    rw [here, List.getElem?_range' inside, Option.map_some, holds.trackId]
    simp [Nat.add_comm]
  · rw [List.getElem?_eq_none (by rw [collected.length]; omega),
      List.getElem?_eq_none (by simpa using inside)]
    rfl

theorem Carries.fits (carries : Carries handlers given piece fragment)
    (sizes : ∀ call ∈ given, call.data.length < 2 ^ 32)
    (boxes : 24 + 84 * handlers.length + 12 * given.length < 2 ^ 32)
    (large : dataOf piece + 16 < 2 ^ 64) : fragment.Fits := by
  obtain ⟨past, earlier, last, collected⟩ := carries.tracks
  have inside : ∀ call ∈ piece, call ∈ given :=
    fun call member => earlier.subset (last.subset member)
  have count : piece.length ≤ given.length := Nat.le_trans last.length_le earlier.length_le
  have stored : ∀ track ∈ fragment.tracks, Stored track := by
    intro track member
    obtain ⟨place, here⟩ := List.getElem?_of_mem member
    obtain ⟨placeInside, -⟩ := List.getElem?_eq_some_iff.mp here
    rw [collected.length] at placeInside
    have holds := collected.holds place track _ here (List.getElem?_eq_getElem placeInside)
    refine ⟨?_, ?_, ?_⟩
    · rw [holds.trackId]
      omega
    · intro packet packetMem
      rw [holds.samples] at packetMem
      obtain ⟨call, callMem, rfl⟩ := mem_map.mp packetMem
      exact sizes call (inside call (mem_of_mem_filter callMem))
    · rw [holds.samples]
      have fewer := packetsOf_length place piece
      omega
  have moof := collected.moof fragment.number 0
  exact
    { stored := stored
      media := collected.media.trans carries.mdatSize.symm
      positive := by
        rw [carries.mdatSize]
        exact carries.positive
      large := by
        rw [carries.mdatSize]
        exact large
      moof := by
        unfold Fragment.refsize
        omega }

theorem mdatSize_le_text (fragment : Fragment) :
    (mediaData fragment.tracks).length ≤ fragment.text.length := by
  unfold Fragment.text fragmentText
  simp only [length_append]
  omega

theorem text_le_fragmentsText {fragments : List Fragment} (member : fragment ∈ fragments) :
    fragment.text.length ≤ (fragmentsText fragments).length := by
  induction fragments with
  | nil => cases member
  | cons first fragments ih =>
    unfold fragmentsText at ih ⊢
    rw [map_cons, flatten_cons, length_append]
    rcases mem_cons.mp member with rfl | later
    · omega
    · have rest := ih later
      omega

theorem forall₂_mem_right {First Second : Type} {relation : First → Second → Prop}
    {firsts : List First} {seconds : List Second} (related : List.Forall₂ relation firsts seconds)
    {second : Second} (member : second ∈ seconds) : ∃ first ∈ firsts, relation first second := by
  induction related with
  | nil => cases member
  | cons here later ih =>
    rcases mem_cons.mp member with rfl | behind
    · exact ⟨_, mem_cons_self, here⟩
    · obtain ⟨first, firstMem, holds⟩ := ih behind
      exact ⟨first, mem_cons_of_mem _ firstMem, holds⟩

theorem Limits.fitting (limits : Limits head handlers calls) :
    Fitting (List.range' 1 handlers.length) (writtenFragments handlers calls) := by
  intro fragment member
  have carried := writtenFragments_carry handlers calls
  obtain ⟨piece, -, carries⟩ := forall₂_mem_right carried member
  obtain ⟨past, -, -, collected⟩ := carries.tracks
  refine ⟨carries.fits ?_ ?_ ?_, collected.trackIds⟩
  · intro call callMem
    exact limits.sizes call (mem_of_mem_filter callMem)
  · have fewer : (validCalls handlers calls).length ≤ calls.length := length_filter_le _ _
    have boxes := limits.boxes
    omega
  · have file := limits.file
    have data := mdatSize_le_text fragment
    have text := text_le_fragmentsText member
    rw [collected.media] at data
    rw [writtenFragments_text, length_append] at file
    omega

theorem Limits.reads (limits : Limits head handlers calls)
    (enough : (fmp4Fragments (addedTracks handlers) calls).length < fuel) :
    ∃ reader, (readFragments asserts fuel head (fmp4Fragments (addedTracks handlers) calls)
        (addedTracks handlers)).result = .ok (0, reader) ∧
      ∀ place, samplesAt reader.state place =
        foundAll head.length (writtenFragments handlers calls) place := by
  have file := limits.file
  rw [writtenFragments_text] at enough file ⊢
  exact readFragments_result limits.fitting (collecting_start handlers).tracks.trackIds
    nodup_range' file enough

/-! ## The samples of a track in a file -/

def dataBefore (place : Nat) (tracks : List FragmentTrack) : Nat :=
  ((tracks.take place).map FragmentTrack.bytes).sum

variable {place : Nat}

theorem foundAt_eq {track : FragmentTrack} (here : tracks[place]? = some track)
    (moofOffset moof offset : Nat) :
    foundAt moofOffset moof offset tracks place =
      foundSamples track (dataBase moofOffset moof (offset + dataBefore place tracks)) := by
  induction tracks generalizing place offset with
  | nil => cases here
  | cons first tracks ih =>
    cases place with
    | zero =>
      rw [← Option.some.inj here]
      rfl
    | succ place =>
      rw [foundAt, ih here, dataBefore, dataBefore, take_succ_cons, map_cons,
        sum_cons, Nat.add_assoc]

theorem Carries.found (carries : Carries handlers given piece fragment) {handler : Handler}
    (kind : handlers[place]? = some handler) :
    ∃ past track, past <+: given ∧ piece <:+ past ∧ Holds place handler past piece track ∧
      fragment.tracks[place]? = some track ∧
      ∀ position, fragment.found position place =
        foundSamples track (dataBase position (fragment.refsize + 8)
          (dataBefore place fragment.tracks)) := by
  obtain ⟨past, earlier, last, collected⟩ := carries.tracks
  obtain ⟨inside, -⟩ := List.getElem?_eq_some_iff.mp kind
  rw [← collected.length] at inside
  have here := List.getElem?_eq_getElem inside
  refine ⟨past, _, earlier, last, collected.holds place _ handler here kind, here, ?_⟩
  intro position
  unfold Fragment.found
  rw [foundAt_eq here, Nat.zero_add]

theorem packetsOf_flatten (place : Nat) (pieces : List (List Fmp4Call)) :
    packetsOf place pieces.flatten = pieces.flatMap (packetsOf place) := by
  induction pieces with
  | nil => rfl
  | cons piece pieces ih => rw [flatten_cons, packetsOf_append, ih, flatMap_cons]

theorem packetsOf_valid (inside : place < handlers.length) (calls : List Fmp4Call) :
    packetsOf place (validCalls handlers calls) = packetsOf place calls := by
  unfold packetsOf validCalls
  rw [filter_filter]
  congr 1
  apply filter_congr
  intro call _
  by_cases same : call.track = place
  · simp [same, inside]
  · simp [same]

theorem written_initial (handlers : List Handler) (calls piece : List Fmp4Call) :
    ((pieces handlers piece calls).filter fun piece => 0 < dataOf piece).flatten <+:
      (pieces handlers piece calls).flatten := by
  induction calls generalizing piece with
  | nil =>
    unfold pieces
    by_cases waits : 0 < dataOf piece
    · rw [filter_cons, if_pos (by simpa using waits)]
      exact prefix_refl _
    · rw [filter_cons, if_neg (by simpa using waits)]
      exact nil_prefix
  | cons call calls ih =>
    unfold pieces
    split
    · exact ih piece
    · split
      · next cuts =>
          rw [filter_cons, if_pos (by simpa using cuts.2.2), flatten_cons,
            flatten_cons]
          exact (prefix_append_right_inj _).mpr (ih _)
      · exact ih _

theorem packets_initial (inside : place < handlers.length) (calls : List Fmp4Call) :
    (writtenPieces handlers calls).flatMap (packetsOf place) <+: packetsOf place calls := by
  obtain ⟨rest, whole⟩ := written_initial handlers calls []
  rw [pieces_flatten, nil_append] at whole
  rw [← packetsOf_valid inside, ← whole, packetsOf_append, ← packetsOf_flatten]
  exact prefix_append _ _

/-! ## What a track keeps -/

theorem flatMap_inj {Piece Value : Type} {first second : Piece → List Value}
    (lengths : ∀ piece, (first piece).length = (second piece).length) (pieces : List Piece) :
    pieces.flatMap first = pieces.flatMap second ↔ ∀ piece ∈ pieces, first piece = second piece := by
  induction pieces with
  | nil => simp
  | cons piece pieces ih =>
    rw [flatMap_cons, flatMap_cons, forall_mem_cons, ← ih]
    constructor
    · intro same
      exact append_inj same (lengths piece)
    · rintro ⟨here, later⟩
      rw [here, later]

theorem kept_iff_initial {Value : Type} (view : FoundSample → Value) (mark : Packet → Value)
    (samples : List FoundSample) (packets : List Packet) :
    (∀ (index : Nat) (sample : FoundSample), samples[index]? = some sample →
        ∃ packet : Packet, packets[index]? = some packet ∧ view sample = mark packet) ↔
      samples.map view <+: packets.map mark := by
  rw [prefix_iff_getElem?]
  constructor
  · intro kept index inside
    rw [length_map] at inside
    obtain ⟨packet, here, same⟩ := kept index _ (List.getElem?_eq_getElem inside)
    rw [List.getElem?_map, here, getElem_map, same]
    rfl
  · intro isPrefix index sample here
    obtain ⟨inside, rfl⟩ := List.getElem?_eq_some_iff.mp here
    have mark := isPrefix index (by rw [length_map]; exact inside)
    rw [List.getElem?_map, getElem_map] at mark
    obtain ⟨packet, packetHere, same⟩ := Option.map_eq_some_iff.mp mark
    exact ⟨packet, packetHere, same.symm⟩

theorem kept_iff {Value : Type} {view : FoundSample → Value} {mark : Packet → Value}
    {read : List Packet → List Value} (lengths : ∀ packets, (read packets).length = packets.length)
    {place : Nat} (inside : place < handlers.length) {samples : List FoundSample}
    (found : samples.map view =
      (writtenPieces handlers calls).flatMap fun piece => read (packetsOf place piece)) :
    (∀ (index : Nat) (sample : FoundSample), samples[index]? = some sample →
        ∃ packet : Packet, (packetsOf place calls)[index]? = some packet ∧
          view sample = mark packet) ↔
      ∀ piece ∈ writtenPieces handlers calls,
        read (packetsOf place piece) = (packetsOf place piece).map mark := by
  have written := (packets_initial inside calls).map mark
  rw [map_flatMap] at written
  have same : ∀ piece, (read (packetsOf place piece)).length =
      ((packetsOf place piece).map mark).length := by
    intro piece
    rw [lengths, length_map]
  have total : ((writtenPieces handlers calls).flatMap fun piece =>
      read (packetsOf place piece)).length =
      ((writtenPieces handlers calls).flatMap fun piece =>
        (packetsOf place piece).map mark).length := by
    simp only [length_flatMap, same]
  rw [kept_iff_initial, found, ← flatMap_inj same]
  constructor
  · intro isPrefix
    exact (prefix_of_prefix_length_le isPrefix written (Nat.le_of_eq total)).eq_of_length total
  · intro equal
    rw [equal]
    exact written

end CLibs.Mov

/-!
## Key frames of fragmented files

No sample of a run has flags of its own: the first is marked by the flags of the run or, if it has
none, by `tfhd.flags`, which always read as those of a key frame; the others are marked by the
default flags of the track.
-/

namespace CLibs.Mov

open List

variable {asserts : Bool} {head : List UInt8} {handlers : List Handler} {calls : List Fmp4Call}
  {given piece : List Fmp4Call} {fragment : Fragment} {fuel : Nat}

/-! ## The marks -/

def runMarks (key later : Bool) : List Packet → List Bool
  | [] => []
  | _ :: packets => key :: packets.map fun _ => later

/-- The marks that are read for the frames of a fragment of a video track. -/
def marks (packets : List Packet) : List Bool := runMarks true false packets

/-- The first packet and no other is a key frame. -/
def KeyFirst (packets : List Packet) : Prop :=
  ∀ index packet, packets[index]? = some packet → (packet.key = true ↔ index = 0)

theorem keyFirst_iff (packets : List Packet) :
    KeyFirst packets ↔ marks packets = packets.map Packet.key := by
  cases packets with
  | nil => simp [KeyFirst, marks, runMarks]
  | cons first packets =>
    rw [marks, runMarks, map_cons, List.cons.injEq, map_inj_left]
    constructor
    · intro keyFirst
      refine ⟨((keyFirst 0 first rfl).mpr rfl).symm, ?_⟩
      intro packet member
      obtain ⟨index, here⟩ := List.getElem?_of_mem member
      have later := keyFirst (index + 1) packet here
      simpa using later
    · rintro ⟨key, later⟩ index packet here
      cases index with
      | zero =>
        rw [← Option.some.inj here, ← key]
        exact ⟨fun _ => rfl, fun _ => rfl⟩
      | succ index =>
        rw [← later packet (mem_of_getElem? here)]
        simp

theorem runSamples_keys {packets : List Packet} {durations : List Nat}
    (lengths : durations.length = packets.length) (later key : Bool) (offset : Nat) (dts : Int) :
    (runSamples later key offset dts packets durations).map FoundSample.key =
      runMarks key later packets := by
  induction packets generalizing durations key offset dts with
  | nil =>
    rw [length_eq_zero_iff.mp lengths]
    rfl
  | cons packet packets ih =>
    cases durations with
    | nil => cases lengths
    | cons duration durations =>
      rw [runSamples, map_cons, ih (Nat.succ.inj lengths)]
      cases packets with
      | nil => rfl
      | cons following packets => rfl

theorem foundSamples_keys {track : FragmentTrack} (video : track.handler = .video) (base : Nat) :
    (foundSamples track base).map FoundSample.key = marks track.samples := by
  unfold foundSamples
  rw [runSamples_keys (show track.durations.length = _ from durations_length _ _), video]
  rfl

theorem foundAll_keys {place : Nat} (video : handlers[place]? = some .video)
    {pieces : List (List Fmp4Call)} {fragments : List Fragment}
    (carried : List.Forall₂ (Carries handlers given) pieces fragments) (position : Nat) :
    (foundAll position fragments place).map FoundSample.key =
      pieces.flatMap fun piece => marks (packetsOf place piece) := by
  induction carried generalizing position with
  | nil => rfl
  | cons carries _ ih =>
    obtain ⟨past, track, -, -, holds, -, found⟩ := carries.found video
    rw [foundAll, map_append, flatMap_cons, ih, found, foundSamples_keys holds.handler,
      holds.samples]

theorem marks_length (packets : List Packet) : (marks packets).length = packets.length := by
  cases packets with
  | nil => rfl
  | cons packet packets =>
    rw [marks, runMarks, length_cons, length_map, length_cons]

/-- Every sample of a video track is a key frame exactly if its packet was one. -/
def KeysKept (handlers : List Handler) (calls : List Fmp4Call) (state : FragmentReader) : Prop :=
  ∀ place, handlers[place]? = some .video →
    ∀ (index : Nat) (sample : FoundSample), (samplesAt state place)[index]? = some sample →
      ∃ packet : Packet, (packetsOf place calls)[index]? = some packet ∧ sample.key = packet.key

theorem keysKept_iff {state : FragmentReader} {position : Nat}
    (samples : ∀ place, samplesAt state place =
      foundAll position (writtenFragments handlers calls) place) :
    KeysKept handlers calls state ↔ ∀ piece ∈ writtenPieces handlers calls,
      ∀ place, handlers[place]? = some .video → KeyFirst (packetsOf place piece) := by
  have track : ∀ place, handlers[place]? = some .video →
      ((∀ (index : Nat) (sample : FoundSample), (samplesAt state place)[index]? = some sample →
          ∃ packet : Packet, (packetsOf place calls)[index]? = some packet ∧
            sample.key = packet.key) ↔
        ∀ piece ∈ writtenPieces handlers calls, KeyFirst (packetsOf place piece)) := by
    intro place video
    obtain ⟨inside, -⟩ := List.getElem?_eq_some_iff.mp video
    have found := foundAll_keys video (writtenFragments_carry handlers calls) position
    simp only [keyFirst_iff]
    rw [samples]
    exact kept_iff marks_length inside found
  unfold KeysKept
  constructor
  · intro kept piece member place video
    exact (track place video).mp (kept place video) piece member
  · intro first place video
    exact (track place video).mpr fun piece member => first piece member place video

/-- The file is read back, and keeps the marks of the video tracks exactly if every frame is a
key frame just when it is the first of its track in its fragment. -/
theorem fragments_keep_keys (limits : Limits head handlers calls)
    (enough : (fmp4Fragments (addedTracks handlers) calls).length < fuel) :
    ∃ reader, (readFragments asserts fuel head (fmp4Fragments (addedTracks handlers) calls)
        (addedTracks handlers)).result = .ok (0, reader) ∧
      (KeysKept handlers calls reader.state ↔ ∀ piece ∈ writtenPieces handlers calls,
        ∀ place, handlers[place]? = some .video → KeyFirst (packetsOf place piece)) := by
  obtain ⟨reader, result, samples⟩ := @Limits.reads asserts _ _ _ _ limits enough
  exact ⟨reader, result, keysKept_iff samples⟩

def keyedCalls : List Fmp4Call := [⟨0, [1], 0, 0, 1⟩, ⟨0, [2], 40, 40, 0⟩]

theorem keyedCalls_limits : Limits [] [.video] keyedCalls where
  sizes := by decide
  boxes := by decide
  file := by decide +kernel

/-- A key frame and a frame behind it that is none. -/
theorem keyedCalls_keep_keys : ∃ reader,
    (readFragments true 200 [] (fmp4Fragments (addedTracks [.video]) keyedCalls)
        (addedTracks [.video])).result = .ok (0, reader) ∧
      (KeysKept [.video] keyedCalls reader.state ↔
        ∀ piece ∈ writtenPieces [.video] keyedCalls,
          ∀ place, [Handler.video][place]? = some .video → KeyFirst (packetsOf place piece)) :=
  fragments_keep_keys keyedCalls_limits (by decide +kernel)

/-- A stream that starts with a frame that is no key frame. -/
def unkeyedCalls : List Fmp4Call := [⟨0, [1], 0, 0, 0⟩]

theorem unkeyedCalls_limits : Limits [] [.video] unkeyedCalls where
  sizes := by decide
  boxes := by decide
  file := by decide

/-- Its only sample is read as a key frame. -/
theorem unkeyedCalls_lose_key : ∃ reader,
    (readFragments true 200 [] (fmp4Fragments (addedTracks [.video]) unkeyedCalls)
        (addedTracks [.video])).result = .ok (0, reader) ∧
      ¬KeysKept [.video] unkeyedCalls reader.state := by
  obtain ⟨reader, result, samples⟩ := @Limits.reads true _ _ _ 200 unkeyedCalls_limits (by decide)
  refine ⟨reader, result, ?_⟩
  rw [keysKept_iff samples]
  intro first
  have written : unkeyedCalls ∈ writtenPieces [.video] unkeyedCalls := by
    simp [writtenPieces, pieces, unkeyedCalls, dataOf, Fmp4Call.packet, Packet.key]
  have key := first unkeyedCalls written 0 rfl 0 _ rfl
  exact absurd (key.mpr rfl) (by decide)

end CLibs.Mov
