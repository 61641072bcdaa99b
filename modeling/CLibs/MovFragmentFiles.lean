import CLibs.MovBoxTermination
import CLibs.MovFragmentPassing

/-!
# Files of movie fragments

The calls of a run leave a list of fragments in the file.  The samples that were
given for a track are those of its fragments, one after the other, and those that
wait; the walk over the file adds the samples of every fragment to the tracks.
-/

namespace CLibs.Mov

open List

variable {asserts : Bool} {state : FragmentReader} {index offset moof position : Nat}

/-! ## Fragments -/

structure Fragment where
  tracks : List FragmentTrack
  number : Nat
  mdatSize : Nat

def Fragment.text (fragment : Fragment) : List UInt8 :=
  fragmentText fragment.tracks fragment.number fragment.mdatSize

/-- The size of the fragment box, as the first writing finds it. -/
def Fragment.refsize (fragment : Fragment) : Nat :=
  (fmp4WriteMoof fragment.tracks fragment.number 0).length

structure Fragment.Fits (fragment : Fragment) : Prop where
  stored : ∀ track ∈ fragment.tracks, Stored track
  media : (mediaData fragment.tracks).length = fragment.mdatSize
  positive : 0 < fragment.mdatSize
  large : fragment.mdatSize + 16 < 2 ^ 64
  moof : fragment.refsize < 2 ^ 32

/-! ### Lengths -/

theorem movWriteTrun_length (track : FragmentTrack) (offset moof : Nat) :
    (movWriteTrun track offset moof).length = (movWriteTrun track offset 0).length := by
  unfold movWriteTrun
  rw [boxText_length _ _ rfl, boxText_length _ _ rfl]
  simp only [length_append, bigEndian_length]

theorem fmp4WriteTraf_length (track : FragmentTrack) (offset moof : Nat) :
    (fmp4WriteTraf track offset moof).length = (fmp4WriteTraf track offset 0).length := by
  unfold fmp4WriteTraf
  rw [boxText_length _ _ rfl, boxText_length _ _ rfl]
  simp only [length_append, movWriteTrun_length track offset moof]

theorem writeTrafs_length (moof : Nat) (tracks : List FragmentTrack) (offset : Nat) :
    (writeTrafs moof offset tracks).length = (writeTrafs 0 offset tracks).length := by
  induction tracks generalizing offset with
  | nil => rfl
  | cons track tracks ih =>
    unfold writeTrafs
    rw [length_append, length_append, ih]
    split
    · rfl
    · rw [fmp4WriteTraf_length]

theorem fmp4WriteMoof_length (tracks : List FragmentTrack) (number moof : Nat) :
    (fmp4WriteMoof tracks number moof).length = (fmp4WriteMoof tracks number 0).length := by
  unfold fmp4WriteMoof
  rw [boxText_length _ _ rfl, boxText_length _ _ rfl, length_append, length_append,
    writeTrafs_length]

/-! ### The walk over a fragment -/

variable {tracks : List FragmentTrack}

theorem mdat_headed {mdatSize : Nat} (media : (mediaData tracks).length = mdatSize)
    (positive : 0 < mdatSize) (large : mdatSize + 16 < 2 ^ 64) :
    ∃ header, Headed (mdatHeader mdatSize ++ mediaData tracks) header
      (bigValue (movTag 'm' 'd' 'a' 't')) := by
  have filled : mediaData tracks ≠ [] := ne_nil_of_length_pos (by omega)
  unfold mdatHeader
  split
  · next small =>
      unfold uint32Max at small
      refine ⟨8, ?_⟩
      have text : bigEndian 4 (mdatSize % 2 ^ 32 + 8) ++ movTag 'm' 'd' 'a' 't' ++ mediaData tracks =
          boxText (movTag 'm' 'd' 'a' 't') (mediaData tracks) := by
        unfold boxText
        rw [append_assoc, media, Nat.mod_eq_of_lt (by omega), Nat.add_comm]
      rw [text]
      exact boxText_headed rfl filled (by omega)
  · refine ⟨16, ?_⟩
    have text : bigEndian 4 1 ++ (movTag 'm' 'd' 'a' 't' ++ bigEndian 8 (mdatSize + 16)) ++
        mediaData tracks = bigEndian 4 1 ++ (movTag 'm' 'd' 'a' 't' ++
          (bigEndian 8 (16 + (mediaData tracks).length) ++ mediaData tracks)) := by
      rw [append_assoc, append_assoc, media, Nat.add_comm mdatSize]
    rw [text]
    exact largeBox_headed rfl filled (by omega)

def Fragment.behind (fragment : Fragment) (position : Nat) (state : FragmentReader) :
    FragmentReader :=
  trafsState (fragment.refsize + 8) 0 0 fragment.tracks
    { state with moofOffset := position, implicitOffset := position }

variable {numbers : List Nat}

theorem Fragment.Fits.passes {fragment : Fragment} (fits : fragment.Fits)
    (opened : Opened numbers state) (tracks : fragment.tracks.map FragmentTrack.trackId = numbers) :
    Passes (fragmentParsers asserts) movRoot fragment.text position state
      (fragment.behind position state) := by
  have moofLength := fmp4WriteMoof_length fragment.tracks fragment.number (fragment.refsize + 8)
  have short := fits.moof
  unfold Fragment.refsize at short
  rw [← moofLength] at short
  have body : 8 + (movWriteMfhd fragment.number ++
      writeTrafs (fragment.refsize + 8) 0 fragment.tracks).length < 2 ^ 32 := by
    rw [← boxText_length (movTag 'm' 'o' 'o' 'f') _ rfl]
    exact short
  have places : ∀ place track, fragment.tracks[place]? = some track →
      numbers[0 + place]? = some track.trackId := by
    intro place track here
    rw [← tracks, Nat.zero_add, List.getElem?_map, here]
    rfl
  have reopened : Opened numbers
      { state with moofOffset := position, implicitOffset := position } :=
    ⟨opened.trackIds, opened.distinct, opened.unedited⟩
  obtain ⟨header, headed⟩ := mdat_headed fits.media fits.positive fits.large
  unfold Fragment.text fragmentText
  apply Passes.append
  · unfold fmp4WriteMoof
    apply moof_passes rfl
    · exact ne_nil_of_length_pos (by
        rw [length_append, movWriteMfhd, boxText_length _ _ rfl]
        omega)
    · exact body
    · decide
    · apply (movWriteMfhd_passes _ _).append
      apply writeTrafs_passes fragment.tracks reopened fits.stored places
      rw [length_append] at body
      exact Nat.lt_of_le_of_lt (Nat.le_add_left _ _) (by omega : 8 + (movWriteMfhd fragment.number).length +
        (writeTrafs (fragment.refsize + 8) 0 fragment.tracks).length < 2 ^ 32)
  · exact mdat_passes headed (by decide)

/-! ## The samples of a track -/

/-- The samples that the reader has found for a track. -/
def samplesAt (state : FragmentReader) (place : Nat) : List FoundSample :=
  ((state.tracks[place]?).map FoundTrack.samples).getD []

/-- What the track fragments from `offset` on give for a track. -/
def foundAt (moofOffset moof : Nat) : Nat → List FragmentTrack → Nat → List FoundSample
  | _, [], _ => []
  | offset, track :: _, 0 => foundSamples track (dataBase moofOffset moof offset)
  | offset, track :: tracks, place + 1 =>
    foundAt moofOffset moof (offset + track.bytes) tracks place

theorem trafState_samplesAt {track : FragmentTrack} (inside : index < state.tracks.length)
    (place : Nat) :
    samplesAt (trafState track index offset moof state) place =
      samplesAt state place ++
        if index = place then foundSamples track (dataBase state.moofOffset moof offset) else [] := by
  unfold samplesAt trafState
  dsimp only
  rw [List.getElem?_modify]
  by_cases here : index = place
  · rw [if_pos here, ← here, List.getElem?_eq_getElem inside]
    simp [addRun]
  · simp only [here, if_false, append_nil]
    cases state.tracks[place]? <;> rfl

theorem foundSamples_empty {track : FragmentTrack} (none : track.samples = []) (base : Nat) :
    foundSamples track base = [] := by
  unfold foundSamples
  rw [none]
  rfl

theorem trafsState_samplesAt (tracks : List FragmentTrack)
    (inside : index + tracks.length ≤ state.tracks.length) (place : Nat) :
    samplesAt (trafsState moof index offset tracks state) place =
      samplesAt state place ++
        if index ≤ place then foundAt state.moofOffset moof offset tracks (place - index) else [] := by
  induction tracks generalizing index offset state with
  | nil => simp [trafsState, foundAt]
  | cons track tracks ih =>
    rw [length_cons] at inside
    have first : ∀ next : FragmentReader,
        (next = if track.samples = [] then state else trafState track index offset moof state) →
        next.tracks.length = state.tracks.length ∧ next.moofOffset = state.moofOffset ∧
          samplesAt next place = samplesAt state place ++
            if index = place then foundSamples track (dataBase state.moofOffset moof offset)
            else [] := by
      rintro next rfl
      by_cases none : track.samples = []
      · rw [if_pos none, foundSamples_empty none]
        simp
      · rw [if_neg none]
        exact ⟨length_modify _ _ _, rfl, trafState_samplesAt (by omega) place⟩
    obtain ⟨length, sameOffset, samples⟩ := first _ rfl
    unfold trafsState
    rw [ih (by omega), samples, sameOffset, append_assoc]
    congr 1
    rcases Nat.lt_trichotomy place index with before | here | behind
    · rw [if_neg (by omega), if_neg (by omega), if_neg (by omega), append_nil]
    · rw [if_pos here.symm, if_neg (by omega), if_pos (by omega), here, Nat.sub_self,
        append_nil]
      rfl
    · rw [if_neg (by omega), if_pos (by omega), if_pos (by omega), nil_append]
      obtain ⟨distance, rfl⟩ := Nat.exists_eq_add_of_lt behind
      rw [show index + distance + 1 - index = distance + 1 by omega,
        show index + distance + 1 - (index + 1) = distance by omega]
      rfl

def Fragment.found (fragment : Fragment) (position place : Nat) : List FoundSample :=
  foundAt position (fragment.refsize + 8) 0 fragment.tracks place

theorem Fragment.behind_samplesAt {fragment : Fragment}
    (inside : fragment.tracks.length ≤ state.tracks.length) (place : Nat) :
    samplesAt (fragment.behind position state) place =
      samplesAt state place ++ fragment.found position place := by
  unfold Fragment.behind Fragment.found
  rw [trafsState_samplesAt fragment.tracks (by simpa using inside), if_pos (Nat.zero_le place)]
  rfl

theorem Opened.trafsState (opened : Opened numbers state) (tracks : List FragmentTrack) :
    Opened numbers (Mov.trafsState moof index offset tracks state) := by
  induction tracks generalizing index offset state with
  | nil => exact opened
  | cons track tracks ih =>
    unfold Mov.trafsState
    apply ih
    split
    · exact opened
    · exact opened.trafState

theorem Opened.behind {numbers : List Nat} (opened : Opened numbers state) (fragment : Fragment) :
    Opened numbers (fragment.behind position state) := by
  apply Opened.trafsState
  exact ⟨opened.trackIds, opened.distinct, opened.unedited⟩

/-! ## All the fragments of a file -/

def fragmentsText (fragments : List Fragment) : List UInt8 :=
  (fragments.map Fragment.text).flatten

def behindAll : Nat → List Fragment → FragmentReader → FragmentReader
  | _, [], state => state
  | position, fragment :: fragments, state =>
    behindAll (position + fragment.text.length) fragments (fragment.behind position state)

def foundAll : Nat → List Fragment → Nat → List FoundSample
  | _, [], _ => []
  | position, fragment :: fragments, place =>
    fragment.found position place ++
      foundAll (position + fragment.text.length) fragments place

def Fitting (numbers : List Nat) (fragments : List Fragment) : Prop :=
  ∀ fragment ∈ fragments, fragment.Fits ∧ fragment.tracks.map FragmentTrack.trackId = numbers

theorem fragments_pass {numbers : List Nat} {fragments : List Fragment}
    (fitting : Fitting numbers fragments) (opened : Opened numbers state) :
    Passes (fragmentParsers asserts) movRoot (fragmentsText fragments) position state
        (behindAll position fragments state) ∧
      ∀ place, samplesAt (behindAll position fragments state) place =
        samplesAt state place ++ foundAll position fragments place := by
  induction fragments generalizing position state with
  | nil => exact ⟨Passes.nil, fun place => (append_nil _).symm⟩
  | cons fragment fragments ih =>
    obtain ⟨fits, tracks⟩ := fitting fragment mem_cons_self
    have later : Fitting numbers fragments :=
      (forall_mem_cons.mp fitting).2
    have inside : fragment.tracks.length ≤ state.tracks.length := by
      have lengths := congrArg List.length (tracks.trans opened.trackIds.symm)
      rw [length_map, length_map] at lengths
      omega
    have behind : Opened numbers (fragment.behind position state) := opened.behind fragment
    have rest := @ih (fragment.behind position state) (position + fragment.text.length) later behind
    constructor
    · exact (fits.passes opened tracks).append rest.1
    · intro place
      unfold behindAll foundAll
      rw [rest.2, Fragment.behind_samplesAt inside, append_assoc]

theorem readBoxes_end {State : Type} {parsers : Parsers State} {fuel bytes : Nat} {parent : Box}
    {file : ByteFile} {state : State} (room : (bytes + 8) % 2 ^ 64 < parent.size)
    (fine : file.error = false) (atEnd : file.bytes.length ≤ file.position) :
    ∃ last, (readBoxes parsers (fuel + 1) parent bytes ⟨file, state⟩).result =
      .ok (0, ⟨last, state⟩) := by
  refine ⟨(readPlace file).2.2, ?_⟩
  rw [readBoxes, if_pos ⟨room, fine⟩]
  unfold passPlace
  rw [if_pos (readPlace_end atEnd)]
  rfl

theorem opened_start (trackIds : tracks.map FragmentTrack.trackId = numbers)
    (distinct : numbers.Nodup) :
    Opened numbers ⟨tracks.map openedTrack, none, 0, 0⟩ where
  trackIds := by
    rw [← trackIds, map_map]
    rfl
  distinct := distinct
  unedited found member := by
    obtain ⟨track, -, rfl⟩ := mem_map.mp member
    rfl

/-- The reader finds every sample of every fragment. -/
theorem readFragments_result {fragments : List Fragment} {head : List UInt8} {fuel : Nat}
    (fitting : Fitting numbers fragments) (trackIds : tracks.map FragmentTrack.trackId = numbers)
    (distinct : numbers.Nodup) (small : (head ++ fragmentsText fragments).length < 2 ^ 63)
    (enough : (fragmentsText fragments).length < fuel) :
    ∃ reader, (readFragments asserts fuel head (fragmentsText fragments) tracks).result =
        .ok (0, reader) ∧
      ∀ place, samplesAt reader.state place = foundAll head.length fragments place := by
  have opened := opened_start trackIds distinct
  obtain ⟨passes, samples⟩ :=
    @fragments_pass asserts _ head.length numbers fragments fitting opened
  have ahead : ByteFile.Ahead ⟨head ++ fragmentsText fragments, head.length, false⟩
      (fragmentsText fragments ++ []) := by
    rw [append_nil]
    refine ⟨?_, drop_left, rfl⟩
    rw [length_append]
    exact Nat.le_add_right _ _
  have total : (head ++ fragmentsText fragments).length =
      head.length + (fragmentsText fragments).length := length_append
  obtain ⟨left, used, result⟩ := passes _ [] fuel ⟨uint64Max, movRoot⟩ head.length rfl rfl ahead
    small enough (by unfold uint64Max; dsimp only; omega) (by unfold uint64Max; dsimp only; omega)
  cases left with
  | zero => omega
  | succ left =>
    obtain ⟨last, ended⟩ := @readBoxes_end FragmentReader (fragmentParsers asserts) left
      (head.length + (fragmentsText fragments).length) ⟨uint64Max, movRoot⟩
      (ByteFile.skip ⟨head ++ fragmentsText fragments, head.length, false⟩
        (fragmentsText fragments).length)
      (behindAll head.length fragments ⟨tracks.map openedTrack, none, 0, 0⟩)
      (by unfold uint64Max; dsimp only; omega) rfl (Nat.le_of_eq total)
    refine ⟨⟨last, _⟩, result.trans ended, ?_⟩
    intro place
    dsimp only
    rw [samples]
    unfold samplesAt
    rw [List.getElem?_map]
    cases tracks[place]? <;> rfl

end CLibs.Mov
