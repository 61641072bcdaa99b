import CLibs.MovFragmentTimes

/-!
# Payloads of fragmented files

The data of a track stands behind the fragment box, the header of the media data
and the data of the tracks before it.  The run stores the distance from the
fragment box in 32 bits, and the reader takes them for a signed number.
-/

namespace CLibs.Mov

open List

variable {asserts : Bool} {head : List UInt8} {handlers : List Handler} {calls : List Fmp4Call}
  {given piece : List Fmp4Call} {fragment : Fragment} {fuel place : Nat}

/-- What `mov_reader_read` gives for a sample. -/
def payload (file : List UInt8) (sample : FoundSample) : List UInt8 :=
  (file.drop sample.offset).take sample.bytes

/-! ## The data of a run -/

theorem runSamples_payload {file : List UInt8} (later key : Bool) (offset : Nat) (time last : Int)
    (packets : List Packet) (data : (packets.map Packet.data).flatten <+: file.drop offset)
    (inside : offset + (packets.map Packet.data).flatten.length < 2 ^ 64) :
    (runSamples later key offset time packets (durations last packets)).map (payload file) =
      packets.map Packet.data := by
  induction packets generalizing key offset time with
  | nil => rfl
  | cons packet packets ih =>
    rw [map_cons, flatten_cons] at data inside
    rw [length_append] at inside
    obtain ⟨rest, whole⟩ := data
    rw [append_assoc] at whole
    have first : (file.drop offset).take packet.data.length = packet.data := by
      rw [← whole]
      exact take_left
    have behind : (packets.map Packet.data).flatten <+:
        file.drop ((offset + packet.data.length) % 2 ^ 64) := by
      rw [Nat.mod_eq_of_lt (by omega), ← drop_drop, ← whole, drop_left]
      exact prefix_append _ _
    have fits : (offset + packet.data.length) % 2 ^ 64 +
        (packets.map Packet.data).flatten.length < 2 ^ 64 := by
      rw [Nat.mod_eq_of_lt (by omega)]
      omega
    cases packets with
    | nil => exact congrArg (fun data => [data]) first
    | cons next packets =>
      rw [durations, runSamples, map_cons, ih _ _ _ behind fits, map_cons]
      exact congrArg (fun data => data :: _) first

/-! ## The data of a track -/

def FragmentTrack.data (track : FragmentTrack) : List UInt8 :=
  (track.samples.map Packet.data).flatten

theorem data_length (track : FragmentTrack) : track.data.length = track.bytes := by
  unfold FragmentTrack.data FragmentTrack.bytes
  rw [length_flatten, map_map]
  rfl

variable {track : FragmentTrack}

theorem mediaData_split {tracks : List FragmentTrack} (here : tracks[place]? = some track) :
    ∃ before after, mediaData tracks = before ++ (track.data ++ after) ∧
      before.length = dataBefore place tracks := by
  induction tracks generalizing place with
  | nil => cases here
  | cons first tracks ih =>
    cases place with
    | zero =>
      rw [← Option.some.inj here]
      exact ⟨[], mediaData tracks, rfl, rfl⟩
    | succ place =>
      obtain ⟨before, after, whole, length⟩ := ih here
      refine ⟨first.data ++ before, after, ?_, ?_⟩
      · change first.data ++ mediaData tracks = _
        rw [whole, append_assoc]
      · rw [length_append, length, data_length]
        rfl

/-! ## The size of the fragment box -/

/-- The bytes that a run stores for every sample. -/
def entrySize (flags : RunFlags) : Nat :=
  (if flags.duration then 4 else 0) + ((if flags.size then 4 else 0) + if flags.offset then 4 else 0)

def trafSize (track : FragmentTrack) : Nat :=
  76 + (if baseMediaDecodeTime track > 2 ^ 31 - 1 then 4 else 0) +
    (if (runFlags track).firstFlags then 4 else 0) +
    track.samples.length * entrySize (runFlags track)

def moofSize (tracks : List FragmentTrack) : Nat :=
  24 + (tracks.map fun track => if track.samples = [] then 0 else trafSize track).sum

theorem runEntry_length (flags : RunFlags) (packet : Packet) (duration : Nat) :
    (runEntry flags packet duration).length = entrySize flags := by
  unfold runEntry entrySize
  rw [length_append, length_append]
  congr 1
  · split
    · exact bigEndian_length _ _
    · rfl
  · congr 1
    · split
      · exact bigEndian_length _ _
      · rfl
    · split
      · exact bigEndian_length _ _
      · rfl

theorem runEntries_size (flags : RunFlags) (packets : List Packet) {durations : List Nat}
    (lengths : durations.length = packets.length) :
    (packets.zipWith (runEntry flags) durations).flatten.length =
      packets.length * entrySize flags := by
  induction packets generalizing durations with
  | nil => simp
  | cons packet packets ih =>
    cases durations with
    | nil => cases lengths
    | cons duration durations =>
      rw [zipWith_cons_cons, flatten_cons, length_append, runEntry_length,
        ih (Nat.succ.inj lengths), length_cons, Nat.succ_mul, Nat.add_comm]

theorem fmp4WriteTraf_size (track : FragmentTrack) (offset moof : Nat) :
    (fmp4WriteTraf track offset moof).length = trafSize track := by
  have entries := runEntries_size (runFlags track) track.samples
    (show track.durations.length = _ from durations_length _ _)
  have first : (if (runFlags track).firstFlags then bigEndian 4 dependsOnI else []).length =
      if (runFlags track).firstFlags then 4 else 0 := by
    split
    · exact bigEndian_length _ _
    · rfl
  have run : (movWriteTrun track offset moof).length = 20 +
      (if (runFlags track).firstFlags then 4 else 0) +
        track.samples.length * entrySize (runFlags track) := by
    change (boxText _ (trunBody track offset moof)).length = _
    rw [boxText_length _ _ rfl]
    unfold trunBody
    simp only [length_append, bigEndian_length, first, entries]
    omega
  have header : (movWriteTfhd track).length = 32 := by
    change (boxText _ (tfhdBody track)).length = _
    rw [boxText_length _ _ rfl, tfhdBody_length]
  have time : (movWriteTfdt track).length =
      16 + if baseMediaDecodeTime track > 2 ^ 31 - 1 then 4 else 0 := by
    change (boxText _ (tfdtBody track)).length = _
    rw [boxText_length _ _ rfl]
    unfold tfdtBody
    by_cases large : baseMediaDecodeTime track > 2 ^ 31 - 1
    · rw [show tfdtVersion track = 1 from if_pos large, if_pos rfl, if_pos large]
      simp only [length_append, bigEndian_length]
    · rw [show tfdtVersion track = 0 from if_neg large, if_neg Nat.zero_ne_one, if_neg large]
      simp only [length_append, bigEndian_length]
  unfold fmp4WriteTraf trafSize
  rw [boxText_length _ _ rfl, length_append, length_append, header, time, run]
  omega

theorem writeTrafs_size (moof offset : Nat) (tracks : List FragmentTrack) :
    (writeTrafs moof offset tracks).length =
      (tracks.map fun track => if track.samples = [] then 0 else trafSize track).sum := by
  induction tracks generalizing offset with
  | nil => rfl
  | cons track tracks ih =>
    rw [writeTrafs, length_append, ih, map_cons, sum_cons]
    congr 1
    split
    · rfl
    · exact fmp4WriteTraf_size track offset moof

theorem Fragment.refsize_eq (fragment : Fragment) : fragment.refsize = moofSize fragment.tracks := by
  unfold Fragment.refsize fmp4WriteMoof movWriteMfhd moofSize
  rw [boxText_length _ _ rfl, length_append, boxText_length _ _ rfl, length_append,
    bigEndian_length, bigEndian_length, writeTrafs_size]
  omega

/-! ## Where the data of a track stands -/

/-- The data of a track lies less than `2 ^ 31` bytes behind the fragment box. -/
def Near (tracks : List FragmentTrack) (place : Nat) : Prop :=
  moofSize tracks + 8 + dataBefore place tracks < 2 ^ 31

theorem mdatHeader_length {mdatSize : Nat} (small : mdatSize < 2 ^ 31) :
    (mdatHeader mdatSize).length = 8 := by
  unfold mdatHeader
  rw [if_pos (by unfold uint32Max; omega), length_append, bigEndian_length]
  rfl

theorem dataBase_near {position moof offset : Nat} (near : moof + offset < 2 ^ 31)
    (inside : position + (moof + offset) < 2 ^ 64) :
    dataBase position moof offset = position + (moof + offset) := by
  have number : int32 ((moof + offset) % 2 ^ 32 : Nat) = ((moof + offset : Nat) : Int) := by
    rw [Nat.mod_eq_of_lt (by omega)]
    unfold int32
    apply Int.bmod_eq_of_le
    · omega
    · omega
  unfold dataBase
  rw [number]
  omega

theorem dataBase_far {position moof offset : Nat} (far : 2 ^ 31 ≤ moof + offset)
    (inside : position + (moof + offset) < 2 ^ 32) :
    2 ^ 63 ≤ dataBase position moof offset := by
  have number : int32 ((moof + offset) % 2 ^ 32 : Nat) = ((moof + offset : Nat) : Int) - 2 ^ 32 := by
    rw [Nat.mod_eq_of_lt (by omega)]
    unfold int32
    rw [Int.bmod_def]
    omega
  unfold dataBase
  rw [number]
  omega

theorem Fragment.text_eq (fragment : Fragment) (small : fragment.mdatSize < 2 ^ 31) :
    ∃ front, fragment.text = front ++ mediaData fragment.tracks ∧
      front.length = fragment.refsize + 8 := by
  refine ⟨fmp4WriteMoof fragment.tracks fragment.number (fragment.refsize + 8) ++
    mdatHeader fragment.mdatSize, ?_, ?_⟩
  · rw [append_assoc]
    rfl
  · rw [length_append, mdatHeader_length small, fmp4WriteMoof_length]
    rfl

theorem Fragment.data_at {front rest : List UInt8} {track : FragmentTrack}
    (small : fragment.mdatSize < 2 ^ 31) (here : fragment.tracks[place]? = some track) :
    track.data <+: (front ++ (fragment.text ++ rest)).drop
        (front.length + (fragment.refsize + 8 + dataBefore place fragment.tracks)) ∧
      front.length + (fragment.refsize + 8 + dataBefore place fragment.tracks) +
        track.data.length ≤ (front ++ (fragment.text ++ rest)).length := by
  obtain ⟨boxes, text, boxesLength⟩ := fragment.text_eq small
  obtain ⟨before, after, media, beforeLength⟩ := mediaData_split here
  have whole : front ++ (fragment.text ++ rest) =
      (front ++ (boxes ++ before)) ++ (track.data ++ (after ++ rest)) := by
    rw [text, media]
    simp only [append_assoc]
  have length : (front ++ (boxes ++ before)).length =
      front.length + (fragment.refsize + 8 + dataBefore place fragment.tracks) := by
    rw [length_append, length_append, boxesLength, beforeLength]
  rw [whole, ← length]
  constructor
  · rw [drop_left]
    exact prefix_append _ _
  · simp only [length_append]
    omega

theorem foundSamples_payload {front rest : List UInt8} (small : fragment.mdatSize < 2 ^ 31)
    (here : fragment.tracks[place]? = some track)
    (near : track.samples ≠ [] → Near fragment.tracks place)
    (fits : (front ++ (fragment.text ++ rest)).length < 2 ^ 63) :
    (foundSamples track (dataBase front.length (fragment.refsize + 8)
        (dataBefore place fragment.tracks))).map (payload (front ++ (fragment.text ++ rest))) =
      track.samples.map Packet.data := by
  by_cases empty : track.samples = []
  · rw [foundSamples_empty empty, empty]
    rfl
  · obtain ⟨data, inside⟩ := @Fragment.data_at fragment place front rest track small here
    have near := near empty
    unfold Near at near
    rw [← fragment.refsize_eq] at near
    unfold foundSamples FragmentTrack.durations
    rw [dataBase_near near (by omega)]
    exact runSamples_payload _ _ _ _ _ _ data (by
      unfold FragmentTrack.data at inside
      omega)

/-! ## The payloads of a file -/

/-- In every fragment with samples of the track its data lie near the fragment box. -/
def AllNear (fragments : List Fragment) (place : Nat) : Prop :=
  ∀ fragment ∈ fragments, ∀ track : FragmentTrack, fragment.tracks[place]? = some track →
    track.samples ≠ [] → Near fragment.tracks place

theorem foundAll_payload (inside : place < handlers.length) {pieces : List (List Fmp4Call)}
    {fragments : List Fragment} (carried : List.Forall₂ (Carries handlers given) pieces fragments)
    (small : ∀ piece ∈ pieces, dataOf piece < 2 ^ 31) (near : AllNear fragments place)
    {front : List UInt8} (fits : (front ++ fragmentsText fragments).length < 2 ^ 63) :
    (foundAll front.length fragments place).map (payload (front ++ fragmentsText fragments)) =
      pieces.flatMap fun piece => (packetsOf place piece).map Packet.data := by
  induction carried generalizing front with
  | nil => rfl
  | @cons piece fragment pieces fragments carries _ ih =>
    obtain ⟨past, track, -, -, holds, here, found⟩ :=
      carries.found (List.getElem?_eq_getElem inside)
    have text : fragmentsText (fragment :: fragments) =
        fragment.text ++ fragmentsText fragments := rfl
    have size : fragment.mdatSize < 2 ^ 31 := by
      rw [carries.mdatSize]
      exact small piece mem_cons_self
    rw [text] at fits ⊢
    have first := foundSamples_payload size here
      (near fragment mem_cons_self track here) fits
    have rest := @ih (forall_mem_cons.mp small).2
      (forall_mem_cons.mp near).2 (front ++ fragment.text)
      (by rw [append_assoc]; exact fits)
    rw [append_assoc, length_append] at rest
    rw [foundAll, map_append, found, first, rest, flatMap_cons, holds.samples]

theorem foundSamples_lost {front rest : List UInt8} {packet : Packet} {packets : List Packet}
    (small : fragment.mdatSize < 2 ^ 31) (here : fragment.tracks[place]? = some track)
    (samples : track.samples = packet :: packets) (far : ¬Near fragment.tracks place)
    (fits : (front ++ (fragment.text ++ rest)).length < 2 ^ 32) :
    ∃ sample, (foundSamples track (dataBase front.length (fragment.refsize + 8)
        (dataBefore place fragment.tracks))).head? = some sample ∧
      payload (front ++ (fragment.text ++ rest)) sample = [] := by
  obtain ⟨-, inside⟩ := @Fragment.data_at fragment place front rest track small here
  unfold Near at far
  rw [← fragment.refsize_eq] at far
  have base := dataBase_far (Nat.le_of_not_lt far) (by omega :
    front.length + (fragment.refsize + 8 + dataBefore place fragment.tracks) < 2 ^ 32)
  have lengths : track.durations.length = track.samples.length := durations_length _ _
  unfold foundSamples
  rw [samples] at lengths ⊢
  cases durations : track.durations with
  | nil =>
    rw [durations] at lengths
    cases lengths
  | cons duration later =>
    refine ⟨_, rfl, ?_⟩
    unfold payload
    rw [drop_eq_nil_of_le (by dsimp only; omega), take_nil]

end CLibs.Mov
