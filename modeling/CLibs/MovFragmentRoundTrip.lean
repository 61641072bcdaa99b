import CLibs.MovFragmentPayloads

/-!
# Fragmented files are read back

The samples of a track come back in their order, with their payloads, their
composition offsets and, up to one shift, their decoding times.
-/

namespace CLibs.Mov

open List

variable {asserts : Bool} {head : List UInt8} {handlers : List Handler} {calls : List Fmp4Call}
  {given piece : List Fmp4Call} {fragment : Fragment} {fuel place : Nat}

/-- Calls whose times and sizes are in the range of the format: `small` says that the scaling of
the times does not overflow. -/
structure Regular (handlers : List Handler) (calls : List Fmp4Call) : Prop where
  timely : Timely calls
  small : ∀ call ∈ calls, SmallTime call.pts
  gaps : ∀ place, (callsOf place calls).IsChain fun call next => next.dts - call.dts < 2 ^ 31
  composition : ∀ call ∈ calls, -(2 ^ 31) < call.pts - call.dts ∧ call.pts - call.dts < 2 ^ 31
  sizes : ∀ call ∈ calls, call.data ≠ []
  media : ∀ piece ∈ writtenPieces handlers calls, dataOf piece < 2 ^ 31

/-- A sample is read as it was written, up to a shift of the decoding times. -/
structure Restored (file : List UInt8) (shift : Int) (sample : FoundSample) (call : Fmp4Call) :
    Prop where
  payload : payload file sample = call.data
  dts : sample.dts = call.dts - shift
  composition : sample.pts - sample.dts = call.pts - call.dts

/-- Each track has the samples that were written to it, with their times moved by one shift. -/
def TracksRestored (handlers : List Handler) (calls : List Fmp4Call) (file : List UInt8)
    (state : FragmentReader) : Prop :=
  ∀ place < handlers.length, ∃ shift,
    List.Forall₂ (Restored file shift) (samplesAt state place) (callsOf place calls)

/-! ## Every sample is written -/

theorem data_empty {calls : List Fmp4Call} (sizes : ∀ call ∈ calls, call.data ≠ [])
    (none : ¬0 < dataOf calls) : calls = [] := by
  cases calls with
  | nil => rfl
  | cons call calls =>
    have positive := length_pos_iff.mpr (sizes call mem_cons_self)
    unfold dataOf at none
    rw [map_cons, sum_cons] at none
    omega

theorem filter_flatten {Value : Type} {keep : List Value → Bool} {lists : List (List Value)}
    (empty : ∀ list ∈ lists, keep list = false → list = []) :
    (lists.filter keep).flatten = lists.flatten := by
  induction lists with
  | nil => rfl
  | cons list lists ih =>
    have rest := ih (forall_mem_cons.mp empty).2
    cases kept : keep list with
    | true => rw [filter_cons_of_pos kept, flatten_cons, flatten_cons, rest]
    | false =>
      rw [filter_cons_of_neg (by simp [kept]), rest, flatten_cons,
        empty list mem_cons_self kept, nil_append]

theorem Regular.written (regular : Regular handlers calls) (inside : place < handlers.length) :
    (writtenPieces handlers calls).flatMap (packetsOf place) = packetsOf place calls := by
  have all : (writtenPieces handlers calls).flatten = validCalls handlers calls := by
    unfold writtenPieces
    rw [filter_flatten, pieces_flatten, nil_append]
    intro piece member unwritten
    apply data_empty
    · intro call callMem
      have whole := (sublist_flatten_of_mem member).subset callMem
      rw [pieces_flatten, nil_append] at whole
      exact regular.sizes call (mem_of_mem_filter whole)
    · simpa using unwritten
  rw [← packetsOf_flatten, all, packetsOf_valid inside]

theorem mem_infix_flatten {Value : Type} {list : List Value} {lists : List (List Value)}
    (member : list ∈ lists) : list <:+: lists.flatten := by
  obtain ⟨before, after, rfl⟩ := append_of_mem member
  refine ⟨before.flatten, after.flatten, ?_⟩
  rw [flatten_append, flatten_cons, append_assoc]

theorem Regular.close (regular : Regular handlers calls) (inside : place < handlers.length)
    (member : piece ∈ writtenPieces handlers calls) : Close (packetsOf place piece) := by
  have whole : (packetsOf place calls).IsChain fun packet next =>
      next.dts - packet.dts < 2 ^ 32 := by
    unfold packetsOf
    rw [isChain_map]
    apply (regular.gaps place).imp_of_mem_imp
    intro call next callMem nextMem near
    rw [regular.timely.scaled_eq (mem_of_mem_filter callMem),
      regular.timely.scaled_eq (mem_of_mem_filter nextMem)]
    omega
  have part : packetsOf place piece <:+: packetsOf place calls := by
    rw [← regular.written inside]
    exact mem_infix_flatten (mem_map_of_mem member)
  exact whole.infix part

/-! ## Composition offsets -/

/-- The presentation time is the decoding time with the stored offset. -/
def Composed (sample : FoundSample) (packet : Packet) : Prop :=
  sample.pts = int64 (sample.dts + int32 (packet.pts - packet.dts))

theorem runSamples_composed (later key : Bool) (offset : Nat) (time : Int) (packets : List Packet)
    {durations : List Nat} (lengths : durations.length = packets.length) :
    List.Forall₂ Composed (runSamples later key offset time packets durations) packets := by
  induction packets generalizing durations key offset time with
  | nil =>
    rw [length_eq_zero_iff.mp lengths]
    exact .nil
  | cons packet packets ih =>
    cases durations with
    | nil => cases lengths
    | cons duration durations => exact .cons rfl (ih _ _ _ (Nat.succ.inj lengths))

theorem foundAll_composed (inside : place < handlers.length) {pieces : List (List Fmp4Call)}
    {fragments : List Fragment} (carried : List.Forall₂ (Carries handlers given) pieces fragments)
    (position : Nat) :
    List.Forall₂ Composed (foundAll position fragments place)
      (pieces.flatMap (packetsOf place)) := by
  induction carried generalizing position with
  | nil => exact .nil
  | @cons piece fragment _ _ carries _ ih =>
    obtain ⟨past, track, -, -, holds, -, found⟩ :=
      carries.found (List.getElem?_eq_getElem inside)
    rw [foundAll, flatMap_cons, found, ← holds.samples]
    exact rel_append (runSamples_composed _ _ _ _ _ (durations_length _ _)) (ih _)

theorem Regular.composition_eq (regular : Regular handlers calls) {call : Fmp4Call}
    (member : call ∈ calls) {sample : FoundSample} (composed : Composed sample call.packet)
    {shift : Int} (shiftSmall : SmallTime shift) (dts : sample.dts = call.dts - shift) :
    sample.pts - sample.dts = call.pts - call.dts := by
  have small := regular.timely.small call member
  have smallPts := regular.small call member
  have offset := regular.composition call member
  unfold SmallTime at smallPts shiftSmall
  have pts : call.packet.pts = call.pts := by
    change scaled call.pts = call.pts
    have fits : int64 (call.pts * 1000) = call.pts * 1000 := by
      unfold int64
      apply Int.bmod_eq_of_le
      · omega
      · omega
    rw [scaled, fits, Int.mul_tdiv_cancel _ (by decide)]
  have stored : int32 (call.pts - call.dts) = call.pts - call.dts := by
    unfold int32
    apply Int.bmod_eq_of_le
    · omega
    · omega
  unfold Composed at composed
  rw [pts, regular.timely.scaled_eq member, stored, dts, int64_small (by omega) (by omega)]
    at composed
  omega

theorem Regular.firstDts_small (regular : Regular handlers calls) {call : Fmp4Call}
    (member : call ∈ callsOf place calls) : SmallTime (firstDts place calls) := by
  obtain ⟨first, rest, every⟩ := exists_cons_of_ne_nil (ne_nil_of_mem member)
  have firstMem : first ∈ callsOf place calls := by
    rw [every]
    exact mem_cons_self
  rw [firstDts_call regular.timely (by rw [every]; rfl : (callsOf place calls)[0]? = some first)]
  exact regular.timely.small first (mem_of_mem_filter firstMem)

/-! ## The file -/

theorem Regular.restored (regular : Regular handlers calls) (inside : place < handlers.length)
    (fits : (head ++ fragmentsText (writtenFragments handlers calls)).length < 2 ^ 63)
    (near : AllNear (writtenFragments handlers calls) place) :
    List.Forall₂ (Restored (head ++ fragmentsText (writtenFragments handlers calls))
        (firstDts place calls))
      (foundAll head.length (writtenFragments handlers calls) place) (callsOf place calls) := by
  have carried := writtenFragments_carry handlers calls
  have payloads := foundAll_payload inside carried regular.media near fits
  rw [← map_flatMap, regular.written inside] at payloads
  have times := (timesKept_iff regular.timely inside head.length).mpr
    fun piece member => regular.close inside member
  have composed := foundAll_composed inside carried head.length
  rw [regular.written inside] at composed
  have lengths : (foundAll head.length (writtenFragments handlers calls) place).length =
      (callsOf place calls).length := by
    rw [composed.length_eq, packetsOf, length_map]
    rfl
  rw [forall₂_iff_get]
  refine ⟨lengths, ?_⟩
  intro index sampleInside callInside
  change Restored _ _ (foundAll head.length (writtenFragments handlers calls) place)[index]
    (callsOf place calls)[index]
  have sampleHere := List.getElem?_eq_getElem sampleInside
  obtain ⟨packetHere, member⟩ := callsOf_packet (List.getElem?_eq_getElem callInside)
  have dts : (foundAll head.length (writtenFragments handlers calls) place)[index].dts =
      (callsOf place calls)[index].dts - firstDts place calls := by
    obtain ⟨packet, here, time⟩ := times index _ sampleHere
    rw [packetHere] at here
    rw [time, ← Option.some.inj here, regular.timely.scaled_eq member]
  refine ⟨?_, dts, ?_⟩
  · have same := congrArg (fun list : List (List UInt8) => list[index]?) payloads
    rw [List.getElem?_map, List.getElem?_map, sampleHere, packetHere] at same
    exact Option.some.inj same
  · obtain ⟨packetInside, packetEq⟩ := List.getElem?_eq_some_iff.mp packetHere
    have relation : Composed (foundAll head.length (writtenFragments handlers calls) place)[index]
        (packetsOf place calls)[index] :=
      (forall₂_iff_get.mp composed).2 index sampleInside packetInside
    rw [packetEq] at relation
    exact regular.composition_eq member relation
      (regular.firstDts_small (getElem_mem callInside)) dts

theorem foundAll_lost (inside : place < handlers.length) {pieces : List (List Fmp4Call)}
    {fragments : List Fragment} (carried : List.Forall₂ (Carries handlers given) pieces fragments)
    (small : ∀ piece ∈ pieces, dataOf piece < 2 ^ 31) (far : ¬AllNear fragments place)
    {front : List UInt8} (fits : (front ++ fragmentsText fragments).length < 2 ^ 32) :
    ∃ sample ∈ foundAll front.length fragments place,
      payload (front ++ fragmentsText fragments) sample = [] := by
  induction carried generalizing front with
  | nil =>
    exact absurd (fun fragment member => absurd member not_mem_nil) far
  | @cons piece fragment pieces fragments carries _ ih =>
    obtain ⟨past, track, -, -, holds, here, found⟩ :=
      carries.found (List.getElem?_eq_getElem inside)
    have text : fragmentsText (fragment :: fragments) =
        fragment.text ++ fragmentsText fragments := rfl
    have size : fragment.mdatSize < 2 ^ 31 := by
      rw [carries.mdatSize]
      exact small piece mem_cons_self
    rw [text] at fits ⊢
    by_cases nearHere : track.samples ≠ [] → Near fragment.tracks place
    · have later : ¬AllNear fragments place := by
        intro near
        apply far
        intro other member otherTrack otherHere filled
        rcases mem_cons.mp member with rfl | behind
        · rw [Option.some.inj (here.symm.trans otherHere)] at nearHere
          exact nearHere filled
        · exact near other behind otherTrack otherHere filled
      obtain ⟨sample, member, lost⟩ := @ih
        (forall_mem_cons.mp small).2 later
        (front ++ fragment.text) (by rw [append_assoc]; exact fits)
      rw [length_append] at member
      rw [append_assoc] at lost
      exact ⟨sample, mem_append_right _ member, lost⟩
    · obtain ⟨filled, farHere⟩ := Classical.not_imp.mp nearHere
      obtain ⟨packet, packets, samples⟩ := exists_cons_of_ne_nil filled
      obtain ⟨sample, first, lost⟩ := foundSamples_lost size here samples farHere fits
      refine ⟨sample, mem_append_left _ ?_, lost⟩
      rw [found]
      exact mem_of_mem_head? first

theorem forall₂_mem_left {First Second : Type} {relation : First → Second → Prop}
    {firsts : List First} {seconds : List Second} (related : List.Forall₂ relation firsts seconds)
    {first : First} (member : first ∈ firsts) : ∃ second ∈ seconds, relation first second :=
  forall₂_mem_right related.flip member

theorem TracksRestored.near {state : FragmentReader} (regular : Regular handlers calls)
    (samples : ∀ place, samplesAt state place =
      foundAll head.length (writtenFragments handlers calls) place)
    (small : (head ++ fmp4Fragments (addedTracks handlers) calls).length < 2 ^ 32)
    (restored : TracksRestored handlers calls
      (head ++ fmp4Fragments (addedTracks handlers) calls) state) :
    ∀ place < handlers.length, AllNear (writtenFragments handlers calls) place := by
  intro place inside
  by_contra far
  obtain ⟨shift, all⟩ := restored place inside
  rw [samples] at all
  rw [writtenFragments_text] at all small
  obtain ⟨sample, member, lost⟩ := foundAll_lost inside (writtenFragments_carry handlers calls)
    regular.media far small
  obtain ⟨call, callMem, same⟩ := forall₂_mem_left all member
  rw [same.payload] at lost
  exact regular.sizes call (mem_of_mem_filter callMem) lost

/-- A track with nearly `2 ^ 31` bytes before one with a single byte. -/
def farCalls (data : List UInt8) : List Fmp4Call := [⟨0, data, 0, 0, 0⟩, ⟨1, [1], 0, 0, 0⟩]

section Far

variable {data : List UInt8} (size : data.length = 2 ^ 31 - 30)

include size

theorem farCalls_data : dataOf (farCalls data) = 2 ^ 31 - 29 := by
  simp [dataOf, farCalls, size]

theorem farCalls_written : writtenPieces [.audio, .audio] (farCalls data) = [farCalls data] := by
  have positive : 0 < dataOf (farCalls data) := by
    rw [farCalls_data size]
    decide
  have whole : pieces [.audio, .audio] [] (farCalls data) = [farCalls data] := by
    simp [pieces, farCalls]
  unfold writtenPieces
  rw [whole, filter_cons_of_pos (by simpa using positive), filter_nil]

theorem farCalls_carried :
    ∃ fragment, writtenFragments [.audio, .audio] (farCalls data) = [fragment] ∧
      Carries [.audio, .audio] (validCalls [.audio, .audio] (farCalls data)) (farCalls data)
        fragment := by
  have carried := writtenFragments_carry [.audio, .audio] (farCalls data)
  rw [farCalls_written size] at carried
  cases fragments : writtenFragments [.audio, .audio] (farCalls data) with
  | nil =>
    rw [fragments] at carried
    cases carried
  | cons fragment others =>
    rw [fragments] at carried
    obtain ⟨carries, rest⟩ := forall₂_cons.mp carried
    rw [forall₂_nil_left_iff.mp rest]
    exact ⟨fragment, rfl, carries⟩

theorem farCalls_file :
    (fmp4Fragments (addedTracks [.audio, .audio]) (farCalls data)).length < 2 ^ 32 := by
  obtain ⟨fragment, fragments, carries⟩ := farCalls_carried size
  obtain ⟨past, -, -, collected⟩ := carries.tracks
  have mdatSize := carries.mdatSize
  rw [farCalls_data size] at mdatSize
  obtain ⟨front, text, frontLength⟩ := fragment.text_eq (by omega)
  have media := collected.media
  rw [farCalls_data size] at media
  have moof : fragment.refsize ≤ 24 + 84 * 2 + 12 * 2 := collected.moof fragment.number 0
  rw [writtenFragments_text, fragments]
  change (fragment.text ++ []).length < 2 ^ 32
  rw [append_nil, text, length_append, frontLength, media]
  omega

theorem farCalls_limits : Limits [] [.audio, .audio] (farCalls data) where
  sizes := by
    intro call member
    rcases mem_cons.mp member with rfl | later
    · dsimp only
      omega
    · rw [mem_singleton.mp later]
      decide
  boxes := show 24 + 84 * 2 + 12 * 2 < 2 ^ 32 by decide
  file := Nat.lt_trans (farCalls_file size) (by decide)

theorem farCalls_regular : Regular [.audio, .audio] (farCalls data) where
  timely := by
    refine ⟨?_, fun place => List.Pairwise.filter _ ?_⟩
    · simp [farCalls]
    · simp [farCalls]
  small := by simp [farCalls, SmallTime]
  gaps place := by
    refine List.Pairwise.isChain (List.Pairwise.filter _ ?_)
    simp [farCalls]
  composition := by simp [farCalls]
  sizes := by
    have filled : data ≠ [] := ne_nil_of_length_pos (by omega)
    simp [farCalls, filled]
  media := by
    rw [farCalls_written size]
    intro piece member
    rw [mem_singleton.mp member, farCalls_data size]
    decide

theorem farCalls_far : ¬AllNear (writtenFragments [.audio, .audio] (farCalls data)) 1 := by
  obtain ⟨fragment, fragments, carries⟩ := farCalls_carried size
  obtain ⟨past, first, -, -, firstHolds, firstHere, -⟩ :=
    carries.found (show [Handler.audio, .audio][0]? = some .audio from rfl)
  obtain ⟨otherPast, second, -, -, secondHolds, secondHere, -⟩ :=
    carries.found (show [Handler.audio, .audio][1]? = some .audio from rfl)
  intro near
  rw [fragments] at near
  have filled : second.samples ≠ [] := by
    rw [secondHolds.samples]
    simp [packetsOf, farCalls]
  have close := near fragment mem_cons_self second secondHere filled
  have before : dataBefore 1 fragment.tracks = 2 ^ 31 - 30 := by
    have taken : fragment.tracks.take 1 = [first] := by
      cases tracks : fragment.tracks with
      | nil =>
        rw [tracks] at firstHere
        cases firstHere
      | cons track others =>
        rw [tracks] at firstHere
        rw [← Option.some.inj firstHere]
        rfl
    unfold dataBefore
    rw [taken]
    simp [FragmentTrack.bytes, firstHolds.samples, packetsOf, farCalls, Fmp4Call.packet, size]
  unfold Near moofSize at close
  omega

theorem farCalls_lost (enough : 2 ^ 32 ≤ fuel) : ∃ reader,
    (readFragments true fuel [] (fmp4Fragments (addedTracks [.audio, .audio]) (farCalls data))
        (addedTracks [.audio, .audio])).result = .ok (0, reader) ∧
      ¬TracksRestored [.audio, .audio] (farCalls data)
        ([] ++ fmp4Fragments (addedTracks [.audio, .audio]) (farCalls data)) reader.state := by
  obtain ⟨reader, result, samples⟩ := @Limits.reads true _ _ _ fuel (farCalls_limits size)
    (Nat.lt_of_lt_of_le (farCalls_file size) enough)
  refine ⟨reader, result, ?_⟩
  intro restored
  exact farCalls_far size
    (TracksRestored.near (farCalls_regular size) samples (farCalls_file size) restored 1 (by decide))

end Far

end CLibs.Mov
