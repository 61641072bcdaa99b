import CLibs.MovFragmentLimits

/-!
# Decoding times of fragmented files

The decode time of a fragment counts from the first sample of its own track, and
nothing in the file says when that was: an edit list is only written for a track
that has samples, and the `moov` stands before all of them.
-/

namespace CLibs.Mov

open List

variable {asserts : Bool} {head : List UInt8} {handlers : List Handler} {calls : List Fmp4Call}
  {given piece : List Fmp4Call} {fragment : Fragment} {fuel place : Nat}

/-- The calls for one track. -/
def callsOf (place : Nat) (calls : List Fmp4Call) : List Fmp4Call :=
  calls.filter fun call => call.track = place

/-- The times do not overflow when they are scaled, and those of a track never go back. -/
structure Timely (calls : List Fmp4Call) : Prop where
  small : ∀ call ∈ calls, -(2 ^ 63) < call.dts * 1000 ∧ call.dts * 1000 < 2 ^ 63
  ordered : ∀ place, (callsOf place calls).Pairwise fun first second => first.dts ≤ second.dts

/-- The first time of a track. -/
def firstDts (place : Nat) (calls : List Fmp4Call) : Int :=
  ((packetsOf place calls).map Packet.dts).headD int64Min

/-! ## The times of a run -/

/-- The times that are read for a run that starts at the given time. -/
def runDts : Int → List Packet → List Int
  | _, [] => []
  | time, [_] => [time]
  | time, packet :: next :: packets =>
    time :: runDts (int64 (time + uint32 (next.dts - packet.dts))) (next :: packets)

/-- The times that are read for a fragment of a track that started at `start`. -/
def fragmentDts (start : Int) (packets : List Packet) : List Int :=
  runDts (int64 ((packets.map Packet.dts).headD 0 - start)) packets

/-- The samples are less than `2 ^ 32` apart. -/
def Close (packets : List Packet) : Prop :=
  packets.IsChain fun packet next => next.dts - packet.dts < 2 ^ 32

theorem runSamples_dts (later key : Bool) (offset : Nat) (time last : Int)
    (packets : List Packet) :
    (runSamples later key offset time packets (durations last packets)).map FoundSample.dts =
      runDts time packets := by
  induction packets generalizing key offset time with
  | nil => rfl
  | cons packet packets ih =>
    cases packets with
    | nil => rfl
    | cons next packets =>
      rw [durations, runSamples, map_cons, ih]
      rfl

theorem runDts_length (time : Int) (packets : List Packet) :
    (runDts time packets).length = packets.length := by
  induction packets generalizing time with
  | nil => rfl
  | cons packet packets ih =>
    cases packets with
    | nil => rfl
    | cons next packets => exact congrArg Nat.succ (ih _)

theorem fragmentDts_length (start : Int) (packets : List Packet) :
    (fragmentDts start packets).length = packets.length :=
  runDts_length _ packets

def SmallTime (time : Int) : Prop := -(2 ^ 63) < time * 1000 ∧ time * 1000 < 2 ^ 63

theorem int64_small {value : Int} (low : -(2 ^ 62) < value) (high : value < 2 ^ 62) :
    int64 value = value :=
  int64_eq_self (by omega) (by omega)

theorem runDts_eq_iff {start : Int} (startSmall : SmallTime start) (packets : List Packet)
    (small : ∀ packet ∈ packets, SmallTime packet.dts)
    (ordered : packets.Pairwise fun packet next => packet.dts ≤ next.dts) :
    runDts ((packets.map Packet.dts).headD 0 - start) packets =
        packets.map (fun packet => packet.dts - start) ↔ Close packets := by
  unfold Close
  induction packets with
  | nil => simp [runDts]
  | cons packet packets ih =>
    cases packets with
    | nil => simp [runDts]
    | cons next packets =>
      have rest := ih (forall_mem_cons.mp small).2
        (pairwise_cons.mp ordered).2
      have packetSmall := small packet mem_cons_self
      have nextSmall := small next (mem_cons_of_mem _ mem_cons_self)
      have rises := (pairwise_cons.mp ordered).1 next mem_cons_self
      unfold SmallTime at startSmall packetSmall nextSmall
      rw [isChain_cons_cons, ← rest, runDts, map_cons, headD_cons,
        map_cons, List.cons.injEq]
      simp only [map_cons, headD_cons, true_and]
      by_cases near : next.dts - packet.dts < 2 ^ 32
      · have time : int64 (packet.dts - start + uint32 (next.dts - packet.dts)) =
            next.dts - start := by
          have same : (uint32 (next.dts - packet.dts) : Int) = next.dts - packet.dts := by
            unfold uint32
            omega
          rw [same, int64_small (by omega) (by omega)]
          omega
        rw [time]
        simp only [near, true_and]
      · have late : int64 (packet.dts - start + uint32 (next.dts - packet.dts)) ≠
            next.dts - start := by
          have short : (uint32 (next.dts - packet.dts) : Int) < 2 ^ 32 := by
            unfold uint32
            omega
          rw [int64_small (by omega) (by omega)]
          omega
        simp only [near, false_and, iff_false]
        intro same
        apply late
        cases packets with
        | nil => exact (List.cons.inj same).1
        | cons third packets => exact (List.cons.inj same).1

/-! ## The times of a track -/

variable {call : Fmp4Call}

theorem Timely.scaled_eq (timely : Timely calls) (member : call ∈ calls) :
    call.packet.dts = call.dts := by
  have small := timely.small call member
  have fits : int64 (call.dts * 1000) = call.dts * 1000 := by
    unfold int64
    apply Int.bmod_eq_of_le
    · omega
    · omega
  change scaled call.dts = call.dts
  rw [scaled, fits, Int.mul_tdiv_cancel _ (by decide)]

theorem Timely.packets (timely : Timely calls) (place : Nat) :
    (∀ packet ∈ packetsOf place calls, SmallTime packet.dts) ∧
      (packetsOf place calls).Pairwise fun packet next => packet.dts ≤ next.dts := by
  constructor
  · intro packet member
    obtain ⟨call, callMem, rfl⟩ := mem_map.mp member
    have inside := mem_of_mem_filter callMem
    rw [timely.scaled_eq inside]
    exact timely.small call inside
  · unfold packetsOf
    rw [pairwise_map]
    apply (timely.ordered place).imp_of_mem
    intro first second firstMem secondMem rises
    rw [timely.scaled_eq (mem_of_mem_filter firstMem),
      timely.scaled_eq (mem_of_mem_filter secondMem)]
    exact rises

theorem headD_initial {Value : Type} {first second : List Value} (isPrefix : first <+: second)
    (filled : first ≠ []) (default : Value) : first.headD default = second.headD default := by
  obtain ⟨rest, rfl⟩ := isPrefix
  cases first with
  | nil => exact absurd rfl filled
  | cons value first => rfl

theorem packetsOf_initial {first second : List Fmp4Call} (isPrefix : first <+: second)
    (place : Nat) : packetsOf place first <+: packetsOf place second := by
  obtain ⟨rest, rfl⟩ := isPrefix
  rw [packetsOf_append]
  exact prefix_append _ _

theorem Carries.startDts {past : List Fmp4Call} {handler : Handler} {track : FragmentTrack}
    (holds : Holds place handler past piece track) (earlier : past <+: given)
    (last : piece <:+ past) (filled : packetsOf place piece ≠ []) :
    track.startDts = firstDts place given := by
  have some : packetsOf place past ≠ [] := by
    obtain ⟨before, rfl⟩ := last
    rw [packetsOf_append]
    simp [filled]
  rw [holds.startDts, firstDts]
  apply headD_initial ((packetsOf_initial earlier place).map Packet.dts)
  simpa using some

theorem foundAll_dts (inside : place < handlers.length) {pieces : List (List Fmp4Call)}
    {fragments : List Fragment}
    (carried : List.Forall₂ (Carries handlers given) pieces fragments) (position : Nat) :
    (foundAll position fragments place).map FoundSample.dts =
      pieces.flatMap fun piece => fragmentDts (firstDts place given) (packetsOf place piece) := by
  induction carried generalizing position with
  | nil => rfl
  | @cons piece fragment _ _ carries _ ih =>
    obtain ⟨past, track, earlier, last, holds, -, found⟩ :=
      carries.found (List.getElem?_eq_getElem inside)
    rw [foundAll, map_append, flatMap_cons, ih, found]
    congr 1
    unfold foundSamples FragmentTrack.durations startTime fragmentDts
    rw [runSamples_dts, holds.samples]
    by_cases filled : packetsOf place piece = []
    · rw [filled]
      rfl
    · rw [Carries.startDts holds earlier last filled]

theorem firstDts_valid (inside : place < handlers.length) (calls : List Fmp4Call) :
    firstDts place (validCalls handlers calls) = firstDts place calls := by
  unfold firstDts
  rw [packetsOf_valid inside]

theorem written_sublist (member : piece ∈ writtenPieces handlers calls) (place : Nat) :
    (packetsOf place piece).Sublist (packetsOf place calls) := by
  have inPieces := mem_of_mem_filter member
  have sub : piece.Sublist calls := by
    have whole := sublist_flatten_of_mem inPieces
    rw [pieces_flatten, nil_append] at whole
    exact whole.trans filter_sublist
  exact (sub.filter _).map _

theorem fragmentDts_eq_iff (timely : Timely calls) (member : piece ∈ writtenPieces handlers calls)
    (place : Nat) :
    fragmentDts (firstDts place calls) (packetsOf place piece) =
        (packetsOf place piece).map (fun packet => packet.dts - firstDts place calls) ↔
      Close (packetsOf place piece) := by
  obtain ⟨small, ordered⟩ := timely.packets place
  have sub := written_sublist member place
  cases packets : packetsOf place piece with
  | nil => simp [fragmentDts, runDts, Close]
  | cons first rest =>
    rw [packets] at sub
    have firstMem : first ∈ packetsOf place calls := sub.subset mem_cons_self
    have startSmall : SmallTime (firstDts place calls) := by
      unfold firstDts
      cases every : packetsOf place calls with
      | nil =>
        rw [every] at firstMem
        cases firstMem
      | cons start others =>
        exact small start (by rw [every]; exact mem_cons_self)
    have firstSmall := small first firstMem
    rw [← runDts_eq_iff startSmall (first :: rest)
      (fun packet packetMem => small packet (sub.subset packetMem)) (ordered.sublist sub)]
    unfold fragmentDts
    unfold SmallTime at startSmall firstSmall
    rw [map_cons, headD_cons, int64_small (by omega) (by omega)]

/-- Every sample of a track is read at its time since the first. -/
def TimesKept (place : Nat) (calls : List Fmp4Call) (samples : List FoundSample) : Prop :=
  ∀ (index : Nat) (sample : FoundSample), samples[index]? = some sample →
    ∃ packet : Packet, (packetsOf place calls)[index]? = some packet ∧
      sample.dts = packet.dts - firstDts place calls

theorem timesKept_iff (timely : Timely calls) (inside : place < handlers.length) (position : Nat) :
    TimesKept place calls (foundAll position (writtenFragments handlers calls) place) ↔
      ∀ piece ∈ writtenPieces handlers calls, Close (packetsOf place piece) := by
  have found := foundAll_dts inside (writtenFragments_carry handlers calls) position
  rw [firstDts_valid inside] at found
  have same := @kept_iff handlers calls Int FoundSample.dts
    (fun packet => packet.dts - firstDts place calls) _ (fragmentDts_length _) place inside _ found
  unfold TimesKept
  rw [same]
  constructor
  · intro kept piece member
    exact (fragmentDts_eq_iff timely member place).mp (kept piece member)
  · intro near piece member
    exact (fragmentDts_eq_iff timely member place).mpr (near piece member)

/-! ## Two tracks -/

/-- A track has samples in the file. -/
def Present (handlers : List Handler) (calls : List Fmp4Call) (place : Nat) : Prop :=
  ∃ piece ∈ writtenPieces handlers calls, packetsOf place piece ≠ []

theorem flatMap_head {Piece First Second : Type} {first : Piece → List First}
    {second : Piece → List Second} {change : Second → First}
    (heads : ∀ piece, (first piece).head? = (second piece).head?.map change) (pieces : List Piece) :
    (pieces.flatMap first).head? = (pieces.flatMap second).head?.map change := by
  induction pieces with
  | nil => rfl
  | cons piece pieces ih =>
    rw [flatMap_cons, flatMap_cons, List.head?_append, List.head?_append, heads, ih]
    cases (second piece).head? <;> rfl

theorem fragmentDts_head (start : Int) (packets : List Packet) :
    (fragmentDts start packets).head? =
      packets.head?.map fun packet => int64 (packet.dts - start) := by
  unfold fragmentDts
  cases packets with
  | nil => rfl
  | cons packet packets =>
    cases packets with
    | nil => rfl
    | cons next packets => rfl

theorem foundAll_first (inside : place < handlers.length) (present : Present handlers calls place)
    (position : Nat) :
    ∃ sample : FoundSample,
      (foundAll position (writtenFragments handlers calls) place)[0]? = some sample ∧
        sample.dts = 0 := by
  have found := foundAll_dts inside (writtenFragments_carry handlers calls) position
  rw [firstDts_valid inside] at found
  have heads := flatMap_head (fun piece => fragmentDts_head (firstDts place calls)
    (packetsOf place piece)) (writtenPieces handlers calls)
  rw [← found, List.head?_map] at heads
  have filled : (writtenPieces handlers calls).flatMap (packetsOf place) ≠ [] := by
    obtain ⟨piece, member, some⟩ := present
    intro none
    exact some (flatMap_eq_nil_iff.mp none piece member)
  have first := packets_initial inside calls
  obtain ⟨packet, packets, written⟩ := exists_cons_of_ne_nil filled
  rw [written] at heads first
  have start : firstDts place calls = packet.dts := by
    obtain ⟨rest, whole⟩ := first
    unfold firstDts
    rw [← whole]
    rfl
  rw [start, List.head?_cons, Option.map_some, Int.sub_self] at heads
  obtain ⟨sample, here, zero⟩ := Option.map_eq_some_iff.mp heads
  refine ⟨sample, ?_, zero⟩
  rw [← List.head?_eq_getElem?]
  exact here

variable {index : Nat}

theorem foundAll_present (inside : place < handlers.length) {position : Nat} {sample : FoundSample}
    (here : (foundAll position (writtenFragments handlers calls) place)[index]? = some sample) :
    Present handlers calls place := by
  have found := foundAll_dts inside (writtenFragments_carry handlers calls) position
  by_contra absent
  have none : (writtenPieces handlers calls).flatMap (fun piece =>
      fragmentDts (firstDts place (validCalls handlers calls)) (packetsOf place piece)) = [] := by
    apply flatMap_eq_nil_iff.mpr
    intro piece member
    by_contra filled
    apply absent
    refine ⟨piece, member, ?_⟩
    intro empty
    rw [empty] at filled
    exact filled rfl
  rw [none, map_eq_nil_iff] at found
  rw [found] at here
  cases here

/-- The distance of any two samples of different tracks is read as it was written. -/
def InSync (handlers : List Handler) (calls : List Fmp4Call) (state : FragmentReader) : Prop :=
  ∀ first second, first ≠ second → first < handlers.length → second < handlers.length →
    ∀ (here there : Nat) (sample other : FoundSample),
      (samplesAt state first)[here]? = some sample →
      (samplesAt state second)[there]? = some other →
      ∃ call otherCall : Fmp4Call, (callsOf first calls)[here]? = some call ∧
        (callsOf second calls)[there]? = some otherCall ∧
        sample.dts - other.dts = call.dts - otherCall.dts

/-- Two tracks that are in the file start at the same time and have no long gap in a fragment. -/
def StartTogether (handlers : List Handler) (calls : List Fmp4Call) : Prop :=
  ∀ first second, first ≠ second → first < handlers.length → second < handlers.length →
    Present handlers calls first → Present handlers calls second →
    firstDts first calls = firstDts second calls ∧
      ∀ piece ∈ writtenPieces handlers calls, Close (packetsOf first piece)

theorem packetsOf_call {packet : Packet} (here : (packetsOf place calls)[index]? = some packet) :
    ∃ call, (callsOf place calls)[index]? = some call ∧ call ∈ calls ∧ packet = call.packet := by
  unfold packetsOf at here
  rw [List.getElem?_map] at here
  obtain ⟨call, callHere, rfl⟩ := Option.map_eq_some_iff.mp here
  exact ⟨call, callHere, mem_of_mem_filter (mem_of_getElem? callHere), rfl⟩

theorem callsOf_packet (here : (callsOf place calls)[index]? = some call) :
    (packetsOf place calls)[index]? = some call.packet ∧ call ∈ calls := by
  unfold packetsOf
  rw [List.getElem?_map]
  exact ⟨congrArg (Option.map Fmp4Call.packet) here,
    mem_of_mem_filter (mem_of_getElem? here)⟩

theorem firstDts_call (timely : Timely calls) (here : (callsOf place calls)[0]? = some call) :
    firstDts place calls = call.dts := by
  obtain ⟨packet, member⟩ := callsOf_packet here
  rw [← timely.scaled_eq member]
  unfold firstDts
  cases every : packetsOf place calls with
  | nil =>
    rw [every] at packet
    cases packet
  | cons start others =>
    rw [every] at packet
    rw [← Option.some.inj packet]
    rfl

theorem inSync_iff (timely : Timely calls) {state : FragmentReader} {position : Nat}
    (samples : ∀ place, samplesAt state place =
      foundAll position (writtenFragments handlers calls) place) :
    InSync handlers calls state ↔ StartTogether handlers calls := by
  constructor
  · intro sync first second differ firstInside secondInside firstPresent secondPresent
    obtain ⟨start, startHere, startZero⟩ := foundAll_first firstInside firstPresent position
    obtain ⟨other, otherHere, otherZero⟩ := foundAll_first secondInside secondPresent position
    rw [← samples] at startHere otherHere
    obtain ⟨call, otherCall, callHere, otherCallHere, distance⟩ :=
      sync first second differ firstInside secondInside 0 0 start other startHere otherHere
    have together : firstDts first calls = firstDts second calls := by
      rw [firstDts_call timely callHere, firstDts_call timely otherCallHere]
      omega
    refine ⟨together, ?_⟩
    rw [← timesKept_iff timely firstInside position, ← samples]
    intro index sample here
    obtain ⟨later, otherLater, laterHere, otherLaterHere, apart⟩ :=
      sync first second differ firstInside secondInside index 0 sample other here otherHere
    obtain ⟨packet, member⟩ := callsOf_packet laterHere
    refine ⟨_, packet, ?_⟩
    rw [timely.scaled_eq member, together, firstDts_call timely otherLaterHere]
    omega
  · intro together first second differ firstInside secondInside here there sample other sampleHere
      otherHere
    rw [samples] at sampleHere otherHere
    have firstPresent := foundAll_present firstInside sampleHere
    have secondPresent := foundAll_present secondInside otherHere
    obtain ⟨same, firstClose⟩ :=
      together first second differ firstInside secondInside firstPresent secondPresent
    obtain ⟨-, secondClose⟩ :=
      together second first differ.symm secondInside firstInside secondPresent firstPresent
    obtain ⟨packet, packetHere, time⟩ :=
      (timesKept_iff timely firstInside position).mpr firstClose here sample sampleHere
    obtain ⟨otherPacket, otherPacketHere, otherTime⟩ :=
      (timesKept_iff timely secondInside position).mpr secondClose there other otherHere
    obtain ⟨call, callHere, member, rfl⟩ := packetsOf_call packetHere
    obtain ⟨otherCall, otherCallHere, otherMember, rfl⟩ := packetsOf_call otherPacketHere
    refine ⟨call, otherCall, callHere, otherCallHere, ?_⟩
    rw [timely.scaled_eq member] at time
    rw [timely.scaled_eq otherMember] at otherTime
    omega

def syncedCalls : List Fmp4Call := [⟨0, [1], 0, 0, 1⟩, ⟨1, [2], 0, 0, 0⟩]

/-- The sound starts a second after the video. -/
def lateCalls : List Fmp4Call := [⟨0, [1], 0, 0, 1⟩, ⟨1, [2], 1000, 1000, 0⟩]

end CLibs.Mov
