import CLibs.MovEditListBoxes
import CLibs.MovTimeRoundTrip

/-!
# Absolute times of a track

A track is written with its edit list and read again.  The reader starts the
decoding times at the first presentation time, so a track keeps its times only
if its first sample is presented when it is decoded; the times and their
differences must also fit the fields of the tables.
-/

namespace CLibs.Mov

open List

/-! ## Running sums from a start -/

/-- The running sums are the times themselves. -/
def SameTimes (start first : Int) (times : List Int) : Prop :=
  ∀ i ≤ times.length,
    (start :: advance start (sttsDeltas (first :: times))).getD i 0 = (first :: times).getD i 0

theorem sameTimes_cons {start first next : Int} {times : List Int} (nonneg : 0 ≤ first)
    (rising : first < next) (bound : next < 2 ^ 63) :
    SameTimes start first (next :: times) ↔
      start = first ∧ next - first < 2 ^ 32 ∧ SameTimes next next times := by
  have delta : sttsDeltas (first :: next :: times) =
      uint32 (int64 (next - first)) :: sttsDeltas (next :: times) := by
    rw [sttsDeltas, if_pos rising]
  have sum : int64 (first + (uint32 (int64 (next - first)) : Nat)) = next ↔
      next - first < 2 ^ 32 := by
    unfold int64 uint32
    simp only [Int.bmod_def]
    split <;> split <;> omega
  unfold SameTimes
  rw [delta]
  constructor
  · intro same
    have zero := same 0 (Nat.zero_le _)
    have one := same 1 (by simp)
    simp only [advance, getD_cons_succ, getD_cons_zero] at zero one
    rw [zero] at one
    refine ⟨zero, sum.mp one, ?_⟩
    intro i small
    have later := same (i + 1) (by rw [length_cons]; omega)
    simp only [advance, getD_cons_succ] at later
    rwa [zero, one] at later
  · rintro ⟨rfl, near, same⟩ i small
    cases i with
    | zero => rfl
    | succ i =>
      simp only [advance, getD_cons_succ]
      rw [sum.mpr near]
      exact same i (by rw [length_cons] at small; omega)

theorem sameTimes_iff (start : Int) {first : Int} {times : List Int}
    (rising : (first :: times).IsChain (· < ·)) (nonneg : 0 ≤ first)
    (bound : ∀ time ∈ first :: times, time < 2 ^ 63) :
    SameTimes start first times ↔
      start = first ∧ (first :: times).IsChain fun time next => next - time < 2 ^ 32 := by
  induction times generalizing start first with
  | nil =>
    constructor
    · intro same
      exact ⟨same 0 (Nat.le_refl 0), isChain_singleton first⟩
    · rintro ⟨rfl, -⟩ i small
      rw [Nat.le_zero.mp small]
      rfl
  | cons next times ih =>
    obtain ⟨lt, others⟩ := isChain_cons_cons.mp rising
    have below := bound next (mem_cons_of_mem first mem_cons_self)
    have later := ih next others (by omega)
      (forall_mem_cons.mp bound).2
    rw [sameTimes_cons nonneg lt below, isChain_cons_cons, later]
    tauto

/-! ## The first time -/

theorem delay_eq_iff {pts dts timescale : Int} (nonneg : 0 ≤ dts) (late : dts ≤ pts)
    (near : pts - dts < 2 ^ 31) (positive : 0 < timescale) (small : timescale < 2 ^ 32) :
    (if (int64 (pts * timescale)).tdiv timescale > 0 then
      (int64 (pts * timescale)).tdiv timescale else 0) = dts ↔
      pts = dts ∧ pts * timescale < 2 ^ 63 := by
  have product : pts * timescale = timescale * dts + (pts - dts) * timescale := by
    rw [Int.mul_comm timescale, ← Int.add_mul]
    congr 1
    omega
  have offset : (pts - dts) * timescale ≤ (2 ^ 31 - 1) * (2 ^ 32 - 1) :=
    Int.mul_le_mul (by omega) (by omega) (by omega) (by decide)
  have start : 0 ≤ (pts - dts) * timescale := Int.mul_nonneg (by omega) (by omega)
  have base : 0 ≤ timescale * dts := Int.mul_nonneg (by omega) nonneg
  have wrapped := int64_emod (pts * timescale)
  have range := int64_range (pts * timescale)
  have exact_ (bound : pts * timescale < 2 ^ 63) :
      (int64 (pts * timescale)).tdiv timescale = pts := by
    have same : int64 (pts * timescale) = pts * timescale := by omega
    rw [same, Int.mul_tdiv_cancel _ (by omega)]
  constructor
  · intro found
    split at found
    · rename_i delayed
      have above : 0 ≤ int64 (pts * timescale) := by
        by_contra below
        have flipped := Int.tdiv_nonneg (by omega : 0 ≤ -int64 (pts * timescale))
          (Int.le_of_lt positive)
        rw [Int.neg_tdiv] at flipped
        omega
      rw [Int.tdiv_eq_ediv_of_nonneg above] at found
      have lower := Int.mul_ediv_self_le (x := int64 (pts * timescale)) (by omega : timescale ≠ 0)
      have upper := Int.lt_mul_ediv_self_add (x := int64 (pts * timescale)) positive
      rw [found] at lower upper
      have bound : pts * timescale < 2 ^ 63 := by omega
      have back := exact_ bound
      rw [Int.tdiv_eq_ediv_of_nonneg above, found] at back
      exact ⟨back.symm, bound⟩
    · rename_i absent
      rw [← found, Int.mul_zero] at product
      have bound : pts * timescale < 2 ^ 63 := by
        rw [← found] at offset
        omega
      rw [exact_ bound] at absent
      omega
  · rintro ⟨rfl, bound⟩
    rw [exact_ bound]
    split <;> omega

/-- A track whose timescale is that of the movie, as the writer takes it. -/
structure Playable (mvhdTimescale : Nat) (track : TimedTrack) : Prop where
  nonempty : track.samples ≠ []
  count : track.samples.length < 2 ^ 32
  timescale : track.mdhdTimescale = mvhdTimescale
  positive : 0 < mvhdTimescale
  small : mvhdTimescale < 2 ^ 32
  started : track.startDts = (track.samples.getD 0 default).dts
  rising : track.samples.IsChain fun sample next => sample.dts < next.dts
  times : ∀ sample ∈ track.samples, 0 ≤ sample.dts ∧ sample.dts ≤ sample.pts ∧ sample.pts < 2 ^ 63

section First

variable {mvhdTimescale : Nat} {track : TimedTrack}

theorem Playable.first_mem (playable : Playable mvhdTimescale track) :
    track.samples.getD 0 default ∈ track.samples := by
  cases given : track.samples with
  | nil => exact absurd given playable.nonempty
  | cons first samples => exact mem_cons_self

theorem editOf_not_empty {version duration : Nat} {time : Int} (nonneg : 0 ≤ time)
    (near : time < 2 ^ 31) : (editOf version duration time).mediaTime ≠ -1 := by
  unfold editOf int64 int32
  dsimp only
  split
  · rw [Int.bmod_def]
    split <;> omega
  · rw [Int.bmod_def]
    split <;> omega

theorem editOf_empty (version duration : Nat) : (editOf version duration (-1)).mediaTime = -1 := by
  have long : int64 (-1) = -1 := by decide
  have short : int32 (-1) = -1 := by decide
  unfold editOf
  dsimp only
  rw [long, short, ite_self]

theorem elstDelay_lt (mvhdTimescale : Nat) (track : TimedTrack) :
    elstDelay mvhdTimescale track < 2 ^ 63 := by
  have range := int64_range ((track.samples.getD 0 default).pts * mvhdTimescale)
  unfold elstDelay
  by_cases above : 0 ≤ int64 ((track.samples.getD 0 default).pts * mvhdTimescale)
  · rw [Int.tdiv_eq_ediv_of_nonneg above]
    have smaller := Int.ediv_le_self (track.mdhdTimescale : Int) above
    omega
  · have flipped := Int.tdiv_nonneg
      (by omega : 0 ≤ -int64 ((track.samples.getD 0 default).pts * mvhdTimescale))
      (Int.natCast_nonneg track.mdhdTimescale)
    rw [Int.neg_tdiv] at flipped
    omega

theorem editOf_delay (delayed : elstDelay mvhdTimescale track > 0) :
    int64 ((editOf (elstVersion mvhdTimescale track) (uint64 (elstDelay mvhdTimescale track))
      (-1)).segmentDuration : Nat) = elstDelay mvhdTimescale track := by
  have bound := elstDelay_lt mvhdTimescale track
  have value : ((uint64 (elstDelay mvhdTimescale track) : Nat) : Int) =
      elstDelay mvhdTimescale track := by
    unfold uint64
    omega
  have kept : (editOf (elstVersion mvhdTimescale track) (uint64 (elstDelay mvhdTimescale track))
      (-1)).segmentDuration = uint64 (elstDelay mvhdTimescale track) := by
    unfold editOf
    dsimp only
    split
    · omega
    · rename_i short
      have fits : elstDelay mvhdTimescale track ≤ uint32Max := by
        by_contra long
        unfold elstVersion at short
        rw [if_pos (by omega)] at short
        exact short rfl
      unfold uint32Max at fits
      omega
  rw [kept, value, int64_eq_self (by omega) bound]

theorem firstTime_single {edit : Elst} (edited : edit.mediaTime ≠ -1) : firstTime [edit] = 0 :=
  if_neg edited

theorem firstTime_delayed {empty edit : Elst} (delays : empty.mediaTime = -1)
    (edited : edit.mediaTime ≠ -1) : firstTime [empty, edit] = int64 empty.segmentDuration :=
  (if_neg edited).trans (if_pos delays)

theorem Playable.firstTime_eq (playable : Playable mvhdTimescale track)
    (near : (track.samples.getD 0 default).pts - (track.samples.getD 0 default).dts < 2 ^ 31) :
    firstTime ((elstEdits mvhdTimescale track).map fun edit =>
      editOf (elstVersion mvhdTimescale track) edit.1 edit.2) =
        if elstDelay mvhdTimescale track > 0 then elstDelay mvhdTimescale track else 0 := by
  obtain ⟨nonneg, late, bound⟩ := playable.times _ playable.first_mem
  have time : elstTime track =
      (track.samples.getD 0 default).pts - (track.samples.getD 0 default).dts := by
    unfold elstTime
    dsimp only
    rw [int64_of_lt (by omega) (by omega), if_neg (by omega)]
  have last : (editOf (elstVersion mvhdTimescale track) track.tkhdDuration
      (elstTime track)).mediaTime ≠ -1 := editOf_not_empty (by omega) (by omega)
  unfold elstEdits
  by_cases delayed : elstDelay mvhdTimescale track > 0
  · rw [if_pos delayed, if_pos delayed]
    exact (firstTime_delayed (editOf_empty _ _) last).trans (editOf_delay delayed)
  · rw [if_neg delayed, if_neg delayed]
    exact firstTime_single last

end First

/-! ## All times -/

/-- All samples have their times again. -/
def TimesEqual (samples read : List Sample) : Prop :=
  ∀ i < samples.length, (read.getD i default).dts = (samples.getD i default).dts ∧
    (read.getD i default).pts = (samples.getD i default).pts

/-- The first sample is presented when it is decoded, and the times fit the tables. -/
structure Kept (mvhdTimescale : Nat) (track : TimedTrack) : Prop where
  level : (track.samples.getD 0 default).pts = (track.samples.getD 0 default).dts
  product : (track.samples.getD 0 default).pts * mvhdTimescale < 2 ^ 63
  near : track.samples.IsChain fun sample next => next.dts - sample.dts < 2 ^ 32
  offset : ∀ sample ∈ track.samples, sample.pts - sample.dts < 2 ^ 31

section Times

variable {mvhdTimescale : Nat} {track : TimedTrack} {start : Int} {read : List Sample}

theorem getD_mem {samples : List Sample} {i : Nat} (inside : i < samples.length) :
    samples.getD i default ∈ samples := by
  rw [getD_eq_getElem?_getD, List.getElem?_eq_getElem inside]
  exact getElem_mem inside

theorem getD_map {Value : Type} {view : Sample → Value} {other : Value} {samples : List Sample}
    {i : Nat} (inside : i < samples.length) :
    (samples.map view).getD i other = view (samples.getD i default) := by
  simp [getD_eq_getElem?_getD, List.getElem?_eq_getElem inside]

theorem Playable.sameTimes_iff (playable : Playable mvhdTimescale track) :
    (∀ i < track.samples.length,
      (start :: advance start (sttsDeltas (track.samples.map (·.dts)))).getD i 0 =
        (track.samples.getD i default).dts) ↔
      start = (track.samples.getD 0 default).dts ∧
        track.samples.IsChain fun sample next => next.dts - sample.dts < 2 ^ 32 := by
  cases given : track.samples with
  | nil => exact absurd given playable.nonempty
  | cons first samples =>
    have rising := playable.rising
    have times := playable.times
    rw [given] at rising times
    have chain : (first.dts :: samples.map (·.dts)).IsChain (· < ·) := by
      rw [← map_cons, isChain_map]
      exact rising
    have same := Mov.sameTimes_iff start chain (times first mem_cons_self).1 ?_
    · rw [← map_cons, isChain_map] at same
      rw [getD_cons_zero, ← same, map_cons]
      unfold SameTimes
      have shown (i : Nat) (inside : i < (first :: samples).length) :
          (first.dts :: samples.map (·.dts)).getD i 0 = ((first :: samples).getD i default).dts := by
        rw [← map_cons (f := fun sample : Sample => sample.dts)]
        exact getD_map inside
      constructor
      · intro equal i small
        rw [length_map] at small
        rw [shown i (by rw [length_cons]; omega)]
        exact equal i (by rw [length_cons]; omega)
      · intro equal i inside
        rw [← shown i inside]
        exact equal i (by rw [length_map]; rw [length_cons] at inside; omega)
    · intro time member
      rw [← map_cons] at member
      obtain ⟨sample, inside, rfl⟩ := mem_map.mp member
      have bounds := times sample inside
      omega

theorem Playable.timesEqual_iff (playable : Playable mvhdTimescale track)
    (reads : ReadFrom start track.samples read) :
    TimesEqual track.samples read ↔
      start = (track.samples.getD 0 default).dts ∧
        (track.samples.IsChain fun sample next => next.dts - sample.dts < 2 ^ 32) ∧
        ∀ sample ∈ track.samples, sample.pts - sample.dts < 2 ^ 31 := by
  obtain ⟨offsets, count, bounds, exact_, found⟩ := reads
  rw [← and_assoc, ← playable.sameTimes_iff]
  constructor
  · intro equal
    have times (i : Nat) (inside : i < track.samples.length) :
        (start :: advance start (sttsDeltas (track.samples.map (·.dts)))).getD i 0 =
          (track.samples.getD i default).dts :=
      (found i inside).1.symm.trans (equal i inside).1
    refine ⟨times, ?_⟩
    intro sample member
    obtain ⟨i, inside, rfl⟩ := getElem_of_mem member
    have composed := (found i inside).2.symm.trans (equal i inside).2
    rw [times i inside] at composed
    have bound := playable.times _ (getD_mem inside)
    have small : offsets.getD i 0 ∈ offsets := by
      rw [getD_eq_getElem?_getD, List.getElem?_eq_getElem (by omega)]
      exact getElem_mem _
    have range := bounds _ small
    have value : track.samples.getD i default = track.samples[i] := by simp [inside]
    rw [value] at composed bound
    unfold int64 at composed
    rw [Int.bmod_def] at composed
    split at composed <;> omega
  · rintro ⟨times, small⟩ i inside
    obtain ⟨dts, pts⟩ := found i inside
    have bound := playable.times _ (getD_mem inside)
    have known := exact_ fun sample member =>
      ⟨by have order := playable.times sample member; omega, small sample member⟩
    have offset : offsets.getD i 0 =
        (track.samples.getD i default).pts - (track.samples.getD i default).dts := by
      rw [known]
      exact getD_map inside
    refine ⟨dts.trans (times i inside), ?_⟩
    rw [pts, times i inside, offset]
    exact (congrArg int64 (by omega)).trans (int64_eq_self (by omega) bound.2.2)

theorem Playable.roundTrip_reads (playable : Playable mvhdTimescale track) {file : ByteFile}
    (atEnd : file.AtEnd) (first : Sample) {slots : List Sample}
    (room : slots.length = track.samples.length) :
    Yields (trackTimesRoundTrip file mvhdTimescale track (first :: slots))
      (ReadFrom (firstTime ((elstEdits mvhdTimescale track).map fun edit =>
        editOf (elstVersion mvhdTimescale track) edit.1 edit.2)) track.samples) := by
  apply Yields.bind (writeTrackTimes_tables atEnd playable.started playable.nonempty
    playable.count (playable.rising.imp fun _ _ => Int.le_of_lt))
  rintro written ⟨stts, offsets, table, text, rfl⟩
  apply readTrackTimes_reads _ _ table text room (ByteFile.seek_append file _)
  · unfold elstVersion
    split
    · exact .inl rfl
    · split
      · exact .inl rfl
      · exact .inr rfl
  · unfold elstEdits
    rw [length_append]
    split
    · exact (by decide : 2 < 2 ^ 26)
    · exact (by decide : 1 < 2 ^ 26)

theorem Playable.kept_iff (playable : Playable mvhdTimescale track) {file : ByteFile}
    (atEnd : file.AtEnd) {first : Sample} {slots : List Sample}
    (room : slots.length = track.samples.length) :
    Yields (trackTimesRoundTrip file mvhdTimescale track (first :: slots))
      (TimesEqual track.samples) ↔ Kept mvhdTimescale track := by
  obtain ⟨read, returned, reads⟩ := playable.roundTrip_reads atEnd first room
  have equal : Yields (trackTimesRoundTrip file mvhdTimescale track (first :: slots))
      (TimesEqual track.samples) ↔ TimesEqual track.samples read := by
    constructor
    · rintro ⟨other, also, same⟩
      rw [returned] at also
      rwa [Except.ok.inj also]
    · exact fun same => ⟨read, returned, same⟩
  have member := playable.first_mem
  obtain ⟨nonneg, late, bound⟩ := playable.times _ member
  have start (close : (track.samples.getD 0 default).pts -
      (track.samples.getD 0 default).dts < 2 ^ 31) := by
    have delay := delay_eq_iff nonneg late close
      (Int.natCast_pos.mpr playable.positive) (by exact_mod_cast playable.small)
    exact delay
  rw [equal, playable.timesEqual_iff reads]
  constructor
  · rintro ⟨from_, near, offset⟩
    have close := offset _ member
    rw [playable.firstTime_eq close] at from_
    unfold elstDelay at from_
    rw [playable.timescale] at from_
    obtain ⟨level, product⟩ := (start close).mp from_
    exact ⟨level, product, near, offset⟩
  · intro kept
    refine ⟨?_, kept.near, kept.offset⟩
    have close := kept.offset _ member
    rw [playable.firstTime_eq close]
    unfold elstDelay
    rw [playable.timescale]
    exact (start close).mpr ⟨kept.level, kept.product⟩

end Times

/-- The tracks of a movie keep their times exactly if each of them starts with a
sample that is presented when it is decoded, and its times fit the tables. -/
theorem mov_absolute_times {mvhdTimescale : Nat} {tracks : List TimedTrack} {file : ByteFile}
    {first : Sample} {slots : TimedTrack → List Sample}
    (playable : ∀ track ∈ tracks, Playable mvhdTimescale track) (atEnd : file.AtEnd)
    (room : ∀ track ∈ tracks, (slots track).length = track.samples.length) :
    (∀ track ∈ tracks, Yields
      (trackTimesRoundTrip file mvhdTimescale track (first :: slots track))
      (TimesEqual track.samples)) ↔ ∀ track ∈ tracks, Kept mvhdTimescale track := by
  constructor
  · intro equal track member
    exact ((playable track member).kept_iff atEnd (room track member)).mp (equal track member)
  · intro kept track member
    exact ((playable track member).kept_iff atEnd (room track member)).mpr (kept track member)

/-- Sound and pictures that are presented in the order in which they are decoded. -/
def soundTrack : TimedTrack := ⟨[timedSample 20 20, timedSample 43 43], 20, 23, 1000⟩

def plainVideo : TimedTrack := ⟨[timedSample 0 0, timedSample 120 40, timedSample 80 80], 0, 80, 1000⟩

theorem soundTrack_playable : Playable 1000 soundTrack where
  nonempty := nofun
  count := by decide
  timescale := rfl
  positive := by decide
  small := by decide
  started := rfl
  rising := by decide
  times := by decide

theorem plainVideo_playable : Playable 1000 plainVideo where
  nonempty := nofun
  count := by decide
  timescale := rfl
  positive := by decide
  small := by decide
  started := rfl
  rising := by decide
  times := by decide

/-- Both tracks keep all their times. -/
theorem mov_absolute_times_plain :
    Yields (trackTimesRoundTrip emptyFile 1000 soundTrack
        (timedSample 0 0 :: List.replicate 2 (timedSample 0 0))) (TimesEqual soundTrack.samples) ∧
      Yields (trackTimesRoundTrip emptyFile 1000 plainVideo
        (timedSample 0 0 :: List.replicate 3 (timedSample 0 0))) (TimesEqual plainVideo.samples) := by
  have playable : ∀ track ∈ [soundTrack, plainVideo], Playable 1000 track := by
    exact forall_mem_cons.mpr ⟨soundTrack_playable, forall_mem_singleton.mpr plainVideo_playable⟩
  have room : ∀ track ∈ [soundTrack, plainVideo],
      (List.replicate track.samples.length (timedSample 0 0)).length = track.samples.length :=
    fun _ _ => length_replicate
  have kept : ∀ track ∈ [soundTrack, plainVideo], Kept 1000 track := by
    exact forall_mem_cons.mpr ⟨⟨rfl, by decide, by decide, by decide⟩,
      forall_mem_singleton.mpr ⟨rfl, by decide, by decide, by decide⟩⟩
  have equal : ∀ track ∈ [soundTrack, plainVideo], Yields (trackTimesRoundTrip emptyFile 1000 track
      (timedSample 0 0 :: List.replicate track.samples.length (timedSample 0 0)))
        (TimesEqual track.samples) :=
    (mov_absolute_times playable emptyFile_atEnd room).mpr kept
  exact ⟨equal soundTrack mem_cons_self,
    equal plainVideo (mem_cons_of_mem _ mem_cons_self)⟩

/-- Pictures of which the first is presented 40 ticks after it is decoded. -/
def reorderedVideo : TimedTrack := ⟨[timedSample 40 0, timedSample 160 40, timedSample 80 80], 0, 80, 1000⟩

theorem reorderedVideo_playable : Playable 1000 reorderedVideo where
  nonempty := nofun
  count := by decide
  timescale := rfl
  positive := by decide
  small := by decide
  started := rfl
  rising := by decide
  times := by decide

/-- Its samples come back 40 ticks late. -/
theorem mov_reordered_times_shift :
    Playable 1000 reorderedVideo ∧
      ¬Yields (trackTimesRoundTrip emptyFile 1000 reorderedVideo
          (timedSample 0 0 :: List.replicate 3 (timedSample 0 0)))
        (TimesEqual reorderedVideo.samples) := by
  refine ⟨reorderedVideo_playable, ?_⟩
  have room : (List.replicate 3 (timedSample 0 0)).length = reorderedVideo.samples.length := rfl
  rw [reorderedVideo_playable.kept_iff emptyFile_atEnd room]
  intro kept
  exact absurd kept.level (by decide)

end CLibs.Mov
