import CLibs.MovTimeReading

/-!
# Relative times of a track

The tables are written at the end of a file and read into the slots of another
track.  Distances from the first decoding time survive exactly if no two samples
have the same one; composition offsets always do.
-/

namespace CLibs.Mov

open List

/-- The samples of a track as the writer takes them. -/
structure Timed (samples : List Sample) : Prop where
  nonempty : samples ≠ []
  count : samples.length < 2 ^ 32
  ordered : samples.IsChain fun sample next =>
    sample.dts ≤ next.dts ∧ next.dts - sample.dts < 2 ^ 32
  offset : ∀ sample ∈ samples, 0 ≤ sample.pts - sample.dts ∧ sample.pts - sample.dts < 2 ^ 31

/-- The distances from the first decoding time and the composition offsets of
the samples are those that were written, as `int64_t` values. -/
def TimesPreserved (samples read : List Sample) : Prop :=
  ∀ i < samples.length,
    int64 ((read.getD i default).dts - (read.getD 0 default).dts) =
        int64 ((samples.getD i default).dts - (samples.getD 0 default).dts) ∧
      int64 ((read.getD i default).pts - (read.getD i default).dts) =
        (samples.getD i default).pts - (samples.getD i default).dts

section RoundTrip

variable {file : ByteFile} {first : Sample} {samples slots : List Sample}

theorem Timed.cttsDelta_eq (timed : Timed samples) {sample : Sample} (member : sample ∈ samples) :
    ((cttsDelta sample : Nat) : Int) = sample.pts - sample.dts := by
  obtain ⟨nonneg, bound⟩ := timed.offset sample member
  unfold cttsDelta
  rw [int64_of_lt nonneg (by omega), uint32_of_lt nonneg (by omega)]

def readBack (first : Sample) (samples slots : List Sample) : List Sample :=
  setOffsets (samples.map fun sample => sample.pts - sample.dts)
    (first :: setTimes first.dts (sttsDeltas (samples.map (·.dts))) slots)

theorem Timed.roundTrip_eq (timed : Timed samples) (atEnd : file.AtEnd)
    (room : slots.length = samples.length) :
    timesRoundTrip file samples (first :: slots) = .ok (readBack first samples slots) := by
  have rising : samples.IsChain fun sample next => sample.dts ≤ next.dts :=
    timed.ordered.imp fun _ _ => And.left
  obtain ⟨written, returned, stts, ctts, version, sttsTable, cttsTable, known, rfl⟩ :=
    writeTimes_tables rising timed.count atEnd
  have sttsLength : (sttsDeltas (samples.map (·.dts))).length = samples.length := by
    rw [sttsDeltas_length, length_map]
  have offsets : (samples.map cttsDelta).map (fun delta : Nat => (delta : Int)) =
      samples.map fun sample => sample.pts - sample.dts := by
    rw [map_map]
    exact map_congr_left fun sample member => timed.cttsDelta_eq member
  have small : ∀ delta ∈ samples.map cttsDelta, delta < 2 ^ 31 := by
    intro delta member
    obtain ⟨sample, inside, rfl⟩ := mem_map.mp member
    have value := timed.cttsDelta_eq inside
    have bound := (timed.offset sample inside).2
    omega
  have ahead := ByteFile.seek_append file (timeBox (movTag 's' 't' 't' 's') 0 stts ++
    timeBox (movTag 'c' 't' 't' 's') version ctts)
  have read := readTimes_eq first sttsTable cttsTable known (by rw [length_map, sttsLength])
    (by rw [sttsLength, room]) small ahead
  rw [sttsLength, offsets] at read
  unfold timesRoundTrip readBack
  rw [returned, ok_bind, read]

theorem readBack_preserved (level : first.pts = first.dts) (timed : Timed samples)
    (room : slots.length = samples.length) {dts : Int} {times : List Int}
    (given : samples.map (·.dts) = dts :: times) :
    TimesPreserved samples (readBack first samples slots) ↔ Sums first.dts dts times := by
  have sttsLength : (sttsDeltas (samples.map (·.dts))).length = samples.length := by
    rw [sttsDeltas_length, length_map]
  have count : samples.length = times.length + 1 := by
    have length := congrArg List.length given
    rwa [length_map] at length
  have written (i : Nat) (inside : i < samples.length) :
      (samples.getD i default).dts = (dts :: times).getD i 0 := by
    rw [← given]
    simp [inside]
  have read (i : Nat) (inside : i < samples.length) :
      ((readBack first samples slots).getD i default).dts =
          (first.dts :: advance first.dts (sttsDeltas (dts :: times))).getD i 0 ∧
        ((readBack first samples slots).getD i default).pts =
          int64 ((first.dts :: advance first.dts (sttsDeltas (dts :: times))).getD i 0 +
            ((samples.getD i default).pts - (samples.getD i default).dts)) := by
    have found : ((readBack first samples slots).getD i default).dts = _ ∧
        ((readBack first samples slots).getD i default).pts = _ :=
      movApplied_getD level (by rwa [length_map]) (by rw [length_map, sttsLength])
        (by rw [sttsLength, room])
    have offset : (samples.map fun sample => sample.pts - sample.dts).getD i 0 =
        (samples.getD i default).pts - (samples.getD i default).dts := by simp [inside]
    rw [offset] at found
    rw [← given]
    exact found
  have zero := (read 0 (by omega)).1
  have start := written 0 (by omega)
  rw [getD_cons_zero] at zero start
  constructor
  · intro preserved i small
    have kept := (preserved i (by omega)).1
    rwa [zero, start, (read i (by omega)).1, written i (by omega)] at kept
  · intro sums i inside
    obtain ⟨time, composed⟩ := read i inside
    have member : samples.getD i default ∈ samples := by
      rw [getD_eq_getElem?_getD, List.getElem?_eq_getElem inside]
      exact getElem_mem inside
    obtain ⟨nonneg, bound⟩ := timed.offset _ member
    constructor
    · rw [zero, start, time, written i inside]
      exact sums i (by omega)
    · rw [time, composed, ← int64_of_lt nonneg (by omega), int64_eq_iff]
      have wrapped := int64_emod
        ((first.dts :: advance first.dts (sttsDeltas (dts :: times))).getD i 0 +
          ((samples.getD i default).pts - (samples.getD i default).dts))
      rw [int64_of_lt nonneg (by omega)]
      omega

/-- Relative times survive the tables exactly if no two samples have the same
decoding time.  The reader has one slot more than there are samples, and the
first has been set by the edit list, with the same two times. -/
theorem mov_relative_times (timed : Timed samples) (atEnd : file.AtEnd)
    (room : slots.length = samples.length) (level : first.pts = first.dts) :
    Yields (timesRoundTrip file samples (first :: slots)) (TimesPreserved samples) ↔
      samples.IsChain fun sample next => sample.dts < next.dts := by
  have roundTrip : timesRoundTrip file samples (first :: slots) = _ :=
    timed.roundTrip_eq atEnd room
  cases given : samples.map (·.dts) with
  | nil => exact absurd (map_eq_nil_iff.mp given) timed.nonempty
  | cons dts times =>
    have ordered : (dts :: times).IsChain fun time next => time ≤ next ∧ next - time < 2 ^ 32 := by
      rw [← given, isChain_map]
      exact timed.ordered
    have strict : (samples.IsChain fun sample next => sample.dts < next.dts) ↔
        (dts :: times).IsChain (· < ·) := by rw [← given, isChain_map]
    rw [strict, ← sums_iff ordered, ← readBack_preserved level timed room given]
    constructor
    · rintro ⟨read, returned, preserved⟩
      rw [roundTrip] at returned
      rwa [Except.ok.inj returned]
    · exact fun preserved => ⟨_, roundTrip, preserved⟩

end RoundTrip

def timedSample (pts dts : Int) : Sample := ⟨pts, dts, 0, 1, 1, 0, 0⟩

/-- A key frame, a frame that is shown late and one that is decoded late. -/
def risingTimes : List Sample := [timedSample 40 0, timedSample 160 40, timedSample 80 80]

theorem risingTimes_timed : Timed risingTimes where
  nonempty := nofun
  count := by decide
  ordered := by decide
  offset := by decide

/-- Three samples that are decoded at rising times. -/
theorem mov_relative_times_rising :
    Yields (timesRoundTrip emptyFile risingTimes
      (timedSample 0 0 :: List.replicate 3 (timedSample 0 0))) (TimesPreserved risingTimes) := by
  have room : (List.replicate 3 (timedSample 0 0)).length = risingTimes.length := rfl
  have level : (timedSample 0 0).pts = (timedSample 0 0).dts := rfl
  exact (mov_relative_times risingTimes_timed emptyFile_atEnd room level).mpr (by decide)

/-- Two samples that are decoded at the same time. -/
def equalTimes : List Sample := [timedSample 5 5, timedSample 5 5]

theorem equalTimes_timed : Timed equalTimes where
  nonempty := nofun
  count := by decide
  ordered := by decide
  offset := by decide

/-- The second sample comes back one tick later. -/
theorem mov_equal_times_drift :
    Timed equalTimes ∧
      ¬Yields (timesRoundTrip emptyFile equalTimes
        (timedSample 0 0 :: List.replicate 2 (timedSample 0 0))) (TimesPreserved equalTimes) := by
  refine ⟨equalTimes_timed, ?_⟩
  rintro ⟨read, returned, preserved⟩
  have room : (List.replicate 2 (timedSample 0 0)).length = equalTimes.length := rfl
  have known : timesRoundTrip emptyFile equalTimes
      (timedSample 0 0 :: List.replicate 2 (timedSample 0 0)) = _ :=
    equalTimes_timed.roundTrip_eq emptyFile_atEnd room
  have same : readBack (timedSample 0 0) equalTimes (List.replicate 2 (timedSample 0 0)) = read :=
    Except.ok.inj (known.symm.trans returned)
  rw [← same] at preserved
  exact absurd (preserved 1 (by decide)).1 (by decide)

end CLibs.Mov
