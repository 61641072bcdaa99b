import CLibs.MovEditList
import CLibs.MovTimeReading

/-!
# Edit lists in a file

An edit list that is written is read back entry by entry, and the last empty
edit sets the time of the first sample.
-/

namespace CLibs.Mov

open List

/-! ## Edits in a file -/

/-- What is read of an edit that was written. -/
def editOf (version duration : Nat) (mediaTime : Int) : Elst where
  segmentDuration := if version = 1 then duration % 2 ^ 64 else duration % 2 ^ 32
  mediaTime := if version = 1 then int64 mediaTime else int32 mediaTime
  mediaRateInteger := 1
  mediaRateFraction := 0

def editText (version duration : Nat) (mediaTime : Int) : List UInt8 :=
  (if version = 1 then bigEndian 8 duration ++ bigEndian 8 (uint64 mediaTime)
    else bigEndian 4 (uint32 duration) ++ bigEndian 4 (uint32 mediaTime)) ++
    (bigEndian 2 1 ++ bigEndian 2 0)

def editWidth (version : Nat) : Nat := if version = 1 then 20 else 12

section Edits

variable {file : ByteFile} {version duration : Nat} {mediaTime : Int} {rest : List UInt8}

theorem writeEdit_eq (atEnd : file.AtEnd) :
    writeEdit file version duration mediaTime =
      file.append (editText version duration mediaTime) := by
  unfold writeEdit editText
  split
  · dsimp only
    rw [w64_eq atEnd, w64_eq atEnd.append, ByteFile.append_append, w16_eq atEnd.append,
      ByteFile.append_append, w16_eq atEnd.append, ByteFile.append_append]
    simp only [append_assoc]
  · dsimp only
    rw [w32_eq atEnd, w32_eq atEnd.append, ByteFile.append_append, w16_eq atEnd.append,
      ByteFile.append_append, w16_eq atEnd.append, ByteFile.append_append]
    simp only [append_assoc]

theorem int64_uint64 (value : Int) : int64 (uint64 value) = int64 value := by
  rw [int64_eq_iff]
  unfold uint64
  omega

theorem int32_uint32 (value : Int) : int32 (uint32 value) = int32 value := by
  unfold int32 uint32
  rw [Int.bmod_def, Int.bmod_def]
  split <;> split <;> omega

theorem readElst_eq (ahead : file.Ahead (editText version duration mediaTime ++ rest)) :
    readElst version file = (editOf version duration mediaTime, file.skip (editWidth version)) ∧
      (file.skip (editWidth version)).Ahead rest := by
  unfold editText at ahead
  unfold readElst editOf editWidth
  by_cases long : version = 1
  · simp only [if_pos long, append_assoc] at ahead ⊢
    obtain ⟨first, ahead⟩ := reads_mod r64_reads ahead
    obtain ⟨second, ahead⟩ := reads_mod r64_reads ahead
    obtain ⟨third, ahead⟩ := r16_reads.bigEndian (by decide) ahead
    obtain ⟨fourth, ahead⟩ := r16_reads.bigEndian (by decide) ahead
    have kept : uint64 mediaTime % 256 ^ 8 = uint64 mediaTime := by
      unfold uint64
      omega
    rw [first]
    dsimp only
    rw [second]
    dsimp only
    rw [third]
    dsimp only
    rw [fourth, kept, int64_uint64]
    simp only [ByteFile.skip_skip] at ahead ⊢
    exact ⟨rfl, ahead⟩
  · simp only [if_neg long, append_assoc] at ahead ⊢
    obtain ⟨first, ahead⟩ := reads_mod r32_reads ahead
    obtain ⟨second, ahead⟩ := reads_mod r32_reads ahead
    obtain ⟨third, ahead⟩ := r16_reads.bigEndian (by decide) ahead
    obtain ⟨fourth, ahead⟩ := r16_reads.bigEndian (by decide) ahead
    have shortened : uint32 (duration : Int) % 256 ^ 4 = duration % 2 ^ 32 := by
      unfold uint32
      omega
    have kept : uint32 mediaTime % 256 ^ 4 = uint32 mediaTime := by
      unfold uint32
      omega
    rw [first]
    dsimp only
    rw [second]
    dsimp only
    rw [third]
    dsimp only
    rw [fourth, shortened, kept, int32_uint32]
    simp only [ByteFile.skip_skip] at ahead ⊢
    exact ⟨rfl, ahead⟩

end Edits

/-! ## The box -/

section Box

variable {file : ByteFile} {mvhdTimescale version : Nat} {track : TimedTrack}
  {edits : List (Nat × Int)} {rest : List UInt8}

def elstEdits (mvhdTimescale : Nat) (track : TimedTrack) : List (Nat × Int) :=
  (if elstDelay mvhdTimescale track > 0 then [(uint64 (elstDelay mvhdTimescale track), -1)]
    else []) ++ [(track.tkhdDuration, elstTime track)]

def editsText (version : Nat) (edits : List (Nat × Int)) : List UInt8 :=
  edits.flatMap fun edit => editText version edit.1 edit.2

def elstBox (version : Nat) (edits : List (Nat × Int)) : List UInt8 :=
  bigEndian 4 (12 + 4 + edits.length * (if version ≠ 0 then 20 else 12)) ++
    (movTag 'e' 'l' 's' 't' ++ tableText version edits.length (editsText version edits))

theorem movWriteElst_eq (atEnd : file.AtEnd)
    (started : track.startDts = (track.samples.getD 0 default).dts) :
    movWriteElst file mvhdTimescale track =
      .ok (file.append (elstBox (elstVersion mvhdTimescale track)
        (elstEdits mvhdTimescale track))) := by
  unfold movWriteElst elstBox elstEdits editsText tableText
  rw [check_eq started, ok_bind]
  dsimp only
  rw [w32_eq atEnd, atEnd.append.write_eq, ByteFile.append_append, w8_eq atEnd.append,
    ByteFile.append_append, w24_eq atEnd.append, ByteFile.append_append, w32_eq atEnd.append,
    ByteFile.append_append]
  by_cases delayed : elstDelay mvhdTimescale track > 0
  · simp only [if_pos delayed, cons_append, nil_append, flatMap_cons,
      flatMap_nil, append_nil, length_cons, length_nil]
    rw [writeEdit_eq atEnd.append, ByteFile.append_append, writeEdit_eq atEnd.append,
      ByteFile.append_append]
    simp only [append_assoc]
    rfl
  · simp only [if_neg delayed, nil_append, flatMap_cons, flatMap_nil,
      append_nil, length_cons, length_nil]
    rw [writeEdit_eq atEnd.append, ByteFile.append_append]
    simp only [append_assoc]
    rfl

theorem movReadElst_eq (known : version = 1 ∨ version = 0) (count : edits.length < 2 ^ 32)
    (ahead : file.Ahead (tableText version edits.length (editsText version edits) ++ rest)) :
    ∃ behind : ByteFile, movReadElst [] file =
        .ok (edits.map fun edit => editOf version edit.1 edit.2, behind) ∧
      behind.Ahead rest := by
  unfold tableText at ahead
  simp only [append_assoc] at ahead
  obtain ⟨versionRead, ahead⟩ := r8_reads.bigEndian
    (by rcases known with rfl | rfl <;> decide) ahead
  obtain ⟨flagsRead, ahead⟩ := r24_reads.bigEndian (by decide) ahead
  obtain ⟨countRead, ahead⟩ := r32_reads.bigEndian count ahead
  obtain ⟨editsRead, ahead⟩ := readEntries_map (fun _ _ _ _ => readElst_eq) ahead
  refine ⟨_, ?_, ahead⟩
  unfold movReadElst
  rw [versionRead]
  dsimp only
  rw [flagsRead]
  dsimp only
  rw [countRead, check_eq rfl, ok_bind, check_eq (.inr known), ok_bind, editsRead]
  rfl

def firstTime (elst : List Elst) : Int :=
  elst.foldl (fun time edit => if edit.mediaTime = -1 then int64 edit.segmentDuration else time) 0

def Sample.atTime (sample : Sample) (time : Int) : Sample :=
  { sample with dts := time, pts := time }

theorem applyEdits_eq (elst : List Elst) (first : Sample) (slots : List Sample) (time : Int) :
    elst.foldlM
      (fun samples edit =>
        if edit.mediaTime = -1 then
          storeSample samples 0 fun sample =>
            { sample with dts := int64 edit.segmentDuration, pts := int64 edit.segmentDuration }
        else .ok samples)
      (first.atTime time :: slots) =
    .ok (first.atTime (elst.foldl
      (fun time edit => if edit.mediaTime = -1 then int64 edit.segmentDuration else time)
      time) :: slots) := by
  induction elst generalizing time with
  | nil => rfl
  | cons edit elst ih =>
    rw [foldlM_cons, foldl_cons]
    by_cases empty : edit.mediaTime = -1
    · rw [if_pos empty, if_pos empty]
      exact ih (int64 edit.segmentDuration)
    · rw [if_neg empty, if_neg empty]
      exact ih time

theorem movApplyElst_eq (elst : List Elst) (first : Sample) (slots : List Sample) :
    movApplyElst elst (first :: slots) = .ok (first.atTime (firstTime elst) :: slots) :=
  applyEdits_eq elst first slots 0

end Box

/-! ## The boxes of a track -/

section Track

variable {file : ByteFile} {mvhdTimescale : Nat} {track : TimedTrack}

/-- The composition offsets behind the decoding times, which are left out when all are zero. -/
def OffsetsText (samples : List Sample) (text : List UInt8) : Prop :=
  (text = [] ∧ ∀ sample ∈ samples, cttsDelta sample = 0) ∨
    ∃ ctts version, version < 256 ∧ Table ctts (samples.map cttsDelta) ∧
      text = timeBox (movTag 'c' 't' 't' 's') version ctts

theorem Marked.all_zero {runs : List (Run Sample)} {deltas : List Nat} (marked : Marked runs deltas)
    (single : runs.length ≤ 1) (zero : ((runItems runs).getD 0 default).samplesPerChunk = 0) :
    ∀ delta ∈ deltas, delta = 0 := by
  rw [marked.deltas]
  intro delta member
  cases runs with
  | nil => exact absurd member not_mem_nil
  | cons run runs =>
    have last : runs = [] := eq_nil_of_length_eq_zero (by
      rw [length_cons] at single
      omega)
    rw [last, flatMap_singleton] at member
    rw [eq_of_mem_replicate member]
    exact zero

theorem writeTrackTimes_tables (atEnd : file.AtEnd)
    (started : track.startDts = (track.samples.getD 0 default).dts)
    (nonempty : track.samples ≠ []) (bound : track.samples.length < 2 ^ 32)
    (ordered : track.samples.IsChain fun sample next => sample.dts ≤ next.dts) :
    Yields (writeTrackTimes file mvhdTimescale track) fun written => ∃ stts offsets,
      Table stts (sttsDeltas (track.samples.map (·.dts))) ∧ OffsetsText track.samples offsets ∧
        written = file.append (elstBox (elstVersion mvhdTimescale track)
          (elstEdits mvhdTimescale track) ++
            (timeBox (movTag 's' 't' 't' 's') 0 stts ++ offsets)) := by
  apply Yields.step (movWriteElst_eq atEnd started)
  apply Yields.bind (movBuildStts_runs ordered bound)
  rintro stts ⟨sttsRuns, sttsBuilt⟩
  have same := congrArg List.length sttsBuilt.unmarked
  rw [length_map, length_map] at same
  have offsets : stts.samples.map cttsDelta = track.samples.map cttsDelta :=
    map_of_unmarked (fun _ => rfl) sttsBuilt.unmarked
  apply Yields.bind (movBuildCtts_runs (by rwa [same]))
  rintro ctts ⟨cttsRuns, cttsBuilt⟩
  rw [offsets] at cttsBuilt
  have long : ctts.samples.length > 0 := by
    have length := congrArg List.length cttsBuilt.unmarked
    rw [length_map, length_map, same] at length
    rw [length]
    exact length_pos_iff.mpr nonempty
  have table := sttsTable bound sttsBuilt.marked
  have first (box : List UInt8) : movWriteStts (file.append box) stts.samples stts.count =
      file.append (box ++ timeBox (movTag 's' 't' 't' 's') 0 (runEntries sttsRuns)) := by
    rw [sttsBuilt.samples, sttsBuilt.count, movWriteStts_eq sttsBuilt.marked atEnd.append,
      ByteFile.append_append]
  apply Yields.ite
  · intro written
    apply Yields.pure
    refine ⟨_, _, table, .inr ⟨runEntries cttsRuns, if ctts.cttsV1 then 1 else 0, ?_,
      cttsTable bound cttsBuilt.marked, rfl⟩, ?_⟩
    · split <;> decide
    · rw [first, cttsBuilt.samples, cttsBuilt.count,
        movWriteCtts_eq cttsBuilt.marked atEnd.append, ByteFile.append_append, append_assoc]
  · intro omitted
    apply Yields.pure
    refine ⟨_, [], table, .inl ⟨rfl, ?_⟩, ?_⟩
    · have few : cttsRuns.length ≤ 1 ∧
          ((runItems cttsRuns).getD 0 default).samplesPerChunk = 0 := by
        rw [← cttsBuilt.samples, ← cttsBuilt.count]
        by_contra many
        apply omitted
        refine ⟨long, ?_⟩
        by_contra none
        apply many
        constructor
        · omega
        · by_contra differs
          exact none (.inr differs)
      intro sample member
      exact cttsBuilt.marked.all_zero few.1 few.2 _ (mem_map_of_mem member)
    · rw [first, append_nil]

/-- What a reader finds that starts at `start`: the running sums with offsets that
are those of the samples when these fit an `int32_t`. -/
def ReadFrom (start : Int) (samples read : List Sample) : Prop :=
  ∃ offsets : List Int, offsets.length = samples.length ∧
    (∀ offset ∈ offsets, offset < 2 ^ 31 ∧ -2 ^ 31 ≤ offset) ∧
    ((∀ sample ∈ samples, 0 ≤ sample.pts - sample.dts ∧ sample.pts - sample.dts < 2 ^ 31) →
      offsets = samples.map fun sample => sample.pts - sample.dts) ∧
    ∀ i < samples.length,
      let time := (start :: advance start (sttsDeltas (samples.map (·.dts)))).getD i 0
      (read.getD i default).dts = time ∧
        (read.getD i default).pts = int64 (time + offsets.getD i 0)

theorem cttsDelta_small {sample : Sample} (nonneg : 0 ≤ sample.pts - sample.dts)
    (near : sample.pts - sample.dts < 2 ^ 31) :
    ((cttsDelta sample : Nat) : Int) = sample.pts - sample.dts := by
  unfold cttsDelta
  rw [int64_of_lt nonneg (by omega), uint32_of_lt nonneg (by omega)]

theorem advance_range {start : Int} (range : -2 ^ 63 ≤ start ∧ start < 2 ^ 63) (deltas : List Nat)
    (i : Nat) : -2 ^ 63 ≤ (start :: advance start deltas).getD i 0 ∧
      (start :: advance start deltas).getD i 0 < 2 ^ 63 := by
  induction deltas generalizing start i with
  | nil =>
    cases i with
    | zero => exact range
    | succ i =>
      simp [advance]
  | cons delta deltas ih =>
    cases i with
    | zero => exact range
    | succ i => exact ih (int64_range _) i

theorem firstTime_range (elst : List Elst) : -2 ^ 63 ≤ firstTime elst ∧ firstTime elst < 2 ^ 63 := by
  have folded (time : Int) (range : -2 ^ 63 ≤ time ∧ time < 2 ^ 63) :
      -2 ^ 63 ≤ elst.foldl (fun time edit =>
          if edit.mediaTime = -1 then int64 edit.segmentDuration else time) time ∧
        elst.foldl (fun time edit =>
          if edit.mediaTime = -1 then int64 edit.segmentDuration else time) time < 2 ^ 63 := by
    induction elst generalizing time with
    | nil => exact range
    | cons edit elst ih =>
      rw [foldl_cons]
      apply ih
      split
      · exact int64_range _
      · exact range
  exact folded 0 (by decide)

theorem movApplyCtts_none {stbl : Stbl} (none : stbl.ctts = []) (sampleCount : Nat)
    (samples : List Sample) : movApplyCtts stbl sampleCount samples = .ok samples := by
  unfold movApplyCtts
  dsimp only
  rw [none, check_eq (dtsShift_nonpos _), ok_bind]
  unfold applyEntries
  rw [ok_bind]
  dsimp only
  rw [check_eq (.inl rfl), ok_bind]
  rfl

variable {first : Sample} {samples slots : List Sample} {text : List UInt8} {stts : List Stts}

theorem readFrom_omitted (zero : ∀ sample ∈ samples, cttsDelta sample = 0)
    (room : slots.length = samples.length) (level : first.pts = first.dts)
    (range : -2 ^ 63 ≤ first.dts ∧ first.dts < 2 ^ 63) :
    ReadFrom first.dts samples
      (first :: setTimes first.dts (sttsDeltas (samples.map (·.dts))) slots) := by
  have length : (sttsDeltas (samples.map (·.dts))).length = samples.length := by
    rw [sttsDeltas_length, length_map]
  refine ⟨samples.map fun _ => 0, length_map _, ?_, ?_, ?_⟩
  · intro offset member
    obtain ⟨sample, -, rfl⟩ := mem_map.mp member
    decide
  · intro small
    apply map_congr_left
    intro sample member
    rw [← cttsDelta_small (small sample member).1 (small sample member).2, zero sample member]
    rfl
  · intro i inside
    have within := advance_range range (sttsDeltas (samples.map (·.dts))) i
    have none : (samples.map fun _ => (0 : Int)).getD i 0 = 0 := by simp [inside]
    have timed : ((first :: setTimes first.dts (sttsDeltas (samples.map (·.dts))) slots).getD i
        default).dts = _ ∧ _ := setTimes_level level (by omega) (by omega)
    dsimp only
    rw [none, Int.add_zero, int64_eq_self within.1 within.2]
    exact timed

theorem int32_range (value : Int) : int32 value < 2 ^ 31 ∧ -2 ^ 31 ≤ int32 value := by
  unfold int32
  rw [Int.bmod_def]
  split <;> omega

theorem readFrom_shifted {ctts : List Stts} (table : Table ctts (samples.map cttsDelta))
    (room : slots.length = samples.length) (level : first.pts = first.dts) :
    ReadFrom first.dts samples (setOffsets (shiftedOffsets ctts (samples.map cttsDelta))
      (first :: setTimes first.dts (sttsDeltas (samples.map (·.dts))) slots)) := by
  have length : (sttsDeltas (samples.map (·.dts))).length = samples.length := by
    rw [sttsDeltas_length, length_map]
  have count : (shiftedOffsets ctts (samples.map cttsDelta)).length = samples.length := by
    unfold shiftedOffsets
    rw [length_map, length_map]
  refine ⟨_, count, ?_, ?_, ?_⟩
  · intro offset member
    obtain ⟨delta, -, rfl⟩ := mem_map.mp member
    exact int32_range _
  · intro small
    rw [shiftedOffsets_small table, map_map]
    · apply map_congr_left
      intro sample member
      exact cttsDelta_small (small sample member).1 (small sample member).2
    · intro delta member
      obtain ⟨sample, inside, rfl⟩ := mem_map.mp member
      have value := cttsDelta_small (small sample inside).1 (small sample inside).2
      have bound := (small sample inside).2
      omega
  · intro i inside
    exact movApplied_getD level (by omega) (by omega) (by omega)

theorem readOffsets (offsets : OffsetsText samples text) (room : slots.length = samples.length)
    (level : first.pts = first.dts) (range : -2 ^ 63 ≤ first.dts ∧ first.dts < 2 ^ 63)
    (ahead : file.Ahead text) :
    Yields (readLastBox { noStbl with stts := stts } file) fun last => last.1.stts = stts ∧
      Yields (movApplyCtts last.1 samples.length
        (first :: setTimes first.dts (sttsDeltas (samples.map (·.dts))) slots))
        (ReadFrom first.dts samples) := by
  have left := congrArg List.length ahead.text
  rw [length_drop] at left
  have inside := ahead.inside
  unfold readLastBox
  rcases offsets with ⟨rfl, zero⟩ | ⟨ctts, version, known, table, rfl⟩
  · rw [length_nil] at left
    rw [if_neg (by omega)]
    refine ⟨_, rfl, rfl, _, movApplyCtts_none rfl _ _, ?_⟩
    exact readFrom_omitted zero room level range
  · have long : 16 ≤ (timeBox (movTag 'c' 't' 't' 's') version ctts).length := by
      unfold timeBox tableText
      simp only [length_append, bigEndian_length, movTag, length_map, length_cons,
        length_nil]
      omega
    rw [if_pos (by omega)]
    rw [← append_nil (timeBox _ _ _)] at ahead
    have empty : { noStbl with stts := stts }.ctts = [] := rfl
    obtain ⟨behind, read, -⟩ := readTimeBox_ctts empty known table.count table.fits ahead
    refine ⟨_, read, rfl, ?_⟩
    have applied : movApplyCtts { noStbl with stts := stts, ctts := ctts } _
        (first :: setTimes first.dts (sttsDeltas (samples.map (·.dts))) slots) = _ :=
      movApplyCtts_shifted table (by
        rw [length_map, length_cons, setTimes_length]
        omega)
    rw [length_map] at applied
    exact ⟨_, applied, readFrom_shifted table room level⟩

theorem readTrackTimes_reads {version : Nat} {edits : List (Nat × Int)}
    (known : version = 1 ∨ version = 0) (few : edits.length < 2 ^ 26)
    (table : Table stts (sttsDeltas (samples.map (·.dts)))) (offsets : OffsetsText samples text)
    (room : slots.length = samples.length)
    (ahead : file.Ahead (elstBox version edits ++
      (timeBox (movTag 's' 't' 't' 's') 0 stts ++ text))) :
    Yields (readTrackTimes file samples.length (first :: slots))
      (ReadFrom (firstTime (edits.map fun edit => editOf version edit.1 edit.2)) samples) := by
  have length : (sttsDeltas (samples.map (·.dts))).length = samples.length := by
    rw [sttsDeltas_length, length_map]
  have small : 12 + 4 + edits.length * (if version ≠ 0 then 20 else 12) < 2 ^ 32 := by
    split <;> omega
  unfold elstBox at ahead
  simp only [append_assoc] at ahead
  obtain ⟨opened, header, ahead⟩ := readBoxHeader_eq rfl small ahead
  obtain ⟨behind, elstRead, ahead⟩ := movReadElst_eq known (by omega) ahead
  have empty : noStbl.stts = [] := rfl
  obtain ⟨last, sttsRead, ahead⟩ := readTimeBox_stts empty (by decide) table.count table.fits ahead
  unfold readTrackTimes
  rw [header]
  apply Yields.step elstRead
  apply Yields.step sttsRead
  have start := firstTime_range (edits.map fun edit => editOf version edit.1 edit.2)
  apply Yields.bind (readOffsets offsets room
    (rfl : (first.atTime (firstTime (edits.map fun edit => editOf version edit.1 edit.2))).pts = _)
    start ahead)
  rintro ⟨stbl, file⟩ ⟨same, applied⟩
  apply Yields.step (movApplyElst_eq _ first slots)
  rw [← same] at table
  have times : movApplyStts stbl (sttsDeltas (samples.map (·.dts))).length
      (first.atTime (firstTime (edits.map fun edit => editOf version edit.1 edit.2)) :: slots) = _ :=
    movApplyStts_eq table (by omega)
  rw [length] at times
  apply Yields.step times
  exact applied

end Track

end CLibs.Mov
