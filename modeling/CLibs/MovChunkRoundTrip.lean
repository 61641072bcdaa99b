import CLibs.MovChunkReading
import Mathlib.Data.List.GetD
import Mathlib.Data.List.Range

/-!
# Sample locations of a track

The sizes, offsets and descriptions of the samples survive the tables exactly if
the number of samples leaves room for one more in 32 bits: the reader allocates
that many samples, and for `2 ^ 32 - 1` of them it allocates none.
-/

namespace CLibs.Mov

open List

/-- The samples of a track: none is empty and none reaches into the next. -/
structure Placed (samples : List Sample) : Prop where
  nonempty : samples ≠ []
  count : samples.length < 2 ^ 32
  bytes : ∀ sample ∈ samples, 0 < sample.bytes ∧ sample.bytes < 2 ^ 32
  offset : ∀ sample ∈ samples, sample.offset < 2 ^ 64
  index : ∀ sample ∈ samples, sample.sampleDescriptionIndex < 2 ^ 32
  ordered : samples.IsChain fun sample next => sample.offset + sample.bytes ≤ next.offset

/-- All samples have their size, place and description again. -/
def LocationsPreserved (samples : List Sample) (track : ReadTrack) : Prop :=
  track.sampleCount = samples.length ∧ ∀ i < samples.length,
    (track.samples.getD i default).bytes = (samples.getD i default).bytes ∧
      (track.samples.getD i default).offset = (samples.getD i default).offset ∧
        (track.samples.getD i default).sampleDescriptionIndex =
          (samples.getD i default).sampleDescriptionIndex

section Domain

variable {samples items : List Sample} {runs : List (Run Sample)}

theorem Placed.of_unmarked (placed : Placed samples)
    (same : items.map Sample.unmarked = samples.map Sample.unmarked) : Placed items := by
  have length := congrArg List.length same
  rw [length_map, length_map] at length
  have origin : ∀ item ∈ items, ∃ sample ∈ samples, sample.bytes = item.bytes ∧
      sample.offset = item.offset ∧
        sample.sampleDescriptionIndex = item.sampleDescriptionIndex := by
    intro item member
    have marked : item.unmarked ∈ samples.map Sample.unmarked := by
      rw [← same]
      exact mem_map_of_mem member
    obtain ⟨sample, inside, equal⟩ := mem_map.mp marked
    injection equal with _ _ offset bytes index
    exact ⟨sample, inside, bytes, offset, index⟩
  constructor
  · intro empty
    subst empty
    exact placed.nonempty (length_eq_zero_iff.mp length.symm)
  · rw [length]
    exact placed.count
  · intro item member
    obtain ⟨sample, inside, bytes, -⟩ := origin item member
    rw [← bytes]
    exact placed.bytes sample inside
  · intro item member
    obtain ⟨sample, inside, -, offset, -⟩ := origin item member
    rw [← offset]
    exact placed.offset sample inside
  · intro item member
    obtain ⟨sample, inside, -, -, index⟩ := origin item member
    rw [← index]
    exact placed.index sample inside
  · have ordered : (samples.map Sample.unmarked).IsChain
        fun sample next => sample.offset + sample.bytes ≤ next.offset :=
      (isChain_map Sample.unmarked).mpr placed.ordered
    rw [← same] at ordered
    exact (isChain_map Sample.unmarked).mp ordered

theorem Placed.apart (placed : Placed samples) : samples.IsChain Apart := by
  apply placed.ordered.imp
  intro sample next before
  exact (Nat.mod_le _ _).trans before

theorem offset_le_last {last : Sample}
    (ordered : samples.IsChain fun sample next => sample.offset + sample.bytes ≤ next.offset)
    (ends : samples.getLast? = some last) : ∀ sample ∈ samples, sample.offset ≤ last.offset := by
  induction samples with
  | nil => exact absurd ends nofun
  | cons sample samples ih =>
    cases samples with
    | nil =>
      intro other member
      have same : sample = last := Option.some.inj ends
      rw [mem_singleton.mp member, same]
    | cons next samples =>
      obtain ⟨before, others⟩ := isChain_cons_cons.mp ordered
      have later := ih others ends
      intro other member
      rcases mem_cons.mp member with rfl | inside
      · have bound := later next mem_cons_self
        omega
      · exact later other inside

theorem isCo64_eq {last : Sample} (ends : samples.getLast? = some last) (trackOffset : Nat) :
    isCo64 samples trackOffset = decide ((last.offset + trackOffset) % 2 ^ 64 > uint32Max) := by
  unfold isCo64
  rw [ends]

theorem Placed.fits (placed : Placed samples) {sample : Sample} (member : sample ∈ samples) :
    sample.offset < 256 ^ (if isCo64 samples 0 then 8 else 4) := by
  have below := placed.offset sample member
  cases ends : samples.getLast? with
  | none =>
    rw [List.getLast?_eq_none_iff] at ends
    exact absurd ends placed.nonempty
  | some last =>
    have most := offset_le_last placed.ordered ends sample member
    have limit := placed.offset last (mem_of_getLast? ends)
    rw [isCo64_eq ends, Nat.add_zero, Nat.mod_eq_of_lt limit]
    by_cases large : last.offset > uint32Max
    · rw [decide_eq_true large]
      exact below
    · rw [decide_eq_false large]
      unfold uint32Max at large
      change sample.offset < 256 ^ 4
      omega

theorem sizesDiffer_eq {samples : List Sample} (equal : sizesDiffer samples = false) :
    samples.map (·.bytes) =
      List.replicate (samples.map (·.bytes)).length ((samples.map (·.bytes)).headD 0) := by
  induction samples with
  | nil => rfl
  | cons first samples ih =>
    cases samples with
    | nil => rfl
    | cons second samples =>
      rw [sizesDiffer, Bool.or_eq_false_iff, decide_eq_false_iff_not, not_not] at equal
      have others := ih equal.2
      rw [map_cons, length_cons, replicate_succ, others, length_replicate]
      rw [map_cons, headD_cons, headD_cons, equal.1]

theorem Chunks.number (chunks : Chunks runs) {run : Run Sample} (member : run ∈ runs) :
    1 ≤ run.head.firstChunk ∧ run.head.firstChunk ≤ runs.length := by
  have inside : run.head.firstChunk ∈ runs.map (·.head.firstChunk) := mem_map_of_mem member
  rw [chunks.numbered, List.mem_range'_1] at inside
  omega

theorem Chunks.stsc_fits (chunks : Chunks runs) (placed : Placed (runItems runs)) {entry : Stsc}
    (member : entry ∈ stscEntries none (runs.map (·.head))) :
    entry.firstChunk < 2 ^ 32 ∧ entry.samplesPerChunk < 2 ^ 32 ∧
      entry.sampleDescriptionIndex < 2 ^ 32 := by
  obtain ⟨head, inside, rfl⟩ := mem_stscEntries member
  obtain ⟨run, inRuns, rfl⟩ := mem_map.mp inside
  have part : run.items.Sublist (runItems runs) :=
    sublist_flatten_of_mem (mem_map_of_mem inRuns)
  have count := placed.count
  have few := runs_le_items runs
  have number := chunks.number inRuns
  have length := part.length_le
  have samples : run.head.samplesPerChunk = run.items.length := (chunks.gathered run inRuns).count
  have index := placed.index run.head (part.subset mem_cons_self)
  unfold Sample.stsc
  dsimp only
  omega

end Domain

section RoundTrip

variable {file : ByteFile} {samples : List Sample} {runs : List (Run Sample)} {track : ReadTrack}

def chunkBoxes (runs : List (Run Sample)) : List UInt8 :=
  stscBox (stscEntries none (runs.map (·.head))) ++
    (stszBox (sizesDiffer (runItems runs)) ((runItems runs).map (·.bytes)) ++
      stcoBox (isCo64 (runItems runs) 0) (runs.map (chunkOffset 0)))

theorem writeChunks_eq {stsdCount : Nat} (placed : Placed samples) (described : stsdCount > 0)
    (atEnd : file.AtEnd) :
    Yields (writeChunks file stsdCount 0 samples) fun written => ∃ runs, Chunks runs ∧
      (runItems runs).map Sample.unmarked = samples.map Sample.unmarked ∧
        written = file.append (chunkBoxes runs) := by
  apply Yields.bind (movBuildStco_chunks described placed.count
    fun sample member => (placed.bytes sample member).2)
  rintro built ⟨runs, items, chunks, count, unmarked⟩
  have heads : ∀ run ∈ runs, run.head.firstChunk ≠ 0 :=
    fun run member => Nat.ne_of_gt (chunks.number member).1
  have members : ∀ run ∈ runs, ∀ sample ∈ run.members, sample.firstChunk = 0 :=
    fun run member => (chunks.gathered run member).members
  apply Yields.pure
  refine ⟨runs, chunks, unmarked, ?_⟩
  rw [items, count, movWriteStsc_eq heads members atEnd, movWriteStsz_eq atEnd.append,
    ByteFile.append_append, movWriteStco_eq heads members atEnd.append, ByteFile.append_append]
  unfold chunkBoxes
  rw [append_assoc]

theorem Chunks.applyStco (chunks : Chunks runs) (placed : Placed (runItems runs))
    (room : (runItems runs).length + 1 < 2 ^ 32) (after : List Sample)
    (stsc : track.stbl.stsc = stscEntries none (runs.map (·.head)))
    (stco : track.stbl.stco = (runs.map (·.head)).map (·.offset))
    (sizes : track.samples = (runItems runs).map (fun sample => sized sample.bytes) ++ after)
    (count : track.sampleCount = (runItems runs).length) :
    movApplyStco track =
      .ok { track with samples := (runItems runs).map located ++ after } := by
  cases runs with
  | nil => exact absurd rfl placed.nonempty
  | cons run runs =>
    have few := runs_le_items (run :: runs)
    have numbered := chunks.numbered
    rw [map_cons, length_cons, List.range'_succ] at numbered
    have first : run.head.firstChunk = 0 + 1 := head_eq_of_cons_eq numbered
    have others : (runs.map (·.head)).map (·.firstChunk) =
        List.range' (0 + [run.head].length + 1) (runs.map (·.head)).length := by
      rw [map_map, length_map]
      exact tail_eq_of_cons_eq numbered
    have alone : ∀ other ∈ [run.head], run.head.samplesPerChunk = other.samplesPerChunk ∧
        run.head.sampleDescriptionIndex = other.sampleDescriptionIndex := by
      intro other member
      rw [mem_singleton.mp member]
      exact ⟨rfl, rfl⟩
    have entries : stscEntries none ((run :: runs).map (·.head)) =
        run.head.stsc :: stscEntries (some run.head) (runs.map (·.head)) := by
      rw [map_cons, stscEntries, if_neg]
      rintro ⟨_, ⟨⟩, _⟩
    have chunked (samples : List Sample) : applyStsc _ _ 0 samples = _ :=
      applyStsc_entries [] [run.head] (cons_ne_nil _ _) alone first others (by
        rw [length_map]
        simp only [length_cons, length_nil] at few ⊢
        omega)
    have applied := applyHeads_eq [] after chunks.gathered
      (fun sample member => (placed.bytes sample member).1) placed.apart
    have found : applyStsc track.stbl.stco track.stbl.stsc 0 track.samples =
        .ok (track.sampleCount, (runItems (run :: runs)).map located ++ after) := by
      rw [stco, stsc, entries, sizes, count]
      refine (chunked _).trans (applied.trans ?_)
      rw [length_nil, Nat.zero_add, nil_append]
    have used : track.stbl.stsc.length > 0 ∧ track.stbl.stco.length > 0 := by
      rw [stsc, entries, stco]
      exact ⟨Nat.succ_pos _, Nat.succ_pos _⟩
    unfold movApplyStco
    rw [check_eq used, ok_bind, found, ok_bind]
    dsimp only
    rw [check_eq rfl, ok_bind]
    rfl

theorem readChunks_sizes (chunks : Chunks runs) (placed : Placed (runItems runs))
    (ahead : file.Ahead (chunkBoxes runs)) :
    ∃ behind : ByteFile,
      behind.Ahead (stcoBox (isCo64 (runItems runs) 0) (runs.map (chunkOffset 0))) ∧
        readChunks file =
          if (stscEntries none (runs.map (·.head))).length <
              ((stscEntries none (runs.map (·.head))).length + 1) % 2 ^ 32 then
            storeSizes ((runItems runs).map (·.bytes)) (((runItems runs).length + 1) % 2 ^ 32) >>=
              fun samples => readChunkBox ⟨samples, (runItems runs).length,
                { noTrack.stbl with stsc := stscEntries none (runs.map (·.head)) }⟩ behind >>=
                  fun found => movApplyStco found.1
          else .error .outside := by
  have count := placed.count
  have few := runs_le_items runs
  have entries := stscEntries_length_le none (runs.map (·.head))
  have sizes : ∀ size ∈ (runItems runs).map (·.bytes), 0 < size ∧ size < 2 ^ 32 := by
    intro size member
    obtain ⟨sample, inside, rfl⟩ := mem_map.mp member
    exact placed.bytes sample inside
  rw [length_map] at entries
  unfold chunkBoxes at ahead
  obtain ⟨behind, ahead, stscRead⟩ := readChunkBox_stsc noTrack rfl (by omega)
    (fun entry => chunks.stsc_fits placed) ahead
  obtain ⟨behind, ahead, stszRead⟩ := readChunkBox_stsz { noTrack with
    stbl := { noTrack.stbl with stsc := stscEntries none (runs.map (·.head)) } } rfl rfl
    (by rwa [length_map]) sizes (fun empty => placed.nonempty (map_eq_nil_iff.mp empty))
    sizesDiffer_eq ahead
  rw [length_map] at stszRead
  dsimp only at stscRead stszRead
  refine ⟨behind, ahead, ?_⟩
  unfold readChunks
  rw [stscRead]
  split
  · rw [ok_bind]
    dsimp only
    rw [stszRead, bind_assoc]
    apply congrArg
    funext samples
    rw [ok_bind]
  · rfl

theorem readChunks_eq (chunks : Chunks runs) (placed : Placed (runItems runs))
    (room : (runItems runs).length + 1 < 2 ^ 32) (ahead : file.Ahead (chunkBoxes runs)) :
    Yields (readChunks file) fun track => track.sampleCount = (runItems runs).length ∧
      ∃ after, track.samples = (runItems runs).map located ++ after := by
  have few := runs_le_items runs
  have entries := stscEntries_length_le none (runs.map (·.head))
  rw [length_map] at entries
  obtain ⟨behind, ahead, read⟩ := readChunks_sizes chunks placed ahead
  have plain : runs.map (chunkOffset 0) = (runs.map (·.head)).map (·.offset) := by
    rw [map_map]
    apply map_congr_left
    intro run member
    have inside : run.head ∈ runItems runs :=
      mem_flatMap.mpr ⟨run, member, mem_cons_self⟩
    unfold chunkOffset
    rw [Nat.add_zero]
    exact Nat.mod_eq_of_lt (placed.offset run.head inside)
  have fits : ∀ offset ∈ (runs.map (·.head)).map (·.offset),
      offset < 256 ^ (if isCo64 (runItems runs) 0 then 8 else 4) := by
    intro offset member
    rw [map_map] at member
    obtain ⟨run, inRuns, rfl⟩ := mem_map.mp member
    exact placed.fits (mem_flatMap.mpr ⟨run, inRuns, mem_cons_self⟩)
  rw [plain, ← append_nil (stcoBox _ _)] at ahead
  obtain ⟨last, stcoRead, -⟩ := readChunkBox_stco
    ⟨(runItems runs).map (fun sample => sized sample.bytes) ++ [sized 0], (runItems runs).length,
      { noTrack.stbl with stsc := stscEntries none (runs.map (·.head)) }⟩ rfl
    (by rw [length_map, length_map]; omega) fits ahead
  have applied : movApplyStco ⟨(runItems runs).map (fun sample => sized sample.bytes) ++ [sized 0],
      (runItems runs).length, { noTrack.stbl with
        stsc := stscEntries none (runs.map (·.head))
        stco := (runs.map (·.head)).map (·.offset) }⟩ = _ :=
    chunks.applyStco placed room [sized 0] rfl rfl rfl rfl
  have stored : storeSizes ((runItems runs).map (·.bytes)) (((runItems runs).length + 1) % 2 ^ 32) =
      .ok ((runItems runs).map (fun sample => sized sample.bytes) ++ [sized 0]) := by
    rw [Nat.mod_eq_of_lt room, storeSizes_eq (by rw [length_map]; omega), length_map,
      Nat.add_sub_cancel_left, map_map]
    rfl
  rw [Nat.mod_eq_of_lt (by omega), if_pos (Nat.lt_succ_self _), stored, ok_bind, stcoRead,
    ok_bind] at read
  exact ⟨_, read.trans applied, rfl, [sized 0], rfl⟩

theorem readChunks_outside (chunks : Chunks runs) (placed : Placed (runItems runs))
    (full : (runItems runs).length + 1 = 2 ^ 32) (ahead : file.Ahead (chunkBoxes runs)) :
    readChunks file = .error .outside := by
  obtain ⟨behind, -, read⟩ := readChunks_sizes chunks placed ahead
  have stored : storeSizes ((runItems runs).map (·.bytes)) (((runItems runs).length + 1) % 2 ^ 32) =
      .error .outside := by
    unfold storeSizes
    rw [if_neg]
    rw [full, length_map, Nat.mod_self]
    omega
  rw [read]
  split
  · exact error_bind stored _
  · rfl

theorem chunksRoundTrip_outside {stsdCount : Nat} (placed : Placed samples)
    (described : stsdCount > 0) (atEnd : file.AtEnd) (full : samples.length = 2 ^ 32 - 1) :
    chunksRoundTrip file stsdCount 0 samples = .error .outside := by
  apply (writeChunks_eq placed described atEnd).error
  rintro written ⟨runs, chunks, unmarked, rfl⟩
  have same := congrArg List.length unmarked
  rw [length_map, length_map] at same
  exact readChunks_outside chunks (placed.of_unmarked unmarked) (by omega)
    (ByteFile.seek_append file _)

/-- Sample locations survive the tables exactly if there is room for one sample more. -/
theorem mov_sample_locations {stsdCount : Nat} (placed : Placed samples)
    (described : stsdCount > 0) (atEnd : file.AtEnd) :
    Yields (chunksRoundTrip file stsdCount 0 samples) (LocationsPreserved samples) ↔
      samples.length ≠ 2 ^ 32 - 1 := by
  constructor
  · rintro ⟨track, read, -⟩ full
    rw [chunksRoundTrip_outside placed described atEnd full] at read
    exact absurd read nofun
  · intro room
    apply Yields.bind (writeChunks_eq placed described atEnd)
    rintro written ⟨runs, chunks, unmarked, rfl⟩
    have length : (runItems runs).length = samples.length := by
      have same := congrArg List.length unmarked
      rwa [length_map, length_map] at same
    have count := placed.count
    apply (readChunks_eq chunks (placed.of_unmarked unmarked) (by rw [length]; omega)
      (ByteFile.seek_append file _)).mono
    rintro track ⟨counted, after, found⟩
    have same : (runItems runs).map located = samples.map located :=
      map_of_unmarked (fun _ => rfl) unmarked
    rw [same] at found
    refine ⟨counted.trans length, ?_⟩
    intro i inside
    have place : track.samples.getD i default = located (samples.getD i default) := by
      rw [found, getD_append _ _ _ _ (by rwa [length_map])]
      exact getD_map samples default located
    rw [place]
    exact ⟨rfl, rfl, rfl⟩

end RoundTrip

def placedSample (offset bytes index : Nat) : Sample := ⟨0, 0, offset, bytes, index, 0, 0⟩

/-- Two adjacent samples, one of another description and one beyond 4 GiB. -/
def scattered : List Sample :=
  [placedSample 100 4 1, placedSample 104 4 1, placedSample 108 9 2, placedSample (2 ^ 33) 9 2]

theorem scattered_placed : Placed scattered where
  nonempty := nofun
  count := by decide
  bytes := by decide
  offset := by decide
  index := by decide
  ordered := by decide

/-- All four samples are found again. -/
theorem mov_sample_locations_scattered :
    Yields (chunksRoundTrip emptyFile 1 0 scattered) (LocationsPreserved scattered) :=
  (mov_sample_locations scattered_placed (by decide) emptyFile_atEnd).mpr (by decide)

/-- As many samples of one byte as the count can hold. -/
def fullTrack : List Sample :=
  (List.range (2 ^ 32 - 1)).map fun i => placedSample i 1 1

theorem fullTrack_length : fullTrack.length = 2 ^ 32 - 1 := by
  unfold fullTrack
  rw [length_map, length_range]

theorem fullTrack_placed : Placed fullTrack := by
  have origin : ∀ sample ∈ fullTrack, ∃ i < 2 ^ 32 - 1, placedSample i 1 1 = sample := by
    intro sample member
    obtain ⟨i, inside, same⟩ := mem_map.mp member
    exact ⟨i, mem_range.mp inside, same⟩
  have length := fullTrack_length
  constructor
  · intro empty
    rw [empty] at length
    exact absurd length (by decide)
  · rw [length]
    decide
  · intro sample member
    obtain ⟨i, inside, rfl⟩ := origin sample member
    exact (by decide : 0 < 1 ∧ 1 < 2 ^ 32)
  · intro sample member
    obtain ⟨i, inside, rfl⟩ := origin sample member
    change i < 2 ^ 64
    omega
  · intro sample member
    obtain ⟨i, inside, rfl⟩ := origin sample member
    exact (by decide : 1 < 2 ^ 32)
  · unfold fullTrack
    rw [isChain_map, isChain_range]
    exact fun i inside => Nat.le_refl _

/-- The first size is stored outside the array. -/
theorem mov_full_track_outside :
    Placed fullTrack ∧
      ¬Yields (chunksRoundTrip emptyFile 1 0 fullTrack) (LocationsPreserved fullTrack) := by
  refine ⟨fullTrack_placed, ?_⟩
  rintro ⟨track, read, -⟩
  rw [chunksRoundTrip_outside fullTrack_placed (by decide) emptyFile_atEnd fullTrack_length] at read
  exact absurd read nofun

end CLibs.Mov
