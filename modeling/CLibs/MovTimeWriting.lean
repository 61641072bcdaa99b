import CLibs.MovRunTables
import Mathlib.Data.List.Chain

/-!
# The time tables that are written

The passes of `mov_build_stts` and `mov_build_ctts` leave tables that stand for
the deltas of the samples.  The writer uses delta 1 for two samples of the same
time and for the last one; all other deltas are differences.
-/

namespace CLibs.Mov

open List

/-! ## Marking the deltas of a track -/

/-- The deltas that `mov_build_stts` finds. -/
def sttsDeltas : List Int → List Nat
  | [] => []
  | [_] => [1]
  | dts :: next :: times =>
    uint32 (if next > dts then int64 (next - dts) else 1) :: sttsDeltas (next :: times)

theorem sttsDeltas_length (times : List Int) : (sttsDeltas times).length = times.length := by
  induction times with
  | nil => rfl
  | cons dts times ih =>
    cases times with
    | nil => rfl
    | cons next times => rw [sttsDeltas, length_cons, ih]; rfl

section Build

variable {marking : Marking} {i : Nat} {deltas : List Nat} {sample : Sample}
  {ahead : List Sample}

theorem Marks.getD_ahead (marks : Marks marking i deltas ahead) (distance : Nat) :
    marking.samples.getD (i + distance) default = ahead.getD distance default := by
  obtain ⟨done, current, passed, -, -⟩ := marks
  rw [getD_eq_getElem?_getD, passed.getElem?, getD_eq_getElem?_getD]

theorem Marks.length_eq (marks : Marks marking i deltas ahead) :
    marking.samples.length = i + ahead.length := by
  obtain ⟨done, current, passed, -, -⟩ := marks
  exact passed.length

theorem Marks.sttsDelta_eq (marks : Marks marking i deltas (sample :: ahead)) :
    sttsDeltas ((sample :: ahead).map (·.dts)) =
      sttsDelta marking.samples i :: sttsDeltas (ahead.map (·.dts)) := by
  have first := marks.getD_ahead 0
  have second := marks.getD_ahead 1
  have length := marks.length_eq
  rw [Nat.add_zero] at first
  unfold sttsDelta
  rw [first, second, length]
  cases ahead with
  | nil => simp [sttsDeltas, uint32]
  | cons next ahead =>
    have inside : i + 1 < i + (sample :: next :: ahead).length := by
      rw [length_cons, length_cons]
      omega
    simp only [inside, true_and]
    rfl

theorem Marks.step (marks : Marks marking i deltas (sample :: ahead)) (delta : Nat)
    (bound : i + 1 < 2 ^ 32) {started : Marking} (starts : started.samples =
      (startRun marking i delta).samples ∧ started.sample = (startRun marking i delta).sample ∧
        started.count = (startRun marking i delta).count) :
    Yields (if joinsRun marking delta then joinRun marking i else .ok started) fun marked =>
      Marks marked (i + 1) (deltas ++ [delta]) ahead ∧
        marked.samples.map Sample.unmarked = marking.samples.map Sample.unmarked := by
  apply Yields.ite
  · intro joins
    apply (marks.join joins bound).mono
    exact fun _ joined => ⟨joined.1, joined.2.2⟩
  · intro apart
    refine ⟨started, rfl, ?_, ?_⟩
    · have new : Marks (startRun marking i delta) _ _ _ := marks.start
      unfold Marks at new ⊢
      rwa [starts.1, starts.2.1, starts.2.2]
    · rw [starts.1]
      exact startRun_unmarked

theorem buildSttsFrom_marks (marks : Marks marking i deltas ahead)
    (ordered : ahead.IsChain fun sample next => sample.dts ≤ next.dts)
    (bound : i + ahead.length < 2 ^ 32) :
    Yields (buildSttsFrom ahead.length i marking) fun marked =>
      Marks marked (i + ahead.length) (deltas ++ sttsDeltas (ahead.map (·.dts))) [] ∧
        marked.samples.map Sample.unmarked = marking.samples.map Sample.unmarked := by
  induction ahead generalizing marking i deltas with
  | nil =>
    refine ⟨marking, rfl, ?_, rfl⟩
    rwa [map_nil, sttsDeltas, append_nil]
  | cons sample ahead ih =>
    rw [length_cons] at bound
    have first := marks.getD_ahead 0
    have second := marks.getD_ahead 1
    rw [Nat.add_zero] at first
    have asserted : (marking.samples.getD (i + 1) default).dts ≥
        (marking.samples.getD i default).dts ∨ i + 1 = marking.samples.length := by
      rw [first, second, marks.length_eq]
      cases ahead with
      | nil => exact .inr rfl
      | cons next ahead => exact .inl (isChain_cons_cons.mp ordered).1
    rw [length_cons, buildSttsFrom]
    apply Yields.step (check_eq asserted)
    apply Yields.bind (marks.step (sttsDelta marking.samples i) (by omega) ⟨rfl, rfl, rfl⟩)
    rintro marked ⟨stepped, same⟩
    apply (ih stepped ordered.tail (by omega)).mono
    rintro last ⟨ended, kept⟩
    rw [marks.sttsDelta_eq, ← Nat.succ_add_eq_add_succ, append_cons]
    exact ⟨ended, kept.trans same⟩

theorem buildCttsFrom_marks (marks : Marks marking i deltas ahead)
    (bound : i + ahead.length < 2 ^ 32) :
    Yields (buildCttsFrom ahead.length i marking) fun marked =>
      Marks marked (i + ahead.length) (deltas ++ ahead.map cttsDelta) [] ∧
        marked.samples.map Sample.unmarked = marking.samples.map Sample.unmarked := by
  induction ahead generalizing marking i deltas with
  | nil =>
    refine ⟨marking, rfl, ?_, rfl⟩
    rwa [map_nil, append_nil]
  | cons sample ahead ih =>
    rw [length_cons] at bound
    have first := marks.getD_ahead 0
    rw [Nat.add_zero] at first
    rw [length_cons, buildCttsFrom]
    have delta : cttsDelta (marking.samples.getD i default) = cttsDelta sample := by rw [first]; rfl
    have step : Yields (cttsStep marking i) _ := marks.step _ (by omega) ⟨rfl, rfl, rfl⟩
    apply Yields.bind step
    rintro marked ⟨stepped, same⟩
    rw [delta] at stepped
    apply (ih stepped (by omega)).mono
    rintro last ⟨ended, kept⟩
    rw [← Nat.succ_add_eq_add_succ, map_cons, append_cons]
    exact ⟨ended, kept.trans same⟩

theorem Marks.runs (marks : Marks marking i deltas []) :
    ∃ runs, marking.samples = runItems runs ∧ Marked runs deltas ∧
      marking.count = runs.length := by
  obtain ⟨done, current, passed, marked, count⟩ := marks
  refine ⟨done ++ current.toList, ?_, marked, count⟩
  rw [passed.items, append_nil, runItems_append]

end Build

/-! ## The boxes -/

section Boxes

variable {file : ByteFile} {runs : List (Run Sample)} {deltas : List Nat} {stbl : Stbl}
  {rest : List UInt8}

def timeBox (tag : List UInt8) (version : Nat) (entries : List Stts) : List UInt8 :=
  bigEndian 4 (tableSize entries.length 8) ++
    (tag ++ tableText version entries.length (entries.flatMap Stts.text))

theorem Marked.writeRuns_eq (marked : Marked runs deltas) (atEnd : file.AtEnd) :
    writeRuns file (runItems runs) = file.append ((runEntries runs).flatMap Stts.text) := by
  apply Mov.writeRuns_eq _ marked.members atEnd
  intro run member
  rw [marked.head run member]
  exact Nat.succ_ne_zero _

theorem runEntries_length (runs : List (Run Sample)) :
    (runEntries runs).length = runs.length :=
  length_map _

theorem movWriteStts_eq (marked : Marked runs deltas) (atEnd : file.AtEnd) :
    movWriteStts file (runItems runs) runs.length =
      file.append (timeBox (movTag 's' 't' 't' 's') 0 (runEntries runs)) := by
  have flags : bigEndian 4 0 = bigEndian 1 0 ++ bigEndian 3 0 := rfl
  unfold movWriteStts timeBox tableText
  dsimp only
  rw [w32_eq atEnd, atEnd.append.write_eq, ByteFile.append_append, w32_eq atEnd.append,
    ByteFile.append_append, w32_eq atEnd.append, ByteFile.append_append,
    marked.writeRuns_eq atEnd.append, ByteFile.append_append, runEntries_length, flags]
  simp only [append_assoc]

theorem movWriteCtts_eq (marked : Marked runs deltas) (atEnd : file.AtEnd) (cttsV1 : Bool) :
    movWriteCtts file (runItems runs) cttsV1 runs.length =
      file.append (timeBox (movTag 'c' 't' 't' 's') (if cttsV1 then 1 else 0)
        (runEntries runs)) := by
  unfold movWriteCtts timeBox tableText
  dsimp only
  rw [w32_eq atEnd, atEnd.append.write_eq, ByteFile.append_append, w8_eq atEnd.append,
    ByteFile.append_append, w24_eq atEnd.append, ByteFile.append_append, w32_eq atEnd.append,
    ByteFile.append_append, marked.writeRuns_eq atEnd.append, ByteFile.append_append,
    runEntries_length]
  simp only [append_assoc]

theorem readTimeBox_stts {version : Nat} {entries : List Stts} (empty : stbl.stts = [])
    (known : version < 256) (count : entries.length < 2 ^ 32)
    (fits : ∀ entry ∈ entries, entry.sampleCount < 2 ^ 32 ∧ entry.sampleDelta < 2 ^ 32)
    (ahead : file.Ahead (timeBox (movTag 's' 't' 't' 's') version entries ++ rest)) :
    ∃ behind : ByteFile, readTimeBox stbl file = .ok ({ stbl with stts := entries }, behind) ∧
      behind.Ahead rest := by
  unfold timeBox at ahead
  simp only [append_assoc] at ahead
  obtain ⟨opened, header, ahead⟩ := readBoxHeader_eq rfl (Nat.mod_lt _ (by decide)) ahead
  obtain ⟨behind, table, ahead⟩ := readTable_eq known count
    (fun entry member file rest => readStts_eq (fits entry member).1 (fits entry member).2) ahead
  refine ⟨behind, ?_, ahead⟩
  unfold readTimeBox movReadStts
  rw [header]
  dsimp only
  rw [if_pos rfl, check_eq empty, table]
  rfl

theorem readTimeBox_ctts {version : Nat} {entries : List Stts} (empty : stbl.ctts = [])
    (known : version < 256) (count : entries.length < 2 ^ 32)
    (fits : ∀ entry ∈ entries, entry.sampleCount < 2 ^ 32 ∧ entry.sampleDelta < 2 ^ 32)
    (ahead : file.Ahead (timeBox (movTag 'c' 't' 't' 's') version entries ++ rest)) :
    ∃ behind : ByteFile, readTimeBox stbl file = .ok ({ stbl with ctts := entries }, behind) ∧
      behind.Ahead rest := by
  unfold timeBox at ahead
  simp only [append_assoc] at ahead
  obtain ⟨opened, header, ahead⟩ := readBoxHeader_eq rfl (Nat.mod_lt _ (by decide)) ahead
  obtain ⟨behind, table, ahead⟩ := readTable_eq known count
    (fun entry member file rest => readStts_eq (fits entry member).1 (fits entry member).2) ahead
  refine ⟨behind, ?_, ahead⟩
  unfold readTimeBox movReadCtts
  rw [header]
  dsimp only
  rw [if_neg (by decide), if_pos rfl, check_eq empty, table]
  rfl

end Boxes

/-! ## Writing both tables -/

theorem sttsDeltas_lt (times : List Int) : ∀ delta ∈ sttsDeltas times, delta < 2 ^ 32 := by
  induction times with
  | nil => exact fun _ member => absurd member not_mem_nil
  | cons dts times ih =>
    cases times with
    | nil =>
      intro delta member
      rw [mem_singleton.mp member]
      decide
    | cons next times =>
      intro delta member
      rcases mem_cons.mp member with rfl | later
      · unfold uint32
        omega
      · exact ih delta later

theorem cttsDelta_lt (sample : Sample) : cttsDelta sample < 2 ^ 32 := by
  unfold cttsDelta uint32
  omega

section Write

variable {file : ByteFile} {samples : List Sample}

/-- What a pass over the samples of a track leaves. -/
structure BuiltRuns (built : Marking) (given : List Sample) (deltas : List Nat)
    (runs : List (Run Sample)) : Prop where
  samples : built.samples = runItems runs
  count : built.count = runs.length
  marked : Marked runs deltas
  unmarked : built.samples.map Sample.unmarked = given.map Sample.unmarked

theorem movBuildStts_runs (ordered : samples.IsChain fun sample next => sample.dts ≤ next.dts)
    (bound : samples.length < 2 ^ 32) :
    Yields (movBuildStts samples) fun marked =>
      ∃ runs, BuiltRuns marked samples (sttsDeltas (samples.map (·.dts))) runs := by
  have marks := buildSttsFrom_marks (startMarking_marks samples) ordered
    (by rw [Nat.zero_add]; exact bound)
  apply marks.mono
  rintro marked ⟨ended, unmarked⟩
  obtain ⟨runs, items, found, count⟩ := ended.runs
  exact ⟨runs, items, count, found, unmarked⟩

theorem movBuildCtts_runs (bound : samples.length < 2 ^ 32) :
    Yields (movBuildCtts samples) fun marked =>
      ∃ runs, BuiltRuns marked samples (samples.map cttsDelta) runs := by
  have marks := buildCttsFrom_marks (startMarking_marks samples)
    (by rw [Nat.zero_add]; exact bound)
  apply marks.mono
  rintro marked ⟨ended, unmarked⟩
  obtain ⟨runs, items, found, count⟩ := ended.runs
  exact ⟨runs, items, count, found, unmarked⟩

theorem map_of_unmarked {Value : Type} {view : Sample → Value} {others : List Sample}
    (unseen : ∀ sample : Sample, view sample.unmarked = view sample)
    (same : samples.map Sample.unmarked = others.map Sample.unmarked) :
    samples.map view = others.map view := by
  have hidden : view ∘ Sample.unmarked = view := funext unseen
  have shown := congrArg (List.map view) same
  rwa [map_map, map_map, hidden] at shown

theorem sttsTable {runs : List (Run Sample)} (bound : samples.length < 2 ^ 32)
    (marked : Marked runs (sttsDeltas (samples.map (·.dts)))) :
    Table (runEntries runs) (sttsDeltas (samples.map (·.dts))) := by
  apply marked.table
  · rwa [sttsDeltas_length, length_map]
  · exact sttsDeltas_lt _

theorem cttsTable {runs : List (Run Sample)} (bound : samples.length < 2 ^ 32)
    (marked : Marked runs (samples.map cttsDelta)) :
    Table (runEntries runs) (samples.map cttsDelta) := by
  apply marked.table
  · rwa [length_map]
  · intro delta member
    obtain ⟨sample, -, rfl⟩ := mem_map.mp member
    exact cttsDelta_lt sample

/-- Both tables are runs of the times. -/
theorem writeTimes_tables (ordered : samples.IsChain fun sample next => sample.dts ≤ next.dts)
    (bound : samples.length < 2 ^ 32) (atEnd : file.AtEnd) :
    Yields (writeTimes file samples) fun written => ∃ stts ctts version,
      Table stts (sttsDeltas (samples.map (·.dts))) ∧ Table ctts (samples.map cttsDelta) ∧
        version < 256 ∧ written = file.append (timeBox (movTag 's' 't' 't' 's') 0 stts ++
          timeBox (movTag 'c' 't' 't' 's') version ctts) := by
  apply Yields.bind (movBuildStts_runs ordered bound)
  rintro stts ⟨sttsRuns, sttsBuilt⟩
  have length : stts.samples.length < 2 ^ 32 := by
    have same := congrArg List.length sttsBuilt.unmarked
    rw [length_map, length_map] at same
    rwa [same]
  have offsets : stts.samples.map cttsDelta = samples.map cttsDelta :=
    map_of_unmarked (fun _ => rfl) sttsBuilt.unmarked
  apply Yields.bind (movBuildCtts_runs length)
  rintro ctts ⟨cttsRuns, cttsBuilt⟩
  rw [offsets] at cttsBuilt
  apply Yields.pure
  refine ⟨runEntries sttsRuns, runEntries cttsRuns, if ctts.cttsV1 then 1 else 0,
    sttsTable bound sttsBuilt.marked, cttsTable bound cttsBuilt.marked, ?_, ?_⟩
  · split <;> decide
  · rw [sttsBuilt.samples, sttsBuilt.count, cttsBuilt.samples, cttsBuilt.count,
      movWriteStts_eq sttsBuilt.marked atEnd, movWriteCtts_eq cttsBuilt.marked atEnd.append,
      ByteFile.append_append]

end Write

end CLibs.Mov
