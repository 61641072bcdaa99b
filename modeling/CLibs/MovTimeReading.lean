import CLibs.MovTimeWriting

/-!
# The time tables that are read

The reader adds up the deltas of the table, so a delta that is not a difference
shifts every later sample.  The running sums keep the distances from the first
time exactly if the times rise.
-/

namespace CLibs.Mov

open List

/-! ## The running sums -/

section Apply

/-- The samples behind one at `start`, with the deltas added up. -/
def setTimes (start : Int) : List Nat → List Sample → List Sample
  | delta :: deltas, sample :: samples =>
    { sample with dts := int64 (start + delta), pts := int64 (start + delta) } ::
      setTimes (int64 (start + delta)) deltas samples
  | _, samples => samples

theorem storeSample_behind (before : List Sample) (sample : Sample) (behind : List Sample)
    (change : Sample → Sample) :
    storeSample (before ++ sample :: behind) before.length change =
      .ok (before ++ change sample :: behind) := by
  unfold storeSample
  rw [if_pos (by rw [length_append, length_cons]; omega), modify_behind]

theorem applyEach_stts (entries : List Stts) (before : List Sample) (last : Sample)
    (ahead : List Sample) (room : entries.length ≤ ahead.length) :
    applyEach sttsStore entries (before.length + 1) (before ++ last :: ahead) =
      .ok (before.length + 1 + entries.length,
        before ++ last :: setTimes last.dts (entries.map (·.sampleDelta)) ahead) := by
  induction entries generalizing before last ahead with
  | nil => rfl
  | cons entry entries ih =>
    cases ahead with
    | nil => exact absurd room (by simp)
    | cons sample ahead =>
      have previous : ((before ++ last :: sample :: ahead).getD before.length default).dts =
          last.dts := by simp
      have stored : sttsStore entry (before.length + 1) (before ++ last :: sample :: ahead) =
          .ok (before ++ last :: { sample with
            dts := int64 (last.dts + entry.sampleDelta)
            pts := int64 (last.dts + entry.sampleDelta) } :: ahead) := by
        unfold sttsStore
        rw [Nat.add_sub_cancel, previous]
        have split := storeSample_behind (before ++ [last]) sample ahead fun sample =>
          { sample with
            dts := int64 (last.dts + entry.sampleDelta)
            pts := int64 (last.dts + entry.sampleDelta) }
        simpa using split
      rw [applyEach, stored]
      have others := ih (before ++ [last]) { sample with
        dts := int64 (last.dts + entry.sampleDelta)
        pts := int64 (last.dts + entry.sampleDelta) } ahead (by simpa using room)
      simp only [length_append, length_singleton, append_assoc,
        cons_append, nil_append] at others
      rw [length_cons, map_cons, setTimes]
      refine others.trans ?_
      rw [Nat.add_right_comm _ 1, Nat.add_assoc _ entries.length]

def setOffsets : List Int → List Sample → List Sample
  | offset :: offsets, sample :: samples =>
    { sample with pts := int64 (sample.pts + offset) } :: setOffsets offsets samples
  | _, samples => samples

theorem applyEach_ctts (shift : Int) (entries : List Stts) (before ahead : List Sample)
    (room : entries.length ≤ ahead.length) :
    applyEach (cttsStore shift) entries before.length (before ++ ahead) =
      .ok (before.length + entries.length, before ++
        setOffsets (entries.map fun entry => int32 (int32 entry.sampleDelta - shift)) ahead) := by
  induction entries generalizing before ahead with
  | nil => rfl
  | cons entry entries ih =>
    cases ahead with
    | nil => exact absurd room (by simp)
    | cons sample ahead =>
      have stored := storeSample_behind before sample ahead fun sample =>
        { sample with pts := int64 (sample.pts + int32 (int32 entry.sampleDelta - shift)) }
      have others := ih (before ++ [{ sample with
        pts := int64 (sample.pts + int32 (int32 entry.sampleDelta - shift)) }]) ahead
        (by simpa using room)
      simp only [length_append, length_singleton, append_assoc,
        cons_append, nil_append] at others
      unfold cttsStore at others ⊢
      rw [applyEach, stored, length_cons, map_cons, setOffsets]
      refine others.trans ?_
      simp only [Nat.add_assoc, Nat.add_comm 1]

variable {i : Nat}

theorem setOffsets_getD {offsets : List Int} {samples : List Sample} (inside : i < offsets.length)
    (room : offsets.length ≤ samples.length) :
    (setOffsets offsets samples).getD i default =
      { samples.getD i default with
        pts := int64 ((samples.getD i default).pts + offsets.getD i 0) } := by
  induction offsets generalizing samples i with
  | nil => exact absurd inside (Nat.not_lt_zero i)
  | cons offset offsets ih =>
    cases samples with
    | nil => exact absurd room (by simp)
    | cons sample samples =>
      cases i with
      | zero => rfl
      | succ i =>
        simp only [setOffsets, getD_cons_succ]
        exact ih (Nat.lt_of_succ_lt_succ inside) (Nat.le_of_succ_le_succ room)

/-- The times of the samples behind one at `start`. -/
def advance (start : Int) : List Nat → List Int
  | [] => []
  | delta :: deltas => int64 (start + delta) :: advance (int64 (start + delta)) deltas

variable {start : Int}

theorem setTimes_getD {deltas : List Nat} {samples : List Sample} (inside : i < deltas.length)
    (room : deltas.length ≤ samples.length) :
    ((setTimes start deltas samples).getD i default).dts = (advance start deltas).getD i 0 ∧
      ((setTimes start deltas samples).getD i default).pts = (advance start deltas).getD i 0 := by
  induction deltas generalizing samples start i with
  | nil => exact absurd inside (Nat.not_lt_zero i)
  | cons delta deltas ih =>
    cases samples with
    | nil => exact absurd room (by simp)
    | cons sample samples =>
      cases i with
      | zero => exact ⟨rfl, rfl⟩
      | succ i =>
        simp only [setTimes, advance, getD_cons_succ]
        exact ih (Nat.lt_of_succ_lt_succ inside) (Nat.le_of_succ_le_succ room)

theorem setTimes_length (start : Int) (deltas : List Nat) (samples : List Sample) :
    (setTimes start deltas samples).length = samples.length := by
  induction deltas generalizing start samples with
  | nil => rfl
  | cons delta deltas ih =>
    cases samples with
    | nil => rfl
    | cons sample samples => rw [setTimes, length_cons, ih, length_cons]

end Apply

/-! ## Which times survive -/

theorem int64_eq_iff (first second : Int) :
    int64 first = int64 second ↔ (first - second) % 2 ^ 64 = 0 := by
  unfold int64
  rw [Int.bmod_def, Int.bmod_def]
  split <;> split <;> omega

theorem int64_emod (value : Int) : (int64 value - value) % 2 ^ 64 = 0 := by
  unfold int64
  rw [Int.bmod_def]
  split <;> omega

theorem int64_range (value : Int) : -2 ^ 63 ≤ int64 value ∧ int64 value < 2 ^ 63 := by
  unfold int64
  rw [Int.bmod_def]
  split <;> omega

theorem uint32_of_lt {value : Int} (nonneg : 0 ≤ value) (bound : value < 2 ^ 32) :
    (uint32 value : Int) = value := by
  unfold uint32
  omega

theorem int64_of_lt {value : Int} (nonneg : 0 ≤ value) (bound : value < 2 ^ 32) :
    int64 value = value :=
  int64_eq_self (by omega) (by omega)

def Sums (start first : Int) (times : List Int) : Prop :=
  ∀ i ≤ times.length,
    int64 ((start :: advance start (sttsDeltas (first :: times))).getD i 0 - start) =
      int64 ((first :: times).getD i 0 - first)

theorem sums_cons {first next : Int} {times : List Int} (ordered : first ≤ next)
    (near : next - first < 2 ^ 32) :
    Sums start first (next :: times) ↔
      first < next ∧ Sums (int64 (start + (next - first))) next times := by
  have shifted (lt : first < next) (i : Nat) :
      (start :: advance start (sttsDeltas (first :: next :: times))).getD (i + 1) 0 =
        (int64 (start + (next - first)) ::
          advance (int64 (start + (next - first))) (sttsDeltas (next :: times))).getD i 0 := by
    have delta : ((uint32 (if next > first then int64 (next - first) else 1) : Nat) : Int) =
        next - first := by
      rw [if_pos lt, int64_of_lt (by omega) near, uint32_of_lt (by omega) near]
    rw [sttsDeltas, advance, delta, getD_cons_succ]
  have moved := int64_emod (start + (next - first))
  constructor
  · intro sums
    have lt : first < next := by
      have one := sums 1 (by simp)
      have jump := int64_emod (start + 1)
      rw [int64_eq_iff] at one
      by_contra same
      have unit : ((uint32 1 : Nat) : Int) = 1 := rfl
      simp only [sttsDeltas, advance, gt_iff_lt, same, if_false, getD_cons_succ,
        getD_cons_zero, unit] at one
      omega
    refine ⟨lt, ?_⟩
    intro i small
    have far := sums (i + 1) (by rw [length_cons]; omega)
    rw [int64_eq_iff, shifted lt, getD_cons_succ] at far
    rw [int64_eq_iff]
    omega
  · rintro ⟨lt, sums⟩ i small
    cases i with
    | zero => simp
    | succ i =>
      have near := sums i (by rw [length_cons] at small; omega)
      rw [int64_eq_iff] at near
      rw [int64_eq_iff, shifted lt, getD_cons_succ]
      omega

theorem sums_iff {first : Int} {times : List Int}
    (ordered : (first :: times).IsChain fun time next => time ≤ next ∧ next - time < 2 ^ 32) :
    Sums start first times ↔ (first :: times).IsChain (· < ·) := by
  induction times generalizing start first with
  | nil =>
    constructor
    · exact fun _ => isChain_singleton first
    · intro _ i small
      rw [Nat.le_zero.mp small]
      simp
  | cons next times ih =>
    obtain ⟨⟨before, near⟩, others⟩ := isChain_cons_cons.mp ordered
    rw [sums_cons before near, isChain_cons_cons, ih others]

/-! ## Reading both tables -/

section Read

variable {stbl : Stbl} {samples : List Sample} {deltas : List Nat}

variable {first : Sample}

theorem movApplyStts_eq (table : Table stbl.stts deltas) (room : deltas.length ≤ samples.length) :
    movApplyStts stbl deltas.length (first :: samples) =
      .ok (first :: setTimes first.dts deltas samples) := by
  have length := table.repeated_length
  have applied := applyEach_stts (repeated stbl.stts) [] first samples (by omega)
  rw [table.deltas, length] at applied
  unfold movApplyStts
  rw [applyEntries_eq]
  have found : applyEach sttsStore (repeated stbl.stts) 1 (first :: samples) = _ := applied
  rw [found]
  have counted : 0 + 1 + deltas.length - 1 = deltas.length := by omega
  change (check (0 + 1 + deltas.length - 1 = deltas.length) >>= fun _ => _) = _
  rw [check_eq counted]
  rfl

theorem dtsShift_zero {entries : List Stts} (small : ∀ entry ∈ entries, entry.sampleDelta < 2 ^ 31) :
    dtsShift entries = 0 := by
  unfold dtsShift
  induction entries with
  | nil => rfl
  | cons entry entries ih =>
    have positive : ¬int32 entry.sampleDelta < 0 := by
      have bound := small entry mem_cons_self
      unfold int32
      rw [Int.bmod_def]
      split <;> omega
    rw [foldl_cons]
    simp only [positive, false_and, if_false]
    exact ih (forall_mem_cons.mp small).2

theorem dtsShift_nonpos (entries : List Stts) : dtsShift entries ≤ 0 := by
  have falls (shift : Int) (nonpos : shift ≤ 0) : entries.foldl
      (fun shift entry =>
        let delta := int32 entry.sampleDelta
        if delta < 0 ∧ shift > delta ∧ delta ≠ -1 then delta else shift) shift ≤ 0 := by
    induction entries generalizing shift with
    | nil => exact nonpos
    | cons entry entries ih =>
      rw [foldl_cons]
      apply ih
      dsimp only
      split
      · omega
      · exact nonpos
  exact falls 0 (Int.le_refl 0)

/-- The offsets as the reader takes them. -/
def shiftedOffsets (entries : List Stts) (deltas : List Nat) : List Int :=
  deltas.map fun delta : Nat => int32 (int32 delta - dtsShift entries)

theorem movApplyCtts_shifted (table : Table stbl.ctts deltas)
    (room : deltas.length ≤ samples.length) :
    movApplyCtts stbl deltas.length samples =
      .ok (setOffsets (shiftedOffsets stbl.ctts deltas) samples) := by
  have length := table.repeated_length
  have same : (repeated stbl.ctts).map
      (fun entry => int32 (int32 entry.sampleDelta - dtsShift stbl.ctts)) =
        shiftedOffsets stbl.ctts deltas := by
    unfold shiftedOffsets
    rw [← table.deltas, map_map, Function.comp_def]
  have applied := applyEach_ctts (dtsShift stbl.ctts) (repeated stbl.ctts) [] samples (by omega)
  rw [same, length] at applied
  have found : applyEach (cttsStore (dtsShift stbl.ctts)) (repeated stbl.ctts) 0 samples = _ :=
    applied
  unfold movApplyCtts
  dsimp only
  rw [applyEntries_eq, found, check_eq (dtsShift_nonpos _), ok_bind, ok_bind]
  dsimp only
  rw [check_eq (.inr (Nat.zero_add _)), ok_bind]
  rfl

theorem shiftedOffsets_small {entries : List Stts} (table : Table entries deltas)
    (small : ∀ delta ∈ deltas, delta < 2 ^ 31) :
    shiftedOffsets entries deltas = deltas.map fun delta : Nat => (delta : Int) := by
  unfold shiftedOffsets
  rw [dtsShift_zero fun entry member => small _ (table.delta_mem member)]
  apply map_congr_left
  intro delta member
  have bound := small delta member
  unfold int32
  simp only [Int.bmod_def]
  split <;> split <;> omega

theorem movApplyCtts_eq (table : Table stbl.ctts deltas) (room : deltas.length ≤ samples.length)
    (small : ∀ delta ∈ deltas, delta < 2 ^ 31) :
    movApplyCtts stbl deltas.length samples =
      .ok (setOffsets (deltas.map fun delta : Nat => (delta : Int)) samples) := by
  rw [movApplyCtts_shifted table room, shiftedOffsets_small table small]

theorem readTimes_eq {file : ByteFile} (first : Sample) {stts ctts : List Stts} {version : Nat}
    {offsets : List Nat} (sttsTable : Table stts deltas) (cttsTable : Table ctts offsets)
    (known : version < 256) (same : offsets.length = deltas.length)
    (room : deltas.length ≤ samples.length) (small : ∀ offset ∈ offsets, offset < 2 ^ 31)
    (ahead : file.Ahead (timeBox (movTag 's' 't' 't' 's') 0 stts ++
      timeBox (movTag 'c' 't' 't' 's') version ctts)) :
    readTimes file deltas.length (first :: samples) =
      .ok (setOffsets (offsets.map fun offset : Nat => (offset : Int))
        (first :: setTimes first.dts deltas samples)) := by
  have noStts : noStbl.stts = [] := rfl
  have noCtts : { noStbl with stts := stts }.ctts = [] := rfl
  have wide : offsets.length ≤ (first :: setTimes first.dts deltas samples).length := by
    rw [length_cons, setTimes_length]
    omega
  obtain ⟨behind, sttsRead, ahead⟩ := readTimeBox_stts noStts (by decide) sttsTable.count
    sttsTable.fits ahead
  rw [← append_nil (timeBox _ _ _)] at ahead
  obtain ⟨last, cttsRead, -⟩ := readTimeBox_ctts noCtts known cttsTable.count cttsTable.fits ahead
  have sttsApplied : movApplyStts { noStbl with stts := stts, ctts := ctts } _ (first :: samples) =
    _ := movApplyStts_eq sttsTable room
  have cttsApplied : movApplyCtts { noStbl with stts := stts, ctts := ctts } _ _ = _ :=
    movApplyCtts_eq cttsTable wide small
  unfold readTimes
  rw [sttsRead, ok_bind]
  dsimp only
  rw [cttsRead, ok_bind]
  dsimp only
  rw [sttsApplied, ok_bind, ← same, cttsApplied]

theorem setTimes_level (level : first.pts = first.dts) (inside : i ≤ deltas.length)
    (room : deltas.length ≤ samples.length) :
    let timed := first :: setTimes first.dts deltas samples
    (timed.getD i default).dts = (first.dts :: advance first.dts deltas).getD i 0 ∧
      (timed.getD i default).pts = (first.dts :: advance first.dts deltas).getD i 0 := by
  cases i with
  | zero => exact ⟨rfl, level⟩
  | succ i =>
    simp only [getD_cons_succ]
    exact setTimes_getD (by omega) room

theorem movApplied_getD {offsets : List Int} (level : first.pts = first.dts)
    (inside : i < offsets.length) (same : offsets.length = deltas.length)
    (room : deltas.length ≤ samples.length) :
    let read := setOffsets offsets (first :: setTimes first.dts deltas samples)
    (read.getD i default).dts = (first.dts :: advance first.dts deltas).getD i 0 ∧
      (read.getD i default).pts =
        int64 ((first.dts :: advance first.dts deltas).getD i 0 + offsets.getD i 0) := by
  have whole : offsets.length ≤ (first :: setTimes first.dts deltas samples).length := by
    rw [length_cons, setTimes_length]
    omega
  have timed : ((first :: setTimes first.dts deltas samples).getD i default).dts = _ ∧
      ((first :: setTimes first.dts deltas samples).getD i default).pts = _ :=
    setTimes_level level (by omega) room
  dsimp only
  rw [setOffsets_getD inside whole, timed.2]
  exact ⟨timed.1, rfl⟩

end Read

end CLibs.Mov
