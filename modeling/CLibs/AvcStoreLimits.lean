import CLibs.AvcStoreRuns
import CLibs.ByteFiles

/-!
# How many PPS the store takes

The identifiers of a PPS allow more than `255` of them, and so does the room for
their bytes.  The 256th one is written to the last entry and the count goes from
`255` to `0`.
-/

namespace CLibs.Avc

open List

variable {whole : Prop} {avc next : Mpeg4Avc} {entries : SetKind → List Entry} {kind : SetKind}
  {nalu : List UInt8}

/-! ## Adding many sets -/

theorem Packed.adds (packed : Packed whole avc entries) (long : kind.shortest ≤ nalu.length)
    (free : (entries kind).length < kind.entries) (fits : avc.off + nalu.length ≤ dataSize)
    (fresh : setIds kind nalu ∉ (nalus entries kind).map (setIds kind)) : Adds avc kind nalu := by
  refine ⟨long, by rw [packed.count]; exact free, fits, ?_⟩
  have found := packed.findSet_eq (setIds kind nalu) (entries kind) (nil_append _).symm
  rw [length_nil, ← packed.count] at found
  rcases found with ⟨before, entry, after, here, ids, -⟩ | ⟨-, missing⟩
  · refine absurd ?_ fresh
    unfold nalus
    rw [map_map, here, ids]
    exact mem_map.mpr ⟨entry, mem_append_right _ mem_cons_self, rfl⟩
  · exact missing

structure PpsAdded (list : List (List UInt8)) (state : Updated) (entries : SetKind → List Entry) :
    Prop where
  current : Current state entries
  pps : nalus entries .pps = list
  sps : state.avc.nbSps = 0
  off : state.avc.off = (list.map List.length).sum

theorem PpsAdded.step {list : List (List UInt8)} {state : Updated}
    (filled : PpsAdded list state entries) (known : setKind? nalu = some .pps)
    (long : 2 ≤ nalu.length) (free : list.length ≤ 255)
    (fits : (list.map List.length).sum + nalu.length ≤ dataSize)
    (fresh : setIds .pps nalu ∉ list.map (setIds .pps)) :
    Packed True state.avc entries ∧ Adds state.avc .pps nalu ∧
      (entries .pps).length = list.length ∧
      Steps state (nalu, []) ⟨added state.avc .pps nalu, (nalu, 1) :: state.history⟩ := by
  have packed := filled.current.packed
  have length : (entries .pps).length = list.length := by
    rw [← filled.pps, nalus, length_map]
  have adds : Adds state.avc .pps nalu := by
    refine packed.adds long ?_ (by rw [filled.off]; exact fits) (by rw [filled.pps]; exact fresh)
    rw [length]
    exact Nat.lt_succ_of_le free
  refine ⟨packed, adds, length, 1, added state.avc .pps nalu, ?_, rfl⟩
  unfold mpeg4AvcUpdate
  dsimp only
  rw [known]
  exact packed.copySet_adds adds

theorem run_adding (list : List (List UInt8))
    (known : ∀ nalu ∈ list, setKind? nalu = some .pps ∧ 2 ≤ nalu.length)
    (unique : (list.map (setIds .pps)).Nodup) (free : list.length ≤ 255)
    (fits : (list.map List.length).sum ≤ dataSize) :
    ∃ state entries, Runs KeepsCount Steps ⟨.empty, []⟩ (list.map fun nalu => (nalu, [])) state ∧
      PpsAdded list state entries := by
  induction list using List.reverseRecOn with
  | nil => exact ⟨_, _, .nil _, empty_current, rfl, rfl, rfl⟩
  | append_singleton list nalu ih =>
    rw [map_append, map_singleton, nodup_append] at unique
    rw [length_append, length_singleton] at free
    rw [map_append, map_singleton, sum_append, sum_singleton] at fits
    obtain ⟨state, entries, run, filled⟩ := ih
      (fun other listed => known other (mem_append_left _ listed)) unique.1 (by omega)
      (by omega)
    obtain ⟨isPps, long⟩ := known nalu (mem_append_right _ mem_cons_self)
    obtain ⟨packed, adds, length, stepped⟩ := filled.step isPps long (by omega) fits
      (fun member => unique.2.2 _ member _ (mem_singleton.mpr rfl) rfl)
    have count := packed.count .pps
    have keeps : KeepsCount state (nalu, []) := by
      intro _ full
      change state.avc.nbPps.toNat = _ at count
      rw [full, length] at count
      change 255 = list.length at count
      omega
    refine ⟨⟨added state.avc .pps nalu, (nalu, 1) :: state.history⟩,
      replaced entries .pps (entries .pps ++ [state.avc.newEntry nalu]), ?_, ?_⟩
    · rw [map_append]
      exact run.append (.cons keeps stepped (.nil _))
    · have below : (state.avc.count .pps).toNat < 255 := by
        rw [count, length]
        omega
      refine ⟨filled.current.outcome (packed.added adds below)
        (packed.added_outcome isPps adds), ?_, filled.sps, ?_⟩
      · unfold nalus
        rw [replaced_self, map_append, ← filled.pps]
        rfl
      · rw [map_append, sum_append, ← filled.off]
        rfl

/-- In a run that adds no 256th PPS, the entries always tile `data[0..off)` and are
the last successful update of each identifier; every further update returns, leaves
the store alone if it fails, and reports a change exactly when there is one. -/
theorem updates_keep_store {calls : List Update} {final : Updated}
    (run : Runs KeepsCount Steps ⟨.empty, []⟩ calls final) :
    ∃ entries, Current final entries ∧ ∀ call, KeepsCount final call →
      ∃ r next changed, mpeg4AvcUpdate final.avc call.1 call.2 = .ok (r, next) ∧
        Current ⟨next, (call.1, r) :: final.history⟩ changed ∧
        (r = -1 → SameStore final.avc next) ∧
        (r = 1 ↔ ∃ kind nalu, ¬(nalu ∈ nalus changed kind ↔ nalu ∈ nalus entries kind)) := by
  have preserved : ∀ state call next, (∃ entries, Current state entries) →
      KeepsCount state call → Steps state call next → ∃ entries, Current next entries :=
    fun _ _ _ => Current.step
  have kept := run.invariant preserved ⟨_, empty_current⟩
  obtain ⟨entries, current⟩ := kept
  refine ⟨entries, current, fun call keeps => ?_⟩
  obtain ⟨r, next, changed, updated, packs, outcome⟩ :=
    current.packed.update final.history keeps
  exact ⟨r, next, changed, updated, current.outcome packs outcome, outcome.failure,
    outcome.changes_iff⟩

/-- The PPS NAL unit with the identifiers `15 + number / 16` and `15 + number % 16`. -/
def ppsUnit (number : Nat) : List UInt8 :=
  0x28 :: bigEndian 3 ((16 + number / 16) * 2 ^ 15 + (16 + number % 16) * 2 ^ 6)

/-- Two PPS are stored. -/
theorem updates_keep_two :
    ∃ final, Runs KeepsCount Steps ⟨.empty, []⟩ [(ppsUnit 0, []), (ppsUnit 1, [])] final ∧
      ∃ entries, Current final entries := by
  obtain ⟨final, _, run, _⟩ := run_adding [ppsUnit 0, ppsUnit 1] (by decide) (by decide)
    (by decide) (by decide)
  obtain ⟨entries, current, _⟩ := updates_keep_store run
  exact ⟨final, run, entries, current⟩

/-! ## The 256th PPS -/

theorem ppsUnits_known : ∀ number < 256, setKind? (ppsUnit number) = some .pps := by
  decide +kernel

theorem setIds_ppsUnit : ∀ number < 256, setIds .pps (ppsUnit number) =
    [UInt8.ofNat (15 + number / 16), UInt8.ofNat (15 + number % 16)] := by
  decide +kernel

theorem ppsUnits_unique : ((List.range 256).map fun number => setIds .pps (ppsUnit number)).Nodup := by
  refine nodup_range.map_on ?_
  intro first firstBound second secondBound same
  rw [mem_range] at firstBound secondBound
  rw [setIds_ppsUnit first firstBound, setIds_ppsUnit second secondBound, List.cons.injEq,
    List.cons.injEq] at same
  have high := congrArg UInt8.toNat same.1
  have low := congrArg UInt8.toNat same.2.1
  rw [UInt8.toNat_ofNat', UInt8.toNat_ofNat'] at high low
  omega

theorem ppsUnit_length (number : Nat) : (ppsUnit number).length = 4 := by
  rw [ppsUnit, length_cons, bigEndian_length]

theorem sum_ppsUnits (count : Nat) :
    (((List.range count).map ppsUnit).map List.length).sum = 4 * count := by
  induction count with
  | zero => rfl
  | succ count ih =>
    rw [range_succ, map_append, map_append, sum_append, ih,
      map_singleton, map_singleton, sum_singleton, ppsUnit_length]
    omega

theorem not_current {state : Updated} (sps : state.avc.nbSps = 0) (pps : state.avc.nbPps = 0)
    (some : 0 < state.avc.off) : ¬∃ entries, Current state entries := by
  rintro ⟨entries, current⟩
  have noSps := current.packed.count .sps
  have noPps := current.packed.count .pps
  change state.avc.nbSps.toNat = _ at noSps
  change state.avc.nbPps.toNat = _ at noPps
  rw [sps] at noSps
  rw [pps] at noPps
  obtain ⟨segment, listed, -⟩ := current.packed.tiles.covered trivial 0 some
  unfold both at listed
  rw [eq_nil_of_length_eq_zero noSps.symm, eq_nil_of_length_eq_zero noPps.symm] at listed
  exact absurd listed not_mem_nil

/-- The 256th of these NAL units makes the store forget all of them. -/
theorem updates_lose_sets :
    ∃ final, Runs (fun _ _ => True) Steps ⟨.empty, []⟩
        ((List.range 256).map fun number => (ppsUnit number, [])) final ∧
      final.avc.nbPps = 0 ∧ final.avc.off = 1024 ∧ ¬∃ entries, Current final entries := by
  have unique := ppsUnits_unique
  rw [range_succ, map_append, map_singleton, nodup_append] at unique
  have units : (List.range 255).map (fun number => setIds .pps (ppsUnit number)) =
      ((List.range 255).map ppsUnit).map (setIds .pps) := by
    rw [map_map]
    rfl
  rw [units] at unique
  have known : ∀ nalu ∈ (List.range 255).map ppsUnit,
      setKind? nalu = some .pps ∧ 2 ≤ nalu.length := by
    intro nalu listed
    obtain ⟨number, bound, rfl⟩ := mem_map.mp listed
    rw [mem_range] at bound
    exact ⟨ppsUnits_known number (by omega), by rw [ppsUnit_length]; omega⟩
  obtain ⟨state, entries, run, filled⟩ := run_adding ((List.range 255).map ppsUnit) known unique.1
    (by rw [length_map, length_range]) (by rw [sum_ppsUnits]; decide)
  obtain ⟨packed, adds, length, stepped⟩ := filled.step (ppsUnits_known 255 (by decide))
    (by rw [ppsUnit_length]; omega) (by rw [length_map, length_range])
    (by rw [sum_ppsUnits, ppsUnit_length]; decide)
    (fun member => unique.2.2 _ member _ (mem_singleton.mpr rfl) rfl)
  rw [length_map, length_range] at length
  have full : state.avc.nbPps = 255 := by
    have count := packed.count .pps
    rw [length] at count
    exact UInt8.toNat_inj.mp count
  have wraps : (added state.avc .pps (ppsUnit 255)).nbPps = 0 := by
    change state.avc.nbPps + 1 = 0
    rw [full]
    rfl
  have off : (added state.avc .pps (ppsUnit 255)).off = 1024 := by
    change state.avc.off + (ppsUnit 255).length = 1024
    rw [filled.off, sum_ppsUnits, ppsUnit_length]
  refine ⟨⟨added state.avc .pps (ppsUnit 255), (ppsUnit 255, 1) :: state.history⟩, ?_, wraps, off,
    not_current filled.sps wraps (by rw [off]; decide)⟩
  rw [range_succ, map_append]
  rw [map_map] at run
  exact (run.weaken fun _ _ _ => trivial).append (.cons trivial stepped (.nil _))

end CLibs.Avc
