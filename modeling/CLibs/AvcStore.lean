import CLibs.PackedSegments

/-!
# The store of H.264 parameter sets

`mpeg4_avc_t` keeps the SPS and PPS NAL units of a stream one behind the other in `data[4 * 1024]`;
`sps[32]` and `pps[256]` point into it.  `mpeg4_avc_update` looks for a stored set with the same
identifiers: it leaves an equal one alone, takes a different one out and puts the new bytes at the
end, and otherwise adds an entry.

Assertions are compiled out, as every return of `-1` stands behind `assert(0)`.
-/

namespace CLibs.Avc

/-- The two arrays of the handle. -/
inductive SetKind
  | sps
  | pps
  deriving DecidableEq, Repr

/-- The handle: SPS and PPS are places in `data`, which is in use up to `off`. -/
structure Mpeg4Avc where
  profile : UInt8
  compatibility : UInt8
  level : UInt8
  nalu : UInt8
  nbSps : UInt8
  nbPps : UInt8
  sps : Buffer Segment
  pps : Buffer Segment
  chromaFormatIdc : UInt8
  bitDepthLumaMinus8 : UInt8
  bitDepthChromaMinus8 : UInt8
  data : Buffer UInt8
  off : Nat

def dataSize : Nat := 4 * 1024

def SetKind.entries : SetKind → Nat
  | .sps => 32
  | .pps => 256

namespace Mpeg4Avc

def sets (avc : Mpeg4Avc) : SetKind → Buffer Segment
  | .sps => avc.sps
  | .pps => avc.pps

def count (avc : Mpeg4Avc) : SetKind → UInt8
  | .sps => avc.nbSps
  | .pps => avc.nbPps

def withSets (avc : Mpeg4Avc) (sets : Buffer Segment) : SetKind → Mpeg4Avc
  | .sps => { avc with sps := sets }
  | .pps => { avc with pps := sets }

def withCount (avc : Mpeg4Avc) (count : UInt8) : SetKind → Mpeg4Avc
  | .sps => { avc with nbSps := count }
  | .pps => { avc with nbPps := count }

def empty : Mpeg4Avc where
  profile := 0
  compatibility := 0
  level := 0
  nalu := 0
  nbSps := 0
  nbPps := 0
  sps := .alloc 32
  pps := .alloc 256
  chromaFormatIdc := 0
  bitDepthLumaMinus8 := 0
  bitDepthChromaMinus8 := 0
  data := .alloc dataSize
  off := 0

end Mpeg4Avc

/-! ## Exponential Golomb codes -/

def bitAt (data : List UInt8) (offset : Nat) : Nat :=
  (data.getD (offset / 8) 0).toNat / 2 ^ (7 - offset % 8) % 2

def skipZeros (data : List UInt8) : (remaining offset : Nat) → Nat × Nat
  | 0, offset => (0, offset)
  | remaining + 1, offset =>
    if bitAt data offset = 1 then (1, offset + 1)
    else ((skipZeros data remaining (offset + 1)).1 + 1, (skipZeros data remaining (offset + 1)).2)

def readBits (data : List UInt8) : (count offset bits : Nat) → Nat × Nat
  | 0, offset, bits => (bits, offset)
  | count + 1, offset, bits => readBits data count (offset + 1) (2 * bits + bitAt data offset)

/-- `mpeg4_h264_read_ue`: the code word at a bit offset, cut to a byte, and the
offset behind it.  The shift counts modulo `32`, as the processor does it. -/
def mpeg4H264ReadUe (data : List UInt8) (offset : Nat) : UInt8 × Nat :=
  let zeros := skipZeros data (8 * data.length - offset) offset
  let leadingZeroBits : Int := zeros.1 - 1
  let word := readBits data (min leadingZeroBits.toNat (8 * data.length - zeros.2)) zeros.2 0
  (UInt8.ofNat (2 ^ (leadingZeroBits % 32).toNat) - 1 + UInt8.ofNat word.1, word.2)

def setIds : SetKind → List UInt8 → List UInt8
  | .sps, nalu => [(mpeg4H264ReadUe nalu (4 * 8)).1]
  | .pps, nalu =>
    let ppsid := mpeg4H264ReadUe nalu (1 * 8)
    [ppsid.1, (mpeg4H264ReadUe nalu ppsid.2).1]

/-- The shortest NAL unit that is taken. -/
def SetKind.shortest : SetKind → Nat
  | .sps => 4 + 1
  | .pps => 1 + 1

/-! ## Updates -/

/-- The entries behind a gap point to where their bytes have moved. -/
def closeUpSets (gap : Segment) : (remaining i : Nat) → Buffer Segment → Except Fault (Buffer Segment)
  | 0, _, sets => .ok sets
  | remaining + 1, i, sets => do
      let sets ← sets.modify i gap.closeUp
      closeUpSets gap remaining (i + 1) sets

def mpeg4AvcRemove (avc : Mpeg4Avc) (gap : Segment) : Except Fault Mpeg4Avc := do
  if avc.off < gap.data + gap.bytes then .error .outside
  let data ← avc.data.move gap.data (gap.data + gap.bytes) (avc.off - gap.data - gap.bytes)
  let sps ← closeUpSets gap avc.nbSps.toNat 0 avc.sps
  let pps ← closeUpSets gap avc.nbPps.toNat 0 avc.pps
  .ok { avc with data := data, sps := sps, pps := pps }

/-- The first entry whose set has the identifiers, with its set. -/
def findSet (avc : Mpeg4Avc) (kind : SetKind) (ids : List UInt8) :
    (remaining i : Nat) → Except Fault (Option (Nat × Segment × List UInt8))
  | 0, _ => .ok none
  | remaining + 1, i => do
      let set ← (avc.sets kind).load i
      let stored ← avc.data.read set.data set.bytes
      if ids = setIds kind stored then .ok (some (i, set, stored))
      else findSet avc kind ids remaining (i + 1)

/-- The set is copied behind the others and entry `i` points to it. -/
def copyTo (avc : Mpeg4Avc) (kind : SetKind) (i : Nat) (nalu : List UInt8) :
    Except Fault Mpeg4Avc := do
  let data ← avc.data.store avc.off nalu
  let sets ← (avc.sets kind).store i [⟨nalu.length % 2 ^ 16, avc.off⟩]
  .ok { avc.withSets sets kind with data := data, off := avc.off + nalu.length }

/-- The common body of `h264_sps_copy` and `h264_pps_copy`: `1` is an update, `0` is
no change and `-1` is a failure. -/
def copySet (kind : SetKind) (avc : Mpeg4Avc) (nalu : List UInt8) :
    Except Fault (Int × Mpeg4Avc) := do
  if nalu.length < kind.shortest then return (-1, avc)
  match ← findSet avc kind (setIds kind nalu) (avc.count kind).toNat 0 with
  | some (i, set, stored) =>
    if nalu = stored then return (0, avc)
    if nalu.length > set.bytes ∧ avc.off + (nalu.length - set.bytes) > dataSize then
      return (-1, avc)
    let avc ← mpeg4AvcRemove avc set
    let avc ← copyTo { avc with off := avc.off - set.bytes } kind i nalu
    return (1, avc)
  | none =>
    if (avc.count kind).toNat ≥ kind.entries ∨ avc.off + nalu.length > dataSize then
      return (-1, avc)
    let avc ← copyTo avc kind (avc.count kind).toNat nalu
    return (1, avc.withCount (avc.count kind + 1) kind)

def h264SpsCopy : Mpeg4Avc → List UInt8 → Except Fault (Int × Mpeg4Avc) := copySet .sps

def h264PpsCopy : Mpeg4Avc → List UInt8 → Except Fault (Int × Mpeg4Avc) := copySet .pps

def nalType (nalu : List UInt8) : UInt8 := nalu.headD 0 &&& 0x1f

/-- Which array a NAL unit belongs to. -/
def setKind? (nalu : List UInt8) : Option SetKind :=
  if nalType nalu = 7 then some .sps else if nalType nalu = 8 then some .pps else none

/-- `mpeg4_avc_update` of the NAL unit; `behind` is what follows it in the caller's
buffer, where the profile of a short one is read. -/
def mpeg4AvcUpdate (avc : Mpeg4Avc) (nalu behind : List UInt8) : Except Fault (Int × Mpeg4Avc) :=
  match setKind? nalu with
  | some .sps => do
      let (r, avc) ← h264SpsCopy avc nalu
      if avc.nbSps = 1 then
        .ok (r, { avc with
          profile := (nalu ++ behind).getD 1 0
          compatibility := (nalu ++ behind).getD 2 0
          level := (nalu ++ behind).getD 3 0 })
      else .ok (r, avc)
  | some .pps => h264PpsCopy avc nalu
  | none => .ok (0, avc)

end CLibs.Avc

/-!
## What one update does to the store

`Packed whole avc entries` lists the entries of both arrays with the bytes they point
to: they stand apart in `data[0..off)`, tile it if the store is `whole`, and no two of
one array have the same identifiers.  Every outcome of an update is a change of this
list.
-/

namespace CLibs.Avc

/-- An entry of one of the arrays, with the NAL unit it points to. -/
structure Entry where
  place : Segment
  nalu : List UInt8

def Entry.closeUp (gap : Segment) (entry : Entry) : Entry :=
  { entry with place := gap.closeUp entry.place }

def both (entries : SetKind → List Entry) : List Entry := entries .sps ++ entries .pps

def replaced (entries : SetKind → List Entry) (kind : SetKind) (list : List Entry) :
    SetKind → List Entry :=
  fun other => if other = kind then list else entries other

/-- The invariant of the store: the sets in use tile `data`. -/
structure Packed (whole : Prop) (avc : Mpeg4Avc) (entries : SetKind → List Entry) : Prop where
  arraySize : ∀ kind, (avc.sets kind).size = kind.entries
  size : avc.data.size = dataSize
  room : avc.off ≤ dataSize
  count : ∀ kind, (avc.count kind).toNat = (entries kind).length
  held : ∀ kind, (avc.sets kind).Holds 0 ((entries kind).map Entry.place)
  tiles : Tiles whole avc.off ((both entries).map Entry.place)
  contents : ∀ entry ∈ both entries,
    entry.nalu.length = entry.place.bytes ∧ avc.data.Holds entry.place.data entry.nalu
  unique : ∀ kind, ((entries kind).map fun entry => setIds kind entry.nalu).Nodup

variable {whole : Prop} {avc next : Mpeg4Avc} {entries : SetKind → List Entry} {kind : SetKind}
  {before after : List Entry} {entry : Entry} {gap : Segment} {nalu behind : List UInt8}

/-! ## Both arrays as one list -/

theorem mem_both {entry : Entry} : entry ∈ both entries ↔ ∃ kind, entry ∈ entries kind := by
  unfold both
  rw [List.mem_append]
  constructor
  · rintro (listed | listed)
    · exact ⟨.sps, listed⟩
    · exact ⟨.pps, listed⟩
  · rintro ⟨kind, listed⟩
    cases kind with
    | sps => exact .inl listed
    | pps => exact .inr listed

@[simp] theorem replaced_self (list : List Entry) : replaced entries kind list kind = list :=
  if_pos rfl

theorem replaced_of_ne {other : SetKind} (ne : other ≠ kind) (list : List Entry) :
    replaced entries kind list other = entries other := if_neg ne

theorem both_perm (entries : SetKind → List Entry) (kind : SetKind) (before after : List Entry)
    (entry : Entry) :
    (both (replaced entries kind (before ++ entry :: after))).Perm
      (entry :: both (replaced entries kind (before ++ after))) := by
  cases kind with
  | sps =>
    change ((before ++ entry :: after) ++ entries .pps).Perm
      (entry :: (before ++ after ++ entries .pps))
    rw [← List.cons_append]
    exact List.perm_middle.append_right _
  | pps =>
    change (entries .sps ++ (before ++ entry :: after)).Perm
      (entry :: (entries .sps ++ (before ++ after)))
    rw [← List.append_assoc, ← List.append_assoc]
    exact List.perm_middle

theorem replaced_eq (here : entries kind = before ++ entry :: after) :
    replaced entries kind (before ++ entry :: after) = entries := by
  funext other
  rcases eq_or_ne other kind with rfl | ne
  · rw [replaced_self, here]
  · rw [replaced_of_ne ne]

theorem both_map (change : Entry → Entry) (entries : SetKind → List Entry) :
    both (fun kind => (entries kind).map change) = (both entries).map change :=
  (List.map_append ..).symm

/-! ## Finding a set -/

theorem Packed.sets_load (packed : Packed whole avc entries)
    (here : entries kind = before ++ entry :: after) :
    (avc.sets kind).load before.length = .ok entry.place := by
  have held := packed.held kind
  rw [here, List.map_append, List.map_cons] at held
  refine held.load_eq (Nat.zero_le _) ?_
  rw [Nat.sub_zero, List.getElem?_append_right (Nat.le_of_eq (List.length_map ..)),
    List.length_map, Nat.sub_self, List.getElem?_cons_zero]

theorem Packed.data_read (packed : Packed whole avc entries) (listed : entry ∈ both entries) :
    avc.data.read entry.place.data entry.place.bytes = .ok entry.nalu :=
  (packed.contents entry listed).2.read_eq (packed.contents entry listed).1.symm

theorem Packed.findSet_eq (packed : Packed whole avc entries) (ids : List UInt8) (rest : List Entry)
    (here : entries kind = before ++ rest) :
    (∃ middle entry after, rest = middle ++ entry :: after ∧ ids = setIds kind entry.nalu ∧
        findSet avc kind ids rest.length before.length =
          .ok (some ((before ++ middle).length, entry.place, entry.nalu))) ∨
      ((∀ entry ∈ rest, ids ≠ setIds kind entry.nalu) ∧
        findSet avc kind ids rest.length before.length = .ok none) := by
  induction rest generalizing before with
  | nil => exact .inr ⟨by simp, rfl⟩
  | cons entry rest ih =>
    have listed : entry ∈ both entries :=
      mem_both.mpr ⟨kind, by rw [here]; exact List.mem_append_right _ List.mem_cons_self⟩
    rw [List.length_cons, findSet, packed.sets_load here, ok_bind, packed.data_read listed,
      ok_bind]
    by_cases same : ids = setIds kind entry.nalu
    · left
      refine ⟨[], entry, rest, rfl, same, ?_⟩
      rw [if_pos same, List.append_nil]
    · rw [if_neg same]
      have further : entries kind = (before ++ [entry]) ++ rest := by
        rw [here, List.append_assoc]
        rfl
      have next := ih further
      rw [List.length_append, List.length_singleton] at next
      rcases next with ⟨middle, found, after, split, ids, located⟩ | ⟨missing, none⟩
      · left
        refine ⟨entry :: middle, found, after, by rw [split]; rfl, ids, ?_⟩
        rw [located, List.append_assoc, List.singleton_append]
      · right
        refine ⟨?_, none⟩
        intro other listed
        rcases List.mem_cons.mp listed with rfl | listed
        · exact same
        · exact missing other listed

/-! ## Taking a set out -/

theorem closeUpSets_eq {sets : Buffer Segment} (gap : Segment) (done rest : List Segment)
    (held : sets.Holds 0 (done ++ rest)) :
    ∃ closed, closeUpSets gap rest.length done.length sets = .ok closed ∧
      closed.size = sets.size ∧ closed.Holds 0 (done ++ rest.map gap.closeUp) := by
  induction rest generalizing done sets with
  | nil => exact ⟨sets, rfl, rfl, held⟩
  | cons segment rest ih =>
    have found : (done ++ segment :: rest)[done.length - 0]? = some segment := by
      rw [Nat.sub_zero, List.getElem?_append_right (Nat.le_refl _), Nat.sub_self,
        List.getElem?_cons_zero]
    have changed := held.set_cell (gap.closeUp segment) (Nat.zero_le done.length)
    rw [Nat.sub_zero, List.set_append_right _ _ (Nat.le_refl _), Nat.sub_self,
      List.set_cons_zero] at changed
    rw [List.append_cons] at changed
    obtain ⟨closed, returned, size, holds⟩ := ih (done ++ [gap.closeUp segment]) changed
    rw [List.length_append, List.length_singleton] at returned
    refine ⟨closed, ?_, size, ?_⟩
    · rw [List.length_cons, closeUpSets, held.modify_eq (Nat.zero_le _) found, ok_bind, returned]
    · rw [List.map_cons, List.append_cons]
      exact holds

structure Removed (avc next : Mpeg4Avc) (entries : SetKind → List Entry) (gap : Segment) :
    Prop where
  arraySize : ∀ kind, (next.sets kind).size = (avc.sets kind).size
  held : ∀ kind, (next.sets kind).Holds 0 ((entries kind).map fun entry => gap.closeUp entry.place)
  data : next.data =
    avc.data.moved gap.data (gap.data + gap.bytes) (avc.off - gap.data - gap.bytes)
  off : next.off = avc.off
  count : ∀ kind, next.count kind = avc.count kind

theorem Packed.remove_eq (packed : Packed whole avc entries) (fits : gap.data + gap.bytes ≤ avc.off) :
    ∃ next, mpeg4AvcRemove avc gap = .ok next ∧ Removed avc next entries gap := by
  have room := packed.room
  have size := packed.size
  obtain ⟨sps, spsClosed, spsSize, spsHeld⟩ := closeUpSets_eq gap [] _ (packed.held .sps)
  obtain ⟨pps, ppsClosed, ppsSize, ppsHeld⟩ := closeUpSets_eq gap [] _ (packed.held .pps)
  have spsCount := packed.count .sps
  have ppsCount := packed.count .pps
  rw [List.length_map, List.length_nil, ← spsCount] at spsClosed
  rw [List.length_map, List.length_nil, ← ppsCount] at ppsClosed
  have spsLoop : closeUpSets gap avc.nbSps.toNat 0 avc.sps = .ok sps := spsClosed
  have ppsLoop : closeUpSets gap avc.nbPps.toNat 0 avc.pps = .ok pps := ppsClosed
  refine ⟨{ avc with
    data := avc.data.moved gap.data (gap.data + gap.bytes) (avc.off - gap.data - gap.bytes)
    sps := sps
    pps := pps }, ?_, ?_⟩
  · unfold mpeg4AvcRemove
    rw [if_neg (by omega), Buffer.move_eq (by omega) (by omega), ok_bind, spsLoop, ok_bind,
      ppsLoop, ok_bind]
  · refine ⟨?_, ?_, rfl, rfl, ?_⟩
    · intro kind
      cases kind with
      | sps => exact spsSize
      | pps => exact ppsSize
    · intro kind
      cases kind with
      | sps =>
        rw [List.nil_append, List.map_map] at spsHeld
        exact spsHeld
      | pps =>
        rw [List.nil_append, List.map_map] at ppsHeld
        exact ppsHeld
    · intro kind
      cases kind with
      | sps => rfl
      | pps => rfl

/-! ## Putting a set in -/

/-- Entry `before.length` of one array is free: the others are packed. -/
structure Vacant (whole : Prop) (avc : Mpeg4Avc) (entries : SetKind → List Entry) (kind : SetKind)
    (before after : List Entry) : Prop where
  arraySize : ∀ other, (avc.sets other).size = other.entries
  size : avc.data.size = dataSize
  count : ∀ other ≠ kind, (avc.count other).toNat = (entries other).length
  held : ∀ other ≠ kind, (avc.sets other).Holds 0 ((entries other).map Entry.place)
  heldBefore : (avc.sets kind).Holds 0 (before.map Entry.place)
  heldAfter : after = [] ∨ (avc.sets kind).Holds (before.length + 1) (after.map Entry.place)
  here : entries kind = before ++ after
  tiles : Tiles whole avc.off ((both entries).map Entry.place)
  contents : ∀ entry ∈ both entries,
    entry.nalu.length = entry.place.bytes ∧ avc.data.Holds entry.place.data entry.nalu
  unique : ∀ kind, ((entries kind).map fun entry => setIds kind entry.nalu).Nodup

theorem Packed.vacant (packed : Packed whole avc entries) (kind : SetKind) :
    Vacant whole avc entries kind (entries kind) [] where
  arraySize := packed.arraySize
  size := packed.size
  count := fun other _ => packed.count other
  held := fun other _ => packed.held other
  heldBefore := packed.held kind
  heldAfter := .inl rfl
  here := (List.append_nil _).symm
  tiles := packed.tiles
  contents := packed.contents
  unique := packed.unique

def Mpeg4Avc.newEntry (avc : Mpeg4Avc) (nalu : List UInt8) : Entry := ⟨⟨nalu.length, avc.off⟩, nalu⟩

def copied (avc : Mpeg4Avc) (kind : SetKind) (i : Nat) (nalu : List UInt8) : Mpeg4Avc :=
  { avc.withSets ((avc.sets kind).written i [⟨nalu.length, avc.off⟩]) kind with
    data := avc.data.written avc.off nalu
    off := avc.off + nalu.length }

theorem copied_sets_self (i : Nat) :
    (copied avc kind i nalu).sets kind = (avc.sets kind).written i [⟨nalu.length, avc.off⟩] := by
  cases kind with
  | sps => rfl
  | pps => rfl

theorem copied_sets_of_ne {other : SetKind} (ne : other ≠ kind) (i : Nat) :
    (copied avc kind i nalu).sets other = avc.sets other := by
  cases kind with
  | sps =>
    cases other with
    | sps => exact absurd rfl ne
    | pps => rfl
  | pps =>
    cases other with
    | sps => rfl
    | pps => exact absurd rfl ne

@[simp] theorem copied_count (other : SetKind) (i : Nat) :
    (copied avc kind i nalu).count other = avc.count other := by
  cases kind with
  | sps =>
    cases other with
    | sps => rfl
    | pps => rfl
  | pps =>
    cases other with
    | sps => rfl
    | pps => rfl

theorem copyTo_eq {i : Nat} (size : avc.data.size = dataSize)
    (fits : avc.off + nalu.length ≤ dataSize) (entry : i < (avc.sets kind).size) :
    copyTo avc kind i nalu = .ok (copied avc kind i nalu) := by
  have short : nalu.length % 2 ^ 16 = nalu.length := Nat.mod_eq_of_lt (by
    unfold dataSize at fits
    omega)
  unfold copyTo
  rw [Buffer.store_eq (by omega), ok_bind, short, Buffer.store_eq entry, ok_bind]
  rfl

@[simp] theorem withCount_sets (avc : Mpeg4Avc) (count : UInt8) (other : SetKind) :
    (avc.withCount count kind).sets other = avc.sets other := by
  cases kind with
  | sps =>
    cases other with
    | sps => rfl
    | pps => rfl
  | pps =>
    cases other with
    | sps => rfl
    | pps => rfl

@[simp] theorem withCount_data (avc : Mpeg4Avc) (count : UInt8) :
    (avc.withCount count kind).data = avc.data := by
  cases kind with
  | sps => rfl
  | pps => rfl

@[simp] theorem withCount_off (avc : Mpeg4Avc) (count : UInt8) :
    (avc.withCount count kind).off = avc.off := by
  cases kind with
  | sps => rfl
  | pps => rfl

theorem withCount_count_self (avc : Mpeg4Avc) (count : UInt8) :
    (avc.withCount count kind).count kind = count := by
  cases kind with
  | sps => rfl
  | pps => rfl

theorem withCount_count_of_ne (avc : Mpeg4Avc) (count : UInt8) {other : SetKind}
    (ne : other ≠ kind) : (avc.withCount count kind).count other = avc.count other := by
  cases kind with
  | sps =>
    cases other with
    | sps => exact absurd rfl ne
    | pps => rfl
  | pps =>
    cases other with
    | sps => rfl
    | pps => exact absurd rfl ne

theorem Vacant.packed (vacant : Vacant whole avc entries kind before after)
    (nonempty : 0 < nalu.length) (fits : avc.off + nalu.length ≤ dataSize)
    (free : before.length < kind.entries)
    (fresh : ∀ entry ∈ before ++ after, setIds kind entry.nalu ≠ setIds kind nalu)
    {count : UInt8} (counted : count.toNat = before.length + 1 + after.length) :
    Packed whole ((copied avc kind before.length nalu).withCount count kind)
      (replaced entries kind (before ++ avc.newEntry nalu :: after)) := by
  have size := vacant.size
  have stays : replaced entries kind (before ++ after) = entries := by
    funext other
    rcases eq_or_ne other kind with rfl | ne
    · rw [replaced_self, vacant.here]
    · rw [replaced_of_ne ne]
  have front := both_perm entries kind before after (avc.newEntry nalu)
  rw [stays] at front
  have here : (copied avc kind before.length nalu).sets kind = _ := copied_sets_self _
  refine ⟨?_, ?_, ?_, ?_, ?_, ?_, ?_, ?_⟩
  · intro other
    rw [withCount_sets]
    rcases eq_or_ne other kind with rfl | ne
    · rw [here]
      exact vacant.arraySize other
    · rw [copied_sets_of_ne ne]
      exact vacant.arraySize other
  · rw [withCount_data]
    exact size
  · rw [withCount_off]
    exact fits
  · intro other
    rcases eq_or_ne other kind with rfl | ne
    · rw [withCount_count_self, replaced_self, counted, List.length_append, List.length_cons]
      omega
    · rw [withCount_count_of_ne _ _ ne, copied_count, replaced_of_ne ne]
      exact vacant.count other ne
  · intro other
    rw [withCount_sets]
    rcases eq_or_ne other kind with rfl | ne
    · rw [here, replaced_self, List.map_append, List.map_cons]
      have length : (before.map Entry.place).length = before.length := List.length_map ..
      have start : ((avc.sets other).written before.length [⟨nalu.length, avc.off⟩]).Holds 0
          (before.map Entry.place ++ [(avc.newEntry nalu).place]) := by
        refine vacant.heldBefore.extend _ (by rw [length, Nat.zero_add]) ?_
        rw [vacant.arraySize]
        exact free
      rw [List.append_cons]
      rcases vacant.heldAfter with rfl | later
      · rw [List.map_nil, List.append_nil]
        exact start
      · refine start.append (later.written (.inr ?_)) ?_
        · rw [List.length_singleton]
        · rw [List.length_append, length, List.length_singleton, Nat.zero_add]
    · rw [copied_sets_of_ne ne, replaced_of_ne ne]
      exact vacant.held other ne
  · rw [withCount_off]
    exact (vacant.tiles.append nonempty).perm (front.map Entry.place).symm
  · intro entry listed
    rw [withCount_data]
    rcases List.mem_cons.mp (front.mem_iff.mp listed) with rfl | listed
    · exact ⟨rfl, Buffer.written_holds _ _ (by rw [size]; exact fits)⟩
    · obtain ⟨length, holds⟩ := vacant.contents entry listed
      have inside := vacant.tiles.inside _ (List.mem_map_of_mem listed)
      exact ⟨length, holds.written (.inl (by rw [length]; exact inside))⟩
  · intro other
    rcases eq_or_ne other kind with rfl | ne
    · have unique := vacant.unique other
      rw [vacant.here] at unique
      rw [replaced_self, List.map_append, List.map_cons, List.nodup_middle, List.nodup_cons,
        ← List.map_append]
      refine ⟨?_, unique⟩
      intro member
      obtain ⟨entry, listed, same⟩ := List.mem_map.mp member
      exact fresh entry listed same
    · rw [replaced_of_ne ne]
      exact vacant.unique other

/-- A set that is taken out leaves a gap that is closed up. -/
theorem Removed.vacant (packed : Packed whole avc entries)
    (here : entries kind = before ++ entry :: after)
    (removed : Removed avc next entries entry.place) :
    Vacant whole { next with off := next.off - entry.place.bytes }
      (fun other => (replaced entries kind (before ++ after) other).map
        (Entry.closeUp entry.place)) kind
      (before.map (Entry.closeUp entry.place)) (after.map (Entry.closeUp entry.place)) := by
  have front := both_perm entries kind before after entry
  rw [replaced_eq here] at front
  have tiles := packed.tiles.perm (front.map Entry.place)
  rw [List.map_cons] at tiles
  have places : ∀ list : List Entry, (list.map (Entry.closeUp entry.place)).map Entry.place =
      list.map fun other => entry.place.closeUp other.place := by
    intro list
    rw [List.map_map]
    rfl
  have held := removed.held kind
  rw [here, List.map_append, List.map_cons] at held
  obtain ⟨heldBefore, heldRest⟩ := Buffer.holds_append.mp held
  rw [List.length_map, ← List.singleton_append] at heldRest
  obtain ⟨-, heldAfter⟩ := Buffer.holds_append.mp heldRest
  rw [List.length_singleton, Nat.zero_add] at heldAfter
  have unchanged : ∀ list : List Entry, ∀ kind : SetKind,
      ((list.map (Entry.closeUp entry.place)).map fun other => setIds kind other.nalu) =
        list.map fun other => setIds kind other.nalu := by
    intro list kind
    rw [List.map_map]
    rfl
  refine ⟨?_, ?_, ?_, ?_, ?_, ?_, ?_, ?_, ?_, ?_⟩
  · intro other
    exact (removed.arraySize other).trans (packed.arraySize other)
  · change next.data.size = _
    rw [removed.data]
    exact packed.size
  · intro other ne
    rw [replaced_of_ne ne, List.length_map, ← packed.count other]
    exact congrArg UInt8.toNat (removed.count other)
  · intro other ne
    rw [replaced_of_ne ne, places]
    exact removed.held other
  · rw [places]
    exact heldBefore
  · right
    rw [places, List.length_map]
    exact heldAfter
  · rw [replaced_self, List.map_append]
  · rw [both_map, places]
    have left := tiles.remove
    rw [List.map_map] at left
    change Tiles whole (next.off - entry.place.bytes) _
    rw [removed.off]
    exact left
  · intro other listed
    rw [both_map] at listed
    obtain ⟨old, member, rfl⟩ := List.mem_map.mp listed
    have known := front.mem_iff.mpr (List.mem_cons_of_mem _ member)
    obtain ⟨length, holds⟩ := packed.contents old known
    have filled := packed.tiles.filled _ (List.mem_map_of_mem known)
    have inside := packed.tiles.inside _ (List.mem_map_of_mem known)
    have apart := (List.pairwise_cons.mp tiles.apart).1 _ (List.mem_map_of_mem member)
    have side := apart.before_or_behind (tiles.filled _ List.mem_cons_self) filled
    refine ⟨length.trans (Segment.closeUp_bytes _ _).symm, ?_⟩
    change next.data.Holds _ _
    rw [removed.data]
    exact holds.closeUp length side filled inside
  · intro other
    rw [unchanged]
    rcases eq_or_ne other kind with rfl | ne
    · have unique := packed.unique other
      rw [here, List.map_append, List.map_cons, List.nodup_middle, List.nodup_cons] at unique
      rw [replaced_self, List.map_append]
      exact unique.2
    · rw [replaced_of_ne ne]
      exact packed.unique other

end CLibs.Avc
