import CLibs.AvcStore
import CLibs.GuardedRuns

/-!
# Sequences of updates of the store

`nb_pps` is a byte and `pps` has `256` entries: the test for a full array never
fires, and the 256th PPS sets the count back to `0`.  As long as no update adds that
one, the store keeps exactly the last NAL unit of each identifier.
-/

namespace CLibs.Avc

open List

variable {whole : Prop} {avc next : Mpeg4Avc} {entries : SetKind → List Entry} {kind : SetKind}
  {nalu behind : List UInt8}

/-! ## The outcomes of one update -/

/-- The NAL units an array points to. -/
def nalus (entries : SetKind → List Entry) (kind : SetKind) : List (List UInt8) :=
  (entries kind).map Entry.nalu

theorem Packed.eq_of_ids (packed : Packed whole avc entries) {first second : List UInt8}
    (one : first ∈ nalus entries kind) (other : second ∈ nalus entries kind)
    (same : setIds kind first = setIds kind second) : first = second := by
  obtain ⟨left, leftListed, rfl⟩ := mem_map.mp one
  obtain ⟨right, rightListed, rfl⟩ := mem_map.mp other
  rw [inj_on_of_nodup_map (packed.unique kind) leftListed rightListed same]

theorem shortest_pos (kind : SetKind) : 0 < kind.shortest := by
  cases kind with
  | sps => decide
  | pps => decide

theorem withCount_self (avc : Mpeg4Avc) (kind : SetKind) :
    avc.withCount (avc.count kind) kind = avc := by
  cases kind with
  | sps => rfl
  | pps => rfl

/-- The call that adds an entry. -/
def Adds (avc : Mpeg4Avc) (kind : SetKind) (nalu : List UInt8) : Prop :=
  kind.shortest ≤ nalu.length ∧ (avc.count kind).toNat < kind.entries ∧
    avc.off + nalu.length ≤ dataSize ∧
    findSet avc kind (setIds kind nalu) (avc.count kind).toNat 0 = .ok none

/-- The state behind an added entry. -/
def added (avc : Mpeg4Avc) (kind : SetKind) (nalu : List UInt8) : Mpeg4Avc :=
  (copied avc kind (avc.count kind).toNat nalu).withCount (avc.count kind + 1) kind

theorem Packed.copySet_adds (packed : Packed whole avc entries) (adds : Adds avc kind nalu) :
    copySet kind avc nalu = .ok (1, added avc kind nalu) := by
  obtain ⟨long, free, fits, missing⟩ := adds
  unfold copySet
  rw [if_neg (Nat.not_lt.mpr long), missing, ok_bind]
  dsimp only
  rw [if_neg (by omega), copyTo_eq packed.size fits (by rw [packed.arraySize]; exact free),
    ok_bind]
  unfold added
  rw [copied_count]
  rfl

theorem Packed.fresh (packed : Packed whole avc entries) (adds : Adds avc kind nalu) :
    ∀ entry ∈ entries kind, setIds kind entry.nalu ≠ setIds kind nalu := by
  obtain ⟨-, -, -, missing⟩ := adds
  have found := packed.findSet_eq (setIds kind nalu) (entries kind) (nil_append _).symm
  rw [← packed.count kind, length_nil, missing] at found
  rcases found with ⟨_, _, _, _, _, impossible⟩ | ⟨fresh, _⟩
  · cases impossible
  · exact fun entry listed same => fresh entry listed same.symm

theorem Packed.added (packed : Packed whole avc entries) (adds : Adds avc kind nalu)
    (below : (avc.count kind).toNat < 255) :
    Packed whole (added avc kind nalu)
      (replaced entries kind (entries kind ++ [avc.newEntry nalu])) := by
  obtain ⟨long, free, fits, missing⟩ := adds
  have count := packed.count kind
  have nonempty := Nat.lt_of_lt_of_le (shortest_pos kind) long
  have fresh : ∀ entry ∈ entries kind ++ [], setIds kind entry.nalu ≠ setIds kind nalu := by
    rw [append_nil]
    exact packed.fresh ⟨long, free, fits, missing⟩
  have counted : (avc.count kind + 1).toNat = (entries kind).length + 1 := by
    have one : (1 : UInt8).toNat = 1 := rfl
    rw [UInt8.toNat_add, one, Nat.mod_eq_of_lt (by omega), count]
  unfold Avc.added
  rw [count]
  rw [count] at free
  exact (packed.vacant kind).packed nonempty fits free fresh counted

theorem Packed.copySet_replaces (packed : Packed whole avc entries) {before after : List Entry}
    {entry : Entry} (here : entries kind = before ++ entry :: after)
    (ids : setIds kind nalu = setIds kind entry.nalu) (differs : nalu ≠ entry.nalu)
    (long : kind.shortest ≤ nalu.length)
    (fits : avc.off - entry.place.bytes + nalu.length ≤ dataSize)
    (located : findSet avc kind (setIds kind nalu) (avc.count kind).toNat 0 =
      .ok (some (before.length, entry.place, entry.nalu))) :
    ∃ next changed, copySet kind avc nalu = .ok (1, next) ∧ Packed whole next changed ∧
      nalus changed kind = before.map Entry.nalu ++ nalu :: after.map Entry.nalu ∧
      (∀ other ≠ kind, nalus changed other = nalus entries other) ∧
      next.off = avc.off - entry.place.bytes + nalu.length := by
  have listed : entry ∈ both entries :=
    mem_both.mpr ⟨kind, by rw [here]; exact mem_append_right _ mem_cons_self⟩
  have inside := packed.tiles.inside _ (mem_map_of_mem listed)
  obtain ⟨middle, removes, removed⟩ := packed.remove_eq inside
  have vacant := removed.vacant packed here
  have counted := packed.count kind
  rw [here, length_append, length_cons] at counted
  have free : before.length < kind.entries := by
    have held := (packed.held kind).fits
    rw [length_map, packed.arraySize, here, length_append, length_cons] at held
    omega
  have room : middle.off - entry.place.bytes + nalu.length ≤ dataSize := by
    rw [removed.off]
    exact fits
  have unique := packed.unique kind
  rw [here, map_append, map_cons, nodup_middle, nodup_cons,
    ← map_append] at unique
  have fresh : ∀ other ∈ before.map (Entry.closeUp entry.place) ++
      after.map (Entry.closeUp entry.place), setIds kind other.nalu ≠ setIds kind nalu := by
    intro other member same
    rw [← map_append] at member
    obtain ⟨old, oldListed, rfl⟩ := mem_map.mp member
    exact unique.1 (mem_map.mpr ⟨old, oldListed, same.trans ids⟩)
  have size : middle.data.size = dataSize := vacant.size
  have lengths : (before.map (Entry.closeUp entry.place)).length = before.length :=
    length_map ..
  have stays : (copied { middle with off := middle.off - entry.place.bytes } kind before.length
      nalu).count kind = avc.count kind := by
    rw [copied_count]
    exact removed.count kind
  have packs : Packed whole ((copied { middle with off := middle.off - entry.place.bytes } kind
      (before.map (Entry.closeUp entry.place)).length nalu).withCount (avc.count kind) kind) _ :=
    vacant.packed (Nat.lt_of_lt_of_le (shortest_pos kind) long) room
      (by rw [lengths]; exact free) fresh
      (by rw [length_map, length_map, counted]; omega)
  rw [lengths, ← stays, withCount_self] at packs
  have copies : copyTo { middle with off := middle.off - entry.place.bytes } kind before.length
      nalu = .ok _ := copyTo_eq size room (by rw [vacant.arraySize]; exact free)
  refine ⟨_, _, ?_, packs, ?_, ?_, ?_⟩
  · unfold copySet
    rw [if_neg (Nat.not_lt.mpr long), located, ok_bind]
    dsimp only
    rw [if_neg differs, if_neg (by omega), removes, ok_bind, copies, ok_bind]
    rfl
  · unfold nalus
    rw [replaced_self, map_append, map_cons, map_map, map_map]
    rfl
  · intro other ne
    unfold nalus
    rw [replaced_of_ne ne, replaced_of_ne ne, map_map]
    rfl
  · rw [← removed.off]
    rfl

theorem Packed.copySet_cases (packed : Packed whole avc entries) (kind : SetKind) (nalu : List UInt8) :
    copySet kind avc nalu = .ok (-1, avc) ∨
      (copySet kind avc nalu = .ok (0, avc) ∧ nalu ∈ nalus entries kind) ∨
      (∃ next before entry after, copySet kind avc nalu = .ok (1, next) ∧
        entries kind = before ++ entry :: after ∧ setIds kind nalu = setIds kind entry.nalu ∧
        entry.nalu ≠ nalu ∧ ∃ changed, Packed whole next changed ∧
          nalus changed kind = before.map Entry.nalu ++ nalu :: after.map Entry.nalu ∧
          ∀ other ≠ kind, nalus changed other = nalus entries other) ∨
      Adds avc kind nalu := by
  rcases Nat.lt_or_ge nalu.length kind.shortest with short | long
  · left
    unfold copySet
    rw [if_pos short]
    rfl
  have found := packed.findSet_eq (setIds kind nalu) (entries kind) (nil_append _).symm
  rw [← packed.count kind, length_nil] at found
  rcases found with ⟨before, entry, after, here, ids, located⟩ | ⟨-, missing⟩
  · have listed : entry ∈ both entries :=
      mem_both.mpr ⟨kind, by rw [here]; exact mem_append_right _ mem_cons_self⟩
    have inside := packed.tiles.inside _ (mem_map_of_mem listed)
    have length := (packed.contents entry listed).1
    have room := packed.room
    by_cases differs : nalu = entry.nalu
    · right
      left
      refine ⟨?_, mem_map.mpr ⟨entry, by rw [here]; simp, differs.symm⟩⟩
      unfold copySet
      rw [if_neg (Nat.not_lt.mpr long), located, ok_bind]
      dsimp only
      rw [if_pos differs]
      rfl
    by_cases tooBig : nalu.length > entry.place.bytes ∧
        avc.off + (nalu.length - entry.place.bytes) > dataSize
    · left
      unfold copySet
      rw [if_neg (Nat.not_lt.mpr long), located, ok_bind]
      dsimp only
      rw [if_neg differs, if_pos tooBig]
      rfl
    · right
      right
      left
      obtain ⟨next, changed, returned, packs, same, others, -⟩ :=
        packed.copySet_replaces here ids differs long (by omega) located
      exact ⟨next, before, entry, after, returned, here, ids, fun equal => differs equal.symm,
        changed, packs, same, others⟩
  · by_cases full : (avc.count kind).toNat ≥ kind.entries ∨ avc.off + nalu.length > dataSize
    · left
      unfold copySet
      rw [if_neg (Nat.not_lt.mpr long), missing, ok_bind]
      dsimp only
      rw [if_pos full]
      rfl
    · right
      right
      right
      exact ⟨long, by omega, by omega, missing⟩

/-! ## Whole runs -/

/-- The store and the updates so far, each with what it returned, the last one
first. -/
structure Updated where
  avc : Mpeg4Avc
  history : List (List UInt8 × Int)

/-- The last successful update with these identifiers. -/
def latest (kind : SetKind) (ids : List UInt8) : List (List UInt8 × Int) → Option (List UInt8)
  | [] => none
  | (nalu, r) :: history =>
    if setKind? nalu = some kind ∧ setIds kind nalu = ids ∧ 0 ≤ r then some nalu
    else latest kind ids history

/-- A call of `mpeg4_avc_update`: a NAL unit and what follows it in the buffer. -/
abbrev Update := List UInt8 × List UInt8

def Steps (state : Updated) (call : Update) (after : Updated) : Prop :=
  ∃ r avc, mpeg4AvcUpdate state.avc call.1 call.2 = .ok (r, avc) ∧
    after = ⟨avc, (call.1, r) :: state.history⟩

/-- No 256th PPS is added, with which the count would begin again at zero. -/
def KeepsCount (state : Updated) (call : Update) : Prop :=
  setKind? call.1 = some .pps → state.avc.nbPps = 255 → ¬Adds state.avc .pps call.1

/-- The entries are packed and are the last successful update of each identifier. -/
structure Current (state : Updated) (entries : SetKind → List Entry) : Prop where
  packed : Packed True state.avc entries
  latest : ∀ kind ids nalu, Avc.latest kind ids state.history = some nalu ↔
    nalu ∈ nalus entries kind ∧ setIds kind nalu = ids

/-- The arrays, the counts, the bytes and `off` are as before. -/
structure SameStore (avc next : Mpeg4Avc) : Prop where
  sets : ∀ kind, next.sets kind = avc.sets kind
  count : ∀ kind, next.count kind = avc.count kind
  data : next.data = avc.data
  off : next.off = avc.off

theorem SameStore.packed (same : SameStore avc next) (packed : Packed whole avc entries) :
    Packed whole next entries where
  arraySize := fun kind => by rw [same.sets]; exact packed.arraySize kind
  size := by rw [same.data]; exact packed.size
  room := by rw [same.off]; exact packed.room
  count := fun kind => by rw [same.count]; exact packed.count kind
  held := fun kind => by rw [same.sets]; exact packed.held kind
  tiles := by rw [same.off]; exact packed.tiles
  contents := by rw [same.data]; exact packed.contents
  unique := packed.unique

theorem SameStore.refl (avc : Mpeg4Avc) : SameStore avc avc := ⟨fun _ => rfl, fun _ => rfl, rfl, rfl⟩

variable {r : Int}

theorem mpeg4AvcUpdate_eq (known : setKind? nalu = some kind)
    (copies : copySet kind avc nalu = .ok (r, next)) :
    ∃ after, mpeg4AvcUpdate avc nalu behind = .ok (r, after) ∧ SameStore next after := by
  unfold mpeg4AvcUpdate
  rw [known]
  cases kind with
  | sps =>
    dsimp only [h264SpsCopy]
    rw [copies, ok_bind]
    dsimp only
    split
    · refine ⟨_, rfl, ?_, ?_, rfl, rfl⟩
      · intro kind
        cases kind with
        | sps => rfl
        | pps => rfl
      · intro kind
        cases kind with
        | sps => rfl
        | pps => rfl
    · exact ⟨next, rfl, .refl next⟩
  | pps => exact ⟨next, copies, .refl next⟩

/-- What one update does to a packed store. -/
inductive Outcome (avc next : Mpeg4Avc) (entries changed : SetKind → List Entry)
    (nalu : List UInt8) : Int → Prop
  | failed (same : SameStore avc next) (unchanged : changed = entries) :
      Outcome avc next entries changed nalu (-1)
  | ignored (same : SameStore avc next) (unchanged : changed = entries)
      (none : setKind? nalu = none) : Outcome avc next entries changed nalu 0
  | kept (same : SameStore avc next) (unchanged : changed = entries) (kind : SetKind)
      (known : setKind? nalu = some kind) (listed : nalu ∈ nalus entries kind) :
      Outcome avc next entries changed nalu 0
  | stored (kind : SetKind) (known : setKind? nalu = some kind)
      (new : nalu ∉ nalus entries kind)
      (members : ∀ other, other ∈ nalus changed kind ↔ other = nalu ∨
        other ∈ nalus entries kind ∧ setIds kind other ≠ setIds kind nalu)
      (others : ∀ other ≠ kind, nalus changed other = nalus entries other) :
      Outcome avc next entries changed nalu 1

theorem replaced_members (packed : Packed whole avc entries) {before after : List Entry} {entry : Entry}
    (here : entries kind = before ++ entry :: after)
    (ids : setIds kind nalu = setIds kind entry.nalu) (other : List UInt8) :
    other ∈ before.map Entry.nalu ++ nalu :: after.map Entry.nalu ↔
      other = nalu ∨ other ∈ nalus entries kind ∧ setIds kind other ≠ setIds kind nalu := by
  have unique := packed.unique kind
  rw [here, map_append, map_cons, nodup_middle, nodup_cons,
    ← map_append] at unique
  have middle : other ∈ before.map Entry.nalu ++ nalu :: after.map Entry.nalu ↔
      other = nalu ∨ other ∈ (before ++ after).map Entry.nalu := by
    rw [perm_middle.mem_iff, mem_cons, map_append]
  rw [middle]
  refine or_congr_right ⟨?_, ?_⟩
  · intro member
    obtain ⟨old, listed, rfl⟩ := mem_map.mp member
    refine ⟨mem_map_of_mem ?_, fun same => ?_⟩
    · rw [here]
      rcases mem_append.mp listed with first | second
      · exact mem_append_left _ first
      · exact mem_append_right _ (mem_cons_of_mem _ second)
    · exact unique.1 (mem_map.mpr ⟨old, listed, same.trans ids⟩)
  · rintro ⟨member, differs⟩
    obtain ⟨old, listed, rfl⟩ := mem_map.mp member
    rw [here, perm_middle.mem_iff, mem_cons] at listed
    rcases listed with rfl | listed
    · exact absurd ids.symm differs
    · exact mem_map_of_mem listed

theorem Packed.added_outcome (packed : Packed whole avc entries) (known : setKind? nalu = some kind)
    (adds : Adds avc kind nalu) :
    Outcome avc next entries (replaced entries kind (entries kind ++ [avc.newEntry nalu]))
      nalu 1 := by
  have fresh := packed.fresh adds
  have list : nalus (replaced entries kind (entries kind ++ [avc.newEntry nalu])) kind =
      nalus entries kind ++ [nalu] := by
    unfold nalus
    rw [replaced_self, map_append]
    rfl
  refine .stored kind known ?_ ?_ ?_
  · intro member
    obtain ⟨entry, listed, same⟩ := mem_map.mp member
    exact fresh entry listed (congrArg _ same)
  · intro other
    rw [list, mem_append, mem_singleton, or_comm]
    refine or_congr_right ⟨fun member => ⟨member, ?_⟩, And.left⟩
    obtain ⟨entry, listed, rfl⟩ := mem_map.mp member
    exact fresh entry listed
  · intro other ne
    unfold nalus
    rw [replaced_of_ne ne]

theorem Packed.update (packed : Packed whole avc entries) (history : List (List UInt8 × Int))
    (keeps : KeepsCount ⟨avc, history⟩ (nalu, behind)) :
    ∃ r next changed, mpeg4AvcUpdate avc nalu behind = .ok (r, next) ∧ Packed whole next changed ∧
      Outcome avc next entries changed nalu r := by
  cases known : setKind? nalu with
  | none =>
    refine ⟨0, avc, entries, ?_, packed, .ignored (.refl avc) rfl known⟩
    unfold mpeg4AvcUpdate
    rw [known]
  | some kind =>
    rcases packed.copySet_cases kind nalu with failed | ⟨kept, listed⟩ | replaces | adds
    · obtain ⟨after, returned, same⟩ := mpeg4AvcUpdate_eq known failed
      exact ⟨-1, after, entries, returned, same.packed packed, .failed same rfl⟩
    · obtain ⟨after, returned, same⟩ := mpeg4AvcUpdate_eq known kept
      exact ⟨0, after, entries, returned, same.packed packed, .kept same rfl kind known listed⟩
    · obtain ⟨next, before, entry, later, returned, here, ids, differs, changed, packs, nalus,
        others⟩ := replaces
      obtain ⟨after, updated, same⟩ := mpeg4AvcUpdate_eq known returned
      have listed : entry.nalu ∈ Avc.nalus entries kind :=
        mem_map_of_mem (by rw [here]; exact mem_append_right _ mem_cons_self)
      have new : nalu ∉ Avc.nalus entries kind :=
        fun member => differs (packed.eq_of_ids listed member ids.symm)
      refine ⟨1, after, changed, updated, same.packed packs, .stored kind known new ?_ others⟩
      intro other
      rw [nalus]
      exact replaced_members packed here ids other
    · have below : (avc.count kind).toNat < 255 := by
        cases kind with
        | sps => exact Nat.lt_trans adds.2.1 (by decide)
        | pps =>
          have bound := (avc.count .pps).toNat_lt
          have free : avc.nbPps.toNat ≠ 255 :=
            fun full => keeps known (UInt8.toNat_inj.mp full) adds
          change avc.nbPps.toNat < 2 ^ 8 at bound
          change avc.nbPps.toNat < 255
          omega
      obtain ⟨after, updated, same⟩ := mpeg4AvcUpdate_eq known (packed.copySet_adds adds)
      exact ⟨1, after, _, updated, same.packed (packed.added adds below),
        packed.added_outcome known adds⟩

/-! ## The 256th PPS -/

theorem Packed.loosen (packed : Packed whole avc entries) : Packed False avc entries where
  arraySize := packed.arraySize
  size := packed.size
  room := packed.room
  count := packed.count
  held := packed.held
  tiles := packed.tiles.some_of (List.Sublist.refl _) (Nat.le_refl _)
  contents := packed.contents
  unique := packed.unique

theorem Packed.wraps (packed : Packed whole avc entries) (adds : Adds avc .pps nalu)
    (full : avc.nbPps = 255) :
    Packed False (Avc.added avc .pps nalu) (replaced entries .pps []) := by
  obtain ⟨-, -, fits, -⟩ := adds
  have none : (Avc.added avc .pps nalu).nbPps = 0 := by
    change avc.nbPps + 1 = 0
    rw [full]
    rfl
  have list : both (replaced entries .pps []) = entries .sps := append_nil _
  have inside : ∀ entry ∈ entries .sps, entry ∈ both entries := fun _ => mem_append_left _
  refine ⟨?_, packed.size, fits, ?_, ?_, ?_, ?_, ?_⟩
  · intro kind
    cases kind with
    | sps => exact packed.arraySize .sps
    | pps => exact packed.arraySize .pps
  · intro kind
    cases kind with
    | sps => exact packed.count .sps
    | pps =>
      change (Avc.added avc .pps nalu).nbPps.toNat = 0
      rw [none]
      rfl
  · intro kind
    cases kind with
    | sps => exact packed.held .sps
    | pps => exact Buffer.holds_nil (Nat.zero_le _)
  · rw [list]
    refine packed.tiles.some_of ?_ (Nat.le_add_right _ _)
    exact (sublist_append_left _ _).map _
  · rw [list]
    intro entry listed
    obtain ⟨length, holds⟩ := packed.contents entry (inside entry listed)
    have room := packed.tiles.inside _ (mem_map_of_mem (inside entry listed))
    exact ⟨length, holds.written (.inl (by rw [length]; exact room))⟩
  · intro kind
    cases kind with
    | sps => exact packed.unique .sps
    | pps => exact nodup_nil

/-! ## The last update of each identifier -/

variable {changed : SetKind → List Entry}

theorem Current.outcome {state : Updated} (current : Current state entries)
    (packs : Packed True next changed) (outcome : Outcome state.avc next entries changed nalu r) :
    Current ⟨next, (nalu, r) :: state.history⟩ changed := by
  refine ⟨packs, fun kind ids wanted => ?_⟩
  have before := current.latest kind ids wanted
  cases outcome with
  | failed same unchanged =>
    subst unchanged
    rw [← before, Avc.latest, if_neg (fun here => absurd here.2.2 (by decide))]
  | ignored same unchanged none =>
    subst unchanged
    rw [← before, Avc.latest, none, if_neg (fun here => absurd here.1 nofun)]
  | kept same unchanged held known listed =>
    subst unchanged
    rw [Avc.latest, known]
    by_cases here : some held = some kind ∧ setIds kind nalu = ids ∧ (0 : Int) ≤ 0
    · obtain ⟨sameKind, sameIds, -⟩ := here
      obtain rfl := Option.some.inj sameKind
      rw [if_pos ⟨rfl, sameIds, Int.le_refl 0⟩]
      constructor
      · intro equal
        obtain rfl := Option.some.inj equal
        exact ⟨listed, sameIds⟩
      · rintro ⟨member, wantedIds⟩
        rw [packs.eq_of_ids listed member (sameIds.trans wantedIds.symm)]
    · rw [if_neg here]
      exact before
  | stored held known new members others =>
    rw [Avc.latest, known]
    rcases eq_or_ne held kind with rfl | ne
    · rw [members]
      by_cases sameIds : setIds held nalu = ids
      · rw [if_pos ⟨rfl, sameIds, by decide⟩]
        constructor
        · intro equal
          obtain rfl := Option.some.inj equal
          exact ⟨.inl rfl, sameIds⟩
        · rintro ⟨rfl | ⟨-, differs⟩, wantedIds⟩
          · rfl
          · exact absurd (wantedIds.trans sameIds.symm) differs
      · rw [if_neg (fun here => sameIds here.2.1), before]
        constructor
        · rintro ⟨member, rfl⟩
          exact ⟨.inr ⟨member, fun same => sameIds same.symm⟩, rfl⟩
        · rintro ⟨rfl | ⟨member, -⟩, wantedIds⟩
          · exact absurd wantedIds sameIds
          · exact ⟨member, wantedIds⟩
    · rw [if_neg (fun here => ne (Option.some.inj here.1)), others kind ne.symm]
      exact before

theorem Outcome.failure (outcome : Outcome avc next entries changed nalu r) (failed : r = -1) :
    SameStore avc next := by
  cases outcome with
  | failed same unchanged => exact same
  | ignored same unchanged none => exact same
  | kept same unchanged kind known listed => exact same
  | stored kind known new members others => exact absurd failed (by decide)

theorem Outcome.changes_iff (outcome : Outcome avc next entries changed nalu r) :
    r = 1 ↔ ∃ kind other, ¬(other ∈ nalus changed kind ↔ other ∈ nalus entries kind) := by
  cases outcome with
  | failed same unchanged =>
    subst unchanged
    simp
  | ignored same unchanged none =>
    subst unchanged
    simp
  | kept same unchanged kind known listed =>
    subst unchanged
    simp
  | stored kind known new members others =>
    refine iff_of_true rfl ⟨kind, nalu, fun same => new (same.mp ?_)⟩
    exact (members nalu).mpr (.inl rfl)

theorem empty_current : Current ⟨.empty, []⟩ (fun _ => []) where
  packed := by
    refine ⟨?_, rfl, Nat.zero_le _, ?_, ?_, .nil, by simp [both], by simp⟩
    · intro kind
      cases kind with
      | sps => rfl
      | pps => rfl
    · intro kind
      cases kind with
      | sps => rfl
      | pps => rfl
    · intro kind
      exact Buffer.holds_nil (Nat.zero_le _)
  latest := by simp [latest, nalus]

theorem Current.step {state after : Updated} {call : Update} (current : ∃ entries, Current state entries)
    (keeps : KeepsCount state call) (stepped : Steps state call after) :
    ∃ entries, Current after entries := by
  obtain ⟨entries, current⟩ := current
  obtain ⟨r, avc, returned, rfl⟩ := stepped
  obtain ⟨code, next, changed, updated, packs, outcome⟩ := current.packed.update state.history keeps
  rw [updated] at returned
  cases returned
  exact ⟨changed, current.outcome packs outcome⟩

end CLibs.Avc
