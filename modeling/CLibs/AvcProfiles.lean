import CLibs.AvcStoreRuns
import Mathlib.Data.List.GetD

/-!
# The profile of the store

`mpeg4_avc_update` copies `profile`, `compatibility` and `level` out of the incoming
SPS whenever exactly one SPS is stored afterwards, whatever `h264_sps_copy` returned.
They follow the stored SPS as long as no SPS is refused while one is stored; a refused
one leaves its own three bytes behind.
-/

namespace CLibs.Avc

open List

variable {whole : Prop} {avc next : Mpeg4Avc} {entries : SetKind → List Entry}
  {entry : Entry} {gap : Segment} {kind : SetKind} {nalu stored behind : List UInt8} {r : Int}

/-! ## What is stored -/

def readSets (avc : Mpeg4Avc) (kind : SetKind) : (remaining i : Nat) → Except Fault (List (List UInt8))
  | 0, _ => .ok []
  | remaining + 1, i => do
      let set ← (avc.sets kind).load i
      let stored ← avc.data.read set.data set.bytes
      let rest ← readSets avc kind remaining (i + 1)
      .ok (stored :: rest)

/-- The NAL units of one array. -/
def storedSets (avc : Mpeg4Avc) (kind : SetKind) : Except Fault (List (List UInt8)) :=
  readSets avc kind (avc.count kind).toNat 0

def profileFields (avc : Mpeg4Avc) : List UInt8 := [avc.profile, avc.compatibility, avc.level]

def profileBytes (nalu : List UInt8) : List UInt8 :=
  [nalu.getD 1 0, nalu.getD 2 0, nalu.getD 3 0]

theorem Packed.readSets_eq (packed : Packed whole avc entries) (rest : List Entry)
    {before : List Entry} (here : entries kind = before ++ rest) :
    readSets avc kind rest.length before.length = .ok (rest.map Entry.nalu) := by
  induction rest generalizing before with
  | nil => rfl
  | cons entry rest ih =>
    have listed : entry ∈ both entries :=
      mem_both.mpr ⟨kind, by rw [here]; exact mem_append_right _ mem_cons_self⟩
    have further : entries kind = (before ++ [entry]) ++ rest := by
      rw [here, append_assoc]
      rfl
    have next := ih further
    rw [length_append, length_singleton] at next
    rw [length_cons, readSets, packed.sets_load here, ok_bind, packed.data_read listed,
      ok_bind, next, ok_bind]
    rfl

theorem Packed.storedSets_eq (packed : Packed whole avc entries) (kind : SetKind) :
    storedSets avc kind = .ok (nalus entries kind) := by
  unfold storedSets
  rw [packed.count]
  exact packed.readSets_eq (entries kind) (nil_append _).symm

theorem nalus_length (entries : SetKind → List Entry) (kind : SetKind) :
    (nalus entries kind).length = (entries kind).length := length_map _

theorem Packed.nbSps_eq_one (packed : Packed whole avc entries) :
    avc.nbSps = 1 ↔ (nalus entries .sps).length = 1 := by
  rw [nalus_length, ← packed.count .sps]
  exact ⟨fun one => congrArg UInt8.toNat one, fun one => UInt8.toNat_inj.mp one⟩

theorem profileBytes_append (long : SetKind.sps.shortest ≤ nalu.length) :
    profileBytes (nalu ++ behind) = profileBytes nalu := by
  have enough : 4 < nalu.length := long
  unfold profileBytes
  rw [getD_append _ _ _ _ (by omega), getD_append _ _ _ _ (by omega),
    getD_append _ _ _ _ (by omega)]

theorem profileBytes_eq (long : SetKind.sps.shortest ≤ nalu.length) :
    (nalu.drop 1).take 3 = profileBytes nalu := by
  match nalu, long with
  | _ :: _ :: _ :: _ :: _, _ => rfl

/-! ## The fields in one update -/

theorem mpeg4AvcRemove_profile (removes : mpeg4AvcRemove avc gap = .ok next) :
    profileFields next = profileFields avc := by
  unfold mpeg4AvcRemove at removes
  split at removes
  · cases removes
  · obtain ⟨data, -, removes⟩ := ok_of_bind removes
    obtain ⟨sps, -, removes⟩ := ok_of_bind removes
    obtain ⟨pps, -, removes⟩ := ok_of_bind removes
    cases removes
    rfl

theorem copyTo_profile {i : Nat} (copies : copyTo avc kind i nalu = .ok next) :
    profileFields next = profileFields avc := by
  unfold copyTo at copies
  obtain ⟨data, -, copies⟩ := ok_of_bind copies
  obtain ⟨sets, -, copies⟩ := ok_of_bind copies
  cases copies
  cases kind with
  | sps => rfl
  | pps => rfl

theorem withCount_profile (count : UInt8) :
    profileFields (avc.withCount count kind) = profileFields avc := by
  cases kind with
  | sps => rfl
  | pps => rfl

theorem copySet_profile (copies : copySet kind avc nalu = .ok (r, next)) :
    profileFields next = profileFields avc := by
  unfold copySet at copies
  split at copies
  · cases copies
    rfl
  obtain ⟨found, -, copies⟩ := ok_of_bind copies
  cases found with
  | some found =>
    dsimp only at copies
    split at copies
    · cases copies
      rfl
    split at copies
    · cases copies
      rfl
    obtain ⟨middle, removes, copies⟩ := ok_of_bind copies
    obtain ⟨last, puts, copies⟩ := ok_of_bind copies
    cases copies
    have kept := mpeg4AvcRemove_profile removes
    exact (copyTo_profile puts).trans kept
  | none =>
    dsimp only at copies
    split at copies
    · cases copies
      rfl
    obtain ⟨last, puts, copies⟩ := ok_of_bind copies
    cases copies
    exact (withCount_profile _).trans (copyTo_profile puts)

/-- The three fields are those of the NAL unit. -/
def withProfile (avc : Mpeg4Avc) (nalu : List UInt8) : Mpeg4Avc :=
  { avc with profile := nalu.getD 1 0, compatibility := nalu.getD 2 0, level := nalu.getD 3 0 }

theorem withProfile_same (avc : Mpeg4Avc) (nalu : List UInt8) :
    SameStore avc (withProfile avc nalu) := by
  refine ⟨?_, ?_, rfl, rfl⟩
  · intro kind
    cases kind with
    | sps => rfl
    | pps => rfl
  · intro kind
    cases kind with
    | sps => rfl
    | pps => rfl

theorem mpeg4AvcUpdate_one (known : setKind? nalu = some .sps)
    (copies : copySet .sps avc nalu = .ok (r, next)) (one : next.nbSps = 1) :
    mpeg4AvcUpdate avc nalu behind = .ok (r, withProfile next (nalu ++ behind)) := by
  unfold mpeg4AvcUpdate
  rw [known]
  dsimp only [h264SpsCopy]
  rw [copies, ok_bind]
  dsimp only
  rw [if_pos one]
  rfl

theorem mpeg4AvcUpdate_not_one (known : setKind? nalu = some .sps)
    (copies : copySet .sps avc nalu = .ok (r, next)) (many : next.nbSps ≠ 1) :
    mpeg4AvcUpdate avc nalu behind = .ok (r, next) := by
  unfold mpeg4AvcUpdate
  rw [known]
  dsimp only [h264SpsCopy]
  rw [copies, ok_bind]
  dsimp only
  rw [if_neg many]

/-! ## An SPS while one is stored -/

/-- Whether `h264_sps_copy` refuses a NAL unit while the store holds one SPS and
`off` bytes. -/
def RefusesSps (off : Nat) (stored nalu : List UInt8) : Prop :=
  nalu.length < SetKind.sps.shortest ∨
    if setIds .sps nalu = setIds .sps stored then
      stored.length < nalu.length ∧ dataSize < off + (nalu.length - stored.length)
    else dataSize < off + nalu.length

instance (off : Nat) (stored nalu : List UInt8) : Decidable (RefusesSps off stored nalu) :=
  inferInstanceAs (Decidable (_ ∨ _))

theorem Packed.copySet_one (packed : Packed whole avc entries) (one : entries .sps = [entry])
    (nalu : List UInt8) :
    (RefusesSps avc.off entry.nalu nalu ∧ copySet .sps avc nalu = .ok (-1, avc)) ∨
      (¬RefusesSps avc.off entry.nalu nalu ∧ SetKind.sps.shortest ≤ nalu.length ∧
        ((nalu = entry.nalu ∧ copySet .sps avc nalu = .ok (0, avc)) ∨
          (nalu ≠ entry.nalu ∧ ∃ next changed, copySet .sps avc nalu = .ok (1, next) ∧
            Packed whole next changed ∧ nalus changed .sps = [nalu]) ∨
          Adds avc .sps nalu)) := by
  have listed : entry ∈ both entries := mem_both.mpr ⟨.sps, by simp [one]⟩
  have length := (packed.contents entry listed).1
  have inside := packed.tiles.inside _ (mem_map_of_mem listed)
  have room := packed.room
  have counted := packed.count .sps
  rcases Nat.lt_or_ge nalu.length SetKind.sps.shortest with short | long
  · left
    refine ⟨.inl short, ?_⟩
    unfold copySet
    rw [if_pos short]
    rfl
  have found := packed.findSet_eq (setIds .sps nalu) (entries .sps) (nil_append _).symm
  rw [← counted, length_nil] at found
  rcases found with ⟨middle, other, after, here, ids, located⟩ | ⟨missing, none⟩
  · obtain ⟨rfl, rfl, rfl⟩ : middle = [] ∧ entry = other ∧ after = [] := by
      rw [one] at here
      cases middle with
      | nil => exact ⟨rfl, (List.cons.inj here).1, (List.cons.inj here).2.symm⟩
      | cons first middle => exact absurd (List.cons.inj here).2 (by simp)
    by_cases same : nalu = entry.nalu
    · right
      refine ⟨?_, long, .inl ⟨same, ?_⟩⟩
      · rw [RefusesSps, if_pos ids, ← same]
        omega
      · unfold copySet
        rw [if_neg (Nat.not_lt.mpr long), located, ok_bind]
        dsimp only
        rw [if_pos same]
        rfl
    by_cases tooBig : nalu.length > entry.place.bytes ∧
        avc.off + (nalu.length - entry.place.bytes) > dataSize
    · left
      refine ⟨.inr ?_, ?_⟩
      · rw [if_pos ids, length]
        exact tooBig
      · unfold copySet
        rw [if_neg (Nat.not_lt.mpr long), located, ok_bind]
        dsimp only
        rw [if_neg same, if_pos tooBig]
        rfl
    · right
      refine ⟨?_, long, .inr (.inl ⟨same, ?_⟩)⟩
      · rw [RefusesSps, if_pos ids, length]
        rintro (short | big)
        · omega
        · exact tooBig big
      · obtain ⟨next, changed, returned, packs, list, -⟩ :=
          packed.copySet_replaces here ids same long (by omega) located
        exact ⟨next, changed, returned, packs, list⟩
  · have others : setIds .sps nalu ≠ setIds .sps entry.nalu := missing entry (by simp [one])
    have few : ¬(avc.count .sps).toNat ≥ SetKind.sps.entries := by
      rw [counted, one, length_singleton]
      decide
    by_cases full : dataSize < avc.off + nalu.length
    · left
      refine ⟨.inr (by rw [if_neg others]; exact full), ?_⟩
      unfold copySet
      rw [if_neg (Nat.not_lt.mpr long), none, ok_bind]
      dsimp only
      rw [if_pos (.inr full)]
      rfl
    · right
      refine ⟨?_, long, .inr (.inr ⟨long, by omega, by omega, none⟩)⟩
      rw [RefusesSps, if_neg others]
      omega

/-! ## One update -/

inductive SpsOutcome (avc next : Mpeg4Avc) (nalu behind : List UInt8) (r : Int)
    (stored kept : List (List UInt8)) : Prop
  | refused (old : List UInt8) (one : stored = [old]) (refuses : RefusesSps avc.off old nalu)
      (negative : r < 0) (same : kept = stored)
      (fields : profileFields next = profileBytes (nalu ++ behind))
  | taken (accepts : ∀ old, stored = [old] → ¬RefusesSps avc.off old nalu) (succeeds : 0 ≤ r)
      (one : kept = [nalu]) (long : SetKind.sps.shortest ≤ nalu.length)
      (fields : profileFields next = profileBytes nalu)
  | apart (accepts : ∀ old, stored = [old] → ¬RefusesSps avc.off old nalu)
      (many : kept.length ≠ 1) (fields : profileFields next = profileFields avc)

theorem Packed.added_sps (packed : Packed whole avc entries) (adds : Adds avc .sps nalu) :
    Packed whole (Avc.added avc .sps nalu)
        (replaced entries .sps (entries .sps ++ [avc.newEntry nalu])) ∧
      nalus (replaced entries .sps (entries .sps ++ [avc.newEntry nalu])) .sps =
        nalus entries .sps ++ [nalu] := by
  refine ⟨packed.added adds (Nat.lt_trans adds.2.1 (by decide)), ?_⟩
  unfold nalus
  rw [replaced_self, map_append]
  rfl

theorem Packed.update_one {changed : SetKind → List Entry} (packs : Packed whole next changed)
    (known : setKind? nalu = some .sps) (copies : copySet .sps avc nalu = .ok (r, next))
    (one : (nalus changed .sps).length = 1) :
    ∃ after, mpeg4AvcUpdate avc nalu behind = .ok (r, after) ∧ Packed whole after changed ∧
      profileFields after = profileBytes (nalu ++ behind) := by
  refine ⟨withProfile next (nalu ++ behind), ?_, ?_, rfl⟩
  · exact mpeg4AvcUpdate_one known copies (packs.nbSps_eq_one.mpr one)
  · exact (withProfile_same next _).packed packs

theorem Packed.update_apart {changed : SetKind → List Entry} (packs : Packed whole next changed)
    (known : setKind? nalu = some .sps) (copies : copySet .sps avc nalu = .ok (r, next))
    (many : (nalus changed .sps).length ≠ 1) :
    mpeg4AvcUpdate avc nalu behind = .ok (r, next) ∧ profileFields next = profileFields avc :=
  ⟨mpeg4AvcUpdate_not_one known copies (fun one => many (packs.nbSps_eq_one.mp one)),
    copySet_profile copies⟩

theorem Packed.update_sps (packed : Packed whole avc entries) (known : setKind? nalu = some .sps)
    (behind : List UInt8) :
    ∃ r next changed, mpeg4AvcUpdate avc nalu behind = .ok (r, next) ∧ Packed whole next changed ∧
      SpsOutcome avc next nalu behind r (nalus entries .sps) (nalus changed .sps) := by
  by_cases single : ∃ entry, entries .sps = [entry]
  · obtain ⟨entry, one⟩ := single
    have alone : nalus entries .sps = [entry.nalu] := by
      unfold nalus
      rw [one]
      rfl
    rcases packed.copySet_one one nalu with ⟨refuses, copies⟩ | ⟨accepts, long, outcome⟩
    · obtain ⟨after, updates, packs, fields⟩ :=
        packed.update_one known copies (by rw [alone]; rfl)
      exact ⟨-1, after, entries, updates, packs, .refused _ alone refuses (by decide) rfl fields⟩
    have fits : ∀ old, nalus entries .sps = [old] → ¬RefusesSps avc.off old nalu := by
      intro old here
      rw [alone] at here
      obtain rfl := (List.cons.inj here).1
      exact accepts
    rcases outcome with ⟨rfl, copies⟩ | ⟨-, next, changed, copies, packs, list⟩ | adds
    · obtain ⟨after, updates, packs, fields⟩ :=
        packed.update_one known copies (by rw [alone]; rfl)
      rw [profileBytes_append long] at fields
      exact ⟨0, after, entries, updates, packs, .taken fits (by decide) alone long fields⟩
    · obtain ⟨after, updates, packs, fields⟩ :=
        packs.update_one known copies (by rw [list]; rfl)
      rw [profileBytes_append long] at fields
      exact ⟨1, after, changed, updates, packs, .taken fits (by decide) list long fields⟩
    · obtain ⟨packs, list⟩ := packed.added_sps adds
      have many : (nalus (replaced entries .sps (entries .sps ++ [avc.newEntry nalu]))
          .sps).length ≠ 1 := by
        rw [list, alone, length_append, length_singleton, length_singleton]
        decide
      obtain ⟨updates, fields⟩ := packs.update_apart known (packed.copySet_adds adds) many
      exact ⟨1, _, _, updates, packs, .apart fits many fields⟩
  · have several : (nalus entries .sps).length ≠ 1 := by
      rw [nalus_length]
      exact fun one => single (length_eq_one_iff.mp one)
    have fits : ∀ old, nalus entries .sps = [old] → ¬RefusesSps avc.off old nalu :=
      fun old here => absurd (congrArg List.length here) several
    rcases packed.copySet_cases .sps nalu with copies | ⟨copies, -⟩ |
      ⟨next, before, entry, after, copies, here, -, -, changed, packs, list, -⟩ | adds
    · obtain ⟨updates, fields⟩ := packed.update_apart known copies several
      exact ⟨-1, avc, entries, updates, packed, .apart fits several fields⟩
    · obtain ⟨updates, fields⟩ := packed.update_apart known copies several
      exact ⟨0, avc, entries, updates, packed, .apart fits several fields⟩
    · have many : (nalus changed .sps).length ≠ 1 := by
        rw [nalus_length, here] at several
        rw [list]
        simpa using several
      obtain ⟨updates, fields⟩ := packs.update_apart known copies many
      exact ⟨1, next, changed, updates, packs, .apart fits many fields⟩
    · obtain ⟨packs, list⟩ := packed.added_sps adds
      have copies := packed.copySet_adds adds
      by_cases first : nalus entries .sps = []
      · rw [first, nil_append] at list
        obtain ⟨after, updates, packs, fields⟩ := packs.update_one known copies (by rw [list]; rfl)
        rw [profileBytes_append adds.1] at fields
        exact ⟨1, after, _, updates, packs, .taken fits (by decide) list adds.1 fields⟩
      · have many : (nalus (replaced entries .sps (entries .sps ++ [avc.newEntry nalu]))
            .sps).length ≠ 1 := by
          rw [list, length_append, length_singleton]
          have filled := length_pos_of_ne_nil first
          omega
        obtain ⟨updates, fields⟩ := packs.update_apart known copies many
        exact ⟨1, _, _, updates, packs, .apart fits many fields⟩

theorem Packed.update_other (packed : Packed False avc entries) (other : setKind? nalu ≠ some .sps)
    (behind : List UInt8) :
    ∃ r next changed, mpeg4AvcUpdate avc nalu behind = .ok (r, next) ∧ Packed False next changed ∧
      nalus changed .sps = nalus entries .sps ∧ profileFields next = profileFields avc := by
  cases known : setKind? nalu with
  | none =>
    refine ⟨0, avc, entries, ?_, packed, rfl, rfl⟩
    unfold mpeg4AvcUpdate
    rw [known]
  | some kind =>
    obtain rfl : kind = .pps := by
      cases kind with
      | sps => exact absurd known other
      | pps => rfl
    have copied : ∀ result, copySet .pps avc nalu = .ok result →
        mpeg4AvcUpdate avc nalu behind = .ok result := by
      intro result copies
      unfold mpeg4AvcUpdate
      rw [known]
      exact copies
    rcases packed.copySet_cases .pps nalu with copies | ⟨copies, -⟩ |
      ⟨next, before, entry, after, copies, -, -, -, changed, packs, -, others⟩ | adds
    · exact ⟨-1, avc, entries, copied _ copies, packed, rfl, rfl⟩
    · exact ⟨0, avc, entries, copied _ copies, packed, rfl, rfl⟩
    · exact ⟨1, next, changed, copied _ copies, packs, others .sps (by decide), copySet_profile copies⟩
    · have copies := packed.copySet_adds adds
      by_cases below : (avc.count .pps).toNat < 255
      · refine ⟨1, _, _, copied _ copies, packed.added adds below, ?_, copySet_profile copies⟩
        have apart : SetKind.sps ≠ .pps := by decide
        unfold nalus
        rw [replaced_of_ne apart]
      · have bound := (avc.count .pps).toNat_lt
        have full : avc.nbPps = 255 := by
          apply UInt8.toNat_inj.mp
          change (avc.count .pps).toNat = 255
          omega
        exact ⟨1, _, _, copied _ copies, packed.wraps adds full, rfl, copySet_profile copies⟩

/-! ## Every run -/

/-- The fields are bytes `1`, `2` and `3` of the SPS, if one is stored. -/
def ProfileFollows (avc : Mpeg4Avc) : Prop :=
  avc.nbSps = 1 →
    ∃ stored, storedSets avc .sps = .ok [stored] ∧ (stored.drop 1).take 3 = profileFields avc

/-- Behind the call the fields are those of the single SPS, and a call that fails or stores no SPS
leaves them. -/
def UpdateFollows (avc : Mpeg4Avc) (call : Update) : Prop :=
  ∃ r next, mpeg4AvcUpdate avc call.1 call.2 = .ok (r, next) ∧ ProfileFollows next ∧
    (r < 0 ∨ storedSets next .sps = storedSets avc .sps →
      profileFields next = profileFields avc)

/-- An SPS with another profile that is refused while exactly one is stored. -/
def Misleads (avc : Mpeg4Avc) (call : Update) : Prop :=
  setKind? call.1 = some .sps ∧
    ∃ stored, storedSets avc .sps = .ok [stored] ∧ RefusesSps avc.off stored call.1 ∧
      profileBytes (call.1 ++ call.2) ≠ profileFields avc

def updates (avc : Mpeg4Avc) : List Update → Except Fault Mpeg4Avc
  | [] => .ok avc
  | call :: calls => do
      let (_, avc) ← mpeg4AvcUpdate avc call.1 call.2
      updates avc calls

/-- Every call of the run finds a state in which the property holds of it. -/
def AtEachCall (holds : Mpeg4Avc → Update → Prop) (avc : Mpeg4Avc) (calls : List Update) : Prop :=
  ∀ done call rest, calls = done ++ call :: rest →
    ∃ before, updates avc done = .ok before ∧ holds before call

theorem atEachCall_nil {holds : Mpeg4Avc → Update → Prop} : AtEachCall holds avc [] := by
  intro done call rest split
  simp at split

theorem atEachCall_cons {holds : Mpeg4Avc → Update → Prop} {call : Update} {calls : List Update}
    (updated : mpeg4AvcUpdate avc call.1 call.2 = .ok (r, next)) :
    AtEachCall holds avc (call :: calls) ↔ holds avc call ∧ AtEachCall holds next calls := by
  have later : ∀ done, updates avc (call :: done) = updates next done := by
    intro done
    rw [updates, updated, ok_bind]
  constructor
  · intro each
    constructor
    · obtain ⟨before, reached, here⟩ := each [] call calls rfl
      cases reached
      exact here
    · rintro done other rest rfl
      rw [← later]
      exact each (call :: done) other rest rfl
  · rintro ⟨here, each⟩ done other rest split
    cases done with
    | nil =>
      obtain ⟨rfl, rfl⟩ := List.cons.inj split
      exact ⟨avc, rfl, here⟩
    | cons first done =>
      obtain ⟨rfl, rfl⟩ := List.cons.inj split
      rw [later]
      exact each done other rest rfl

structure Followed (avc : Mpeg4Avc) (entries : SetKind → List Entry) : Prop where
  packed : Packed False avc entries
  fields : ∀ stored, nalus entries .sps = [stored] →
    SetKind.sps.shortest ≤ stored.length ∧ profileFields avc = profileBytes stored

theorem Followed.follows (followed : Followed avc entries) : ProfileFollows avc := by
  intro one
  obtain ⟨stored, alone⟩ := length_eq_one_iff.mp (followed.packed.nbSps_eq_one.mp one)
  obtain ⟨long, fields⟩ := followed.fields stored alone
  refine ⟨stored, ?_, ?_⟩
  · rw [followed.packed.storedSets_eq, alone]
  · rw [profileBytes_eq long, fields]

theorem Followed.update (followed : Followed avc entries) (call : Update) :
    ∃ r next changed, mpeg4AvcUpdate avc call.1 call.2 = .ok (r, next) ∧
      ((UpdateFollows avc call ∧ ¬Misleads avc call ∧ Followed next changed) ∨
        (¬UpdateFollows avc call ∧ Misleads avc call)) := by
  have before := followed.packed.storedSets_eq .sps
  by_cases known : setKind? call.1 = some .sps
  · obtain ⟨r, next, changed, updated, packs, outcome⟩ := followed.packed.update_sps known call.2
    have after := packs.storedSets_eq .sps
    have quiet : (∀ old, nalus entries .sps = [old] → ¬RefusesSps avc.off old call.1) →
        ¬Misleads avc call := by
      rintro accepts ⟨-, stored, alone, refuses, -⟩
      rw [before] at alone
      exact accepts stored (Except.ok.inj alone) refuses
    refine ⟨r, next, changed, updated, ?_⟩
    cases outcome with
    | refused old one refuses negative same fields =>
      by_cases differs : profileBytes (call.1 ++ call.2) = profileFields avc
      · have kept : Followed next changed := by
          refine ⟨packs, ?_⟩
          intro stored alone
          rw [same] at alone
          rw [fields, differs]
          exact followed.fields stored alone
        refine .inl ⟨⟨r, next, updated, kept.follows, fun _ => fields.trans differs⟩, ?_, kept⟩
        rintro ⟨-, _, _, _, other⟩
        exact other differs
      · refine .inr ⟨?_, known, old, by rw [before, one], refuses, differs⟩
        rintro ⟨code, state, again, -, keeps⟩
        rw [updated] at again
        cases again
        exact differs (fields.symm.trans (keeps (.inl negative)))
    | taken accepts succeeds one long fields =>
      have kept : Followed next changed := by
        refine ⟨packs, ?_⟩
        intro stored alone
        rw [one] at alone
        obtain rfl := (List.cons.inj alone).1
        exact ⟨long, fields⟩
      refine .inl ⟨⟨r, next, updated, kept.follows, ?_⟩, quiet accepts, kept⟩
      rintro (negative | same)
      · omega
      · rw [after, before, one] at same
        rw [fields, (followed.fields _ (Except.ok.inj same).symm).2]
    | apart accepts many fields =>
      have kept : Followed next changed :=
        ⟨packs, fun stored alone => absurd (congrArg List.length alone) many⟩
      exact .inl ⟨⟨r, next, updated, kept.follows, fun _ => fields⟩, quiet accepts, kept⟩
  · obtain ⟨r, next, changed, updated, packs, same, fields⟩ :=
      followed.packed.update_other known call.2
    have kept : Followed next changed := by
      refine ⟨packs, ?_⟩
      intro stored alone
      rw [same] at alone
      rw [fields]
      exact followed.fields stored alone
    exact ⟨r, next, changed, updated, .inl ⟨⟨r, next, updated, kept.follows, fun _ => fields⟩,
      fun misleads => known misleads.1, kept⟩⟩

theorem Followed.updates (followed : Followed avc entries) (calls : List Update) :
    AtEachCall UpdateFollows avc calls ↔
      AtEachCall (fun before call => ¬Misleads before call) avc calls := by
  induction calls generalizing avc entries with
  | nil => exact iff_of_true atEachCall_nil atEachCall_nil
  | cons call calls ih =>
    obtain ⟨r, next, changed, updated, outcome⟩ := followed.update call
    rw [atEachCall_cons updated, atEachCall_cons updated]
    rcases outcome with ⟨follows, honest, kept⟩ | ⟨strays, misleads⟩
    · rw [ih kept, iff_true_intro follows, iff_true_intro honest]
    · exact iff_of_false (fun each => strays each.1) (fun each => each.1 misleads)

end CLibs.Avc
