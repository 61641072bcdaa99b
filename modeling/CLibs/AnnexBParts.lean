import CLibs.AnnexB
import CLibs.AvcRecords

/-!
# The two conversions, unit by unit

`h264_handler` appends each unit behind its length and stops at the assertion in front
of a refused update.  Which updates are refused follows from the sets as lists (`Shelf`).
The loop of `h264_mp4toannexb` appends each unit behind a start code, and puts the
stored sets in front of everything at the first IDR picture before any parameter set.
-/

namespace CLibs.Avc

open List

variable {whole : Prop} {avc : Mpeg4Avc} {entries : SetKind → List Entry} {kind : SetKind}
  {nal : List UInt8} {nals strings sps pps : List (List UInt8)}
  {sets : Buffer Segment} {data out : Buffer UInt8} {i k reserve : Nat}

/-- The units with their lengths in front. -/
def mp4Text (nals : List (List UInt8)) : List UInt8 :=
  nals.flatMap fun nal => bigEndian 4 nal.length ++ nal

/-- The units in Annex B form. -/
def codes (nals : List (List UInt8)) : List UInt8 := nals.flatMap fun nal => h264StartCode ++ nal

theorem mp4Text_cons (nal : List UInt8) (nals : List (List UInt8)) :
    mp4Text (nal :: nals) = bigEndian 4 nal.length ++ nal ++ mp4Text nals := rfl

theorem codes_cons (nal : List UInt8) (nals : List (List UInt8)) :
    codes (nal :: nals) = h264StartCode ++ nal ++ codes nals := rfl

theorem codes_append (first second : List (List UInt8)) :
    codes (first ++ second) = codes first ++ codes second := flatMap_append

theorem codes_cons_length (nal : List UInt8) (nals : List (List UInt8)) :
    (codes (nal :: nals)).length = nal.length + 4 + (codes nals).length := by
  rw [codes_cons, length_append, length_append]
  change 4 + nal.length + _ = _
  omega

theorem mp4Text_length (nals : List (List UInt8)) : (mp4Text nals).length = (codes nals).length := by
  induction nals with
  | nil => rfl
  | cons nal nals ih =>
    rw [codes_cons_length, ← ih, mp4Text_cons, length_append, length_append,
      bigEndian_length]
    omega

/-! ## The store as lists -/

/-- The bytes in use, and the stored sets of both arrays. -/
structure Shelf where
  off : Nat
  sets : SetKind → List (List UInt8)

/-- What becomes of the sets when a NAL unit is brought to one array: it is refused if it
is too short or does not fit, and it takes the place of the set with its identifiers.
`nb_pps` is a byte, so the 256th PPS empties its array. -/
def Shelf.put (shelf : Shelf) (kind : SetKind) (nal : List UInt8) : Option Shelf :=
  let sets := shelf.sets kind
  if nal.length < kind.shortest then none
  else if sets.contains nal then some shelf
  else match sets.find? fun set => setIds kind set = setIds kind nal with
    | some old =>
      let off := shelf.off - old.length + nal.length
      if dataSize < off then none
      else some ⟨off, Function.update shelf.sets kind
        (sets.map fun set => if setIds kind set = setIds kind nal then nal else set)⟩
    | none =>
      if kind.entries ≤ sets.length ∨ dataSize < shelf.off + nal.length then none
      else some ⟨shelf.off + nal.length, Function.update shelf.sets kind
        (if sets.length = 255 then [] else sets ++ [nal])⟩

def Shelf.update (shelf : Shelf) (nal : List UInt8) : Option Shelf :=
  match setKind? nal with
  | none => some shelf
  | some kind => shelf.put kind nal

/-- The sets behind a list of NAL units, if none of them is refused. -/
def Shelf.updates (shelf : Shelf) : List (List UInt8) → Option Shelf
  | [] => some shelf
  | nal :: nals => (shelf.update nal).bind fun after => after.updates nals

/-- The store holds these sets. -/
structure Shelved (avc : Mpeg4Avc) (shelf : Shelf) (entries : SetKind → List Entry) : Prop where
  packed : Packed False avc entries
  sets : ∀ kind, nalus entries kind = shelf.sets kind
  off : avc.off = shelf.off

section Shelf

variable {shelf : Shelf} {before after : List Entry} {entry : Entry} {next : Mpeg4Avc}

theorem nalus_split (here : entries kind = before ++ entry :: after) :
    nalus entries kind = before.map Entry.nalu ++ entry.nalu :: after.map Entry.nalu := by
  unfold nalus
  rw [here, map_append, map_cons]

theorem Packed.other_ids (packed : Packed whole avc entries)
    (here : entries kind = before ++ entry :: after) :
    ∀ set ∈ before.map Entry.nalu ++ after.map Entry.nalu,
      setIds kind set ≠ setIds kind entry.nalu := by
  have unique := packed.unique kind
  rw [here, map_append, map_cons, nodup_middle, nodup_cons,
    ← map_append] at unique
  intro set member same
  rw [← map_append] at member
  obtain ⟨old, listed, rfl⟩ := mem_map.mp member
  exact unique.1 (mem_map.mpr ⟨old, listed, same⟩)

theorem Shelved.put_replaces (shelved : Shelved avc shelf entries)
    (here : entries kind = before ++ entry :: after)
    (ids : setIds kind nal = setIds kind entry.nalu) (differs : nal ≠ entry.nalu)
    (long : kind.shortest ≤ nal.length) :
    shelf.put kind nal =
      if dataSize < avc.off - entry.place.bytes + nal.length then none
      else some ⟨avc.off - entry.place.bytes + nal.length, Function.update shelf.sets kind
        (before.map Entry.nalu ++ nal :: after.map Entry.nalu)⟩ := by
  have listed : entry ∈ both entries :=
    mem_both.mpr ⟨kind, by rw [here]; exact mem_append_right _ mem_cons_self⟩
  have split := (shelved.sets kind).symm.trans (nalus_split here)
  have others := shelved.packed.other_ids here
  have new : nal ∉ shelf.sets kind := by
    rw [← shelved.sets]
    intro member
    exact differs (shelved.packed.eq_of_ids member (by rw [nalus_split here]; simp) ids)
  have found : ((shelf.sets kind).find? fun set => setIds kind set = setIds kind nal) =
      some entry.nalu := by
    rw [List.find?_eq_some_iff_append]
    refine ⟨by simp [ids], _, _, split, ?_⟩
    intro set member
    have apart := others set (mem_append_left _ member)
    simpa [ids] using apart
  have kept : ∀ list : List Entry, (∀ set ∈ list.map Entry.nalu, setIds kind set ≠ setIds kind nal) →
      (list.map Entry.nalu).map (fun set => if setIds kind set = setIds kind nal then nal else set) =
        list.map Entry.nalu := by
    intro list apart
    exact (map_congr_left fun set member => if_neg (apart set member)).trans (map_id _)
  unfold Shelf.put
  dsimp only
  rw [if_neg (Nat.not_lt.mpr long), if_neg fun listed => new (contains_iff_mem.mp listed), found]
  dsimp only
  rw [← shelved.off, (shelved.packed.contents entry listed).1, split, map_append,
    map_cons, if_pos ids.symm, kept before, kept after]
  · intro set member
    rw [ids]
    exact others set (mem_append_right _ member)
  · intro set member
    rw [ids]
    exact others set (mem_append_left _ member)

theorem Shelved.put_adds (shelved : Shelved avc shelf entries)
    (missing : ∀ entry ∈ entries kind, setIds kind nal ≠ setIds kind entry.nalu)
    (long : kind.shortest ≤ nal.length) :
    shelf.put kind nal =
      if (avc.count kind).toNat ≥ kind.entries ∨ avc.off + nal.length > dataSize then none
      else some ⟨avc.off + nal.length, Function.update shelf.sets kind
        (if (avc.count kind).toNat = 255 then [] else nalus entries kind ++ [nal])⟩ := by
  have apart : ∀ set ∈ shelf.sets kind, setIds kind nal ≠ setIds kind set := by
    rw [← shelved.sets]
    intro set member
    obtain ⟨entry, listed, rfl⟩ := mem_map.mp member
    exact missing entry listed
  have count : (avc.count kind).toNat = (shelf.sets kind).length := by
    rw [shelved.packed.count, ← shelved.sets, nalus, length_map]
  have none : ((shelf.sets kind).find? fun set => setIds kind set = setIds kind nal) = none := by
    rw [List.find?_eq_none]
    intro set member same
    exact apart set member (of_decide_eq_true same).symm
  unfold Shelf.put
  dsimp only
  rw [if_neg (Nat.not_lt.mpr long), if_neg fun listed => apart nal (contains_iff_mem.mp listed) rfl,
    none, ← shelved.off, count, shelved.sets]

theorem update_sets {changed : SetKind → List Entry} {list : List (List UInt8)}
    (sets : ∀ kind, nalus entries kind = shelf.sets kind) (here : nalus changed kind = list)
    (others : ∀ other ≠ kind, nalus changed other = nalus entries other) (other : SetKind) :
    nalus changed other = Function.update shelf.sets kind list other := by
  rcases eq_or_ne other kind with rfl | ne
  · rw [here, Function.update_self]
  · rw [others other ne, Function.update_of_ne ne, sets]

theorem nalus_replaced (list : List Entry) (other : SetKind) (ne : other ≠ kind) :
    nalus (replaced entries kind list) other = nalus entries other := by
  unfold nalus
  rw [replaced_of_ne ne]

theorem Shelved.added (shelved : Shelved avc shelf entries) (adds : Adds avc kind nal) :
    ∃ changed, Shelved (Avc.added avc kind nal) ⟨avc.off + nal.length,
      Function.update shelf.sets kind
        (if (avc.count kind).toNat = 255 then [] else nalus entries kind ++ [nal])⟩ changed := by
  have off : (Avc.added avc kind nal).off = avc.off + nal.length := by
    cases kind with
    | sps => rfl
    | pps => rfl
  by_cases full : (avc.count kind).toNat = 255
  · rw [if_pos full]
    cases kind with
    | sps =>
      have free : avc.nbSps.toNat < 32 := adds.2.1
      change avc.nbSps.toNat = 255 at full
      omega
    | pps =>
      exact ⟨_, shelved.packed.wraps adds (UInt8.toNat_inj.mp full),
        update_sets shelved.sets rfl (nalus_replaced _), off⟩
  · have bound := (avc.count kind).toNat_lt
    have below : (avc.count kind).toNat < 255 := by omega
    rw [if_neg full]
    refine ⟨_, shelved.packed.added adds below, update_sets shelved.sets ?_ (nalus_replaced _), off⟩
    unfold nalus
    rw [replaced_self, map_append]
    rfl

theorem Shelved.copySet (shelved : Shelved avc shelf entries) (kind : SetKind) (nal : List UInt8) :
    (shelf.put kind nal = none ∧ Avc.copySet kind avc nal = .ok (-1, avc)) ∨
      ∃ after r next changed, shelf.put kind nal = some after ∧ 0 ≤ r ∧
        Avc.copySet kind avc nal = .ok (r, next) ∧ Shelved next after changed := by
  have packed := shelved.packed
  rcases Nat.lt_or_ge nal.length kind.shortest with short | long
  · refine .inl ⟨if_pos short, ?_⟩
    unfold Avc.copySet
    rw [if_pos short]
    rfl
  have found := packed.findSet_eq (setIds kind nal) (entries kind) (nil_append _).symm
  rw [← packed.count kind, length_nil] at found
  rcases found with ⟨before, entry, after, here, ids, located⟩ | ⟨apart, missing⟩
  · have listed : entry ∈ both entries :=
      mem_both.mpr ⟨kind, by rw [here]; exact mem_append_right _ mem_cons_self⟩
    have inside := packed.tiles.inside _ (mem_map_of_mem listed)
    have room := packed.room
    by_cases same : nal = entry.nalu
    · have stored : nal ∈ shelf.sets kind := by
        rw [← shelved.sets, nalus_split here, same]
        simp
      refine .inr ⟨shelf, 0, avc, entries, ?_, Int.le_refl 0, ?_, shelved⟩
      · unfold Shelf.put
        dsimp only
        rw [if_neg (Nat.not_lt.mpr long), if_pos (contains_iff_mem.mpr stored)]
      · unfold Avc.copySet
        rw [if_neg (Nat.not_lt.mpr long), located, ok_bind]
        dsimp only
        rw [if_pos same]
        rfl
    rw [shelved.put_replaces here ids same long]
    by_cases tooBig : dataSize < avc.off - entry.place.bytes + nal.length
    · refine .inl ⟨if_pos tooBig, ?_⟩
      unfold Avc.copySet
      rw [if_neg (Nat.not_lt.mpr long), located, ok_bind]
      dsimp only
      rw [if_neg same, if_pos (by omega)]
      rfl
    · obtain ⟨next, changed, returned, packs, list, others, off⟩ :=
        packed.copySet_replaces here ids same long (Nat.not_lt.mp tooBig) located
      exact .inr ⟨_, 1, next, changed, if_neg tooBig, by decide, returned, packs,
        update_sets shelved.sets list others, off⟩
  · rw [shelved.put_adds apart long]
    by_cases full : (avc.count kind).toNat ≥ kind.entries ∨ avc.off + nal.length > dataSize
    · refine .inl ⟨if_pos full, ?_⟩
      unfold Avc.copySet
      rw [if_neg (Nat.not_lt.mpr long), missing, ok_bind]
      dsimp only
      rw [if_pos full]
      rfl
    · have adds : Adds avc kind nal := ⟨long, by omega, by omega, missing⟩
      obtain ⟨changed, later⟩ := shelved.added adds
      exact .inr ⟨_, 1, _, changed, if_neg full, by decide, packed.copySet_adds adds, later⟩

/-- An update is refused exactly if the lists refuse it. -/
theorem Shelved.update (shelved : Shelved avc shelf entries) (nal behind : List UInt8) :
    (shelf.update nal = none ∧ ∃ next, mpeg4AvcUpdate avc nal behind = .ok (-1, next)) ∨
      ∃ after r next changed, shelf.update nal = some after ∧ 0 ≤ r ∧
        mpeg4AvcUpdate avc nal behind = .ok (r, next) ∧ Shelved next after changed := by
  unfold Shelf.update
  cases known : setKind? nal with
  | none =>
    refine .inr ⟨shelf, 0, avc, entries, rfl, Int.le_refl 0, ?_, shelved⟩
    unfold mpeg4AvcUpdate
    rw [known]
  | some kind =>
    rcases shelved.copySet kind nal with ⟨refused, copies⟩ | ⟨after, r, next, changed, put, taken,
      copies, later⟩
    · obtain ⟨last, returned, -⟩ := mpeg4AvcUpdate_eq known copies
      exact .inl ⟨refused, last, returned⟩
    · obtain ⟨last, returned, same⟩ := mpeg4AvcUpdate_eq known copies
      exact .inr ⟨after, r, last, changed, put, taken, returned, same.packed later.packed,
        later.sets, same.off.trans later.off⟩

theorem Shelf.put_cases {after : Shelf} (put : shelf.put kind nal = some after) :
    after = shelf ∨ ∃ off list, after = ⟨off, Function.update shelf.sets kind list⟩ ∧
      ∀ set ∈ list, set = nal ∨ set ∈ shelf.sets kind := by
  unfold Shelf.put at put
  dsimp only at put
  split at put
  · cases put
  split at put
  · exact .inl (Option.some.inj put).symm
  split at put
  · split at put
    · cases put
    refine .inr ⟨_, _, (Option.some.inj put).symm, ?_⟩
    intro set member
    obtain ⟨old, listed, rfl⟩ := mem_map.mp member
    split
    · exact .inl rfl
    · exact .inr listed
  · split at put
    · cases put
    refine .inr ⟨_, _, (Option.some.inj put).symm, ?_⟩
    intro set member
    split at member
    · cases member
    · exact (mem_append.mp member).symm.imp_left mem_singleton.mp

theorem Shelf.update_members {after : Shelf} (update : shelf.update nal = some after)
    (kind : SetKind) : ∀ set ∈ after.sets kind, set = nal ∨ set ∈ shelf.sets kind := by
  unfold Shelf.update at update
  intro set member
  split at update
  · cases update
    exact .inr member
  · next held _ =>
      rcases Shelf.put_cases update with rfl | ⟨off, list, rfl, members⟩
      · exact .inr member
      · change set ∈ Function.update shelf.sets held list kind at member
        rcases eq_or_ne kind held with rfl | ne
        · rw [Function.update_self] at member
          exact members set member
        · rw [Function.update_of_ne ne] at member
          exact .inr member

end Shelf

/-! ## The handler -/

/-- The store holds these sets, which are NAL units. -/
def Stocked (avc : Mpeg4Avc) (shelf : Shelf) : Prop :=
  (∃ entries, Shelved avc shelf entries) ∧ ∀ kind, ∀ nal ∈ shelf.sets kind, IsUnit nal

theorem Stocked.update {shelf : Shelf} (stocked : Stocked avc shelf) (unit : IsUnit nal)
    (behind : List UInt8) :
    (shelf.update nal = none ∧ ∃ next, mpeg4AvcUpdate avc nal behind = .ok (-1, next)) ∨
      ∃ after r next, shelf.update nal = some after ∧ 0 ≤ r ∧
        mpeg4AvcUpdate avc nal behind = .ok (r, next) ∧ Stocked next after := by
  obtain ⟨⟨entries, shelved⟩, units⟩ := stocked
  rcases shelved.update nal behind with refused | ⟨after, r, next, changed, put, taken, updated,
    later⟩
  · exact .inl refused
  · refine .inr ⟨after, r, next, put, taken, updated, ⟨changed, later⟩, ?_⟩
    intro kind set member
    rcases Shelf.update_members put kind set member with rfl | stored
    · exact unit
    · exact units kind set stored

/-- What the handler leaves behind the units so far. -/
structure Handled (size : Nat) (nals : List (List UInt8)) (shelf : Shelf)
    (mp4 : H264AnnexbToMp4Handle) : Prop where
  stocked : Stocked mp4.avc shelf
  errcode : mp4.errcode = 0
  size : mp4.out.size = size
  bytes : mp4.bytes = (mp4Text nals).length
  holds : mp4.out.Holds 0 (mp4Text nals)

theorem Handled.step {size : Nat} {shelf : Shelf} {mp4 : H264AnnexbToMp4Handle}
    (handled : Handled size nals shelf mp4) (unit : IsUnit nal) (behind : List UInt8)
    (room : (mp4Text nals).length + (nal.length + 4) ≤ size) :
    (shelf.update nal = none ∧ h264Handler mp4 nal behind = .error .assertion) ∨
      ∃ after next, shelf.update nal = some after ∧ h264Handler mp4 nal behind = .ok next ∧
        Handled size (nals ++ [nal]) after next := by
  have length : (bigEndian 4 nal.length ++ nal).length = nal.length + 4 := by
    rw [length_append, bigEndian_length, Nat.add_comm]
  have text : mp4Text (nals ++ [nal]) = mp4Text nals ++ (bigEndian 4 nal.length ++ nal) := by
    unfold mp4Text
    rw [flatMap_append, flatMap_singleton]
  have bytes := handled.bytes
  have size := handled.size
  have some : 1 ≤ nal.length := length_pos_iff.mpr unit.nonempty
  unfold h264Handler
  rw [check_eq some, ok_bind]
  rcases handled.stocked.update unit behind with ⟨refused, avc, updated⟩ |
    ⟨after, r, avc, put, taken, updated, stocked⟩
  · refine .inl ⟨refused, ?_⟩
    rw [updated, ok_bind]
    dsimp only
    rw [check_error (by decide)]
    rfl
  · refine .inr ⟨after, ?_⟩
    rw [updated, ok_bind]
    dsimp only
    rw [check_eq taken, ok_bind, if_neg (Int.not_lt.mpr taken), if_pos (by omega),
      Buffer.store_eq (by rw [length]; omega), ok_bind]
    refine ⟨_, put, rfl, stocked, handled.errcode, handled.size, ?_, ?_⟩
    · dsimp only
      rw [bytes, text, length_append, length]
    · rw [text]
      exact handled.holds.extend _ (by rw [bytes, Nat.zero_add]) (by rw [length]; omega)

theorem Handled.units {size : Nat} {shelf : Shelf} (units : List (Bool × List UInt8))
    {mp4 : H264AnnexbToMp4Handle} (handled : Handled size nals shelf mp4)
    (valid : ∀ unit ∈ units, IsUnit unit.2)
    (room : (mp4Text nals).length + (mp4Text (units.map Prod.snd)).length ≤ size) :
    (shelf.updates (units.map Prod.snd) = none ∧
        handleUnits h264Handler units mp4 = .error .assertion) ∨
      ∃ last next, shelf.updates (units.map Prod.snd) = some last ∧
        handleUnits h264Handler units mp4 = .ok next ∧
        Handled size (nals ++ units.map Prod.snd) last next := by
  induction units generalizing nals shelf mp4 with
  | nil =>
    refine .inr ⟨shelf, mp4, rfl, rfl, ?_⟩
    rw [map_nil, append_nil]
    exact handled
  | cons unit units ih =>
    have length : (mp4Text ((unit :: units).map Prod.snd)).length =
        unit.2.length + 4 + (mp4Text (units.map Prod.snd)).length := by
      rw [mp4Text_length, mp4Text_length, map_cons, codes_cons_length]
    rw [length] at room
    rw [map_cons, Shelf.updates, handleUnits]
    rcases handled.step (valid unit mem_cons_self) (annexbText units) (by omega) with
      ⟨refused, stopped⟩ | ⟨after, middle, put, stepped, first⟩
    · rw [refused, stopped]
      exact .inl ⟨rfl, rfl⟩
    have grown : (mp4Text (nals ++ [unit.2])).length =
        (mp4Text nals).length + (unit.2.length + 4) := by
      rw [mp4Text_length, mp4Text_length, codes_append, length_append, codes_cons_length]
      rfl
    rw [put, stepped, ok_bind, Option.bind_some, append_cons]
    exact ih first (forall_mem_cons.mp valid).2 (by omega)

/-! ## The stored sets -/

theorem Packed.points (packed : Packed whole avc entries) (kind : SetKind) :
    Points (avc.sets kind) avc.data 0 (nalus entries kind) := by
  intro k string found
  unfold nalus at found
  obtain ⟨entry, here, rfl⟩ := Option.map_eq_some_iff.mp ((List.getElem?_map ..).symm.trans found)
  obtain ⟨bound, equal⟩ := List.getElem?_eq_some_iff.mp here
  have listed : entry ∈ both entries := mem_both.mpr ⟨kind, equal ▸ getElem_mem bound⟩
  obtain ⟨length, holds⟩ := packed.contents entry listed
  refine ⟨entry.place, ?_, length.symm, holds⟩
  rw [(packed.held kind).cell k (by rw [length_map]; exact bound), List.getElem?_map, here]
  rfl

theorem points_load {string : List UInt8} (points : Points sets data i (string :: strings))
    (few : i < sets.size) : ∃ segment, sets.load i = .ok segment ∧
      segment.bytes = string.length ∧ data.Holds segment.data string := by
  obtain ⟨segment, cell, width, holds⟩ := points 0 string rfl
  rw [Nat.add_zero] at cell
  refine ⟨segment, ?_, width, holds⟩
  unfold Buffer.load
  rw [if_pos few, cell]
  rfl

theorem Points.tail {string : List UInt8} (points : Points sets data i (string :: strings)) :
    Points sets data (i + 1) strings := by
  intro k set found
  obtain ⟨segment, cell, rest⟩ := points (k + 1) set found
  exact ⟨segment, by rw [← cell]; congr 1; omega, rest⟩

theorem setsSize_eq (points : Points sets data i strings) (few : i + strings.length ≤ sets.size) :
    setsSize sets strings.length i = .ok (codes strings).length := by
  induction strings generalizing i with
  | nil => rfl
  | cons string strings ih =>
    rw [length_cons] at few
    obtain ⟨segment, loaded, width, -⟩ := points_load points (by omega)
    rw [length_cons, setsSize, loaded, ok_bind, ih points.tail (by omega), ok_bind, width,
      codes_cons_length]

theorem IsUnit.not_isStartcode (unit : IsUnit nal) : nal.length < 4 ∨ ¬isStartcode nal := by
  match nal with
  | [] | [_] | [_, _] | [_, _, _] =>
    left
    simp only [length_cons, length_nil]
    omega
  | a :: b :: c :: d :: rest =>
    right
    rintro ⟨first, second, third | ⟨third, fourth⟩⟩
    · exact unit.startcode ⟨[], d :: rest, by
        rw [show a = 0 from first, show b = 0 from second, show c = 1 from third]
        rfl⟩
    · exact unit.zeros ⟨[], d :: rest, by
        rw [show a = 0 from first, show b = 0 from second, show c = 0 from third]
        rfl⟩

theorem setsToNalu_eq (points : Points sets data i strings) (few : i + strings.length ≤ sets.size)
    (units : ∀ string ∈ strings, IsUnit string) (small : reserve ≤ 4)
    (room : k + (codes strings).length ≤ out.size) :
    ∃ next, setsToNalu reserve sets data strings.length i k out =
        .ok (true, k + (codes strings).length, next) ∧ next.size = out.size ∧
      next.Holds k (codes strings) ∧
      ∀ position bytes, out.Holds position bytes →
        position + bytes.length ≤ k ∨ k + (codes strings).length ≤ position →
          next.Holds position bytes := by
  induction strings generalizing i k out with
  | nil => exact ⟨out, rfl, rfl, Buffer.holds_nil (by omega), fun _ _ holds _ => holds⟩
  | cons string strings ih =>
    rw [length_cons] at few
    rw [codes_cons_length] at room
    obtain ⟨segment, loaded, width, holds⟩ := points_load points (by omega)
    have unit := units string mem_cons_self
    have plain : segment.bytes < 4 ∨ ¬isStartcode string := by
      rw [width]
      exact unit.not_isStartcode
    have length : (h264StartCode ++ string).length = string.length + 4 := by
      rw [length_append, Nat.add_comm]
      rfl
    obtain ⟨next, returned, size, later, kept⟩ := @ih
      (out.written k (h264StartCode ++ string)) (i + 1) (k + (h264StartCode ++ string).length)
      points.tail (by omega)
      (forall_mem_cons.mp units).2
      (by rw [length, Buffer.written_size]; omega)
    refine ⟨next, ?_, size, ?_, ?_⟩
    · rw [length_cons, setsToNalu, loaded, ok_bind, if_pos (by omega), holds.read_eq width,
        ok_bind, if_pos plain]
      dsimp only
      rw [Buffer.store_eq (by rw [length]; omega), ok_bind, returned, length, codes_cons_length,
        Nat.add_assoc]
    · rw [codes_cons]
      refine Buffer.Holds.append (kept _ _ (Buffer.written_holds _ _ ?_) (.inl ?_)) later rfl
      · rw [length]
        omega
      · exact Nat.le_refl _
    · intro position bytes there outside
      rw [codes_cons_length] at outside
      refine kept _ _ (there.written ?_) ?_
      · rw [length]
        omega
      · rw [length]
        omega

end CLibs.Avc
