import CLibs.AvcRecords

/-!
# Configuration records read back

A record is read back when its number of SPS fits into five bits and a last PPS
without bytes is followed by the extension; a byte string that is accepted fills all
its entries exactly when it is a complete record.
-/

namespace CLibs.Avc

open List

variable {input rest tail : List UInt8} {avc prior loaded : Mpeg4Avc}
  {string : List UInt8} {strings sps pps : List (List UInt8)}
  {sets : Buffer Segment} {data : Buffer UInt8}

/-- The arrays and `data` have the sizes of the source. -/
structure Sized (avc : Mpeg4Avc) : Prop where
  sps : avc.sps.size = 32
  pps : avc.pps.size = 256
  data : avc.data.size = dataSize

theorem empty_sized : Sized .empty := ⟨rfl, rfl, rfl⟩

/-- The entries of both arrays point to these byte strings. -/
structure Lists (avc : Mpeg4Avc) (sps pps : List (List UInt8)) : Prop where
  spsCount : avc.nbSps.toNat = sps.length
  ppsCount : avc.nbPps.toNat = pps.length
  sps : Points avc.sps avc.data 0 sps
  pps : Points avc.pps avc.data 0 pps

/-! ## Complete records -/

/-- The bytes from the count of the SPS on are the text of the two lists. -/
structure IsRecord (input : List UInt8) (sps pps : List (List UInt8)) (tail : List UInt8) :
    Prop where
  count : (input.getD 5 0 &&& 0x1F).toNat = sps.length
  text : input.drop 6 = setsText sps ++ UInt8.ofNat pps.length :: (setsText pps ++ tail)
  few : pps.length < 256
  short : ∀ string ∈ sps ++ pps, string.length < 2 ^ 16
  fits : sps.flatten.length + pps.flatten.length ≤ dataSize
  ends : pps.getLast? = some [] → tail ≠ []

theorem IsRecord.long (record : IsRecord input sps pps tail) : 7 ≤ input.length := by
  have lengths := congrArg List.length record.text
  rw [length_drop, length_append, length_cons] at lengths
  omega

/-- The store once the first six bytes are read. -/
def headed (input : List UInt8) (avc : Mpeg4Avc) : Mpeg4Avc :=
  { avc with
    profile := input.getD 1 0
    compatibility := input.getD 2 0
    level := input.getD 3 0
    nalu := (input.getD 4 0 &&& 0x03) + 1
    nbSps := input.getD 5 0 &&& 0x1F }

theorem and_1F_le (byte : UInt8) : (byte &&& 0x1F).toNat ≤ 31 := by
  have five : (0x1F : UInt8).toNat = 31 := rfl
  rw [UInt8.toNat_and, five]
  exact Nat.and_le_right

theorem load_headed (long : 7 ≤ input.length) :
    mpeg4AvcDecoderConfigurationRecordLoad input prior =
      (loadSets (fun finish => finish ≥ input.length) input (headed input prior).nbSps.toNat 0
        ⟨6, 0, prior.sps, prior.data⟩).bind fun result =>
          let avc := { headed input prior with sps := result.2.sets, data := result.2.data }
          if result.1 then loadPps input avc result.2 else .ok (none, avc) := by
  have bytes : ∀ position, position < 7 →
      byteAt input position = .ok (input.getD position 0) := by
    intro position bound
    rw [getD_eq_getElem _ _ (by omega)]
    exact byteAt_eq (List.getElem?_eq_getElem _)
  have few : ¬(input.getD 5 0 &&& 0x1F).toNat > SetKind.sps.entries := by
    have bound := and_1F_le (input.getD 5 0)
    change ¬_ > 32
    omega
  unfold mpeg4AvcDecoderConfigurationRecordLoad
  rw [if_neg (by omega), bytes 1 (by omega), ok_bind, bytes 2 (by omega), ok_bind,
    bytes 3 (by omega), ok_bind, bytes 4 (by omega), ok_bind, bytes 5 (by omega), ok_bind]
  dsimp only
  rw [if_neg few]
  rfl

theorem loadPps_eq {result : Loading} {count : UInt8} (found : input[result.j]? = some count) :
    loadPps input avc result =
      (loadSets (fun finish => finish > input.length) input count.toNat 0
        ⟨result.j + 1, result.p, avc.pps, avc.data⟩).bind fun behind =>
          let avc := { avc with nbPps := count, pps := behind.2.sets, data := behind.2.data }
          if behind.1 then .ok (some behind.2.j, { avc with off := behind.2.p })
          else .ok (none, avc) := by
  obtain ⟨inside, -⟩ := List.getElem?_eq_some_iff.mp found
  have few : ¬count.toNat > SetKind.pps.entries := by
    have bound := count.toNat_lt
    change ¬_ > 256
    omega
  unfold loadPps
  rw [if_neg (by omega), byteAt_eq found, ok_bind, if_neg few]
  rfl

theorem Loads.stored_behind {middle next : Loading} {i j : Nat} {start : Loading}
    {array : Buffer Segment} {others : List (List UInt8)}
    (first : Loads input i strings start middle)
    (later : Loads input 0 others ⟨j, middle.p, array, middle.data⟩ next) :
    Points middle.sets next.data i strings := by
  intro k set found
  obtain ⟨segment, cell, bytes, inside, holds⟩ := first.points k set found
  exact ⟨segment, cell, bytes, later.kept _ _ (by rw [← bytes]; exact inside) holds⟩

theorem IsRecord.load (record : IsRecord input sps pps tail) (sized : Sized prior) :
    ∃ bytes loaded, mpeg4AvcDecoderConfigurationRecordLoad input prior = .ok (some bytes, loaded) ∧
      Lists loaded sps pps ∧ loaded.profile = input.getD 1 0 ∧
      loaded.compatibility = input.getD 2 0 ∧ loaded.level = input.getD 3 0 ∧
      loaded.nalu = (input.getD 4 0 &&& 0x03) + 1 ∧ loaded.data.size = dataSize := by
  have long := record.long
  have fits := record.fits
  have few := and_1F_le (input.getD 5 0)
  rw [record.count] at few
  have count : (UInt8.ofNat pps.length).toNat = pps.length := by
    rw [UInt8.toNat_ofNat', Nat.mod_eq_of_lt record.few]
  have clearSps : ∀ finish, finish + (UInt8.ofNat pps.length :: (setsText pps ++ tail)).length ≤
      input.length → decide (finish ≥ input.length) = false := by
    intro finish bound
    rw [length_cons] at bound
    rw [decide_eq_false_iff_not]
    omega
  have spsLoop : ∃ next, loadSets (fun finish => finish ≥ input.length) input sps.length 0
      ⟨6, 0, prior.sps, prior.data⟩ = .ok (true, next) ∧
      Loads input 0 sps ⟨6, 0, prior.sps, prior.data⟩ next ∧
      input.drop next.j = UInt8.ofNat pps.length :: (setsText pps ++ tail) :=
    loadSets_loads record.text (by dsimp only; omega)
      (fun set listed => record.short set (mem_append_left _ listed)) clearSps
      (by dsimp only; omega) sized.data (by dsimp only; rw [sized.sps]; omega) (fun _ => nofun)
  obtain ⟨middle, spsLoaded, first, behindSps⟩ := spsLoop
  have reached := first.p
  dsimp only at reached
  have found : input[middle.j]? = some (UInt8.ofNat pps.length) := by
    rw [← Nat.add_zero middle.j, ← List.getElem?_drop, behindSps]
    rfl
  obtain ⟨inside, -⟩ := List.getElem?_eq_some_iff.mp found
  have text : input.drop (middle.j + 1) = setsText pps ++ tail := by
    rw [← drop_drop, behindSps]
    rfl
  have clearPps : ∀ finish, finish + tail.length ≤ input.length →
      decide (finish > input.length) = false := by
    intro finish bound
    rw [decide_eq_false_iff_not]
    omega
  have ppsLoop : ∃ next, loadSets (fun finish => finish > input.length) input pps.length 0
      ⟨middle.j + 1, middle.p, prior.pps, middle.data⟩ = .ok (true, next) ∧
      Loads input 0 pps ⟨middle.j + 1, middle.p, prior.pps, middle.data⟩ next ∧
      input.drop next.j = tail :=
    loadSets_loads text inside
      (fun set listed => record.short set (mem_append_right _ listed)) clearPps
      (by dsimp only; omega) (first.dataSize.trans sized.data)
      (by dsimp only; rw [sized.pps]; have := record.few; omega) record.ends
  obtain ⟨next, ppsLoaded, later, -⟩ := ppsLoop
  refine ⟨next.j, { headed input prior with
    sps := middle.sets
    pps := next.sets
    data := next.data
    nbPps := UInt8.ofNat pps.length
    off := next.p }, ?_, ⟨record.count, count, first.stored_behind later, later.stored⟩, rfl, rfl,
    rfl, rfl, later.dataSize.trans (first.dataSize.trans sized.data)⟩
  rw [load_headed long]
  change (loadSets _ input (input.getD 5 0 &&& 0x1F).toNat 0 _).bind _ = _
  rw [record.count, spsLoaded]
  change loadPps input _ middle = _
  rw [loadPps_eq found, count]
  dsimp only [headed]
  rw [ppsLoaded]
  rfl

/-! ## Filled entries -/

/-- Every entry within the counts points to bytes of the input that lie in `data`. -/
def Filled (input : List UInt8) (avc : Mpeg4Avc) : Prop :=
  ∀ kind, ∀ i < (avc.count kind).toNat, ∃ segment position,
    (avc.sets kind).cells i = some segment ∧ segment.data + segment.bytes ≤ dataSize ∧
      position + segment.bytes ≤ input.length ∧
      avc.data.Holds segment.data ((input.drop position).take segment.bytes)

theorem setsText_infix (listed : string ∈ strings) :
    ∃ before after, setsText strings = before ++ string ++ after := by
  obtain ⟨left, right, rfl⟩ := append_of_mem listed
  refine ⟨setsText left ++ bigEndian 2 string.length, setsText right, ?_⟩
  unfold setsText
  rw [flatMap_append, flatMap_cons, setText]
  simp only [append_assoc]

theorem Points.filled {size : Nat} (points : Points sets data 0 strings)
    (whole : data.size = size) {before after : List UInt8}
    (text : input = before ++ setsText strings ++ after) {i : Nat} (bound : i < strings.length) :
    ∃ segment position, sets.cells i = some segment ∧ segment.data + segment.bytes ≤ size ∧
      position + segment.bytes ≤ input.length ∧
      data.Holds segment.data ((input.drop position).take segment.bytes) := by
  obtain ⟨segment, cell, bytes, holds⟩ := points i strings[i] (List.getElem?_eq_getElem bound)
  rw [Nat.zero_add] at cell
  have room := holds.fits
  obtain ⟨left, right, split⟩ := setsText_infix (getElem_mem bound)
  generalize strings[i] = string at bytes holds room split
  have place : input.drop (before ++ left).length = string ++ (right ++ after) := by
    rw [text, split]
    simp only [append_assoc]
    rw [← append_assoc, drop_left' rfl]
  have lengths := congrArg List.length text
  simp only [length_append, split] at lengths
  refine ⟨segment, (before ++ left).length, cell, by omega, ?_, ?_⟩
  · rw [length_append]
    omega
  · rw [place, bytes, take_left' rfl]
    exact holds

theorem IsRecord.filled (record : IsRecord input sps pps tail) (size : loaded.data.size = dataSize)
    (lists : Lists loaded sps pps) : Filled input loaded := by
  have whole : input = input.take 6 ++ (setsText sps ++ UInt8.ofNat pps.length ::
      (setsText pps ++ tail)) := by
    rw [← record.text, take_append_drop]
  intro kind i bound
  cases kind with
  | sps =>
    have text : input = input.take 6 ++ setsText sps ++
        (UInt8.ofNat pps.length :: (setsText pps ++ tail)) := by
      rw [append_assoc]
      exact whole
    exact lists.sps.filled size text (by rw [← lists.spsCount]; exact bound)
  | pps =>
    have text : input = (input.take 6 ++ (setsText sps ++ [UInt8.ofNat pps.length])) ++
        setsText pps ++ tail := by
      simp only [append_assoc, singleton_append]
      exact whole
    exact lists.pps.filled size text (by rw [← lists.ppsCount]; exact bound)

theorem Loads.whole {start next : Loading} {remaining : Nat}
    (loads : Loads input 0 strings start next) (few : strings.length ≤ remaining)
    (blank : ∀ k, start.sets.cells k = none)
    (filled : ∀ k < remaining, next.sets.cells k ≠ none) : strings.length = remaining := by
  by_contra fewer
  refine filled strings.length (by omega) ?_
  rw [loads.others _ (.inr (by omega)), blank]

theorem isRecord_of_filled {bytes : Nat}
    (accepted : mpeg4AvcDecoderConfigurationRecordLoad input .empty = .ok (some bytes, loaded))
    (filled : ∀ kind, ∀ i < (loaded.count kind).toNat, (loaded.sets kind).cells i ≠ none) :
    ∃ sps pps tail, IsRecord input sps pps tail ∧ Lists loaded sps pps := by
  have long : 7 ≤ input.length := by
    by_contra short
    unfold mpeg4AvcDecoderConfigurationRecordLoad at accepted
    rw [if_pos (by omega)] at accepted
    cases accepted
  have few := and_1F_le (input.getD 5 0)
  have spsLoop : ∃ through next strings, loadSets (fun finish => finish ≥ input.length) input
      (input.getD 5 0 &&& 0x1F).toNat 0 ⟨6, 0, Mpeg4Avc.empty.sps, Mpeg4Avc.empty.data⟩ =
        .ok (through, next) ∧ strings.length ≤ (input.getD 5 0 &&& 0x1F).toNat ∧
      Loads input 0 strings ⟨6, 0, Mpeg4Avc.empty.sps, Mpeg4Avc.empty.data⟩ next ∧
      next.p ≤ dataSize ∧
      (through = true → strings.length < (input.getD 5 0 &&& 0x1F).toNat →
        input.length ≤ next.j + 2) :=
    loadSets_spec (fun finish clear => by rw [decide_eq_false_iff_not] at clear; omega) rfl
      (Nat.zero_le _) (by rw [Nat.zero_add]; exact Nat.le_trans few (by decide))
  obtain ⟨through, middle, sps, spsLoaded, spsFew, first, spsRoom, -⟩ := spsLoop
  rw [load_headed long] at accepted
  change (loadSets _ input (input.getD 5 0 &&& 0x1F).toNat 0 _).bind _ = _ at accepted
  rw [spsLoaded] at accepted
  cases through with
  | false => cases accepted
  | true =>
    change loadPps input _ middle = _ at accepted
    have inside : middle.j < input.length := by
      by_contra outside
      unfold loadPps at accepted
      rw [if_pos (Nat.not_lt.mp outside)] at accepted
      cases accepted
    rw [loadPps_eq (List.getElem?_eq_getElem inside)] at accepted
    generalize countEq : input[middle.j] = count at accepted
    have bound := count.toNat_lt
    have ppsLoop : ∃ through next strings, loadSets (fun finish => finish > input.length) input
        count.toNat 0 ⟨middle.j + 1, middle.p, Mpeg4Avc.empty.pps, middle.data⟩ =
          .ok (through, next) ∧ strings.length ≤ count.toNat ∧
        Loads input 0 strings ⟨middle.j + 1, middle.p, Mpeg4Avc.empty.pps, middle.data⟩ next ∧
        next.p ≤ dataSize ∧
        (through = true → strings.length < count.toNat → input.length ≤ next.j + 2) :=
      loadSets_spec (fun finish clear => by rw [decide_eq_false_iff_not] at clear; omega)
        first.dataSize spsRoom (by
          change 0 + count.toNat ≤ 256
          omega)
    obtain ⟨through, next, pps, ppsLoaded, ppsFew, later, ppsRoom, -⟩ := ppsLoop
    dsimp only [headed] at accepted
    rw [ppsLoaded] at accepted
    cases through with
    | false => cases accepted
    | true =>
      cases accepted
      have spsWhole : sps.length = (input.getD 5 0 &&& 0x1F).toNat :=
        first.whole spsFew (fun _ => rfl) (filled .sps)
      have ppsWhole : pps.length = count.toNat :=
        later.whole ppsFew (fun _ => rfl) (filled .pps)
      have spsReached := first.p
      have ppsReached := later.p
      dsimp only at spsReached ppsReached
      refine ⟨sps, pps, input.drop next.j, ⟨spsWhole.symm, ?_, by omega, ?_, by omega, ?_⟩,
        ⟨spsWhole.symm, ppsWhole.symm, first.stored_behind later, later.stored⟩⟩
      · have text := later.text
        dsimp only at text
        rw [first.text, ← text, drop_eq_getElem_cons inside, countEq, ppsWhole,
          UInt8.ofNat_toNat]
      · exact forall_mem_append.mpr ⟨first.short, later.short⟩
      · intro last empty
        have ahead := later.ends last
        rw [drop_eq_nil_iff] at empty
        omega

/-! ## Saving -/

theorem saveSets_eq {i bytes : Nat} (points : Points sets data i strings)
    (few : i + strings.length ≤ sets.size) :
    saveSets sets data strings.length i bytes =
      .ok (if (setsText strings).length ≤ bytes then
        some (bytes - (setsText strings).length, setsText strings) else none) := by
  induction strings generalizing i bytes with
  | nil => rfl
  | cons string strings ih =>
    rw [length_cons] at few
    obtain ⟨segment, cell, width, holds⟩ := points 0 string rfl
    have load : sets.load i = .ok segment := by
      unfold Buffer.load
      rw [Nat.add_zero] at cell
      rw [if_pos (by omega), cell]
      rfl
    have later : Points sets data (i + 1) strings := by
      intro k set found
      obtain ⟨other, place, rest⟩ := points (k + 1) set found
      exact ⟨other, by rw [← place]; congr 1; omega, rest⟩
    rw [length_cons, saveSets, load, ok_bind, width, setsText_cons, length_append,
      setText_length]
    by_cases room : bytes ≥ string.length + 2
    · rw [if_pos room, holds.read_eq rfl, ok_bind, ih later (by omega), ok_bind]
      by_cases all : (setsText strings).length ≤ bytes - (string.length + 2)
      · rw [if_pos all, if_pos (by omega)]
        dsimp only
        rw [Nat.sub_sub]
        rfl
      · rw [if_neg all, if_neg (by omega)]
        rfl
    · rw [if_neg room, if_neg (by omega)]
      rfl

end CLibs.Avc
