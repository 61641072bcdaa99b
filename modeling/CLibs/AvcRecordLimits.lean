import CLibs.AvcRecordRoundTrip

/-!
# Which records come back

`save` accepts `32` SPS and keeps the low five bits of the count; both loops of
`load` end where at most two bytes are left, without a look at the count.
-/

namespace CLibs.Avc

open List

variable {input : List UInt8} {avc prior loaded : Mpeg4Avc} {bytes : Nat} {record : List UInt8}
  {strings sps pps : List (List UInt8)} {sets : Buffer Segment} {data : Buffer UInt8}

/-! ## Sets that do not overlap -/

/-- The segments of all entries within the counts. -/
def segments (avc : Mpeg4Avc) : List Segment :=
  (List.range avc.nbSps.toNat).filterMap avc.sps.cells ++
    (List.range avc.nbPps.toNat).filterMap avc.pps.cells

theorem Points.listed (points : Points sets data 0 strings) :
    ((List.range strings.length).filterMap sets.cells).map Segment.bytes =
        strings.map List.length ∧
      ∀ segment ∈ (List.range strings.length).filterMap sets.cells,
        segment.data + segment.bytes ≤ data.size := by
  induction strings using List.reverseRecOn with
  | nil => exact ⟨rfl, by simp⟩
  | append_singleton strings string ih =>
    have before : Points sets data 0 strings := by
      intro k set found
      obtain ⟨bound, -⟩ := List.getElem?_eq_some_iff.mp found
      exact points k set (by rw [List.getElem?_append_left bound]; exact found)
    obtain ⟨widths, inside⟩ := ih before
    obtain ⟨segment, cell, width, holds⟩ := points strings.length string (by
      rw [List.getElem?_append_right (Nat.le_refl _), Nat.sub_self, List.getElem?_cons_zero])
    rw [Nat.zero_add] at cell
    have last : [strings.length].filterMap sets.cells = [segment] := by
      rw [filterMap_cons_some cell, filterMap_nil]
    rw [length_append, length_singleton, range_succ, filterMap_append, last]
    refine ⟨?_, ?_⟩
    · rw [map_append, map_append, widths, map_singleton, map_singleton, width]
    · intro other listed
      rcases mem_append.mp listed with listed | listed
      · exact inside other listed
      · obtain rfl := mem_singleton.mp listed
        have room := holds.fits
        rw [width]
        exact room

theorem Lists.fits (lists : Lists avc sps pps) (size : avc.data.size = dataSize)
    (apart : (segments avc).Pairwise Segment.Apart) :
    sps.flatten.length + pps.flatten.length ≤ dataSize := by
  obtain ⟨spsWidths, spsInside⟩ := lists.sps.listed
  obtain ⟨ppsWidths, ppsInside⟩ := lists.pps.listed
  unfold segments at apart
  rw [lists.spsCount, lists.ppsCount] at apart
  have total := sum_bytes_le (fun segment listed => (mem_append.mp listed).elim
    (spsInside segment) (ppsInside segment)) apart
  rw [map_append, sum_append, spsWidths, ppsWidths, size] at total
  rw [length_flatten, length_flatten]
  exact total

/-! ## Saved records -/

theorem save_eq (sized : Sized avc) (lists : Lists avc sps pps) (few : avc.nbSps ≤ 32)
    (saved : mpeg4AvcDecoderConfigurationRecordSave avc bytes = .ok (some record)) :
    7 + (setsText sps).length + (setsText pps).length ≤ bytes ∧
      record = recordHeader avc ++ (setsText sps ++ avc.nbPps :: (setsText pps ++
        extension avc (bytes - (7 + (setsText sps).length + (setsText pps).length)))) := by
  have spsRoom : 0 + sps.length ≤ avc.sps.size := by
    have bound := UInt8.le_iff_toNat_le.mp few
    rw [lists.spsCount] at bound
    rw [sized.sps, Nat.zero_add]
    exact bound
  have ppsRoom : 0 + pps.length ≤ avc.pps.size := by
    have bound := avc.nbPps.toNat_lt
    rw [lists.ppsCount] at bound
    rw [sized.pps]
    omega
  unfold mpeg4AvcDecoderConfigurationRecordSave at saved
  rw [lists.spsCount, lists.ppsCount] at saved
  by_cases short : bytes < 7 ∨ avc.nbSps > 32
  · rw [if_pos short] at saved
    cases saved
  · rw [if_neg short, saveSets_eq lists.sps spsRoom, ok_bind] at saved
    by_cases spsFit : (setsText sps).length ≤ bytes - 7
    · rw [if_pos spsFit] at saved
      dsimp only at saved
      rw [saveSets_eq lists.pps ppsRoom, ok_bind] at saved
      by_cases ppsFit : (setsText pps).length ≤ bytes - 7 - (setsText sps).length
      · rw [if_pos ppsFit] at saved
        have written := Option.some.inj (Except.ok.inj saved)
        refine ⟨by omega, ?_⟩
        have left : bytes - 7 - (setsText sps).length - (setsText pps).length =
            bytes - (7 + (setsText sps).length + (setsText pps).length) := by omega
        rw [left] at written
        rw [← written]
        simp only [append_assoc, cons_append]
      · rw [if_neg ppsFit] at saved
        cases saved
    · rw [if_neg spsFit] at saved
      cases saved

theorem low_count : ∀ count < 32, ((0xE0 ||| UInt8.ofNat count) &&& 0x1F).toNat = count := by
  decide

theorem low_nalu : ∀ nalu < 5, 1 ≤ nalu →
    ((0xFC ||| (UInt8.ofNat nalu - 1)) &&& 0x03) + 1 = UInt8.ofNat nalu := by
  decide

/-- Whatever was in the memory before, the record is read as these sets and fields. -/
def ReadsBack (record : List UInt8) (avc : Mpeg4Avc) (sps pps : List (List UInt8)) : Prop :=
  ∀ prior, Sized prior → ∃ bytes loaded,
    mpeg4AvcDecoderConfigurationRecordLoad record prior = .ok (some bytes, loaded) ∧
      Lists loaded sps pps ∧ loaded.profile = avc.profile ∧
      loaded.compatibility = avc.compatibility ∧ loaded.level = avc.level ∧
      loaded.nalu = avc.nalu

theorem extension_ne_nil {left : Nat} :
    extension avc left ≠ [] ↔ left ≥ 4 ∧ avc.profile ∈ highProfiles := by
  unfold extension
  split
  · exact iff_of_true nofun ‹_›
  · exact iff_of_false (fun differs => differs rfl) ‹_›

theorem Lists.cells_ne (lists : Lists loaded sps pps) :
    ∀ kind, ∀ i < (loaded.count kind).toNat, (loaded.sets kind).cells i ≠ none := by
  have found : ∀ {sets data} {strings : List (List UInt8)} {i : Nat}, Points sets data 0 strings →
      i < strings.length → sets.cells i ≠ none := by
    intro sets data strings i points inside none
    obtain ⟨segment, cell, -⟩ := points i strings[i] (List.getElem?_eq_getElem inside)
    rw [Nat.zero_add] at cell
    exact absurd (cell.symm.trans none) nofun
  intro kind i bound
  cases kind with
  | sps => exact found lists.sps (by rw [← lists.spsCount]; exact bound)
  | pps => exact found lists.pps (by rw [← lists.ppsCount]; exact bound)

theorem not_readsBack_full (full : avc.nbSps = 32) (count : sps.length = 32)
    (rest : List UInt8) : ¬ReadsBack (recordHeader avc ++ rest) avc sps pps := by
  intro reads
  obtain ⟨bytes, loaded, accepted, lists, -⟩ := reads .empty empty_sized
  obtain ⟨others, _, _, isRecord, same⟩ := isRecord_of_filled accepted lists.cells_ne
  have low := isRecord.count
  have five : (recordHeader avc ++ rest).getD 5 0 = 0xE0 ||| avc.nbSps := rfl
  have stored := same.spsCount
  rw [five, full] at low
  rw [lists.spsCount, count, ← low] at stored
  exact absurd stored (by decide)

theorem header_count (few : avc.nbSps < 32) (rest : List UInt8) :
    ((recordHeader avc ++ rest).getD 5 0 &&& 0x1F).toNat = avc.nbSps.toNat := by
  have low := low_count avc.nbSps.toNat (UInt8.lt_iff_toNat_lt.mp few)
  rw [UInt8.ofNat_toNat] at low
  exact low

theorem header_nalu (least : 1 ≤ avc.nalu) (few : avc.nalu ≤ 4) (rest : List UInt8) :
    ((recordHeader avc ++ rest).getD 4 0 &&& 0x03) + 1 = avc.nalu := by
  have low := low_nalu avc.nalu.toNat (Nat.lt_succ_of_le (UInt8.le_iff_toNat_le.mp few))
    (UInt8.le_iff_toNat_le.mp least)
  rw [UInt8.ofNat_toNat] at low
  exact low

theorem savedRecord_readsBack_iff {tail : List UInt8} (sized : Sized avc)
    (lists : Lists avc sps pps) (apart : (segments avc).Pairwise Segment.Apart)
    (few : avc.nbSps ≤ 32) (least : 1 ≤ avc.nalu) (most : avc.nalu ≤ 4)
    (written : record =
      recordHeader avc ++ (setsText sps ++ avc.nbPps :: (setsText pps ++ tail))) :
    ReadsBack record avc sps pps ↔ avc.nbSps < 32 ∧ (pps.getLast? = some [] → tail ≠ []) := by
  have fits := lists.fits sized.data apart
  have ppsFew := avc.nbPps.toNat_lt
  have count : UInt8.ofNat pps.length = avc.nbPps := by
    rw [← lists.ppsCount, UInt8.ofNat_toNat]
  have text : record.drop 6 =
      setsText sps ++ UInt8.ofNat pps.length :: (setsText pps ++ tail) := by
    rw [written, count]
    rfl
  have small : dataSize < 2 ^ 16 := by decide
  have short : ∀ string ∈ sps ++ pps, string.length < 2 ^ 16 := by
    intro string listed
    have part := (sublist_flatten_of_mem listed).length_le
    rw [flatten_append, length_append] at part
    omega
  constructor
  · intro reads
    have below : avc.nbSps < 32 := by
      by_contra full
      have most : avc.nbSps = 32 := UInt8.le_antisymm few (UInt8.not_lt.mp full)
      refine not_readsBack_full most ?_ _ (written ▸ reads)
      rw [← lists.spsCount, most]
      rfl
    refine ⟨below, fun last => ?_⟩
    obtain ⟨bytes, loaded, accepted, same, -⟩ := reads .empty empty_sized
    obtain ⟨others, more, rest, isRecord, parsed⟩ := isRecord_of_filled accepted same.cells_ne
    have spsCount : sps.length = others.length := same.spsCount.symm.trans parsed.spsCount
    have ppsCount : pps.length = more.length := same.ppsCount.symm.trans parsed.ppsCount
    have otherShort := isRecord.short
    obtain ⟨-, behind⟩ := setsText_inj (fun set listed => short set (mem_append_left _ listed))
      (fun set listed => otherShort set (mem_append_left _ listed)) spsCount
      (text.symm.trans isRecord.text)
    obtain ⟨rfl, rfl⟩ := setsText_inj
      (fun set listed => short set (mem_append_right _ listed))
      (fun set listed => otherShort set (mem_append_right _ listed)) ppsCount
      (List.cons.inj behind).2
    exact isRecord.ends last
  · rintro ⟨below, ends⟩ prior priorSized
    have isRecord : IsRecord record sps pps tail := by
      refine ⟨?_, text, by rw [← lists.ppsCount]; exact ppsFew, short, fits, ends⟩
      rw [written, header_count below, lists.spsCount]
    obtain ⟨bytes, loaded, accepted, same, profile, compatibility, level, nalu, -⟩ :=
      isRecord.load priorSized
    refine ⟨bytes, loaded, accepted, same, ?_, ?_, ?_, ?_⟩
    · rw [profile, written]
      rfl
    · rw [compatibility, written]
      rfl
    · rw [level, written]
      rfl
    · rw [nalu, written, header_nalu least most]

/-- A saved record is read back exactly when it has at most `31` SPS and a last PPS
without bytes is followed by the extension; an accepted byte string fills all entries
exactly when it is a complete record. -/
theorem configurationRecord_exact (sized : Sized avc) (lists : Lists avc sps pps)
    (apart : (segments avc).Pairwise Segment.Apart) (few : avc.nbSps ≤ 32)
    (least : 1 ≤ avc.nalu) (most : avc.nalu ≤ 4)
    (saved : mpeg4AvcDecoderConfigurationRecordSave avc bytes = .ok (some record)) :
    (ReadsBack record avc sps pps ↔ avc.nbSps < 32 ∧ (pps.getLast? = some [] →
      avc.profile ∈ highProfiles ∧ 11 + (setsText sps).length + (setsText pps).length ≤ bytes)) ∧
    ((∀ prior, Sized prior → ∃ count loaded,
      mpeg4AvcDecoderConfigurationRecordLoad input prior = .ok (some count, loaded) ∧
        Filled input loaded) ↔ ∃ sps pps tail, IsRecord input sps pps tail) := by
  constructor
  · obtain ⟨room, written⟩ := save_eq sized lists few saved
    rw [savedRecord_readsBack_iff sized lists apart few least most written, extension_ne_nil]
    refine and_congr_right fun _ => imp_congr_right fun _ => ?_
    rw [and_comm]
    refine and_congr_right fun _ => ?_
    omega
  · constructor
    · intro fills
      obtain ⟨count, loaded, accepted, filled⟩ := fills .empty empty_sized
      obtain ⟨sps, pps, tail, isRecord, -⟩ := isRecord_of_filled accepted (by
        intro kind i bound none
        obtain ⟨segment, position, cell, -⟩ := filled kind i bound
        exact absurd (cell.symm.trans none) nofun)
      exact ⟨sps, pps, tail, isRecord⟩
    · rintro ⟨sps, pps, tail, isRecord⟩ prior sized
      obtain ⟨count, loaded, accepted, lists, -, -, -, -, size⟩ := isRecord.load sized
      exact ⟨count, loaded, accepted, isRecord.filled size lists⟩

/-! ## Stores of one-byte sets -/

/-- A store with this many SPS of one byte. -/
def crowded (count : UInt8) : Mpeg4Avc :=
  { Mpeg4Avc.empty with
    nalu := 4
    nbSps := count
    sps := ⟨32, fun k => some ⟨1, k⟩⟩
    data := ⟨dataSize, fun _ => some 0x67⟩
    off := count.toNat }

theorem crowded_sized (count : UInt8) : Sized (crowded count) := ⟨rfl, rfl, rfl⟩

theorem crowded_lists (count : UInt8) :
    Lists (crowded count) (List.replicate count.toNat [0x67]) [] where
  spsCount := length_replicate.symm
  ppsCount := rfl
  sps := by
    intro k string found
    have small := count.toNat_lt
    obtain ⟨bound, rfl⟩ := List.getElem?_eq_some_iff.mp found
    rw [length_replicate] at bound
    rw [getElem_replicate]
    refine ⟨⟨1, 0 + k⟩, rfl, rfl, ?_, ?_⟩
    · change 0 + k + 1 ≤ 4096
      omega
    · intro index inside
      obtain rfl := Nat.lt_one_iff.mp inside
      rfl
  pps := fun k string found => absurd found (by simp)

theorem crowded_apart (count : UInt8) : (segments (crowded count)).Pairwise Segment.Apart := by
  have list : segments (crowded count) = (List.range count.toNat).map fun k => ⟨1, k⟩ := by
    change (List.range count.toNat).filterMap (some ∘ fun k => (⟨1, k⟩ : Segment)) ++ [] = _
    rw [append_nil, filterMap_eq_map]
  rw [list, pairwise_map]
  refine pairwise_lt_range.imp ?_
  rintro first second before address ⟨low, high⟩ ⟨low', high'⟩
  dsimp only at *
  omega

/-- The record of two SPS is read back, and the shortest record is complete. -/
theorem configurationRecord_two :
    (∃ record, mpeg4AvcDecoderConfigurationRecordSave (crowded 2) 16 = .ok (some record) ∧
      ReadsBack record (crowded 2) (List.replicate 2 [0x67]) []) ∧
    ∃ sps pps tail, IsRecord [1, 66, 0, 30, 0xFF, 0xE0, 0] sps pps tail := by
  have exact := @configurationRecord_exact [1, 66, 0, 30, 0xFF, 0xE0, 0] (crowded 2) _ _ _ _
    (crowded_sized 2) (crowded_lists 2) (crowded_apart 2) (by decide) (by decide) (by decide)
    (show mpeg4AvcDecoderConfigurationRecordSave (crowded 2) 16 = .ok (some
      [1, 0, 0, 0, 0xFF, 0xE2, 0, 1, 0x67, 0, 1, 0x67, 0]) from rfl)
  refine ⟨⟨_, rfl, exact.1.mpr ⟨by decide, nofun⟩⟩, exact.2.mp ?_⟩
  have isRecord : IsRecord [1, 66, 0, 30, 0xFF, 0xE0, 0] [] [] [] :=
    ⟨rfl, rfl, by decide, by simp, Nat.zero_le _, nofun⟩
  intro prior sized
  obtain ⟨count, loaded, accepted, lists, -, -, -, -, size⟩ := isRecord.load sized
  exact ⟨count, loaded, accepted, isRecord.filled size lists⟩

/-- `32` SPS are saved and do not come back; a record that ends behind its count is
accepted with an entry that was never written. -/
theorem configurationRecord_loses :
    (∃ record, Sized (crowded 32) ∧ Lists (crowded 32) (List.replicate 32 [0x67]) [] ∧
      (segments (crowded 32)).Pairwise Segment.Apart ∧
      mpeg4AvcDecoderConfigurationRecordSave (crowded 32) 256 = .ok (some record) ∧
      ¬ReadsBack record (crowded 32) (List.replicate 32 [0x67]) []) ∧
    ∃ loaded, mpeg4AvcDecoderConfigurationRecordLoad [1, 66, 0, 30, 0xFF, 0xE1, 0] .empty =
        .ok (some 7, loaded) ∧
      ¬Filled [1, 66, 0, 30, 0xFF, 0xE1, 0] loaded := by
  constructor
  · have lists : Lists (crowded 32) (List.replicate 32 [0x67]) [] := crowded_lists 32
    have saves :
        ((mpeg4AvcDecoderConfigurationRecordSave (crowded 32) 256).toOption.bind id).isSome := by
      decide +kernel
    obtain ⟨record, found⟩ := Option.isSome_iff_exists.mp saves
    obtain ⟨_, returned, rfl⟩ := Option.bind_eq_some_iff.mp found
    have saved := ok_of_toOption returned
    refine ⟨record, crowded_sized 32, lists, crowded_apart 32, saved, ?_⟩
    obtain ⟨-, written⟩ := save_eq (crowded_sized 32) lists (by decide) saved
    rw [written]
    exact not_readsBack_full rfl length_replicate _
  · refine ⟨_, rfl, fun filled => ?_⟩
    obtain ⟨segment, position, cell, -⟩ := filled .sps 0 (by decide)
    exact absurd cell nofun

end CLibs.Avc
