import CLibs.HevcRecordLoading

/-!
# The round trip of HEVC decoder configuration records

A store comes back from its record when its assertions hold: each NAL unit begins with a header
of its type, and the pointer that the second assertion of `save` takes for it (of the entry with
the number of the type, not of the NAL unit) leaves room for its bytes.
-/

namespace CLibs.Hevc

open List

open Avc (setText setsText setsText_cons setsText_nil setText_length)

variable {hevc prior loaded : Mpeg4Hevc} {contents : List (Nalu × List UInt8)} {types : List UInt8}
  {bytes k : Nat}

/-! ## Fields -/

/-- Every field fits the width it is written in. -/
structure Mpeg4Hevc.Fits (hevc : Mpeg4Hevc) : Prop where
  configurationVersion : hevc.configurationVersion = 1
  generalProfileSpace : hevc.generalProfileSpace.toNat < 2 ^ 2
  generalTierFlag : hevc.generalTierFlag.toNat < 2 ^ 1
  generalProfileIdc : hevc.generalProfileIdc.toNat < 2 ^ 5
  generalConstraintIndicatorFlags : hevc.generalConstraintIndicatorFlags.toNat < 2 ^ 48
  minSpatialSegmentationIdc : hevc.minSpatialSegmentationIdc.toNat < 2 ^ 12
  parallelismType : hevc.parallelismType.toNat < 2 ^ 2
  chromaFormat : hevc.chromaFormat.toNat < 2 ^ 2
  bitDepthLumaMinus8 : hevc.bitDepthLumaMinus8.toNat < 2 ^ 3
  bitDepthChromaMinus8 : hevc.bitDepthChromaMinus8.toNat < 2 ^ 3
  constantFrameRate : hevc.constantFrameRate.toNat < 2 ^ 2
  numTemporalLayers : hevc.numTemporalLayers.toNat < 2 ^ 3
  temporalIdNested : hevc.temporalIdNested.toNat < 2 ^ 1
  lengthSizeMinusOne : hevc.lengthSizeMinusOne.toNat < 2 ^ 2

structure SameFields (left right : Mpeg4Hevc) : Prop where
  configurationVersion : left.configurationVersion = right.configurationVersion
  generalProfileSpace : left.generalProfileSpace = right.generalProfileSpace
  generalTierFlag : left.generalTierFlag = right.generalTierFlag
  generalProfileIdc : left.generalProfileIdc = right.generalProfileIdc
  generalProfileCompatibilityFlags :
    left.generalProfileCompatibilityFlags = right.generalProfileCompatibilityFlags
  generalConstraintIndicatorFlags :
    left.generalConstraintIndicatorFlags = right.generalConstraintIndicatorFlags
  generalLevelIdc : left.generalLevelIdc = right.generalLevelIdc
  minSpatialSegmentationIdc : left.minSpatialSegmentationIdc = right.minSpatialSegmentationIdc
  parallelismType : left.parallelismType = right.parallelismType
  chromaFormat : left.chromaFormat = right.chromaFormat
  bitDepthLumaMinus8 : left.bitDepthLumaMinus8 = right.bitDepthLumaMinus8
  bitDepthChromaMinus8 : left.bitDepthChromaMinus8 = right.bitDepthChromaMinus8
  avgFrameRate : left.avgFrameRate = right.avgFrameRate
  constantFrameRate : left.constantFrameRate = right.constantFrameRate
  numTemporalLayers : left.numTemporalLayers = right.numTemporalLayers
  temporalIdNested : left.temporalIdNested = right.temporalIdNested
  lengthSizeMinusOne : left.lengthSizeMinusOne = right.lengthSizeMinusOne

theorem SameFields.filled {left right : Mpeg4Hevc} (same : SameFields left right)
    (numOfArrays : UInt8) (nalu : Buffer Nalu) (data : Buffer UInt8) (off : Nat) :
    SameFields { left with numOfArrays := numOfArrays, nalu := nalu, data := data, off := off } right :=
  { same with }

theorem exists_fin {byte : UInt8} {count : Nat} (small : byte.toNat < count) :
    ∃ value : Fin count, byte = UInt8.ofNat value :=
  ⟨⟨byte.toNat, small⟩, UInt8.ofNat_toNat.symm⟩

theorem profile_byte {space tier idc : UInt8} (spaceFits : space.toNat < 2 ^ 2)
    (tierFits : tier.toNat < 2 ^ 1) (idcFits : idc.toNat < 2 ^ 5) :
    let byte := (space &&& 0x03) <<< 6 ||| (tier &&& 0x01) <<< 5 ||| idc &&& 0x1F
    (byte >>> 6) &&& 0x03 = space ∧ (byte >>> 5) &&& 0x01 = tier ∧ byte &&& 0x1F = idc := by
  have all : ∀ (space : Fin 4) (tier : Fin 2) (idc : Fin 32),
      let byte := (UInt8.ofNat space &&& 0x03) <<< 6 ||| (UInt8.ofNat tier &&& 0x01) <<< 5 |||
        UInt8.ofNat idc &&& 0x1F
      (byte >>> 6) &&& 0x03 = UInt8.ofNat space ∧ (byte >>> 5) &&& 0x01 = UInt8.ofNat tier ∧
        byte &&& 0x1F = UInt8.ofNat idc := by
    decide +kernel
  obtain ⟨space, rfl⟩ := exists_fin spaceFits
  obtain ⟨tier, rfl⟩ := exists_fin tierFits
  obtain ⟨idc, rfl⟩ := exists_fin idcFits
  exact all space tier idc

theorem layers_byte {rate layers nested size : UInt8} (rateFits : rate.toNat < 2 ^ 2)
    (layersFit : layers.toNat < 2 ^ 3) (nestedFits : nested.toNat < 2 ^ 1)
    (sizeFits : size.toNat < 2 ^ 2) :
    let byte := rate <<< 6 ||| (layers &&& 0x07) <<< 3 ||| (nested &&& 0x01) <<< 2 ||| size &&& 0x03
    (byte >>> 6) &&& 0x03 = rate ∧ (byte >>> 3) &&& 0x07 = layers ∧ (byte >>> 2) &&& 0x01 = nested ∧
      byte &&& 0x03 = size := by
  have all : ∀ (rate : Fin 4) (layers : Fin 8) (nested : Fin 2) (size : Fin 4),
      let byte := UInt8.ofNat rate <<< 6 ||| (UInt8.ofNat layers &&& 0x07) <<< 3 |||
        (UInt8.ofNat nested &&& 0x01) <<< 2 ||| UInt8.ofNat size &&& 0x03
      (byte >>> 6) &&& 0x03 = UInt8.ofNat rate ∧ (byte >>> 3) &&& 0x07 = UInt8.ofNat layers ∧
        (byte >>> 2) &&& 0x01 = UInt8.ofNat nested ∧ byte &&& 0x03 = UInt8.ofNat size := by
    decide +kernel
  obtain ⟨rate, rfl⟩ := exists_fin rateFits
  obtain ⟨layers, rfl⟩ := exists_fin layersFit
  obtain ⟨nested, rfl⟩ := exists_fin nestedFits
  obtain ⟨size, rfl⟩ := exists_fin sizeFits
  exact all rate layers nested size

/-- A field of `width` bits is read back from below the reserved bits that it is written with. -/
theorem low_bits {width : ℕ} {reserved mask field : UInt8} (fits : field.toNat < 2 ^ width)
    (ones : mask.toNat = 2 ^ width - 1) (apart : reserved.toNat &&& mask.toNat = 0) :
    (reserved ||| field) &&& mask = field := by
  rw [← UInt8.toNat_inj, UInt8.toNat_and, UInt8.toNat_or, Nat.and_or_distrib_right, apart, ones,
    Nat.and_two_pow_sub_one_of_lt_two_pow fits, Nat.zero_or]

theorem twelve_bits {field : UInt16} (fits : field.toNat < 2 ^ 12) :
    UInt16.ofNat ((UInt8.ofNat ((0xF000 ||| field).toNat / 256) &&& 0x0F).toNat * 256 +
      (UInt8.ofNat (0xF000 ||| field).toNat).toNat) = field := by
  have reserved : (0xF000 ||| field).toNat = 2 ^ 12 * 15 + field.toNat := by
    rw [UInt16.toNat_or, Nat.two_pow_add_eq_or_of_lt fits]
    rfl
  have low : (0x0F : UInt8).toNat = 2 ^ 4 - 1 := rfl
  rw [reserved, UInt8.toNat_and, low, Nat.and_two_pow_sub_one_eq_mod, UInt8.toNat_ofNat',
    UInt8.toNat_ofNat']
  have value : (2 ^ 12 * 15 + field.toNat) / 256 % 2 ^ 8 % 2 ^ 4 * 256 +
      (2 ^ 12 * 15 + field.toNat) % 2 ^ 8 = field.toNat := by
    omega
  rw [value, UInt16.ofNat_toNat]

theorem loadFields_same (fits : hevc.Fits) (prior : Mpeg4Hevc) (rest : List UInt8) :
    SameFields (loadFields (recordFields hevc ++ rest) prior) hevc := by
  have profile := profile_byte fits.generalProfileSpace fits.generalTierFlag fits.generalProfileIdc
  have layers := layers_byte fits.constantFrameRate fits.numTemporalLayers fits.temporalIdNested
    fits.lengthSizeMinusOne
  have flags : bigValue (bigEndian 4 hevc.generalProfileCompatibilityFlags.toNat) =
      hevc.generalProfileCompatibilityFlags.toNat :=
    bigValue_of_lt hevc.generalProfileCompatibilityFlags.toNat_lt
  have constraints : bigValue (bigEndian 6 hevc.generalConstraintIndicatorFlags.toNat) =
      hevc.generalConstraintIndicatorFlags.toNat :=
    bigValue_of_lt fits.generalConstraintIndicatorFlags
  have rate : bigValue (bigEndian 2 hevc.avgFrameRate.toNat) = hevc.avgFrameRate.toNat :=
    bigValue_of_lt hevc.avgFrameRate.toNat_lt
  rw [bigEndian_add 4 2, show 256 ^ 2 = 2 ^ 16 from rfl] at constraints
  simp only [bigEndian, nil_append, cons_append] at flags constraints rate
  constructor
  all_goals
    simp only [loadFields, recordFields, bigEndian, cons_append, nil_append,
      getD_cons_succ, getD_cons_zero, drop_succ_cons, drop_zero,
      take_succ_cons, take_zero]
  case generalProfileSpace => exact profile.1
  case generalTierFlag => exact profile.2.1
  case generalProfileIdc => exact profile.2.2
  case generalProfileCompatibilityFlags => rw [flags, UInt32.ofNat_toNat]
  case generalConstraintIndicatorFlags => rw [constraints, UInt64.ofNat_toNat]
  case minSpatialSegmentationIdc => exact twelve_bits fits.minSpatialSegmentationIdc
  case parallelismType => exact low_bits fits.parallelismType rfl rfl
  case chromaFormat => exact low_bits fits.chromaFormat rfl rfl
  case bitDepthLumaMinus8 => exact low_bits fits.bitDepthLumaMinus8 rfl rfl
  case bitDepthChromaMinus8 => exact low_bits fits.bitDepthChromaMinus8 rfl rfl
  case avgFrameRate => rw [rate, UInt16.ofNat_toNat]
  case constantFrameRate => exact layers.1
  case numTemporalLayers => exact layers.2.1
  case temporalIdNested => exact layers.2.2.1
  case lengthSizeMinusOne => exact layers.2.2.2

/-! ## NAL units by type -/

theorem regrouped_perm (distinct : types.Nodup) (contents : List (Nalu × List UInt8)) :
    (regrouped types contents).Perm
      ((contents.filter fun item => item.1.type ∈ types).map Prod.snd) := by
  induction types with
  | nil => simp [regrouped]
  | cons type types ih =>
    obtain ⟨fresh, others⟩ := nodup_cons.mp distinct
    have split : regrouped (type :: types) contents =
        ofType type contents ++ regrouped types contents := flatMap_cons
    have same : (contents.filter fun item => item.1.type ∈ type :: types).filter
        (fun item => item.1.type = type) = contents.filter fun item => item.1.type = type := by
      rw [filter_filter]
      congr 1
      funext item
      by_cases equal : item.1.type = type
      · simp [equal]
      · simp [equal]
    have rest : (contents.filter fun item => item.1.type ∈ type :: types).filter
        (fun item => !decide (item.1.type = type)) =
          contents.filter fun item => item.1.type ∈ types := by
      rw [filter_filter]
      congr 1
      funext item
      by_cases equal : item.1.type = type
      · simp [equal, fresh]
      · simp [equal]
    have parts := (filter_append_perm (fun item : Nalu × List UInt8 => item.1.type = type)
      (contents.filter fun item => item.1.type ∈ type :: types)).map Prod.snd
    rw [same, rest, map_append] at parts
    rw [split]
    exact ((ih others).append_left _).trans parts

theorem naluTypes_nodup : naluTypes.Nodup := by
  decide

theorem regrouped_naluTypes (known : ∀ item ∈ contents, item.1.type ∈ naluTypes) :
    (regrouped naluTypes contents).Perm (contents.map Prod.snd) := by
  have perm := regrouped_perm naluTypes_nodup contents
  rwa [filter_eq_self.mpr fun item member => decide_eq_true (known item member)] at perm

theorem Mpeg4Hevc.Lists.total_le (lists : hevc.Lists contents) (sized : hevc.data.size = dataSize)
    (apart : (contents.map fun item => item.1.toSegment).Pairwise Segment.Apart) :
    (contents.map Prod.snd).flatten.length ≤ dataSize := by
  have bytes : (contents.map fun item => item.1.toSegment).map Segment.bytes =
      (contents.map Prod.snd).map List.length := by
    rw [map_map, map_map]
    apply map_congr_left
    intro item member
    obtain ⟨j, found⟩ := List.getElem?_of_mem member
    exact (lists.stored j item.1 item.2 found).2.1
  have inside : ∀ segment ∈ contents.map fun item => item.1.toSegment,
      segment.data + segment.bytes ≤ dataSize := by
    intro segment member
    obtain ⟨item, listed, rfl⟩ := mem_map.mp member
    obtain ⟨j, found⟩ := List.getElem?_of_mem listed
    obtain ⟨-, width, holds⟩ := lists.stored j item.1 item.2 found
    have fits := holds.fits
    rw [sized] at fits
    rw [width]
    exact fits
  rw [length_flatten, ← bytes]
  exact sum_bytes_le inside apart

theorem IsArrays.count_le {text : List UInt8} (arrays : IsArrays contents types k text) :
    k ≤ types.length := by
  induction arrays with
  | nil => exact Nat.le_refl 0
  | skip absent arrays ih => exact Nat.le_succ_of_le ih
  | array arrayCompleteness present arrays ih => exact Nat.succ_le_succ ih

/-! ## Records -/

/-- What the assertions of the two functions say about the NAL units. -/
def Sound (hevc : Mpeg4Hevc) (contents : List (Nalu × List UInt8)) : Prop :=
  ∀ item ∈ contents, BeginsWith item.1.type item.2 ∧
    ∀ i, naluTypes[i]? = some item.1.type → hevc.EndsInData i item.1.bytes

def LoadsBack (hevc : Mpeg4Hevc) (contents : List (Nalu × List UInt8)) (record : List UInt8)
    (prior : Mpeg4Hevc) : Prop :=
  Yields (mpeg4HevcDecoderConfigurationRecordLoad false record prior) fun (answer, loaded) =>
    answer = some record.length ∧ SameFields loaded hevc ∧
      ∃ others, loaded.Lists others ∧ ∀ type, ofType type others = ofType type contents

/-- If the record is saved without assertions, then none of them fails, and it is loaded as what the
store holds. -/
def ComesBack (hevc : Mpeg4Hevc) (contents : List (Nalu × List UInt8)) (bytes : Nat)
    (prior : Mpeg4Hevc) : Prop :=
  ∀ record, mpeg4HevcDecoderConfigurationRecordSave true hevc bytes = .ok (some record) →
    mpeg4HevcDecoderConfigurationRecordSave false hevc bytes = .ok (some record) ∧
    LoadsBack hevc contents record prior

variable {string : List UInt8}

theorem Mpeg4Hevc.Lists.begins_iff (lists : hevc.Lists contents) {nalu : Nalu}
    (listed : (nalu, string) ∈ contents) (some : string ≠ []) :
    hevc.Begins nalu ↔ BeginsWith nalu.type string := by
  obtain ⟨j, found⟩ := List.getElem?_of_mem listed
  obtain ⟨-, -, holds⟩ := lists.stored j nalu string found
  cases string with
  | nil => exact absurd rfl some
  | cons header tail =>
    have first : hevc.data.load nalu.data = .ok header :=
      holds.load_eq (Nat.le_refl _) (by rw [Nat.sub_self]; rfl)
    constructor
    · rintro ⟨byte, loaded, same⟩
      rw [first] at loaded
      obtain rfl := Except.ok.inj loaded
      exact congrArg _ same.symm
    · intro begins
      exact ⟨header, first, (Option.some.inj begins).symm⟩

theorem BeginsWith.nonempty {type : UInt8} (begins : BeginsWith type string) :
    string ≠ [] := by
  rintro rfl
  cases begins

theorem save_eq (fits : hevc.Fits) (lists : hevc.Lists contents) (ndebug : Bool)
    (asserted : ∀ k type, naluTypes[k]? = some type → Asserted ndebug hevc k type contents)
    (room : 23 + arraysLength contents naluTypes ≤ bytes) :
    ∃ k text, mpeg4HevcDecoderConfigurationRecordSave ndebug hevc bytes =
      .ok (some (recordFields hevc ++ UInt8.ofNat k :: text)) ∧ IsArrays contents naluTypes k text := by
  have size : assertion ndebug (hevc.lengthSizeMinusOne ≤ 3) = .ok () := by
    have small := fits.lengthSizeMinusOne
    cases ndebug with
    | true => rfl
    | false => exact check_eq (UInt8.le_iff_toNat_le.mpr (Nat.le_of_lt_succ small))
  have version : assertion ndebug (hevc.configurationVersion = 1) = .ok () := by
    cases ndebug with
    | true => rfl
    | false => exact check_eq fits.configurationVersion
  obtain ⟨answer, saved, whole, -⟩ := @saveArrays_eq hevc ndebug bytes 0 23 naluTypes contents lists
    (by simpa using asserted) (by omega) 1
  obtain ⟨k, text, rfl, arrays⟩ := whole room
  refine ⟨k, text, ?_, arrays⟩
  rw [mpeg4HevcDecoderConfigurationRecordSave, size, ok_bind, if_neg (by omega), version, ok_bind,
    saved]
  rfl

theorem recordFields_length (hevc : Mpeg4Hevc) : (recordFields hevc).length = 22 := by
  simp [recordFields]

theorem load_eq (fits : hevc.Fits) {text : List UInt8} (small : k < 256) (prior : Mpeg4Hevc) :
    mpeg4HevcDecoderConfigurationRecordLoad false (recordFields hevc ++ UInt8.ofNat k :: text) prior =
      (loadArrays false (recordFields hevc ++ UInt8.ofNat k :: text) k
        ⟨23, 0, 0, prior.nalu, prior.data⟩ >>= fun result =>
          let loaded := { loadFields (recordFields hevc ++ UInt8.ofNat k :: text) prior with
            numOfArrays := result.2.numOfArrays
            nalu := result.2.nalu
            data := result.2.data }
          if result.1 then return (some result.2.p, { loaded with off := result.2.dst })
          else return (none, loaded)) ∧
    (recordFields hevc ++ UInt8.ofNat k :: text).drop 23 = text := by
  have width := recordFields_length hevc
  have first : (recordFields hevc ++ UInt8.ofNat k :: text).getD 0 0 = 1 := by
    rw [← fits.configurationVersion]
    rfl
  have count : (recordFields hevc ++ UInt8.ofNat k :: text).getD 22 0 = UInt8.ofNat k := by
    rw [getD_append_right _ _ _ _ (by omega), width]
    rfl
  have value : (UInt8.ofNat k).toNat = k := by
    rw [UInt8.toNat_ofNat', Nat.mod_eq_of_lt small]
  constructor
  · rw [mpeg4HevcDecoderConfigurationRecordLoad, if_neg (by rw [length_append]; simp; omega),
      if_neg (not_not_intro first), count, value]
    rfl
  · rw [drop_append, drop_eq_nil_of_le (by omega), width]
    rfl

theorem loaded_start (nalu : prior.nalu.size = naluSize) (data : prior.data.size = dataSize) :
    Loaded ⟨23, 0, 0, prior.nalu, prior.data⟩ [] where
  count := rfl
  few := Nat.zero_le _
  naluSized := nalu
  dataSized := data
  stored := fun _ _ _ found => absurd found nofun

theorem mem_ofType {type : UInt8} :
    string ∈ ofType type contents ↔ ∃ nalu, (nalu, string) ∈ contents ∧ nalu.type = type := by
  simp [ofType]

theorem save_cut (lists : hevc.Lists contents)
    (cut : bytes < 23 + arraysLength contents naluTypes) :
    mpeg4HevcDecoderConfigurationRecordSave true hevc bytes = .ok none := by
  by_cases short : bytes < 23
  · rw [mpeg4HevcDecoderConfigurationRecordSave, if_pos short]
    rfl
  · obtain ⟨answer, saved, -, none⟩ := @saveArrays_eq hevc true bytes 0 23 naluTypes contents lists
      (fun _ _ _ checked => by cases checked) (by omega) 1
    rw [none cut] at saved
    rw [mpeg4HevcDecoderConfigurationRecordSave, if_neg short, saved]
    rfl

section WholeRecord

variable (fits : hevc.Fits) (lists : hevc.Lists contents)
  (known : ∀ item ∈ contents, item.1.type ∈ naluTypes) (sized : hevc.data.size = dataSize)
  (apart : (contents.map fun item => item.1.toSegment).Pairwise Segment.Apart)
  (nalu : prior.nalu.size = naluSize) (data : prior.data.size = dataSize)
include fits lists known sized apart nalu data

theorem IsArrays.loadsBack_iff {text : List UInt8} (arrays : IsArrays contents naluTypes k text)
    (begins : ∀ item ∈ contents, item.2 ≠ [] → BeginsWith item.1.type item.2) :
    LoadsBack hevc contents (recordFields hevc ++ UInt8.ofNat k :: text) prior ↔
      ∀ item ∈ contents, item.2 ≠ [] := by
  have count := arrays.count_le
  have five : naluTypes.length = 5 := rfl
  obtain ⟨loads, ahead⟩ := @load_eq hevc k fits text (by omega) prior
  have start := loaded_start nalu data
  have perm := regrouped_naluTypes known
  have few : ([] : List (Nalu × List UInt8)).length + (regrouped naluTypes contents).length ≤ naluSize := by
    rw [length_nil, Nat.zero_add, perm.length_eq, length_map]
    exact lists.few
  have room : 0 + (regrouped naluTypes contents).flatten.length ≤ dataSize := by
    rw [Nat.zero_add, perm.flatten.length_eq]
    exact lists.total_le sized apart
  have typed : ∀ type ∈ naluTypes, ∀ string ∈ ofType type contents, string ≠ [] →
      BeginsWith type string := by
    intro type _ string member some
    obtain ⟨nalu, listed, rfl⟩ := mem_ofType.mp member
    exact begins _ listed some
  constructor
  · rintro ⟨⟨answer, loaded⟩, returned, same, -⟩ ⟨nalu, string⟩ listed
    rw [loads] at returned
    obtain ⟨⟨through, next⟩, loadedArrays, returned⟩ := ok_of_bind returned
    cases through with
    | false =>
      obtain rfl := (Prod.mk.inj (Except.ok.inj returned)).1
      cases same
    | true =>
      exact arrays.nonempty (fun _ => id) start ahead few room typed loadedArrays nalu.type
        (known _ listed) string (mem_ofType.mpr ⟨nalu, listed, rfl⟩)
  · intro nonempty
    obtain ⟨next, more, loadedArrays, nextLoaded, regroups, forward⟩ :=
      arrays.load (fun _ => id) naluTypes_nodup start ahead few room (by
        intro type member string present
        obtain ⟨nalu, listed, rfl⟩ := mem_ofType.mp present
        exact begins _ listed (nonempty _ listed))
    have fields := loadFields_same fits prior (UInt8.ofNat k :: text)
    generalize loadFields (recordFields hevc ++ UInt8.ofNat k :: text) prior = base at loads fields
    rw [loadedArrays, ok_bind, if_pos rfl] at loads
    have answer : some next.p = some (recordFields hevc ++ UInt8.ofNat k :: text).length := by
      rw [forward, length_append, recordFields_length, length_cons]
      dsimp only
      exact congrArg some (by omega)
    refine ⟨_, loads, answer, fields.filled next.numOfArrays next.nalu next.data next.dst, more,
      ?_, ?_⟩
    · exact {
        count := nextLoaded.count
        few := nextLoaded.few
        size := nextLoaded.naluSized
        stored := by
          intro j nalu string found
          obtain ⟨cell, width, -, holds⟩ := nextLoaded.stored j nalu string found
          exact ⟨cell, width, holds⟩ }
    · intro type
      rw [regroups type]
      by_cases listed : type ∈ naluTypes
      · rw [if_pos listed]
      · rw [if_neg listed]
        symm
        rw [eq_nil_iff_forall_not_mem]
        intro string member
        obtain ⟨nalu, present, rfl⟩ := mem_ofType.mp member
        exact listed (known _ present)

theorem ComesBack.sound (back : ComesBack hevc contents bytes prior)
    (room : 23 + arraysLength contents naluTypes ≤ bytes) : Sound hevc contents := by
  obtain ⟨k, text, saved, arrays⟩ := save_eq fits lists true (fun _ _ _ checked => by cases checked) room
  obtain ⟨checked, loads⟩ := back _ saved
  have asserted : ∀ k type, naluTypes[k]? = some type → Asserted false hevc k type contents := by
    rw [mpeg4HevcDecoderConfigurationRecordSave] at checked
    obtain ⟨_, -, checked⟩ := ok_of_bind checked
    rw [if_neg (by omega)] at checked
    obtain ⟨_, -, checked⟩ := ok_of_bind checked
    obtain ⟨answer, written, checked⟩ := ok_of_bind checked
    cases answer with
    | none => cases checked
    | some answer => simpa using saveArrays_asserted lists written
  have begins : ∀ item ∈ contents, item.2 ≠ [] → BeginsWith item.1.type item.2 := by
    rintro ⟨nalu, string⟩ listed some
    exact (lists.begins_iff listed some).mp (asserted 0 32 rfl rfl _ listed).1
  have nonempty := (arrays.loadsBack_iff fits lists known sized apart nalu data begins).mp loads
  intro item listed
  refine ⟨begins item listed (nonempty item listed), fun i found => ?_⟩
  exact (asserted i _ found rfl item listed).2 rfl

theorem Sound.comesBack (sound : Sound hevc contents)
    (room : 23 + arraysLength contents naluTypes ≤ bytes) : ComesBack hevc contents bytes prior := by
  have asserted : ∀ ndebug k type, naluTypes[k]? = some type →
      Asserted ndebug hevc k type contents := by
    rintro ndebug k type found - ⟨nalu, string⟩ listed
    obtain ⟨begins, ends⟩ := sound _ listed
    exact ⟨(lists.begins_iff listed begins.nonempty).mpr begins, fun same => ends k (same ▸ found)⟩
  intro record saved
  obtain ⟨k, text, checked, arrays⟩ := save_eq fits lists false (asserted false) room
  have same := save_ndebug checked
  rw [saved] at same
  obtain rfl := Option.some.inj (Except.ok.inj same)
  refine ⟨checked, (arrays.loadsBack_iff fits lists known sized apart nalu data ?_).mpr ?_⟩
  · exact fun item listed _ => (sound item listed).1
  · exact fun item listed => (sound item listed).1.nonempty

end WholeRecord

/-- With room for all NAL units a record comes back if and only if they are sound. -/
theorem hevcRecord_comesBack_iff (fits : hevc.Fits) (lists : hevc.Lists contents)
    (known : ∀ item ∈ contents, item.1.type ∈ naluTypes) (sized : hevc.data.size = dataSize)
    (apart : (contents.map fun item => item.1.toSegment).Pairwise Segment.Apart)
    (nalu : prior.nalu.size = naluSize) (data : prior.data.size = dataSize) (bytes : Nat) :
    ComesBack hevc contents bytes prior ↔
      (23 + arraysLength contents naluTypes ≤ bytes → Sound hevc contents) := by
  constructor
  · intro back room
    exact back.sound fits lists known sized apart nalu data room
  · intro sound
    by_cases room : 23 + arraysLength contents naluTypes ≤ bytes
    · exact (sound room).comesBack fits lists known sized apart nalu data room
    · intro record saved
      rw [save_cut lists (by omega)] at saved
      cases saved

/-- A store without NAL units. -/
def fresh : Mpeg4Hevc where
  configurationVersion := 1
  generalProfileSpace := 0
  generalTierFlag := 0
  generalProfileIdc := 1
  generalProfileCompatibilityFlags := 0
  generalConstraintIndicatorFlags := 0
  generalLevelIdc := 93
  minSpatialSegmentationIdc := 0
  parallelismType := 0
  chromaFormat := 1
  bitDepthLumaMinus8 := 0
  bitDepthChromaMinus8 := 0
  avgFrameRate := 0
  constantFrameRate := 0
  numTemporalLayers := 1
  temporalIdNested := 1
  lengthSizeMinusOne := 3
  numOfArrays := 0
  nalu := .alloc naluSize
  data := .alloc dataSize
  off := 0

/-- Two NAL units at the given places. -/
def fresh.pair (first second : Nalu) (firstBytes secondBytes : List UInt8) : Mpeg4Hevc :=
  { fresh with
    numOfArrays := 2
    nalu := fresh.nalu.written 0 [first, second]
    data := (fresh.data.written first.data firstBytes).written second.data secondBytes }

theorem fresh.pair_lists {first second : Nalu} {firstBytes secondBytes : List UInt8}
    (firstWidth : first.bytes = firstBytes.length) (secondWidth : second.bytes = secondBytes.length)
    (order : first.data + first.bytes ≤ second.data)
    (inside : second.data + second.bytes ≤ dataSize) :
    (fresh.pair first second firstBytes secondBytes).Lists
      [(first, firstBytes), (second, secondBytes)] where
  count := rfl
  few := Nat.le_add_left 2 62
  size := rfl
  stored := by
    have size : fresh.data.size = dataSize := rfl
    intro j nalu string found
    match j with
    | 0 =>
      obtain ⟨rfl, rfl⟩ := Prod.mk.inj (Option.some.inj found)
      exact ⟨rfl, firstWidth, (Buffer.written_holds fresh.data _ (by omega)).written (.inl (by omega))⟩
    | 1 =>
      obtain ⟨rfl, rfl⟩ := Prod.mk.inj (Option.some.inj found)
      exact ⟨rfl, secondWidth, Buffer.written_holds _ _ (by
        rw [Buffer.written_size]
        omega)⟩
    | j + 2 => exact absurd found nofun

theorem fresh_fits : fresh.Fits := by
  constructor <;> decide

theorem fresh.pair_fits (first second : Nalu) (firstBytes secondBytes : List UInt8) :
    (fresh.pair first second firstBytes secondBytes).Fits :=
  { fresh_fits with }

/-- A VPS and an SPS of three bytes. -/
theorem hevcRecord_comesBack_two :
    ComesBack (fresh.pair ⟨⟨3, 0⟩, 1, 32⟩ ⟨⟨3, 3⟩, 1, 33⟩ [0x40, 1, 2] [0x42, 1, 2])
      [(⟨⟨3, 0⟩, 1, 32⟩, [0x40, 1, 2]), (⟨⟨3, 3⟩, 1, 33⟩, [0x42, 1, 2])] 64 fresh ↔
      (23 + arraysLength [(⟨⟨3, 0⟩, 1, 32⟩, [0x40, 1, 2]), (⟨⟨3, 3⟩, 1, 33⟩, [0x42, 1, 2])]
        naluTypes ≤ 64 →
        Sound (fresh.pair ⟨⟨3, 0⟩, 1, 32⟩ ⟨⟨3, 3⟩, 1, 33⟩ [0x40, 1, 2] [0x42, 1, 2])
          [(⟨⟨3, 0⟩, 1, 32⟩, [0x40, 1, 2]), (⟨⟨3, 3⟩, 1, 33⟩, [0x42, 1, 2])]) :=
  hevcRecord_comesBack_iff (fresh.pair_fits _ _ _ _)
    (fresh.pair_lists rfl rfl (by decide) (by decide)) (by decide) rfl
    (by
      rw [map_cons, map_cons, map_nil, pairwise_pair]
      rintro address ⟨-, high⟩ ⟨low, -⟩
      dsimp only at high low
      omega)
    rfl rfl 64

/-- An SPS of seven bytes, and a PPS near the end of `data` as entry number 1, which is the number of
the type of the SPS. -/
theorem hevcRecord_asserts : ¬∀ (hevc prior : Mpeg4Hevc) (contents : List (Nalu × List UInt8))
    (bytes : Nat), hevc.Fits → hevc.Lists contents → (∀ item ∈ contents, item.1.type ∈ naluTypes) →
    hevc.data.size = dataSize →
    (contents.map fun item => item.1.toSegment).Pairwise Segment.Apart →
    prior.nalu.size = naluSize → prior.data.size = dataSize →
    ComesBack hevc contents bytes prior := by
  intro always
  have lists : (fresh.pair ⟨⟨7, 0⟩, 1, 33⟩ ⟨⟨2, 4090⟩, 1, 34⟩ [0x42, 1, 2, 3, 4, 5, 6] [0x44, 1]).Lists
      [(⟨⟨7, 0⟩, 1, 33⟩, [0x42, 1, 2, 3, 4, 5, 6]), (⟨⟨2, 4090⟩, 1, 34⟩, [0x44, 1])] :=
    fresh.pair_lists rfl rfl (by decide) (by decide)
  have fits := fresh.pair_fits ⟨⟨7, 0⟩, 1, 33⟩ ⟨⟨2, 4090⟩, 1, 34⟩ [0x42, 1, 2, 3, 4, 5, 6] [0x44, 1]
  have apart : ([(⟨⟨7, 0⟩, 1, 33⟩, [0x42, 1, 2, 3, 4, 5, 6]), (⟨⟨2, 4090⟩, 1, 34⟩, [0x44, 1])].map
      fun item : Nalu × List UInt8 => item.1.toSegment).Pairwise Segment.Apart := by
    rw [map_cons, map_cons, map_nil, pairwise_pair]
    rintro address ⟨-, high⟩ ⟨low, -⟩
    dsimp only at high low
    omega
  have back := always _ fresh _ 64 fits lists (by decide) rfl apart rfl rfl
  have sound := back.sound fits lists (by decide) rfl apart rfl rfl (by decide)
  obtain ⟨-, ends⟩ := sound (⟨⟨7, 0⟩, 1, 33⟩, [0x42, 1, 2, 3, 4, 5, 6]) mem_cons_self
  exact absurd (ends 1 rfl) (by decide)

end CLibs.Hevc
