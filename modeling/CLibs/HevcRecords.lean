import CLibs.AvcRecords

/-!
# HEVC decoder configuration records

`mpeg4_hevc_decoder_configuration_record_save` writes the NAL units of a store in one array
for each type; `mpeg4_hevc_decoder_configuration_record_load` fills a store from such arrays.
With `ndebug` the assertions are compiled out.  An `mpeg4_hevc_t` is zeroed at first, so that
the pointer of an entry that was never written is null.
-/

namespace CLibs.Hevc

open List

open Avc (byteAt)

/-- A parameter set in `data` with the array it belongs to. -/
structure Nalu extends Segment where
  arrayCompleteness : UInt8
  type : UInt8

/-- The handle that a record is read into. -/
structure Mpeg4Hevc where
  configurationVersion : UInt8
  generalProfileSpace : UInt8
  generalTierFlag : UInt8
  generalProfileIdc : UInt8
  generalProfileCompatibilityFlags : UInt32
  generalConstraintIndicatorFlags : UInt64
  generalLevelIdc : UInt8
  minSpatialSegmentationIdc : UInt16
  parallelismType : UInt8
  chromaFormat : UInt8
  bitDepthLumaMinus8 : UInt8
  bitDepthChromaMinus8 : UInt8
  avgFrameRate : UInt16
  constantFrameRate : UInt8
  numTemporalLayers : UInt8
  temporalIdNested : UInt8
  lengthSizeMinusOne : UInt8
  numOfArrays : UInt8
  nalu : Buffer Nalu
  data : Buffer UInt8
  off : Nat

def naluSize : Nat := 64

def dataSize : Nat := 4 * 1024

def naluType (header : UInt8) : UInt8 := (header >>> 1) &&& 0x3F

def assertion (ndebug : Bool) (condition : Prop) [Decidable condition] : Except Fault Unit :=
  if ndebug then .ok () else check condition

def assertType (ndebug : Bool) (type : UInt8) (header : Except Fault UInt8) : Except Fault Unit :=
  if ndebug then .ok () else header.bind fun header => check (type = naluType header)

/-! ## Loading -/

structure Loading where
  p : Nat
  dst : Nat
  numOfArrays : UInt8
  nalu : Buffer Nalu
  data : Buffer UInt8

/-- The loop over the NAL units of an array, and whether it has got through. -/
def loadNalus (ndebug : Bool) (input : List UInt8) (nalutype : UInt8) :
    (n : Nat) → Loading → Except Fault (Bool × Loading)
  | 0, state => return (true, state)
  | n + 1, state => do
      if state.numOfArrays.toNat ≥ naluSize then
        assertion ndebug False
        return (false, state)
      if state.p + 2 > input.length then return (false, state)
      let high ← byteAt input state.p
      let low ← byteAt input (state.p + 1)
      let k := high.toNat * 256 + low.toNat
      if state.p + 2 + k > input.length ∨ state.dst + k > dataSize then
        assertion ndebug False
        return (false, state)
      assertType ndebug (nalutype &&& 0x3F) (byteAt input (state.p + 2))
      let nalu ← state.nalu.store state.numOfArrays.toNat
        [⟨⟨k, state.dst⟩, (nalutype >>> 7) &&& 0x01, nalutype &&& 0x3F⟩]
      let data ← state.data.store state.dst ((input.drop (state.p + 2)).take k)
      loadNalus ndebug input nalutype n
        ⟨state.p + (2 + k), state.dst + k, state.numOfArrays + 1, nalu, data⟩

def loadArrays (ndebug : Bool) (input : List UInt8) :
    (numOfArrays : Nat) → Loading → Except Fault (Bool × Loading)
  | 0, state => return (true, state)
  | numOfArrays + 1, state => do
      if state.p + 3 > input.length then return (false, state)
      let nalutype ← byteAt input state.p
      let high ← byteAt input (state.p + 1)
      let low ← byteAt input (state.p + 2)
      let (through, state) ← loadNalus ndebug input nalutype (high.toNat * 256 + low.toNat)
        { state with p := state.p + 3 }
      if through then loadArrays ndebug input numOfArrays state else return (false, state)

/-- The fields in front of the arrays. -/
def loadFields (input : List UInt8) (hevc : Mpeg4Hevc) : Mpeg4Hevc :=
  let byte (position : Nat) := input.getD position 0
  let value (position width : Nat) := bigValue ((input.drop position).take width)
  { hevc with
    configurationVersion := byte 0
    generalProfileSpace := (byte 1 >>> 6) &&& 0x03
    generalTierFlag := (byte 1 >>> 5) &&& 0x01
    generalProfileIdc := byte 1 &&& 0x1F
    generalProfileCompatibilityFlags := UInt32.ofNat (value 2 4)
    generalConstraintIndicatorFlags := UInt64.ofNat (value 6 6)
    generalLevelIdc := byte 12
    minSpatialSegmentationIdc := UInt16.ofNat ((byte 13 &&& 0x0F).toNat * 256 + (byte 14).toNat)
    parallelismType := byte 15 &&& 0x03
    chromaFormat := byte 16 &&& 0x03
    bitDepthLumaMinus8 := byte 17 &&& 0x07
    bitDepthChromaMinus8 := byte 18 &&& 0x07
    avgFrameRate := UInt16.ofNat (value 19 2)
    constantFrameRate := (byte 21 >>> 6) &&& 0x03
    numTemporalLayers := (byte 21 >>> 3) &&& 0x07
    temporalIdNested := (byte 21 >>> 2) &&& 0x01
    lengthSizeMinusOne := byte 21 &&& 0x03 }

/-- How many bytes of the record were loaded, or `none` for a return of `-1`. -/
def mpeg4HevcDecoderConfigurationRecordLoad (ndebug : Bool) (input : List UInt8)
    (hevc : Mpeg4Hevc) : Except Fault (Option Nat × Mpeg4Hevc) := do
  if input.length < 23 then return (none, hevc)
  if input.getD 0 0 ≠ 1 then
    return (none, { hevc with configurationVersion := input.getD 0 0 })
  let hevc := loadFields input hevc
  let (through, state) ← loadArrays ndebug input (input.getD 22 0).toNat
    ⟨23, 0, 0, hevc.nalu, hevc.data⟩
  let hevc := { hevc with
    numOfArrays := state.numOfArrays
    nalu := state.nalu
    data := state.data }
  if through then return (some state.p, { hevc with off := state.dst })
  return (none, hevc)

/-! ## Saving -/

def naluTypes : List UInt8 := [32, 33, 34, 39, 40]

/-- What the inner loop has written behind the header of an array. -/
structure Saving where
  ptr : Nat
  text : List UInt8
  n : Nat
  arrayCompleteness : UInt8

def Mpeg4Hevc.EndsInData (hevc : Mpeg4Hevc) (i bytes : Nat) : Prop :=
  match hevc.nalu.cells i with
  | none => True
  | some nalu => nalu.data + bytes ≤ dataSize

instance (hevc : Mpeg4Hevc) (i bytes : Nat) : Decidable (hevc.EndsInData i bytes) := by
  unfold Mpeg4Hevc.EndsInData
  cases hevc.nalu.cells i with
  | none => exact isTrue trivial
  | some nalu => exact Nat.decLe _ _

/-- The inner loop, over all NAL units, for type `i` in a buffer of `bytes` bytes; `none` is a
return of `0`. -/
def saveNalus (ndebug : Bool) (hevc : Mpeg4Hevc) (bytes i : Nat) (type : UInt8) :
    (remaining j : Nat) → Saving → Except Fault (Option Saving)
  | 0, _, state => return some state
  | remaining + 1, j, state => do
      let nalu ← hevc.nalu.load j
      assertType ndebug nalu.type (hevc.data.load nalu.data)
      if type ≠ nalu.type then saveNalus ndebug hevc bytes i type remaining (j + 1) state
      else if state.ptr + 2 + nalu.bytes > bytes then return none
      else
        assertion ndebug (hevc.EndsInData i nalu.bytes)
        let stored ← hevc.data.read nalu.data nalu.bytes
        saveNalus ndebug hevc bytes i type remaining (j + 1)
          ⟨state.ptr + (2 + nalu.bytes), state.text ++ (bigEndian 2 nalu.bytes ++ stored),
            (state.n + 1) % 2 ^ 16, nalu.arrayCompleteness⟩

/-- The outer loop from type `i` on: the number of arrays and their bytes. -/
def saveArrays (ndebug : Bool) (hevc : Mpeg4Hevc) (bytes : Nat) :
    (types : List UInt8) → (i p : Nat) → (arrayCompleteness : UInt8) →
      Except Fault (Option (Nat × List UInt8))
  | [], _, _, _ => return some (0, [])
  | type :: types, i, p, arrayCompleteness => do
      match ← saveNalus ndebug hevc bytes i type hevc.numOfArrays.toNat 0
          ⟨p + 3, [], 0, arrayCompleteness⟩ with
      | none => return none
      | some state =>
        if state.n > 0 then
          match ← saveArrays ndebug hevc bytes types (i + 1) state.ptr state.arrayCompleteness with
          | none => return none
          | some (k, text) =>
            return some (k + 1, (state.arrayCompleteness <<< 7 ||| type &&& 0x3F) ::
              bigEndian 2 state.n ++ state.text ++ text)
        else saveArrays ndebug hevc bytes types (i + 1) p state.arrayCompleteness

/-- The first bytes of a record, in front of the number of arrays. -/
def recordFields (hevc : Mpeg4Hevc) : List UInt8 :=
  [hevc.configurationVersion,
    (hevc.generalProfileSpace &&& 0x03) <<< 6 ||| (hevc.generalTierFlag &&& 0x01) <<< 5 |||
      hevc.generalProfileIdc &&& 0x1F] ++
  bigEndian 4 hevc.generalProfileCompatibilityFlags.toNat ++
  bigEndian 4 (hevc.generalConstraintIndicatorFlags.toNat / 2 ^ 16) ++
  bigEndian 2 hevc.generalConstraintIndicatorFlags.toNat ++
  [hevc.generalLevelIdc] ++
  bigEndian 2 (0xF000 ||| hevc.minSpatialSegmentationIdc).toNat ++
  [0xFC ||| hevc.parallelismType, 0xFC ||| hevc.chromaFormat, 0xF8 ||| hevc.bitDepthLumaMinus8,
    0xF8 ||| hevc.bitDepthChromaMinus8] ++
  bigEndian 2 hevc.avgFrameRate.toNat ++
  [hevc.constantFrameRate <<< 6 ||| (hevc.numTemporalLayers &&& 0x07) <<< 3 |||
    (hevc.temporalIdNested &&& 0x01) <<< 2 ||| hevc.lengthSizeMinusOne &&& 0x03]

/-- The record that is written to a buffer of `bytes` bytes, or `none` for a return of `0`. -/
def mpeg4HevcDecoderConfigurationRecordSave (ndebug : Bool) (hevc : Mpeg4Hevc) (bytes : Nat) :
    Except Fault (Option (List UInt8)) := do
  assertion ndebug (hevc.lengthSizeMinusOne ≤ 3)
  if bytes < 23 then return none
  assertion ndebug (hevc.configurationVersion = 1)
  match ← saveArrays ndebug hevc bytes naluTypes 0 23 1 with
  | none => return none
  | some (k, text) => return some (recordFields hevc ++ UInt8.ofNat k :: text)

end CLibs.Hevc

/-!
## What a record is saved as

Each pass over the NAL units writes those of one type behind the header of an array.  A record
that is saved with assertions has no NAL unit that contradicts them.
-/

namespace CLibs.Hevc

open List

open Avc (setText setsText setsText_cons setsText_nil setText_length)

variable {hevc : Mpeg4Hevc} {ndebug : Bool} {bytes i j p : Nat} {type : UInt8} {types : List UInt8}
  {contents rest : List (Nalu × List UInt8)}

/-- The entries of a store and the bytes that they point to. -/
structure Mpeg4Hevc.Lists (hevc : Mpeg4Hevc) (contents : List (Nalu × List UInt8)) : Prop where
  count : hevc.numOfArrays.toNat = contents.length
  few : contents.length ≤ naluSize
  size : hevc.nalu.size = naluSize
  stored : ∀ j nalu string, contents[j]? = some (nalu, string) →
    hevc.nalu.cells j = some nalu ∧ nalu.bytes = string.length ∧ hevc.data.Holds nalu.data string

/-- The byte strings of one type, in their order. -/
def ofType (type : UInt8) (contents : List (Nalu × List UInt8)) : List (List UInt8) :=
  (contents.filter fun item => item.1.type = type).map Prod.snd

/-- The assertion about the header of a NAL unit. -/
def Mpeg4Hevc.Begins (hevc : Mpeg4Hevc) (nalu : Nalu) : Prop :=
  ∃ header, hevc.data.load nalu.data = .ok header ∧ nalu.type = naluType header

inductive IsArrays (contents : List (Nalu × List UInt8)) : List UInt8 → Nat → List UInt8 → Prop
  | nil : IsArrays contents [] 0 []
  | skip {type types k text} (absent : ofType type contents = [])
      (arrays : IsArrays contents types k text) : IsArrays contents (type :: types) k text
  | array {type types k text} (arrayCompleteness : UInt8) (present : ofType type contents ≠ [])
      (arrays : IsArrays contents types k text) :
      IsArrays contents (type :: types) (k + 1)
        ((arrayCompleteness <<< 7 ||| type &&& 0x3F) :: bigEndian 2 (ofType type contents).length ++
          setsText (ofType type contents) ++ text)

/-- The number of bytes of the arrays. -/
def arraysLength (contents : List (Nalu × List UInt8)) : List UInt8 → Nat
  | [] => 0
  | type :: types =>
    (if ofType type contents = [] then 0 else 3 + (setsText (ofType type contents)).length) +
      arraysLength contents types

theorem ofType_cons (type : UInt8) (item : Nalu × List UInt8) (rest : List (Nalu × List UInt8)) :
    ofType type (item :: rest) =
      if item.1.type = type then item.2 :: ofType type rest else ofType type rest := by
  unfold ofType
  by_cases same : item.1.type = type
  · simp [same]
  · simp [same]

theorem Mpeg4Hevc.Lists.load (lists : hevc.Lists contents) {nalu : Nalu} {string : List UInt8}
    (item : contents[j]? = some (nalu, string)) : hevc.nalu.load j = .ok nalu := by
  obtain ⟨bound, -⟩ := List.getElem?_eq_some_iff.mp item
  have few := lists.few
  unfold Buffer.load
  rw [if_pos (by rw [lists.size]; omega), (lists.stored j nalu string item).1]
  rfl

theorem getElem?_of_drop {item : Nalu × List UInt8} (ahead : contents.drop j = item :: rest) :
    contents[j]? = some item ∧ contents.drop (j + 1) = rest := by
  constructor
  · rw [← Nat.add_zero j, ← List.getElem?_drop, ahead]
    rfl
  · rw [← drop_drop, ahead]
    rfl

/-- The assertions hold for the NAL units of the type. -/
def Asserted (ndebug : Bool) (hevc : Mpeg4Hevc) (i : Nat) (type : UInt8)
    (contents : List (Nalu × List UInt8)) : Prop :=
  ndebug = false → ∀ item ∈ contents, hevc.Begins item.1 ∧
    (type = item.1.type → hevc.EndsInData i item.1.bytes)

theorem saveNalus_eq (lists : hevc.Lists contents) (asserted : Asserted ndebug hevc i type rest)
    (ahead : contents.drop j = rest) (state : Saving) (few : state.n + rest.length < 2 ^ 16) :
    ∃ arrayCompleteness, saveNalus ndebug hevc bytes i type rest.length j state =
      .ok (if ofType type rest = [] ∨ state.ptr + (setsText (ofType type rest)).length ≤ bytes then
        some (Saving.mk (state.ptr + (setsText (ofType type rest)).length)
          (state.text ++ setsText (ofType type rest)) (state.n + (ofType type rest).length)
          arrayCompleteness)
      else none) := by
  induction rest generalizing j state with
  | nil =>
    refine ⟨state.arrayCompleteness, ?_⟩
    rw [if_pos (.inl rfl)]
    change _ = Except.ok (some (Saving.mk (state.ptr + 0) (state.text ++ []) (state.n + 0) _))
    rw [append_nil]
    rfl
  | cons item rest ih =>
    obtain ⟨nalu, string⟩ := item
    obtain ⟨found, behind⟩ := getElem?_of_drop ahead
    obtain ⟨cell, width, holds⟩ := lists.stored j nalu string found
    rw [length_cons] at few
    have later : Asserted ndebug hevc i type rest := fun compiled item member =>
      asserted compiled item (mem_cons_of_mem _ member)
    have header : assertType ndebug nalu.type (hevc.data.load nalu.data) = .ok () := by
      cases ndebug with
      | true => rfl
      | false =>
        obtain ⟨byte, loaded, same⟩ := (asserted rfl _ mem_cons_self).1
        rw [assertType, if_neg Bool.false_ne_true, loaded]
        exact check_eq same
    have inData : type = nalu.type → assertion ndebug (hevc.EndsInData i nalu.bytes) = .ok () := by
      intro same
      cases ndebug with
      | true => rfl
      | false => exact check_eq ((asserted rfl _ mem_cons_self).2 same)
    rw [length_cons, saveNalus, lists.load found, ok_bind, header, ok_bind, ofType_cons]
    by_cases same : type = nalu.type
    · rw [if_neg (not_not_intro same), if_pos same.symm, width]
      dsimp only
      rw [setsText_cons, length_append, setText_length]
      by_cases room : state.ptr + 2 + string.length > bytes
      · refine ⟨0, ?_⟩
        rw [if_pos room, if_neg (by simp; omega)]
        rfl
      · obtain ⟨arrayCompleteness, rounds⟩ := ih later behind
          ⟨state.ptr + (2 + string.length), state.text ++ setText string, (state.n + 1) % 2 ^ 16,
            nalu.arrayCompleteness⟩ (by dsimp only; omega)
        refine ⟨arrayCompleteness, ?_⟩
        rw [width] at inData
        rw [if_neg room, inData same, ok_bind, holds.read_eq rfl, ok_bind]
        rw [show bigEndian 2 string.length ++ string = setText string from rfl, rounds]
        by_cases fits : ofType type rest = [] ∨
            state.ptr + (2 + string.length) + (setsText (ofType type rest)).length ≤ bytes
        · have all : string :: ofType type rest = [] ∨
              state.ptr + (string.length + 2 + (setsText (ofType type rest)).length) ≤ bytes := by
            right
            rcases fits with none | some
            · rw [none, setsText_nil, length_nil]
              omega
            · omega
          rw [if_pos fits, if_pos all, append_assoc, length_cons]
          congr 3
          · dsimp only
            omega
          · dsimp only
            omega
        · rw [not_or] at fits
          rw [if_neg (by simp only [not_or]; exact fits), if_neg (by simp; omega)]
    · obtain ⟨arrayCompleteness, rounds⟩ := ih later behind state (by omega)
      rw [if_pos same, if_neg (Ne.symm same)]
      exact ⟨arrayCompleteness, rounds⟩

theorem saveArrays_eq (lists : hevc.Lists contents)
    (asserted : ∀ k type, types[k]? = some type → Asserted ndebug hevc (i + k) type contents)
    (inside : p ≤ bytes) (arrayCompleteness : UInt8) :
    ∃ answer, saveArrays ndebug hevc bytes types i p arrayCompleteness = .ok answer ∧
      (p + arraysLength contents types ≤ bytes →
        ∃ k text, answer = some (k, text) ∧ IsArrays contents types k text) ∧
      (bytes < p + arraysLength contents types → answer = none) := by
  induction types generalizing i p arrayCompleteness with
  | nil =>
    refine ⟨some (0, []), rfl, fun _ => ⟨0, [], rfl, .nil⟩, fun outside => ?_⟩
    rw [arraysLength] at outside
    omega
  | cons type types ih =>
    have few := lists.few
    rw [naluSize] at few
    have later : ∀ k other, types[k]? = some other →
        Asserted ndebug hevc (i + 1 + k) other contents := by
      intro k other found
      have place : i + 1 + k = i + (k + 1) := by omega
      rw [place]
      exact asserted (k + 1) other found
    obtain ⟨completeness, pass⟩ := @saveNalus_eq hevc ndebug bytes i 0 type contents contents lists
      (asserted 0 type rfl) rfl ⟨p + 3, [], 0, arrayCompleteness⟩ (by dsimp only; omega)
    rw [← lists.count] at pass
    rw [saveArrays, pass, ok_bind, arraysLength]
    by_cases absent : ofType type contents = []
    · obtain ⟨answer, saved, whole, cut⟩ := ih later inside completeness
      rw [if_pos (.inl absent), if_pos absent]
      simp only [Nat.zero_add]
      refine ⟨answer, ?_, ?_, cut⟩
      · rw [absent, if_neg (by decide)]
        exact saved
      · intro fits
        obtain ⟨k, text, rfl, arrays⟩ := whole fits
        exact ⟨k, text, rfl, arrays.skip absent⟩
    · have some := length_pos_iff.mpr absent
      rw [if_neg absent]
      dsimp only
      by_cases room : p + 3 + (setsText (ofType type contents)).length ≤ bytes
      · obtain ⟨answer, saved, whole, cut⟩ := ih later room completeness
        rw [if_pos (.inr room)]
        dsimp only
        rw [if_pos (by omega), saved, ok_bind]
        cases answer with
        | none =>
          refine ⟨none, rfl, fun fits => ?_, fun _ => rfl⟩
          obtain ⟨k, text, same, -⟩ := whole (by omega)
          exact absurd same nofun
        | some saved =>
          refine ⟨_, rfl, fun fits => ?_, fun outside => ?_⟩
          · obtain ⟨k, text, same, arrays⟩ := whole (by omega)
            obtain rfl := Option.some.inj same
            refine ⟨_, _, rfl, ?_⟩
            rw [nil_append, Nat.zero_add]
            exact arrays.array completeness absent
          · exact absurd (cut (by omega)) nofun
      · rw [if_neg (by simp [absent]; omega)]
        exact ⟨none, rfl, fun fits => absurd fits (by omega), fun _ => rfl⟩

/-! ## Assertions -/

theorem saveNalus_asserted (lists : hevc.Lists contents) (ahead : contents.drop j = rest)
    {state saved : Saving}
    (returned : saveNalus false hevc bytes i type rest.length j state = .ok (some saved)) :
    Asserted false hevc i type rest := by
  induction rest generalizing j state with
  | nil => exact fun _ _ member => absurd member not_mem_nil
  | cons item rest ih =>
    obtain ⟨nalu, string⟩ := item
    obtain ⟨found, behind⟩ := getElem?_of_drop ahead
    rw [length_cons, saveNalus, lists.load found, ok_bind] at returned
    obtain ⟨_, header, returned⟩ := ok_of_bind returned
    rw [assertType, if_neg Bool.false_ne_true] at header
    obtain ⟨byte, loaded, checked⟩ := ok_of_bind header
    have same : nalu.type = naluType byte := by
      by_contra different
      rw [check_error different] at checked
      cases checked
    have begins : hevc.Begins nalu := ⟨byte, loaded, same⟩
    by_cases other : type = nalu.type
    · rw [if_neg (not_not_intro other)] at returned
      by_cases room : state.ptr + 2 + nalu.bytes > bytes
      · rw [if_pos room] at returned
        cases returned
      · rw [if_neg room] at returned
        obtain ⟨_, ends, returned⟩ := ok_of_bind returned
        obtain ⟨stored, -, returned⟩ := ok_of_bind returned
        have inData : hevc.EndsInData i nalu.bytes := by
          by_contra outside
          rw [assertion, if_neg Bool.false_ne_true, check_error outside] at ends
          cases ends
        intro compiled item member
        rcases mem_cons.mp member with rfl | member
        · exact ⟨begins, fun _ => inData⟩
        · exact ih behind returned compiled item member
    · rw [if_pos other] at returned
      intro compiled item member
      rcases mem_cons.mp member with rfl | member
      · exact ⟨begins, fun same => absurd same other⟩
      · exact ih behind returned compiled item member

theorem saveArrays_asserted (lists : hevc.Lists contents) {arrayCompleteness : UInt8}
    {saved : Nat × List UInt8}
    (returned : saveArrays false hevc bytes types i p arrayCompleteness = .ok (some saved)) :
    ∀ k type, types[k]? = some type → Asserted false hevc (i + k) type contents := by
  induction types generalizing i p arrayCompleteness saved with
  | nil => exact fun k type found => absurd found nofun
  | cons type types ih =>
    rw [saveArrays] at returned
    obtain ⟨state, pass, returned⟩ := ok_of_bind returned
    cases state with
    | none => cases returned
    | some state =>
      dsimp only at returned
      have later : ∃ q completeness saved, saveArrays false hevc bytes types (i + 1) q completeness =
          .ok (some saved) := by
        by_cases some : state.n > 0
        · rw [if_pos some] at returned
          obtain ⟨behind, known, returned⟩ := ok_of_bind returned
          cases behind with
          | none => cases returned
          | some behind => exact ⟨_, _, _, known⟩
        · rw [if_neg some] at returned
          exact ⟨_, _, _, returned⟩
      obtain ⟨q, completeness, last, known⟩ := later
      intro k other found
      cases k with
      | zero =>
        obtain rfl : type = other := Option.some.inj found
        rw [lists.count] at pass
        exact saveNalus_asserted lists rfl pass
      | succ k =>
        have place : i + (k + 1) = i + 1 + k := by omega
        rw [place]
        exact ih known k other found

theorem saveNalus_ndebug {remaining : Nat} {state : Saving} {answer : Option Saving}
    (returned : saveNalus false hevc bytes i type remaining j state = .ok answer) :
    saveNalus true hevc bytes i type remaining j state = .ok answer := by
  induction remaining generalizing j state with
  | zero => exact returned
  | succ remaining ih =>
    rw [saveNalus] at returned ⊢
    obtain ⟨nalu, loaded, returned⟩ := ok_of_bind returned
    obtain ⟨_, -, returned⟩ := ok_of_bind returned
    rw [loaded, ok_bind, assertType, if_pos rfl, ok_bind]
    split at returned
    · next other =>
        rw [if_pos other]
        exact ih returned
    · next same =>
        rw [if_neg same]
        split at returned
        · next full =>
            rw [if_pos full]
            exact returned
        · next room =>
            obtain ⟨_, -, returned⟩ := ok_of_bind returned
            obtain ⟨stored, read, returned⟩ := ok_of_bind returned
            rw [if_neg room, assertion, if_pos rfl, ok_bind, read, ok_bind]
            exact ih returned

theorem saveArrays_ndebug {arrayCompleteness : UInt8} {answer : Option (Nat × List UInt8)}
    (returned : saveArrays false hevc bytes types i p arrayCompleteness = .ok answer) :
    saveArrays true hevc bytes types i p arrayCompleteness = .ok answer := by
  induction types generalizing i p arrayCompleteness answer with
  | nil => exact returned
  | cons type types ih =>
    rw [saveArrays] at returned ⊢
    obtain ⟨state, pass, returned⟩ := ok_of_bind returned
    rw [saveNalus_ndebug pass, ok_bind]
    cases state with
    | none => exact returned
    | some state =>
      dsimp only at returned ⊢
      split at returned
      · next some =>
          obtain ⟨behind, known, returned⟩ := ok_of_bind returned
          rw [if_pos some, ih known, ok_bind]
          exact returned
      · next none =>
          rw [if_neg none]
          exact ih returned

theorem save_ndebug {answer : Option (List UInt8)}
    (returned : mpeg4HevcDecoderConfigurationRecordSave false hevc bytes = .ok answer) :
    mpeg4HevcDecoderConfigurationRecordSave true hevc bytes = .ok answer := by
  rw [mpeg4HevcDecoderConfigurationRecordSave] at returned ⊢
  obtain ⟨_, -, returned⟩ := ok_of_bind returned
  rw [assertion, if_pos rfl, ok_bind]
  split at returned
  · next short =>
      rw [if_pos short]
      exact returned
  · next long =>
      obtain ⟨_, -, returned⟩ := ok_of_bind returned
      obtain ⟨answer, arrays, returned⟩ := ok_of_bind returned
      rw [if_neg long, assertion, if_pos rfl, ok_bind, saveArrays_ndebug arrays, ok_bind]
      exact returned

end CLibs.Hevc
