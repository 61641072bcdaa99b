import CLibs.AacConfigReading

/-!
# An audio specific configuration comes back

A configuration without extensions is two bytes and the element behind them.  What is saved of it is
read as the same fields and the same element, as an element in whole bytes is stored as it stands.
-/

namespace CLibs.Aac

open BitStrings BitStreams BitSyntax List

/-! ## The two bytes -/

theorem first_bits_ofNat : ∀ first < 256, byteBits (UInt8.ofNat first) =
    numberBits 5 ((UInt8.ofNat first >>> 3) &&& 0x1F).toNat ++
      numberBits 3 (UInt8.ofNat first &&& 0x7).toNat := by
  decide +kernel

theorem second_bits_ofNat : ∀ second < 256, byteBits (UInt8.ofNat second) =
    numberBits 1 ((UInt8.ofNat second >>> 7) &&& 0x01).toNat ++
      (numberBits 4 ((UInt8.ofNat second >>> 3) &&& 0x0F).toNat ++
        numberBits 3 (UInt8.ofNat second &&& 0x7).toNat) := by
  decide +kernel

theorem index_bits : ∀ high < 8, ∀ low < 2,
    numberBits 4 ((UInt8.ofNat high <<< 1) ||| UInt8.ofNat low).toNat =
      numberBits 3 high ++ numberBits 1 low := by
  decide

theorem config_bits (first second : UInt8) (tail : List UInt8) :
    bits (first :: second :: tail) =
      numberBits 5 ((first >>> 3) &&& 0x1F).toNat ++
        (numberBits 4 (((first &&& 0x7) <<< 1) ||| ((second >>> 7) &&& 0x01)).toNat ++
          (numberBits 4 ((second >>> 3) &&& 0x0F).toNat ++
            (numberBits 3 (second &&& 0x7).toNat ++ bits tail))) := by
  have one := first_bits_ofNat first.toNat first.toNat_lt
  have two := second_bits_ofNat second.toNat second.toNat_lt
  have high : (first &&& 0x7).toNat < 8 := by
    rw [UInt8.toNat_and]
    exact Nat.lt_of_le_of_lt Nat.and_le_right (by decide)
  have low : ((second >>> 7) &&& 0x01).toNat < 2 := by
    rw [UInt8.toNat_and]
    exact Nat.lt_of_le_of_lt Nat.and_le_right (by decide)
  have index := index_bits _ high _ low
  rw [UInt8.ofNat_toNat] at one two
  rw [UInt8.ofNat_toNat, UInt8.ofNat_toNat] at index
  rw [bits_cons, bits_cons, one, two, index]
  simp only [append_assoc]

/-! ## Fields of a configuration -/

theorem parseField_eq {n value : Nat} (small : value < 2 ^ n) (rest : List Bool)
    (elements : List Element) (sound : Bool) :
    parseField n ⟨numberBits n value ++ rest, elements, sound⟩ =
      some (value, ⟨rest, elements, sound⟩) := by
  rw [parseField, field_numberBits small]
  rfl

theorem parsing_bind {Value Result : Type} {program : Parsing Value}
    {next : Value → Parsing Result} {text after : ConfigText} {value : Value}
    (ran : program text = some (value, after)) : (program >>= next) text = next value after := by
  change (program text).bind (fun pair => next pair.1 pair.2) = _
  rw [ran]
  rfl

variable {last : ConfigText}

theorem parsing_bind_some {Value Result : Type} {program : Parsing Value}
    {next : Value → Parsing Result} {text : ConfigText} {result : Result}
    (found : (program >>= next) text = some (result, last)) :
    ∃ value middle, program text = some (value, middle) ∧
      next value middle = some (result, last) := by
  change (program text).bind (fun pair => next pair.1 pair.2) = _ at found
  cases taken : program text with
  | none =>
    rw [taken] at found
    cases found
  | some pair =>
    rw [taken] at found
    exact ⟨pair.1, pair.2, rfl, found⟩

section Fields

variable {profile index configuration : UInt8} {rest : List Bool}

theorem audioSpecificConfig_eq (short : profile < 31) (known : index ≤ 0xc)
    (configurationBound : configuration ≤ 7) :
    audioSpecificConfig textOps ⟨numberBits 5 profile.toNat ++ (numberBits 4 index.toNat ++
        (numberBits 4 configuration.toNat ++ rest)), [], true⟩ =
      (leadingFields textOps profile index configuration >>= typedConfig textOps profile)
        ⟨rest, [], true⟩ := by
  have profileBound := UInt8.lt_iff_toNat_lt.mp short
  have indexBound := UInt8.le_iff_toNat_le.mp known
  have third := UInt8.le_iff_toNat_le.mp configurationBound
  change profile.toNat < 31 at profileBound
  change index.toNat ≤ 12 at indexBound
  change configuration.toNat ≤ 7 at third
  have type : getAudioObjectType textOps ⟨numberBits 5 profile.toNat ++ (numberBits 4 index.toNat ++
      (numberBits 4 configuration.toNat ++ rest)), [], true⟩ = some (profile,
        ⟨numberBits 4 index.toNat ++ (numberBits 4 configuration.toNat ++ rest), [], true⟩) := by
    refine (parsing_bind (parseField_eq (by omega) _ _ _)).trans ?_
    rw [if_neg (by omega), UInt8.ofNat_toNat]
    rfl
  have frequency : getSamplingFrequency textOps ⟨numberBits 4 index.toNat ++
      (numberBits 4 configuration.toNat ++ rest), [], true⟩ = some (index,
        ⟨numberBits 4 configuration.toNat ++ rest, [], true⟩) := by
    refine (parsing_bind (parseField_eq (by omega) _ _ _)).trans ?_
    unfold onlyIf
    rw [if_neg (by omega), UInt8.ofNat_toNat]
    rfl
  refine (parsing_bind type).trans ((parsing_bind frequency).trans ?_)
  refine (parsing_bind (parseField_eq (by omega) _ _ _)).trans ?_
  rw [UInt8.ofNat_toNat]

end Fields

/-! ## Extensions -/

/-- A parser that reads no element and makes no assertion, with results that have the property. -/
def Keeps {Value : Type} (program : Parsing Value) (post : Value → Prop) : Prop :=
  ∀ text value after, program text = some (value, after) →
    after.elements = text.elements ∧ after.sound = text.sound ∧ post value

section Keeping

variable {Value Result : Type} {program : Parsing Value} {next : Value → Parsing Result}
  {post : Value → Prop} {last : Result → Prop}

theorem keeps_pure {value : Value} (holds : post value) :
    Keeps (pure value : Parsing Value) post := by
  intro text result after found
  cases found
  exact ⟨rfl, rfl, holds⟩

theorem Keeps.bind (first : Keeps program post)
    (second : ∀ value, Keeps (next value) last) : Keeps (program >>= next) last := by
  intro text result after found
  obtain ⟨value, middle, one, two⟩ := parsing_bind_some found
  obtain ⟨elements, sound, -⟩ := first text value middle one
  obtain ⟨later, still, holds⟩ := second value middle result after two
  exact ⟨later.trans elements, still.trans sound, holds⟩

theorem Keeps.ite {condition : Prop} [Decidable condition] {other : Parsing Value}
    (yes : Keeps program post) (no : Keeps other post) :
    Keeps (if condition then program else other) post := by
  split
  · exact yes
  · exact no

theorem keeps_field (n : Nat) : Keeps (parseField n) fun _ => True := by
  intro text value after found
  unfold parseField at found
  cases taken : field n text.rest with
  | none =>
    rw [taken] at found
    cases found
  | some pair =>
    rw [taken] at found
    cases found
    exact ⟨rfl, rfl, trivial⟩

theorem keeps_remain : Keeps textOps.remain fun _ => True := by
  intro text value after found
  cases found
  exact ⟨rfl, rfl, trivial⟩

theorem keeps_skip (n : Nat) : Keeps (skipField textOps n) fun _ => True :=
  (keeps_field n).bind fun _ => keeps_pure trivial

theorem keeps_onlyIf {condition : Prop} [Decidable condition] {program : Parsing PUnit}
    (keeps : Keeps program fun _ => True) : Keeps (onlyIf condition program) fun _ => True :=
  keeps.ite (keeps_pure trivial)

theorem keeps_type : Keeps (getAudioObjectType textOps) fun _ => True :=
  (keeps_field 5).bind fun _ =>
    ((keeps_field 6).bind fun _ => keeps_pure trivial).ite (keeps_pure trivial)

theorem keeps_frequency : Keeps (getSamplingFrequency textOps) fun _ => True :=
  (keeps_field 4).bind fun _ => (keeps_onlyIf (keeps_skip 24)).bind fun _ => keeps_pure trivial

end Keeping

/-- The fields that an extension leaves alone. -/
def SameConfig (fields after : ConfigFields) : Prop :=
  after.profile = fields.profile ∧ after.samplingFrequencyIndex = fields.samplingFrequencyIndex ∧
    after.channelConfiguration = fields.channelConfiguration

theorem syncExtension_keeps (fields : ConfigFields) :
    Keeps (syncExtension textOps fields) (SameConfig fields) := by
  have same : Keeps (pure fields) (SameConfig fields) := keeps_pure ⟨rfl, rfl, rfl⟩
  have flagged (sbr : Int) : Keeps (pure { fields with sbr := sbr }) (SameConfig fields) :=
    keeps_pure ⟨rfl, rfl, rfl⟩
  have sbr : Keeps (sbrExtension textOps fields) (SameConfig fields) := by
    refine (keeps_field 1).bind fun bit => Keeps.ite ?_ (flagged bit)
    refine keeps_frequency.bind fun _ => keeps_remain.bind fun _ => Keeps.ite ?_ (flagged bit)
    refine (keeps_field 11).bind fun _ => Keeps.ite ?_ (flagged bit)
    exact (keeps_field 1).bind fun _ => keeps_pure ⟨rfl, rfl, rfl⟩
  have bsac : Keeps (bsacExtension textOps fields) (SameConfig fields) := by
    refine (keeps_field 1).bind fun bit => ?_
    exact (keeps_onlyIf (keeps_frequency.bind fun _ => keeps_pure trivial)).bind fun _ =>
      (keeps_skip 4).bind fun _ => flagged bit
  refine keeps_remain.bind fun _ => Keeps.ite ?_ same
  exact (keeps_field 11).bind fun _ => Keeps.ite (keeps_type.bind fun _ =>
    Keeps.ite sbr (Keeps.ite bsac same)) same

/-! ## Plain configurations -/

section Plain

variable {profile index configuration : UInt8} {tail : List Bool} {flag : Bool}

theorem parseBit_eq (bit : Bool) (rest : List Bool) (elements : List Element) (sound : Bool) :
    parseField 1 ⟨bit :: rest, elements, sound⟩ = some (bit.toNat, ⟨rest, elements, sound⟩) := by
  cases bit with
  | false => exact parseField_eq (show 0 < 2 ^ 1 by decide) rest elements sound
  | true => exact parseField_eq (show 1 < 2 ^ 1 by decide) rest elements sound

theorem plain_cases (plain : 1 ≤ profile ∧ profile ≤ 4) :
    profile = 1 ∨ profile = 2 ∨ profile = 3 ∨ profile = 4 := by
  have low := UInt8.le_iff_toNat_le.mp plain.1
  have high := UInt8.le_iff_toNat_le.mp plain.2
  change 1 ≤ profile.toNat at low
  change profile.toNat ≤ 4 at high
  have cases : profile.toNat = 1 ∨ profile.toNat = 2 ∨ profile.toNat = 3 ∨ profile.toNat = 4 := by
    omega
  rcases cases with one | two | three | four
  · exact .inl (UInt8.toNat_inj.mp one)
  · exact .inr (.inl (UInt8.toNat_inj.mp two))
  · exact .inr (.inr (.inl (UInt8.toNat_inj.mp three)))
  · exact .inr (.inr (.inr (UInt8.toNat_inj.mp four)))

theorem plain_tests (plain : 1 ≤ profile ∧ profile ≤ 4) :
    Known profile ∧ profile ≠ 8 ∧ profile ∉ errorResilient ∧ ¬(profile = 5 ∨ profile = 29) ∧
      ¬(profile = 6 ∨ profile = 20) := by
  rcases plain_cases plain with rfl | rfl | rfl | rfl <;> decide

theorem gaSpecificConfigLoad_eq (plain : 1 ≤ profile ∧ profile ≤ 4) (sbr ps : Int) :
    let fields : ConfigFields := ⟨profile, index, configuration, sbr, ps⟩
    gaSpecificConfigLoad textOps fields ⟨flag :: false :: false :: tail, [], true⟩ =
      onlyIf (configuration = 0) (textOps.element fields) ⟨tail, [], true⟩ := by
  intro fields
  have tests := plain_tests plain
  have skipped : skipBit textOps ⟨flag :: false :: false :: tail, [], true⟩ =
      some (⟨⟩, ⟨false :: false :: tail, [], true⟩) :=
    parsing_bind (parseBit_eq flag (false :: false :: tail) [] true)
  refine (parsing_bind skipped).trans ?_
  have core : onlyIf (false.toNat ≠ 0) (skipField textOps 14) ⟨false :: tail, [], true⟩ =
      some (⟨⟩, ⟨false :: tail, [], true⟩) := rfl
  refine (parsing_bind (parseBit_eq false (false :: tail) [] true)).trans ?_
  refine (parsing_bind core).trans ((parsing_bind (parseBit_eq false tail [] true)).trans ?_)
  have layer : ∀ text, gaExtension textOps fields false.toNat text = some (⟨⟩, text) := by
    intro text
    unfold gaExtension onlyIf
    rw [if_neg tests.2.2.2.2]
    rfl
  cases taken : onlyIf (configuration = 0) (textOps.element fields) ⟨tail, [], true⟩ with
  | none =>
    change (onlyIf (configuration = 0) (textOps.element fields) ⟨tail, [], true⟩).bind _ = _
    rw [taken]
    rfl
  | some pair =>
    refine (parsing_bind taken).trans ((layer pair.2).trans ?_)
    rfl

theorem typedConfig_eq (plain : 1 ≤ profile ∧ profile ≤ 4) (sbr ps : Int) :
    let fields : ConfigFields := ⟨profile, index, configuration, sbr, ps⟩
    typedConfig textOps profile fields ⟨flag :: false :: false :: tail, [], true⟩ =
      (onlyIf (configuration = 0) (textOps.element fields) >>= fun _ =>
        syncExtension textOps fields) ⟨tail, [], true⟩ := by
  intro fields
  have tests := plain_tests plain
  have specific : specificConfigLoad textOps fields ⟨flag :: false :: false :: tail, [], true⟩ =
      onlyIf (configuration = 0) (textOps.element fields) ⟨tail, [], true⟩ := by
    rw [← @gaSpecificConfigLoad_eq _ _ _ _ flag plain sbr ps]
    unfold specificConfigLoad
    rw [if_neg tests.2.1]
  have protection : ∀ text, onlyIf (fields.profile ∈ errorResilient) (epConfigLoad textOps) text =
      some (⟨⟩, text) := by
    intro text
    unfold onlyIf
    rw [if_neg tests.2.2.1]
    rfl
  unfold typedConfig
  rw [if_pos tests.1]
  change (specificConfigLoad textOps fields ⟨flag :: false :: false :: tail, [], true⟩).bind
    _ = (onlyIf (configuration = 0) (textOps.element fields) ⟨tail, [], true⟩).bind _
  rw [specific]
  refine congrArg _ (funext fun pair => ?_)
  refine (parsing_bind (protection pair.2)).trans ?_
  unfold trailingFields
  rw [if_neg tests.2.2.2.1]

end Plain

/-! ## The element again -/

variable {sequence : List Bool}

theorem fields_length {width count : Nat} {rest : List Bool} {value : PUnit}
    (found : fields field width count sequence = some (value, rest)) :
    sequence.length = rest.length + width * count := by
  induction count generalizing sequence with
  | zero =>
    cases found
    simp
  | succ count ih =>
    change (field width sequence).bind _ = _ at found
    rcases Nat.lt_or_ge sequence.length width with short | fits
    · rw [field_none short] at found
      cases found
    · rw [field_some fits] at found
      have length := ih found
      rw [length_drop] at length
      rw [Nat.mul_succ]
      omega

variable {ps : Int} {element : Element}

theorem comment_whole (found : programConfigElement ps sequence = some element) :
    8 ∣ element.comment.length ∧ 8 ≤ element.comment.length := by
  obtain ⟨gap, -, -, -, again⟩ := programConfigElement_split found
  have whole := again []
  rw [append_nil] at whole
  change (field 8 element.comment).bind _ = _ at whole
  rcases Nat.lt_or_ge element.comment.length 8 with short | fits
  · rw [field_none short] at whole
    cases whole
  · rw [field_some fits] at whole
    have length := fields_length whole
    rw [length_drop, length_nil, Nat.zero_add] at length
    omega

theorem text_whole (found : programConfigElement ps sequence = some element) :
    8 ∣ element.text.length := by
  have comment := (comment_whole found).1
  rw [Element.text_length]
  omega

theorem text_positive (found : programConfigElement ps sequence = some element) :
    8 ≤ element.text.length := by
  have comment := (comment_whole found).2
  rw [Element.text_length]
  omega

theorem programConfigElement_text (found : programConfigElement ps sequence = some element) :
    programConfigElement ps element.text = some { element with rest := [] } := by
  obtain ⟨gap, -, -, front, comment⟩ := programConfigElement_split found
  have whole := (comment_whole found).1
  have head := front (List.replicate (padding element.front.length) false ++ element.comment)
  have aligned : (List.replicate (padding element.front.length) false ++ element.comment).length %
      8 = padding element.front.length := by
    simp [padding]
    omega
  have behind := comment []
  rw [append_nil] at behind
  unfold programConfigElement Element.text
  rw [append_assoc, head, Option.bind_eq_bind, Option.bind_some]
  dsimp only
  rw [aligned, drop_left' length_replicate, behind, Option.bind_eq_bind, Option.bind_some]
  simp

theorem Stores.text {aac : Mpeg4Aac} (stores : Stores element aac) (whole : 8 ∣ element.text.length)
    (fits : element.text.length ≤ 8 * 64) :
    bits (aac.pce.take aac.npce.toNat) = element.text := by
  have count : aac.npce.toNat = element.text.length / 8 := by
    have npce := stores.npce
    omega
  have width : 8 * (element.text.length / 8) = element.text.length := by omega
  have room : 8 * 64 = element.text.length + (8 * 64 - element.text.length) := by omega
  rw [← take_bits, stores.pce, count, width, room, take_padded, padded_self]

theorem bits_inj {first second : List UInt8} (same : bits first = bits second) : first = second := by
  induction first generalizing second with
  | nil =>
    have none := congrArg List.length same
    rw [length_bits, length_bits] at none
    exact (eq_nil_of_length_eq_zero (by simpa using none.symm)).symm
  | cons byte first ih =>
    cases second with
    | nil =>
      have none := congrArg List.length same
      rw [length_bits, length_bits] at none
      simp at none
    | cons other second =>
      rw [bits_cons, bits_cons] at same
      obtain ⟨front, behind⟩ := append_inj same (by simp)
      have value := congrArg number front
      rw [number_byteBits, number_byteBits] at value
      rw [UInt8.toNat_inj.mp value, ih behind]

/-! ## Loading -/

/-- The handle that the first two bytes give. -/
def configHandle (profile index configuration : UInt8) : Mpeg4Aac :=
  { Mpeg4Aac.zero with
    profile := profile
    samplingFrequencyIndex := index
    channelConfiguration := configuration
    channels := configuration
    samplingFrequency := mpeg4AacAudioFrequencyTo index }

theorem load_eq (asserts : Bool) (first second : UInt8) (tail : List UInt8) (old : Mpeg4Aac) :
    mpeg4AacAudioSpecificConfigLoad asserts (first :: second :: tail) old =
      let profile := (first >>> 3) &&& 0x1F
      let index := ((first &&& 0x7) <<< 1) ||| ((second >>> 7) &&& 0x01)
      let configuration := (second >>> 3) &&& 0x0F
      (verifyFields asserts profile index configuration >>= fun _ =>
        if tail.length > 0 then
          mpeg4AacAudioSpecificConfigLoad2 asserts (first :: second :: tail)
            (configHandle profile index configuration)
        else .ok (2, configHandle profile index configuration)) := by
  have long : ¬(first :: second :: tail).length < 2 := by simp
  have more : (first :: second :: tail).length > 2 ↔ tail.length > 0 := by simp
  rw [mpeg4AacAudioSpecificConfigLoad, if_neg long]
  change (verifyFields asserts _ _ _ >>= fun _ =>
    if (first :: second :: tail).length > 2 then _ else _) = _
  rw [if_congr more rfl rfl]
  rfl

variable {profile index : UInt8}

theorem of_verifyFields {configuration : UInt8}
    (verified : verifyFields true profile index configuration = .ok ()) :
    (0 < profile ∧ profile < 31) ∧ configuration ≤ 7 ∧ index ≤ 0xc := by
  unfold verifyFields verify at verified
  cases one : check (0 < profile ∧ profile < 31) with
  | error fault =>
    rw [if_pos rfl, one] at verified
    cases verified
  | ok =>
    cases two : check (configuration ≤ 7) with
    | error fault =>
      rw [if_pos rfl, one, ok_bind, if_pos rfl, two] at verified
      cases verified
    | ok =>
      rw [if_pos rfl, one, ok_bind, if_pos rfl, two, ok_bind, if_pos rfl] at verified
      exact ⟨of_check one, of_check two, of_check verified⟩

structure PlainConfig (profile index configuration : UInt8) (tail : List UInt8)
    (aac : Mpeg4Aac) : Prop where
  sameProfile : aac.profile = profile
  sameIndex : aac.samplingFrequencyIndex = index
  sameConfiguration : aac.channelConfiguration = configuration
  element : (aac.npce = 0 ∧ aac.channels = configuration ∧ aac.pce = List.replicate 64 0) ∨
    configuration = 0 ∧ ∃ element, programConfigElement 0 (bits tail) = some element ∧
      (Matches aac element.head ∧ aac.channels = UInt8.ofNat element.head.channels ∧
        (element.text.length ≤ 8 * 64 → Stores element aac))

section Loads

variable {profile index configuration : UInt8} {first second : UInt8} {tail : List UInt8}
  {aac : Mpeg4Aac} {result : Int}

variable {fields : ConfigFields} {text : ConfigText}

theorem explicit_sbr
    (explicit : profile = 5 ∨ profile = 29)
    (found : (leadingFields textOps profile index configuration >>= typedConfig textOps profile)
      text = some (fields, last)) :
    fields.sbr = 1 := by
  obtain ⟨start, middle, leading, typed⟩ := parsing_bind_some found
  have one : start.sbr = 1 := by
    unfold leadingFields at leading
    rw [if_pos explicit] at leading
    obtain ⟨_, _, -, next⟩ := parsing_bind_some leading
    obtain ⟨_, _, -, next⟩ := parsing_bind_some next
    obtain ⟨_, _, -, next⟩ := parsing_bind_some next
    cases next
    rfl
  unfold typedConfig at typed
  split at typed
  · obtain ⟨_, _, -, next⟩ := parsing_bind_some typed
    obtain ⟨_, _, -, next⟩ := parsing_bind_some next
    unfold trailingFields at next
    rw [if_pos explicit] at next
    cases next
    exact one
  · obtain ⟨_, _, -, next⟩ := parsing_bind_some typed
    cases next
    exact one

theorem implicit_profile
    (implicit : ¬(profile = 5 ∨ profile = 29))
    (found : (leadingFields textOps profile index configuration >>= typedConfig textOps profile)
      text = some (fields, last)) :
    fields.profile = profile := by
  obtain ⟨start, middle, leading, typed⟩ := parsing_bind_some found
  unfold leadingFields at leading
  rw [if_neg implicit] at leading
  cases leading
  unfold typedConfig at typed
  split at typed
  · obtain ⟨_, _, -, next⟩ := parsing_bind_some typed
    obtain ⟨_, _, -, next⟩ := parsing_bind_some next
    unfold trailingFields at next
    rw [if_neg implicit] at next
    exact (syncExtension_keeps _ _ _ _ next).2.2.1
  · obtain ⟨_, _, -, next⟩ := parsing_bind_some typed
    cases next
    rfl

theorem flags_ofNat : ∀ second < 256, UInt8.ofNat second &&& 0x03 = 0 →
    ∃ flag, numberBits 3 (UInt8.ofNat second &&& 0x7).toNat = [flag, false, false] := by
  intro second small flags
  have all : ∀ second < 256, UInt8.ofNat second &&& 0x03 = 0 →
      numberBits 3 (UInt8.ofNat second &&& 0x7).toNat = [true, false, false] ∨
        numberBits 3 (UInt8.ofNat second &&& 0x7).toNat = [false, false, false] := by
    decide +kernel
  rcases all second small flags with set | clear
  · exact ⟨true, set⟩
  · exact ⟨false, clear⟩

/-- A configuration that is loaded has been read whole. -/
theorem load2_whole {data : List UInt8} {start : Mpeg4Aac} (nonempty : 0 < data.length)
    (zeros : start.pce = List.replicate 64 0)
    (loaded : mpeg4AacAudioSpecificConfigLoad2 true data start = .ok (result, aac))
    (success : 0 ≤ result) (known : Known aac.profile) :
    ∃ fields text reader, configText data = some (fields, text) ∧ text.sound = true ∧
      aac = reader.aac.configured fields ∧ Held true start reader text := by
  cases parsed : configText data with
  | none =>
    rcases @load2_cut true _ _ nonempty zeros parsed with
      ⟨-, faults⟩ | ⟨_, _, returned, failed | unknown⟩
    · rw [faults] at loaded
      cases loaded
    · rw [returned] at loaded
      cases loaded
      omega
    · rw [returned] at loaded
      cases loaded
      exact absurd known unknown
  | some pair =>
    obtain ⟨fields, text⟩ := pair
    cases sound : text.sound with
    | false =>
      rw [load2_faults nonempty zeros parsed sound] at loaded
      cases loaded
    | true =>
      obtain ⟨_, reader, returned, -, held⟩ :=
        @load2_reads true _ _ nonempty zeros _ _ parsed fun _ => sound
      rw [returned] at loaded
      cases loaded
      exact ⟨fields, text, reader, rfl, sound, rfl, held⟩

/-- Behind the fields of a plain configuration is at most its element. -/
theorem plain_fields {flag : Bool}
    (plain : 1 ≤ fields.profile ∧ fields.profile ≤ 4) (noSbr : fields.sbr = 0)
    (found : (leadingFields textOps profile index configuration >>= typedConfig textOps profile)
      ⟨flag :: false :: false :: bits tail, [], true⟩ = some (fields, text)) :
    (fields.profile = profile ∧ SameConfig ⟨profile, index, configuration, 0, 0⟩ fields) ∧
      ∃ before, onlyIf (configuration = 0)
          (textOps.element ⟨profile, index, configuration, 0, 0⟩) ⟨bits tail, [], true⟩ =
            some (⟨⟩, before) ∧
        text.elements = before.elements ∧ text.sound = before.sound := by
  have implicit : ¬(profile = 5 ∨ profile = 29) := by
    intro explicit
    have one := explicit_sbr explicit found
    omega
  have same := implicit_profile implicit found
  rw [same] at plain
  obtain ⟨leading, middle, one, typed⟩ := parsing_bind_some found
  unfold leadingFields at one
  rw [if_neg implicit] at one
  cases one
  have typed' := (@typedConfig_eq _ _ _ _ flag plain 0 0).symm.trans typed
  obtain ⟨_, before, element, extension⟩ := parsing_bind_some typed'
  obtain ⟨elements, still, sameFields⟩ := syncExtension_keeps _ _ _ _ extension
  exact ⟨⟨same, sameFields⟩, before, element, elements, still⟩

theorem plain_loaded {old : Mpeg4Aac} (flags : second &&& 0x03 = 0)
    (loaded : mpeg4AacAudioSpecificConfigLoad true (first :: second :: tail) old =
      .ok (result, aac))
    (success : 0 ≤ result) (plain : 1 ≤ aac.profile ∧ aac.profile ≤ 4) (noSbr : aac.sbr = 0) :
    aac.samplingFrequencyIndex ≤ 0xc ∧ aac.channelConfiguration ≤ 7 ∧
      PlainConfig aac.profile aac.samplingFrequencyIndex aac.channelConfiguration tail aac := by
  rw [load_eq] at loaded
  dsimp only at loaded
  have config := config_bits first second tail
  generalize (first >>> 3) &&& 0x1F = profile at loaded config
  generalize ((first &&& 0x7) <<< 1) ||| ((second >>> 7) &&& 0x01) = index at loaded config
  generalize (second >>> 3) &&& 0x0F = configuration at loaded config
  cases verified : verifyFields true profile index configuration with
  | error fault =>
    rw [verified] at loaded
    cases loaded
  | ok =>
    obtain ⟨⟨positive, short⟩, configurationBound, indexBound⟩ := of_verifyFields verified
    rw [verified, ok_bind] at loaded
    by_cases more : tail.length > 0
    case neg =>
      rw [if_neg more] at loaded
      cases loaded
      exact ⟨indexBound, configurationBound, rfl, rfl, rfl, .inl ⟨rfl, rfl, rfl⟩⟩
    rw [if_pos more] at loaded
    obtain ⟨fields, text, reader, parsed, sound, rfl, held⟩ :=
      load2_whole (by simp) rfl loaded success (plain_tests plain).1
    obtain ⟨flag, three⟩ := flags_ofNat second.toNat second.toNat_lt
      (by rw [UInt8.ofNat_toNat]; exact flags)
    rw [UInt8.ofNat_toNat] at three
    unfold configText at parsed
    rw [config, audioSpecificConfig_eq short indexBound configurationBound, three] at parsed
    obtain ⟨⟨same, sameFields⟩, before, element, elements, still⟩ :=
      plain_fields plain noSbr parsed
    refine ⟨?_, ?_, rfl, rfl, rfl, ?_⟩
    · change fields.samplingFrequencyIndex ≤ 0xc
      rw [sameFields.2.1]
      exact indexBound
    · change fields.channelConfiguration ≤ 7
      rw [sameFields.2.2]
      exact configurationBound
    · change (reader.aac.npce = 0 ∧ reader.aac.channels = fields.channelConfiguration ∧
        reader.aac.pce = List.replicate 64 0) ∨ fields.channelConfiguration = 0 ∧ _
      rw [sameFields.2.2]
      by_cases zero : configuration = 0
      · right
        refine ⟨zero, ?_⟩
        unfold onlyIf at element
        rw [if_pos zero] at element
        obtain ⟨found, read, rfl⟩ := element_text element
        have stored := held.stores found elements
        have matched : Matches (ConfigFields.handle ⟨profile, index, configuration, 0, 0⟩
            .zero) found.head := by
          rw [still] at sound
          simpa using sound
        refine ⟨found, read, ?_, held.channels found elements, fun fits =>
          ⟨(stored fits).npce, (stored fits).pce⟩⟩
        have index := sameFields.2.1
        change fields.samplingFrequencyIndex.toNat = _ ∧ fields.profile.toNat = _
        rw [index, same]
        exact matched
      · left
        unfold onlyIf at element
        rw [if_neg zero] at element
        cases element
        have blank := held.blank elements
        rw [blank]
        exact ⟨rfl, rfl, rfl⟩

end Loads

/-! ## Saving -/

theorem saved_fields_ofNat : ∀ profile < 4, ∀ index < 13, ∀ configuration < 8,
    let first := (UInt8.ofNat (profile + 1) <<< 3) ||| ((UInt8.ofNat index >>> 1) &&& 0x07)
    let second := ((UInt8.ofNat index &&& 0x01) <<< 7) ||| ((UInt8.ofNat configuration &&& 0xF) <<< 3)
    (first >>> 3) &&& 0x1F = UInt8.ofNat (profile + 1) ∧
      ((first &&& 0x7) <<< 1) ||| ((second >>> 7) &&& 0x01) = UInt8.ofNat index ∧
      (second >>> 3) &&& 0x0F = UInt8.ofNat configuration ∧ second &&& 0x7 = 0 := by
  decide +kernel

section Saves

variable {profile index configuration : UInt8}

theorem saved_fields (plain : 1 ≤ profile ∧ profile ≤ 4) (second : index ≤ 0xc)
    (third : configuration ≤ 7) :
    let first := (profile <<< 3) ||| ((index >>> 1) &&& 0x07)
    let second := ((index &&& 0x01) <<< 7) ||| ((configuration &&& 0xF) <<< 3)
    (first >>> 3) &&& 0x1F = profile ∧
      ((first &&& 0x7) <<< 1) ||| ((second >>> 7) &&& 0x01) = index ∧
      (second >>> 3) &&& 0x0F = configuration ∧ second &&& 0x7 = 0 := by
  have low : 1 ≤ profile.toNat := UInt8.le_iff_toNat_le.mp plain.1
  have high : profile.toNat ≤ 4 := UInt8.le_iff_toNat_le.mp plain.2
  have indexBound : index.toNat ≤ 12 := UInt8.le_iff_toNat_le.mp second
  have configurationBound : configuration.toNat ≤ 7 := UInt8.le_iff_toNat_le.mp third
  have all := saved_fields_ofNat (profile.toNat - 1) (by omega) index.toNat (by omega)
    configuration.toNat (by omega)
  rw [Nat.sub_add_cancel low, UInt8.ofNat_toNat, UInt8.ofNat_toNat, UInt8.ofNat_toNat] at all
  exact all

def configBytes (profile index configuration : UInt8) (tail : List UInt8) : List UInt8 :=
  ((profile <<< 3) ||| ((index >>> 1) &&& 0x07)) ::
    (((index &&& 0x01) <<< 7) ||| ((configuration &&& 0xF) <<< 3)) :: tail

theorem load_two (plain : 1 ≤ profile ∧ profile ≤ 4) (second : index ≤ 0xc)
    (third : configuration ≤ 7) (old : Mpeg4Aac) :
    mpeg4AacAudioSpecificConfigLoad true (configBytes profile index configuration []) old =
      .ok (2, configHandle profile index configuration) := by
  obtain ⟨one, two, three, -⟩ := saved_fields plain second third
  have high : profile.toNat ≤ 4 := UInt8.le_iff_toNat_le.mp plain.2
  have low : 1 ≤ profile.toNat := UInt8.le_iff_toNat_le.mp plain.1
  have verified := verifyFields_eq true ⟨UInt8.lt_iff_toNat_lt.mpr low,
    UInt8.lt_iff_toNat_lt.mpr (Nat.lt_of_le_of_lt high (by decide))⟩ third second
  rw [configBytes, load_eq]
  dsimp only at one two three ⊢
  rw [one, two, three, verified]
  rfl

theorem load_element (plain : 1 ≤ profile ∧ profile ≤ 4) (second : index ≤ 0xc) {tail : List UInt8}
    (more : 0 < tail.length) (found : programConfigElement 0 (bits tail) = some element)
    (ended : element.rest = []) (matched : Matches (configHandle profile index 0) element.head)
    (old : Mpeg4Aac) :
    ∃ result aac, mpeg4AacAudioSpecificConfigLoad true (configBytes profile index 0 tail) old =
        .ok (result, aac) ∧ 0 ≤ result ∧ aac.profile = profile ∧
      aac.samplingFrequencyIndex = index ∧ aac.channelConfiguration = 0 ∧
      aac.channels = UInt8.ofNat element.head.channels ∧
      (element.text.length ≤ 8 * 64 → Stores element aac) := by
  obtain ⟨one, two, three, flags⟩ := saved_fields plain second (show (0 : UInt8) ≤ 7 by decide)
  have high : profile.toNat ≤ 4 := UInt8.le_iff_toNat_le.mp plain.2
  have low : 1 ≤ profile.toNat := UInt8.le_iff_toNat_le.mp plain.1
  have short : profile < 31 :=
    UInt8.lt_iff_toNat_lt.mpr (Nat.lt_of_le_of_lt high (by decide))
  have verified := verifyFields_eq true ⟨UInt8.lt_iff_toNat_lt.mpr low, short⟩
    (show (0 : UInt8) ≤ 7 by decide) second
  have config := config_bits ((profile <<< 3) ||| ((index >>> 1) &&& 0x07))
    (((index &&& 0x01) <<< 7) ||| (((0 : UInt8) &&& 0xF) <<< 3)) tail
  rw [one, two, three, flags] at config
  have implicit := (plain_tests plain).2.2.2.1
  have parsed : configText (configBytes profile index 0 tail) =
      some (⟨profile, index, 0, 0, 0⟩, ⟨[], [element], true⟩) := by
    unfold configText configBytes
    rw [config, audioSpecificConfig_eq short second (by decide)]
    have leading : leadingFields textOps profile index 0 ⟨numberBits 3 (0 : UInt8).toNat ++
        bits tail, [], true⟩ = some (⟨profile, index, 0, 0, 0⟩,
          ⟨numberBits 3 (0 : UInt8).toNat ++ bits tail, [], true⟩) := by
      unfold leadingFields
      rw [if_neg implicit]
      rfl
    refine (parsing_bind leading).trans ?_
    refine (@typedConfig_eq _ _ _ _ false plain 0 0).trans ?_
    have read : onlyIf ((0 : UInt8) = 0) (textOps.element ⟨profile, index, 0, 0, 0⟩)
        ⟨bits tail, [], true⟩ = some (⟨⟩, ⟨[], [element], true⟩) := by
      unfold onlyIf
      rw [if_pos rfl]
      change (programConfigElement 0 (bits tail)).map _ = _
      rw [found, Option.map_some, ended]
      have right : Matches (ConfigFields.handle ⟨profile, index, 0, 0, 0⟩ .zero) element.head :=
        matched
      rw [decide_eq_true right]
      rfl
    exact (parsing_bind read).trans rfl
  have nonempty : 0 < (configBytes profile index 0 tail).length := by simp [configBytes]
  obtain ⟨result, reader, returned, success, held⟩ :=
    @load2_reads true _ (configHandle profile index 0) nonempty rfl _ _ parsed fun _ => rfl
  have stored := held.stores element rfl
  refine ⟨result, reader.aac.configured ⟨profile, index, 0, 0, 0⟩, ?_, success, rfl, rfl, rfl,
    held.channels element rfl, fun fits => ⟨(stored fits).npce, (stored fits).pce⟩⟩
  unfold configBytes at returned ⊢
  rw [load_eq]
  dsimp only
  rw [one, two, three, verified, ok_bind, if_pos more]
  exact returned

end Saves

/-! ## The round trip -/

section RoundTrip

variable {data out : List UInt8} {aac old : Mpeg4Aac} {result : Int}

theorem plain_save {configuration : UInt8} (plain : 1 ≤ profile ∧ profile ≤ 4)
    (second : index ≤ 0xc) (third : configuration ≤ 7) (sameProfile : aac.profile = profile)
    (sameIndex : aac.samplingFrequencyIndex = index)
    (sameConfiguration : aac.channelConfiguration = configuration) (none : aac.npce = 0)
    (room : 2 ≤ out.length) :
    mpeg4AacAudioSpecificConfigSave true aac out =
      .ok (2, configBytes profile index configuration (out.drop 2)) := by
  subst sameProfile sameIndex sameConfiguration
  have high : aac.profile.toNat ≤ 4 := UInt8.le_iff_toNat_le.mp plain.2
  have low : 1 ≤ aac.profile.toNat := UInt8.le_iff_toNat_le.mp plain.1
  have verified := verifyFields_eq true ⟨UInt8.lt_iff_toNat_lt.mpr low,
    UInt8.lt_iff_toNat_lt.mpr (Nat.lt_of_le_of_lt high (by decide))⟩ third second
  unfold mpeg4AacAudioSpecificConfigSave
  rw [none, if_neg (by omega), if_neg (by omega)]
  dsimp only
  rw [verified, ok_bind, if_neg (fun both => absurd both.2 (by decide)),
    if_neg (by decide)]
  rfl

theorem element_save (plain : 1 ≤ profile ∧ profile ≤ 4) (second : index ≤ 0xc)
    (sameProfile : aac.profile = profile) (sameIndex : aac.samplingFrequencyIndex = index)
    (sameConfiguration : aac.channelConfiguration = 0) (positive : 0 < aac.npce)
    (fits : aac.npce ≤ 64) (size : aac.pce.length = 64) (room : 2 + aac.npce.toNat ≤ out.length) :
    ∃ rest, mpeg4AacAudioSpecificConfigSave true aac out =
      .ok (2 + aac.npce, configBytes profile index 0 (aac.pce.take aac.npce.toNat) ++ rest) := by
  subst sameProfile sameIndex
  have high : aac.profile.toNat ≤ 4 := UInt8.le_iff_toNat_le.mp plain.2
  have low : 1 ≤ aac.profile.toNat := UInt8.le_iff_toNat_le.mp plain.1
  have verified := verifyFields_eq true ⟨UInt8.lt_iff_toNat_lt.mpr low,
    UInt8.lt_iff_toNat_lt.mpr (Nat.lt_of_le_of_lt high (by decide))⟩
    (show (0 : UInt8) ≤ 7 by decide) second
  have length (first second : UInt8) : ([first, second] ++ out.drop 2).length = out.length := by
    simp
    omega
  unfold mpeg4AacAudioSpecificConfigSave
  rw [if_neg (by omega), if_neg (by omega), if_pos positive]
  dsimp only
  rw [sameConfiguration, verified, ok_bind, if_pos ⟨rfl, positive⟩]
  unfold mpeg4AacAudioSpecificConfigSave2
  rw [length, if_neg (by omega), if_neg (by omega)]
  refine ⟨([(aac.profile <<< 3) ||| ((aac.samplingFrequencyIndex >>> 1) &&& 0x07),
    ((aac.samplingFrequencyIndex &&& 0x01) <<< 7) ||| (((0 : UInt8) &&& 0xF) <<< 3)] ++
      out.drop 2).drop (2 + aac.npce.toNat), ?_⟩
  rfl

/-- The configuration is saved again, and loading that brings the same fields back. -/
structure ConfigComesBack (aac : Mpeg4Aac) (out : List UInt8) (old : Mpeg4Aac) : Prop where
  again : ∃ length after, mpeg4AacAudioSpecificConfigSave true aac out = .ok (length, after) ∧
    0 ≤ length ∧ ∃ result loaded,
      mpeg4AacAudioSpecificConfigLoad true (after.take length.toNat) old = .ok (result, loaded) ∧
      0 ≤ result ∧ loaded.profile = aac.profile ∧
      loaded.samplingFrequencyIndex = aac.samplingFrequencyIndex ∧
      loaded.channelConfiguration = aac.channelConfiguration ∧
      loaded.channels = aac.channels ∧ loaded.npce = aac.npce ∧ loaded.pce = aac.pce

/-- A configuration that was loaded, of a plain object type and without extensions, comes back. -/
theorem asc_round_trip {first : Mpeg4Aac}
    (loaded : mpeg4AacAudioSpecificConfigLoad true data first = .ok (result, aac))
    (success : 0 ≤ result) (plain : 1 ≤ aac.profile ∧ aac.profile ≤ 4)
    (noSbr : aac.sbr = 0 ∧ aac.ps = 0) (flags : data.getD 1 0 &&& 0x03 = 0)
    (fits : ∀ element, aac.channelConfiguration = 0 →
      programConfigElement 0 (bits (data.drop 2)) = some element → element.text.length ≤ 8 * 64)
    (room : 2 + aac.npce.toNat ≤ out.length) : ConfigComesBack aac out old := by
  match data, loaded, flags, fits with
  | [], loaded, _, _ =>
    cases loaded
    exact absurd success (by decide)
  | [_], loaded, _, _ =>
    cases loaded
    exact absurd success (by decide)
  | one :: two :: tail, loaded, flags, fits =>
    obtain ⟨index, configuration, config⟩ := plain_loaded flags loaded success plain noSbr.1
    rcases config.element with ⟨npce, channels, pce⟩ | ⟨zero, element, found, matched, channels, stored⟩
    · have saved := plain_save plain index configuration rfl rfl rfl npce (by omega : 2 ≤ out.length)
      refine ⟨2, _, saved, by decide, 2, _, load_two plain index configuration old, by decide, rfl,
        rfl, rfl, channels.symm, npce.symm, pce.symm⟩
    · have stores := stored (fits element zero found)
      have small := fits element zero found
      have whole := text_whole found
      have long := text_positive found
      have npce := stores.npce
      have size : aac.pce.length = 64 := by
        have length := congrArg List.length stores.pce
        rw [length_bits, length_padded] at length
        omega
      have text := stores.text whole small
      have positive : 0 < aac.npce := by omega
      obtain ⟨rest, saved⟩ := element_save plain index rfl rfl zero positive (by omega) size room
      have count : (aac.pce.take aac.npce.toNat).length = aac.npce.toNat := by
        rw [length_take_of_le]
        omega
      have again := programConfigElement_text found
      rw [← text] at again
      obtain ⟨returned, loaded, load, success, profile, index', configuration', channels', stores'⟩ :=
        load_element plain index (by rw [count]; omega) again rfl matched old
      have second := stores' small
      have taken : (configBytes aac.profile aac.samplingFrequencyIndex 0
          (aac.pce.take aac.npce.toNat) ++ rest).take (2 + aac.npce).toNat =
          configBytes aac.profile aac.samplingFrequencyIndex 0
            (aac.pce.take aac.npce.toNat) := by
        have length : (configBytes aac.profile aac.samplingFrequencyIndex 0
            (aac.pce.take aac.npce.toNat)).length = (2 + aac.npce).toNat := by
          rw [configBytes, length_cons, length_cons, count]
          omega
        rw [← length, take_left]
      refine ⟨2 + aac.npce, _, saved, by omega, returned, loaded, ?_, success, profile, index', ?_,
        channels'.trans channels.symm, ?_, ?_⟩
      · rw [taken]
        exact load
      · rw [configuration', zero]
      · rw [second.npce, npce]
        rfl
      · exact bits_inj (second.pce.trans stores.pce.symm)

/-- A stereo configuration whose element has a channel pair in front. -/
def pairConfig : List UInt8 := [0x12, 0x00, 0x05, 0x04, 0x00, 0x00, 0x20, 0x00]

def pairHandle : Mpeg4Aac :=
  { configHandle 2 4 0 with
    channels := 2
    pce := [0x05, 0x04, 0x00, 0x00, 0x20, 0x00] ++ List.replicate 58 0
    npce := 6 }

theorem pairConfig_loaded :
    mpeg4AacAudioSpecificConfigLoad true pairConfig .zero = .ok (8, pairHandle) := by decide +kernel

theorem pairConfig_fits (element : Element)
    (found : programConfigElement 0 (bits (pairConfig.drop 2)) = some element) :
    element.text.length ≤ 8 * 64 := by
  have known : programConfigElement 0 (bits (pairConfig.drop 2)) =
      some ⟨⟨1, 4, 2⟩, (bits (pairConfig.drop 2)).take 39, (bits (pairConfig.drop 2)).drop 40, []⟩ :=
    by decide +kernel
  rw [known] at found
  cases found
  decide

/-- The configuration is loaded and comes back. -/
theorem asc_round_trip_pair :
    mpeg4AacAudioSpecificConfigLoad true pairConfig .zero = .ok (8, pairHandle) ∧
      ConfigComesBack pairHandle (List.replicate 8 0) .zero :=
  ⟨pairConfig_loaded, asc_round_trip pairConfig_loaded (by decide) (by decide) (by decide) (by decide)
    (fun element _ => pairConfig_fits element) (by decide)⟩

end RoundTrip

end CLibs.Aac
