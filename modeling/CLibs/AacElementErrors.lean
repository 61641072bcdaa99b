import CLibs.AscRoundTrip

/-!
# Which elements are lost without an error

Whether an element was cut is read off the stream it comes from, never off the one it is stored in:
an element that is too long for the handle is not an error.  Neither is one that the input ends in
front of, in a configuration of two bytes or a frame of its header alone.
-/

namespace CLibs.Aac

open BitStrings BitStreams BitSyntax List

/-- All of the element is in the handle. -/
structure Whole (element : Element) (aac : Mpeg4Aac) : Prop where
  npce : 8 * aac.npce = element.text.length
  pce : bits (aac.pce.take aac.npce.toNat) = element.text

theorem Stores.whole {element : Element} {aac : Mpeg4Aac} (stores : Stores element aac)
    (aligned : 8 ∣ element.text.length) (fits : element.text.length ≤ 8 * 64) :
    Whole element aac := by
  refine ⟨?_, stores.text aligned fits⟩
  have npce := stores.npce
  omega

theorem Whole.fits {element : Element} {aac : Mpeg4Aac} (whole : Whole element aac)
    (size : aac.pce.length = 64) : element.text.length ≤ 8 * 64 := by
  have length := congrArg List.length whole.pce
  rw [length_bits, length_take, size] at length
  omega

/-! ## Elements of a configuration -/

/-- Parsers that read no element. -/
def leaves : Relating Parsing Parsing where
  Rel program _ := ∀ text value after, program text = some (value, after) →
    after.elements = text.elements
  pure value := by
    intro text result after found
    cases found
    rfl
  bind first second := by
    intro text result after found
    obtain ⟨value, middle, one, two⟩ := parsing_bind_some found
    exact (second value middle result after two).trans (first text value middle one)

/-- The operations on a list, without elements. -/
def flatOps : ConfigOps Parsing := { textOps with element := fun _ _ => none }

variable {text after : ConfigText}

theorem parseField_some {n value : Nat} (found : parseField n text = some (value, after)) :
    after.elements = text.elements ∧ after.rest.length + n = text.rest.length := by
  unfold parseField at found
  rcases Nat.lt_or_ge text.rest.length n with short | fits
  · rw [field_none short] at found
    cases found
  · rw [field_some fits] at found
    cases found
    refine ⟨rfl, ?_⟩
    rw [length_drop]
    omega

theorem flat_leaves : OpsRelated leaves flatOps flatOps where
  bit _ _ _ found := (parseField_some found).1
  read _ _ _ _ _ found := (parseField_some found).1
  remain _ _ _ found := by
    cases found
    rfl
  element _ _ _ _ found := by cases found
  verify _ _ _ _ found := by
    cases found
    rfl

def pays : Relating Parsing Parsing where
  Rel program _ := ∀ text value after, program text = some (value, after) →
    after.rest.length + 8 * after.elements.length ≤ text.rest.length + 8 * text.elements.length
  pure value := by
    intro text result after found
    cases found
    exact Nat.le_refl _
  bind first second := by
    intro text result after found
    obtain ⟨value, middle, one, two⟩ := parsing_bind_some found
    exact (second value middle result after two).trans (first text value middle one)

theorem element_some {fields : ConfigFields} {value : PUnit}
    (found : textOps.element fields text = some (value, after)) :
    ∃ element, programConfigElement fields.ps text.rest = some element ∧
      after.rest = element.rest ∧ after.elements = element :: text.elements := by
  change (programConfigElement fields.ps text.rest).map _ = _ at found
  cases read : programConfigElement fields.ps text.rest with
  | none =>
    rw [read] at found
    cases found
  | some element =>
    rw [read] at found
    cases found
    exact ⟨element, rfl, rfl, rfl⟩

theorem text_pays : OpsRelated pays textOps textOps where
  bit text value after found := by
    obtain ⟨elements, rest⟩ := parseField_some found
    rw [elements]
    omega
  read n width text value after found := by
    obtain ⟨elements, rest⟩ := parseField_some found
    rw [elements]
    omega
  remain _ _ _ found := by
    cases found
    exact Nat.le_refl _
  element fields text value after found := by
    obtain ⟨element, read, rest, elements⟩ := element_some found
    obtain ⟨gap, split, -, -, -⟩ := programConfigElement_split read
    have comment := (comment_whole read).2
    have length := congrArg List.length split
    simp only [length_append] at length
    rw [rest, elements, length_cons]
    omega
  verify _ _ _ _ found := by
    cases found
    exact Nat.le_refl _

section Configs

variable {data : List UInt8} {fields : ConfigFields} {text : ConfigText}

theorem typeLength {value : UInt8} (found : getAudioObjectType textOps text = some (value, after)) :
    after.rest.length + 5 ≤ text.rest.length ∧ after.elements = text.elements := by
  obtain ⟨type, middle, one, two⟩ := parsing_bind_some found
  obtain ⟨elements, length⟩ := parseField_some one
  split at two
  · obtain ⟨_, last, three, four⟩ := parsing_bind_some two
    obtain ⟨later, shorter⟩ := parseField_some three
    cases four
    exact ⟨by omega, later.trans elements⟩
  · cases two
    exact ⟨by omega, elements⟩

theorem frequencyLength {value : UInt8}
    (found : getSamplingFrequency textOps text = some (value, after)) :
    after.rest.length + 4 ≤ text.rest.length ∧ after.elements = text.elements := by
  obtain ⟨type, middle, one, two⟩ := parsing_bind_some found
  obtain ⟨elements, length⟩ := parseField_some one
  obtain ⟨_, last, three, four⟩ := parsing_bind_some two
  cases four
  unfold onlyIf at three
  split at three
  · obtain ⟨_, _, five, six⟩ := parsing_bind_some three
    obtain ⟨later, shorter⟩ := parseField_some five
    cases six
    exact ⟨by omega, later.trans elements⟩
  · cases three
    exact ⟨by omega, elements⟩

theorem configText_two (short : data.length = 2) (parsed : configText data = some (fields, text)) :
    text.elements = [] := by
  have start : (bits data).length = 16 := by
    rw [length_bits, short]
  obtain ⟨profile, first, one, next⟩ := parsing_bind_some parsed
  obtain ⟨index, second, two, next⟩ := parsing_bind_some next
  obtain ⟨configuration, third, three, next⟩ := parsing_bind_some next
  obtain ⟨leading, fourth, four, next⟩ := parsing_bind_some next
  obtain ⟨firstLength, firstElements⟩ := typeLength one
  obtain ⟨secondLength, secondElements⟩ := frequencyLength two
  obtain ⟨thirdElements, thirdLength⟩ := parseField_some three
  have explicit : pays.Rel (leadingFields textOps profile index (UInt8.ofNat configuration))
      (leadingFields textOps profile index (UInt8.ofNat configuration)) :=
    ite_related (explicitSbr_related text_pays _ _ _) (pays.pure _)
  have paid := explicit third leading fourth four
  have more := typedConfig_related text_pays profile leading fourth fields text next
  have none : third.elements = [] := (thirdElements.trans secondElements).trans firstElements
  rw [none, length_nil] at paid
  dsimp only at firstLength
  exact eq_nil_of_length_eq_zero (by omega)

theorem configText_element (parsed : configText data = some (fields, text))
    (zero : fields.channelConfiguration = 0) (general : fields.profile ∈ generalAudio) :
    ∃ element, text.elements = [element] ∧ 8 ∣ element.text.length := by
  obtain ⟨profile, first, one, next⟩ := parsing_bind_some parsed
  obtain ⟨index, second, two, next⟩ := parsing_bind_some next
  obtain ⟨configuration, third, three, next⟩ := parsing_bind_some next
  obtain ⟨leading, fourth, four, next⟩ := parsing_bind_some next
  have none : fourth.elements = [] := by
    have explicit : leaves.Rel (leadingFields flatOps profile index (UInt8.ofNat configuration))
        (leadingFields flatOps profile index (UInt8.ofNat configuration)) :=
      ite_related (explicitSbr_related flat_leaves _ _ _) (leaves.pure _)
    rw [explicit third leading fourth four, (parseField_some three).1, (frequencyLength two).2,
      (typeLength one).2]
  unfold typedConfig at next
  split at next
  case isFalse unknown =>
    obtain ⟨_, _, -, last⟩ := parsing_bind_some next
    cases last
    exact absurd (.inl general) unknown
  case isTrue =>
    obtain ⟨_, fifth, specific, next⟩ := parsing_bind_some next
    obtain ⟨_, sixth, protection, next⟩ := parsing_bind_some next
    have later : text.elements = fifth.elements ∧ SameConfig leading fields := by
      have ep : leaves.Rel (onlyIf (leading.profile ∈ errorResilient) (epConfigLoad flatOps))
          (onlyIf (leading.profile ∈ errorResilient) (epConfigLoad flatOps)) :=
        onlyIf_related (epConfigLoad_related flat_leaves)
      have same := ep fifth ⟨⟩ sixth protection
      unfold trailingFields at next
      split at next
      · cases next
        exact ⟨same, rfl, rfl, rfl⟩
      · obtain ⟨elements, -, fields⟩ := syncExtension_keeps _ _ _ _ next
        exact ⟨elements.trans same, fields⟩
    obtain ⟨elements, sameProfile, -, sameConfiguration⟩ := later
    rw [sameConfiguration] at zero
    rw [sameProfile] at general
    unfold specificConfigLoad at specific
    split at specific
    case isTrue celp =>
      rw [celp] at general
      exact absurd general (by decide)
    case isFalse =>
      obtain ⟨_, sixth, skipped, specific⟩ := parsing_bind_some specific
      obtain ⟨core, seventh, depends, specific⟩ := parsing_bind_some specific
      obtain ⟨_, eighth, delay, specific⟩ := parsing_bind_some specific
      obtain ⟨flag, ninth, extension, specific⟩ := parsing_bind_some specific
      obtain ⟨_, tenth, read, specific⟩ := parsing_bind_some specific
      have skip : leaves.Rel (onlyIf (core ≠ 0) (skipField flatOps 14))
          (onlyIf (core ≠ 0) (skipField flatOps 14)) :=
        onlyIf_related (skipField_related flat_leaves (by decide))
      have before : ninth.elements = [] := by
        rw [(parseField_some extension).1, skip seventh _ eighth delay, (parseField_some depends).1,
          skipBit_related flat_leaves fourth _ sixth skipped, none]
      have behind := gaExtension_related flat_leaves leading flag tenth _ fifth specific
      unfold onlyIf at read
      rw [if_pos zero] at read
      obtain ⟨element, found, -, recorded⟩ := element_some read
      refine ⟨element, ?_, text_whole found⟩
      rw [elements, behind, recorded, before]

end Configs

/-! ## Configurations that are loaded -/

section Loads

variable {data : List UInt8} {old : Mpeg4Aac}

/-- Every element that belongs to a configuration is whole in the handle, unless the result is
negative; the source is built without its assertions. -/
def ReportsConfig (data : List UInt8) (old : Mpeg4Aac) : Prop :=
  ∀ result aac, mpeg4AacAudioSpecificConfigLoad false data old = .ok (result, aac) → 0 ≤ result →
    aac.channelConfiguration = 0 → aac.profile ∈ generalAudio →
    ∃ fields text element, configText data = some (fields, text) ∧ text.elements = [element] ∧
      Whole element aac

/-- The configuration ends before its element, or the element is too long for `pce`. -/
def ConfigLosesElement (data : List UInt8) : Prop :=
  (data.length = 2 ∧ (data.getD 1 0 >>> 3) &&& 0x0F = 0 ∧
      (data.getD 0 0 >>> 3) &&& 0x1F ∈ generalAudio) ∨
    2 < data.length ∧ ∃ fields text element, configText data = some (fields, text) ∧
      fields.channelConfiguration = 0 ∧ fields.profile ∈ generalAudio ∧
      text.elements = [element] ∧ 8 * 64 < element.text.length

theorem verifyFields_off (profile index configuration : UInt8) :
    verifyFields false profile index configuration = .ok () := rfl

theorem asc_reports_iff (data : List UInt8) (old : Mpeg4Aac) :
    ReportsConfig data old ↔ ¬ConfigLosesElement data := by
  match data with
  | [] =>
    refine iff_of_true ?_ ?_
    · intro result aac loaded success
      cases loaded
      exact absurd success (by decide)
    · rintro (⟨length, -⟩ | ⟨length, -⟩)
      · cases length
      · cases length
  | [byte] =>
    refine iff_of_true ?_ ?_
    · intro result aac loaded success
      cases loaded
      exact absurd success (by decide)
    · rintro (⟨length, -⟩ | ⟨length, -⟩)
      · cases length
      · exact absurd length (by simp)
  | [first, second] =>
    have loads := load_eq false first second [] old
    dsimp only at loads
    rw [verifyFields_off, ok_bind, if_neg (by decide)] at loads
    have parsed := @configText_two [first, second]
    constructor
    · rintro reports (⟨-, zero, general⟩ | ⟨length, -⟩)
      · obtain ⟨fields, text, element, found, one, -⟩ :=
          reports _ _ loads (by decide) zero general
        rw [parsed rfl found] at one
        cases one
      · exact absurd length (by simp)
    · intro kept result aac loaded success zero general
      rw [loads] at loaded
      cases loaded
      exact absurd (.inl ⟨rfl, zero, general⟩) kept
  | first :: second :: third :: tail =>
    have loads := load_eq false first second (third :: tail) old
    dsimp only at loads
    rw [verifyFields_off, ok_bind, if_pos (by simp)] at loads
    generalize start : configHandle _ _ _ = handle at loads
    have zeros : handle.pce = List.replicate 64 0 := by
      rw [← start]
      rfl
    have nonempty : 0 < (first :: second :: third :: tail).length := by simp
    constructor
    · rintro reports (⟨length, -⟩ | ⟨-, fields, text, element, found, zero, general, one, long⟩)
      · simp at length
      · obtain ⟨result, reader, returned, success, held⟩ :=
          @load2_reads false _ _ nonempty zeros _ _ found nofun
        obtain ⟨fields', text', element', found', one', whole⟩ :=
          reports _ _ (loads.trans returned) success zero general
        rw [found] at found'
        cases found'
        rw [one] at one'
        cases one'
        have fits := whole.fits held.size
        omega
    · intro kept result aac loaded success zero general
      rw [loads] at loaded
      cases found : configText (first :: second :: third :: tail) with
      | none =>
        rcases @load2_cut false _ _ nonempty zeros found with
          ⟨on, -⟩ | ⟨_, _, returned, failed | unknown⟩
        · cases on
        · rw [returned] at loaded
          cases loaded
          omega
        · rw [returned] at loaded
          cases loaded
          exact absurd (.inl general) unknown
      | some pair =>
        obtain ⟨fields, text⟩ := pair
        obtain ⟨_, reader, returned, -, held⟩ :=
          @load2_reads false _ _ nonempty zeros _ _ found nofun
        rw [returned] at loaded
        cases loaded
        obtain ⟨element, one, aligned⟩ := configText_element found zero general
        have fits : element.text.length ≤ 8 * 64 := by
          by_contra long
          exact kept (.inr ⟨by simp, fields, text, element, found, zero, general, one,
            Nat.lt_of_not_le long⟩)
        have stored := held.stores element one fits
        have whole := stored.whole aligned fits
        exact ⟨fields, text, element, rfl, one, whole.npce, whole.pce⟩

end Loads

/-! ## Frames -/

section Frames

variable {data : List UInt8} {old : Mpeg4Aac}

def frameBits (data : List UInt8) : List Bool :=
  bits (data.drop (adtsOffset (data.getD 1 0) (data.getD 6 0)))

def frameElement (data : List UInt8) : Option Element := do
  let (_, behind) ← field 3 (frameBits data)
  programConfigElement 0 behind

/-- The frame starts with an element of another kind. -/
def OtherElement (data : List UInt8) : Prop :=
  ∃ id behind, field 3 (frameBits data) = some (id, behind) ∧ id ≠ 5

/-- A header that is accepted without channels brings its whole element with it. -/
def ReportsAdts (data : List UInt8) (old : Mpeg4Aac) : Prop :=
  ∀ result aac, mpeg4AacAdtsLoad false data old = .ok (result, aac) → 0 ≤ result →
    aac.channelConfiguration = 0 → ¬OtherElement data →
    ∃ element, frameElement data = some element ∧ Whole element aac

/-- A header for configuration 0 has no frame behind it, or one with an element that is too long. -/
def AdtsLosesElement (data : List UInt8) : Prop :=
  7 ≤ data.length ∧
    ((data.getD 2 0 &&& 0x01) <<< 2) ||| ((data.getD 3 0 >>> 6) &&& 0x03) = 0 ∧
    (data.length ≤ adtsOffset (data.getD 1 0) (data.getD 6 0) ∨ ¬OtherElement data ∧
      ∃ element, frameElement data = some element ∧ 8 * 64 < element.text.length)

theorem byteAt_getD {data : List UInt8} {index : Nat} (inside : index < data.length) :
    byteAt data index = .ok (data.getD index 0) := by
  rw [byteAt, List.getElem?_eq_getElem inside, getD_eq_getElem _ _ inside]
  rfl

def frameHandle (data : List UInt8) : Mpeg4Aac :=
  configHandle (((data.getD 2 0 >>> 6) &&& 0x03) + 1) ((data.getD 2 0 >>> 2) &&& 0x0F)
    (((data.getD 2 0 &&& 0x01) <<< 2) ||| ((data.getD 3 0 >>> 6) &&& 0x03))

theorem adtsLoad_eq {data : List UInt8} (long : 7 ≤ data.length) (old : Mpeg4Aac) :
    mpeg4AacAdtsLoad false data old =
      if ((data.getD 2 0 &&& 0x01) <<< 2) ||| ((data.getD 3 0 >>> 6) &&& 0x03) = 0 then
        mpeg4AacAdtsPceLoad false data (frameHandle data)
      else .ok (7, frameHandle data) := by
  rw [mpeg4AacAdtsLoad, if_neg (by omega), byteAt_getD (by omega), byteAt_getD (by omega),
    byteAt_getD (by omega), byteAt_getD (by omega)]
  rfl

theorem read_identifier {data : List UInt8} (nonempty : 0 < data.length) :
    ∃ id after behind, mpeg4BitsReadN 3 (mpeg4BitsInit data) = .ok (id, after) ∧
      field 3 (bits data) = some (id.toNat, behind) ∧ remaining after = behind ∧
      after.error = 0 ∧ 0 < after.size := by
  have fits : (mpeg4BitsInit data).bits + 3 ≤ 8 * (mpeg4BitsInit data).size := by
    change 0 + 3 ≤ 8 * data.length
    omega
  obtain ⟨id, read, value⟩ := mpeg4BitsReadN_fits (show 0 < 3 ∧ 3 ≤ 64 by decide) fits
  have room : 3 ≤ (bits data).length := by
    rw [length_bits]
    omega
  refine ⟨id, _, (bits data).drop 3, read, ?_, remaining_advance _ 3, rfl, nonempty⟩
  rw [value, field_some room]
  rfl

theorem adts_reports_short (short : data.length < 7) : ReportsAdts data old := by
  intro result aac loaded success
  rw [mpeg4AacAdtsLoad, if_pos short] at loaded
  cases loaded
  exact absurd success (by decide)

theorem adts_reports_configured (long : 7 ≤ data.length)
    (some : ((data.getD 2 0 &&& 0x01) <<< 2) ||| ((data.getD 3 0 >>> 6) &&& 0x03) ≠ 0) :
    ReportsAdts data old := by
  intro result aac loaded success configuration
  rw [adtsLoad_eq long, if_neg some] at loaded
  cases loaded
  exact absurd configuration some

variable (long : 7 ≤ data.length)
  (zero : ((data.getD 2 0 &&& 0x01) <<< 2) ||| ((data.getD 3 0 >>> 6) &&& 0x03) = 0)

include long zero

/-- No frame is behind the header: the load returns its length, and no element is stored. -/
theorem adts_misses_ended (ended : data.length ≤ adtsOffset (data.getD 1 0) (data.getD 6 0)) :
    ¬ReportsAdts data old := by
  have loads := adtsLoad_eq long old
  rw [if_pos zero, mpeg4AacAdtsPceLoad, byteAt_getD (by omega), ok_bind, byteAt_getD (by omega),
    ok_bind] at loads
  dsimp only at loads
  rw [if_pos ended] at loads
  have nothing : field 3 (frameBits data) = none := by
    rw [frameBits, drop_eq_nil_of_le ended]
    rfl
  intro reports
  have other : ¬OtherElement data := by
    rintro ⟨id, behind, found, -⟩
    rw [nothing] at found
    cases found
  obtain ⟨element, found, -⟩ := reports _ _ loads (by omega) zero other
  rw [frameElement, nothing] at found
  cases found

/-- The identifier of the first element decides between the two returns. -/
theorem adtsLoad_identifier (inside : ¬data.length ≤ adtsOffset (data.getD 1 0) (data.getD 6 0)) :
    ∃ id after behind, field 3 (frameBits data) = some (id.toNat, behind) ∧
      remaining after = behind ∧ after.error = 0 ∧ 0 < after.size ∧
      mpeg4AacAdtsLoad false data old =
        if idPce = id then do
          let (streams, aac) ← loadPce false (frameHandle data) after
          return (if mpeg4BitsError streams.src ≠ 0 then -1 else
            ((7 + (streams.dst.bits + 7) / 8 : Nat) : Int), aac)
        else .ok (7, frameHandle data) := by
  have loads := adtsLoad_eq long old
  rw [if_pos zero, mpeg4AacAdtsPceLoad, byteAt_getD (by omega), ok_bind, byteAt_getD (by omega),
    ok_bind] at loads
  dsimp only at loads
  rw [if_neg inside] at loads
  obtain ⟨id, after, behind, read, identifier, left, calm, nonempty⟩ :=
    @read_identifier (data.drop (adtsOffset (data.getD 1 0) (data.getD 6 0))) (by
      rw [length_drop]
      omega)
  rw [read, ok_bind] at loads
  exact ⟨id, after, behind, identifier, left, calm, nonempty, loads⟩

omit long

/-- An element that is read is reported just if the handle's array holds it. -/
theorem adts_reports_element {after : Bits}
    (loads : mpeg4AacAdtsLoad false data old = do
      let (streams, aac) ← loadPce false (frameHandle data) after
      return (if mpeg4BitsError streams.src ≠ 0 then -1 else
        ((7 + (streams.dst.bits + 7) / 8 : Nat) : Int), aac))
    (known : frameElement data = programConfigElement 0 (remaining after))
    (calm : after.error = 0) (nonempty : 0 < after.size) (is : ¬OtherElement data) :
    ReportsAdts data old ↔
      ∀ element, frameElement data = some element → element.text.length ≤ 8 * 64 := by
  obtain ⟨head, streams, loaded, program⟩ := loadPce_eq false (frameHandle data) nonempty
    (show 0 < (List.replicate 64 (0 : UInt8)).length by decide)
  rw [program, if_neg (fun both => Bool.false_ne_true both.1), ok_bind] at loads
  dsimp only at loads
  have stored : streams.dst.data.length = 64 := loaded.size
  cases found : programConfigElement 0 (remaining after) with
  | none =>
    have failed : mpeg4BitsError streams.src ≠ 0 := loaded.cut found
    rw [if_pos failed] at loads
    refine iff_of_true ?_ fun element taken => ?_
    · intro result aac returned success
      rw [loads] at returned
      cases returned
      exact absurd success (by decide)
    · rw [known, found] at taken
      cases taken
  | some element =>
    obtain ⟨-, still, -, -, wrote⟩ := loaded.taken element found
    have sound : ¬mpeg4BitsError streams.src ≠ 0 := fun failed => failed (still.trans calm)
    rw [if_neg sound] at loads
    constructor
    · intro reports other taken
      obtain ⟨again, taken', whole⟩ := reports _ _ loads (by omega) zero is
      rw [taken'] at taken
      cases taken
      exact whole.fits stored
    · intro short result aac returned success configuration _
      rw [loads] at returned
      cases returned
      have fits := short element (known.trans found)
      have holding := wrote (holding_start 64) fits
      change Holding 64 streams.dst element.text at holding
      have held : Stores element { frameHandle data with
          channels := UInt8.ofNat head.channels
          pce := streams.dst.data
          npce := ((streams.dst.bits + 7) / 8 : Nat) } :=
        ⟨by dsimp only; rw [holding.offset], holding.contents⟩
      exact ⟨element, known.trans found, held.whole (text_whole found) fits⟩

omit zero

theorem adts_reports_iff (data : List UInt8) (old : Mpeg4Aac) :
    ReportsAdts data old ↔ ¬AdtsLosesElement data := by
  by_cases long : 7 ≤ data.length
  case neg => exact iff_of_true (adts_reports_short (by omega)) fun loses => long loses.1
  by_cases zero : ((data.getD 2 0 &&& 0x01) <<< 2) ||| ((data.getD 3 0 >>> 6) &&& 0x03) = 0
  case neg => exact iff_of_true (adts_reports_configured long zero) fun loses => zero loses.2.1
  by_cases ended : data.length ≤ adtsOffset (data.getD 1 0) (data.getD 6 0)
  case pos =>
    exact iff_of_false (adts_misses_ended long zero ended) fun kept => kept ⟨long, zero, .inl ended⟩
  obtain ⟨id, after, behind, identifier, left, calm, nonempty, loads⟩ :=
    @adtsLoad_identifier data old long zero ended
  by_cases pce : idPce = id
  case neg =>
    rw [if_neg pce] at loads
    have other : OtherElement data :=
      ⟨_, _, identifier, fun five => pce (UInt64.toNat_inj.mp five).symm⟩
    refine iff_of_true (fun result aac loaded success configuration is => absurd other is) ?_
    rintro ⟨-, -, short | ⟨is, -⟩⟩
    · exact ended short
    · exact is other
  case pos =>
    rw [if_pos pce] at loads
    have is : ¬OtherElement data := by
      rintro ⟨number, rest, found, other⟩
      rw [identifier, ← pce] at found
      cases found
      exact other rfl
    have known : frameElement data = programConfigElement 0 (remaining after) := by
      rw [frameElement, identifier, left]
      rfl
    rw [adts_reports_element zero loads known calm nonempty is]
    constructor
    · rintro short ⟨-, -, none | ⟨-, element, some, tooLong⟩⟩
      · exact ended none
      · exact Nat.not_lt.mpr (short element some) tooLong
    · intro kept element some
      by_contra tooLong
      exact kept ⟨long, zero, .inr ⟨is, element, some, Nat.lt_of_not_le tooLong⟩⟩

end Frames

/-- Elements are lost without an error exactly if the input ends in front of them, or they are read
whole and longer than the handle's array. -/
theorem pce_errors_iff (data : List UInt8) (old : Mpeg4Aac) :
    (ReportsConfig data old ↔ ¬ConfigLosesElement data) ∧
      (ReportsAdts data old ↔ ¬AdtsLosesElement data) :=
  ⟨asc_reports_iff data old, adts_reports_iff data old⟩

/-- A configuration whose element has a comment of sixty bytes. -/
def longConfig : List UInt8 :=
  [0x12, 0x00, 0x05, 0x04, 0x00, 0x00, 0x20, 60] ++ List.replicate 60 0

/-- It is loaded without an error, and only 64 of the 66 bytes of its element are stored. -/
theorem pce_errors_missing : ¬∀ data old, ReportsConfig data old := by
  intro reports
  have loads : (mpeg4AacAudioSpecificConfigLoad false longConfig .zero).toOption.map
      (fun pair => (pair.1, pair.2.channelConfiguration, pair.2.profile, pair.2.npce)) =
        some (68, 0, 2, 64) := by
    decide +kernel
  cases loaded : mpeg4AacAudioSpecificConfigLoad false longConfig .zero with
  | error fault =>
    rw [loaded] at loads
    cases loads
  | ok pair =>
    obtain ⟨result, aac⟩ := pair
    rw [loaded] at loads
    have parts := Option.some.inj loads
    simp only [Prod.mk.injEq] at parts
    obtain ⟨rfl, configuration, profile, npce⟩ := parts
    obtain ⟨fields, text, element, found, one, whole⟩ := reports longConfig .zero _ _ loaded
      (by decide) configuration (by rw [profile]; decide)
    have long : (configText longConfig).map
        (fun pair => pair.2.elements.map fun element => element.text.length) = some [528] := by
      decide +kernel
    rw [found, Option.map_some, one] at long
    have length := whole.npce
    rw [npce] at length
    simp at long
    omega

end CLibs.Aac
