import CLibs.AacConfigs

/-!
# What is read of a configuration

The syntax of a configuration is run on the list of its bits, where a read behind the end ends the
run.  The source goes on with zeros and notes an error that stays: it ends without an error exactly
if the list is read to the end of the syntax.
-/

namespace CLibs.Aac

open BitStrings BitStreams BitSyntax

/-! ## Configurations in a list -/

/-- The bits that are left, the elements that were read, the last one first, and if the assertions
were right. -/
structure ConfigText where
  rest : List Bool
  elements : List Element
  sound : Bool

abbrev Parsing := StateT ConfigText Option

def parseField (n : Nat) : Parsing Nat := fun text =>
  (field n text.rest).map fun pair => (pair.1, { text with rest := pair.2 })

/-- The handle that an element is compared with. -/
def ConfigFields.handle (fields : ConfigFields) (aac : Mpeg4Aac) : Mpeg4Aac :=
  { aac with
    profile := fields.profile
    samplingFrequencyIndex := fields.samplingFrequencyIndex
    ps := fields.ps }

/-- A configuration in a list of bits. -/
def textOps : ConfigOps Parsing where
  bit := parseField 1
  read := parseField
  remain text := some (text.rest.length, text)
  element fields text := (programConfigElement fields.ps text.rest).map fun element =>
    (⟨⟩, ⟨element.rest, element :: text.elements,
      text.sound && decide (Matches (fields.handle .zero) element.head)⟩)
  verify condition text := some (⟨⟩, { text with sound := text.sound && condition })

/-! ## Related operations -/

structure OpsRelated {First Second : Type → Type} [Monad First] [Monad Second]
    (relating : Relating First Second) (first : ConfigOps First) (second : ConfigOps Second) :
    Prop where
  bit : relating.Rel first.bit second.bit
  read : ∀ n, 0 < n ∧ n ≤ 64 → relating.Rel (first.read n) (second.read n)
  remain : relating.Rel first.remain second.remain
  element : ∀ fields, relating.Rel (first.element fields) (second.element fields)
  verify : ∀ condition, relating.Rel (first.verify condition) (second.verify condition)

section Related

variable {First Second : Type → Type} [Monad First] [Monad Second]
  {relating : Relating First Second} {first : ConfigOps First} {second : ConfigOps Second}

variable {Value : Type}

theorem ite_related {condition : Prop} [Decidable condition] {yes no : First Value}
    {yes' no' : Second Value} (left : relating.Rel yes yes') (right : relating.Rel no no') :
    relating.Rel (if condition then yes else no) (if condition then yes' else no') := by
  split
  · exact left
  · exact right

theorem onlyIf_related {condition : Prop} [Decidable condition] {program : First PUnit}
    {other : Second PUnit} (related : relating.Rel program other) :
    relating.Rel (onlyIf condition program) (onlyIf condition other) :=
  ite_related related (relating.pure _)

variable (same : OpsRelated relating first second)
include same

theorem skipField_related {n : Nat} (width : 0 < n ∧ n ≤ 64) :
    relating.Rel (skipField first n) (skipField second n) :=
  relating.bind (same.read n width) fun _ => relating.pure _

theorem skipBit_related : relating.Rel (skipBit first) (skipBit second) :=
  relating.bind same.bit fun _ => relating.pure _

theorem getAudioObjectType_related :
    relating.Rel (getAudioObjectType first) (getAudioObjectType second) :=
  relating.bind (same.read 5 (by decide)) fun _ =>
    ite_related (relating.bind (same.read 6 (by decide)) fun _ => relating.pure _) (relating.pure _)

theorem getSamplingFrequency_related :
    relating.Rel (getSamplingFrequency first) (getSamplingFrequency second) :=
  relating.bind (same.read 4 (by decide)) fun _ =>
    relating.bind (onlyIf_related (skipField_related same (by decide))) fun _ => relating.pure _

theorem gaExtension_related (fields : ConfigFields) (flag : Nat) :
    relating.Rel (gaExtension first fields flag) (gaExtension second fields flag) := by
  have bit := skipBit_related same
  refine relating.bind (onlyIf_related (skipField_related same (by decide))) fun _ =>
    onlyIf_related ?_
  refine relating.bind (onlyIf_related ?_) fun _ => relating.bind (onlyIf_related ?_) fun _ =>
    relating.bind same.bit fun _ => onlyIf_related (same.verify false)
  · exact relating.bind (skipField_related same (by decide)) fun _ =>
      skipField_related same (by decide)
  · exact relating.bind bit fun _ => relating.bind bit fun _ => bit

theorem gaSpecificConfigLoad_related (fields : ConfigFields) :
    relating.Rel (gaSpecificConfigLoad first fields) (gaSpecificConfigLoad second fields) :=
  relating.bind (skipBit_related same) fun _ => relating.bind same.bit fun _ =>
    relating.bind (onlyIf_related (skipField_related same (by decide))) fun _ =>
    relating.bind same.bit fun extension =>
    relating.bind (onlyIf_related (same.element fields)) fun _ =>
    gaExtension_related same fields extension

theorem celpSpecificConfigLoad_related :
    relating.Rel (celpSpecificConfigLoad first) (celpSpecificConfigLoad second) := by
  have bit := skipBit_related same
  have two : relating.Rel (skipField first 2) (skipField second 2) :=
    skipField_related same (by decide)
  refine relating.bind same.bit fun base => ite_related ?_ ?_
  · refine relating.bind same.bit fun mode => relating.bind bit fun _ => relating.bind bit fun _ =>
      relating.bind (onlyIf_related (skipField_related same (by decide))) fun _ => onlyIf_related ?_
    exact relating.bind (skipField_related same (by decide)) fun _ => relating.bind two fun _ => bit
  · exact relating.bind same.bit fun layer => ite_related two two

theorem epConfigLoad_related : relating.Rel (epConfigLoad first) (epConfigLoad second) :=
  relating.bind (same.read 2 (by decide)) fun _ =>
    relating.bind (onlyIf_related (same.verify false)) fun _ =>
    onlyIf_related (relating.bind same.bit fun _ => onlyIf_related (same.verify false))

theorem sbrExtension_related (fields : ConfigFields) :
    relating.Rel (sbrExtension first fields) (sbrExtension second fields) := by
  refine relating.bind same.bit fun sbr => ite_related ?_ (relating.pure _)
  refine relating.bind (getSamplingFrequency_related same) fun _ =>
    relating.bind same.remain fun left => ite_related ?_ (relating.pure _)
  exact relating.bind (same.read 11 (by decide)) fun _ =>
    ite_related (relating.bind same.bit fun _ => relating.pure _) (relating.pure _)

theorem bsacExtension_related (fields : ConfigFields) :
    relating.Rel (bsacExtension first fields) (bsacExtension second fields) := by
  refine relating.bind same.bit fun sbr => relating.bind (onlyIf_related ?_) fun _ =>
    relating.bind (skipField_related same (by decide)) fun _ => relating.pure _
  exact relating.bind (getSamplingFrequency_related same) fun _ => relating.pure _

theorem syncExtension_related (fields : ConfigFields) :
    relating.Rel (syncExtension first fields) (syncExtension second fields) := by
  refine relating.bind same.remain fun left => ite_related ?_ (relating.pure _)
  refine relating.bind (same.read 11 (by decide)) fun sync => ite_related ?_ (relating.pure _)
  exact relating.bind (getAudioObjectType_related same) fun type =>
    ite_related (sbrExtension_related same fields)
      (ite_related (bsacExtension_related same fields) (relating.pure _))

theorem explicitSbr_related (profile index configuration : UInt8) :
    relating.Rel (explicitSbr first profile index configuration)
      (explicitSbr second profile index configuration) :=
  relating.bind (getSamplingFrequency_related same) fun _ =>
    relating.bind (getAudioObjectType_related same) fun _ =>
    relating.bind (onlyIf_related (skipField_related same (by decide))) fun _ => relating.pure _

theorem typedConfig_related (profile : UInt8) (fields : ConfigFields) :
    relating.Rel (typedConfig first profile fields) (typedConfig second profile fields) := by
  refine ite_related ?_ (relating.bind (same.verify false) fun _ => relating.pure _)
  exact relating.bind (ite_related (celpSpecificConfigLoad_related same)
      (gaSpecificConfigLoad_related same fields)) fun _ =>
    relating.bind (onlyIf_related (epConfigLoad_related same)) fun _ =>
    ite_related (relating.pure _) (syncExtension_related same fields)

theorem audioSpecificConfig_related :
    relating.Rel (audioSpecificConfig first) (audioSpecificConfig second) :=
  relating.bind (getAudioObjectType_related same) fun profile =>
    relating.bind (getSamplingFrequency_related same) fun _ =>
    relating.bind (same.read 4 (by decide)) fun _ =>
    relating.bind (ite_related (explicitSbr_related same _ _ _) (relating.pure _)) fun fields =>
    typedConfig_related same profile fields

end Related

/-! ## Streams and lists -/

structure Stores (element : Element) (aac : Mpeg4Aac) : Prop where
  npce : aac.npce = ((element.text.length + 7) / 8 : Nat)
  pce : bits aac.pce = padded element.text (8 * 64)

/-- A stream without an error stands where the list begins, and the handle has the element that was
read, if it fits. -/
structure Held (asserts : Bool) (start : Mpeg4Aac) (reader : ConfigReader) (text : ConfigText) :
    Prop where
  nonempty : 0 < reader.bits.size
  size : reader.aac.pce.length = 64
  rest : remaining reader.bits = text.rest
  calm : reader.bits.error = 0
  sound : asserts = true → text.sound = true
  blank : text.elements = [] → reader.aac = start
  channels : ∀ element, text.elements = [element] →
    reader.aac.channels = UInt8.ofNat element.head.channels
  stores : ∀ element, text.elements = [element] → element.text.length ≤ 8 * 64 →
    Stores element reader.aac

structure Broken (reader : ConfigReader) : Prop where
  nonempty : 0 < reader.bits.size
  size : reader.aac.pce.length = 64
  failed : reader.bits.error ≠ 0

def Fails {Value : Type} (asserts : Bool) (program : Loading Value) (reader : ConfigReader) : Prop :=
  (asserts = true ∧ program reader = .error .assertion) ∨
    ∃ value after, program reader = .ok (value, after) ∧ Broken after

/-- A program on the stream and one on the list. -/
structure ConfigReads {Value : Type} (asserts : Bool) (start : Mpeg4Aac) (program : Loading Value)
    (parser : Parsing Value) : Prop where
  sticky : ∀ reader, Broken reader → Fails asserts program reader
  unsound : ∀ text value after, parser text = some (value, after) → text.sound = false →
    after.sound = false
  cut : ∀ reader text, Held asserts start reader text → parser text = none →
    Fails asserts program reader
  faults : ∀ reader text value after, Held asserts start reader text →
    parser text = some (value, after) → asserts = true → after.sound = false →
    program reader = .error .assertion
  reads : ∀ reader text value after, Held asserts start reader text →
    parser text = some (value, after) → (asserts = true → after.sound = true) →
    ∃ next, program reader = .ok (value, next) ∧ Held asserts start next after

section Reads

variable {asserts : Bool} {start : Mpeg4Aac}

theorem configReads_pure (value : Value) :
    ConfigReads asserts start (pure value) (pure value) where
  sticky reader broken := .inr ⟨value, reader, rfl, broken⟩
  unsound text result after found unsound := by
    cases found
    exact unsound
  cut reader text held none := by cases none
  faults reader text result after held found on unsound := by
    cases found
    rw [held.sound on] at unsound
    cases unsound
  reads reader text result after held found sound := by
    cases found
    exact ⟨reader, rfl, held⟩

variable {program : Loading Value} {reader : ConfigReader}

theorem Fails.bind {Result : Type} {next : Value → Loading Result}
    (fails : Fails asserts program reader)
    (sticky : ∀ value reader, Broken reader → Fails asserts (next value) reader) :
    Fails asserts (program >>= next) reader := by
  rcases fails with ⟨on, faults⟩ | ⟨value, after, ran, broken⟩
  · left
    refine ⟨on, ?_⟩
    change (program reader >>= fun pair => next pair.1 pair.2) = _
    rw [faults]
    rfl
  · have goes : (program >>= next) reader = next value after := by
      change (program reader >>= fun pair => next pair.1 pair.2) = _
      rw [ran]
      rfl
    unfold Fails
    rw [goes]
    exact sticky value after broken

theorem ConfigReads.bind {Result : Type} {parser : Parsing Value} {next : Value → Loading Result}
    {after : Value → Parsing Result} (first : ConfigReads asserts start program parser)
    (second : ∀ value, ConfigReads asserts start (next value) (after value)) :
    ConfigReads asserts start (program >>= next) (parser >>= after) := by
  have goes {reader middle value} (ran : program reader = .ok (value, middle)) :
      (program >>= next) reader = next value middle := by
    change (program reader >>= fun pair => next pair.1 pair.2) = _
    rw [ran]
    rfl
  have split {text result last} (found : (parser >>= after) text = some (result, last)) :
      ∃ value middle, parser text = some (value, middle) ∧
        after value middle = some (result, last) := by
    change (parser text).bind (fun pair => after pair.1 pair.2) = _ at found
    cases taken : parser text with
    | none =>
      rw [taken] at found
      cases found
    | some pair =>
      rw [taken] at found
      exact ⟨pair.1, pair.2, rfl, found⟩
  constructor
  case sticky =>
    exact fun reader broken => (first.sticky reader broken).bind fun value => (second value).sticky
  case unsound =>
    intro text result last found unsound
    obtain ⟨value, middle, one, two⟩ := split found
    exact (second value).unsound middle result last two
      (first.unsound text value middle one unsound)
  case cut =>
    intro reader text held none
    change (parser text).bind (fun pair => after pair.1 pair.2) = _ at none
    cases taken : parser text with
    | none => exact (first.cut reader text held taken).bind fun value => (second value).sticky
    | some pair =>
      obtain ⟨value, middle⟩ := pair
      rw [taken] at none
      by_cases stops : asserts = true ∧ middle.sound = false
      · have faults := first.faults reader text value middle held taken stops.1 stops.2
        exact .inl ⟨stops.1, by
          change (program reader >>= fun pair => next pair.1 pair.2) = _
          rw [faults]
          rfl⟩
      · obtain ⟨further, ran, still⟩ := first.reads reader text value middle held taken
          (fun on => by simpa [on] using stops)
        unfold Fails
        rw [goes ran]
        exact (second value).cut further middle still none
  case faults =>
    intro reader text result last held found on unsound
    obtain ⟨value, middle, one, two⟩ := split found
    by_cases stops : middle.sound = false
    · change (program reader >>= fun pair => next pair.1 pair.2) = _
      rw [first.faults reader text value middle held one on stops]
      rfl
    · obtain ⟨further, ran, still⟩ := first.reads reader text value middle held one
        (fun _ => by simpa using stops)
      rw [goes ran]
      exact (second value).faults further middle result last still two on unsound
  case reads =>
    intro reader text result last held found sound
    obtain ⟨value, middle, one, two⟩ := split found
    have before : asserts = true → middle.sound = true := by
      intro on
      by_contra unsound
      have later := (second value).unsound middle result last two (by simpa using unsound)
      rw [sound on] at later
      cases later
    obtain ⟨further, ran, still⟩ := first.reads reader text value middle held one before
    rw [goes ran]
    exact (second value).reads further middle result last still two sound

/-- `ConfigReads` as a relation between programs and parsers. -/
def configReads (asserts : Bool) (start : Mpeg4Aac) : Relating Loading Parsing where
  Rel := ConfigReads asserts start
  pure := configReads_pure
  bind := ConfigReads.bind

theorem Held.moved {text : ConfigText}
    (held : Held asserts start reader text) {stream : Bits} {rest : List Bool}
    (nonempty : 0 < stream.size) (left : remaining stream = rest) (calm : stream.error = 0) :
    Held asserts start { reader with bits := stream } { text with rest := rest } :=
  { held with
    nonempty := nonempty
    rest := left
    calm := calm }

theorem read_reads {n : Nat} (width : 0 < n ∧ n ≤ 64) :
    ConfigReads asserts start ((streamOps asserts).read n) (textOps.read n) := by
  have ran {reader : ConfigReader} {v : UInt64} {after : Bits}
      (read : mpeg4BitsReadN n reader.bits = .ok (v, after)) :
      (streamOps asserts).read n reader = .ok (v.toNat, { reader with bits := after }) := by
    change (mpeg4BitsReadN n reader.bits >>= _) = _
    rw [read]
    rfl
  have fails {reader : ConfigReader} (nonempty : 0 < reader.bits.size)
      (size : reader.aac.pce.length = 64)
      (beyond : 8 * reader.bits.size < reader.bits.bits + n) :
      Fails asserts ((streamOps asserts).read n) reader :=
    .inr ⟨_, _, ran (mpeg4BitsReadN_end nonempty width beyond), nonempty, size,
      (by decide : (-1 : Int) ≠ 0)⟩
  have split {text : ConfigText} {value : Nat} {after : ConfigText}
      (found : textOps.read n text = some (value, after)) :
      ∃ rest, field n text.rest = some (value, rest) ∧ after = { text with rest := rest } := by
    change (field n text.rest).map _ = _ at found
    cases taken : field n text.rest with
    | none =>
      rw [taken] at found
      cases found
    | some pair =>
      rw [taken] at found
      cases found
      exact ⟨pair.2, rfl, rfl⟩
  constructor
  case sticky =>
    intro reader broken
    rcases Nat.lt_or_ge (8 * reader.bits.size) (reader.bits.bits + n) with beyond | fits
    · exact fails broken.nonempty broken.size beyond
    · obtain ⟨v, read, -⟩ := mpeg4BitsReadN_fits width fits
      exact .inr ⟨_, _, ran read, broken.nonempty, broken.size, broken.failed⟩
  case unsound =>
    intro text value after found unsound
    obtain ⟨rest, -, rfl⟩ := split found
    exact unsound
  case cut =>
    intro reader text held none
    rcases @field_remaining reader.bits n width.1 with ⟨-, found⟩ | ⟨beyond, -⟩
    · change (field n text.rest).map _ = _ at none
      rw [← held.rest, found] at none
      cases none
    · exact fails held.nonempty held.size beyond
  case faults =>
    intro reader text value after held found on unsound
    obtain ⟨rest, -, rfl⟩ := split found
    rw [held.sound on] at unsound
    cases unsound
  case reads =>
    intro reader text value after held found sound
    obtain ⟨rest, taken, rfl⟩ := split found
    rw [← held.rest] at taken
    rcases @field_remaining reader.bits n width.1 with ⟨fits, took⟩ | ⟨-, none⟩
    · obtain ⟨v, read, same⟩ := mpeg4BitsReadN_fits width fits
      rw [took] at taken
      cases taken
      rw [ran read, same]
      refine ⟨_, rfl, ?_⟩
      exact held.moved held.nonempty (remaining_advance reader.bits n) held.calm
    · rw [none] at taken
      cases taken

theorem ConfigReads.congr {other : Loading Value} {parser : Parsing Value}
    (reads : ConfigReads asserts start other parser)
    (same : ∀ reader : ConfigReader, 0 < reader.bits.size → program reader = other reader) :
    ConfigReads asserts start program parser where
  sticky reader broken := by
    unfold Fails
    rw [same reader broken.nonempty]
    exact reads.sticky reader broken
  unsound := reads.unsound
  cut reader text held none := by
    unfold Fails
    rw [same reader held.nonempty]
    exact reads.cut reader text held none
  faults reader text value after held := by
    rw [same reader held.nonempty]
    exact reads.faults reader text value after held
  reads reader text value after held := by
    rw [same reader held.nonempty]
    exact reads.reads reader text value after held

theorem bit_reads : ConfigReads asserts start (streamOps asserts).bit textOps.bit := by
  refine (read_reads (show 0 < 1 ∧ 1 ≤ 64 by decide)).congr fun reader nonempty => ?_
  change (mpeg4BitsRead reader.bits >>= _) = (mpeg4BitsReadN 1 reader.bits >>= _)
  rcases mpeg4BitsRead_one nonempty with ⟨value, one, two⟩ | ⟨one, two⟩
  · rw [one, two]
    rfl
  · rw [one, two]
    rfl

theorem remain_reads : ConfigReads asserts start (streamOps asserts).remain textOps.remain where
  sticky reader broken := .inr ⟨_, reader, rfl, broken⟩
  unsound text value after found unsound := by
    cases found
    exact unsound
  cut reader text held none := by cases none
  faults reader text value after held found on unsound := by
    cases found
    rw [held.sound on] at unsound
    cases unsound
  reads reader text value after held found sound := by
    cases found
    have length := length_remaining reader.bits
    rw [held.rest] at length
    have same : mpeg4BitsRemain reader.bits = text.rest.length := by
      rw [mpeg4BitsRemain, if_neg (fun failed => failed held.calm), length, Nat.mul_comm]
    refine ⟨reader, ?_, held⟩
    change Except.ok (mpeg4BitsRemain reader.bits, reader) = _
    rw [same]

theorem verify_reads (condition : Bool) :
    ConfigReads asserts start ((streamOps asserts).verify condition) (textOps.verify condition) := by
  have ran (reader : ConfigReader) : (streamOps asserts).verify condition reader =
      (verify asserts (condition = true) >>= fun _ => .ok (⟨⟩, reader)) := rfl
  have passes (reader : ConfigReader) (right : asserts = true → condition = true) :
      (streamOps asserts).verify condition reader = .ok (⟨⟩, reader) := by
    rw [ran]
    cases asserts with
    | false => rfl
    | true =>
      rw [right rfl]
      rfl
  have stops (reader : ConfigReader) (on : asserts = true) (wrong : condition = false) :
      (streamOps asserts).verify condition reader = .error .assertion := by
    rw [ran, on, wrong]
    rfl
  constructor
  case sticky =>
    intro reader broken
    by_cases wrong : asserts = true ∧ condition = false
    · exact .inl ⟨wrong.1, stops reader wrong.1 wrong.2⟩
    · exact .inr ⟨_, _, passes reader fun on => by simpa [on] using wrong, broken⟩
  case unsound =>
    intro text value after found unsound
    cases found
    simp [unsound]
  case cut =>
    intro reader text held none
    cases none
  case faults =>
    intro reader text value after held found on unsound
    cases found
    dsimp only at unsound
    rw [held.sound on, Bool.true_and] at unsound
    exact stops reader on unsound
  case reads =>
    intro reader text value after held found sound
    cases found
    refine ⟨reader, passes reader fun on => ?_, ?_⟩
    · have both := sound on
      simp only [Bool.and_eq_true] at both
      exact both.2
    · exact { held with sound := sound }

/-- Reading an element runs `mpeg4_aac_pce_load` on the array of the handle. -/
theorem element_ran (asserts : Bool) (fields : ConfigFields)
    (nonempty : 0 < reader.bits.size) (size : reader.aac.pce.length = 64) :
    ∃ head after, Loaded fields.ps ⟨reader.bits, mpeg4BitsInit reader.aac.pce⟩ head after ∧
      (0 < after.src.size ∧ after.dst.data.length = 64) ∧
      (streamOps asserts).element fields reader =
        if asserts = true ∧ ¬Matches (fields.handle .zero) head then .error .assertion
        else .ok (⟨⟩, ⟨after.src, { fields.handle reader.aac with
          channels := UInt8.ofNat head.channels
          pce := after.dst.data
          npce := ((after.dst.bits + 7) / 8 : Nat) }⟩) := by
  have positive : 0 < (fields.handle reader.aac).pce.length := by
    change 0 < reader.aac.pce.length
    omega
  obtain ⟨head, after, loaded, program⟩ :=
    loadPce_eq asserts (fields.handle reader.aac) nonempty positive
  refine ⟨head, after, loaded, ⟨?_, loaded.size.trans size⟩, ?_⟩
  · unfold Bits.size
    rw [loaded.data]
    exact nonempty
  · change (loadPce asserts (fields.handle reader.aac) reader.bits >>= _) = _
    rw [program]
    have same : Matches (fields.handle reader.aac) head ↔ Matches (fields.handle .zero) head :=
      Iff.rfl
    rw [if_congr (and_congr_right fun _ => not_congr same) rfl rfl]
    split
    · rfl
    · rfl

theorem element_text {fields : ConfigFields} {text after : ConfigText}
    (found : textOps.element fields text = some (⟨⟩, after)) :
    ∃ element, programConfigElement fields.ps text.rest = some element ∧
      after = ⟨element.rest, element :: text.elements,
        text.sound && decide (Matches (fields.handle .zero) element.head)⟩ := by
  change (programConfigElement fields.ps text.rest).map _ = _ at found
  cases taken : programConfigElement fields.ps text.rest with
  | none =>
    rw [taken] at found
    cases found
  | some element =>
    rw [taken] at found
    cases found
    exact ⟨element, rfl, rfl⟩

/-- The first element is written into an array of zeros. -/
theorem Holding.element {array : List UInt8} {after : Bits} {text : List Bool}
    (wrote : Holding (mpeg4BitsInit array).size (mpeg4BitsInit array) [] →
      text.length ≤ 8 * (mpeg4BitsInit array).size →
      Holding (mpeg4BitsInit array).size after text)
    (blank : array = List.replicate 64 0) (fits : text.length ≤ 8 * 64) :
    Holding 64 after text := by
  subst blank
  exact wrote (holding_start 64) fits

theorem element_reads (zeros : start.pce = List.replicate 64 0) (fields : ConfigFields) :
    ConfigReads asserts start ((streamOps asserts).element fields) (textOps.element fields) := by
  constructor
  case sticky =>
    intro reader broken
    obtain ⟨head, after, loaded, ⟨nonempty, size⟩, program⟩ :=
      element_ran asserts fields broken.nonempty broken.size
    unfold Fails
    rw [program]
    by_cases stops : asserts = true ∧ ¬Matches (fields.handle .zero) head
    · exact .inl ⟨stops.1, if_pos stops⟩
    · exact .inr ⟨_, _, if_neg stops, nonempty, size, loaded.sticky broken.failed⟩
  case unsound =>
    intro text value after found unsound
    obtain ⟨element, -, rfl⟩ := element_text found
    simp [unsound]
  case cut =>
    intro reader text held none
    obtain ⟨head, after, loaded, ⟨nonempty, size⟩, program⟩ :=
      element_ran asserts fields held.nonempty held.size
    have missing : programConfigElement fields.ps (remaining reader.bits) = .none := by
      rw [held.rest]
      exact Option.map_eq_none_iff.mp none
    unfold Fails
    rw [program]
    by_cases stops : asserts = true ∧ ¬Matches (fields.handle .zero) head
    · exact .inl ⟨stops.1, if_pos stops⟩
    · exact .inr ⟨_, _, if_neg stops, nonempty, size, loaded.cut missing⟩
  case faults =>
    intro reader text value after held found on unsound
    obtain ⟨element, taken, rfl⟩ := element_text found
    obtain ⟨head, after, loaded, -, program⟩ :=
      element_ran asserts fields held.nonempty held.size
    rw [← held.rest] at taken
    obtain ⟨rfl, -⟩ := loaded.taken element taken
    dsimp only at unsound
    rw [held.sound on, Bool.true_and, decide_eq_false_iff_not] at unsound
    rw [program, if_pos ⟨on, unsound⟩]
  case reads =>
    intro reader text value after held found sound
    obtain ⟨element, taken, rfl⟩ := element_text found
    obtain ⟨head, after, loaded, ⟨nonempty, size⟩, program⟩ :=
      element_ran asserts fields held.nonempty held.size
    rw [← held.rest] at taken
    obtain ⟨rfl, calm, left, -, wrote⟩ := loaded.taken element taken
    have matched : ¬(asserts = true ∧ ¬Matches (fields.handle .zero) element.head) := by
      rintro ⟨on, wrong⟩
      have both := sound on
      simp only [Bool.and_eq_true, decide_eq_true_eq] at both
      exact wrong both.2
    rw [program, if_neg matched]
    refine ⟨_, rfl, nonempty, size, left, calm.trans held.calm, sound, nofun, ?_, ?_⟩
    · intro single one
      cases (List.cons.inj one).1
      rfl
    · intro single one fits
      obtain ⟨rfl, none⟩ := List.cons.inj one
      have stored : Holding 64 after.dst element.text :=
        Holding.element wrote (by rw [held.blank none]; exact zeros) fits
      refine ⟨?_, stored.contents⟩
      dsimp only
      rw [stored.offset]

theorem ops_related (zeros : start.pce = List.replicate 64 0) :
    OpsRelated (configReads asserts start) (streamOps asserts) textOps where
  bit := bit_reads
  read _ width := read_reads width
  remain := remain_reads
  element := element_reads zeros
  verify := verify_reads

end Reads

/-! ## Whole configurations -/

/-- What is read of the bytes of a configuration. -/
def configText (data : List UInt8) : Option (ConfigFields × ConfigText) :=
  audioSpecificConfig textOps ⟨bits data, [], true⟩

section Whole

variable {asserts : Bool} {data : List UInt8} {start : Mpeg4Aac}

theorem held_start (nonempty : 0 < data.length) (zeros : start.pce = List.replicate 64 0) :
    Held asserts start ⟨mpeg4BitsInit data, start⟩ ⟨bits data, [], true⟩ where
  nonempty := nonempty
  size := by
    rw [zeros]
    rfl
  rest := rfl
  calm := rfl
  sound _ := rfl
  blank _ := rfl
  channels _ found := by cases found
  stores _ found := by cases found

theorem load2_cut (nonempty : 0 < data.length) (zeros : start.pce = List.replicate 64 0)
    (none : configText data = none) :
    (asserts = true ∧ mpeg4AacAudioSpecificConfigLoad2 asserts data start = .error .assertion) ∨
      ∃ result aac, mpeg4AacAudioSpecificConfigLoad2 asserts data start = .ok (result, aac) ∧
        (result = -1 ∨ ¬Known aac.profile) := by
  have related := audioSpecificConfig_related (@ops_related asserts _ zeros)
  unfold mpeg4AacAudioSpecificConfigLoad2
  rcases related.cut _ _ (held_start nonempty zeros) none with
    ⟨on, faults⟩ | ⟨fields, reader, ran, broken⟩
  · left
    rw [faults]
    exact ⟨on, rfl⟩
  · right
    rw [ran, ok_bind]
    dsimp only
    by_cases known : Known fields.profile
    · rw [if_neg (not_not.mpr known)]
      have failed : mpeg4BitsError (mpeg4BitsAligment reader.bits 8) ≠ 0 := broken.failed
      rw [if_pos failed]
      exact ⟨_, _, rfl, .inl rfl⟩
    · rw [if_pos known]
      exact ⟨_, _, rfl, .inr known⟩

theorem load2_reads (nonempty : 0 < data.length) (zeros : start.pce = List.replicate 64 0)
    {fields : ConfigFields} {text : ConfigText} (found : configText data = some (fields, text))
    (sound : asserts = true → text.sound = true) :
    ∃ result reader, mpeg4AacAudioSpecificConfigLoad2 asserts data start =
        .ok (result, reader.aac.configured fields) ∧ 0 ≤ result ∧
      Held asserts start reader text := by
  have related := audioSpecificConfig_related (@ops_related asserts _ zeros)
  obtain ⟨reader, ran, held⟩ :=
    related.reads _ _ fields text (held_start nonempty zeros) found sound
  unfold mpeg4AacAudioSpecificConfigLoad2
  rw [ran, ok_bind]
  dsimp only
  by_cases known : Known fields.profile
  · rw [if_neg (not_not.mpr known)]
    have calm : ¬mpeg4BitsError (mpeg4BitsAligment reader.bits 8) ≠ 0 :=
      fun failed => failed held.calm
    rw [if_neg calm]
    exact ⟨_, reader, rfl, by omega, held⟩
  · rw [if_pos known]
    exact ⟨_, reader, rfl, by omega, held⟩

theorem load2_faults (nonempty : 0 < data.length) (zeros : start.pce = List.replicate 64 0)
    {fields : ConfigFields} {text : ConfigText} (found : configText data = some (fields, text))
    (unsound : text.sound = false) :
    mpeg4AacAudioSpecificConfigLoad2 true data start = .error .assertion := by
  have related := audioSpecificConfig_related (@ops_related true _ zeros)
  unfold mpeg4AacAudioSpecificConfigLoad2
  rw [related.faults _ _ fields text (held_start nonempty zeros) found rfl unsound]
  rfl

end Whole

end CLibs.Aac
