import CLibs.AacBits

/-!
# Program config elements

`mpeg4_aac_pce_load` copies the syntax of a program config element from one stream to another,
aligns both, and copies the comment.  What it stores is the element as it stands, but aligned to its
own beginning.
-/

namespace CLibs.Aac

open BitStrings BitStreams BitSyntax List

/-! ## The syntax -/

section Syntax

variable {Program : Type → Type} [Monad Program]

/-- What the source uses of an element in front of its comment. -/
structure PceHead where
  objectType : Nat
  samplingFrequencyIndex : Nat
  channels : Nat
  deriving DecidableEq

/-- A flag, and behind it a field if it is set. -/
def mixdown (copy : Nat → Program Nat) (width : Nat) : Program PUnit := do
  let present ← copy 1
  if present ≠ 0 then do
    let _ ← copy width
    pure ⟨⟩
  else pure ⟨⟩

/-- The front, side or back elements. -/
def channelElements (copy : Nat → Program Nat) (ps : Int) :
    (count channels : Nat) → Program Nat
  | 0, channels => pure channels
  | count + 1, channels => do
      let cpe ← copy 1
      let _ ← copy 4
      channelElements copy ps count (channels + if cpe ≠ 0 ∨ ps ≠ 0 then 2 else 1)

def fields (copy : Nat → Program Nat) (width : Nat) : (count : Nat) → Program PUnit
  | 0 => pure ⟨⟩
  | count + 1 => do
      let _ ← copy width
      fields copy width count

def ccElements (copy : Nat → Program Nat) : (count : Nat) → Program PUnit
  | 0 => pure ⟨⟩
  | count + 1 => do
      let _ ← copy 1
      let _ ← copy 4
      ccElements copy count

/-- An element up to its byte alignment. -/
def pceHead (copy : Nat → Program Nat) (ps : Int) : Program PceHead := do
  let _ ← copy 4
  let objectType ← copy 2
  let samplingFrequencyIndex ← copy 4
  let front ← copy 4
  let side ← copy 4
  let back ← copy 4
  let lfe ← copy 2
  let assocData ← copy 3
  let validCc ← copy 4
  mixdown copy 4
  mixdown copy 4
  mixdown copy 3
  let channels ← channelElements copy ps front 0
  let channels ← channelElements copy ps side channels
  let channels ← channelElements copy ps back channels
  fields copy 4 lfe
  fields copy 4 assocData
  ccElements copy validCc
  pure ⟨objectType, samplingFrequencyIndex, channels + lfe⟩

def pceComment (copy : Nat → Program Nat) : Program PUnit := do
  let commentFieldBytes ← copy 8
  fields copy 8 commentFieldBytes

end Syntax

section Related

variable {First Second : Type → Type} [Monad First] [Monad Second]
  (relating : Relating First Second) {copy : Nat → First Nat} {take : Nat → Second Nat}
  (same : ∀ count, 0 < count ∧ count ≤ 64 → relating.Rel (copy count) (take count))
include same

theorem mixdown_related {width : Nat} (bound : 0 < width ∧ width ≤ 64) :
    relating.Rel (mixdown copy width) (mixdown take width) := by
  refine relating.bind (same 1 (by decide)) fun present => ?_
  by_cases set : present ≠ 0
  · rw [if_pos set, if_pos set]
    exact relating.bind (same width bound) fun _ => relating.pure _
  · rw [if_neg set, if_neg set]
    exact relating.pure _

theorem channelElements_related (ps : Int) (count channels : Nat) :
    relating.Rel (channelElements copy ps count channels) (channelElements take ps count channels) := by
  induction count generalizing channels with
  | zero => exact relating.pure _
  | succ count ih =>
    exact relating.bind (same 1 (by decide)) fun _ =>
      relating.bind (same 4 (by decide)) fun _ => ih _

theorem fields_related {width : Nat} (bound : 0 < width ∧ width ≤ 64) (count : Nat) :
    relating.Rel (fields copy width count) (fields take width count) := by
  induction count with
  | zero => exact relating.pure _
  | succ count ih => exact relating.bind (same width bound) fun _ => ih

theorem ccElements_related (count : Nat) :
    relating.Rel (ccElements copy count) (ccElements take count) := by
  induction count with
  | zero => exact relating.pure _
  | succ count ih =>
    exact relating.bind (same 1 (by decide)) fun _ => relating.bind (same 4 (by decide)) fun _ => ih

theorem pceHead_related (ps : Int) : relating.Rel (pceHead copy ps) (pceHead take ps) := by
  have four := same 4 (by decide)
  refine relating.bind four fun _ => relating.bind (same 2 (by decide)) fun _ =>
    relating.bind four fun _ => relating.bind four fun front => relating.bind four fun side =>
    relating.bind four fun back => relating.bind (same 2 (by decide)) fun lfe =>
    relating.bind (same 3 (by decide)) fun data => relating.bind four fun cc => ?_
  refine relating.bind (mixdown_related relating same (by decide)) fun _ =>
    relating.bind (mixdown_related relating same (by decide)) fun _ =>
    relating.bind (mixdown_related relating same (by decide)) fun _ => ?_
  refine relating.bind (channelElements_related relating same ps front 0) fun _ =>
    relating.bind (channelElements_related relating same ps side _) fun _ =>
    relating.bind (channelElements_related relating same ps back _) fun _ => ?_
  exact relating.bind (fields_related relating same (by decide) lfe) fun _ =>
    relating.bind (fields_related relating same (by decide) data) fun _ =>
    relating.bind (ccElements_related relating same cc) fun _ => relating.pure _

theorem pceComment_related : relating.Rel (pceComment copy) (pceComment take) :=
  relating.bind (same 8 (by decide)) fun count => fields_related relating same (by decide) count

end Related

/-! ## Loading -/

/-- The handle that configurations and headers are read into. -/
structure Mpeg4Aac where
  profile : UInt8
  samplingFrequencyIndex : UInt8
  channelConfiguration : UInt8
  samplingFrequency : UInt32
  channels : UInt8
  sbr : Int
  ps : Int
  pce : List UInt8
  npce : Int
  deriving DecidableEq

/-- An assertion, in a build that has them or in one that does not. -/
def verify (asserts : Bool) (condition : Prop) [Decidable condition] : Except Fault Unit :=
  if asserts = true then check condition else .ok ()

def alignStreams (streams : Streams) : Streams :=
  ⟨mpeg4BitsAligment streams.src 8, mpeg4BitsAligment streams.dst 8⟩

/-- The result is the byte count that `mpeg4_aac_pce_load` returns, and the channel count that it
stores. -/
def mpeg4AacPceLoad (asserts : Bool) (aac : Mpeg4Aac) (streams : Streams) :
    Except Fault ((Int × UInt8) × Streams) := do
  let (head, streams) ← pceHead mpeg4BitsCopy aac.ps streams
  let streams := alignStreams streams
  let (_, streams) ← pceComment mpeg4BitsCopy streams
  verify asserts (aac.samplingFrequencyIndex.toNat = head.samplingFrequencyIndex)
  verify asserts (aac.profile.toNat = head.objectType + 1)
  return ((((streams.dst.bits + 7) / 8 : Nat), UInt8.ofNat head.channels), streams)

/-! ## What is loaded -/

/-- A program config element, field by field. -/
structure Element where
  head : PceHead
  front : List Bool
  comment : List Bool
  rest : List Bool
  deriving DecidableEq

/-- How many bits are missing to the next byte. -/
def padding (count : Nat) : Nat := (count + 7) / 8 * 8 - count

/-- The bits of an element, aligned to its own beginning. -/
def Element.text (element : Element) : List Bool :=
  element.front ++ List.replicate (padding element.front.length) false ++ element.comment

/-- The element in front of bits that end with a byte. -/
def programConfigElement (ps : Int) (sequence : List Bool) : Option Element := do
  let (head, behind) ← pceHead field ps sequence
  let aligned := behind.drop (behind.length % 8)
  let (_, rest) ← pceComment field aligned
  some ⟨head, sequence.take (sequence.length - behind.length),
    aligned.take (aligned.length - rest.length), rest⟩

theorem Element.text_length (element : Element) :
    element.text.length = (element.front.length + 7) / 8 * 8 + element.comment.length := by
  simp [text, padding]
  omega

theorem remaining_aligned (stream : Bits) :
    remaining (mpeg4BitsAligment stream 8) =
      (remaining stream).drop ((remaining stream).length % 8) := by
  rw [length_remaining]
  unfold remaining mpeg4BitsAligment
  rw [drop_drop]
  dsimp only
  have length : (bits stream.data).length = 8 * stream.size := length_bits _
  rcases Nat.lt_or_ge (8 * stream.size) stream.bits with beyond | inside
  · rw [drop_eq_nil_of_le (by omega), drop_eq_nil_of_le (by omega)]
  · congr 1
    omega

theorem padded_zeros (written : List Bool) (zeros count : Nat) :
    padded (written ++ List.replicate zeros false) count = padded written count := by
  induction zeros with
  | zero => rw [replicate_zero, append_nil]
  | succ zeros ih =>
    rw [replicate_succ', ← append_assoc, padded_append_false, ih]

theorem holding_aligned {size : Nat} {stream : Bits} {written : List Bool}
    (holding : Holding size stream written) :
    Holding size (mpeg4BitsAligment stream 8)
      (written ++ List.replicate (padding written.length) false) := by
  have offset := holding.offset
  have fits := holding.fits
  refine ⟨holding.length, ?_, ?_, ?_⟩
  · unfold mpeg4BitsAligment
    simp [padding, offset]
    omega
  · simp [padding]
    omega
  · rw [padded_zeros]
    exact holding.contents

theorem ready_aligned {streams : Streams} (ready : Ready streams) : Ready (alignStreams streams) :=
  ⟨ready.src, ready.dst⟩

structure Loaded (ps : Int) (streams : Streams) (head : PceHead) (after : Streams) : Prop where
  data : after.src.data = streams.src.data
  size : after.dst.size = streams.dst.size
  sticky : streams.src.error ≠ 0 → after.src.error ≠ 0
  cut : programConfigElement ps (remaining streams.src) = none → after.src.error ≠ 0
  taken : ∀ element, programConfigElement ps (remaining streams.src) = some element →
    head = element.head ∧ after.src.error = streams.src.error ∧
    remaining after.src = element.rest ∧
    ((streams.dst.bits + element.front.length + 7) / 8 * 8 + element.comment.length ≤
        8 * streams.dst.size →
      after.dst.bits =
        (streams.dst.bits + element.front.length + 7) / 8 * 8 + element.comment.length) ∧
    (Holding streams.dst.size streams.dst [] → element.text.length ≤ 8 * streams.dst.size →
      Holding streams.dst.size after.dst element.text)

/-- The element is one of the configuration. -/
def Matches (aac : Mpeg4Aac) (head : PceHead) : Prop :=
  aac.samplingFrequencyIndex.toNat = head.samplingFrequencyIndex ∧
    aac.profile.toNat = head.objectType + 1

instance (aac : Mpeg4Aac) (head : PceHead) : Decidable (Matches aac head) :=
  inferInstanceAs (Decidable (_ ∧ _))

theorem pceLoad_verifies (asserts : Bool) (aac : Mpeg4Aac) {streams middle after : Streams}
    {head : PceHead} (ran : pceHead mpeg4BitsCopy aac.ps streams = .ok (head, middle))
    (went : pceComment mpeg4BitsCopy (alignStreams middle) = .ok (⟨⟩, after)) :
    mpeg4AacPceLoad asserts aac streams =
      if asserts = true ∧ ¬Matches aac head then .error .assertion
      else .ok ((((after.dst.bits + 7) / 8 : Nat), UInt8.ofNat head.channels), after) := by
  unfold mpeg4AacPceLoad verify check Matches
  rw [ran, ok_bind]
  dsimp only
  rw [went, ok_bind]
  dsimp only
  cases asserts with
  | false => rfl
  | true =>
    by_cases index : aac.samplingFrequencyIndex.toNat = head.samplingFrequencyIndex
    · by_cases profile : aac.profile.toNat = head.objectType + 1
      · simp only [index, profile, not_true_eq_false, and_self, and_false, if_false, if_true,
          ok_bind]
        rfl
      · simp only [index, profile, not_false_eq_true, and_false, and_self, if_true, if_false,
          ok_bind]
        rfl
    · simp only [index, false_and, not_false_eq_true, and_self, if_true, if_false]
      rfl

section Parts

variable {ps : Int} {streams middle after : Streams} {head : PceHead}
  (copied : Copied (pceHead field ps) streams head middle)
  (later : Copied (pceComment field) (alignStreams middle) ⟨⟩ after)
include copied

/-- The comment is read from where the head has left the source. -/
theorem remaining_comment {found : PceHead} {behind : List Bool}
    (first : pceHead field ps (remaining streams.src) = some (found, behind)) :
    remaining (alignStreams middle).src = behind.drop (behind.length % 8) := by
  change remaining (mpeg4BitsAligment middle.src 8) = _
  rw [remaining_aligned, copied.remaining_eq first]

include later

theorem pceLoad_cut (none : programConfigElement ps (remaining streams.src) = none) :
    after.src.error ≠ 0 := by
  unfold programConfigElement at none
  cases first : pceHead field ps (remaining streams.src) with
  | none => exact later.sticky (copied.cut first)
  | some pair =>
    obtain ⟨found, behind⟩ := pair
    rw [first] at none
    apply later.cut
    rw [remaining_comment copied first]
    cases second : pceComment field (behind.drop (behind.length % 8)) with
    | none => rfl
    | some pair =>
      rw [Option.bind_eq_bind, Option.bind_some] at none
      dsimp only at none
      rw [second] at none
      cases none

/-- The head and the comment together are the element. -/
theorem Loaded.of_copied : Loaded ps streams head after := by
  refine ⟨later.data.trans copied.data, later.size.trans copied.size,
    fun failed => later.sticky (copied.sticky failed), pceLoad_cut copied later, ?_⟩
  intro element both
  unfold programConfigElement at both
  obtain ⟨⟨found, behind⟩, first, both⟩ := Option.bind_eq_some_iff.mp both
  obtain ⟨⟨nothing, rest⟩, second, both⟩ := Option.bind_eq_some_iff.mp both
  cases both
  have place := remaining_comment copied first
  have size : (alignStreams middle).dst.size = streams.dst.size := copied.size
  obtain ⟨same, calm, used, split, -, moved, wrote⟩ := copied.taken found behind first
  rw [← place] at second
  obtain ⟨-, still, more, tail, -, further, appended⟩ := later.taken nothing rest second
  have front : (remaining streams.src).take
      ((remaining streams.src).length - behind.length) = used := by
    rw [split]
    simp
  have comment : (behind.drop (behind.length % 8)).take
      ((behind.drop (behind.length % 8)).length - rest.length) = more := by
    rw [← place, tail]
    simp
  refine ⟨same, still.trans calm, later.remaining_eq second, ?_, ?_⟩
  · intro fits
    dsimp only at fits ⊢
    rw [front, comment] at fits ⊢
    have offset := moved (by omega)
    have reached : (alignStreams middle).dst.bits =
        (streams.dst.bits + used.length + 7) / 8 * 8 := by
      rw [← offset]
      rfl
    rw [further (by rw [reached, size]; omega), reached]
  · intro holding fits
    rw [Element.text_length] at fits
    unfold Element.text
    dsimp only at fits ⊢
    rw [front, comment] at fits ⊢
    have held := wrote [] holding (by rw [length_nil]; omega)
    rw [nil_append] at held
    have next := holding_aligned held
    have done := appended (used ++ List.replicate (padding used.length) false)
    rw [size] at done
    exact done next (by
      simp [padding]
      omega)

end Parts

theorem mpeg4AacPceLoad_eq (asserts : Bool) (aac : Mpeg4Aac) {streams : Streams}
    (ready : Ready streams) :
    ∃ head after, Loaded aac.ps streams head after ∧
      mpeg4AacPceLoad asserts aac streams =
        if asserts = true ∧ ¬Matches aac head then .error .assertion
        else .ok ((((after.dst.bits + 7) / 8 : Nat), UInt8.ofNat head.channels), after) := by
  obtain ⟨head, middle, ran, copied⟩ :=
    pceHead_related copies (fun _ => copies_field) aac.ps streams ready
  obtain ⟨_, after, went, later⟩ :=
    pceComment_related copies (fun _ => copies_field) (alignStreams middle)
      (ready_aligned copied.ready)
  exact ⟨head, after, .of_copied copied later, pceLoad_verifies asserts aac ran went⟩

end CLibs.Aac
