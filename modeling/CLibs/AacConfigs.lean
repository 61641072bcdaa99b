import CLibs.AacAdts

/-!
# Audio specific configurations

`mpeg4_aac_audio_specific_config_load` reads two bytes itself and has a longer configuration read
again from its bits: the object type, which may be wrapped in one for SBR or PS, the configuration
of that type, and an extension behind it.
-/

namespace CLibs.Aac

open BitStrings BitStreams BitSyntax

/-! ## The syntax -/

/-- What a configuration says beside its element. -/
structure ConfigFields where
  profile : UInt8
  samplingFrequencyIndex : UInt8
  channelConfiguration : UInt8
  sbr : Int
  ps : Int

structure ConfigOps (Program : Type → Type) where
  bit : Program Nat
  read : Nat → Program Nat
  remain : Program Nat
  element : ConfigFields → Program PUnit
  verify : Bool → Program PUnit

section Syntax

variable {Program : Type → Type} [Monad Program] (ops : ConfigOps Program)

def onlyIf (condition : Prop) [Decidable condition] (program : Program PUnit) : Program PUnit :=
  if condition then program else pure ⟨⟩

def skipField (width : Nat) : Program PUnit := do
  let _ ← ops.read width
  pure ⟨⟩

def skipBit : Program PUnit := do
  let _ ← ops.bit
  pure ⟨⟩

def getAudioObjectType : Program UInt8 := do
  let audioObjectType ← ops.read 5
  if audioObjectType = 31 then do
    let extended ← ops.read 6
    pure (UInt8.ofNat (32 + extended))
  else pure (UInt8.ofNat audioObjectType)

def getSamplingFrequency : Program UInt8 := do
  let samplingFrequencyIndex ← ops.read 4
  onlyIf (samplingFrequencyIndex = 0x0F) (skipField ops 24)
  pure (UInt8.ofNat samplingFrequencyIndex)

/-- `mpeg4_aac_ga_specific_config_load` behind the element. -/
def gaExtension (fields : ConfigFields) (extensionFlag : Nat) : Program PUnit := do
  onlyIf (fields.profile = 6 ∨ fields.profile = 20) (skipField ops 3)
  onlyIf (extensionFlag ≠ 0) do
    onlyIf (fields.profile = 22) do
      skipField ops 5
      skipField ops 11
    onlyIf (fields.profile = 17 ∨ fields.profile = 19 ∨ fields.profile = 20 ∨ fields.profile = 23) do
      skipBit ops
      skipBit ops
      skipBit ops
    let extensionFlag3 ← ops.bit
    onlyIf (extensionFlag3 ≠ 0) (ops.verify false)

def gaSpecificConfigLoad (fields : ConfigFields) : Program PUnit := do
  skipBit ops
  let dependsOnCoreCoder ← ops.bit
  onlyIf (dependsOnCoreCoder ≠ 0) (skipField ops 14)
  let extensionFlag ← ops.bit
  onlyIf (fields.channelConfiguration = 0) (ops.element fields)
  gaExtension ops fields extensionFlag

def celpSpecificConfigLoad : Program PUnit := do
  let isBaseLayer ← ops.bit
  if isBaseLayer ≠ 0 then do
    let excitationMode ← ops.bit
    skipBit ops
    skipBit ops
    onlyIf (excitationMode = 1) (skipField ops 3)
    onlyIf (excitationMode = 0) do
      skipField ops 5
      skipField ops 2
      skipBit ops
  else do
    let isBWSLayer ← ops.bit
    if isBWSLayer ≠ 0 then skipField ops 2 else skipField ops 2

/-- The configuration of error protection. -/
def epConfigLoad : Program PUnit := do
  let epConfig ← ops.read 2
  onlyIf (epConfig = 2 ∨ epConfig = 3) (ops.verify false)
  onlyIf (epConfig = 3) do
    let directMapping ← ops.bit
    onlyIf (directMapping ≠ 0) (ops.verify false)

def sbrExtension (fields : ConfigFields) : Program ConfigFields := do
  let sbr ← ops.bit
  if sbr ≠ 0 then do
    let _ ← getSamplingFrequency ops
    let left ← ops.remain
    if left ≥ 12 then do
      let syncExtensionType ← ops.read 11
      if syncExtensionType = 0x548 then do
        let ps ← ops.bit
        pure { fields with
          sbr := sbr
          ps := ps }
      else pure { fields with sbr := sbr }
    else pure { fields with sbr := sbr }
  else pure { fields with sbr := sbr }

def bsacExtension (fields : ConfigFields) : Program ConfigFields := do
  let sbr ← ops.bit
  onlyIf (sbr ≠ 0) do
    let _ ← getSamplingFrequency ops
    pure ⟨⟩
  skipField ops 4
  pure { fields with sbr := sbr }

def syncExtension (fields : ConfigFields) : Program ConfigFields := do
  let left ← ops.remain
  if left ≥ 16 then do
    let syncExtensionType ← ops.read 11
    if syncExtensionType = 0x2b7 then do
      let extensionAudioObjectType ← getAudioObjectType ops
      if extensionAudioObjectType = 5 then sbrExtension ops fields
      else if extensionAudioObjectType = 22 then bsacExtension ops fields
      else pure fields
    else pure fields
  else pure fields

/-- The object types that `mpeg4_aac_ga_specific_config_load` is called for. -/
def generalAudio : List UInt8 := [1, 2, 3, 4, 6, 7, 17, 19, 20, 21, 22, 23]

/-- The object types with a configuration of error protection. -/
def errorResilient : List UInt8 := [17, 19, 20, 21, 22, 23, 24, 25, 26, 27, 39]

def explicitSbr (profile index configuration : UInt8) : Program ConfigFields := do
  let _ ← getSamplingFrequency ops
  let inner ← getAudioObjectType ops
  onlyIf (inner = 22) (skipField ops 4)
  pure ⟨inner, index, configuration, 1, if profile = 29 then 1 else 0⟩

def leadingFields (profile index configuration : UInt8) : Program ConfigFields :=
  if profile = 5 ∨ profile = 29 then explicitSbr ops profile index configuration
  else pure ⟨profile, index, configuration, 0, 0⟩

def specificConfigLoad (fields : ConfigFields) : Program PUnit :=
  if fields.profile = 8 then celpSpecificConfigLoad ops else gaSpecificConfigLoad ops fields

/-- The extension behind a configuration that is not wrapped in one for SBR. -/
def trailingFields (profile : UInt8) (fields : ConfigFields) : Program ConfigFields :=
  if profile = 5 ∨ profile = 29 then pure fields else syncExtension ops fields

/-- The object types with a configuration that the source reads. -/
def Known (profile : UInt8) : Prop := profile ∈ generalAudio ∨ profile = 8

instance (profile : UInt8) : Decidable (Known profile) := inferInstanceAs (Decidable (_ ∨ _))

/-- The configuration of an object type. -/
def typedConfig (profile : UInt8) (fields : ConfigFields) : Program ConfigFields :=
  if Known fields.profile then do
    specificConfigLoad ops fields
    onlyIf (fields.profile ∈ errorResilient) (epConfigLoad ops)
    trailingFields ops profile fields
  else do
    ops.verify false
    pure fields

def audioSpecificConfig : Program ConfigFields := do
  let profile ← getAudioObjectType ops
  let index ← getSamplingFrequency ops
  let configuration ← ops.read 4
  let fields ← leadingFields ops profile index (UInt8.ofNat configuration)
  typedConfig ops profile fields

end Syntax

/-! ## Loading -/

/-- A stream and the handle that is filled. -/
structure ConfigReader where
  bits : Bits
  aac : Mpeg4Aac

abbrev Loading := StateT ConfigReader (Except Fault)

def streamOps (asserts : Bool) : ConfigOps Loading where
  bit reader := do
    let (bit, bits) ← mpeg4BitsRead reader.bits
    return (bit.toNat, { reader with bits := bits })
  read n reader := do
    let (v, bits) ← mpeg4BitsReadN n reader.bits
    return (v.toNat, { reader with bits := bits })
  remain reader := .ok (mpeg4BitsRemain reader.bits, reader)
  element fields reader := do
    let (streams, aac) ← loadPce asserts { reader.aac with
      profile := fields.profile
      samplingFrequencyIndex := fields.samplingFrequencyIndex
      ps := fields.ps } reader.bits
    return (⟨⟩, ⟨streams.src, aac⟩)
  verify condition reader := do
    verify asserts (condition = true)
    return (⟨⟩, reader)

def Mpeg4Aac.configured (aac : Mpeg4Aac) (fields : ConfigFields) : Mpeg4Aac :=
  { aac with
    profile := fields.profile
    samplingFrequencyIndex := fields.samplingFrequencyIndex
    channelConfiguration := fields.channelConfiguration
    sbr := fields.sbr
    ps := fields.ps }

/-- `mpeg4_aac_audio_specific_config_load2`, called with a handle that has neither `sbr` nor `ps`. -/
def mpeg4AacAudioSpecificConfigLoad2 (asserts : Bool) (data : List UInt8) (aac : Mpeg4Aac) :
    Except Fault (Int × Mpeg4Aac) := do
  let (fields, reader) ← audioSpecificConfig (streamOps asserts) ⟨mpeg4BitsInit data, aac⟩
  let aac := reader.aac.configured fields
  if ¬Known fields.profile then return (data.length, aac)
  let bits := mpeg4BitsAligment reader.bits 8
  return (if mpeg4BitsError bits ≠ 0 then -1 else ((bits.bits / 8 : Nat) : Int), aac)

def mpeg4AacAudioSpecificConfigLoad (asserts : Bool) (data : List UInt8) (aac : Mpeg4Aac) :
    Except Fault (Int × Mpeg4Aac) := do
  if data.length < 2 then return (-1, aac)
  let first ← byteAt data 0
  let second ← byteAt data 1
  let profile := (first >>> 3) &&& 0x1F
  let index := ((first &&& 0x7) <<< 1) ||| ((second >>> 7) &&& 0x01)
  let configuration := (second >>> 3) &&& 0x0F
  verifyFields asserts profile index configuration
  let aac := { Mpeg4Aac.zero with
    profile := profile
    samplingFrequencyIndex := index
    channelConfiguration := configuration
    channels := configuration
    samplingFrequency := mpeg4AacAudioFrequencyTo index }
  if data.length > 2 then mpeg4AacAudioSpecificConfigLoad2 asserts data aac
  else return (2, aac)

/-! ## Saving -/

def mpeg4AacAudioSpecificConfigSave2 (aac : Mpeg4Aac) (out : List UInt8) :
    Except Fault (Int × List UInt8) := do
  if (out.length : Int) < 2 + aac.npce % 2 ^ 64 then return (-1, out)
  if aac.pce.length < aac.npce.toNat then throw .outside
  return (2 + aac.npce, out.take 2 ++ aac.pce.take aac.npce.toNat ++ out.drop (2 + aac.npce.toNat))

/-- `bytes < 2 + (size_t)aac->npce` wraps around for a negative `npce`. -/
def mpeg4AacAudioSpecificConfigSave (asserts : Bool) (aac : Mpeg4Aac) (out : List UInt8) :
    Except Fault (Int × List UInt8) := do
  if (out.length : Int) < (2 + aac.npce) % 2 ^ 64 then return (-1, out)
  if out.length < 2 then throw .outside
  let configuration := if aac.npce > 0 then 0 else aac.channelConfiguration
  verifyFields asserts aac.profile aac.samplingFrequencyIndex aac.channelConfiguration
  let out := [(aac.profile <<< 3) ||| ((aac.samplingFrequencyIndex >>> 1) &&& 0x07),
    ((aac.samplingFrequencyIndex &&& 0x01) <<< 7) ||| ((configuration &&& 0xF) <<< 3)] ++ out.drop 2
  if aac.channelConfiguration = 0 ∧ aac.npce > 0 then mpeg4AacAudioSpecificConfigSave2 aac out
  else return (2, out)

end CLibs.Aac
