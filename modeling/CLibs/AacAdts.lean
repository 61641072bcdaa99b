import CLibs.AacElements

/-!
# ADTS headers

A header of seven bytes has the length of the whole frame in 13 bits.  With channel configuration 0 a
program config element follows it, behind three bits of its own.
-/

namespace CLibs.Aac

open BitStrings BitStreams BitSyntax List

/-! ## The functions -/

def sFrequency : List UInt32 :=
  [96000, 88200, 64000, 48000, 44100, 32000, 24000, 22050, 16000, 12000, 11025, 8000, 7350]

def mpeg4AacAudioFrequencyTo (index : UInt8) : UInt32 := sFrequency.getD index.toNat 0

/-- The handle after `memset`. -/
def Mpeg4Aac.zero : Mpeg4Aac := ⟨0, 0, 0, 0, 0, 0, 0, List.replicate 64 0, 0⟩

/-- The assertions that every loader and saver makes. -/
def verifyFields (asserts : Bool) (profile index configuration : UInt8) : Except Fault Unit := do
  verify asserts (0 < profile ∧ profile < 31)
  verify asserts (configuration ≤ 7)
  verify asserts (index ≤ 0xc)

def idPce : UInt64 := 5

/-- Where the frame begins behind a header: the positions of its blocks and a checksum come first if
it is protected. -/
def adtsOffset (second seventh : UInt8) : Nat :=
  if second &&& 0x01 = 0 then 7 + 2 * (seventh &&& 0x03).toNat + 2 else 7

def loadPce (asserts : Bool) (aac : Mpeg4Aac) (bits : Bits) :
    Except Fault (Streams × Mpeg4Aac) := do
  let ((npce, channels), streams) ← mpeg4AacPceLoad asserts aac ⟨bits, mpeg4BitsInit aac.pce⟩
  return (streams, { aac with
    channels := channels
    pce := streams.dst.data
    npce := npce })

def mpeg4AacAdtsPceLoad (asserts : Bool) (data : List UInt8) (aac : Mpeg4Aac) :
    Except Fault (Int × Mpeg4Aac) := do
  let second ← byteAt data 1
  let seventh ← byteAt data 6
  let offset := adtsOffset second seventh
  if data.length ≤ offset then return (offset, aac)
  let (id, bits) ← mpeg4BitsReadN 3 (mpeg4BitsInit (data.drop offset))
  if idPce = id then do
    let (streams, aac) ← loadPce asserts aac bits
    return (if mpeg4BitsError streams.src ≠ 0 then -1 else
      ((7 + (streams.dst.bits + 7) / 8 : Nat) : Int), aac)
  else return (7, aac)

def mpeg4AacAdtsLoad (asserts : Bool) (data : List UInt8) (aac : Mpeg4Aac) :
    Except Fault (Int × Mpeg4Aac) := do
  if data.length < 7 then return (-1, aac)
  let first ← byteAt data 0
  let second ← byteAt data 1
  let third ← byteAt data 2
  let fourth ← byteAt data 3
  verify asserts (first = 0xFF ∧ second &&& 0xF0 = 0xF0)
  let profile := ((third >>> 6) &&& 0x03) + 1
  let index := (third >>> 2) &&& 0x0F
  let configuration := ((third &&& 0x01) <<< 2) ||| ((fourth >>> 6) &&& 0x03)
  verifyFields asserts profile index configuration
  let aac := { Mpeg4Aac.zero with
    profile := profile
    samplingFrequencyIndex := index
    channelConfiguration := configuration
    channels := configuration
    samplingFrequency := mpeg4AacAudioFrequencyTo index }
  if configuration = 0 then mpeg4AacAdtsPceLoad asserts data aac
  else return (7, aac)

/-- The count of bytes and the output. -/
def mpeg4AacAdtsPceSave (asserts : Bool) (out : List UInt8) (aac : Mpeg4Aac) :
    Except Fault (Nat × List UInt8) := do
  if aac.npce.toNat + 7 > out.length then return (0, out)
  if aac.pce.length < aac.npce.toNat then throw .outside
  let (adts, _) ← mpeg4BitsWriteN (mpeg4BitsInit (out.drop 7)) idPce 3
  let ((_, channels), streams) ← mpeg4AacPceLoad asserts aac
    ⟨mpeg4BitsInit (aac.pce.take aac.npce.toNat), adts⟩
  verify asserts (channels = aac.channels)
  return (if mpeg4BitsError streams.src ≠ 0 then 0 else 7 + (streams.dst.bits + 7) / 8,
    out.take 7 ++ streams.dst.data)

/-- The seven bytes of a header. -/
def adtsHeader (profile index configuration : UInt8) (len : Nat) : List UInt8 :=
  [0xFF, 0xF0 ||| 0x01,
    ((profile - 1) <<< 6) ||| ((index &&& 0x0F) <<< 2) ||| ((configuration >>> 2) &&& 0x01),
    ((configuration &&& 0x03) <<< 6) ||| UInt8.ofNat ((len >>> 11) &&& 0x03),
    UInt8.ofNat (len >>> 3), UInt8.ofNat ((len &&& 0x07) <<< 5) ||| 0x1F, 0xFC]

def mpeg4AacAdtsSave (asserts : Bool) (aac : Mpeg4Aac) (payload : Nat) (out : List UInt8) :
    Except Fault (Int × List UInt8) := do
  let len := payload + 7
  if out.length < 7 ∨ len ≥ 2 ^ 12 then return (-1, out)
  let (len, out) ←
    if aac.channelConfiguration = 0 ∧ aac.npce > 0 then do
      let (pce, out) ← mpeg4AacAdtsPceSave asserts out aac
      pure (len + pce, out)
    else pure (len, out)
  verifyFields asserts aac.profile aac.samplingFrequencyIndex aac.channelConfiguration
  let header := adtsHeader aac.profile aac.samplingFrequencyIndex aac.channelConfiguration len
  return (((len - payload : Nat) : Int), header ++ out.drop 7)

def mpeg4AacAdtsFrameLength (asserts : Bool) (data : List UInt8) : Except Fault Int := do
  if data.length < 7 then return -1
  let first ← byteAt data 0
  let second ← byteAt data 1
  let fourth ← byteAt data 3
  let fifth ← byteAt data 4
  let sixth ← byteAt data 5
  verify asserts (first = 0xFF ∧ second &&& 0xF0 = 0xF0)
  return (((fourth &&& 0x03).toNat <<< 11 ||| fifth.toNat <<< 3 |||
    ((sixth >>> 5) &&& 0x07).toNat : Nat) : Int)

theorem loadPce_eq (asserts : Bool) (aac : Mpeg4Aac) {stream : Bits} (nonempty : 0 < stream.size)
    (size : 0 < aac.pce.length) :
    ∃ head after, Loaded aac.ps ⟨stream, mpeg4BitsInit aac.pce⟩ head after ∧
      loadPce asserts aac stream =
        if asserts = true ∧ ¬Matches aac head then .error .assertion
        else .ok (after, { aac with
          channels := UInt8.ofNat head.channels
          pce := after.dst.data
          npce := ((after.dst.bits + 7) / 8 : Nat) }) := by
  have ready : Ready ⟨stream, mpeg4BitsInit aac.pce⟩ := ⟨nonempty, size⟩
  obtain ⟨head, after, loaded, program⟩ := mpeg4AacPceLoad_eq asserts aac ready
  refine ⟨head, after, loaded, ?_⟩
  unfold loadPce
  rw [program]
  split
  · rfl
  · rfl

theorem mpeg4BitsReadN_returns {stream : Bits} {n : Nat} (nonempty : 0 < stream.size)
    (width : 0 < n ∧ n ≤ 64) :
    ∃ value after, mpeg4BitsReadN n stream = .ok (value, after) ∧ 0 < after.size := by
  rcases Nat.lt_or_ge (8 * stream.size) (stream.bits + n) with beyond | fits
  · exact ⟨_, _, mpeg4BitsReadN_end nonempty width beyond, nonempty⟩
  · obtain ⟨value, read, -⟩ := mpeg4BitsReadN_fits width fits
    exact ⟨value, _, read, nonempty⟩

/-! ## Headers -/

section Headers

variable {profile index configuration : UInt8}

theorem verifyFields_eq (asserts : Bool) (first : 0 < profile ∧ profile < 31)
    (second : configuration ≤ 7) (third : index ≤ 0xc) :
    verifyFields asserts profile index configuration = .ok () := by
  unfold verifyFields verify
  rw [check_eq first, check_eq second, check_eq third]
  cases asserts <;> rfl

theorem frameLength_bits {len : Nat} (small : len < 2 ^ 13) :
    ((len >>> 11) &&& 0x03) <<< 11 ||| (UInt8.ofNat (len >>> 3)).toNat <<< 3 |||
      ((UInt8.ofNat ((len &&& 0x07) <<< 5) ||| 0x1F) >>> 5 &&& 0x07).toNat = len := by
  have low : ∀ rest < 8, ((UInt8.ofNat (rest <<< 5) ||| 0x1F) >>> 5 &&& 0x07).toNat = rest := by
    decide
  have high : (len >>> 11) &&& 0x03 = len / 2048 := by
    rw [Nat.shiftRight_eq_div_pow, Nat.and_two_pow_sub_one_eq_mod (n := 2)]
    omega
  have last : len &&& 0x07 = len % 8 := Nat.and_two_pow_sub_one_eq_mod len 3
  have middle : (UInt8.ofNat (len >>> 3)).toNat = len / 8 % 256 := by
    rw [UInt8.toNat_ofNat', Nat.shiftRight_eq_div_pow]
  rw [high, middle, last, low _ (Nat.mod_lt _ (by decide)), Nat.or_assoc,
    ← Nat.shiftLeft_add_eq_or_of_lt (show len % 8 < 2 ^ 3 by omega),
    ← Nat.shiftLeft_add_eq_or_of_lt (by rw [Nat.shiftLeft_eq]; omega), Nat.shiftLeft_eq,
    Nat.shiftLeft_eq]
  omega

theorem third_fields_ofNat : ∀ profile < 4, ∀ index < 13, ∀ configuration < 8,
    let third := ((UInt8.ofNat (profile + 1) - 1) <<< 6) ||| ((UInt8.ofNat index &&& 0x0F) <<< 2) |||
      ((UInt8.ofNat configuration >>> 2) &&& 0x01)
    ((third >>> 6) &&& 0x03) + 1 = UInt8.ofNat (profile + 1) ∧
      (third >>> 2) &&& 0x0F = UInt8.ofNat index ∧
      ((third &&& 0x01) <<< 2) ||| (UInt8.ofNat configuration &&& 0x03) =
        UInt8.ofNat configuration := by
  decide +kernel

theorem third_fields (first : 0 < profile ∧ profile ≤ 4) (second : index ≤ 12)
    (third : configuration ≤ 7) :
    let byte := ((profile - 1) <<< 6) ||| ((index &&& 0x0F) <<< 2) ||| ((configuration >>> 2) &&& 0x01)
    ((byte >>> 6) &&& 0x03) + 1 = profile ∧ (byte >>> 2) &&& 0x0F = index ∧
      ((byte &&& 0x01) <<< 2) ||| (configuration &&& 0x03) = configuration := by
  have positive : 0 < profile.toNat := UInt8.lt_iff_toNat_lt.mp first.1
  have bound : profile.toNat ≤ 4 := UInt8.le_iff_toNat_le.mp first.2
  have indexBound : index.toNat ≤ 12 := UInt8.le_iff_toNat_le.mp second
  have configurationBound : configuration.toNat ≤ 7 := UInt8.le_iff_toNat_le.mp third
  have all := third_fields_ofNat (profile.toNat - 1) (by omega) index.toNat (by omega)
    configuration.toNat (by omega)
  rw [Nat.sub_add_cancel positive, UInt8.ofNat_toNat, UInt8.ofNat_toNat, UInt8.ofNat_toNat] at all
  exact all

theorem fourth_fields_ofNat : ∀ configuration < 8, ∀ top < 4,
    (((UInt8.ofNat configuration &&& 0x03) <<< 6 ||| UInt8.ofNat top) &&& 0x03).toNat = top ∧
      (((UInt8.ofNat configuration &&& 0x03) <<< 6 ||| UInt8.ofNat top) >>> 6) &&& 0x03 =
        UInt8.ofNat configuration &&& 0x03 := by
  decide

theorem fourth_fields (third : configuration ≤ 7) (len : Nat) :
    (((configuration &&& 0x03) <<< 6 ||| UInt8.ofNat ((len >>> 11) &&& 0x03)) &&& 0x03).toNat =
        (len >>> 11) &&& 0x03 ∧
      (((configuration &&& 0x03) <<< 6 ||| UInt8.ofNat ((len >>> 11) &&& 0x03)) >>> 6) &&& 0x03 =
        configuration &&& 0x03 := by
  have bound : configuration.toNat ≤ 7 := UInt8.le_iff_toNat_le.mp third
  have top : (len >>> 11) &&& 0x03 < 4 :=
    Nat.lt_of_le_of_lt Nat.and_le_right (by decide)
  have all := fourth_fields_ofNat configuration.toNat (by omega) _ top
  rw [UInt8.ofNat_toNat] at all
  exact all

end Headers

end CLibs.Aac

/-!
## When an ADTS header comes back

A saved header is loaded again if it has no program config element and the frame is shorter than
`2 ^ 12` bytes, although the field for its length has 13 bits.  A header with an element never is:
its seven bytes are counted twice.
-/

namespace CLibs.Aac

open BitStrings BitStreams BitSyntax List

/-! ## Plain headers -/

section Plain

variable {profile index configuration : UInt8} {len : Nat}

theorem header_frameLength (asserts : Bool) (third : configuration ≤ 7) (small : len < 2 ^ 13)
    (rest : List UInt8) :
    mpeg4AacAdtsFrameLength asserts (adtsHeader profile index configuration len ++ rest) =
      .ok len := by
  have long : ¬(adtsHeader profile index configuration len ++ rest).length < 7 := by
    simp [adtsHeader]
  have synced : verify asserts ((0xFF : UInt8) = 0xFF ∧
      ((0xF0 : UInt8) ||| 0x01) &&& 0xF0 = 0xF0) = .ok () := by
    cases asserts <;> rfl
  have value := frameLength_bits small
  rw [mpeg4AacAdtsFrameLength, if_neg long]
  change (do
    verify asserts ((0xFF : UInt8) = 0xFF ∧ ((0xF0 : UInt8) ||| 0x01) &&& 0xF0 = 0xF0)
    return (((((configuration &&& 0x03) <<< 6 ||| UInt8.ofNat ((len >>> 11) &&& 0x03)) &&&
        0x03).toNat <<< 11 ||| (UInt8.ofNat (len >>> 3)).toNat <<< 3 |||
      (((UInt8.ofNat ((len &&& 0x07) <<< 5) ||| 0x1F) >>> 5) &&& 0x07).toNat : Nat) : Int)) = _
  rw [synced, ok_bind, (fourth_fields third len).1, value]
  rfl

theorem header_load (asserts : Bool) (first : 0 < profile ∧ profile ≤ 4) (second : index ≤ 12)
    (third : configuration ≤ 7) (rest : List UInt8) (aac : Mpeg4Aac) :
    mpeg4AacAdtsLoad asserts (adtsHeader profile index configuration len ++ rest) aac =
      let loaded := { Mpeg4Aac.zero with
        profile := profile
        samplingFrequencyIndex := index
        channelConfiguration := configuration
        channels := configuration
        samplingFrequency := mpeg4AacAudioFrequencyTo index }
      if configuration = 0 then
        mpeg4AacAdtsPceLoad asserts (adtsHeader profile index configuration len ++ rest) loaded
      else .ok (7, loaded) := by
  have long : ¬(adtsHeader profile index configuration len ++ rest).length < 7 := by
    simp [adtsHeader]
  have synced : verify asserts ((0xFF : UInt8) = 0xFF ∧
      ((0xF0 : UInt8) ||| 0x01) &&& 0xF0 = 0xF0) = .ok () := by
    cases asserts <;> rfl
  obtain ⟨profileSame, indexSame, configurationSame⟩ := third_fields first second third
  have low := (fourth_fields third len).2
  have below : profile < 31 := by
    have bound := UInt8.le_iff_toNat_le.mp first.2
    exact UInt8.lt_iff_toNat_lt.mpr (Nat.lt_of_le_of_lt bound (by decide))
  have verified := verifyFields_eq asserts ⟨first.1, below⟩ third second
  rw [mpeg4AacAdtsLoad, if_neg long]
  change (do
    verify asserts ((0xFF : UInt8) = 0xFF ∧ ((0xF0 : UInt8) ||| 0x01) &&& 0xF0 = 0xF0)
    let byte := ((profile - 1) <<< 6) ||| ((index &&& 0x0F) <<< 2) |||
      ((configuration >>> 2) &&& 0x01)
    let found := ((byte &&& 0x01) <<< 2) ||| ((((configuration &&& 0x03) <<< 6 |||
      UInt8.ofNat ((len >>> 11) &&& 0x03)) >>> 6) &&& 0x03)
    verifyFields asserts (((byte >>> 6) &&& 0x03) + 1) ((byte >>> 2) &&& 0x0F) found
    let loaded := { Mpeg4Aac.zero with
      profile := ((byte >>> 6) &&& 0x03) + 1
      samplingFrequencyIndex := (byte >>> 2) &&& 0x0F
      channelConfiguration := found
      channels := found
      samplingFrequency := mpeg4AacAudioFrequencyTo ((byte >>> 2) &&& 0x0F) }
    if found = 0 then
      mpeg4AacAdtsPceLoad asserts (adtsHeader profile index configuration len ++ rest) loaded
    else return (7, loaded)) = _
  rw [synced, ok_bind]
  dsimp only at profileSame indexSame configurationSame ⊢
  rw [low, configurationSame, profileSame, indexSame, verified, ok_bind]
  rfl

end Plain

theorem adtsHeader_length (profile index configuration : UInt8) (len : Nat) :
    (adtsHeader profile index configuration len).length = 7 := rfl

/-! ## Headers with an element -/

/-- A program config element that agrees with the fields of the handle. -/
structure StoredPce (aac : Mpeg4Aac) : Prop where
  positive : 0 < aac.npce
  fits : aac.npce ≤ 64
  size : aac.pce.length = 64
  element : ∃ element, programConfigElement aac.ps (bits (aac.pce.take aac.npce.toNat)) =
      some element ∧ element.rest = [] ∧
    element.head.samplingFrequencyIndex = aac.samplingFrequencyIndex.toNat ∧
    element.head.objectType + 1 = aac.profile.toNat

theorem pceHead_prefixing (ps : Int) : Prefixing (pceHead field ps) :=
  @pceHead_related Reader Reader _ _ prefixes field field (fun count _ => prefixing_field count) ps

theorem pceComment_prefixing : Prefixing (pceComment field) :=
  @pceComment_related Reader Reader _ _ prefixes field field fun count _ => prefixing_field count

theorem programConfigElement_split {ps : Int} {sequence : List Bool} {element : Element}
    (found : programConfigElement ps sequence = some element) :
    ∃ gap, sequence = element.front ++ (gap ++ (element.comment ++ element.rest)) ∧
      gap.length = (gap ++ (element.comment ++ element.rest)).length % 8 ∧
      (∀ more, pceHead field ps (element.front ++ more) = some (element.head, more)) ∧
      ∀ more, pceComment field (element.comment ++ more) = some (⟨⟩, more) := by
  unfold programConfigElement at found
  cases first : pceHead field ps sequence with
  | none =>
    rw [first] at found
    cases found
  | some pair =>
    obtain ⟨head, behind⟩ := pair
    rw [first, Option.bind_eq_bind, Option.bind_some] at found
    dsimp only at found
    cases second : pceComment field (behind.drop (behind.length % 8)) with
    | none =>
      rw [second] at found
      cases found
    | some pair =>
      obtain ⟨nothing, rest⟩ := pair
      rw [second] at found
      cases found
      obtain ⟨used, split, again⟩ := pceHead_prefixing ps _ _ _ first
      obtain ⟨more, tail, repeated⟩ := pceComment_prefixing _ _ _ second
      have front : sequence.take (sequence.length - behind.length) = used := by
        rw [split]
        simp
      have comment : (behind.drop (behind.length % 8)).take
          ((behind.drop (behind.length % 8)).length - rest.length) = more := by
        rw [tail]
        simp
      have whole : behind.take (behind.length % 8) ++ (more ++ rest) = behind := by
        rw [← tail, take_append_drop]
      dsimp only
      rw [front, comment]
      refine ⟨behind.take (behind.length % 8), ?_, ?_, again, repeated⟩
      · rw [whole, split]
      · rw [whole, length_take_of_le (Nat.mod_le _ _)]

theorem programConfigElement_length {ps : Int} {sequence : List Bool} {element : Element}
    (found : programConfigElement ps sequence = some element) (whole : 8 ∣ sequence.length) :
    element.text.length + element.rest.length = sequence.length := by
  obtain ⟨gap, split, aligned, -, -⟩ := programConfigElement_split found
  have length := congrArg List.length split
  rw [Element.text_length]
  simp only [length_append] at length aligned
  omega

theorem adtsPceSave_long (asserts : Bool) {aac : Mpeg4Aac} (stored : StoredPce aac)
    {out : List UInt8} (room : 8 + aac.npce.toNat ≤ out.length) {count : Nat} {after : List UInt8}
    (saved : mpeg4AacAdtsPceSave asserts out aac = .ok (count, after)) :
    7 + aac.npce.toNat ≤ count := by
  obtain ⟨element, found, ended, -, -⟩ := stored.element
  have positive := stored.positive
  have fits := stored.fits
  have size := stored.size
  have length : (aac.pce.take aac.npce.toNat).length = aac.npce.toNat := by
    rw [length_take_of_le]
    omega
  have bitLength : (bits (aac.pce.take aac.npce.toNat)).length = 8 * aac.npce.toNat := by
    rw [length_bits, length]
  have text := programConfigElement_length found (by rw [bitLength]; exact Nat.dvd_mul_right _ _)
  rw [ended, length_nil, Nat.add_zero, bitLength, Element.text_length] at text
  have dstSize : (mpeg4BitsInit (out.drop 7)).size = out.length - 7 := by
    simp [mpeg4BitsInit, bitsInit, Bits.size]
  obtain ⟨adts, result, wrote, adtsSize, moved, -⟩ := @mpeg4BitsWriteN_fits
    (mpeg4BitsInit (out.drop 7)) 3 idPce (by decide) (by
      rw [dstSize]
      change 0 + 3 ≤ _
      omega)
  have three : adts.bits = 3 := moved
  have ready : Ready ⟨mpeg4BitsInit (aac.pce.take aac.npce.toNat), adts⟩ := by
    constructor
    · change 0 < (aac.pce.take aac.npce.toNat).length
      omega
    · change 0 < adts.size
      rw [adtsSize, dstSize]
      omega
  obtain ⟨head, streams, loaded, program⟩ := mpeg4AacPceLoad_eq asserts aac ready
  obtain ⟨-, calm, -, offset, -⟩ := loaded.taken element found
  have reached := offset (by
    change (adts.bits + element.front.length + 7) / 8 * 8 + _ ≤ 8 * adts.size
    rw [three, adtsSize, dstSize]
    omega)
  change streams.dst.bits =
    (adts.bits + element.front.length + 7) / 8 * 8 + element.comment.length at reached
  rw [three] at reached
  rw [mpeg4AacAdtsPceSave, if_neg (by omega), if_neg (by omega)] at saved
  dsimp only at saved
  rw [wrote, ok_bind] at saved
  dsimp only at saved
  rw [program] at saved
  split at saved
  case isTrue => cases saved
  case isFalse =>
    rw [ok_bind] at saved
    dsimp only at saved
    cases channels : verify asserts (UInt8.ofNat head.channels = aac.channels) with
    | error fault =>
      rw [channels] at saved
      cases saved
    | ok =>
      rw [channels, ok_bind] at saved
      have sound : mpeg4BitsError streams.src = 0 := calm
      rw [if_neg (fun failed => failed sound)] at saved
      cases saved
      omega

theorem adtsPceLoad_result (asserts : Bool) {data : List UInt8} {aac after : Mpeg4Aac} {result : Int}
    (size : aac.pce.length = 64)
    (loaded : mpeg4AacAdtsPceLoad asserts data aac = .ok (result, after)) :
    (after.npce = aac.npce ∧ ∃ second seventh, byteAt data 1 = .ok second ∧
        byteAt data 6 = .ok seventh ∧ (result = adtsOffset second seventh ∨ result = 7)) ∨
      result = -1 ∨ result = 7 + after.npce := by
  unfold mpeg4AacAdtsPceLoad at loaded
  cases one : byteAt data 1 with
  | error fault =>
    rw [one] at loaded
    cases loaded
  | ok second =>
  cases two : byteAt data 6 with
  | error fault =>
    rw [one, ok_bind, two] at loaded
    cases loaded
  | ok seventh =>
    rw [one, ok_bind, two, ok_bind] at loaded
    dsimp only at loaded
    split at loaded
    case isTrue =>
      cases loaded
      exact .inl ⟨rfl, second, seventh, rfl, rfl, .inl rfl⟩
    case isFalse more =>
      have nonempty : 0 < (mpeg4BitsInit (data.drop (adtsOffset second seventh))).size := by
        change 0 < (data.drop (adtsOffset second seventh)).length
        rw [length_drop]
        omega
      obtain ⟨_, adts, read, kept⟩ :=
        mpeg4BitsReadN_returns nonempty (show 0 < 3 ∧ 3 ≤ 64 by decide)
      rw [read, ok_bind] at loaded
      dsimp only at loaded
      split at loaded
      case isFalse =>
        cases loaded
        exact .inl ⟨rfl, second, seventh, rfl, rfl, .inr rfl⟩
      case isTrue =>
        obtain ⟨head, streams, -, program⟩ := loadPce_eq asserts aac kept (by omega)
        rw [program] at loaded
        split at loaded
        case isTrue => cases loaded
        case isFalse =>
          rw [ok_bind] at loaded
          dsimp only at loaded
          split at loaded
          · cases loaded
            exact .inr (.inl rfl)
          · cases loaded
            exact .inr (.inr (by push_cast; rfl))

/-! ## The round trip -/

section RoundTrip

variable {aac : Mpeg4Aac} {payload out : List UInt8}

/-- A handle, a payload and an output that a frame can be made of. -/
structure Frames (aac : Mpeg4Aac) (payload out : List UInt8) : Prop where
  profile : 0 < aac.profile ∧ aac.profile ≤ 4
  index : aac.samplingFrequencyIndex ≤ 12
  configuration : aac.channelConfiguration ≤ 7
  element : aac.channelConfiguration = 0 → StoredPce aac
  total : 7 + (if aac.channelConfiguration = 0 then aac.npce.toNat else 0) + payload.length ≤ 8191
  room : 7 + (if aac.channelConfiguration = 0 then aac.npce.toNat + 1 else 0) ≤ out.length

/-- The header that is saved has the length of the frame, and loading it brings the fields back. -/
def AdtsRoundTrips (asserts : Bool) (aac : Mpeg4Aac) (payload out : List UInt8)
    (old : Mpeg4Aac) : Prop :=
  ∃ length after, mpeg4AacAdtsSave asserts aac payload.length out = .ok (length, after) ∧
    0 ≤ length ∧
    mpeg4AacAdtsFrameLength asserts after = .ok (length + payload.length) ∧
    ∃ loaded, mpeg4AacAdtsLoad asserts (after.take length.toNat ++ payload) old =
        .ok (length, loaded) ∧
      loaded.profile = aac.profile ∧
      loaded.samplingFrequencyIndex = aac.samplingFrequencyIndex ∧
      loaded.channelConfiguration = aac.channelConfiguration ∧
      loaded.channels = aac.channels ∧ loaded.npce = aac.npce ∧
      loaded.pce.take aac.npce.toNat = aac.pce.take aac.npce.toNat

theorem Frames.verified (frames : Frames aac payload out) (asserts : Bool) :
    verifyFields asserts aac.profile aac.samplingFrequencyIndex aac.channelConfiguration =
      .ok () := by
  have bound := UInt8.le_iff_toNat_le.mp frames.profile.2
  exact verifyFields_eq asserts ⟨frames.profile.1,
    UInt8.lt_iff_toNat_lt.mpr (Nat.lt_of_le_of_lt bound (by decide))⟩ frames.configuration
    frames.index

theorem Frames.plain_save (frames : Frames aac payload out) (asserts : Bool)
    (plain : aac.channelConfiguration ≠ 0) (small : payload.length + 7 < 2 ^ 12) :
    mpeg4AacAdtsSave asserts aac payload.length out = .ok (7, adtsHeader aac.profile
      aac.samplingFrequencyIndex aac.channelConfiguration (payload.length + 7) ++ out.drop 7) := by
  have room := frames.room
  have seven : ((payload.length + 7 - payload.length : Nat) : Int) = 7 := by
    rw [Nat.add_sub_cancel_left]
    rfl
  unfold mpeg4AacAdtsSave
  dsimp only
  rw [if_neg (by omega), if_neg (fun both => plain both.1)]
  change (do
    verifyFields asserts aac.profile aac.samplingFrequencyIndex aac.channelConfiguration
    return (((payload.length + 7 - payload.length : Nat) : Int), adtsHeader aac.profile
      aac.samplingFrequencyIndex aac.channelConfiguration (payload.length + 7) ++ out.drop 7)) = _
  rw [frames.verified asserts, ok_bind, seven]
  rfl

theorem Frames.element_save (frames : Frames aac payload out) (asserts : Bool)
    (element : aac.channelConfiguration = 0) {length : Int} {after : List UInt8}
    (saved : mpeg4AacAdtsSave asserts aac payload.length out = .ok (length, after))
    (success : 0 ≤ length) :
    14 + aac.npce ≤ length ∧ ∃ len, after = adtsHeader aac.profile
      aac.samplingFrequencyIndex aac.channelConfiguration len ++ after.drop 7 := by
  have room := frames.room
  have stored := frames.element element
  have positive := stored.positive
  rw [if_pos element] at room
  unfold mpeg4AacAdtsSave at saved
  dsimp only at saved
  split at saved
  case isTrue =>
    cases saved
    exact absurd success (by decide)
  case isFalse =>
    rw [if_pos ⟨element, positive⟩] at saved
    cases wrote : mpeg4AacAdtsPceSave asserts out aac with
    | error fault =>
      rw [wrote] at saved
      cases saved
    | ok pair =>
      obtain ⟨count, behind⟩ := pair
      have long := adtsPceSave_long asserts stored (by omega) wrote
      rw [wrote, ok_bind] at saved
      change (do
        verifyFields asserts aac.profile aac.samplingFrequencyIndex aac.channelConfiguration
        return (((payload.length + 7 + count - payload.length : Nat) : Int),
          adtsHeader aac.profile aac.samplingFrequencyIndex aac.channelConfiguration
            (payload.length + 7 + count) ++ behind.drop 7)) = _ at saved
      rw [frames.verified asserts, ok_bind] at saved
      cases saved
      refine ⟨by omega, payload.length + 7 + count, ?_⟩
      rw [drop_left' (adtsHeader_length _ _ _ _)]

/-- A header comes back exactly if it has no program config element, the frame is shorter than
`2 ^ 12` bytes, and the handle has the channels of its configuration and no element left in it. -/
theorem adts_round_trip_iff (asserts : Bool) (frames : Frames aac payload out) (old : Mpeg4Aac) :
    AdtsRoundTrips asserts aac payload out old ↔
      aac.channelConfiguration ≠ 0 ∧ payload.length + 7 < 2 ^ 12 ∧
        aac.channels = aac.channelConfiguration ∧ aac.npce = 0 := by
  constructor
  · rintro ⟨length, after, saved, success, -, loaded, load, -, -, -, channels, npce, -⟩
    by_cases element : aac.channelConfiguration = 0
    · obtain ⟨long, len, split⟩ := frames.element_save asserts element saved success
      have positive := (frames.element element).positive
      have enough : 7 ≤ length.toNat := by omega
      have header := @header_load _ _ _ len asserts frames.profile frames.index
        frames.configuration ((after.drop 7).take (length.toNat - 7) ++ payload) old
      have text : after.take length.toNat ++ payload = adtsHeader aac.profile
          aac.samplingFrequencyIndex aac.channelConfiguration len ++
            ((after.drop 7).take (length.toNat - 7) ++ payload) := by
        conv_lhs => rw [split]
        rw [take_append, take_of_length_le (by rw [adtsHeader_length]; exact enough),
          adtsHeader_length, append_assoc]
      rw [text, header] at load
      dsimp only at load
      rw [if_pos element] at load
      rcases adtsPceLoad_result asserts (by rfl) load with
        ⟨-, second, seventh, one, -, offset | seven⟩ | failed | counted
      · cases one
        rw [offset] at long
        change 14 + aac.npce ≤ 7 at long
        omega
      · omega
      · omega
      · omega
    · by_cases small : payload.length + 7 < 2 ^ 12
      · rw [frames.plain_save asserts element small] at saved
        cases saved
        have header := @header_load _ _ _ (payload.length + 7) asserts frames.profile frames.index
          frames.configuration payload old
        have text : (adtsHeader aac.profile aac.samplingFrequencyIndex aac.channelConfiguration
            (payload.length + 7) ++ out.drop 7).take (7 : Int).toNat = adtsHeader aac.profile
            aac.samplingFrequencyIndex aac.channelConfiguration (payload.length + 7) := rfl
        rw [text, header] at load
        dsimp only at load
        rw [if_neg element] at load
        cases load
        exact ⟨element, small, channels.symm, npce.symm⟩
      · unfold mpeg4AacAdtsSave at saved
        dsimp only at saved
        rw [if_pos (.inr (by omega))] at saved
        cases saved
        exact absurd success (by decide)
  · rintro ⟨plain, small, channels, npce⟩
    have header := @header_load _ _ _ (payload.length + 7) asserts frames.profile frames.index
      frames.configuration payload old
    have text : (adtsHeader aac.profile aac.samplingFrequencyIndex aac.channelConfiguration
        (payload.length + 7) ++ out.drop 7).take (7 : Int).toNat = adtsHeader aac.profile
        aac.samplingFrequencyIndex aac.channelConfiguration (payload.length + 7) := rfl
    refine ⟨7, _, frames.plain_save asserts plain small, by decide, ?_, ?_⟩
    · rw [header_frameLength asserts frames.configuration (by omega)]
      push_cast
      rw [Int.add_comm]
    · rw [text, header]
      dsimp only
      rw [if_neg plain]
      refine ⟨_, rfl, rfl, rfl, rfl, channels.symm, npce.symm, ?_⟩
      rw [npce]
      rfl

/-- A stereo handle, as a plain header gives it. -/
def stereo : Mpeg4Aac :=
  { Mpeg4Aac.zero with
    profile := 2
    samplingFrequencyIndex := 4
    channelConfiguration := 2
    channels := 2
    samplingFrequency := 44100 }

theorem stereo_frames {payload : List UInt8} (short : 7 + payload.length ≤ 8191) :
    Frames stereo payload (List.replicate 7 0) :=
  ⟨by decide, by decide, by decide, fun none => absurd none (by decide), short, by decide⟩

/-- A stereo frame of three bytes. -/
theorem adts_round_trip_stereo :
    Frames stereo [1, 2, 3] (List.replicate 7 0) ∧
      AdtsRoundTrips true stereo [1, 2, 3] (List.replicate 7 0) stereo :=
  have frames := stereo_frames (by decide)
  ⟨frames, (adts_round_trip_iff true frames stereo).mpr (by decide)⟩

/-- A stereo frame of `2 ^ 12` bytes has no header. -/
theorem adts_save_refuses :
    ¬∀ aac payload out, Frames aac payload out → ∀ old,
      AdtsRoundTrips true aac payload out old := by
  intro all
  have length : (List.replicate 4089 (0 : UInt8)).length = 4089 := length_replicate
  obtain ⟨count, after, saved, success, -⟩ := all stereo (List.replicate 4089 0) _
    (stereo_frames (by rw [length]; decide)) stereo
  unfold mpeg4AacAdtsSave at saved
  dsimp only at saved
  rw [if_pos (.inr (by rw [length]; decide))] at saved
  cases saved
  exact absurd success (by decide)

end RoundTrip

end CLibs.Aac
