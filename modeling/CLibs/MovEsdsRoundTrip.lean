import CLibs.MovEsds

/-!
# The `esds` box is read back

Every descriptor is read to its end, so the skip behind it moves nothing and the walk goes on where
the writer began the next one.
-/

namespace CLibs.Mov

open List

/-! ## Reading a length -/

def fieldValue (field : List UInt8) : Nat :=
  field.foldl (fun value byte => value * 128 + byte.toNat % 128) 0

theorem marked_low (value : Nat) : (0x80 ||| value) % 256 &&& 0x7F = value % 128 := by
  have low := Nat.and_two_pow_sub_one_eq_mod ((0x80 ||| value) % 256) 7
  have mixed : (0x80 ||| value) % 2 ^ 7 = 0x80 % 2 ^ 7 ||| value % 2 ^ 7 := Nat.or_mod_two_pow
  rw [show 0x80 % 2 ^ 7 = 0 from rfl, Nat.zero_or] at mixed
  change (0x80 ||| value) % 256 &&& 2 ^ 7 - 1 = value % 128
  rw [low]
  omega

theorem marked_high (value : Nat) : (0x80 ||| value) % 256 &&& 0x80 ≠ 0 := by
  intro zero
  have bit : ((0x80 ||| value) % 2 ^ 8 &&& 0x80).testBit 7 = true := by
    have mark : Nat.testBit 0x80 7 = true := by decide
    rw [Nat.testBit_and, Nat.testBit_mod_two_pow, Nat.testBit_or]
    simp [mark]
  change (0x80 ||| value) % 2 ^ 8 &&& 0x80 = 0 at zero
  rw [zero] at bit
  simp at bit

theorem last_low (value : Nat) : (0x7F &&& value) % 256 = value % 128 := by
  have low := Nat.and_two_pow_sub_one_eq_mod value 7
  rw [Nat.and_comm] at low
  change (2 ^ 7 - 1 &&& value) % 256 = value % 128
  omega

theorem last_again (value : Nat) : (0x7F &&& value) % 256 &&& 0x7F = value % 128 := by
  have low := Nat.and_two_pow_sub_one_eq_mod ((0x7F &&& value) % 256) 7
  have last := last_low value
  change (0x7F &&& value) % 256 &&& 2 ^ 7 - 1 = value % 128
  omega

theorem sevenBits_or (value low : Nat) (small : low < 128) :
    value <<< 7 ||| low = value * 128 + low := by
  have joined := Nat.shiftLeft_add_eq_or_of_lt (i := 7) small value
  rw [← joined, Nat.shiftLeft_eq]

variable {len : Nat}

theorem sevenBits_join (short : len < 2 ^ 28) :
    (((len >>> 21) % 128 * 128 + (len >>> 14) % 128) * 128 + (len >>> 7) % 128) * 128 + len % 128 =
      len := by
  simp only [Nat.shiftRight_eq_div_pow]
  omega

theorem fieldValue_lengthField (short : len < 2 ^ 28) :
    fieldValue (lengthField len) = len := by
  have byte (value : Nat) : (UInt8.ofNat value).toNat % 128 = value % 128 := by
    rw [UInt8.toNat_ofNat']
    omega
  have marked (value : Nat) : (0x80 ||| value) % 128 = value % 128 := by
    have mixed : (0x80 ||| value) % 2 ^ 7 = 0x80 % 2 ^ 7 ||| value % 2 ^ 7 := Nat.or_mod_two_pow
    rwa [show 0x80 % 2 ^ 7 = 0 from rfl, Nat.zero_or] at mixed
  have last : (0x7F &&& len) % 128 = len % 128 := by
    have low := last_low len
    omega
  simp only [fieldValue, lengthField, bigEndian, nil_append, cons_append, foldl_cons,
    foldl_nil, byte, marked, last, Nat.zero_mul, Nat.zero_add, sevenBits_join short]

section Reading

variable {file : ByteFile} {rest : List UInt8}

variable {bytes : Int}

theorem readLength_marked {left i c value : Nat} (inside : (i : Int) + 1 < bytes)
    (marked : c &&& 0x80 ≠ 0) (ahead : file.Ahead (bigEndian 1 value ++ rest)) :
    readLength bytes (left + 1) i c len file =
      readLength bytes left (i + 1) (value % 256) ((len <<< 7) ||| (value % 256 &&& 0x7F))
        (file.skip 1) := by
  have read := (reads_mod r8_reads ahead).1
  rw [Nat.pow_one] at read
  have byte : (r8 file).1 = value % 256 := congrArg Prod.fst read
  have behind : (r8 file).2 = file.skip 1 := congrArg Prod.snd read
  rw [readLength, if_pos ⟨inside, marked⟩]
  dsimp only
  rw [byte, behind]

theorem readLength_eq (inside : 4 < bytes) (short : len < 2 ^ 28)
    (ahead : file.Ahead (lengthField len ++ rest)) :
    readLength bytes 4 0 0x80 0 file = (4, len, file.skip 4) ∧ (file.skip 4).Ahead rest := by
  simp only [lengthField, append_assoc] at ahead
  have behind := (reads_mod r8_reads ahead).2
  have behindTwo := (reads_mod r8_reads behind).2
  have behindThree := (reads_mod r8_reads behindTwo).2
  have behindFour := (reads_mod r8_reads behindThree).2
  have small (value : Nat) : value % 128 < 128 := Nat.mod_lt _ (by decide)
  constructor
  · rw [readLength_marked (by omega) (by decide) ahead,
      readLength_marked (by omega) (marked_high _) behind,
      readLength_marked (by omega) (marked_high _) behindTwo,
      readLength_marked (by omega) (marked_high _) behindThree]
    simp only [marked_low, last_again, readLength]
    rw [sevenBits_or _ _ (small _), sevenBits_or _ _ (small _), sevenBits_or _ _ (small _),
      sevenBits_or _ _ (small _)]
    simp only [Nat.zero_mul, Nat.zero_add, sevenBits_join short]
    rfl
  · exact behindFour

theorem movReadBaseDescr_eq {tag : Nat} (inside : 4 < bytes) (byte : tag < 256)
    (short : len < 2 ^ 28) (ahead : file.Ahead (bigEndian 1 tag ++ (lengthField len ++ rest))) :
    movReadBaseDescr file bytes = (⟨tag, len, 5⟩, file.skip 5) ∧ (file.skip 5).Ahead rest := by
  obtain ⟨first, behind⟩ := r8_reads.bigEndian byte ahead
  obtain ⟨length, last⟩ := readLength_eq inside short behind
  constructor
  · unfold movReadBaseDescr
    rw [first]
    dsimp only
    rw [length]
    rfl
  · exact last

theorem sub64_eq {value other : Nat} (below : other ≤ value) (small : value < 2 ^ 64) :
    sub64 value other = value - other := by
  unfold sub64
  omega

theorem movBufferSkip_zero (ahead : file.Ahead rest) (addressed : file.position < 2 ^ 64) :
    movBufferSkip file 0 = file := by
  unfold movBufferSkip
  rw [if_neg (by simp [ahead.error]), Nat.add_zero, Nat.mod_eq_of_lt addressed, if_pos ahead.inside]

variable {leftover : Nat → List UInt8} {fuel : Nat} {entry found : EsdsEntry}

theorem readTag_end {offset bytes : Nat} {reader : EsdsReader} (done : bytes ≤ offset) :
    mp4ReadTagFrom leftover (fuel + 1) offset bytes reader = .ok reader := by
  rw [mp4ReadTagFrom, if_neg (Nat.not_lt.mpr done)]

variable {body : List UInt8}

theorem ahead_body {tag : Nat} (ahead : file.Ahead (descriptor tag body ++ rest)) :
    (file.skip 5).Ahead (body ++ rest) := by
  have text : descriptor tag body ++ rest =
      (bigEndian 1 tag ++ lengthField body.length) ++ (body ++ rest) := by
    simp only [descriptor, append_assoc]
  rw [text] at ahead
  have behind := ahead.skip
  rwa [length_append, bigEndian_length, lengthField_length] at behind

theorem readTag_descriptor {tag offset bytes : Nat} (byte : tag < 256)
    (fits : offset + (5 + body.length) ≤ bytes) (short : bytes < 2 ^ 28)
    (addressed : file.position + (5 + body.length) < 2 ^ 64)
    (ahead : file.Ahead (descriptor tag body ++ rest))
    (handled : readBody leftover (fun bytes reader => mp4ReadTagFrom leftover fuel 0 bytes reader)
      tag body.length ⟨entry, file.skip 5⟩ = .ok ⟨found, file.skip (5 + body.length)⟩) :
    mp4ReadTagFrom leftover (fuel + 1) offset bytes ⟨entry, file⟩ =
      mp4ReadTagFrom leftover fuel (offset + (5 + body.length)) bytes
        ⟨found, file.skip (5 + body.length)⟩ := by
  have behind := ahead.skip
  rw [descriptor_length] at behind
  rw [descriptor_eq, append_assoc, append_assoc] at ahead
  have left : 4 < int32 (sub64 bytes offset) := by
    rw [sub64_eq (by omega) (by omega)]
    unfold int32
    rw [Int.bmod_eq_of_le] <;> omega
  obtain ⟨header, -⟩ := movReadBaseDescr_eq left byte (by omega) ahead
  have moved : sub64 (file.skip (5 + body.length)).position (file.skip 5).position = body.length := by
    rw [sub64_eq]
    · simp only [ByteFile.skip]
      omega
    · simp only [ByteFile.skip]
      omega
    · exact addressed
  rw [mp4ReadTagFrom, if_pos (by omega)]
  unfold readDescriptor
  rw [header]
  dsimp only
  rw [if_neg (by omega), handled, ok_bind, moved, sub64_eq (Nat.le_refl _) (by omega), Nat.sub_self,
    movBufferSkip_zero behind addressed]
  congr 1
  omega

theorem readInfo_eq {readTag : ReadTag} {info : List UInt8} (ahead : file.Ahead (info ++ rest)) :
    readBody leftover readTag isoDecSpecificInfoTag info.length ⟨entry, file⟩ =
      .ok ⟨{ entry with extraData := info }, file.skip info.length⟩ := by
  simp only [readBody, isoDecSpecificInfoTag, isoESDescrTag, isoDecoderConfigDescrTag,
    mp4ReadDecoderSpecificInfo]
  rw [ahead.read_eq]
  rfl

theorem readSlConfig_eq {readTag : ReadTag} (ahead : file.Ahead (bigEndian 1 2 ++ rest)) :
    readBody leftover readTag isoSLConfigDescrTag 1 ⟨entry, file⟩ = .ok ⟨entry, file.skip 1⟩ := by
  obtain ⟨read, -⟩ := r8_reads.bigEndian (show 2 < 256 ^ 1 by decide) ahead
  simp only [readBody, isoSLConfigDescrTag, isoDecSpecificInfoTag, isoESDescrTag,
    isoDecoderConfigDescrTag, mp4ReadSlConfigDescriptor]
  simp [read]

theorem readInfoText_eq {info : List UInt8} (short : info.length + 5 < 2 ^ 28)
    (addressed : file.position + (infoText info).length < 2 ^ 64)
    (fresh : entry.extraData = []) (ahead : file.Ahead (infoText info ++ rest)) :
    mp4ReadTagFrom leftover (fuel + 2) 0 (infoText info).length ⟨entry, file⟩ =
      .ok ⟨{ entry with extraData := info }, file.skip (infoText info).length⟩ := by
  cases info with
  | nil =>
    have nothing : (infoText []).length = 0 := rfl
    rw [nothing, readTag_end (Nat.le_refl 0), ← fresh]
    rfl
  | cons byte more =>
    have text : infoText (byte :: more) = descriptor isoDecSpecificInfoTag (byte :: more) := rfl
    rw [text] at ahead addressed ⊢
    rw [descriptor_length] at addressed ⊢
    have handled : readBody leftover (fun bytes reader => mp4ReadTagFrom leftover (fuel + 1) 0 bytes
        reader) isoDecSpecificInfoTag (byte :: more).length ⟨entry, file.skip 5⟩ = _ :=
      readInfo_eq (ahead_body ahead)
    rw [ByteFile.skip_skip] at handled
    rw [readTag_descriptor (by decide) (by omega) (by omega) addressed ahead handled,
      readTag_end (by omega)]

theorem streamByte (stream : UInt8) (six : stream < 64) :
    (0x01 ||| (stream.toNat <<< 2)) < 256 ∧
      UInt8.ofNat ((0x01 ||| (stream.toNat <<< 2)) >>> 2) = stream := by
  have small : stream.toNat < 64 := UInt8.lt_iff_toNat_lt.mp six
  have joined := Nat.shiftLeft_add_eq_or_of_lt (i := 2) (b := 1) (by decide) stream.toNat
  rw [Nat.or_comm, ← joined, Nat.shiftLeft_eq, Nat.shiftRight_eq_div_pow]
  constructor
  · omega
  · rw [show (stream.toNat * 2 ^ 2 + 1) / 2 ^ 2 = stream.toNat by omega]
    exact UInt8.ofNat_toNat

variable {given : EsdsEntry}

theorem readConfig_eq (six : given.streamType < 64) (short : given.extraData.length + 5 < 2 ^ 28)
    (addressed : file.position + (configBody given).length < 2 ^ 64) (fresh : entry.extraData = [])
    (ahead : file.Ahead (configBody given ++ rest)) :
    readBody leftover (fun bytes reader => mp4ReadTagFrom leftover (fuel + 2) 0 bytes reader)
        isoDecoderConfigDescrTag (configBody given).length ⟨entry, file⟩ =
      .ok ⟨given, file.skip (configBody given).length⟩ := by
  have text : configBody given ++ rest = bigEndian 1 given.objectTypeIndication.toNat ++
      (bigEndian 1 (0x01 ||| (given.streamType.toNat <<< 2)) ++ (bigEndian 3 0 ++
        (bigEndian 4 88360 ++ (bigEndian 4 88360 ++ (infoText given.extraData ++ rest))))) := by
    simp only [configBody, append_assoc]
  have length : (configBody given).length = 13 + (infoText given.extraData).length := by
    simp [configBody]
    omega
  obtain ⟨byte, stream⟩ := streamByte given.streamType six
  rw [text] at ahead
  rw [length] at addressed ⊢
  obtain ⟨object, ahead⟩ := r8_reads.bigEndian given.objectTypeIndication.toNat_lt ahead
  obtain ⟨type, ahead⟩ := r8_reads.bigEndian byte ahead
  obtain ⟨buffer, ahead⟩ := r24_reads.bigEndian (by decide) ahead
  obtain ⟨most, ahead⟩ := r32_reads.bigEndian (by decide) ahead
  obtain ⟨average, ahead⟩ := r32_reads.bigEndian (by decide) ahead
  have inner : mp4ReadTagFrom leftover (fuel + 2) 0 (infoText given.extraData).length
      ⟨{ entry with
        objectTypeIndication := given.objectTypeIndication, streamType := given.streamType }, _⟩ = _ :=
    readInfoText_eq short (by simp only [ByteFile.skip]; omega) fresh ahead
  have left : sub64 (13 + (infoText given.extraData).length) 13 =
      (infoText given.extraData).length := by
    rw [sub64_eq (by omega) (by omega)]
    omega
  simp only [readBody, isoESDescrTag, isoDecoderConfigDescrTag, mp4ReadDecoderConfigDescriptor]
  rw [object]
  dsimp only
  rw [type]
  dsimp only
  rw [buffer]
  dsimp only
  rw [most]
  dsimp only
  rw [average, left, stream, UInt8.ofNat_toNat]
  simp only [ByteFile.skip_skip] at inner ⊢
  exact inner

theorem handled_slConfig (readTag : ReadTag)
    (ahead : file.Ahead (descriptor isoSLConfigDescrTag (bigEndian 1 2) ++ rest)) :
    readBody leftover readTag isoSLConfigDescrTag (bigEndian 1 2).length ⟨entry, file.skip 5⟩ =
      .ok ⟨entry, file.skip (5 + (bigEndian 1 2).length)⟩ := by
  rw [bigEndian_length, readSlConfig_eq (ahead_body ahead), ByteFile.skip_skip]

theorem readEs_eq {trackId : Nat} (six : given.streamType < 64)
    (short : given.extraData.length < 2 ^ 28 - 64)
    (addressed : file.position + (esBody given trackId).length < 2 ^ 64)
    (fresh : entry.extraData = []) (ahead : file.Ahead (esBody given trackId ++ rest)) :
    readBody leftover (fun bytes reader => mp4ReadTagFrom leftover (fuel + 3) 0 bytes reader)
        isoESDescrTag (esBody given trackId).length ⟨entry, file⟩ =
      .ok ⟨given, file.skip (esBody given trackId).length⟩ := by
  have text : esBody given trackId ++ rest = bigEndian 2 trackId ++ (bigEndian 1 0 ++
      (descriptor isoDecoderConfigDescrTag (configBody given) ++
        (descriptor isoSLConfigDescrTag (bigEndian 1 2) ++ rest))) := by
    simp only [esBody, append_assoc]
  have config := configBody_length given
  have small : (configBody given).length < 2 ^ 28 - 46 := by
    rw [config]
    split <;> omega
  rw [text] at ahead
  rw [esBody_length] at addressed ⊢
  obtain ⟨id, ahead⟩ := reads_mod r16_reads ahead
  obtain ⟨flags, ahead⟩ := r8_reads.bigEndian (show 0 < 256 ^ 1 by decide) ahead
  rw [ByteFile.skip_skip] at flags ahead
  have handled : readBody leftover (fun bytes reader => mp4ReadTagFrom leftover (fuel + 2) 0 bytes
      reader) isoDecoderConfigDescrTag (configBody given).length ⟨entry, (file.skip 3).skip 5⟩ = _ :=
    readConfig_eq six (by omega) (by simp only [ByteFile.skip]; omega) fresh (ahead_body ahead)
  rw [ByteFile.skip_skip (file.skip 3) 5] at handled
  have behind := ahead.skip
  rw [descriptor_length] at behind
  have slConfig : readBody leftover (fun bytes reader => mp4ReadTagFrom leftover (fuel + 1) 0 bytes
      reader) isoSLConfigDescrTag (bigEndian 1 2).length ⟨given, _⟩ = _ :=
    handled_slConfig _ behind
  have moved : sub64 (file.skip 3).position file.position = 3 := by
    simp only [ByteFile.skip]
    rw [sub64_eq (by omega) (by omega)]
    omega
  have left : sub64 (14 + (configBody given).length) 3 = 11 + (configBody given).length := by
    rw [sub64_eq (by omega) (by omega)]
    omega
  have total : 2 + 1 + (5 + (configBody given).length + (5 + 1)) =
      14 + (configBody given).length := by
    omega
  have inner : mp4ReadTagFrom leftover (fuel + 3) 0 (11 + (configBody given).length)
      ⟨entry, file.skip 3⟩ = .ok ⟨given, file.skip (14 + (configBody given).length)⟩ := by
    rw [readTag_descriptor (by decide) (by omega) (by omega)
        (by simp only [ByteFile.skip]; omega) ahead handled,
      readTag_descriptor (by decide) (by simp; omega) (by omega)
        (by simp only [ByteFile.skip, bigEndian_length]; omega) behind slConfig,
      readTag_end (by simp; omega), ByteFile.skip_skip, ByteFile.skip_skip, bigEndian_length, total]
  simp only [readBody, mp4ReadEsDescriptor, if_true]
  rw [id]
  dsimp only
  rw [flags]
  dsimp only
  rw [if_neg (by decide), if_neg (by decide), if_neg (by decide), moved, left]
  exact inner

theorem movReadEsds_eq {trackId type : Nat} (six : given.streamType < 64)
    (short : given.extraData.length < 2 ^ 28 - 64)
    (addressed : file.position + (esdsBody given trackId).length < 2 ^ 64)
    (fresh : entry.extraData = []) (ahead : file.Ahead (esdsBody given trackId ++ rest)) :
    movReadEsds leftover (fuel + 4) ⟨entry, file⟩ ⟨(esdsBody given trackId).length, type⟩ =
      .ok (0, ⟨given, file.skip (esdsBody given trackId).length⟩) := by
  have text : esdsBody given trackId ++ rest = bigEndian (1 + 3) 0 ++
      (descriptor isoESDescrTag (esBody given trackId) ++ rest) := by
    simp only [esdsBody, append_assoc]
  have length : (esdsBody given trackId).length = 4 + (5 + (esBody given trackId).length) := by
    simp [esdsBody]
  have config := configBody_length given
  have es := esBody_length given trackId
  have small : (configBody given).length < 2 ^ 28 - 46 := by
    rw [config]
    split <;> omega
  rw [text, bigEndian_add, append_assoc] at ahead
  rw [length] at addressed ⊢
  obtain ⟨version, ahead⟩ := reads_mod r8_reads ahead
  obtain ⟨flags, ahead⟩ := reads_mod r24_reads ahead
  rw [ByteFile.skip_skip] at flags ahead
  have handled : readBody leftover (fun bytes reader => mp4ReadTagFrom leftover (fuel + 3) 0 bytes
      reader) isoESDescrTag (esBody given trackId).length ⟨entry, (file.skip 4).skip 5⟩ = _ :=
    readEs_eq six short (by simp only [ByteFile.skip]; omega) fresh (ahead_body ahead)
  rw [ByteFile.skip_skip (file.skip 4) 5] at handled
  have left : sub64 (4 + (5 + (esBody given trackId).length)) 4 =
      5 + (esBody given trackId).length := by
    rw [sub64_eq (by omega) (by omega)]
    omega
  unfold movReadEsds
  dsimp only
  rw [version]
  dsimp only
  rw [flags, left, readTag_descriptor (by decide) (by omega) (by omega)
    (by simp only [ByteFile.skip]; omega) ahead handled, readTag_end (by omega), ok_bind,
    ByteFile.skip_skip]
  have working : (file.skip (4 + (5 + (esBody given trackId).length))).error = false := ahead.error
  unfold movBufferError
  rw [if_neg (by simp [working])]

end Reading

/-! ## The round trip -/

/-- A tag, a length of four bytes and as many bytes as it says. -/
def WritesDescriptor (tag : Nat) (writer : ByteFile → ByteFile) : Prop :=
  ∀ file : ByteFile, file.position ≤ file.bytes.length → ∃ field body : List UInt8,
    writer file = file.write (bigEndian 1 tag ++ (field ++ body)) ∧ field.length = 4 ∧
      fieldValue field = body.length

theorem configBody_short (short : given.extraData.length < 2 ^ 28 - 64) :
    (configBody given).length < 2 ^ 28 - 46 := by
  rw [configBody_length]
  split <;> omega

theorem WritesDescriptor.of_behind {tag : Nat} {writer : ByteFile → ByteFile}
    (short : body.length < 2 ^ 28)
    (behind : ∀ file : ByteFile, file.position ≤ file.bytes.length →
      writer (file.write []) = file.write ([] ++ descriptor tag body)) :
    WritesDescriptor tag writer := by
  intro file inside
  have written := behind file inside
  rw [ByteFile.write_nil inside] at written
  exact ⟨lengthField body.length, body, written, lengthField_length _, fieldValue_lengthField short⟩

theorem esDescriptor_writes (short : given.extraData.length < 2 ^ 28 - 64) (trackId : Nat) :
    WritesDescriptor isoESDescrTag (fun file => (mp4WriteEsDescriptor file given trackId).2) := by
  have small := configBody_short short
  have length := esBody_length given trackId
  apply WritesDescriptor.of_behind (show (esBody given trackId).length < 2 ^ 28 by omega)
  intro file inside
  rw [behind_esDescriptor inside]

theorem slConfig_writes :
    WritesDescriptor isoSLConfigDescrTag (fun file => (mp4WriteSlConfigDescriptor file).2) := by
  apply WritesDescriptor.of_behind (show (bigEndian 1 2).length < 2 ^ 28 by decide)
  intro file inside
  rw [behind_slConfig inside]

theorem esdsBox_ahead {file : ByteFile} (inside : file.position ≤ file.bytes.length)
    (working : file.error = false) (given : EsdsEntry) (trackId : Nat) :
    ((file.write (esdsBox given trackId)).seek file.position).Ahead
      (esdsBox given trackId ++ file.bytes.drop (file.position + (esdsBox given trackId).length)) := by
  have written := ByteFile.write_of_inside inside working (esdsBox given trackId)
  have front : (file.bytes.take file.position).length = file.position := by
    rw [length_take]
    omega
  constructor
  · rw [written]
    simp only [ByteFile.seek, length_append]
    omega
  · rw [written]
    simp only [ByteFile.seek]
    rw [drop_append_of_le_length (by omega), drop_of_length_le (by omega),
      nil_append]
  · rfl

/-- Every descriptor that is written has the length of its body in front of it; the box that is
written is read to its end, and the entry is what it was. -/
theorem esds_round_trip {file : ByteFile} (inside : file.position ≤ file.bytes.length)
    (working : file.error = false) (addressed : file.position + 2 ^ 28 ≤ 2 ^ 64)
    (given : EsdsEntry) (trackId : Nat) (six : given.streamType < 64)
    (short : given.extraData.length < 2 ^ 28 - 64) :
    WritesDescriptor isoESDescrTag (fun file => (mp4WriteEsDescriptor file given trackId).2) ∧
      WritesDescriptor isoDecoderConfigDescrTag
        (fun file => (mp4WriteDecoderConfigDescriptor file given).2) ∧
      WritesDescriptor isoDecSpecificInfoTag
        (fun file => (mp4WriteDecoderSpecificInfo file given).2) ∧
      WritesDescriptor isoSLConfigDescrTag (fun file => (mp4WriteSlConfigDescriptor file).2) ∧
      ∃ size written, movWriteEsds file given trackId = .ok (size, written) ∧
        written.position = file.position + size ∧
        ∃ body, readBoxHeader (written.seek file.position) = (⟨size, tag 'e' 's' 'd' 's'⟩, body) ∧
          ∀ (leftover : Nat → List UInt8) (fuel : Nat) (fresh : EsdsEntry), fresh.extraData = [] →
            movReadEsds leftover (fuel + 4) ⟨fresh, body⟩ ⟨size - 8, tag 'e' 's' 'd' 's'⟩ =
              .ok (0, ⟨given, written⟩) := by
  have small := configBody_short short
  have body := esdsBody_length given trackId
  have box := esdsBox_length given trackId
  have written := ByteFile.write_of_inside inside working (esdsBox given trackId)
  have position : (file.write (esdsBox given trackId)).position =
      file.position + (esdsBox given trackId).length := by
    rw [written]
  have ahead := esdsBox_ahead inside working given trackId
  generalize file.bytes.drop (file.position + (esdsBox given trackId).length) = rest at ahead
  have text : esdsBox given trackId ++ rest = bigEndian 4 (esdsBox given trackId).length ++
      (movTag 'e' 's' 'd' 's' ++ (esdsBody given trackId ++ rest)) := by
    rw [box]
    simp only [esdsBox, append_assoc]
  rw [text] at ahead
  obtain ⟨size, ahead⟩ := r32_reads.bigEndian (by omega) ahead
  have type := r32_reads _ _ _ rfl ahead
  have ahead := ahead.skip
  rw [show (movTag 'e' 's' 'd' 's').length = 4 from rfl, ByteFile.skip_skip] at ahead
  refine ⟨esDescriptor_writes short trackId, .of_behind (by omega) fun file inside =>
    behind_config inside given, .of_behind (by omega) fun file inside => behind_info inside given,
    slConfig_writes, (esdsBox given trackId).length, file.write (esdsBox given trackId),
    movWriteEsds_eq inside working given trackId (by omega), position,
    ((file.write (esdsBox given trackId)).seek file.position).skip 8, ?_, ?_⟩
  · unfold readBoxHeader
    rw [size]
    dsimp only
    rw [type, ByteFile.skip_skip]
    rfl
  · intro leftover fuel fresh empty
    have read : movReadEsds leftover (fuel + 4) ⟨fresh, _⟩
        ⟨(esdsBody given trackId).length, tag 'e' 's' 'd' 's'⟩ = _ :=
      movReadEsds_eq six short (by simp only [ByteFile.skip, ByteFile.seek]; omega) empty ahead
    have back : (((file.write (esdsBox given trackId)).seek file.position).skip 8).skip
        (esdsBody given trackId).length = file.write (esdsBox given trackId) := by
      rw [ByteFile.skip_skip, ← box, written]
      simp only [ByteFile.seek, ByteFile.skip, working]
    rw [box, Nat.add_sub_cancel_left]
    rw [back] at read
    exact read

/-- An entry with two bytes of info, behind three other bytes. -/
theorem esds_round_trip_two :
    WritesDescriptor isoESDescrTag
        (fun file => (mp4WriteEsDescriptor file ⟨0x40, 5, [0x12, 0x10]⟩ 1).2) ∧
      ∃ size written, movWriteEsds ⟨[1, 2, 3], 3, false⟩ ⟨0x40, 5, [0x12, 0x10]⟩ 1 =
          .ok (size, written) ∧
        ∃ body, readBoxHeader (written.seek 3) = (⟨size, tag 'e' 's' 'd' 's'⟩, body) ∧
          movReadEsds (fun _ => []) 4 ⟨⟨0, 0, []⟩, body⟩ ⟨size - 8, tag 'e' 's' 'd' 's'⟩ =
            .ok (0, ⟨⟨0x40, 5, [0x12, 0x10]⟩, written⟩) := by
  obtain ⟨es, -, -, -, size, written, wrote, -, body, header, read⟩ :=
    @esds_round_trip ⟨[1, 2, 3], 3, false⟩ (by decide) rfl (by decide)
      ⟨0x40, 5, [0x12, 0x10]⟩ 1 (by decide) (by decide)
  exact ⟨es, size, written, wrote, body, header, read (fun _ => []) 0 ⟨0, 0, []⟩ rfl⟩

end CLibs.Mov
