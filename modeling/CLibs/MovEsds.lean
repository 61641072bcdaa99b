import CLibs.MovBoxWalk

/-!
# The `esds` box

`mov_write_esds` writes descriptors inside descriptors, each behind a tag and a length of four
bytes of seven bits, which is computed ahead.  `mov_read_esds` walks through them, one level of
nesting in the other.
-/

namespace CLibs.Mov

open List

/-- The fields of `mov_sample_entry_t` that the box holds. -/
structure EsdsEntry where
  objectTypeIndication : UInt8
  streamType : UInt8
  extraData : List UInt8
  deriving DecidableEq

def isoESDescrTag : Nat := 0x03

def isoDecoderConfigDescrTag : Nat := 0x04

def isoDecSpecificInfoTag : Nat := 0x05

def isoSLConfigDescrTag : Nat := 0x06

/-! ## Writing -/

/-- `mov_write_base_descr`, which returns 5. -/
def movWriteBaseDescr (file : ByteFile) (tag len : Nat) : Nat × ByteFile :=
  let file := w8 file tag
  let file := w8 file (0x80 ||| (len >>> 21))
  let file := w8 file (0x80 ||| (len >>> 14))
  let file := w8 file (0x80 ||| (len >>> 7))
  (5, w8 file (0x7F &&& len))

def mp4WriteDecoderSpecificInfo (file : ByteFile) (entry : EsdsEntry) : Nat × ByteFile :=
  let file := (movWriteBaseDescr file isoDecSpecificInfoTag entry.extraData.length).2
  (entry.extraData.length, file.write entry.extraData)

def mp4WriteDecoderConfigDescriptor (file : ByteFile) (entry : EsdsEntry) : Nat × ByteFile :=
  let size := 13 + (if entry.extraData.length > 0 then entry.extraData.length + 5 else 0)
  let file := (movWriteBaseDescr file isoDecoderConfigDescrTag size).2
  let file := w8 file entry.objectTypeIndication.toNat
  let file := w8 file (0x01 ||| (entry.streamType.toNat <<< 2))
  let file := w24 file 0
  let file := w32 file 88360
  let file := w32 file 88360
  (size, if entry.extraData.length > 0 then (mp4WriteDecoderSpecificInfo file entry).2 else file)

def mp4WriteSlConfigDescriptor (file : ByteFile) : Nat × ByteFile :=
  let base := movWriteBaseDescr file isoSLConfigDescrTag 1
  (1 + base.1, w8 base.2 0x02)

def mp4WriteEsDescriptor (file : ByteFile) (entry : EsdsEntry) (trackId : Nat) : Nat × ByteFile :=
  let size := 3 + (5 + 13 + (if entry.extraData.length > 0 then entry.extraData.length + 5 else 0))
  let size := size + (5 + 1)
  let base := movWriteBaseDescr file isoESDescrTag size
  let file := w16 base.2 trackId
  let file := w8 file 0x00
  let file := (mp4WriteDecoderConfigDescriptor file entry).2
  (size + base.1, (mp4WriteSlConfigDescriptor file).2)

def movWriteSize (file : ByteFile) (offset size : Nat) : Except Fault ByteFile := do
  check (size < uint32Max)
  .ok ((w32 (file.seek offset) size).seek file.position)

def movWriteEsds (file : ByteFile) (entry : EsdsEntry) (trackId : Nat) :
    Except Fault (Nat × ByteFile) := do
  let offset := file.position
  let file := w32 file 0
  let file := file.write (movTag 'e' 's' 'd' 's')
  let file := w32 file 0
  let descriptor := mp4WriteEsDescriptor file entry trackId
  let size := 12 + descriptor.1
  let file ← movWriteSize descriptor.2 offset size
  .ok (size, file)

/-! ## Reading -/

def readLength (bytes : Int) : (left i : Nat) → (c len : Nat) → ByteFile → Nat × Nat × ByteFile
  | 0, i, _, len, file => (i, len, file)
  | left + 1, i, c, len, file =>
    if (i : Int) + 1 < bytes ∧ c &&& 0x80 ≠ 0 then
      let byte := r8 file
      readLength bytes left (i + 1) byte.1 ((len <<< 7) ||| (byte.1 &&& 0x7F)) byte.2
    else (i, len, file)

/-- What `mov_read_base_descr` stores and returns. -/
structure BaseDescr where
  tag : Nat
  len : Nat
  count : Nat

def movReadBaseDescr (file : ByteFile) (bytes : Int) : BaseDescr × ByteFile :=
  let tag := r8 file
  let length := readLength bytes 4 0 0x80 0 tag.2
  (⟨tag.1, length.2.1, 1 + length.1⟩, length.2.2)

/-- A sample entry and the file; `leftover` is what memory has after a read that fails. -/
structure EsdsReader where
  entry : EsdsEntry
  file : ByteFile

def mp4ReadDecoderSpecificInfo (leftover : Nat → List UInt8) (reader : EsdsReader) (len : Nat) :
    EsdsReader :=
  let found := reader.file.read len
  { entry := { reader.entry with extraData := found.1.getD (leftover len) }
    file := found.2 }

/-- `mp4_read_sl_config_descriptor`, whose values are dropped. -/
def mp4ReadSlConfigDescriptor (reader : EsdsReader) : EsdsReader :=
  let predefined := r8 reader.file
  let (flags, file) :=
    if predefined.1 = 0 then
      let flags := r8 predefined.2
      (flags.1, (r16 (r8 (r8 (r8 (r8 (r32 (r32 flags.2).2).2).2).2).2).2).2)
    else if predefined.1 = 2 then (0x04, predefined.2)
    else (0, predefined.2)
  { reader with file := if flags &&& 0x01 ≠ 0 then (r16 (r16 (r32 file).2).2).2 else file }

/-- A walk through so many bytes of descriptors. -/
abbrev ReadTag := Nat → EsdsReader → Except Fault EsdsReader

def mp4ReadEsDescriptor (readTag : ReadTag) (reader : EsdsReader) (bytes : Nat) :
    Except Fault EsdsReader :=
  let p1 := reader.file.position
  let flags := r8 (r16 reader.file).2
  let file := flags.2
  let file := if flags.1 &&& 0x80 ≠ 0 then (r16 file).2 else file
  let file :=
    if flags.1 &&& 0x40 ≠ 0 then
      let n := r8 file
      movBufferSkip n.2 n.1
    else file
  let file := if flags.1 &&& 0x20 ≠ 0 then (r16 file).2 else file
  readTag (sub64 bytes (sub64 file.position p1)) { reader with file := file }

def mp4ReadDecoderConfigDescriptor (readTag : ReadTag) (reader : EsdsReader) (len : Nat) :
    Except Fault EsdsReader :=
  let object := r8 reader.file
  let stream := r8 object.2
  let file := (r32 (r32 (r24 stream.2).2).2).2
  readTag (sub64 len 13)
    { entry := { reader.entry with
        objectTypeIndication := UInt8.ofNat object.1
        streamType := UInt8.ofNat (stream.1 >>> 2) }
      file := file }

/-- What `mp4_read_tag` does with the body of a descriptor. -/
def readBody (leftover : Nat → List UInt8) (readTag : ReadTag) (tag len : Nat)
    (reader : EsdsReader) : Except Fault EsdsReader :=
  if tag = isoESDescrTag then mp4ReadEsDescriptor readTag reader len
  else if tag = isoDecoderConfigDescrTag then mp4ReadDecoderConfigDescriptor readTag reader len
  else if tag = isoDecSpecificInfoTag then .ok (mp4ReadDecoderSpecificInfo leftover reader len)
  else if tag = isoSLConfigDescrTag then .ok (mp4ReadSlConfigDescriptor reader)
  else .ok reader

/-- A turn of the loop of `mp4_read_tag`; `loop` goes on from the next offset. -/
def readDescriptor (leftover : Nat → List UInt8) (readTag : ReadTag)
    (loop : Nat → EsdsReader → Except Fault EsdsReader) (offset bytes : Nat)
    (reader : EsdsReader) : Except Fault EsdsReader := do
  let header := movReadBaseDescr reader.file (int32 (sub64 bytes offset))
  let offset := (offset + header.1.count) % 2 ^ 64
  if (offset + header.1.len) % 2 ^ 64 > bytes then .ok { reader with file := header.2 }
  else do
    let reader ← readBody leftover readTag header.1.tag header.1.len { reader with file := header.2 }
    let moved := sub64 reader.file.position header.2.position
    loop ((offset + header.1.len) % 2 ^ 64)
      { reader with file := movBufferSkip reader.file (sub64 header.1.len moved) }

def mp4ReadTagFrom (leftover : Nat → List UInt8) :
    (fuel : Nat) → (offset bytes : Nat) → EsdsReader → Except Fault EsdsReader
  | 0, _, _, _ => .error .fuel
  | fuel + 1, offset, bytes, reader =>
    if offset < bytes then
      readDescriptor leftover (fun bytes reader => mp4ReadTagFrom leftover fuel 0 bytes reader)
        (fun offset reader => mp4ReadTagFrom leftover fuel offset bytes reader) offset bytes reader
    else .ok reader

/-- `mov_read_esds`: what it returns, and the entry and the file behind it. -/
def movReadEsds (leftover : Nat → List UInt8) (fuel : Nat) (reader : EsdsReader) (box : Box) :
    Except Fault (Int × EsdsReader) := do
  let file := (r24 (r8 reader.file).2).2
  let reader ← mp4ReadTagFrom leftover fuel 0 (sub64 box.size 4) { reader with file := file }
  .ok (movBufferError reader.file, reader)

/-! ## Texts -/

/-- A length of four bytes: seven bits in each, and a mark on all but the last. -/
def lengthField (len : Nat) : List UInt8 :=
  bigEndian 1 (0x80 ||| (len >>> 21)) ++ (bigEndian 1 (0x80 ||| (len >>> 14)) ++
    (bigEndian 1 (0x80 ||| (len >>> 7)) ++ bigEndian 1 (0x7F &&& len)))

def descriptor (tag : Nat) (body : List UInt8) : List UInt8 :=
  bigEndian 1 tag ++ (lengthField body.length ++ body)

@[simp]
theorem lengthField_length (len : Nat) : (lengthField len).length = 4 := by
  simp [lengthField]

theorem descriptor_eq (tag : Nat) (body : List UInt8) :
    descriptor tag body = bigEndian 1 tag ++ (lengthField body.length ++ body) := rfl

@[simp]
theorem descriptor_length (tag : Nat) (body : List UInt8) :
    (descriptor tag body).length = 5 + body.length := by
  simp [descriptor]
  omega

def infoText (info : List UInt8) : List UInt8 :=
  if info.length > 0 then descriptor isoDecSpecificInfoTag info else []

def configBody (entry : EsdsEntry) : List UInt8 :=
  bigEndian 1 entry.objectTypeIndication.toNat ++
    (bigEndian 1 (0x01 ||| (entry.streamType.toNat <<< 2)) ++
      (bigEndian 3 0 ++ (bigEndian 4 88360 ++ (bigEndian 4 88360 ++ infoText entry.extraData))))

def esBody (entry : EsdsEntry) (trackId : Nat) : List UInt8 :=
  bigEndian 2 trackId ++ (bigEndian 1 0 ++
    (descriptor isoDecoderConfigDescrTag (configBody entry) ++
      descriptor isoSLConfigDescrTag (bigEndian 1 2)))

/-- The box behind its size and type. -/
def esdsBody (entry : EsdsEntry) (trackId : Nat) : List UInt8 :=
  bigEndian 4 0 ++ descriptor isoESDescrTag (esBody entry trackId)

def esdsBox (entry : EsdsEntry) (trackId : Nat) : List UInt8 :=
  bigEndian 4 (8 + (esdsBody entry trackId).length) ++
    (movTag 'e' 's' 'd' 's' ++ esdsBody entry trackId)

theorem configBody_length (entry : EsdsEntry) :
    (configBody entry).length =
      13 + (if entry.extraData.length > 0 then entry.extraData.length + 5 else 0) := by
  unfold configBody infoText
  split
  · simp
    omega
  · simp

theorem esBody_length (entry : EsdsEntry) (trackId : Nat) :
    (esBody entry trackId).length = 14 + (configBody entry).length := by
  simp [esBody]
  omega

theorem esdsBody_length (entry : EsdsEntry) (trackId : Nat) :
    (esdsBody entry trackId).length = 23 + (configBody entry).length := by
  simp [esdsBody, esBody_length]
  omega

theorem esdsBox_length (entry : EsdsEntry) (trackId : Nat) :
    (esdsBox entry trackId).length = 8 + (esdsBody entry trackId).length := by
  simp [esdsBox, movTag]
  omega

/-! ## What is written -/

section Writing

variable {file : ByteFile} {text : List UInt8} (inside : file.position ≤ file.bytes.length)
include inside

theorem behind_w8 (value : Nat) :
    w8 (file.write text) value = file.write (text ++ bigEndian 1 value) :=
  ByteFile.write_write inside

theorem behind_w16 (value : Nat) :
    w16 (file.write text) value = file.write (text ++ bigEndian 2 value) :=
  (w16_write (ByteFile.write_inside inside)).trans (ByteFile.write_write inside)

theorem behind_w24 (value : Nat) :
    w24 (file.write text) value = file.write (text ++ bigEndian 3 value) :=
  (w24_write (ByteFile.write_inside inside)).trans (ByteFile.write_write inside)

theorem behind_w32 (value : Nat) :
    w32 (file.write text) value = file.write (text ++ bigEndian 4 value) :=
  (w32_write (ByteFile.write_inside inside)).trans (ByteFile.write_write inside)

theorem behind_baseDescr (tag len : Nat) :
    movWriteBaseDescr (file.write text) tag len =
      (5, file.write (text ++ (bigEndian 1 tag ++ lengthField len))) := by
  unfold movWriteBaseDescr
  dsimp only
  rw [behind_w8 inside, behind_w8 inside, behind_w8 inside, behind_w8 inside, behind_w8 inside,
    lengthField]
  simp only [append_assoc]

theorem behind_info (entry : EsdsEntry) :
    (mp4WriteDecoderSpecificInfo (file.write text) entry).2 =
      file.write (text ++ descriptor isoDecSpecificInfoTag entry.extraData) := by
  unfold mp4WriteDecoderSpecificInfo
  dsimp only
  rw [behind_baseDescr inside, ByteFile.write_write inside, descriptor]
  simp only [append_assoc]

theorem behind_config (entry : EsdsEntry) :
    (mp4WriteDecoderConfigDescriptor (file.write text) entry).2 =
      file.write (text ++ descriptor isoDecoderConfigDescrTag (configBody entry)) := by
  unfold mp4WriteDecoderConfigDescriptor
  dsimp only
  rw [behind_baseDescr inside]
  dsimp only
  rw [behind_w8 inside, behind_w8 inside, behind_w24 inside, behind_w32 inside, behind_w32 inside,
    behind_info inside, ← configBody_length, descriptor_eq isoDecoderConfigDescrTag]
  generalize lengthField (configBody entry).length = field
  unfold configBody infoText
  split <;> simp only [append_assoc, append_nil]

theorem behind_slConfig :
    mp4WriteSlConfigDescriptor (file.write text) =
      (6, file.write (text ++ descriptor isoSLConfigDescrTag (bigEndian 1 2))) := by
  unfold mp4WriteSlConfigDescriptor
  dsimp only
  rw [behind_baseDescr inside]
  dsimp only
  rw [behind_w8 inside, descriptor_eq, bigEndian_length]
  simp only [append_assoc]

theorem behind_esDescriptor (entry : EsdsEntry) (trackId : Nat) :
    mp4WriteEsDescriptor (file.write text) entry trackId =
      (5 + (esBody entry trackId).length,
        file.write (text ++ descriptor isoESDescrTag (esBody entry trackId))) := by
  have length : (esBody entry trackId).length = 3 + (5 + 13 +
      (if entry.extraData.length > 0 then entry.extraData.length + 5 else 0)) + (5 + 1) := by
    rw [esBody_length, configBody_length]
    omega
  unfold mp4WriteEsDescriptor
  dsimp only
  rw [behind_baseDescr inside]
  dsimp only
  rw [behind_w16 inside, behind_w8 inside, behind_config inside, behind_slConfig inside,
    descriptor_eq isoESDescrTag, ← length, Nat.add_comm 5]
  generalize lengthField (esBody entry trackId).length = field
  simp only [esBody, append_assoc]

theorem write_fill (working : file.error = false) {old behind : List UInt8} {size : Nat}
    (four : old.length = 4) :
    (w32 ((file.write (old ++ behind)).seek file.position) size).seek
        (file.write (old ++ behind)).position = file.write (bigEndian 4 size ++ behind) := by
  have written := ByteFile.write_of_inside inside working
  have front : (file.bytes.take file.position).length = file.position := by
    rw [length_take]
    omega
  have length : (old ++ behind).length = (bigEndian 4 size ++ behind).length := by
    simp [four]
  have bytes : ((file.write (old ++ behind)).seek file.position).bytes =
      file.bytes.take file.position ++ (old ++ (behind ++
        file.bytes.drop (file.position + (old ++ behind).length))) := by
    rw [written (old ++ behind), append_assoc]
    rfl
  have fits : ((file.write (old ++ behind)).seek file.position).position ≤
      ((file.write (old ++ behind)).seek file.position).bytes.length := by
    rw [bytes, length_append, front]
    exact Nat.le_add_right _ _
  rw [w32_write fits, ByteFile.write_back bytes front.symm rfl (by rw [bigEndian_length, four]),
    written, written, length]
  simp only [ByteFile.seek, append_assoc, working]

/-- The box that is written, with the length that is returned. -/
theorem movWriteEsds_eq (working : file.error = false) (entry : EsdsEntry) (trackId : Nat)
    (short : entry.extraData.length < 2 ^ 28) :
    movWriteEsds file entry trackId =
      .ok ((esdsBox entry trackId).length, file.write (esdsBox entry trackId)) := by
  have length := esdsBody_length entry trackId
  have config := configBody_length entry
  have small : (configBody entry).length < 2 ^ 29 := by
    rw [config]
    split <;> omega
  have size : 12 + (5 + (esBody entry trackId).length) = 8 + (esdsBody entry trackId).length := by
    rw [length, esBody_length]
    omega
  have fits : 8 + (esdsBody entry trackId).length < uint32Max := by
    rw [length]
    unfold uint32Max
    omega
  unfold movWriteEsds movWriteSize
  dsimp only
  rw [w32_write inside, ByteFile.write_write inside, behind_w32 inside, behind_esDescriptor inside,
    size, check_eq fits, ok_bind]
  have text : bigEndian 4 0 ++ movTag 'e' 's' 'd' 's' ++ bigEndian 4 0 ++
      descriptor isoESDescrTag (esBody entry trackId) =
      bigEndian 4 0 ++ (movTag 'e' 's' 'd' 's' ++ esdsBody entry trackId) := by
    simp only [esdsBody, append_assoc]
  rw [text, write_fill inside working (bigEndian_length 4 0), ok_bind, esdsBox_length]
  rfl

end Writing

end CLibs.Mov
