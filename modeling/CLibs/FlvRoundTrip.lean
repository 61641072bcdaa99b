import CLibs.ByteFiles
import CLibs.FaultingPrograms

/-!
# Files of `flv-writer.c` and `flv-reader.c`

A file is a header and a list of tags, each of them framed by its own header and by
its size behind it.  The writer's callback stores the bytes that it is given, and
the reader's callback gives what is left of the file.
-/

namespace CLibs.Flv

open List

def int32 (value : Int) : Int := Int.bmod value (2 ^ 32)

/-- `FLV_TYPE_AUDIO`, `FLV_TYPE_VIDEO` and `FLV_TYPE_SCRIPT`. -/
def IsTagType (type : Nat) : Prop := type = 9 ∨ type = 8 ∨ type = 18

instance (type : Nat) : Decidable (IsTagType type) := inferInstanceAs (Decidable (_ ∨ _ ∨ _))

/-- What `flv_writer_input` gets and `flv_reader_read` gives. -/
structure Tag where
  type : Nat
  timestamp : Nat
  payload : List UInt8
  deriving DecidableEq

structure TagHeader where
  filter : Nat
  type : Nat
  size : Nat
  timestamp : Nat
  streamId : Nat

/-! ## Writing -/

def flvHeaderWrite (audio video : Bool) : List UInt8 :=
  [70, 76, 86, 1] ++ (bigEndian 1 ((if audio then 4 else 0) + if video then 1 else 0) ++
    bigEndian 4 9)

def flvTagSizeWrite (size : Nat) : List UInt8 := bigEndian 4 size

def flvTagHeaderWrite (tag : TagHeader) : Except Fault (List UInt8) := do
  check (IsTagType tag.type)
  .ok (bigEndian 1 (tag.type % 32 + tag.filter % 2 * 32) ++ (bigEndian 3 tag.size ++
    (bigEndian 3 tag.timestamp ++ (bigEndian 1 (tag.timestamp / 2 ^ 24) ++
      bigEndian 3 tag.streamId))))

structure VideoTagHeader where
  codecid : Nat
  keyframe : Nat
  avpacket : Nat
  cts : Int

/-- `FLV_VIDEO_H264`, `FLV_VIDEO_H265` and `FLV_VIDEO_AV1`. -/
def HasPacketType (codecid : Nat) : Prop := codecid = 7 ∨ codecid = 12 ∨ codecid = 14

instance (codecid : Nat) : Decidable (HasPacketType codecid) :=
  inferInstanceAs (Decidable (_ ∨ _ ∨ _))

/-- The result, and what stands in the buffer up to it. -/
def flvVideoTagHeaderWrite (video : VideoTagHeader) (length : Nat) :
    Except Fault (Int × List UInt8) := do
  if length < 1 then .ok (-1, [])
  else
    let first := bigEndian 1 (video.keyframe * 16 % 256 ||| video.codecid % 16)
    if HasPacketType video.codecid then
      check (video.avpacket = 0 ∨ video.avpacket = 1 ∨ video.avpacket = 2)
      if length < 5 then .ok (-1, [])
      else .ok (5, first ++ (bigEndian 1 video.avpacket ++ bigEndian 3 (video.cts % 2 ^ 24).toNat))
    else .ok (1, first)

/-- The bytes of a vector: its length is an `int`. -/
def vecBytes (data : List UInt8) : List UInt8 := data.take (int32 data.length).toNat

/-- The bytes that `flv_writer_input` gives to the callback. -/
def flvWriterInput (tag : Tag) : Except Fault (List UInt8) := do
  let header ← flvTagHeaderWrite ⟨0, tag.type % 256, tag.payload.length % 2 ^ 32, tag.timestamp, 0⟩
  .ok (header ++ (vecBytes tag.payload ++
    flvTagSizeWrite ((tag.payload.length % 2 ^ 32 + 11) % 2 ^ 32)))

def flvWriteHeader (audio video : Bool) : List UInt8 :=
  flvHeaderWrite audio video ++ flvTagSizeWrite 0

def flvWriteEos : Except Fault (List UInt8) := do
  let header ← flvVideoTagHeaderWrite ⟨7, 1, 2, 0⟩ 16
  if header.1 > 0 then flvWriterInput ⟨9, 0, header.2⟩ else .ok []

/-- The calls of `flv_writer_input`, and that of `flv_writer_destroy`. -/
def flvWriteTags : List Tag → Except Fault (List UInt8)
  | [] => flvWriteEos
  | tag :: tags => do
      let first ← flvWriterInput tag
      let rest ← flvWriteTags tags
      .ok (first ++ rest)

/-- The file from `flv_writer_create2` to `flv_writer_destroy`. -/
def flvFile (audio video : Bool) (tags : List Tag) : Except Fault (List UInt8) := do
  let body ← flvWriteTags tags
  .ok (flvWriteHeader audio video ++ body)

/-! ## Reading -/

def field (buffer : List UInt8) (offset width : Nat) : Nat :=
  bigValue ((buffer.drop offset).take width)

/-- The offset of the data; the other fields are not used. -/
def flvHeaderRead (buffer : List UInt8) : Except Fault Nat := do
  check (9 ≤ buffer.length ∧ buffer.take 3 = [70, 76, 86])
  check (field buffer 4 1 / 8 = 0 ∧ (field buffer 4 1).testBit 5 = false)
  .ok (field buffer 5 4)

def flvTagHeaderRead (buffer : List UInt8) : Except Fault TagHeader := do
  check (11 ≤ buffer.length)
  let type := field buffer 0 1 % 32
  check (IsTagType type)
  .ok ⟨field buffer 0 1 / 32 % 2, type, field buffer 1 3,
    field buffer 4 3 + field buffer 7 1 * 2 ^ 24, field buffer 8 3⟩

/-- The bytes between the header and the tags. -/
def skipHeader (count : Nat) (source : List UInt8) : List UInt8 :=
  if 0 < count ∧ count < 4096 then skipHeader (count - 9) (source.drop (min count 9)) else source
  termination_by count
  decreasing_by omega

def flvReadHeader (source : List UInt8) : Except Fault (Int × List UInt8) := do
  let data := source.take 9
  if data.length ≠ 9 then .ok (-1, source.drop 9)
  else
    let offset ← flvHeaderRead data
    check (9 ≤ offset ∧ offset < 9 + 4096)
    let behind := skipHeader (offset - 9) (source.drop 9)
    let size := behind.take 4
    if size.length ≠ 4 then .ok (-1, behind.drop 4)
    else
      check (bigValue size = 0)
      .ok (if bigValue size = 0 then 0 else -1, behind.drop 4)

def readBody (bytes : Nat) (header : TagHeader) (source : List UInt8) :
    Except Fault (Int × Option Tag × List UInt8) := do
  if bytes < header.size then .ok (-1, none, source)
  else
    let payload := source.take header.size
    let behind := source.drop header.size
    if payload.length ≠ header.size then .ok (0, none, behind)
    else
      let size := behind.take 4
      if size.length ≠ 4 then .ok (0, none, behind.drop 4)
      else
        check (header.streamId = 0)
        check (bigValue size = (header.size + 11) % 2 ^ 32)
        .ok (1, some ⟨header.type, header.timestamp, payload⟩, behind.drop 4)

/-- A tag in a buffer of the given size: the result, the tag and what is left of the file. -/
def flvReaderRead (bytes : Nat) (source : List UInt8) :
    Except Fault (Int × Option Tag × List UInt8) := do
  let data := source.take 11
  if data.length ≠ 11 then .ok (0, none, source.drop 11)
  else
    let header ← flvTagHeaderRead data
    readBody bytes header (source.drop 11)

end CLibs.Flv

/-!
## FLV files are read back

A tag is read as it was written if its size fits the 24 bits of its header.  A
longer payload is cut there without an error.
-/

namespace CLibs.Flv

open List

variable {bytes : Nat} {tag : Tag} {tags : List Tag} {rest : List UInt8}

/-- A tag that `flv_writer_input` accepts. -/
structure Tag.Valid (tag : Tag) : Prop where
  type : IsTagType tag.type
  timestamp : tag.timestamp < 2 ^ 32

/-! ## Headers -/

theorem field_behind (front bytes behind : List UInt8) {offset width : Nat}
    (start : front.length = offset) (length : bytes.length = width) :
    field (front ++ (bytes ++ behind)) offset width = bigValue bytes := by
  subst start length
  unfold field
  rw [drop_left, take_left]

theorem field_first (bytes behind : List UInt8) {width : Nat} (length : bytes.length = width) :
    field (bytes ++ behind) 0 width = bigValue bytes :=
  field_behind [] bytes behind rfl length

def headerText (tag : Tag) : List UInt8 :=
  bigEndian 1 tag.type ++ (bigEndian 3 (tag.payload.length % 2 ^ 32) ++ (bigEndian 3 tag.timestamp ++
    (bigEndian 1 (tag.timestamp / 2 ^ 24) ++ bigEndian 3 0)))

theorem headerText_length (tag : Tag) : (headerText tag).length = 11 := by
  unfold headerText
  simp only [length_append, bigEndian_length]

theorem flvWriterInput_eq (valid : tag.Valid) :
    flvWriterInput tag = .ok (headerText tag ++ (vecBytes tag.payload ++
      flvTagSizeWrite ((tag.payload.length % 2 ^ 32 + 11) % 2 ^ 32))) := by
  have small : tag.type < 32 := by
    rcases valid.type with type | type | type
    · omega
    · omega
    · omega
  have same : tag.type % 256 = tag.type := Nat.mod_eq_of_lt (by omega)
  unfold flvWriterInput flvTagHeaderWrite
  dsimp only
  rw [same, check_eq valid.type, ok_bind, ok_bind, Nat.mod_eq_of_lt small]
  rfl

theorem flvTagHeaderRead_eq (valid : tag.Valid) :
    flvTagHeaderRead (headerText tag) =
      .ok ⟨0, tag.type, tag.payload.length % 2 ^ 24, tag.timestamp, 0⟩ := by
  have small : tag.type < 32 := by
    rcases valid.type with type | type | type
    · omega
    · omega
    · omega
  have timestamp := valid.timestamp
  have bits : 256 ^ 3 = 2 ^ 24 := by decide
  have type : field (headerText tag) 0 1 = tag.type := by
    unfold headerText
    rw [field_first _ _ (bigEndian_length _ _), bigValue_of_lt (by omega)]
  have size : field (headerText tag) 1 3 = tag.payload.length % 2 ^ 24 := by
    unfold headerText
    rw [field_behind _ _ _ (bigEndian_length _ _) (bigEndian_length _ _), bigValue_bigEndian,
      bits]
    omega
  have low : field (headerText tag) 4 3 = tag.timestamp % 2 ^ 24 := by
    unfold headerText
    rw [← append_assoc (bigEndian 1 tag.type), field_behind _ _ _
      (by rw [length_append, bigEndian_length, bigEndian_length]) (bigEndian_length _ _),
      bigValue_bigEndian, bits]
  have high : field (headerText tag) 7 1 = tag.timestamp / 2 ^ 24 := by
    unfold headerText
    rw [← append_assoc (bigEndian 1 tag.type), ← append_assoc, field_behind _ _ _
      (by simp only [length_append, bigEndian_length]) (bigEndian_length _ _),
      bigValue_of_lt (by omega)]
  have streamId : field (headerText tag) 8 3 = 0 := by
    unfold headerText
    rw [← append_assoc (bigEndian 1 tag.type), ← append_assoc, ← append_assoc,
      ← append_nil (bigEndian 3 0), field_behind _ _ _
      (by simp only [length_append, bigEndian_length]) (bigEndian_length _ _),
      bigValue_of_lt (by decide)]
  unfold flvTagHeaderRead
  rw [check_eq (Nat.le_of_eq (headerText_length tag).symm), ok_bind]
  dsimp only
  rw [type, Nat.mod_eq_of_lt small, check_eq valid.type, ok_bind, size, low, high, streamId]
  have none : tag.type / 32 % 2 = 0 := by omega
  have time : tag.timestamp % 2 ^ 24 + tag.timestamp / 2 ^ 24 * 2 ^ 24 = tag.timestamp := by omega
  rw [none, time]

theorem flvReaderRead_header (valid : tag.Valid) (rest : List UInt8) :
    flvReaderRead bytes (headerText tag ++ rest) =
      readBody bytes ⟨0, tag.type, tag.payload.length % 2 ^ 24, tag.timestamp, 0⟩ rest := by
  have length := headerText_length tag
  have first : (headerText tag ++ rest).take 11 = headerText tag := by
    rw [← length, take_left]
  have behind : (headerText tag ++ rest).drop 11 = rest := by
    rw [← length, drop_left]
  unfold flvReaderRead
  dsimp only
  rw [first, behind, if_neg (not_not_intro length), flvTagHeaderRead_eq valid, ok_bind]

/-! ## Tags -/

theorem vecBytes_short {data : List UInt8} (short : data.length < 2 ^ 24) : vecBytes data = data := by
  have same : int32 data.length = data.length := by
    unfold int32
    apply Int.bmod_eq_of_le
    · omega
    · omega
  unfold vecBytes
  rw [same, Int.toNat_natCast, take_length]

theorem readBody_eq {type timestamp : Nat} {payload : List UInt8} (short : payload.length < 2 ^ 24)
    (fits : payload.length ≤ bytes) (rest : List UInt8) :
    readBody bytes ⟨0, type, payload.length, timestamp, 0⟩
        (payload ++ (flvTagSizeWrite (payload.length + 11) ++ rest)) =
      .ok (1, some ⟨type, timestamp, payload⟩, rest) := by
  have width : (flvTagSizeWrite (payload.length + 11)).length = 4 := bigEndian_length _ _
  have size : (flvTagSizeWrite (payload.length + 11) ++ rest).take 4 =
      flvTagSizeWrite (payload.length + 11) := by
    rw [← width, take_left]
  have behind : (flvTagSizeWrite (payload.length + 11) ++ rest).drop 4 = rest := by
    rw [← width, drop_left]
  have value : bigValue (flvTagSizeWrite (payload.length + 11)) = payload.length + 11 :=
    bigValue_of_lt (by omega)
  unfold readBody
  dsimp only
  rw [if_neg (by omega), take_left, drop_left, if_neg (not_not_intro rfl), size, behind,
    if_neg (not_not_intro width), check_eq rfl, ok_bind, check_eq (by rw [value]; omega), ok_bind]

theorem flvReaderRead_tag (valid : tag.Valid) (short : tag.payload.length < 2 ^ 24)
    (fits : tag.payload.length ≤ bytes) {text : List UInt8} (written : flvWriterInput tag = .ok text)
    (rest : List UInt8) : flvReaderRead bytes (text ++ rest) = .ok (1, some tag, rest) := by
  rw [flvWriterInput_eq valid] at written
  rw [← Except.ok.inj written, vecBytes_short short, append_assoc, append_assoc,
    flvReaderRead_header valid, Nat.mod_eq_of_lt short, Nat.mod_eq_of_lt (by omega : _ < 2 ^ 32),
    Nat.mod_eq_of_lt (by omega : _ < 2 ^ 32)]
  exact readBody_eq short fits rest

theorem readBody_length {header : TagHeader} {source behind : List UInt8}
    (read : readBody bytes header source = .ok (1, some tag, behind)) :
    tag.payload.length = header.size := by
  unfold readBody at read
  dsimp only at read
  split at read
  · cases read
  · split at read
    · cases read
    · next whole =>
        split at read
        · cases read
        · obtain ⟨-, -, read⟩ := ok_of_bind read
          obtain ⟨-, -, read⟩ := ok_of_bind read
          rw [← (Option.some.inj (Prod.mk.inj (Prod.mk.inj (Except.ok.inj read)).2).1)]
          exact not_not.mp whole

/-! ## Files -/

/-- The calls of `flv_reader_read` give the tags, and then the end of the file. -/
def ReadsBack (bytes : Nat) : List Tag → List UInt8 → Prop
  | [], source => ∃ behind, flvReaderRead bytes source = .ok (0, none, behind)
  | tag :: tags, source => ∃ behind, flvReaderRead bytes source = .ok (1, some tag, behind) ∧
      ReadsBack bytes tags behind

/-- The end-of-sequence tag of `flv_writer_destroy`. -/
def eosTag : Tag := ⟨9, 0, [0x17, 2, 0, 0, 0]⟩

theorem flvWriteEos_eq : flvWriteEos = flvWriterInput eosTag := rfl

theorem eosTag_valid : eosTag.Valid := ⟨.inl rfl, by decide⟩

theorem flvWriteTags_ok (valid : ∀ tag ∈ tags, tag.Valid) :
    ∃ text, flvWriteTags tags = .ok text := by
  induction tags with
  | nil => exact ⟨_, (flvWriteEos_eq).trans (flvWriterInput_eq eosTag_valid)⟩
  | cons tag tags ih =>
    obtain ⟨text, written⟩ := ih (forall_mem_cons.mp valid).2
    rw [flvWriteTags, flvWriterInput_eq (valid tag mem_cons_self), ok_bind, written, ok_bind]
    exact ⟨_, rfl⟩

theorem flvWriteTags_readsBack (valid : ∀ tag ∈ tags, tag.Valid)
    (fits : ∀ tag ∈ tags, tag.payload.length ≤ bytes) (room : 5 ≤ bytes) {text : List UInt8}
    (written : flvWriteTags tags = .ok text) :
    ReadsBack bytes (tags ++ [eosTag]) text ↔ ∀ tag ∈ tags, tag.payload.length < 2 ^ 24 := by
  induction tags generalizing text with
  | nil =>
    have read := @flvReaderRead_tag bytes eosTag eosTag_valid (by decide) room text written []
    rw [append_nil] at read
    simp only [not_mem_nil, false_implies, implies_true, iff_true]
    exact ⟨[], read, _, rfl⟩
  | cons tag tags ih =>
    obtain ⟨first, firstWritten, written⟩ := ok_of_bind written
    obtain ⟨later, laterWritten, written⟩ := ok_of_bind written
    rw [← Except.ok.inj written, forall_mem_cons,
      ← ih (forall_mem_cons.mp valid).2
        (forall_mem_cons.mp fits).2 laterWritten]
    have tagValid := valid tag mem_cons_self
    constructor
    · rintro ⟨behind, read, rest⟩
      have short : tag.payload.length < 2 ^ 24 := by
        have header := read
        rw [flvWriterInput_eq tagValid] at firstWritten
        rw [← Except.ok.inj firstWritten, append_assoc, flvReaderRead_header tagValid] at header
        have length := readBody_length header
        dsimp only at length
        omega
      have known := flvReaderRead_tag tagValid short (fits tag mem_cons_self) firstWritten later
      rw [known] at read
      have same : later = behind :=
        (Prod.mk.inj (Prod.mk.inj (Except.ok.inj read)).2).2
      exact ⟨short, same ▸ rest⟩
    · rintro ⟨short, rest⟩
      exact ⟨later, flvReaderRead_tag tagValid short (fits tag mem_cons_self) firstWritten
        later, rest⟩

theorem flvHeaderRead_eq (audio video : Bool) :
    flvHeaderRead (flvHeaderWrite audio video) = .ok 9 := by
  cases audio <;> cases video <;> rfl

theorem flvReadHeader_eq (audio video : Bool) (rest : List UInt8) :
    flvReadHeader (flvWriteHeader audio video ++ rest) = .ok (0, rest) := by
  have length : (flvHeaderWrite audio video).length = 9 := by
    cases audio <;> cases video <;> rfl
  have whole : flvWriteHeader audio video ++ rest =
      flvHeaderWrite audio video ++ (flvTagSizeWrite 0 ++ rest) := append_assoc _ _ _
  have header : (flvWriteHeader audio video ++ rest).take 9 = flvHeaderWrite audio video := by
    rw [whole, ← length, take_left]
  have behind : (flvWriteHeader audio video ++ rest).drop 9 = flvTagSizeWrite 0 ++ rest := by
    rw [whole, ← length, drop_left]
  have skipped : skipHeader (9 - 9) (flvTagSizeWrite 0 ++ rest) = flvTagSizeWrite 0 ++ rest := by
    rw [skipHeader, if_neg (by decide)]
  have width : (flvTagSizeWrite 0).length = 4 := bigEndian_length _ _
  have size : (flvTagSizeWrite 0 ++ rest).take 4 = flvTagSizeWrite 0 := by
    rw [← width, take_left]
  have last : (flvTagSizeWrite 0 ++ rest).drop 4 = rest := by
    rw [← width, drop_left]
  have zero : bigValue (flvTagSizeWrite 0) = 0 := bigValue_of_lt (by decide)
  unfold flvReadHeader
  dsimp only
  rw [header, behind, if_neg (not_not_intro length), flvHeaderRead_eq, ok_bind, skipped,
    check_eq (by decide), ok_bind, size, if_neg (not_not_intro width), check_eq zero, ok_bind,
    if_pos zero, last]

/-- The header and the tags come back, the one for the end of the sequence last. -/
def FileReadsBack (bytes : Nat) (tags : List Tag) (file : List UInt8) : Prop :=
  ∃ rest, flvReadHeader file = .ok (0, rest) ∧ ReadsBack bytes (tags ++ [eosTag]) rest

theorem fileReadsBack_iff (audio video : Bool) (valid : ∀ tag ∈ tags, tag.Valid)
    (fits : ∀ tag ∈ tags, tag.payload.length ≤ bytes) (room : 5 ≤ bytes) :
    ∃ file, flvFile audio video tags = .ok file ∧
      (FileReadsBack bytes tags file ↔ ∀ tag ∈ tags, tag.payload.length < 2 ^ 24) := by
  obtain ⟨text, written⟩ := flvWriteTags_ok valid
  refine ⟨flvWriteHeader audio video ++ text, ?_, ?_⟩
  · rw [flvFile, written, ok_bind]
  · rw [← flvWriteTags_readsBack valid fits room written]
    constructor
    · rintro ⟨rest, header, read⟩
      rw [flvReadHeader_eq] at header
      rw [(Prod.mk.inj (Except.ok.inj header)).2]
      exact read
    · intro read
      exact ⟨text, flvReadHeader_eq audio video text, read⟩

/-- The file is written, and is read back exactly if every payload fits the 24 bits of its size. -/
theorem flvFile_readsBack_iff (audio video : Bool) (valid : ∀ tag ∈ tags, tag.Valid)
    (fits : ∀ tag ∈ tags, tag.payload.length ≤ bytes) (room : 5 ≤ bytes) :
    ∃ file, flvFile audio video tags = .ok file ∧
      (FileReadsBack bytes tags file ↔ ∀ tag ∈ tags, tag.payload.length < 2 ^ 24) :=
  fileReadsBack_iff audio video valid fits room

/-- Script data, video and audio; the time of the audio tag has all its 32 bits set, and the video
tag is empty. -/
theorem shortTag_readsBack_iff :
    let tags : List Tag := [⟨18, 0, [2, 0, 0]⟩, ⟨9, 40, []⟩, ⟨8, 0xFFFFFFFF, [1, 2, 3, 4, 5]⟩]
    ∃ file, flvFile true true tags = .ok file ∧
      (FileReadsBack 5 tags file ↔ ∀ tag ∈ tags, tag.payload.length < 2 ^ 24) :=
  flvFile_readsBack_iff true true
    (by
      simp only [forall_mem_cons]
      exact ⟨⟨.inr (.inr rfl), by decide⟩, ⟨.inl rfl, by decide⟩, ⟨.inr (.inl rfl), by decide⟩,
        forall_mem_nil _⟩)
    (by decide) (by decide)

theorem longTag_lost {payload : List UInt8} (length : payload.length = 2 ^ 24) :
    ∃ file, flvFile true true [⟨9, 0, payload⟩] = .ok file ∧
      ¬FileReadsBack (2 ^ 24) [⟨9, 0, payload⟩] file := by
  obtain ⟨file, written, readsBack⟩ := @fileReadsBack_iff (2 ^ 24) [⟨9, 0, payload⟩] true true
    (fun tag member => by
      rw [mem_singleton.mp member]
      exact ⟨.inl rfl, Nat.zero_lt_succ _⟩)
    (fun tag member => by
      rw [mem_singleton.mp member]
      exact Nat.le_of_eq length) (by decide)
  refine ⟨file, written, ?_⟩
  rw [readsBack]
  intro short
  have impossible := short _ mem_cons_self
  dsimp only at impossible
  omega

/-- A payload of `2 ^ 24` bytes is written with the size zero. -/
theorem longTag_not_readsBack : ∃ file,
    flvFile true true [⟨9, 0, List.replicate (2 ^ 24) 0⟩] = .ok file ∧
      ¬FileReadsBack (2 ^ 24) [⟨9, 0, List.replicate (2 ^ 24) 0⟩] file :=
  longTag_lost length_replicate

end CLibs.Flv
