import CLibs.MovRecords
import CLibs.TracedPrograms

/-!
# The walk of `mov_reader_box` over the boxes of a file

The walk reads a header, hands the box on to the parser of its type and goes on
behind it.  Containers and sample entries walk again inside the box.  The
parsers of `mov-reader.c` and the sample entries of `mov-stsd.c` are written
out; a parser of another file is a parameter, which may do anything but write to
the file or forget an error, and need not come back.  Memory is available.
-/

namespace CLibs.Mov

/-! ## Positions -/

def uint64Max : Nat := 2 ^ 64 - 1

/-- A difference of two `uint64_t`. -/
def sub64 (value other : Nat) : Nat := (value + (2 ^ 64 - other % 2 ^ 64)) % 2 ^ 64

/-- `mov_buffer_skip`; a seek beyond the end fails. -/
def movBufferSkip (file : ByteFile) (size : Nat) : ByteFile :=
  if file.error then file
  else if (file.position + size) % 2 ^ 64 ≤ file.bytes.length then
    { file with position := (file.position + size) % 2 ^ 64 }
  else { file with error := true }

def movBufferError (file : ByteFile) : Int := if file.error then -1 else 0

/-! ## Boxes on the way -/

/-- Where a box stands in the file: under a box, as a sample entry, or as an
entry of `dref`. -/
inductive Kind
  | box
  | entry
  | subtitle
  | reference
  deriving DecidableEq

/-- A box as its header gives it. -/
structure Place where
  kind : Kind
  start : Nat
  header : Nat
  size : Nat
  deriving DecidableEq

/-- The walk hands a box on, and is done with it. -/
inductive Visit
  | handed (place : Place) (file : ByteFile)
  | passed (place : Place) (file : ByteFile)
  deriving DecidableEq

def readPlace (file : ByteFile) : Place × Nat × ByteFile :=
  let size := r32 file
  let type := r32 size.2
  if size.1 = 1 then
    let large := r64 type.2
    (⟨.box, file.position, 16, large.1⟩, type.1, large.2)
  else (⟨.box, file.position, 8, size.1⟩, type.1, type.2)

def Place.ToEnd (place : Place) : Prop :=
  place.kind = .box ∧ place.header = 8 ∧ place.size = 0

instance (place : Place) : Decidable place.ToEnd := inferInstanceAs (Decidable (_ ∧ _ ∧ _))

/-- The size after both special forms. -/
def Place.largeSize (place : Place) : Nat := if place.ToEnd then uint64Max else place.size

def Place.bytesBehind (place : Place) (parent : Box) (bytes : Nat) : Nat :=
  if place.largeSize = uint64Max then parent.size else (bytes + place.size) % 2 ^ 64

/-- The size that the parser gets. -/
def Place.boxSize (place : Place) : Nat :=
  if place.largeSize = uint64Max then uint64Max else sub64 place.size place.header

/-! ## The parse table -/

/-- The parsers of the table; `other` is one of another file. -/
inductive Parse
  | mdat
  | free
  | trak
  | dref
  | btrt
  | uuid
  | moof
  | mfro
  | default
  | stsd
  | other
  deriving DecidableEq

def tag (a b c d : Char) : Nat := bigValue (movTag a b c d)

def movNull : Nat := 0

def movRoot : Nat := tag 'r' 'o' 'o' 't'

/-- `s_mov_parse_table`: a type, its parent and its parser. -/
def movParseTable : List (Nat × Nat × Parse) :=
  [(tag 'a' 'v' '1' 'C', movNull, .other),
    (tag 'a' 'v' 'c' 'C', movNull, .other),
    (tag 'b' 't' 'r' 't', movNull, .btrt),
    (tag 'c' 'o' '6' '4', tag 's' 't' 'b' 'l', .other),
    (tag 'C' 'o' 'L' 'L', tag 's' 't' 'b' 'l', .other),
    (tag 'c' 't' 't' 's', tag 's' 't' 'b' 'l', .other),
    (tag 'c' 's' 'l' 'g', tag 's' 't' 'b' 'l', .other),
    (tag 'd' 'i' 'n' 'f', tag 'm' 'i' 'n' 'f', .default),
    (tag 'd' 'O' 'p' 's', movNull, .other),
    (tag 'd' 'r' 'e' 'f', tag 'd' 'i' 'n' 'f', .dref),
    (tag 'e' 'd' 't' 's', tag 't' 'r' 'a' 'k', .default),
    (tag 'e' 'l' 's' 't', tag 'e' 'd' 't' 's', .other),
    (tag 'e' 's' 'd' 's', movNull, .other),
    (tag 'f' 'r' 'e' 'e', movNull, .free),
    (tag 'f' 't' 'y' 'p', movRoot, .other),
    (tag 'g' 'm' 'i' 'n', tag 'g' 'm' 'h' 'd', .other),
    (tag 'g' 'm' 'h' 'd', tag 'm' 'i' 'n' 'f', .default),
    (tag 'h' 'd' 'l' 'r', tag 'm' 'd' 'i' 'a', .other),
    (tag 'h' 'v' 'c' 'C', movNull, .other),
    (tag 'l' 'e' 'v' 'a', tag 'm' 'v' 'e' 'x', .other),
    (tag 'm' 'd' 'a' 't', movRoot, .mdat),
    (tag 'm' 'd' 'h' 'd', tag 'm' 'd' 'i' 'a', .other),
    (tag 'm' 'd' 'i' 'a', tag 't' 'r' 'a' 'k', .default),
    (tag 'm' 'e' 'h' 'd', tag 'm' 'v' 'e' 'x', .other),
    (tag 'm' 'f' 'h' 'd', tag 'm' 'o' 'o' 'f', .other),
    (tag 'm' 'f' 'r' 'a', movRoot, .default),
    (tag 'm' 'f' 'r' 'o', tag 'm' 'f' 'r' 'a', .mfro),
    (tag 'm' 'i' 'n' 'f', tag 'm' 'd' 'i' 'a', .default),
    (tag 'm' 'o' 'o' 'v', movRoot, .default),
    (tag 'm' 'o' 'o' 'f', movRoot, .moof),
    (tag 'm' 'v' 'e' 'x', tag 'm' 'o' 'o' 'v', .default),
    (tag 'm' 'v' 'h' 'd', tag 'm' 'o' 'o' 'v', .other),
    (tag 'n' 'm' 'h' 'd', tag 'm' 'i' 'n' 'f', .other),
    (tag 'p' 'a' 's' 'p', movNull, .other),
    (tag 's' 'i' 'd' 'x', movRoot, .other),
    (tag 's' 'k' 'i' 'p', movNull, .free),
    (tag 'S' 'm' 'D' 'm', tag 'm' 'i' 'n' 'f', .other),
    (tag 's' 'm' 'h' 'd', tag 'm' 'i' 'n' 'f', .other),
    (tag 's' 't' 'b' 'l', tag 'm' 'i' 'n' 'f', .default),
    (tag 's' 't' 'c' 'o', tag 's' 't' 'b' 'l', .other),
    (tag 's' 't' 's' 'c', tag 's' 't' 'b' 'l', .other),
    (tag 's' 't' 's' 'd', tag 's' 't' 'b' 'l', .stsd),
    (tag 's' 't' 's' 's', tag 's' 't' 'b' 'l', .other),
    (tag 's' 't' 's' 'z', tag 's' 't' 'b' 'l', .other),
    (tag 's' 't' 't' 's', tag 's' 't' 'b' 'l', .other),
    (tag 's' 't' 'z' '2', tag 's' 't' 'b' 'l', .other),
    (tag 't' 'e' 'x' 't', tag 'g' 'm' 'h' 'd', .other),
    (tag 't' 'f' 'd' 't', tag 't' 'r' 'a' 'f', .other),
    (tag 't' 'f' 'h' 'd', tag 't' 'r' 'a' 'f', .other),
    (tag 't' 'f' 'r' 'a', tag 'm' 'f' 'r' 'a', .other),
    (tag 't' 'k' 'h' 'd', tag 't' 'r' 'a' 'k', .other),
    (tag 't' 'r' 'a' 'k', tag 'm' 'o' 'o' 'v', .trak),
    (tag 't' 'r' 'e' 'x', tag 'm' 'v' 'e' 'x', .other),
    (tag 't' 'r' 'a' 'f', tag 'm' 'o' 'o' 'f', .default),
    (tag 't' 'r' 'u' 'n', tag 't' 'r' 'a' 'f', .other),
    (tag 'u' 'u' 'i' 'd', movNull, .uuid),
    (tag 'v' 'm' 'h' 'd', tag 'm' 'i' 'n' 'f', .other),
    (tag 'v' 'p' 'c' 'C', movNull, .other)]

def findParse (type parentType : Nat) : Option Parse :=
  (movParseTable.find? fun row => row.1 = type ∧ (row.2.1 = 0 ∨ row.2.1 = parentType)).map (·.2.2)

/-! ## Parsers -/

/-- The file and what the parsers of the boxes change. -/
structure Reader (State : Type) where
  file : ByteFile
  state : State

structure SampleEntry where
  type : Nat
  dataReferenceIndex : Nat
  fields : List Nat

/-- What the walk takes from the rest of the reader; `asserts` says whether
assertions are compiled in, `hasTrack` whether `mov->track` points to a track. -/
structure Parsers (State : Type) where
  asserts : Bool
  hasTrack : State → Bool
  handlerType : State → Nat
  describe : SampleEntry → State → State
  openTrack : State → State
  closeTrack : State → State
  openMoof : Nat → State → State
  other : Box → Reader State → Option (Int × Reader State)
  other_bytes : ∀ box reader, ∀ parsed ∈ other box reader, parsed.2.file.bytes = reader.file.bytes
  other_error : ∀ box reader, ∀ parsed ∈ other box reader, reader.file.error = true →
    parsed.2.file.error = true

section Walk

variable {State : Type}

def Reader.skip (reader : Reader State) (size : Nat) : Reader State :=
  { reader with file := movBufferSkip reader.file size }

abbrev Nested (State : Type) := Box → Reader State → Traced Visit (Int × Reader State)

def Parsers.check (parsers : Parsers State) (condition : Prop) [Decidable condition] :
    Except Fault Unit :=
  if parsers.asserts then CLibs.check condition else .ok ()

def assertion (parsers : Parsers State) (condition : Prop) [Decidable condition] :
    Traced Visit Unit :=
  Traced.lift (parsers.check condition)

/-- An access through `mov->track`. -/
def Parsers.useTrack (parsers : Parsers State) (state : State) : Except Fault Unit :=
  if parsers.hasTrack state then .ok () else .error .outside

def mp4ReadExtra (nested : Nested State) (box : Box) (reader : Reader State) :
    Traced Visit (Int × Reader State) := do
  let walked ← nested box reader
  let moved := sub64 walked.2.file.position reader.file.position
  pure (walked.1, walked.2.skip (sub64 box.size moved))

/-- `mov_read_sample_entry`: the size, the type, the reference index and the file behind them. -/
def movReadSampleEntry (file : ByteFile) : Box × Nat × ByteFile :=
  let box := readBoxHeader file
  let index := r16 (movBufferSkip box.2 6)
  (box.1, index.1, index.2)

/-- The extension of a QuickTime sound description of version 1 or 2. -/
def readSoundVersion (version size : Nat) (file : ByteFile) : Nat × ByteFile :=
  if version = 1 ∧ size ≥ 16 then (sub64 size 16, (readEntries r32 4 file).2)
  else if version = 2 ∧ size ≥ 36 then
    (sub64 size 36, (readEntries r32 6 (r64 (r32 file).2).2).2)
  else (size, file)

structure Description where
  entry : SampleEntry
  size : Nat
  extra : Nat
  file : ByteFile

def readSound (file : ByteFile) : Description :=
  let entry := movReadSampleEntry file
  let version := r16 entry.2.2
  let vendor := r32 (r16 version.2).2
  let channelcount := r16 vendor.2
  let samplesize := r16 channelcount.2
  let packetSize := r16 (r16 samplesize.2).2
  let samplerate := r32 packetSize.2
  let extra := readSoundVersion version.1 (sub64 entry.1.size 36) samplerate.2
  ⟨⟨entry.1.type, entry.2.1, [channelcount.1, samplesize.1, samplerate.1]⟩, entry.1.size, extra.1,
    extra.2⟩

def readVisual (file : ByteFile) : Description :=
  let entry := movReadSampleEntry file
  let width := r16 (movBufferSkip entry.2.2 16)
  let height := r16 width.2
  let horizresolution := r32 height.2
  let vertresolution := r32 horizresolution.2
  let dataSize := r32 vertresolution.2
  let frameCount := r16 dataSize.2
  let depth := r16 (movBufferSkip frameCount.2 32)
  ⟨⟨entry.1.type, entry.2.1, [width.1, height.1, horizresolution.1, vertresolution.1, frameCount.1,
    depth.1]⟩, entry.1.size, sub64 entry.1.size 86, movBufferSkip depth.2 2⟩

def readDescribed (parsers : Parsers State) (nested : Nested State) (described : Description)
    (reader : Reader State) : Traced Visit (Reader State) := do
  Traced.emit (.handed ⟨.entry, reader.file.position, 8, described.size⟩ described.file)
  let walked ← mp4ReadExtra nested ⟨described.extra, described.entry.type⟩
    ⟨described.file, parsers.describe described.entry reader.state⟩
  Traced.emit (.passed ⟨.entry, reader.file.position, 8, described.size⟩ walked.2.file)
  pure walked.2

def movReadAudio (parsers : Parsers State) (nested : Nested State) (reader : Reader State) :
    Traced Visit (Reader State) :=
  readDescribed parsers nested (readSound reader.file) reader

def movReadVideo (parsers : Parsers State) (nested : Nested State) (reader : Reader State) :
    Traced Visit (Reader State) :=
  readDescribed parsers nested (readVisual reader.file) reader

/-- `mov_read_hint_sample_entry`, `mov_read_meta_sample_entry` and `mov_read_text_sample_entry`. -/
def movReadPlainEntry (parsers : Parsers State) (reader : Reader State) :
    Traced Visit (Reader State) := do
  let entry := movReadSampleEntry reader.file
  Traced.emit (.handed ⟨.entry, reader.file.position, 8, entry.1.size⟩ entry.2.2)
  let file := movBufferSkip entry.2.2 (sub64 entry.1.size 16)
  Traced.emit (.passed ⟨.entry, reader.file.position, 8, entry.1.size⟩ file)
  pure ⟨file, parsers.describe ⟨entry.1.type, entry.2.1, []⟩ reader.state⟩

/-- The 30 bytes that `mov_read_tx3g` reads before the walk. -/
def readTx3gFields (file : ByteFile) : ByteFile :=
  let record := readEntries r8 10 file
  let style := readEntries r16 7 record.2
  let color := readEntries r8 6 style.2
  color.2

def movReadTx3g (nested : Nested State) (box : Box) (reader : Reader State) :
    Traced Visit (Int × Reader State) :=
  mp4ReadExtra nested ⟨sub64 box.size 30, box.type⟩ ⟨readTx3gFields reader.file, reader.state⟩

/-- An entry that is not `tx3g` takes its own header off twice. -/
def movReadSubtitleEntry (parsers : Parsers State) (nested : Nested State)
    (reader : Reader State) : Traced Visit (Reader State) := do
  let entry := movReadSampleEntry reader.file
  let size := sub64 entry.1.size 16
  if entry.1.type = tag 't' 'x' '3' 'g' then
    Traced.emit (.handed ⟨.entry, reader.file.position, 8, entry.1.size⟩ entry.2.2)
    let walked ← movReadTx3g nested ⟨size, entry.1.type⟩ ⟨entry.2.2, reader.state⟩
    Traced.emit (.passed ⟨.entry, reader.file.position, 8, entry.1.size⟩ walked.2.file)
    pure ⟨walked.2.file, parsers.describe ⟨entry.1.type, entry.2.1, []⟩ walked.2.state⟩
  else
    Traced.emit (.handed ⟨.subtitle, reader.file.position, 8, entry.1.size⟩ entry.2.2)
    let file := movBufferSkip entry.2.2 (sub64 size 16)
    Traced.emit (.passed ⟨.subtitle, reader.file.position, 8, entry.1.size⟩ file)
    pure ⟨file, parsers.describe ⟨entry.1.type, entry.2.1, []⟩ reader.state⟩

/-- The handlers whose sample entries are skipped. -/
def plainHandlers : List Nat :=
  [tag 'h' 'i' 'n' 't', tag 'm' 'e' 't' 'a', tag 'c' 'l' 'c' 'p', tag 't' 'e' 'x' 't',
    tag 'a' 'l' 'i' 's']

def readEntryOf (parsers : Parsers State) (nested : Nested State) (handler : Nat)
    (reader : Reader State) : Traced Visit (Reader State) :=
  if handler = tag 's' 'o' 'u' 'n' then movReadAudio parsers nested reader
  else if handler = tag 'v' 'i' 'd' 'e' then movReadVideo parsers nested reader
  else if handler ∈ plainHandlers then movReadPlainEntry parsers reader
  else if handler = tag 's' 'u' 'b' 't' ∨ handler = tag 's' 'b' 't' 'l' then
    movReadSubtitleEntry parsers nested reader
  else do
    assertion parsers False
    movReadPlainEntry parsers reader

/-- An entry of any kind is stored in the track. -/
def readSampleEntry (parsers : Parsers State) (nested : Nested State) (reader : Reader State) :
    Traced Visit (Reader State) := do
  Traced.lift (parsers.useTrack reader.state)
  readEntryOf parsers nested (parsers.handlerType reader.state) reader

def readSampleEntries (parsers : Parsers State) (nested : Nested State) :
    Nat → Reader State → Traced Visit (Reader State)
  | 0, reader => pure reader
  | count + 1, reader => do
      let next ← readSampleEntry parsers nested reader
      readSampleEntries parsers nested count next

def movReadStsd (parsers : Parsers State) (nested : Nested State) (reader : Reader State) :
    Traced Visit (Int × Reader State) := do
  let count := r32 (r24 (r8 reader.file).2).2
  Traced.lift (parsers.useTrack reader.state)
  let read ← readSampleEntries parsers nested count.1 ⟨count.2, reader.state⟩
  pure (movBufferError read.file, read)

/-- The entries of `dref`; what is skipped is computed in 32 bits. -/
def readReferences : Nat → ByteFile → Traced Visit ByteFile
  | 0, file => pure file
  | count + 1, file => do
      let box := readBoxHeader file
      let version := r32 box.2
      Traced.emit (.handed ⟨.reference, file.position, 8, box.1.size⟩ version.2)
      let next := movBufferSkip version.2 ((box.1.size + 2 ^ 32 - 12) % 2 ^ 32)
      Traced.emit (.passed ⟨.reference, file.position, 8, box.1.size⟩ next)
      readReferences count next

def movReadDref (reader : Reader State) : Traced Visit (Int × Reader State) := do
  let count := r32 (r24 (r8 reader.file).2).2
  let file ← readReferences count.1 count.2
  pure (0, ⟨file, reader.state⟩)

/-- The user type is only looked at in a box that is longer. -/
def movReadUuid (box : Box) (reader : Reader State) : Int × Reader State :=
  let file := if box.size > 16 then movBufferSkip (reader.file.read 16).2 (sub64 box.size 16)
    else reader.file
  (movBufferError file, ⟨file, reader.state⟩)

/-- The `mov_apply` passes over the track behind a walk that returned 0; without a track
header in the box there is no track. -/
def closeTrak (parsers : Parsers State) (walked : Int × Reader State) :
    Except Fault (Int × Reader State) :=
  if walked.1 = 0 then do
    parsers.useTrack walked.2.state
    pure (0, { walked.2 with state := parsers.closeTrack walked.2.state })
  else pure walked

def movReadTrak (parsers : Parsers State) (nested : Nested State) (box : Box)
    (reader : Reader State) : Traced Visit (Int × Reader State) := do
  let walked ← nested box { reader with state := parsers.openTrack reader.state }
  Traced.lift (closeTrak parsers walked)

def movReadMoof (parsers : Parsers State) (nested : Nested State) (box : Box)
    (reader : Reader State) : Traced Visit (Int × Reader State) :=
  nested box
    { reader with state := parsers.openMoof (sub64 reader.file.position 8) reader.state }

/-- The parsers that do not walk. -/
def Parsers.readLeaf (parsers : Parsers State) (parse : Parse) (box : Box)
    (reader : Reader State) : Except Fault (Int × Reader State) :=
  match parse with
  | .mdat => .ok (movBufferError (reader.skip box.size).file, reader.skip box.size)
  | .free => .ok (movBufferError (reader.skip box.size).file, reader.skip box.size)
  | .btrt => .ok (0, ⟨(readEntries r32 3 reader.file).2, reader.state⟩)
  | .uuid => .ok (movReadUuid box reader)
  | .mfro =>
    let file := (readEntries r32 2 reader.file).2
    .ok (movBufferError file, ⟨file, reader.state⟩)
  | _ => (parsers.other box reader).elim (.error .outside) .ok

def Parsers.parse (parsers : Parsers State) (nested : Nested State) (parse : Parse) (box : Box)
    (reader : Reader State) : Traced Visit (Int × Reader State) :=
  match parse with
  | .trak => movReadTrak parsers nested box reader
  | .dref => movReadDref reader
  | .moof => movReadMoof parsers nested box reader
  | .default => nested box reader
  | .stsd => movReadStsd parsers nested reader
  | leaf => Traced.lift (parsers.readLeaf leaf box reader)

/-- A box from behind its header to its end. -/
def passBox (parsers : Parsers State) (nested : Nested State) (parent : Box) (place : Place)
    (box : Box) (reader : Reader State) : Traced Visit (Int × Reader State) :=
  match findParse box.type parent.type with
  | none => do
      Traced.emit (.passed place (reader.skip box.size).file)
      pure (0, reader.skip box.size)
  | some parse => do
      let parsed ← parsers.parse nested parse box reader
      assertion parsers (parsed.1 = 0)
      if parsed.1 ≠ 0 then pure parsed
      else do
        let moved := sub64 parsed.2.file.position reader.file.position
        assertion parsers (moved = box.size)
        Traced.emit (.passed place (parsed.2.skip (sub64 box.size moved)).file)
        pure (0, parsed.2.skip (sub64 box.size moved))

/-- A turn of the loop of `mov_reader_box` behind the header of a box; `loop` goes on with
the bytes of the parent that are used up. -/
def passPlace (parsers : Parsers State) (nested : Nested State)
    (loop : Nat → Reader State → Traced Visit (Int × Reader State)) (parent : Box) (bytes : Nat)
    (found : Place × Nat × ByteFile) (state : State) : Traced Visit (Int × Reader State) :=
  if found.1.ToEnd ∧ found.2.1 = 0 then pure (0, ⟨found.2.2, state⟩)
  else if found.1.bytesBehind parent bytes > parent.size then pure (-1, ⟨found.2.2, state⟩)
  else do
    Traced.emit (.handed found.1 found.2.2)
    let passed ← passBox parsers nested parent found.1 ⟨found.1.boxSize, found.2.1⟩
      ⟨found.2.2, state⟩
    if passed.1 ≠ 0 then pure passed
    else loop (found.1.bytesBehind parent bytes) passed.2

/-- The loop of `mov_reader_box` over the boxes inside `parent`. -/
def readBoxes (parsers : Parsers State) :
    Nat → Box → Nat → Reader State → Traced Visit (Int × Reader State)
  | 0, _, _, _ => Traced.lift (.error .fuel)
  | fuel + 1, parent, bytes, reader =>
    if (bytes + 8) % 2 ^ 64 < parent.size ∧ reader.file.error = false then
      passPlace parsers (fun box reader => readBoxes parsers fuel box 0 reader)
        (fun bytes reader => readBoxes parsers fuel parent bytes reader) parent bytes
        (readPlace reader.file) reader.state
    else pure (0, reader)

def movReaderBox (parsers : Parsers State) (fuel : Nat) (parent : Box) (reader : Reader State) :
    Traced Visit (Int × Reader State) :=
  readBoxes parsers fuel parent 0 reader

/-- The walk that `mov_reader_init` starts. -/
def walkRoot (parsers : Parsers State) (fuel : Nat) (data : List UInt8) (state : State) :
    Traced Visit (Int × Reader State) :=
  movReaderBox parsers fuel ⟨uint64Max, movRoot⟩ ⟨⟨data, 0, false⟩, state⟩

end Walk

end CLibs.Mov
