import CLibs.ByteFiles
import CLibs.FaultingPrograms
import CLibs.RunPasses

/-!
# Samples, sample tables and the io of `mov-ioutil.h`

`mov_sample_t` and `mov_stbl_t` without the sample data and the sync samples, and
the number readers and writers on a seekable file.  A table is the list of its
entries, so its count is the length; memory is available.
-/

namespace CLibs.Mov

open List

/-! ## Machine integers -/

def uint32Max : Nat := 2 ^ 32 - 1

def uint32 (value : Int) : Nat := (value % 2 ^ 32).toNat

def int32 (value : Int) : Int := Int.bmod value (2 ^ 32)

def int64 (value : Int) : Int := Int.bmod value (2 ^ 64)

theorem int64_eq_self {value : Int} (low : -2 ^ 63 ≤ value) (high : value < 2 ^ 63) :
    int64 value = value := by
  unfold int64
  rw [Int.bmod_def]
  split <;> omega

/-! ## Records -/

/-- `mov_sample_t`; the writer marks its runs in the last two fields. -/
structure Sample where
  pts : Int
  dts : Int
  offset : Nat
  bytes : Nat
  sampleDescriptionIndex : Nat
  samplesPerChunk : Nat
  firstChunk : Nat
  deriving DecidableEq, Inhabited

/-- The sample without the marks of the writer. -/
def Sample.unmarked (sample : Sample) : Sample :=
  { sample with samplesPerChunk := 0, firstChunk := 0 }

/-- `mov_stts_t`, also an entry of `ctts`. -/
structure Stts where
  sampleCount : Nat
  sampleDelta : Nat
  deriving DecidableEq, Inhabited

structure Stsc where
  firstChunk : Nat
  samplesPerChunk : Nat
  sampleDescriptionIndex : Nat
  deriving DecidableEq, Inhabited

structure Stbl where
  stsc : List Stsc
  stco : List Nat
  stts : List Stts
  ctts : List Stts
  deriving DecidableEq

def noStbl : Stbl := ⟨[], [], [], []⟩

/-! ## Numbers in a file -/

def emptyFile : ByteFile := ⟨[], 0, false⟩

theorem emptyFile_atEnd : emptyFile.AtEnd := ⟨rfl, rfl⟩

def w8 (file : ByteFile) (value : Nat) : ByteFile := file.write [UInt8.ofNat value]

def w16 (file : ByteFile) (value : Nat) : ByteFile := w8 (w8 file (value / 2 ^ 8)) value

def w24 (file : ByteFile) (value : Nat) : ByteFile := w8 (w16 file (value / 2 ^ 8)) value

def w32 (file : ByteFile) (value : Nat) : ByteFile := w16 (w16 file (value / 2 ^ 16)) value

def w64 (file : ByteFile) (value : Nat) : ByteFile := w32 (w32 file (value / 2 ^ 32)) value

/-- `mov_buffer_r8`, whose value stays zero when the read fails. -/
def r8 (file : ByteFile) : Nat × ByteFile :=
  let found := file.read 1
  (bigValue (found.1.getD [0]), found.2)

def r16 : ByteFile → Nat × ByteFile := ByteFile.readBoth 1 r8 r8

def r24 : ByteFile → Nat × ByteFile := ByteFile.readBoth 2 r8 r16

def r32 : ByteFile → Nat × ByteFile := ByteFile.readBoth 2 r16 r16

def r64 : ByteFile → Nat × ByteFile := ByteFile.readBoth 4 r32 r32

/-- `MOV_TAG`, as the four letters that are written. -/
def movTag (a b c d : Char) : List UInt8 := [a, b, c, d].map fun letter => UInt8.ofNat letter.toNat

def readEntries {Entry : Type} (entry : ByteFile → Entry × ByteFile) :
    Nat → ByteFile → List Entry × ByteFile
  | 0, file => ([], file)
  | count + 1, file =>
    let first := entry file
    let others := readEntries entry count first.2
    (first.1 :: others.1, others.2)

/-- `mov_box_t` behind the size and the type that `mov_reader_box` reads. -/
structure Box where
  size : Nat
  type : Nat
  deriving DecidableEq

def readBoxHeader (file : ByteFile) : Box × ByteFile :=
  let size := r32 file
  let type := r32 size.2
  (⟨size.1, type.1⟩, type.2)

/-! ## What the io does -/

section Io

variable {file : ByteFile} {value : Nat} {rest : List UInt8}

theorem w8_write : w8 file value = file.write (bigEndian 1 value) := rfl

theorem w16_write (inside : file.position ≤ file.bytes.length) :
    w16 file value = file.write (bigEndian 2 value) := by
  unfold w16
  rw [w8_write, w8_write, ByteFile.write_write inside]
  exact congrArg file.write (bigEndian_add 1 1 value).symm

theorem w24_write (inside : file.position ≤ file.bytes.length) :
    w24 file value = file.write (bigEndian 3 value) := by
  unfold w24
  rw [w16_write inside, w8_write, ByteFile.write_write inside]
  exact congrArg file.write (bigEndian_add 2 1 value).symm

theorem w32_write (inside : file.position ≤ file.bytes.length) :
    w32 file value = file.write (bigEndian 4 value) := by
  unfold w32
  rw [w16_write inside, w16_write (ByteFile.write_inside inside), ByteFile.write_write inside]
  exact congrArg file.write (bigEndian_add 2 2 value).symm

theorem w64_write (inside : file.position ≤ file.bytes.length) :
    w64 file value = file.write (bigEndian 8 value) := by
  unfold w64
  rw [w32_write inside, w32_write (ByteFile.write_inside inside), ByteFile.write_write inside]
  exact congrArg file.write (bigEndian_add 4 4 value).symm

theorem w8_eq (atEnd : file.AtEnd) : w8 file value = file.append (bigEndian 1 value) :=
  atEnd.write_eq

theorem w16_eq (atEnd : file.AtEnd) : w16 file value = file.append (bigEndian 2 value) :=
  (w16_write atEnd.inside).trans atEnd.write_eq

theorem w24_eq (atEnd : file.AtEnd) : w24 file value = file.append (bigEndian 3 value) :=
  (w24_write atEnd.inside).trans atEnd.write_eq

theorem w32_eq (atEnd : file.AtEnd) : w32 file value = file.append (bigEndian 4 value) :=
  (w32_write atEnd.inside).trans atEnd.write_eq

theorem w64_eq (atEnd : file.AtEnd) : w64 file value = file.append (bigEndian 8 value) :=
  (w64_write atEnd.inside).trans atEnd.write_eq

theorem w32_fill {before old behind : List UInt8} (four : old.length = 4) (position : Nat) :
    (w32 ((file.append (before ++ (old ++ behind))).seek
        (file.bytes.length + before.length)) value).seek position =
      (file.append (before ++ (bigEndian 4 value ++ behind))).seek position := by
  have inside : file.bytes.length + before.length ≤
      (file.bytes ++ (before ++ (old ++ behind))).length := by
    rw [length_append, length_append]
    omega
  rw [w32_write inside, ByteFile.fill_seek (by rw [bigEndian_length, four])]

theorem r8_reads : ByteFile.ReadsBig 1 r8 := by
  intro file data more length ahead
  have found := ahead.read_eq
  rw [length] at found
  unfold r8
  rw [found]
  rfl

theorem r16_reads : ByteFile.ReadsBig 2 r16 := r8_reads.both r8_reads

theorem r24_reads : ByteFile.ReadsBig 3 r24 := r8_reads.both r16_reads

theorem r32_reads : ByteFile.ReadsBig 4 r32 := r16_reads.both r16_reads

theorem r64_reads : ByteFile.ReadsBig 8 r64 := r32_reads.both r32_reads

theorem reads_mod {width value : Nat} {reader : ByteFile → Nat × ByteFile}
    (reads : ByteFile.ReadsBig width reader) (ahead : file.Ahead (bigEndian width value ++ rest)) :
    reader file = (value % 256 ^ width, file.skip width) ∧ (file.skip width).Ahead rest := by
  rw [← bigEndian_mod] at ahead
  exact reads.bigEndian (Nat.mod_lt _ (Nat.pow_pos (by decide))) ahead

theorem readEntries_map {Source Entry : Type} {entry : ByteFile → Entry × ByteFile}
    {value : Source → Entry} {encode : Source → List UInt8} {width : Nat} {entries : List Source}
    (reads : ∀ given ∈ entries, ∀ (file : ByteFile) (rest : List UInt8),
      file.Ahead (encode given ++ rest) →
        entry file = (value given, file.skip width) ∧ (file.skip width).Ahead rest)
    (ahead : file.Ahead (entries.flatMap encode ++ rest)) :
    readEntries entry entries.length file =
        (entries.map value, file.skip (width * entries.length)) ∧
      (file.skip (width * entries.length)).Ahead rest := by
  induction entries generalizing file with
  | nil => exact ⟨rfl, ahead⟩
  | cons given entries ih =>
    rw [flatMap_cons, append_assoc] at ahead
    obtain ⟨first, behind⟩ := reads given mem_cons_self file _ ahead
    obtain ⟨others, last⟩ := ih
      (forall_mem_cons.mp reads).2 behind
    have total : (file.skip width).skip (width * entries.length) =
        file.skip (width * (given :: entries).length) := by
      rw [ByteFile.skip_skip, length_cons, Nat.mul_succ, Nat.add_comm width]
    rw [total] at others last
    refine ⟨?_, last⟩
    rw [length_cons, readEntries, first]
    dsimp only
    rw [others]
    rfl

theorem readEntries_eq {Entry : Type} {entry : ByteFile → Entry × ByteFile}
    {encode : Entry → List UInt8} {width : Nat} {entries : List Entry}
    (reads : ∀ given ∈ entries, ∀ (file : ByteFile) (rest : List UInt8),
      file.Ahead (encode given ++ rest) →
        entry file = (given, file.skip width) ∧ (file.skip width).Ahead rest)
    (ahead : file.Ahead (entries.flatMap encode ++ rest)) :
    readEntries entry entries.length file = (entries, file.skip (width * entries.length)) ∧
      (file.skip (width * entries.length)).Ahead rest := by
  have mapped := readEntries_map reads ahead
  rwa [map_id'] at mapped

end Io

end CLibs.Mov
