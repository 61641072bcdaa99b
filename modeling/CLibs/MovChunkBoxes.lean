import CLibs.MovChunkTables

/-!
# The boxes that locate samples

The text of `stsc`, `stsz`, `stco` and `co64`: each box is appended to the file
and read back from it.  `stsc` has an entry for each change of the number of
samples or of the description, and its size and count are filled in at the end.
-/

namespace CLibs.Mov

open List

/-! ## Writing `stsc` -/

def Sample.stsc (sample : Sample) : Stsc :=
  ⟨sample.firstChunk, sample.samplesPerChunk, sample.sampleDescriptionIndex⟩

def Stsc.text (entry : Stsc) : List UInt8 :=
  bigEndian 4 entry.firstChunk ++
    (bigEndian 4 entry.samplesPerChunk ++ bigEndian 4 entry.sampleDescriptionIndex)

def stscEntries : Option Sample → List Sample → List Stsc
  | _, [] => []
  | chunk, sample :: samples =>
    if repeats chunk sample then stscEntries chunk samples
    else sample.stsc :: stscEntries (some sample) samples

section Stsc

variable {file : ByteFile} {runs : List (Run Sample)} {chunk : Option Sample} {entry : Nat}

theorem writeStscEntries_members {members samples : List Sample}
    (zero : ∀ sample ∈ members, sample.firstChunk = 0) :
    writeStscEntries chunk entry file (members ++ samples) =
      writeStscEntries chunk entry file samples := by
  induction members with
  | nil => rfl
  | cons sample members ih =>
    rw [cons_append, writeStscEntries, if_pos (.inl (zero sample mem_cons_self))]
    exact ih (forall_mem_cons.mp zero).2

theorem writeStsc_eq (atEnd : file.AtEnd) (sample : Sample) :
    w32 (w32 (w32 file sample.firstChunk) sample.samplesPerChunk)
        sample.sampleDescriptionIndex = file.append sample.stsc.text := by
  rw [w32_eq atEnd, w32_eq atEnd.append, ByteFile.append_append, w32_eq atEnd.append,
    ByteFile.append_append, append_assoc]
  rfl

theorem writeStscEntries_eq (heads : ∀ run ∈ runs, run.head.firstChunk ≠ 0)
    (members : ∀ run ∈ runs, ∀ sample ∈ run.members, sample.firstChunk = 0)
    (atEnd : file.AtEnd) :
    writeStscEntries chunk entry file (runItems runs) =
      (entry + (stscEntries chunk (runs.map (·.head))).length,
        file.append ((stscEntries chunk (runs.map (·.head))).flatMap Stsc.text)) := by
  induction runs generalizing chunk entry file with
  | nil => exact Prod.ext rfl (ByteFile.append_nil atEnd).symm
  | cons run runs ih =>
    have head := heads run mem_cons_self
    have others {chunk : Option Sample} {entry : Nat} {file : ByteFile} (atEnd : file.AtEnd) :
        writeStscEntries chunk entry file (runItems runs) = _ :=
      ih (forall_mem_cons.mp heads).2
        (forall_mem_cons.mp members).2
        atEnd
    rw [runItems_cons, Run.items, cons_append, map_cons, writeStscEntries, stscEntries]
    by_cases same : repeats chunk run.head
    · rw [if_pos (.inr same), if_pos same, writeStscEntries_members (members run mem_cons_self),
        others atEnd]
    · have new : ¬(run.head.firstChunk = 0 ∨ repeats chunk run.head) := by
        rintro (zero | again)
        · exact head zero
        · exact same again
      rw [if_neg new, if_neg same]
      dsimp only
      rw [writeStscEntries_members (members run mem_cons_self), writeStsc_eq atEnd, others atEnd.append,
        ByteFile.append_append, length_cons, Nat.add_right_comm, Nat.add_assoc]
      rfl

theorem stscEntries_length_le (chunk : Option Sample) (heads : List Sample) :
    (stscEntries chunk heads).length ≤ heads.length := by
  induction heads generalizing chunk with
  | nil => exact Nat.le_refl 0
  | cons head heads ih =>
    rw [stscEntries]
    split
    · exact Nat.le_succ_of_le (ih chunk)
    · exact Nat.succ_le_succ (ih (some head))

theorem mem_stscEntries {chunk : Option Sample} {heads : List Sample} {given : Stsc}
    (member : given ∈ stscEntries chunk heads) : ∃ head ∈ heads, given = head.stsc := by
  induction heads generalizing chunk with
  | nil => exact absurd member not_mem_nil
  | cons head heads ih =>
    rw [stscEntries] at member
    split at member
    · obtain ⟨other, inside, same⟩ := ih member
      exact ⟨other, mem_cons_of_mem head inside, same⟩
    · rcases mem_cons.mp member with rfl | later
      · exact ⟨head, mem_cons_self, rfl⟩
      · obtain ⟨other, inside, same⟩ := ih later
        exact ⟨other, mem_cons_of_mem head inside, same⟩

def stscBox (entries : List Stsc) : List UInt8 :=
  bigEndian 4 (tableSize entries.length 12) ++ (movTag 's' 't' 's' 'c' ++
    tableText 0 entries.length (entries.flatMap Stsc.text))

theorem fillStsc (file : ByteFile) (tag text : List UInt8) (letters : tag.length = 4)
    (size count position : Nat) :
    (w32 ((w32 ((file.append ((bigEndian 4 0 ++ (tag ++ (bigEndian 4 0 ++ bigEndian 4 0))) ++
        text)).seek file.bytes.length) size).seek (file.bytes.length + 12)) count).seek position =
      (file.append (bigEndian 4 size ++ (tag ++ (bigEndian 4 0 ++
        (bigEndian 4 count ++ text))))).seek position := by
  have start : bigEndian 4 0 ++ (tag ++ (bigEndian 4 0 ++ bigEndian 4 0)) ++ text =
      [] ++ (bigEndian 4 0 ++ (tag ++ (bigEndian 4 0 ++ (bigEndian 4 0 ++ text)))) := by
    simp only [append_assoc, nil_append]
  have middle : [] ++ (bigEndian 4 size ++ (tag ++ (bigEndian 4 0 ++ (bigEndian 4 0 ++ text)))) =
      bigEndian 4 size ++ (tag ++ bigEndian 4 0) ++ (bigEndian 4 0 ++ text) := by
    simp only [append_assoc, nil_append]
  have twelve : 12 = (bigEndian 4 size ++ (tag ++ bigEndian 4 0)).length := by
    simp only [length_append, bigEndian_length, letters]
  have first : (w32 ((file.append ([] ++ (bigEndian 4 0 ++ (tag ++ (bigEndian 4 0 ++
      (bigEndian 4 0 ++ text)))))).seek file.bytes.length) size).seek (file.bytes.length + 12) = _ :=
    w32_fill rfl _
  rw [start, first, middle, twelve, w32_fill rfl]
  simp only [append_assoc]

theorem movWriteStsc_eq (heads : ∀ run ∈ runs, run.head.firstChunk ≠ 0)
    (members : ∀ run ∈ runs, ∀ sample ∈ run.members, sample.firstChunk = 0)
    (atEnd : file.AtEnd) :
    movWriteStsc file (runItems runs) =
      file.append (stscBox (stscEntries none (runs.map (·.head)))) := by
  have flags : bigEndian 4 0 = bigEndian 1 0 ++ bigEndian 3 0 := rfl
  have header : w32 (w32 ((w32 file 0).write (movTag 's' 't' 's' 'c')) 0) 0 =
      file.append (bigEndian 4 0 ++ (movTag 's' 't' 's' 'c' ++ (bigEndian 4 0 ++ bigEndian 4 0))) := by
    rw [w32_eq atEnd, atEnd.append.write_eq, ByteFile.append_append, w32_eq atEnd.append,
      ByteFile.append_append, w32_eq atEnd.append, ByteFile.append_append]
    simp only [append_assoc]
  unfold movWriteStsc stscBox tableText
  dsimp only
  rw [header, writeStscEntries_eq heads members atEnd.append, ByteFile.append_append]
  dsimp only
  generalize stscEntries none (runs.map (·.head)) = entries
  have ends : (file.append ((bigEndian 4 0 ++ (movTag 's' 't' 's' 'c' ++
      (bigEndian 4 0 ++ bigEndian 4 0))) ++ entries.flatMap Stsc.text)).position =
      (file.append (bigEndian 4 (tableSize entries.length 12) ++ (movTag 's' 't' 's' 'c' ++
        (bigEndian 4 0 ++ (bigEndian 4 entries.length ++ entries.flatMap Stsc.text))))).position := by
    unfold ByteFile.append
    simp only [length_append, bigEndian_length, Nat.add_assoc]
  have size : (12 + 4 + (0 + entries.length) * 12) % 2 ^ 32 = tableSize entries.length 12 := by
    rw [Nat.zero_add]
    rfl
  rw [ends, size, Nat.zero_add, atEnd.position, fillStsc file _ _ rfl,
    ByteFile.append_seek_end atEnd, ← append_assoc (bigEndian 1 0), ← flags]

end Stsc

/-! ## Writing `stsz` and `stco` -/

section Write

variable {file : ByteFile} {samples : List Sample} {runs : List (Run Sample)}

def stszBox (differ : Bool) (sizes : List Nat) : List UInt8 :=
  bigEndian 4 ((12 + 8 + (if differ then 4 * sizes.length else 0)) % 2 ^ 32) ++
    (movTag 's' 't' 's' 'z' ++ tableText 0 (if differ then 0 else sizes.headD 0)
      (bigEndian 4 sizes.length ++ (if differ then sizes.flatMap (bigEndian 4) else [])))

theorem writeSizes_eq (atEnd : file.AtEnd) :
    samples.foldl (fun file sample => w32 file sample.bytes) file =
      file.append ((samples.map (·.bytes)).flatMap (bigEndian 4)) := by
  induction samples generalizing file with
  | nil => exact (ByteFile.append_nil atEnd).symm
  | cons sample samples ih =>
    rw [foldl_cons, w32_eq atEnd, ih atEnd.append, ByteFile.append_append]
    rfl

theorem movWriteStsz_eq (atEnd : file.AtEnd) :
    movWriteStsz file samples =
      file.append (stszBox (sizesDiffer samples) (samples.map (·.bytes))) := by
  have flags : bigEndian 4 0 = bigEndian 1 0 ++ bigEndian 3 0 := rfl
  have first : (if samples.length < 1 then 0 else (samples.getD 0 default).bytes) =
      (samples.map (·.bytes)).headD 0 := by
    cases samples with
    | nil => rfl
    | cons sample samples => rfl
  unfold movWriteStsz stszBox tableText
  dsimp only
  rw [w32_eq atEnd, atEnd.append.write_eq, ByteFile.append_append, w32_eq atEnd.append,
    ByteFile.append_append, length_map, first]
  cases sizesDiffer samples with
  | true =>
    rw [if_pos rfl, if_pos rfl, if_pos rfl, if_pos rfl, w32_eq atEnd.append,
      ByteFile.append_append, w32_eq atEnd.append, ByteFile.append_append,
      writeSizes_eq atEnd.append, ByteFile.append_append, flags]
    simp only [append_assoc]
  | false =>
    rw [if_neg nofun, if_neg nofun, if_neg nofun, if_neg nofun, w32_eq atEnd.append,
      ByteFile.append_append, w32_eq atEnd.append, ByteFile.append_append, flags]
    simp only [append_assoc, append_nil]

def stcoBox (co64 : Bool) (offsets : List Nat) : List UInt8 :=
  bigEndian 4 (tableSize offsets.length (if co64 then 8 else 4)) ++
    ((if co64 then movTag 'c' 'o' '6' '4' else movTag 's' 't' 'c' 'o') ++
      tableText 0 offsets.length (offsets.flatMap (bigEndian (if co64 then 8 else 4))))

/-- The offset of a chunk when the media data is moved by `trackOffset`. -/
def chunkOffset (trackOffset : Nat) (run : Run Sample) : Nat :=
  (run.head.offset + trackOffset) % 2 ^ 64

def writeOffset (co64 : Bool) (trackOffset : Nat) (file : ByteFile) (sample : Sample) : ByteFile :=
  if sample.firstChunk = 0 then file
  else if co64 then w64 file ((sample.offset + trackOffset) % 2 ^ 64)
  else w32 file ((sample.offset + trackOffset) % 2 ^ 64)

variable {trackOffset : Nat}

theorem writeOffset_members {co64 : Bool} {members : List Sample}
    (zero : ∀ sample ∈ members, sample.firstChunk = 0) :
    members.foldl (writeOffset co64 trackOffset) file = file := by
  induction members with
  | nil => rfl
  | cons sample members ih =>
    rw [foldl_cons, writeOffset, if_pos (zero sample mem_cons_self)]
    exact ih (forall_mem_cons.mp zero).2

theorem writeOffsets_eq {co64 : Bool} (heads : ∀ run ∈ runs, run.head.firstChunk ≠ 0)
    (members : ∀ run ∈ runs, ∀ sample ∈ run.members, sample.firstChunk = 0) (atEnd : file.AtEnd) :
    (runItems runs).foldl (writeOffset co64 trackOffset) file =
      file.append ((runs.map (chunkOffset trackOffset)).flatMap
        (bigEndian (if co64 then 8 else 4))) := by
  induction runs generalizing file with
  | nil => exact (ByteFile.append_nil atEnd).symm
  | cons run runs ih =>
    have written : writeOffset co64 trackOffset file run.head =
        file.append (bigEndian (if co64 then 8 else 4) (chunkOffset trackOffset run)) := by
      unfold writeOffset
      rw [if_neg (heads run mem_cons_self)]
      cases co64 with
      | true => exact w64_eq atEnd
      | false => exact w32_eq atEnd
    rw [runItems_cons, Run.items, cons_append, foldl_cons, foldl_append, written,
      writeOffset_members (members run mem_cons_self),
      ih (forall_mem_cons.mp heads).2
        (forall_mem_cons.mp members).2 atEnd.append,
      ByteFile.append_append]
    rfl

/-- One offset for each chunk. -/
theorem movWriteStco_eq (heads : ∀ run ∈ runs, run.head.firstChunk ≠ 0)
    (members : ∀ run ∈ runs, ∀ sample ∈ run.members, sample.firstChunk = 0) (atEnd : file.AtEnd) :
    movWriteStco file (runItems runs) trackOffset runs.length =
      file.append (stcoBox (isCo64 (runItems runs) trackOffset)
        (runs.map (chunkOffset trackOffset))) := by
  have flags : bigEndian 4 0 = bigEndian 1 0 ++ bigEndian 3 0 := rfl
  have offsets {file : ByteFile} (atEnd : file.AtEnd) (co64 : Bool) :
      (runItems runs).foldl (fun file sample =>
        if sample.firstChunk = 0 then file
        else if co64 then w64 file ((sample.offset + trackOffset) % 2 ^ 64)
        else w32 file ((sample.offset + trackOffset) % 2 ^ 64)) file = _ :=
    writeOffsets_eq heads members atEnd
  unfold movWriteStco stcoBox tableText
  dsimp only
  rw [w32_eq atEnd, atEnd.append.write_eq, ByteFile.append_append, w32_eq atEnd.append,
    ByteFile.append_append, w32_eq atEnd.append, ByteFile.append_append, offsets atEnd.append,
    ByteFile.append_append, length_map, flags]
  simp only [append_assoc]

end Write

end CLibs.Mov
