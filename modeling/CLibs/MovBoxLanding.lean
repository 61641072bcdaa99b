import CLibs.MovBoxWalk

/-!
# Where the walk stands behind a box

When the io has not failed, the position behind a box follows from the header of
the box alone.  Whether it is the end of the box can be read off the size field.
`LaidOut` reads a file by these ends, and not by where the skips of the walk go.
-/

namespace CLibs.Mov

variable {State : Type}

/-! ## What an io call does to the file -/

/-- An io call leaves the bytes as they are, and an error stays. -/
structure Follows (file next : ByteFile) : Prop where
  bytes : next.bytes = file.bytes
  error : next.error = false → file.error = false

theorem Follows.refl (file : ByteFile) : Follows file file := ⟨rfl, id⟩

variable {file next : ByteFile}

theorem Follows.trans {last : ByteFile} (first : Follows file next) (second : Follows next last) :
    Follows file last :=
  ⟨second.bytes.trans first.bytes, fun fine => first.error (second.error fine)⟩

structure Addressed (file : ByteFile) : Prop where
  length : file.bytes.length < 2 ^ 63
  position : file.error = false → file.position ≤ file.bytes.length

structure Advances (width : Nat) (file next : ByteFile) : Prop extends Follows file next where
  moved : next.error = false → next.position = file.position + width
  inside : next.error = false → next.position ≤ file.bytes.length

variable {width : Nat}

theorem Advances.trans {more : Nat} {last : ByteFile} (first : Advances width file next)
    (second : Advances more next last) :
    Advances (width + more) file last where
  toFollows := first.toFollows.trans second.toFollows
  moved fine := by
    rw [second.moved fine, first.moved (second.error fine), Nat.add_assoc]
  inside fine := by
    rw [← first.bytes]
    exact second.inside fine

theorem Follows.addressed (follows : Follows file next) (length : file.bytes.length < 2 ^ 63)
    (inside : next.error = false → next.position ≤ file.bytes.length) : Addressed next := by
  refine ⟨?_, ?_⟩
  · rw [follows.bytes]
    exact length
  · rw [follows.bytes]
    exact inside

theorem Advances.addressed (advances : Advances width file next)
    (length : file.bytes.length < 2 ^ 63) : Addressed next :=
  advances.toFollows.addressed length advances.inside

/-! ### Reads -/

def ReadsWidth (width : Nat) (reader : ByteFile → Nat × ByteFile) : Prop :=
  ∀ file, Advances width file (reader file).2 ∧ (reader file).1 < 256 ^ width

theorem read_advances (file : ByteFile) (size : Nat) : Advances size file (file.read size).2 := by
  unfold ByteFile.read
  split
  · next failed =>
      exact ⟨⟨rfl, id⟩, fun fine => absurd failed (by simp_all), fun fine => absurd failed (by simp_all)⟩
  · next fine =>
      split
      · next enough => exact ⟨⟨rfl, id⟩, fun _ => rfl, fun _ => enough⟩
      · exact ⟨⟨rfl, nofun⟩, nofun, nofun⟩

theorem r8_readsWidth : ReadsWidth 1 r8 := by
  intro file
  refine ⟨read_advances file 1, ?_⟩
  change bigValue ((file.read 1).1.getD [0]) < 256 ^ 1
  unfold ByteFile.read
  split
  · show bigValue [0] < 256 ^ 1
    decide
  · split
    · next enough =>
        have length : ((file.bytes.drop file.position).take 1).length = 1 := by
          rw [List.length_take, List.length_drop]
          omega
        have bound := bigValue_lt ((file.bytes.drop file.position).take 1)
        rwa [length] at bound
    · show bigValue [0] < 256 ^ 1
      decide

theorem ReadsWidth.both {high low : Nat} {first second : ByteFile → Nat × ByteFile}
    (reads : ReadsWidth high first) (readsLow : ReadsWidth low second) :
    ReadsWidth (high + low) (ByteFile.readBoth low first second) := by
  intro file
  refine ⟨(reads file).1.trans (readsLow _).1, ?_⟩
  change (first file).1 * 256 ^ low + (second (first file).2).1 < 256 ^ (high + low)
  have above := (reads file).2
  have below := (readsLow (first file).2).2
  calc
    (first file).1 * 256 ^ low + (second (first file).2).1
        < (first file).1 * 256 ^ low + 256 ^ low := Nat.add_lt_add_left below _
    _ = ((first file).1 + 1) * 256 ^ low := (Nat.succ_mul _ _).symm
    _ ≤ 256 ^ high * 256 ^ low := Nat.mul_le_mul_right _ above
    _ = 256 ^ (high + low) := (Nat.pow_add _ _ _).symm

theorem r16_readsWidth : ReadsWidth 2 r16 := r8_readsWidth.both r8_readsWidth

theorem r24_readsWidth : ReadsWidth 3 r24 := r8_readsWidth.both r16_readsWidth

theorem r32_readsWidth : ReadsWidth 4 r32 := r16_readsWidth.both r16_readsWidth

theorem r64_readsWidth : ReadsWidth 8 r64 := r32_readsWidth.both r32_readsWidth

theorem readEntries_advances {reader : ByteFile → Nat × ByteFile} (reads : ReadsWidth width reader)
    (count : Nat) (file : ByteFile) :
    Advances (width * (count + 1)) file (readEntries reader (count + 1) file).2 := by
  induction count generalizing file with
  | zero => simpa [readEntries] using (reads file).1
  | succ count ih =>
    have next := (reads file).1.trans (ih (reader file).2)
    rwa [Nat.mul_succ, Nat.add_comm]

theorem readBoxHeader_advances (file : ByteFile) : Advances 8 file (readBoxHeader file).2 :=
  (r32_readsWidth file).1.trans (r32_readsWidth _).1

/-! ### Skips -/

theorem skip_follows (file : ByteFile) (size : Nat) : Follows file (movBufferSkip file size) := by
  unfold movBufferSkip
  split
  · exact Follows.refl file
  · split
    · exact ⟨rfl, id⟩
    · exact ⟨rfl, nofun⟩

theorem skip_position {size : Nat} (fine : (movBufferSkip file size).error = false) :
    (movBufferSkip file size).position = (file.position + size) % 2 ^ 64 ∧
      (movBufferSkip file size).position ≤ file.bytes.length := by
  unfold movBufferSkip at fine ⊢
  split
  · next failed => simp_all
  · next unfailed =>
      rw [if_neg unfailed] at fine
      split
      · next inside => exact ⟨rfl, inside⟩
      · next beyond =>
          rw [if_neg beyond] at fine
          cases fine

theorem skip_advances (addressed : Addressed file) {size : Nat} (small : size < 2 ^ 62) :
    Advances size file (movBufferSkip file size) where
  toFollows := skip_follows file size
  moved fine := by
    have length := addressed.length
    have position := addressed.position ((skip_follows file size).error fine)
    rw [(skip_position fine).1]
    exact Nat.mod_eq_of_lt (by omega)
  inside fine := (skip_position fine).2

/-! ## Landings -/

/-- Where the walk stands behind a box when the io has not failed. -/
def Place.landing (place : Place) : Nat :=
  match place.kind with
  | .box => (place.start + place.header + place.boxSize) % 2 ^ 64
  | .entry => (place.start + place.size) % 2 ^ 64
  | .subtitle => (place.start + 16 + sub64 (sub64 place.size 16) 16) % 2 ^ 64
  | .reference => (place.start + 12 + (place.size + 2 ^ 32 - 12) % 2 ^ 32) % 2 ^ 64

structure Place.Read (place : Place) (file : ByteFile) : Prop where
  header : place.kind = .box → 8 ≤ place.header ∧ place.header ≤ 16 ∧
    place.start + place.header ≤ file.bytes.length
  width : place.kind = .reference → place.size < 2 ^ 32

structure Place.Lands (place : Place) (file : ByteFile) : Prop extends Place.Read place file where
  position : file.position = place.landing

/-- A box is passed with the position that its header gives. -/
def Visit.Lands : Visit → Prop
  | .handed _ _ => True
  | .passed place file => file.error = false → place.Lands file

def Place.finish (place : Place) (length : Nat) : Nat :=
  if place.ToEnd then length else place.start + place.size

def Place.Sound (place : Place) : Prop :=
  place.start + place.size < 2 ^ 64 ∧
    match place.kind with
    | .box => ¬place.ToEnd ∧ place.size ≠ uint64Max
    | .entry => True
    | .subtitle => False
    | .reference => 12 ≤ place.size

instance (place : Place) : Decidable place.Sound := by
  unfold Place.Sound
  cases place.kind <;> infer_instance

theorem Place.Lands.finish_iff {place : Place} (lands : place.Lands file) :
    file.position = place.finish file.bytes.length ↔ place.Sound := by
  obtain ⟨⟨read, width⟩, position⟩ := lands
  obtain ⟨kind, start, header, size⟩ := place
  unfold Place.landing at position
  unfold Place.finish Place.Sound Place.ToEnd
  cases kind with
  | box =>
    have read := read rfl
    simp only [Place.boxSize, Place.largeSize, Place.ToEnd, true_and] at read position ⊢
    by_cases toEnd : header = 8 ∧ size = 0
    · simp only [toEnd, and_self, if_true, not_true_eq_false, false_and, and_false, iff_false]
        at read position ⊢
      unfold uint64Max at position
      omega
    · simp only [toEnd, if_false, not_false_eq_true, true_and] at position ⊢
      by_cases max : size = uint64Max
      · simp only [max, if_true, ne_eq, not_true_eq_false, and_false, iff_false] at position ⊢
        unfold uint64Max at position ⊢
        omega
      · simp only [max, if_false, ne_eq, not_false_eq_true, and_true] at position ⊢
        unfold sub64 at position
        omega
  | entry =>
    simp only [reduceCtorEq, false_and, if_false, and_true] at position ⊢
    omega
  | subtitle =>
    simp only [reduceCtorEq, false_and, if_false, and_false, iff_false] at position ⊢
    unfold sub64 at position
    omega
  | reference =>
    have width := width rfl
    simp only [reduceCtorEq, false_and, if_false] at width position ⊢
    omega

/-! ## The file by its size fields -/

/-- A box is at least as long as its header, or goes to the end of the file. -/
def Place.begin (place : Place) (file : ByteFile) : Except Traced.Flaw Unit :=
  Traced.expect (file.error = false → place.ToEnd ∨ place.header ≤ place.size)

/-- The file at the end that the size field of a box gives.  A seek beyond the end of the
file fails; what may not happen is that it succeeds somewhere else. -/
def Place.settle (place : Place) (file : ByteFile) : Except Traced.Flaw ByteFile :=
  if file.error then .ok file
  else if file.bytes.length < place.landing then .ok { file with error := true }
  else if place.Sound then .ok { file with position := place.start + place.size }
  else .error .event

abbrev LaidNested (State : Type) := Box → Reader State → Except Traced.Flaw (Int × Reader State)

def halting {Value : Type} (program : Except Fault Value) : Except Traced.Flaw Value :=
  program.mapError .halt

def laidDescribed (parsers : Parsers State) (nested : LaidNested State) (described : Description)
    (reader : Reader State) : Except Traced.Flaw (Reader State) := do
  let place : Place := ⟨.entry, reader.file.position, 8, described.size⟩
  place.begin described.file
  let inside ← nested ⟨described.extra, described.entry.type⟩
    ⟨described.file, parsers.describe described.entry reader.state⟩
  let file ← place.settle inside.2.file
  pure ⟨file, inside.2.state⟩

def laidPlainEntry (parsers : Parsers State) (reader : Reader State) :
    Except Traced.Flaw (Reader State) := do
  let entry := movReadSampleEntry reader.file
  let place : Place := ⟨.entry, reader.file.position, 8, entry.1.size⟩
  place.begin entry.2.2
  let file ← place.settle entry.2.2
  pure ⟨file, parsers.describe ⟨entry.1.type, entry.2.1, []⟩ reader.state⟩

/-- Behind the 30 bytes of a `tx3g` there are boxes; any other subtitle is left too early. -/
def laidSubtitleEntry (parsers : Parsers State) (nested : LaidNested State)
    (reader : Reader State) : Except Traced.Flaw (Reader State) := do
  let entry := movReadSampleEntry reader.file
  let size := sub64 entry.1.size 16
  if entry.1.type = tag 't' 'x' '3' 'g' then
    let place : Place := ⟨.entry, reader.file.position, 8, entry.1.size⟩
    place.begin entry.2.2
    let inside ← nested ⟨sub64 size 30, entry.1.type⟩ ⟨readTx3gFields entry.2.2, reader.state⟩
    let file ← place.settle inside.2.file
    pure ⟨file, parsers.describe ⟨entry.1.type, entry.2.1, []⟩ inside.2.state⟩
  else
    let place : Place := ⟨.subtitle, reader.file.position, 8, entry.1.size⟩
    place.begin entry.2.2
    let file ← place.settle entry.2.2
    pure ⟨file, parsers.describe ⟨entry.1.type, entry.2.1, []⟩ reader.state⟩

def laidEntryOf (parsers : Parsers State) (nested : LaidNested State) (handler : Nat)
    (reader : Reader State) : Except Traced.Flaw (Reader State) :=
  if handler = tag 's' 'o' 'u' 'n' then laidDescribed parsers nested (readSound reader.file) reader
  else if handler = tag 'v' 'i' 'd' 'e' then
    laidDescribed parsers nested (readVisual reader.file) reader
  else if handler ∈ plainHandlers then laidPlainEntry parsers reader
  else if handler = tag 's' 'u' 'b' 't' ∨ handler = tag 's' 'b' 't' 'l' then
    laidSubtitleEntry parsers nested reader
  else do
    halting (parsers.check False)
    laidPlainEntry parsers reader

def laidEntries (parsers : Parsers State) (nested : LaidNested State) :
    Nat → Reader State → Except Traced.Flaw (Reader State)
  | 0, reader => pure reader
  | count + 1, reader => do
      halting (parsers.useTrack reader.state)
      let next ← laidEntryOf parsers nested (parsers.handlerType reader.state) reader
      laidEntries parsers nested count next

def laidStsd (parsers : Parsers State) (nested : LaidNested State) (reader : Reader State) :
    Except Traced.Flaw (Int × Reader State) := do
  let count := r32 (r24 (r8 reader.file).2).2
  halting (parsers.useTrack reader.state)
  let read ← laidEntries parsers nested count.1 ⟨count.2, reader.state⟩
  pure (movBufferError read.file, read)

def laidReferences : Nat → ByteFile → Except Traced.Flaw ByteFile
  | 0, file => pure file
  | count + 1, file => do
      let box := readBoxHeader file
      let version := r32 box.2
      let place : Place := ⟨.reference, file.position, 8, box.1.size⟩
      place.begin version.2
      let next ← place.settle version.2
      laidReferences count next

/-- What stands inside a box of the table. -/
def laidInside (parsers : Parsers State) (nested : LaidNested State) (parse : Parse) (box : Box)
    (reader : Reader State) : Except Traced.Flaw (Int × Reader State) :=
  match parse with
  | .trak => do
      let inside ← nested box { reader with state := parsers.openTrack reader.state }
      halting (closeTrak parsers inside)
  | .dref => do
      let count := r32 (r24 (r8 reader.file).2).2
      let file ← laidReferences count.1 count.2
      pure (0, ⟨file, reader.state⟩)
  | .moof =>
    nested box
      { reader with state := parsers.openMoof (sub64 reader.file.position 8) reader.state }
  | .default => nested box reader
  | .stsd => laidStsd parsers nested reader
  | leaf => halting (parsers.readLeaf leaf box reader)

/-- A box from behind its header to its end. -/
def laidBox (parsers : Parsers State) (nested : LaidNested State) (parent : Box) (place : Place)
    (box : Box) (reader : Reader State) : Except Traced.Flaw (Int × Reader State) :=
  match findParse box.type parent.type with
  | none => do
      let file ← place.settle reader.file
      pure (0, ⟨file, reader.state⟩)
  | some parse => do
      let inside ← laidInside parsers nested parse box reader
      halting (parsers.check (inside.1 = 0))
      if inside.1 ≠ 0 then pure inside
      else do
        halting (parsers.check (sub64 inside.2.file.position reader.file.position = box.size))
        let file ← place.settle inside.2.file
        pure (0, ⟨file, inside.2.state⟩)

/-- The boxes of a parent, of which `bytes` bytes are used up. -/
def laidBoxes (parsers : Parsers State) :
    Nat → Box → Nat → Reader State → Except Traced.Flaw (Int × Reader State)
  | 0, _, _, _ => .error (.halt .fuel)
  | fuel + 1, parent, bytes, reader =>
    if (bytes + 8) % 2 ^ 64 < parent.size ∧ reader.file.error = false then
      let found := readPlace reader.file
      if found.1.ToEnd ∧ found.2.1 = 0 then pure (0, ⟨found.2.2, reader.state⟩)
      else if found.1.bytesBehind parent bytes > parent.size then
        pure (-1, ⟨found.2.2, reader.state⟩)
      else do
        found.1.begin found.2.2
        let passed ← laidBox parsers (fun box reader => laidBoxes parsers fuel box 0 reader) parent
          found.1 ⟨found.1.boxSize, found.2.1⟩ ⟨found.2.2, reader.state⟩
        if passed.1 ≠ 0 then pure passed
        else laidBoxes parsers fuel parent (found.1.bytesBehind parent bytes) passed.2
    else pure (0, reader)

/-- Read from its start by the size fields of its boxes, a file has no box that is too short
or whose end cannot be found, and everything that its boxes are handed to comes back.  More
fuel than the file has bytes is always enough. -/
def LaidOut (parsers : Parsers State) (fuel : Nat) (data : List UInt8) (state : State) : Prop :=
  Traced.flaw? (laidBoxes parsers fuel ⟨uint64Max, movRoot⟩ 0 ⟨⟨data, 0, false⟩, state⟩) ∉
    [some .event, some (.halt .outside)]

instance (parsers : Parsers State) (fuel : Nat) (data : List UInt8) (state : State) :
    Decidable (LaidOut parsers fuel data state) :=
  inferInstanceAs (Decidable (_ ∉ _))

/-! ## What the walk reads -/

/-- The file behind a call that goes to a given offset. -/
structure Reaches (target : Nat) (file next : ByteFile) : Prop extends Follows file next where
  position : next.error = false → next.position = target % 2 ^ 64
  inside : next.error = false → next.position ≤ file.bytes.length

theorem skip_reaches (file : ByteFile) (size : Nat) :
    Reaches (file.position + size) file (movBufferSkip file size) :=
  ⟨skip_follows file size, fun fine => (skip_position fine).1, fun fine => (skip_position fine).2⟩

theorem skip_rest_reaches (follows : Follows file next) (size : Nat) :
    Reaches (file.position + size) file
      (movBufferSkip next (sub64 size (sub64 next.position file.position))) where
  toFollows := follows.trans (skip_follows _ _)
  position fine := by
    rw [(skip_position fine).1]
    unfold sub64
    omega
  inside fine := by
    rw [← follows.bytes]
    exact (skip_position fine).2

theorem readPlace_large (large : (r32 file).1 = 1) :
    readPlace file = (⟨.box, file.position, 16, (r64 (readBoxHeader file).2).1⟩,
      (readBoxHeader file).1.type, (r64 (readBoxHeader file).2).2) :=
  if_pos large

theorem readPlace_small (small : (r32 file).1 ≠ 1) :
    readPlace file = (⟨.box, file.position, 8, (r32 file).1⟩, (readBoxHeader file).1.type,
      (readBoxHeader file).2) :=
  if_neg small

/-- A box under a box whose header stands in the file before `next`. -/
structure Place.Heads (place : Place) (file next : ByteFile) : Prop where
  kind : place.kind = .box
  start : place.start = file.position
  header : place.header = 8 ∨ place.header = 16
  advances : Advances place.header file next

theorem readPlace_heads (file : ByteFile) :
    (readPlace file).1.Heads file (readPlace file).2.2 := by
  by_cases large : (r32 file).1 = 1
  · rw [readPlace_large large]
    exact ⟨rfl, rfl, Or.inr rfl, (readBoxHeader_advances file).trans (r64_readsWidth _).1⟩
  · rw [readPlace_small large]
    exact ⟨rfl, rfl, Or.inl rfl, readBoxHeader_advances file⟩

theorem Place.Heads.lands {place : Place} {middle : ByteFile} (heads : place.Heads file middle)
    (reaches : Reaches (middle.position + place.boxSize) middle next) :
    (Visit.passed place next).Lands := by
  intro fine
  have moved := heads.advances.moved (reaches.error fine)
  have inside := heads.advances.inside (reaches.error fine)
  have header := heads.header
  have start := heads.start
  refine ⟨⟨?_, ?_⟩, ?_⟩
  · intro _
    rw [reaches.bytes, heads.advances.bytes, start]
    omega
  · intro reference
    rw [heads.kind] at reference
    cases reference
  · rw [reaches.position fine, moved, ← start]
    unfold Place.landing
    rw [heads.kind]

theorem movReadSampleEntry_advances (length : file.bytes.length < 2 ^ 63) :
    Advances 16 file (movReadSampleEntry file).2.2 := by
  have header := readBoxHeader_advances file
  have reserved := skip_advances (header.addressed length) (show 6 < 2 ^ 62 by decide)
  exact (header.trans reserved).trans (r16_readsWidth _).1

/-- A description moves forward, and leaves for the boxes what is left of the entry. -/
structure Description.Covers (described : Description) (file : ByteFile) : Prop where
  advances : ∃ width, 8 ≤ width ∧ Advances width file described.file
  reach : described.file.error = false → (described.file.position + described.extra) % 2 ^ 64 =
    (file.position + described.size) % 2 ^ 64

theorem readSoundVersion_covers (version size : Nat) (file : ByteFile) :
    (∃ width, Advances width file (readSoundVersion version size file).2 ∧
      (readSoundVersion version size file).1 = sub64 size width ∧ width ≤ 36) ∨
    readSoundVersion version size file = (size, file) := by
  unfold readSoundVersion
  split
  · exact Or.inl ⟨16, readEntries_advances r32_readsWidth 3 file, rfl, by decide⟩
  · split
    · have rate := (r32_readsWidth file).1.trans (r64_readsWidth _).1
      exact Or.inl ⟨36, rate.trans (readEntries_advances r32_readsWidth 5 _), rfl, by decide⟩
    · exact Or.inr rfl

theorem readSound_covers (length : file.bytes.length < 2 ^ 63) :
    (readSound file).Covers file := by
  have entry := movReadSampleEntry_advances length
  have version := (entry.trans (r16_readsWidth _).1).trans (r16_readsWidth _).1
  have vendor := version.trans (r32_readsWidth _).1
  have channels := (vendor.trans (r16_readsWidth _).1).trans (r16_readsWidth _).1
  have packets := (channels.trans (r16_readsWidth _).1).trans (r16_readsWidth _).1
  have rate := packets.trans (r32_readsWidth _).1
  rcases readSoundVersion_covers (r16 (movReadSampleEntry file).2.2).1
    (sub64 (movReadSampleEntry file).1.size 36) _ with ⟨width, more, left, small⟩ | plain
  · have whole := rate.trans more
    refine ⟨⟨36 + width, by omega, whole⟩, ?_⟩
    intro fine
    have moved := whole.moved fine
    change ((readSound file).file.position + _) % 2 ^ 64 = _
    change (readSound file).file.position = _ at moved
    change (readSound file).extra = _ at left
    rw [moved, left]
    change _ = (file.position + (movReadSampleEntry file).1.size) % 2 ^ 64
    unfold sub64
    omega
  · have same : (readSound file).file = _ := congrArg Prod.snd plain
    have left : (readSound file).extra = _ := congrArg Prod.fst plain
    rw [← same] at rate
    refine ⟨⟨36, by decide, rate⟩, ?_⟩
    intro fine
    rw [rate.moved fine, left]
    change _ = (file.position + (movReadSampleEntry file).1.size) % 2 ^ 64
    unfold sub64
    omega

/-- A visual sample entry is read without going back. -/
theorem readVisual_covers (length : file.bytes.length < 2 ^ 63) :
    (readVisual file).Covers file := by
  have entry := movReadSampleEntry_advances length
  have reserved := entry.trans (skip_advances (entry.addressed length) (show 16 < 2 ^ 62 by decide))
  have sizes := (reserved.trans (r16_readsWidth _).1).trans (r16_readsWidth _).1
  have resolutions := (sizes.trans (r32_readsWidth _).1).trans (r32_readsWidth _).1
  have frames := (resolutions.trans (r32_readsWidth _).1).trans (r16_readsWidth _).1
  have name := frames.trans (skip_advances (frames.addressed length) (show 32 < 2 ^ 62 by decide))
  have depth := name.trans (r16_readsWidth _).1
  have whole := depth.trans (skip_advances (depth.addressed length) (show 2 < 2 ^ 62 by decide))
  refine ⟨⟨86, by decide, whole⟩, ?_⟩
  intro fine
  have moved := whole.moved fine
  change (readVisual file).file.position = _ at moved
  rw [moved]
  change (_ + sub64 (movReadSampleEntry file).1.size 86) % 2 ^ 64 =
    (file.position + (movReadSampleEntry file).1.size) % 2 ^ 64
  unfold sub64
  omega

end CLibs.Mov
