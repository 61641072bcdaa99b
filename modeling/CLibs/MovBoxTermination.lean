import CLibs.MovBoxLanding

/-!
# The walk over boxes comes to an end

In a file that is laid out, the walk moves forward: it hands on what a reading by
the size fields finds, and is at the end of every box that it passes.  It then
needs no more fuel than the file has bytes.
-/

namespace CLibs.Mov

open Traced

variable {State : Type}

/-! ## Sound boxes -/

def Visit.Sound : Visit → Prop
  | .handed place file => file.error = false → place.ToEnd ∨ place.header ≤ place.size
  | .passed place file => file.error = false → place.Sound

instance : DecidablePred Visit.Sound := fun visit => by
  cases visit <;> exact inferInstanceAs (Decidable (_ → _))

/-- An assertion that is compiled in can stop the walk. -/
def Stopped (parsers : Parsers State) (fault : Fault) : Prop :=
  fault = .assertion ∧ parsers.asserts = true

def Halts (parsers : Parsers State) (fault : Fault) : Prop :=
  Stopped parsers fault ∨ fault = .outside

abbrev Walks (parsers : Parsers State) {Value : Type} (program : Traced Visit Value)
    (description : Except Flaw Value) (post : Value → Prop) : Prop :=
  Agrees program description Visit.Lands Visit.Sound (Halts parsers) post

/-! ## Fuel -/

structure Lasts (fuel : Nat) (file : ByteFile) : Prop extends Addressed file where
  some : 0 < fuel
  enough : file.error = false → file.bytes.length < fuel + file.position

variable {fuel : Nat}

variable {file next : ByteFile}

theorem Lasts.forward (lasts : Lasts fuel file) (follows : Follows file next)
    (position : next.error = false →
      file.position ≤ next.position ∧ next.position ≤ file.bytes.length) :
    Lasts fuel next := by
  refine ⟨follows.addressed lasts.length fun fine => (position fine).2, lasts.some, ?_⟩
  intro fine
  have enough := lasts.enough (follows.error fine)
  have forward := (position fine).1
  rw [follows.bytes]
  omega

theorem Lasts.advances {width : Nat} (lasts : Lasts fuel file)
    (advances : Advances width file next) : Lasts fuel next := by
  apply lasts.forward advances.toFollows
  intro fine
  have moved := advances.moved fine
  exact ⟨by omega, advances.inside fine⟩

structure Goes (fuel : Nat) (file next : ByteFile) : Prop extends Follows file next where
  lasts : Lasts fuel next

theorem Goes.trans {last : ByteFile} (first : Goes fuel file next) (second : Goes fuel next last) :
    Goes fuel file last :=
  ⟨first.toFollows.trans second.toFollows, second.lasts⟩

def NestedWalks (parsers : Parsers State) (fuel : Nat) (nested : Nested State)
    (laid : LaidNested State) : Prop :=
  ∀ box reader, Lasts fuel reader.file →
    Walks parsers (nested box reader) (laid box reader) fun walked =>
      Follows reader.file walked.2.file

variable {parsers : Parsers State} {nested : Nested State} {laid : LaidNested State}

theorem assertion_walks (condition : Prop) [Decidable condition] :
    Walks parsers (assertion parsers condition) (halting (parsers.check condition)) fun _ =>
      True := by
  apply Agrees.lift
  unfold Parsers.check
  split
  · next compiled => exact (Settles.check (Or.inl ⟨rfl, compiled⟩)).mono fun _ _ => trivial
  · exact trivial

theorem useTrack_walks (state : State) :
    Walks parsers (Traced.lift (parsers.useTrack state)) (halting (parsers.useTrack state)) fun _ =>
      True := by
  apply Agrees.lift
  unfold Parsers.useTrack
  split
  · exact trivial
  · exact Or.inr rfl

/-! ## Ends of boxes -/

/-- The end that a sound box gives is where the skip of the walk goes. -/
theorem Place.Sound.landing {place : Place} (sound : place.Sound)
    (width : place.kind = .reference → place.size < 2 ^ 32) :
    place.landing = place.start + place.size := by
  obtain ⟨kind, start, bytes, size⟩ := place
  obtain ⟨short, sound⟩ := sound
  unfold Place.landing
  cases kind with
  | box =>
    simp only [Place.boxSize, Place.largeSize, if_neg sound.1, if_neg sound.2]
    unfold sub64
    dsimp only at short ⊢
    omega
  | entry => exact Nat.mod_eq_of_lt short
  | subtitle => exact absurd sound id
  | reference =>
    have width := width rfl
    dsimp only at short sound width ⊢
    omega

theorem settle_eq {place : Place} {size : Nat}
    (lands : file.error = false → (file.position + size) % 2 ^ 64 = place.landing)
    (exact : place.Sound → place.landing = place.start + place.size) :
    place.settle file =
      (expect ((movBufferSkip file size).error = false → place.Sound) >>= fun _ =>
        .ok (movBufferSkip file size)) := by
  unfold Place.settle movBufferSkip
  by_cases failed : file.error = true
  · have never : file.error = false → place.Sound := fun fine => by
      rw [failed] at fine
      cases fine
    rw [if_pos failed, if_pos failed, expect_eq never]
    rfl
  · have fine : file.error = false := by simpa using failed
    rw [if_neg failed, if_neg failed, lands fine]
    by_cases beyond : file.bytes.length < place.landing
    · rw [if_pos beyond, if_neg (Nat.not_le.mpr beyond), expect_eq nofun]
      rfl
    · rw [if_neg beyond, if_pos (Nat.not_lt.mp beyond)]
      by_cases sound : place.Sound
      · rw [if_pos sound, exact sound, expect_eq fun _ => sound]
        rfl
      · rw [if_neg sound, expect_error fun all => sound (all fine)]
        rfl

variable {Value : Type}

theorem handed_walks {place : Place} {rest : Traced Visit Value} {description : Except Flaw Value}
    {post : Value → Prop}
    (inside : (Visit.handed place file).Sound → Walks parsers rest description post) :
    Walks parsers (Traced.emit (.handed place file) >>= fun _ => rest)
      (place.begin file >>= fun _ => description) post :=
  Agrees.emit trivial Iff.rfl inside

theorem passed_walks {place : Place} {size : Nat} {rest : Traced Visit Value}
    {description : ByteFile → Except Flaw Value} {post : Value → Prop}
    (lands : file.error = false → (file.position + size) % 2 ^ 64 = place.landing)
    (exact : place.Sound → place.landing = place.start + place.size)
    (given : (Visit.passed place (movBufferSkip file size)).Lands)
    (behind : (Visit.passed place (movBufferSkip file size)).Sound →
      Walks parsers rest (description (movBufferSkip file size)) post) :
    Walks parsers (Traced.emit (.passed place (movBufferSkip file size)) >>= fun _ => rest)
      (place.settle file >>= description) post := by
  have same : (place.settle file >>= description) =
      (expect ((movBufferSkip file size).error = false → place.Sound) >>= fun _ =>
        description (movBufferSkip file size)) := by
    rw [settle_eq lands exact]
    unfold expect
    split <;> rfl
  rw [same]
  exact Agrees.emit given Iff.rfl behind

/-! ## Sample entries -/

theorem mp4ReadExtra_bind (box : Box) (reader : Reader State)
    (next : Int × Reader State → Traced Visit Value) :
    (mp4ReadExtra nested box reader >>= next) = nested box reader >>= fun walked =>
      next (walked.1, walked.2.skip
        (sub64 box.size (sub64 walked.2.file.position reader.file.position))) := by
  unfold mp4ReadExtra
  rw [Traced.bind_assoc]
  rfl

section Entries

variable {Value : Type} {file middle : ByteFile} {size skip : Nat}
  {rest : Traced Visit Value} {description : ByteFile → Except Flaw Value} {post : Value → Prop}

theorem entry_walks (lasts : Lasts fuel file) (follows : Follows file middle)
    (target : middle.error = false →
      (middle.position + skip) % 2 ^ 64 = (file.position + size) % 2 ^ 64)
    (behind : Goes fuel file (movBufferSkip middle skip) →
      Walks parsers rest (description (movBufferSkip middle skip)) post) :
    Walks parsers
      (Traced.emit (.passed ⟨.entry, file.position, 8, size⟩ (movBufferSkip middle skip)) >>=
        fun _ => rest)
      (Place.settle ⟨.entry, file.position, 8, size⟩ middle >>= description) post := by
  have skipped := skip_reaches middle skip
  have all := follows.trans skipped.toFollows
  apply passed_walks target
  · intro sound
    exact sound.landing nofun
  · intro fine
    refine ⟨⟨nofun, nofun⟩, ?_⟩
    rw [skipped.position fine]
    exact target (skipped.error fine)
  · intro sound
    apply behind
    refine ⟨all, lasts.forward all ?_⟩
    intro fine
    have short : file.position + size < 2 ^ 64 := (sound fine).1
    refine ⟨?_, follows.bytes ▸ skipped.inside fine⟩
    rw [skipped.position fine, target (skipped.error fine), Nat.mod_eq_of_lt short]
    exact Nat.le_add_right _ _

/-- The walk behind the fields of an entry ends where the size of the entry says. -/
theorem rest_target {extra : Nat} {fields : ByteFile} (follows : Follows fields middle)
    (reach : fields.error = false →
      (fields.position + extra) % 2 ^ 64 = (file.position + size) % 2 ^ 64)
    (fine : middle.error = false) :
    (middle.position + sub64 extra (sub64 middle.position fields.position)) % 2 ^ 64 =
      (file.position + size) % 2 ^ 64 := by
  rw [← reach (follows.error fine)]
  unfold sub64
  omega

end Entries

variable {reader : Reader State}

theorem readDescribed_walks (walks : NestedWalks parsers fuel nested laid) {described : Description}
    (lasts : Lasts fuel reader.file) (covers : described.Covers reader.file) :
    Walks parsers (readDescribed parsers nested described reader)
      (laidDescribed parsers laid described reader) fun next =>
      Goes fuel reader.file next.file := by
  obtain ⟨width, _, advances⟩ := covers.advances
  unfold readDescribed laidDescribed
  apply handed_walks
  intro _
  rw [mp4ReadExtra_bind]
  apply Agrees.bind (walks _ _ (lasts.advances advances))
  intro walked follows
  apply entry_walks lasts (advances.toFollows.trans follows)
    (rest_target follows covers.reach)
  intro goes
  exact Agrees.pure goes

theorem plainEntry_target (lasts : Lasts fuel file)
    (fine : (movReadSampleEntry file).2.2.error = false) :
    ((movReadSampleEntry file).2.2.position + sub64 (movReadSampleEntry file).1.size 16) % 2 ^ 64 =
      (file.position + (movReadSampleEntry file).1.size) % 2 ^ 64 := by
  rw [(movReadSampleEntry_advances lasts.length).moved fine]
  unfold sub64
  omega

theorem movReadPlainEntry_walks (lasts : Lasts fuel reader.file) :
    Walks parsers (movReadPlainEntry parsers reader) (laidPlainEntry parsers reader) fun next =>
      Goes fuel reader.file next.file := by
  unfold movReadPlainEntry laidPlainEntry
  apply handed_walks
  intro _
  apply entry_walks lasts (movReadSampleEntry_advances lasts.length).toFollows
    (plainEntry_target lasts)
  intro goes
  exact Agrees.pure goes

theorem readTx3gFields_advances (file : ByteFile) : Advances 30 file (readTx3gFields file) := by
  have record := readEntries_advances r8_readsWidth 9 file
  have style := record.trans (readEntries_advances r16_readsWidth 6 _)
  exact style.trans (readEntries_advances r8_readsWidth 5 _)

theorem movReadSubtitleEntry_walks (walks : NestedWalks parsers fuel nested laid)
    (lasts : Lasts fuel reader.file) :
    Walks parsers (movReadSubtitleEntry parsers nested reader)
      (laidSubtitleEntry parsers laid reader) fun next => Goes fuel reader.file next.file := by
  have advances := movReadSampleEntry_advances lasts.length
  unfold movReadSubtitleEntry laidSubtitleEntry
  apply Agrees.ite
  · intro _
    have fields := advances.trans (readTx3gFields_advances _)
    apply handed_walks
    intro _
    unfold movReadTx3g
    rw [mp4ReadExtra_bind]
    dsimp only
    generalize readTx3gFields (movReadSampleEntry reader.file).2.2 = inner at fields ⊢
    apply Agrees.bind (walks _ _ (lasts.advances fields))
    intro walked follows
    apply entry_walks lasts (fields.toFollows.trans follows)
    · apply rest_target follows
      intro fine
      rw [fields.moved fine]
      unfold sub64
      omega
    · intro goes
      exact Agrees.pure goes
  · intro _
    have skipped := skip_reaches (movReadSampleEntry reader.file).2.2
      (sub64 (sub64 (movReadSampleEntry reader.file).1.size 16) 16)
    have follows := advances.toFollows.trans skipped.toFollows
    apply handed_walks
    intro _
    apply passed_walks
    · intro fine
      rw [advances.moved fine]
      rfl
    · exact fun sound => absurd sound.2 id
    · intro fine
      refine ⟨⟨nofun, nofun⟩, ?_⟩
      rw [skipped.position fine, advances.moved (skipped.error fine)]
      rfl
    · intro sound
      apply Agrees.pure
      refine ⟨follows, lasts.forward follows ?_⟩
      intro fine
      exact absurd (sound fine).2 id

theorem readEntryOf_walks (walks : NestedWalks parsers fuel nested laid) (handler : Nat)
    (lasts : Lasts fuel reader.file) :
    Walks parsers (readEntryOf parsers nested handler reader)
      (laidEntryOf parsers laid handler reader) fun next => Goes fuel reader.file next.file := by
  unfold readEntryOf laidEntryOf
  apply Agrees.ite
  · intro _
    exact readDescribed_walks walks lasts (readSound_covers lasts.length)
  · intro _
    apply Agrees.ite
    · intro _
      exact readDescribed_walks walks lasts (readVisual_covers lasts.length)
    · intro _
      apply Agrees.ite
      · intro _
        exact movReadPlainEntry_walks lasts
      · intro _
        apply Agrees.ite
        · intro _
          exact movReadSubtitleEntry_walks walks lasts
        · intro _
          apply Agrees.bind (assertion_walks False)
          intro _ _
          exact movReadPlainEntry_walks lasts

theorem readSampleEntries_walks (walks : NestedWalks parsers fuel nested laid) (count : Nat)
    (lasts : Lasts fuel reader.file) :
    Walks parsers (readSampleEntries parsers nested count reader)
      (laidEntries parsers laid count reader) fun next => Goes fuel reader.file next.file := by
  induction count generalizing reader with
  | zero => exact Agrees.pure ⟨Follows.refl _, lasts⟩
  | succ count ih =>
    unfold readSampleEntries laidEntries readSampleEntry
    rw [Traced.bind_assoc]
    apply Agrees.bind (useTrack_walks reader.state)
    intro _ _
    apply Agrees.bind (readEntryOf_walks walks _ lasts)
    intro next goes
    exact (ih goes.lasts).mono fun _ further => goes.trans further

/-! ## Parsers -/

theorem tableCount_advances (file : ByteFile) : Advances 8 file (r32 (r24 (r8 file).2).2).2 :=
  ((r8_readsWidth file).1.trans (r24_readsWidth _).1).trans (r32_readsWidth _).1

theorem movReadStsd_walks (walks : NestedWalks parsers fuel nested laid)
    (lasts : Lasts fuel reader.file) :
    Walks parsers (movReadStsd parsers nested reader) (laidStsd parsers laid reader) fun parsed =>
      Follows reader.file parsed.2.file := by
  have advances := tableCount_advances reader.file
  unfold movReadStsd laidStsd
  apply Agrees.bind (useTrack_walks reader.state)
  intro _ _
  apply Agrees.bind (readSampleEntries_walks walks _ (lasts.advances advances))
  intro next goes
  exact Agrees.pure (advances.toFollows.trans goes.toFollows)

theorem readReferences_walks (count : Nat) (file : ByteFile) :
    Walks parsers (readReferences count file) (laidReferences count file) fun next =>
      Follows file next := by
  induction count generalizing file with
  | zero => exact Agrees.pure (Follows.refl file)
  | succ count ih =>
    have advances := (readBoxHeader_advances file).trans (r32_readsWidth _).1
    have skipped := skip_reaches (r32 (readBoxHeader file).2).2
      (((readBoxHeader file).1.size + 2 ^ 32 - 12) % 2 ^ 32)
    have width : (readBoxHeader file).1.size < 2 ^ 32 := (r32_readsWidth file).2
    unfold readReferences laidReferences
    apply handed_walks
    intro _
    apply passed_walks
    · intro fine
      rw [advances.moved fine]
      rfl
    · exact fun sound => sound.landing fun _ => width
    · intro fine
      refine ⟨⟨nofun, fun _ => width⟩, ?_⟩
      rw [skipped.position fine, advances.moved (skipped.error fine)]
      rfl
    · intro _
      exact (ih _).mono fun _ further =>
        (advances.toFollows.trans skipped.toFollows).trans further

theorem movReadDref_walks (reader : Reader State) (nested : LaidNested State) (box : Box) :
    Walks parsers (movReadDref reader) (laidInside parsers nested .dref box reader) fun parsed =>
      Follows reader.file parsed.2.file := by
  unfold movReadDref
  apply Agrees.bind (readReferences_walks _ _)
  intro next follows
  exact Agrees.pure ((tableCount_advances reader.file).toFollows.trans follows)

theorem movReadUuid_follows (box : Box) (reader : Reader State) :
    Follows reader.file (movReadUuid box reader).2.file := by
  unfold movReadUuid
  dsimp only
  split
  · exact (read_advances reader.file 16).toFollows.trans (skip_follows _ _)
  · exact Follows.refl _

theorem other_follows {box : Box} {parsed : Int × Reader State}
    (read : parsers.other box reader = some parsed) : Follows reader.file parsed.2.file := by
  refine ⟨parsers.other_bytes box reader parsed read, ?_⟩
  intro fine
  by_contra failed
  rw [parsers.other_error box reader parsed read (by simpa using failed)] at fine
  cases fine

theorem readLeaf_settles (parse : Parse) (box : Box) (reader : Reader State) :
    Settles (parsers.readLeaf parse box reader) (Halts parsers) fun parsed =>
      Follows reader.file parsed.2.file := by
  have others : Settles ((parsers.other box reader).elim (.error .outside) .ok) (Halts parsers)
      fun parsed => Follows reader.file parsed.2.file := by
    cases read : parsers.other box reader with
    | none => exact Or.inr rfl
    | some parsed => exact other_follows read
  cases parse with
  | mdat => exact skip_follows _ _
  | free => exact skip_follows _ _
  | btrt => exact (readEntries_advances r32_readsWidth 2 _).toFollows
  | uuid => exact movReadUuid_follows box reader
  | mfro => exact (readEntries_advances r32_readsWidth 1 _).toFollows
  | _ => exact others

theorem closeTrak_settles {walked : Int × Reader State} (follows : Follows file walked.2.file) :
    Settles (closeTrak parsers walked) (Halts parsers) fun parsed =>
      Follows file parsed.2.file := by
  unfold closeTrak
  apply Settles.ite
  · intro _
    unfold Parsers.useTrack
    split
    · exact follows
    · exact Or.inr rfl
  · intro _
    exact follows

theorem parse_walks (walks : NestedWalks parsers fuel nested laid) (parse : Parse) (box : Box)
    (lasts : Lasts fuel reader.file) :
    Walks parsers (parsers.parse nested parse box reader) (laidInside parsers laid parse box reader)
      fun parsed => Follows reader.file parsed.2.file := by
  cases parse with
  | trak =>
    apply Agrees.bind (walks box { reader with state := parsers.openTrack reader.state } lasts)
    intro walked follows
    exact Agrees.lift (closeTrak_settles follows)
  | dref => exact movReadDref_walks reader laid box
  | moof => exact walks box _ lasts
  | default => exact walks box reader lasts
  | stsd => exact movReadStsd_walks walks lasts
  | mdat => exact Agrees.lift (readLeaf_settles .mdat box reader)
  | free => exact Agrees.lift (readLeaf_settles .free box reader)
  | btrt => exact Agrees.lift (readLeaf_settles .btrt box reader)
  | uuid => exact Agrees.lift (readLeaf_settles .uuid box reader)
  | mfro => exact Agrees.lift (readLeaf_settles .mfro box reader)
  | other => exact Agrees.lift (readLeaf_settles .other box reader)

/-! ## The loop -/

def FindsNothing (reader : ByteFile → Nat × ByteFile) : Prop :=
  ∀ file, file.error = true ∨ file.bytes.length ≤ file.position →
    reader file = (0, { file with error := true })

theorem r8_findsNothing : FindsNothing r8 := by
  intro file nothing
  have read : file.read 1 = (none, { file with error := true }) := by
    unfold ByteFile.read
    split
    · next failed =>
        obtain ⟨bytes, position, error⟩ := file
        simp only at failed
        rw [failed]
    · next fine =>
        have beyond := nothing.resolve_left fine
        rw [if_neg (by omega)]
  unfold r8
  rw [read]
  rfl

theorem FindsNothing.both {low : Nat} {first second : ByteFile → Nat × ByteFile}
    (none : FindsNothing first) (noneLow : FindsNothing second) :
    FindsNothing (ByteFile.readBoth low first second) := by
  intro file nothing
  unfold ByteFile.readBoth
  rw [none file nothing]
  dsimp only
  rw [noneLow _ (Or.inl rfl)]
  simp

theorem r16_findsNothing : FindsNothing r16 :=
  r8_findsNothing.both r8_findsNothing

theorem r32_findsNothing : FindsNothing r32 :=
  r16_findsNothing.both r16_findsNothing

theorem readPlace_end (beyond : file.bytes.length ≤ file.position) :
    (readPlace file).1.ToEnd ∧ (readPlace file).2.1 = 0 := by
  have size := r32_findsNothing file (Or.inr beyond)
  have type := r32_findsNothing { file with error := true } (Or.inl rfl)
  have read : readPlace file = (⟨.box, file.position, 8, 0⟩, 0, { file with error := true }) := by
    simp only [readPlace, size, type, Nat.zero_ne_one, if_false]
  rw [read]
  exact ⟨⟨rfl, rfl, rfl⟩, rfl⟩

theorem Lasts.place (lasts : Lasts (fuel + 1) file) (fine : file.error = false)
    (more : ¬((readPlace file).1.ToEnd ∧ (readPlace file).2.1 = 0)) :
    Lasts fuel (readPlace file).2.2 := by
  have before : file.position < file.bytes.length := by
    by_contra beyond
    exact more (readPlace_end (by omega))
  have enough := lasts.enough fine
  have heads := readPlace_heads file
  have header := heads.header
  refine ⟨heads.advances.addressed lasts.length, by omega, ?_⟩
  intro fine
  rw [heads.advances.bytes, heads.advances.moved fine]
  omega

theorem Place.Heads.lasts {place : Place} {middle : ByteFile} (heads : place.Heads file middle)
    (lasts : Lasts (fuel + 1) file) (some : 0 < fuel)
    (reaches : Reaches (middle.position + place.boxSize) middle next)
    (handed : (Visit.handed place middle).Sound) (sound : (Visit.passed place next).Sound) :
    Lasts fuel next := by
  have follows := heads.advances.toFollows.trans reaches.toFollows
  refine ⟨follows.addressed lasts.length ?_, some, ?_⟩
  · intro fine
    rw [← heads.advances.bytes]
    exact reaches.inside fine
  · intro fine
    have position := (heads.lands reaches fine).finish_iff.mpr (sound fine)
    have closed := (sound fine).2
    rw [heads.kind] at closed
    have long := (handed (reaches.error fine)).resolve_left closed.1
    have header := heads.header
    have enough := lasts.enough (follows.error fine)
    unfold Place.finish at position
    rw [if_neg closed.1, heads.start] at position
    rw [follows.bytes]
    omega

theorem passBox_walks (walks : NestedWalks parsers fuel nested laid) (parent : Box) {place : Place}
    {type : Nat} (heads : place.Heads file reader.file) (lasts : Lasts (fuel + 1) file)
    (inner : Lasts fuel reader.file) (handed : (Visit.handed place reader.file).Sound) :
    Walks parsers (passBox parsers nested parent place ⟨place.boxSize, type⟩ reader)
      (laidBox parsers laid parent place ⟨place.boxSize, type⟩ reader) fun passed =>
      Follows file passed.2.file ∧ (passed.1 = 0 → Lasts fuel passed.2.file) := by
  have exact : place.Sound → place.landing = place.start + place.size := by
    intro sound
    refine sound.landing fun reference => ?_
    rw [heads.kind] at reference
    cases reference
  have target (fine : reader.file.error = false) :
      (reader.file.position + place.boxSize) % 2 ^ 64 = place.landing := by
    unfold Place.landing
    rw [heads.kind, heads.start, ← heads.advances.moved fine]
  have behind {next : ByteFile} (reaches : Reaches (reader.file.position + place.boxSize) reader.file
      next) (sound : (Visit.passed place next).Sound) : Follows file next ∧ Lasts fuel next :=
    ⟨heads.advances.toFollows.trans reaches.toFollows,
      heads.lasts lasts inner.some reaches handed sound⟩
  unfold passBox laidBox Reader.skip
  dsimp only
  cases findParse type parent.type with
  | none =>
    have skipped := skip_reaches reader.file place.boxSize
    refine passed_walks target exact (heads.lands skipped) ?_
    intro sound
    exact Agrees.pure ⟨(behind skipped sound).1, fun _ => (behind skipped sound).2⟩
  | some parse =>
    apply Agrees.bind (parse_walks walks parse _ inner)
    intro parsed follows
    apply Agrees.bind (assertion_walks _)
    intro _ _
    apply Agrees.ite
    · intro failed
      exact Agrees.pure ⟨heads.advances.toFollows.trans follows, fun zero => absurd zero failed⟩
    · intro _
      apply Agrees.bind (assertion_walks _)
      intro _ _
      have skipped := skip_rest_reaches follows place.boxSize
      refine passed_walks ?_ exact (heads.lands skipped) ?_
      · intro fine
        rw [← target (follows.error fine)]
        unfold sub64
        omega
      · intro sound
        exact Agrees.pure ⟨(behind skipped sound).1, fun _ => (behind skipped sound).2⟩

theorem readBoxes_walks (fuel : Nat) (parent : Box) (bytes : Nat) (lasts : Lasts fuel reader.file) :
    Walks parsers (readBoxes parsers fuel parent bytes reader)
      (laidBoxes parsers fuel parent bytes reader) fun walked =>
      Follows reader.file walked.2.file := by
  induction fuel generalizing parent bytes reader with
  | zero => exact absurd lasts.some (Nat.lt_irrefl 0)
  | succ fuel ih =>
    have heads := readPlace_heads reader.file
    unfold readBoxes laidBoxes passPlace
    apply Agrees.ite
    · intro going
      apply Agrees.ite
      · intro _
        exact Agrees.pure heads.advances.toFollows
      · intro more
        apply Agrees.ite
        · intro _
          exact Agrees.pure heads.advances.toFollows
        · intro _
          apply handed_walks
          intro handed
          apply Agrees.bind (passBox_walks (fun box _ lasts => ih box 0 lasts) parent heads lasts
            (lasts.place going.2 more) handed)
          intro passed reached
          apply Agrees.ite
          · intro _
            exact Agrees.pure reached.1
          · intro returned
            exact (ih parent _ (reached.2 (not_not.mp returned))).mono fun _ further =>
              reached.1.trans further
    · intro _
      exact Agrees.pure (Follows.refl _)

/-! ## The root -/

/-- A box is handed on with its header inside, and left at its end. -/
def Visit.Kept : Visit → Prop
  | .handed place file => file.error = false → place.ToEnd ∨ place.header ≤ place.size
  | .passed place file => file.error = false → file.position = place.finish file.bytes.length

theorem Visit.Lands.kept_iff {visit : Visit} (lands : visit.Lands) : visit.Kept ↔ visit.Sound := by
  cases visit with
  | handed place file => exact Iff.rfl
  | passed place file =>
    constructor
    · intro kept fine
      exact (lands fine).finish_iff.mp (kept fine)
    · intro sound fine
      exact (lands fine).finish_iff.mpr (sound fine)

/-- The walk ends, without a fault but an assertion. -/
def Returns (parsers : Parsers State) (walk : Traced Visit (Int × Reader State)) : Prop :=
  Settles walk.result (Stopped parsers) fun _ => True

theorem Returns.no_access {walk : Traced Visit (Int × Reader State)} (returns : Returns parsers walk) :
    flaw? (walk.result.mapError Flaw.halt) ∉ [some .event, some (.halt .outside)] := by
  unfold Returns at returns
  cases result : walk.result with
  | ok value => simp [Except.mapError, flaw?]
  | error fault =>
    rw [result] at returns
    have assertion : fault = .assertion := returns.1
    simp [Except.mapError, flaw?, assertion]

theorem returns_of {walk : Traced Visit (Int × Reader State)} {post : Int × Reader State → Prop}
    (settles : Settles walk.result (Halts parsers) post)
    (access : flaw? (walk.result.mapError Flaw.halt) ∉ [some .event, some (.halt .outside)]) :
    Returns parsers walk := by
  unfold Returns
  cases result : walk.result with
  | ok value => exact trivial
  | error fault =>
    rw [result] at settles access
    refine settles.resolve_right fun outside => access ?_
    rw [outside]
    exact List.mem_cons_of_mem _ List.mem_cons_self

/-- Parsers that skip their boxes; the state says whether there was a track header. -/
def skipping (asserts : Bool) : Parsers Bool where
  asserts := asserts
  hasTrack found := found
  handlerType _ := tag 'v' 'i' 'd' 'e'
  describe _ found := found
  openTrack _ := false
  closeTrack found := found
  openMoof _ found := found
  other box reader :=
    let skipped := reader.skip box.size
    some (movBufferError skipped.file,
      ⟨skipped.file, reader.state || box.type == tag 't' 'k' 'h' 'd'⟩)
  other_bytes := by
    rintro box reader _ ⟨⟩
    exact (skip_follows _ _).bytes
  other_error := by
    rintro box reader _ ⟨⟩ failed
    unfold Reader.skip movBufferSkip
    rw [if_pos failed]
    exact failed

/-- A movie box with one track, whose boxes are given. -/
def movieOf (boxes : List UInt8) : List UInt8 :=
  bigEndian 4 (16 + boxes.length) ++ movTag 'm' 'o' 'o' 'v' ++
    (bigEndian 4 (8 + boxes.length) ++ movTag 't' 'r' 'a' 'k' ++ boxes)

/-- A track header and, in the 64-bit form, an empty media box. -/
def smallTrack : List UInt8 :=
  bigEndian 4 12 ++ movTag 't' 'k' 'h' 'd' ++ bigEndian 4 0 ++
    (bigEndian 4 1 ++ movTag 'm' 'd' 'i' 'a' ++ bigEndian 8 16)

/-- A track without a track header. -/
example : ¬LaidOut (skipping false) 33 (movieOf (bigEndian 4 16 ++ movTag 'f' 'r' 'e' 'e' ++
    bigEndian 8 0)) false := by decide +kernel

/-- A box of an unknown type with a 64-bit size of zero. -/
def emptyLargeBox : List UInt8 := bigEndian 4 1 ++ movTag 'a' 'b' 'c' 'd' ++ bigEndian 8 0

theorem emptyLargeBox_loops (parsers : Parsers State) (fuel : Nat) (state : State) :
    (walkRoot parsers fuel emptyLargeBox state).result = .error .fuel := by
  have place : readPlace ⟨emptyLargeBox, 0, false⟩ =
      (⟨.box, 0, 16, 0⟩, tag 'a' 'b' 'c' 'd', ⟨emptyLargeBox, 16, false⟩) := by decide
  have unknown : findParse (tag 'a' 'b' 'c' 'd') movRoot = none := by decide
  have back : movBufferSkip ⟨emptyLargeBox, 16, false⟩ (Place.boxSize ⟨.box, 0, 16, 0⟩) =
      ⟨emptyLargeBox, 0, false⟩ := by decide
  induction fuel with
  | zero => rfl
  | succ fuel ih =>
    unfold walkRoot movReaderBox at ih ⊢
    unfold readBoxes
    rw [place]
    unfold passPlace passBox
    dsimp only
    rw [unknown]
    dsimp only
    unfold Reader.skip
    dsimp only
    rw [back]
    exact ih

end CLibs.Mov
