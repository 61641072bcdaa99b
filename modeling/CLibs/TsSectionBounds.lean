import CLibs.TsDemuxer

/-!
# Reads inside the packet

When the readers of the demuxer stay inside the bytes they are given.  The
lengths that a section carries are compared with the packet by assertions; what
is not compared is the fixed part of each reader, a section of length 0, and the
number of channels of an Opus stream.
-/

namespace CLibs.MpegTs

variable {Cell : Type}

def Contained (fault : Fault) : Prop := fault ≠ .outside ∧ fault ≠ .fuel

theorem contained_assertion : Contained .assertion := ⟨nofun, nofun⟩

theorem Settles.contained {condition : Prop} [Decidable condition] :
    Settles (check condition) Contained fun _ => condition :=
  .check contained_assertion

/-! ## Bytes and fields -/

variable {data : List UInt8} {i : Nat}

theorem byteAt_inside (inside : i < data.length) :
    byteAt data i = .ok (data.getD i 0) := by
  unfold byteAt
  rw [List.getElem?_eq_getElem inside, List.getD_eq_getElem?_getD,
    List.getElem?_eq_getElem inside]
  rfl

/-- The value of two bytes of the data. -/
def fieldOf (data : List UInt8) (i : Nat) (mask : UInt8) : Nat :=
  (data.getD i 0 &&& mask).toNat <<< 8 ||| (data.getD (i + 1) 0).toNat

theorem fieldAt_inside (mask : UInt8) (inside : i + 1 < data.length) :
    fieldAt data i mask = .ok (fieldOf data i mask) := by
  unfold fieldAt
  rw [byteAt_inside (by omega), ok_bind, byteAt_inside inside, ok_bind]
  rfl

theorem fieldOf_nibble (data : List UInt8) (i : Nat) : fieldOf data i 0x0F < 2 ^ 12 := by
  have high : (data.getD i 0 &&& 0x0F).toNat < 2 ^ 4 := by
    rw [UInt8.toNat_and]
    exact Nat.and_lt_two_pow _ (by decide)
  have low := UInt8.toNat_lt (data.getD (i + 1) 0)
  unfold fieldOf
  rw [← Nat.shiftLeft_add_eq_or_of_lt low, Nat.shiftLeft_eq]
  omega

theorem touch_inside {count : Nat} (inside : i + count ≤ data.length) :
    touch data i count = .ok () := if_pos inside

theorem touchIf_inside {count : Nat} (condition : Bool)
    (inside : condition = true → i + count ≤ data.length) :
    touchIf condition data i count = .ok () := by
  unfold touchIf
  split
  · exact touch_inside (inside ‹_›)
  · rfl

def spelled (data : List UInt8) (i : Nat) (letters : List UInt8) : Bool :=
  decide ((data.drop i).take letters.length = letters)

theorem spells_inside {letters : List UInt8} (inside : i + letters.length ≤ data.length) :
    spells data i letters = .ok (spelled data i letters) := by
  induction letters generalizing i with
  | nil => rfl
  | cons letter letters ih =>
    rw [List.length_cons] at inside
    have here : i < data.length := by omega
    have same : (data.drop i).take (letters.length + 1) = letter :: letters ↔
        data.getD i 0 = letter ∧ (data.drop (i + 1)).take letters.length = letters := by
      rw [List.drop_eq_getElem_cons here, List.take_succ_cons, List.cons.injEq,
        List.getD_eq_getElem?_getD, List.getElem?_eq_getElem here]
      rfl
    rw [spells, byteAt_inside here, ok_bind]
    by_cases first : data.getD i 0 = letter
    · rw [if_pos first, ih (by omega)]
      apply congrArg
      exact decide_eq_decide.mpr (same.trans (and_iff_right first)).symm
    · rw [if_neg first]
      apply congrArg
      exact (decide_eq_false fun both => first (same.mp both).1).symm

/-! ## The adaptation field -/

/-- Private data and an extension behind it end inside the packet. -/
def FieldInside (data : List UInt8) : Prop :=
  let flags := data.getD 1 0
  let place := 2 + widthOf (flagOf flags 0x10) 6 + widthOf (flagOf flags 0x08) 6 +
    widthOf (flagOf flags 0x04) 1
  (data.getD 0 0).toNat > 0 → flagOf flags 0x02 = true → flagOf flags 0x01 = true →
    place + 1 + (data.getD place 0).toNat + 2 ≤ data.length

theorem widthOf_le (present : Bool) (width : Nat) : widthOf present width ≤ width := by
  unfold widthOf
  split <;> omega

theorem adaptationFiledRead_inside (room : 20 ≤ data.length) (inside : FieldInside data) :
    adaptationFiledRead data = .ok ((data.getD 0 0).toNat + 1) := by
  unfold FieldInside at inside
  dsimp only at inside
  unfold adaptationFiledRead
  rw [byteAt_inside (by omega), ok_bind]
  by_cases some : (data.getD 0 0).toNat > 0
  · have clock := widthOf_le (flagOf (data.getD 1 0) 0x10) 6
    have original := widthOf_le (flagOf (data.getD 1 0) 0x08) 6
    have splice := widthOf_le (flagOf (data.getD 1 0) 0x04) 1
    rw [if_pos some, byteAt_inside (by omega), ok_bind]
    dsimp only
    rw [touchIf_inside _ fun _ => by omega, ok_bind, touchIf_inside _ fun _ => by omega, ok_bind,
      touchIf_inside _ fun _ => by omega, ok_bind]
    unfold privateDataRead extensionRead
    by_cases data_ : flagOf (data.getD 1 0) 0x02 = true
    · rw [if_pos data_, byteAt_inside (by omega), ok_bind]
      change (touchIf _ data _ 2 >>= fun _ => _) = _
      rw [touchIf_inside _ fun extended => inside some data_ extended, ok_bind]
      rfl
    · rw [if_neg data_]
      change (touchIf _ data _ 2 >>= fun _ => _) = _
      rw [touchIf_inside _ fun _ => by omega, ok_bind]
      rfl
  · rw [if_neg some]
    have none : (data.getD 0 0).toNat = 0 := by omega
    rw [none]
    rfl

/-! ## The program association table -/

/-- Every entry in use has memory. -/
def Housed (pat : Pat Cell) : Prop := pat.pmts.count ≤ pat.pmtCapacity

variable {pat : Pat Cell}

theorem patAllocPmt_settles (housed : Housed pat) :
    Settles (patAllocPmt true pat) Contained fun allocated =>
      ∃ table, allocated = some table ∧ table.pmts.count = pat.pmts.count ∧
        pat.pmts.count + 1 ≤ table.pmtCapacity := by
  have enough : pat.pmts.count ≤ if pat.pmtCapacity = 0 then 1 else pat.pmtCapacity := by
    unfold Housed at housed
    split <;> omega
  unfold patAllocPmt
  apply Settles.ite
  · exact fun _ => contained_assertion
  · intro _
    dsimp only
    generalize (if pat.pmtCapacity = 0 then 1 else pat.pmtCapacity) = capacity at *
    apply Settles.ite
    · exact fun room => ⟨_, rfl, rfl, room⟩
    · intro full
      apply Settles.ite
      · exact fun _ => contained_assertion
      · intro _
        rw [if_pos rfl]
        refine ⟨_, rfl, rfl, ?_⟩
        dsimp only
        omega

theorem patFetch_settles (housed : Housed pat) (pn pid : Nat) :
    Settles (patFetch true pat pid) Contained fun fetched => Housed (patStore fetched pn pid) := by
  unfold patFetch
  split
  · rename_i k found
    have inside := (SlotArray.find_some found).1
    rw [if_pos (Nat.lt_of_lt_of_le inside housed)]
    exact housed
  · rw [if_neg (Nat.not_lt.mpr housed)]
    apply (patAllocPmt_settles housed).bind
    rintro allocated ⟨table, rfl, count, room⟩
    change table.pmts.count + 1 ≤ table.pmtCapacity
    rw [count]
    exact room

theorem patReadPrograms_settles {bound : Nat} (inside : bound ≤ data.length) (fuel : Nat) :
    ∀ {i : Nat} {pat : Pat Cell}, fuel ≠ 0 → bound < i + 4 * fuel → Housed pat →
      Settles (patReadPrograms true data bound fuel i pat) Contained Housed := by
  induction fuel with
  | zero => exact fun enough => absurd rfl enough
  | succ fuel ih =>
    intro i pat _ enough housed
    rw [patReadPrograms]
    split
    · rename_i further
      rw [fieldAt_inside _ (by omega), ok_bind, fieldAt_inside _ (by omega), ok_bind]
      split
      · exact ih (by omega) (by omega) housed
      · apply (patFetch_settles housed _ _).bind
        intro fetched stored
        exact ih (by omega) (by omega) stored
    · exact housed

structure SectionInside (data : List UInt8) (head : Nat) (tableId : UInt8) : Prop where
  head : head ≤ data.length
  length : data.getD 0 0 = tableId → fieldOf data 1 0x0F ≠ 0

theorem patRead_settles (housed : Housed pat) (inside : SectionInside data 6 patTidPas) :
    Settles (patRead true pat data) Contained Housed := by
  have room := inside.head
  have small := fieldOf_nibble data 1
  unfold patRead
  rw [byteAt_inside (by omega), ok_bind, byteAt_inside (by omega), ok_bind,
    fieldAt_inside _ (by omega), ok_bind, fieldAt_inside _ (by omega), ok_bind,
    byteAt_inside (by omega), ok_bind]
  apply Settles.contained.bind
  intro _ table
  apply Settles.contained.bind
  intro _ _
  apply Settles.contained.bind
  intro _ complete
  have some := inside.length table
  have bound : (fieldOf data 1 0x0F + 8 + 2 ^ 32 - 5 - 4) % 2 ^ 32 = fieldOf data 1 0x0F - 1 := by
    omega
  rw [bound]
  apply patReadPrograms_settles (by omega) _ (by omega) (by omega)
  change (if _ then 0 else pat.pmts.count) ≤ pat.pmtCapacity
  split
  · exact Nat.zero_le _
  · exact housed

/-! ## The program map -/

def registeredType (data : List UInt8) (i : Nat) (codecid : UInt8) : UInt8 :=
  if data.getD i 0 = 0x05 ∧ spelled data (i + 2) [0x4F, 0x70, 0x75, 0x73] = true then
    psiStreamAudioOpus
  else codecid

def DescriptorsInside (data : List UInt8) : (fuel i bytes : Nat) → (codecid : UInt8) → Prop
  | 0, _, _, _ => True
  | fuel + 1, i, bytes, codecid =>
    let len := (data.getD (i + 1) 0).toNat
    bytes > 2 → len + 2 ≤ bytes →
      (data.getD i 0 = 0x7f → codecid = psiStreamAudioOpus → data.getD (i + 2) 0 = 0x80 →
        (data.getD (i + 3) 0).toNat ≤ 8) ∧
      DescriptorsInside data fuel (i + len + 2) (bytes - (len + 2)) (registeredType data i codecid)

variable {calloc : Bool}

theorem readDescriptor_settles {stream : Pes Cell} (inside : i + 6 ≤ data.length)
    (channels : calloc = true → data.getD i 0 = 0x7f → stream.codecid = psiStreamAudioOpus →
      data.getD (i + 2) 0 = 0x80 → (data.getD (i + 3) 0).toNat ≤ 8) :
    Settles (readDescriptor calloc data i (data.getD i 0) stream) Contained fun read =>
      read.codecid = registeredType data i stream.codecid := by
  unfold readDescriptor
  apply Settles.ite
  · intro registration
    unfold readRegistration registeredType
    rw [spells_inside (by simpa using inside), ok_bind]
    by_cases opus : spelled data (i + 2) [0x4F, 0x70, 0x75, 0x73] = true
    · rw [if_pos opus, if_pos ⟨registration, opus⟩]
      apply Settles.contained.bind
      intro _ _
      rfl
    · rw [if_neg opus, if_neg fun both => opus both.2]
      rfl
  · intro other
    have same : registeredType data i stream.codecid = stream.codecid :=
      if_neg fun both => other both.1
    rw [same]
    apply Settles.ite
    · intro extension
      unfold readExtension
      apply Settles.ite
      · intro opus
        rw [byteAt_inside (by omega), ok_bind]
        apply Settles.ite
        · intro tagged
          rw [byteAt_inside (by omega), ok_bind]
          apply Settles.ite
          · intro memory
            obtain ⟨extradata, known⟩ := opusExtradata_eq (channels memory extension opus tagged)
            rw [known, ok_bind]
            rfl
          · exact fun _ => rfl
        · exact fun _ => rfl
      · exact fun _ => rfl
    · exact fun _ => rfl

theorem pmtReadDescriptor_settles (fuel : Nat) :
    ∀ {i bytes : Nat} {stream : Pes Cell}, bytes < fuel → i + bytes + 3 ≤ data.length →
      (calloc = true → DescriptorsInside data fuel i bytes stream.codecid) →
      Settles (pmtReadDescriptor calloc data fuel i bytes stream) Contained fun _ => True := by
  induction fuel with
  | zero => exact fun enough => absurd enough (Nat.not_lt_zero _)
  | succ fuel ih =>
    intro i bytes stream enough inside channels
    rw [pmtReadDescriptor]
    apply Settles.ite
    · intro some
      rw [byteAt_inside (by omega), ok_bind, byteAt_inside (by omega), ok_bind]
      apply Settles.ite
      · exact fun _ => trivial
      · intro fits
        apply (readDescriptor_settles (by omega) fun memory =>
          ((channels memory) some (by omega)).1).bind
        intro read type
        apply ih (by omega) (by omega)
        intro memory
        rw [type]
        exact ((channels memory) some (by omega)).2
    · intro _
      apply Settles.contained.bind
      exact fun _ _ => trivial

/-- The descriptors of all entries up to `bound` are as they have to be. -/
def EntriesInside (data : List UInt8) (bound : Nat) : (fuel i : Nat) → Prop
  | 0, _ => True
  | fuel + 1, i =>
    let len := fieldOf data (i + 3) 0x0F
    i + len + 5 ≤ bound →
      DescriptorsInside data (len + 1) (i + 5) len (data.getD i 0) ∧
        EntriesInside data bound fuel (i + len + 5)

theorem pmtFetch_settles (pmt : Pmt Cell) (pid : Nat) :
    Settles (pmtFetch pmt pid) Contained fun _ => True := by
  unfold pmtFetch
  split
  · trivial
  · apply Settles.ite
    · exact fun _ => contained_assertion
    · exact fun _ => trivial

theorem pmtReadInfo_settles {len : Nat} {stream : Pes Cell} (inside : i + 5 + len + 3 ≤ data.length)
    (channels : calloc = true → DescriptorsInside data (len + 1) (i + 5) len stream.codecid) :
    Settles (pmtReadInfo calloc data i len stream) Contained fun _ => True := by
  unfold pmtReadInfo
  apply Settles.ite
  · exact fun _ => pmtReadDescriptor_settles (len + 1) (by omega) inside channels
  · exact fun _ => trivial

theorem pmtReadStreams_settles {bound : Nat} (inside : bound + 3 ≤ data.length) (fuel : Nat) :
    ∀ {i : Nat} {pmt : Pmt Cell}, fuel ≠ 0 → bound < i + 5 * fuel →
      (calloc = true → EntriesInside data bound fuel i) →
      Settles (pmtReadStreams calloc data bound fuel i pmt) Contained fun _ => True := by
  induction fuel with
  | zero => exact fun enough => absurd rfl enough
  | succ fuel ih =>
    intro i pmt _ enough channels
    rw [pmtReadStreams]
    apply Settles.ite
    · intro further
      rw [fieldAt_inside _ (by omega), ok_bind, fieldAt_inside _ (by omega), ok_bind]
      apply Settles.ite
      · exact fun _ => trivial
      · intro fits
        apply Settles.contained.bind
        intro _ _
        apply (pmtFetch_settles _ _).bind
        intro fetched _
        rw [byteAt_inside (by omega), ok_bind]
        apply (pmtReadInfo_settles (by omega) fun memory =>
          ((channels memory) (by omega)).1).bind
        intro stream _
        exact ih (by omega) (by omega) fun memory => ((channels memory) (by omega)).2
    · exact fun _ => trivial

structure MapInside (calloc : Bool) (data : List UInt8) : Prop where
  fixed : SectionInside data 12 patTidPms
  channels : calloc = true → EntriesInside data (fieldOf data 1 0x0F - 1) (data.length + 1)
    (12 + fieldOf data 10 0x0F)

theorem pmtRead_settles {pmt : Pmt Cell} (inside : MapInside calloc data) :
    Settles (pmtRead calloc pmt data) Contained fun _ => True := by
  have room := inside.fixed.head
  have small := fieldOf_nibble data 1
  unfold pmtRead
  rw [byteAt_inside (by omega), ok_bind, byteAt_inside (by omega), ok_bind,
    fieldAt_inside _ (by omega), ok_bind, fieldAt_inside _ (by omega), ok_bind,
    byteAt_inside (by omega), ok_bind, byteAt_inside (by omega), ok_bind,
    byteAt_inside (by omega), ok_bind, fieldAt_inside _ (by omega), ok_bind,
    fieldAt_inside _ (by omega), ok_bind]
  apply Settles.contained.bind
  intro _ table
  iterate 3
    apply Settles.contained.bind
    intro _ _
  apply Settles.contained.bind
  intro _ complete
  have some := inside.fixed.length table
  rw [sectionEnd_eq some small]
  exact pmtReadStreams_settles (by omega) _ (by omega) (by omega) inside.channels

end CLibs.MpegTs
