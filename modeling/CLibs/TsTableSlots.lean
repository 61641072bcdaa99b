import CLibs.TsDemuxerBounds

/-!
# Stream slots under new tables

What the readers of the tables do to the packets that are being assembled.  A
new association table keeps the streams of a program or clears them.  A new
program map keeps every packet in its slot and gives the slots to the pids of
the section in their order; when the version changes, it starts again at the
first slot.
-/

namespace CLibs.MpegTs

open List

variable {Cell : Type}

/-! ## Values that were read -/

abbrev Brings {Value : Type} (program : Except Fault Value) (post : Value → Prop) : Prop :=
  Settles program (fun _ => True) post

theorem Brings.any {Value : Type} (program : Except Fault Value) : Brings program fun _ => True := by
  cases program <;> trivial

theorem byteAt_brings (data : List UInt8) (i : Nat) :
    Brings (byteAt data i) fun byte => byte = data.getD i 0 := by
  unfold byteAt
  rw [getD_eq_getElem?_getD]
  cases data[i]? with
  | none => trivial
  | some byte => rfl

theorem fieldAt_brings (data : List UInt8) (i : Nat) (mask : UInt8) :
    Brings (fieldAt data i mask) fun value => value = fieldOf data i mask := by
  apply (byteAt_brings data i).bind
  rintro high rfl
  apply (byteAt_brings data (i + 1)).bind
  rintro low rfl
  rfl

theorem pesReadHeader_brings (pes : Pes Cell) (data : List UInt8) :
    Brings (pesReadHeader pes data) (HeaderOf pes data) := by
  apply (Brings.any _).bind
  intro _ _
  apply (Brings.any _).bind
  intro _ _
  apply (Brings.any _).bind
  intro sid _
  apply (Brings.any _).bind
  intro len _
  apply (Brings.any _).bind
  intro marks _
  apply (Brings.any _).bind
  intro _ _
  apply (Brings.any _).bind
  intro flags _
  apply (byteAt_brings data 8).bind
  rintro length rfl
  apply Settles.ite
  · exact fun _ => ⟨rfl, rfl, .inl rfl⟩
  · intro complete
    apply (Brings.any _).bind
    intro times _
    exact ⟨rfl, rfl, .inr ⟨rfl, Nat.not_lt.mp complete⟩⟩

/-! ## The service description -/

theorem readService_brings (data : List UInt8) (k last : Nat) (pmt : Pmt Cell) :
    Brings (readService data k last pmt) fun read => read.streams = pmt.streams := by
  apply (Brings.any _).bind
  intro _ _
  apply Settles.ite
  · exact fun _ => rfl
  · intro _
    apply (Brings.any _).bind
    intro _ _
    apply (Brings.any _).bind
    intro _ _
    apply Settles.ite
    · exact fun _ => rfl
    · intro _
      apply (Brings.any _).bind
      exact fun _ _ => rfl

theorem sdtReadDescriptors_brings (data : List UInt8) (last fuel : Nat) :
    ∀ {k : Nat} {pmt : Pmt Cell}, Brings (sdtReadDescriptors data last fuel k pmt) fun read =>
      read.streams = pmt.streams := by
  induction fuel with
  | zero =>
    intro k pmt
    trivial
  | succ fuel ih =>
    intro k pmt
    rw [sdtReadDescriptors]
    apply Settles.ite
    · intro _
      apply (Brings.any _).bind
      intro _ _
      apply (Brings.any _).bind
      intro _ _
      apply Settles.ite
      · exact fun _ => ih
      · intro _
        apply (readService_brings data k last pmt).bind
        intro read same
        rw [← same]
        exact ih
    · exact fun _ => rfl

theorem sdtReadServices_brings (data : List UInt8) (bound fuel : Nat) :
    ∀ {i : Nat} {pat : Pat Cell}, Brings (sdtReadServices data bound fuel i pat)
      (SameStreams pat) := by
  induction fuel with
  | zero =>
    intro i pat
    trivial
  | succ fuel ih =>
    intro i pat
    rw [sdtReadServices]
    apply Settles.ite
    · intro _
      apply (Brings.any _).bind
      intro n _
      apply (Brings.any _).bind
      intro _ _
      apply Settles.ite
      · exact fun _ => ih
      · intro _
        split
        · exact ih
        · rename_i k _
          apply (sdtReadDescriptors_brings data (i + 5 + n) (n + 1)).bind
          intro pmt same
          apply ih.mono
          intro next further
          apply SameStreams.trans _ further
          exact sameStreams_set pat k same
    · exact fun _ => .refl pat

theorem sdtRead_brings (pat : Pat Cell) (data : List UInt8) :
    Brings (sdtRead pat data) (SameStreams pat) := by
  apply (Brings.any _).bind
  intro _ _
  apply (Brings.any _).bind
  intro sectionLength _
  apply Settles.ite
  · exact fun _ => .refl pat
  · intro _
    apply (Brings.any _).bind
    intro _ _
    exact sdtReadServices_brings data (sectionEnd sectionLength) _

/-! ## The association table -/

/-- Every program in use kept its streams or has fresh ones. -/
def StreamsKept (pat next : Pat Cell) : Prop :=
  ∀ k < next.pmts.count, (k < pat.pmts.count ∧ (next.pmts.slots k).streams =
      (pat.pmts.slots k).streams) ∨ (next.pmts.slots k).streams = (Pmt.zero Cell).streams

theorem StreamsKept.trans {first second third : Pat Cell} (kept : StreamsKept first second)
    (then_ : StreamsKept second third) : StreamsKept first third := by
  intro k inside
  rcases then_ k inside with ⟨before, same⟩ | fresh
  · rw [same]
    exact kept k before
  · exact .inr fresh

theorem patAllocPmt_brings (pat : Pat Cell) :
    Brings (patAllocPmt true pat) fun allocated =>
      ∃ table, allocated = some table ∧
        table.pmts = pat.pmts.set pat.pmts.count (Pmt.zero Cell) := by
  unfold patAllocPmt
  apply Settles.ite
  · exact fun _ => trivial
  · intro _
    dsimp only
    apply Settles.ite
    · exact fun _ => ⟨_, rfl, rfl⟩
    · intro _
      apply Settles.ite
      · exact fun _ => trivial
      · intro _
        rw [if_pos rfl]
        exact ⟨_, rfl, rfl⟩

theorem patStore_streams (table : Pat Cell) (k pn pid other : Nat) :
    ((patStore (table, some k) pn pid).pmts.slots other).streams =
      (table.pmts.slots other).streams := by
  unfold patStore
  dsimp only
  rw [SlotArray.modify_slots]
  split <;> rfl

theorem patFetch_brings (pat : Pat Cell) (pn pid : Nat) :
    Brings (patFetch true pat pid) fun fetched => StreamsKept pat (patStore fetched pn pid) := by
  unfold patFetch
  split
  · rename_i k found
    apply Settles.ite
    · intro _ other inside
      exact .inl ⟨inside, patStore_streams pat k pn pid other⟩
    · exact fun _ => trivial
  · apply Settles.ite
    · exact fun _ => trivial
    · intro _
      apply (patAllocPmt_brings pat).bind
      rintro allocated ⟨table, rfl, pmts⟩ other inside
      have streams := patStore_streams
        { table with pmts := ⟨table.pmts.slots, table.pmts.count + 1⟩ } pat.pmts.count pn pid other
      change other < table.pmts.count + 1 at inside
      rw [pmts] at inside
      by_cases last : other = pat.pmts.count
      · apply Or.inr
        apply streams.trans
        subst last
        exact congrArg Pmt.streams (by rw [pmts]; exact SlotArray.set_same _ _ _)
      · refine .inl ⟨Nat.lt_of_le_of_ne (Nat.le_of_lt_succ inside) last, streams.trans ?_⟩
        exact congrArg Pmt.streams (by rw [pmts]; exact SlotArray.set_other _ _ last)

theorem patReadPrograms_brings (data : List UInt8) (bound fuel : Nat) :
    ∀ {i : Nat} {pat : Pat Cell}, Brings (patReadPrograms true data bound fuel i pat)
      (StreamsKept pat) := by
  induction fuel with
  | zero =>
    intro i pat
    trivial
  | succ fuel ih =>
    intro i pat
    rw [patReadPrograms]
    apply Settles.ite
    · intro _
      apply (Brings.any _).bind
      intro pn _
      apply (Brings.any _).bind
      intro pid _
      apply Settles.ite
      · exact fun _ => ih
      · intro _
        apply (patFetch_brings pat pn pid).bind
        intro fetched kept
        exact ih.mono fun next further => kept.trans further
    · exact fun _ k inside => .inl ⟨inside, rfl⟩

theorem patRead_brings (pat : Pat Cell) (data : List UInt8) :
    Brings (patRead true pat data) (StreamsKept pat) := by
  apply (Brings.any _).bind
  intro _ _
  apply (Brings.any _).bind
  intro _ _
  apply (Brings.any _).bind
  intro sectionLength _
  iterate 5
    apply (Brings.any _).bind
    intro _ _
  generalize (sectionLength + 8 + 2 ^ 32 - 5 - 4) % 2 ^ 32 = bound
  apply (patReadPrograms_brings data bound _).mono
  intro next further
  apply StreamsKept.trans _ further
  intro k inside
  change k < if _ then 0 else pat.pmts.count at inside
  split at inside
  · exact absurd inside (Nat.not_lt_zero k)
  · exact .inl ⟨inside, rfl⟩

/-! ## The program map -/

def sectionPids (data : List UInt8) (bound : Nat) : (fuel i : Nat) → List Nat
  | 0, _ => []
  | fuel + 1, i =>
    let len := fieldOf data (i + 3) 0x0F
    if i + len + 5 ≤ bound then
      fieldOf data (i + 1) 0x1F :: sectionPids data bound fuel (i + len + 5)
    else []

/-- Every pid that is not in use yet takes the next slot, and what is pending
there is pending for this pid. -/
def KeepsSlots (slots : Nat → Pes Cell) : (used pids : List Nat) → Prop
  | _, [] => True
  | used, pid :: rest =>
    if pid ∈ used then KeepsSlots slots used rest
    else ((slots used.length).pkt.data = [] ∨ (slots used.length).pid = pid) ∧
      KeepsSlots slots (used ++ [pid]) rest

def MapKeeps (pmt : Pmt Cell) (data : List UInt8) : Prop :=
  KeepsSlots pmt.streams.slots
    (if pmt.ver ≠ versionOf (data.getD 5 0) then [] else pmt.streams.live.map Pes.pid)
    (sectionPids data (sectionEnd (fieldOf data 1 0x0F)) (data.length + 1)
      (12 + fieldOf data 10 0x0F))

/-- The packets stay in their slots, and with pending bytes so do the pids. -/
def PacketsKept (streams others : Nat → Pes Cell) : Prop :=
  ∀ k, (others k).pkt = (streams k).pkt ∧
    ((streams k).pkt.data = [] ∨ (others k).pid = (streams k).pid)

/-- The slots of a program while a section is read: those in use have these pids,
the others are as they were. -/
structure Assigned (streams : Nat → Pes Cell) (pmt : Pmt Cell) (used : List Nat) : Prop where
  count : pmt.streams.count = used.length
  pid : ∀ k (inside : k < used.length), (pmt.streams.slots k).pid = used[k]
  spare : ∀ k ≥ used.length, pmt.streams.slots k = streams k
  kept : PacketsKept streams pmt.streams.slots

theorem readDescriptor_brings (calloc : Bool) (data : List UInt8) (i : Nat) (tag : UInt8)
    (stream : Pes Cell) :
    Brings (readDescriptor calloc data i tag stream) fun read =>
      read.pid = stream.pid ∧ read.pkt = stream.pkt := by
  unfold readDescriptor
  apply Settles.ite
  · intro _
    apply (Brings.any _).bind
    intro opus _
    apply Settles.ite
    · intro _
      apply (Brings.any _).bind
      exact fun _ _ => ⟨rfl, rfl⟩
    · exact fun _ => ⟨rfl, rfl⟩
  · intro _
    apply Settles.ite
    · intro _
      apply Settles.ite
      · intro _
        apply (Brings.any _).bind
        intro _ _
        apply Settles.ite
        · intro _
          apply (Brings.any _).bind
          intro _ _
          apply Settles.ite
          · intro _
            apply (Brings.any _).bind
            exact fun _ _ => ⟨rfl, rfl⟩
          · exact fun _ => ⟨rfl, rfl⟩
        · exact fun _ => ⟨rfl, rfl⟩
      · exact fun _ => ⟨rfl, rfl⟩
    · exact fun _ => ⟨rfl, rfl⟩

theorem pmtReadDescriptor_brings (calloc : Bool) (data : List UInt8) (fuel : Nat) :
    ∀ {i bytes : Nat} {stream : Pes Cell},
      Brings (pmtReadDescriptor calloc data fuel i bytes stream) fun read =>
        read.pid = stream.pid ∧ read.pkt = stream.pkt := by
  induction fuel with
  | zero =>
    intro i bytes stream
    trivial
  | succ fuel ih =>
    intro i bytes stream
    rw [pmtReadDescriptor]
    apply Settles.ite
    · intro _
      apply (Brings.any _).bind
      intro tag _
      apply (Brings.any _).bind
      intro len _
      apply Settles.ite
      · exact fun _ => ⟨rfl, rfl⟩
      · intro _
        apply (readDescriptor_brings calloc data i tag stream).bind
        rintro read ⟨pid, pkt⟩
        rw [← pid, ← pkt]
        exact ih
    · intro _
      apply (Brings.any _).bind
      exact fun _ _ => ⟨rfl, rfl⟩

theorem pmtReadInfo_brings (calloc : Bool) (data : List UInt8) (i len : Nat) (stream : Pes Cell) :
    Brings (pmtReadInfo calloc data i len stream) fun read =>
      read.pid = stream.pid ∧ read.pkt = stream.pkt := by
  unfold pmtReadInfo
  apply Settles.ite
  · exact fun _ => pmtReadDescriptor_brings calloc data (len + 1)
  · exact fun _ => ⟨rfl, rfl⟩

variable {streams : Nat → Pes Cell}

theorem PacketsKept.set {others : SlotArray (Pes Cell)} {j : Nat} {stream : Pes Cell}
    (kept : PacketsKept streams others.slots) (pkt : stream.pkt = (others.slots j).pkt)
    (pid : (streams j).pkt.data = [] ∨ stream.pid = (streams j).pid) :
    PacketsKept streams (others.set j stream).slots := by
  intro k
  by_cases here : k = j
  · subst here
    rw [SlotArray.set_same]
    exact ⟨pkt.trans (kept k).1, pid⟩
  · rw [SlotArray.set_other _ _ here]
    exact kept k

theorem pmtFetch_assigned {pmt : Pmt Cell} {used : List Nat} {pid : Nat} {rest : List Nat}
    (assigned : Assigned streams pmt used) (keeps : KeepsSlots streams used (pid :: rest)) :
    Brings (pmtFetch pmt pid) fun fetched => ∀ stream : Pes Cell,
      stream.pid = pid → stream.pkt = (fetched.1.streams.slots fetched.2).pkt →
        ∃ next, Assigned streams (pmtStore fetched.1 fetched.2 stream) next ∧
          KeepsSlots streams next rest := by
  rw [KeepsSlots] at keeps
  unfold pmtFetch
  cases found : pmt.streams.find fun stream => decide (stream.pid = pid) with
  | some j =>
    obtain ⟨inside, same⟩ := SlotArray.find_some found
    rw [assigned.count] at inside
    have here := of_decide_eq_true same
    have member : pid ∈ used := by
      rw [← here, assigned.pid j inside]
      exact getElem_mem inside
    rw [if_pos member] at keeps
    intro stream pidOf pkt
    refine ⟨used, ⟨assigned.count, ?_, ?_, ?_⟩, keeps⟩
    · intro k live
      by_cases slot : k = j
      · subst slot
        rw [← assigned.pid k live, here, ← pidOf]
        exact congrArg Pes.pid (SlotArray.set_same _ _ _)
      · rw [← assigned.pid k live]
        exact congrArg Pes.pid (SlotArray.set_other _ _ slot)
    · intro k spare
      rw [← assigned.spare k spare]
      exact SlotArray.set_other _ _ (by omega)
    · apply assigned.kept.set pkt
      rcases (assigned.kept j).2 with empty | kept
      · exact .inl empty
      · right
        rw [pidOf, ← here]
        exact kept
  | none =>
    have fresh : pid ∉ used := by
      intro member
      obtain ⟨k, inside, here⟩ := mem_iff_getElem.mp member
      have counted : k < pmt.streams.count := by rwa [assigned.count]
      have other := SlotArray.find_none found counted
      exact of_decide_eq_false other ((assigned.pid k inside).trans here)
    rw [if_neg fresh] at keeps
    dsimp only
    apply Settles.ite
    · exact fun _ => trivial
    · intro _ stream pidOf pkt
      have count := assigned.count
      refine ⟨used ++ [pid], ⟨?_, ?_, ?_, ?_⟩, keeps.2⟩
      · rw [length_append]
        exact congrArg (· + 1) count
      · intro k live
        by_cases last : k = pmt.streams.count
        · subst last
          rw [getElem_append_right (by omega)]
          simp only [count, Nat.sub_self]
          exact (congrArg Pes.pid (SlotArray.set_same _ _ _)).trans pidOf
        · rw [length_append, length_singleton] at live
          have before : k < used.length := by omega
          rw [getElem_append_left before, ← assigned.pid k before]
          exact congrArg Pes.pid (SlotArray.set_other _ _ last)
      · intro k spare
        rw [length_append, length_singleton] at spare
        rw [← assigned.spare k (by omega)]
        exact SlotArray.set_other _ _ (by omega)
      · have kept : PacketsKept streams
            (SlotArray.mk pmt.streams.slots (pmt.streams.count + 1)).slots := assigned.kept
        apply kept.set pkt
        rw [count, pidOf]
        rcases keeps.1 with empty | same
        · exact .inl empty
        · exact .inr same.symm

theorem pmtReadStreams_brings (calloc : Bool) (data : List UInt8) (bound fuel : Nat) :
    ∀ {i : Nat} {pmt : Pmt Cell} {used : List Nat}, Assigned streams pmt used →
      KeepsSlots streams used (sectionPids data bound fuel i) →
      Brings (pmtReadStreams calloc data bound fuel i pmt) fun next =>
        PacketsKept streams next.streams.slots := by
  induction fuel with
  | zero =>
    intro i pmt used _ _
    trivial
  | succ fuel ih =>
    intro i pmt used assigned keeps
    rw [pmtReadStreams]
    apply Settles.ite
    · intro _
      apply (fieldAt_brings data (i + 1) 0x1F).bind
      rintro pid rfl
      apply (fieldAt_brings data (i + 3) 0x0F).bind
      rintro len rfl
      apply Settles.ite
      · exact fun _ => assigned.kept
      · intro fits
        rw [sectionPids, if_pos (Nat.not_lt.mp fits)] at keeps
        apply (Brings.any _).bind
        intro _ _
        apply (pmtFetch_assigned assigned keeps).bind
        intro fetched stored
        apply (Brings.any _).bind
        intro codecid _
        apply (pmtReadInfo_brings calloc data i _ _).bind
        rintro stream ⟨pid, pkt⟩
        obtain ⟨next, further, rest⟩ := stored stream pid pkt
        exact ih further rest
    · exact fun _ => assigned.kept

theorem pmtRead_brings (calloc : Bool) {pmt : Pmt Cell} {data : List UInt8}
    (keeps : MapKeeps pmt data) :
    Brings (pmtRead calloc pmt data) fun next =>
      PacketsKept pmt.streams.slots next.streams.slots := by
  unfold MapKeeps at keeps
  apply (Brings.any _).bind
  intro _ _
  apply (Brings.any _).bind
  intro _ _
  apply (fieldAt_brings data 1 0x0F).bind
  rintro sectionLength rfl
  apply (Brings.any _).bind
  intro programNumber _
  apply (byteAt_brings data 5).bind
  rintro version rfl
  apply (Brings.any _).bind
  intro _ _
  apply (Brings.any _).bind
  intro _ _
  apply (Brings.any _).bind
  intro pcrPid _
  apply (fieldAt_brings data 10 0x0F).bind
  rintro infoLength rfl
  iterate 5
    apply (Brings.any _).bind
    intro _ _
  have same : PacketsKept pmt.streams.slots pmt.streams.slots := fun k => ⟨rfl, .inr rfl⟩
  apply pmtReadStreams_brings calloc data _ _ _ keeps
  by_cases changed : pmt.ver ≠ versionOf (data.getD 5 0)
  · rw [if_pos changed]
    refine ⟨if_pos changed, ?_, fun k _ => rfl, same⟩
    exact fun k inside => absurd inside (Nat.not_lt_zero k)
  · rw [if_neg changed]
    refine ⟨?_, ?_, fun k _ => rfl, same⟩
    · rw [length_map, SlotArray.live_length]
      exact if_neg changed
    · intro k inside
      rw [getElem_map]
      unfold SlotArray.live
      rw [getElem_map, getElem_range]
      rfl

end CLibs.MpegTs
