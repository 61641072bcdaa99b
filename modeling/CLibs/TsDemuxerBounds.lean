import CLibs.GuardedRuns
import CLibs.TsAssemblyBounds

/-!
# Headers and services inside the packet

The reader of a PES header compares the length of the header with the packet,
but its optional fields are read whether the header holds them or not.  The
reader of the service description stays inside every section it accepts.
-/

namespace CLibs.MpegTs

open List

variable {Cell : Type}

/-! ## The header of a PES packet -/

/-- How many bytes behind the fixed part `pes_read_header` reads. -/
def optionsWidth (flags : UInt8) : Nat :=
  widthOf (flagOf flags 0x80) 5 + widthOf (flagOf flags 0x40) 5 + widthOf (flagOf flags 0x20) 6 +
    widthOf (flagOf flags 0x10) 3

/-- The length of the header that the packet announces. -/
def headerSize (data : List UInt8) : Nat := (data.getD 8 0).toNat + 9

structure HeaderInside (data : List UInt8) : Prop where
  fixed : 9 ≤ data.length
  options : headerSize data ≤ data.length → 9 + optionsWidth (data.getD 7 0) ≤ data.length

variable {data : List UInt8} {i : Nat}

theorem timestampAt_inside (inside : i + 5 ≤ data.length) :
    Settles (timestampAt data i) Contained fun _ => True := by
  unfold timestampAt
  rw [byteAt_inside (by omega), ok_bind, byteAt_inside (by omega), ok_bind,
    byteAt_inside (by omega), ok_bind, byteAt_inside (by omega), ok_bind,
    byteAt_inside (by omega), ok_bind]
  trivial

theorem markedTimestamp_inside {present : Bool} (mark : UInt8) (before : Int)
    (inside : i + widthOf present 5 ≤ data.length) :
    Settles (markedTimestamp data present i mark before) Contained fun _ => True := by
  unfold markedTimestamp
  apply Settles.ite
  · intro there
    subst there
    change i + 5 ≤ data.length at inside
    rw [byteAt_inside (by omega), ok_bind]
    apply Settles.contained.bind
    intro _ _
    exact timestampAt_inside inside
  · exact fun _ => trivial

theorem touchIf_width {width : Nat} (present : Bool)
    (inside : i + widthOf present width ≤ data.length) :
    touchIf present data i width = .ok () := by
  apply touchIf_inside
  intro there
  rwa [there] at inside

theorem pesReadOptions_inside {flags : UInt8} (pes : Pes Cell)
    (inside : 9 + optionsWidth flags ≤ data.length) :
    Settles (pesReadOptions pes data flags) Contained fun _ => True := by
  unfold optionsWidth at inside
  unfold pesReadOptions
  dsimp only
  apply (markedTimestamp_inside _ _ (by omega)).bind
  intro pts _
  apply (markedTimestamp_inside _ _ (by omega)).bind
  intro dts _
  rw [touchIf_width _ (by omega), ok_bind, touchIf_width _ (by omega), ok_bind]
  trivial

/-- What `pes_read_header` leaves alone, and where it ends. -/
structure HeaderOf (pes : Pes Cell) (data : List UInt8) (header : Pes Cell × Nat) : Prop where
  pid : header.1.pid = pes.pid
  pkt : header.1.pkt = pes.pkt
  size : header.2 = 0 ∨ header.2 = headerSize data ∧ headerSize data ≤ data.length

theorem pesReadHeader_settles (pes : Pes Cell) (inside : HeaderInside data) :
    Settles (pesReadHeader pes data) Contained (HeaderOf pes data) := by
  have fixed := inside.fixed
  unfold pesReadHeader
  rw [spells_inside (by simpa using (by omega : 3 ≤ data.length)), ok_bind]
  apply Settles.contained.bind
  intro _ _
  rw [byteAt_inside (by omega), ok_bind, fieldAt_inside _ (by omega), ok_bind,
    byteAt_inside (by omega), ok_bind]
  apply Settles.contained.bind
  intro _ _
  rw [byteAt_inside (by omega), ok_bind, byteAt_inside (by omega), ok_bind]
  apply Settles.ite
  · exact fun _ => ⟨rfl, rfl, .inl rfl⟩
  · intro complete
    have whole : headerSize data ≤ data.length := Nat.not_lt.mp complete
    apply (pesReadOptions_inside pes (inside.options whole)).bind
    intro times _
    exact ⟨rfl, rfl, .inr ⟨rfl, whole⟩⟩

/-! ## The service description -/

/-- Only the names of services differ. -/
structure SameStreams (pat next : Pat Cell) : Prop where
  count : next.pmts.count = pat.pmts.count
  capacity : next.pmtCapacity = pat.pmtCapacity
  streams : ∀ k, (next.pmts.slots k).streams = (pat.pmts.slots k).streams

theorem bytesAt_inside {count : Nat} (inside : i + count ≤ data.length) :
    bytesAt data i count = .ok ((data.drop i).take count) := if_pos inside

theorem readService_settles {k last : Nat} (pmt : Pmt Cell) (inside : last + 3 ≤ data.length)
    (here : k + 2 ≤ last) :
    Settles (readService data k last pmt) Contained fun read => read.streams = pmt.streams := by
  unfold readService
  rw [byteAt_inside (by omega), ok_bind]
  apply Settles.ite
  · exact fun _ => rfl
  · intro provider
    rw [bytesAt_inside (by omega), ok_bind, byteAt_inside (by omega), ok_bind]
    apply Settles.ite
    · exact fun _ => rfl
    · intro name
      rw [bytesAt_inside (by omega), ok_bind]
      rfl

theorem sdtReadDescriptors_settles {last : Nat} (inside : last + 3 ≤ data.length) (fuel : Nat) :
    ∀ {k : Nat} {pmt : Pmt Cell}, fuel ≠ 0 → last < k + 2 * fuel →
      Settles (sdtReadDescriptors data last fuel k pmt) Contained fun read =>
        read.streams = pmt.streams := by
  induction fuel with
  | zero => exact fun enough => absurd rfl enough
  | succ fuel ih =>
    intro k pmt _ enough
    rw [sdtReadDescriptors]
    apply Settles.ite
    · intro further
      rw [byteAt_inside (by omega), ok_bind, byteAt_inside (by omega), ok_bind]
      apply Settles.ite
      · exact fun _ => ih (by omega) (by omega)
      · intro _
        apply (readService_settles pmt inside further).bind
        intro read same
        rw [← same]
        exact ih (by omega) (by omega)
    · exact fun _ => rfl

theorem SameStreams.refl (pat : Pat Cell) : SameStreams pat pat := ⟨rfl, rfl, fun _ => rfl⟩

theorem SameStreams.trans {first second third : Pat Cell} (same : SameStreams first second)
    (then_ : SameStreams second third) : SameStreams first third :=
  ⟨then_.count.trans same.count, then_.capacity.trans same.capacity,
    fun k => (then_.streams k).trans (same.streams k)⟩

theorem sameStreams_set (pat : Pat Cell) (k : Nat) {pmt : Pmt Cell}
    (same : pmt.streams = (pat.pmts.slots k).streams) :
    SameStreams pat { pat with pmts := pat.pmts.set k pmt } := by
  refine ⟨rfl, rfl, ?_⟩
  intro other
  by_cases here : other = k
  · subst here
    exact (congrArg Pmt.streams (SlotArray.set_same _ _ _)).trans same
  · exact congrArg Pmt.streams (SlotArray.set_other _ _ here)

theorem sdtReadServices_settles {bound : Nat} (inside : bound + 3 ≤ data.length) (fuel : Nat) :
    ∀ {i : Nat} {pat : Pat Cell}, fuel ≠ 0 → bound < i + 5 * fuel →
      Settles (sdtReadServices data bound fuel i pat) Contained (SameStreams pat) := by
  induction fuel with
  | zero => exact fun enough => absurd rfl enough
  | succ fuel ih =>
    intro i pat _ enough
    rw [sdtReadServices]
    apply Settles.ite
    · intro further
      rw [fieldAt_inside _ (by omega), ok_bind, fieldAt_inside _ (by omega), ok_bind]
      apply Settles.ite
      · exact fun _ => ih (by omega) (by omega)
      · intro fits
        split
        · exact ih (by omega) (by omega)
        · rename_i k found
          apply (sdtReadDescriptors_settles (by omega) _ (by omega) (by omega)).bind
          intro pmt same
          apply (ih (by omega) (by omega)).mono
          intro next further
          apply SameStreams.trans _ further
          exact sameStreams_set pat k same
    · exact fun _ => .refl pat

theorem sdtRead_settles (pat : Pat Cell) (inside : SectionInside data 3 patTidSdt) :
    Settles (sdtRead pat data) Contained (SameStreams pat) := by
  have room := inside.head
  have small := fieldOf_nibble data 1
  unfold sdtRead
  rw [byteAt_inside (by omega), ok_bind, fieldAt_inside _ (by omega), ok_bind]
  apply Settles.ite
  · exact fun _ => .refl pat
  · intro table
    apply Settles.contained.bind
    intro _ complete
    have some := inside.length (not_not.mp table)
    rw [sectionEnd_eq some small]
    exact sdtReadServices_settles (by omega) _ (by omega) (by omega)

end CLibs.MpegTs

/-!
## The demuxer inside the packet

The condition follows the packet: the adaptation field, the payload behind it, and for the payload
the reader that the tables of the demuxer pick.  In every run over such packets no byte behind a
packet is read, no offset lies behind the packet and no table is read outside.
-/

namespace CLibs.MpegTs

open List

variable {Cell : Type}

/-! ## The condition -/

/-- The programs, asked one after another for the payload at `i`: the map of a
program, or the header of a stream and then the programs behind it. -/
def ProgramsInside (calloc : Bool) (packet : List UInt8) (pid : Nat) (start : Bool) :
    List (Pmt Cell) → Nat → Prop
  | [], _ => True
  | pmt :: rest, i =>
    if pmt.pid = pid then MapInside calloc (packet.drop (i + widthOf start 1))
    else
      match takingStream pmt pid start with
      | none => ProgramsInside calloc packet pid start rest i
      | some _ => i ≤ packet.length ∧ (start = true → HeaderInside (packet.drop i)) ∧
          ProgramsInside calloc packet pid start rest
            (i + widthOf start (headerSize (packet.drop i)))

/-- The payload at `i`, by its pid. -/
structure PayloadInside (calloc : Bool) (packet : List UInt8) (i : Nat) (pat : Pat Cell) : Prop where
  association : fieldOf packet 1 0x1F = tsPidPat →
    SectionInside (packet.drop (i + widthOf (flagOf (packet.getD 1 0) 0x40) 1)) 6 patTidPas
  services : fieldOf packet 1 0x1F = tsPidSdt →
    SectionInside (packet.drop (i + widthOf (flagOf (packet.getD 1 0) 0x40) 1)) 3 patTidSdt
  programs : fieldOf packet 1 0x1F ≠ tsPidPat → fieldOf packet 1 0x1F ≠ tsPidSdt →
    ProgramsInside calloc packet (fieldOf packet 1 0x1F) (flagOf (packet.getD 1 0) 0x40)
      pat.pmts.live i

/-- Where the payload of a packet starts. -/
def placeOf (packet : List UInt8) : Nat :=
  if flagOf (packet.getD 3 0) 0x20 then 4 + ((packet.getD 4 0).toNat + 1) else 4

/-- No length field of the packet leads out of it. -/
structure PacketInside (calloc : Bool) (packet : List UInt8) (pat : Pat Cell) : Prop where
  field : flagOf (packet.getD 3 0) 0x20 = true → FieldInside (packet.drop 4)
  payload : flagOf (packet.getD 3 0) 0x10 = true →
    PayloadInside calloc packet (placeOf packet) pat

/-! ## One packet -/

variable {packet : List Cell}

theorem payloadFrom_inside {i : Nat} (inside : i ≤ packet.length) :
    payloadFrom packet i = .ok (packet.drop i) := if_pos inside

theorem getD_drop (packet : List UInt8) (i : Nat) :
    (packet.drop i).getD 0 0 = packet.getD i 0 := by
  rw [getD_eq_getElem?_getD, List.getElem?_drop, getD_eq_getElem?_getD, Nat.add_zero]

theorem payloadPlace_inside {packet : List UInt8} (size : packet.length = tsPacketSize)
    (field : flagOf (packet.getD 3 0) 0x20 = true → FieldInside (packet.drop 4)) :
    payloadPlace packet = .ok (placeOf packet) := by
  have bytes : packet.length = 188 := size
  unfold payloadPlace placeOf
  rw [byteAt_inside (by omega), ok_bind]
  split
  · rename_i present
    rw [adaptationFiledRead_inside (by rw [length_drop]; omega) (field present), ok_bind,
      getD_drop]
    rfl
  · rfl

section Streams

variable (byte : Cell → UInt8) (env : DecEnv) {may : Fault → Prop} {held : Cell → Prop}

theorem streamInput_ends (j : Nat) {pes : Pes Cell} {start : Bool} {i : Nat}
    (allowed : ∀ fault, Contained fault → may fault)
    (place : Settles (payloadFrom packet i) may fun payload => payload = packet.drop i)
    (header : start = true → Settles (pesReadHeader pes ((packet.drop i).map byte)) may
      (HeaderOf pes ((packet.drop i).map byte)))
    (pending : ∀ cell ∈ pes.pkt.data, held cell)
    (more : ∀ cell ∈ packet.drop (i + widthOf start (headerSize ((packet.drop i).map byte))),
      held cell) :
    Traced.Ends (streamInput byte env j pes packet start i) (DeliveryFrom pes held) may
      fun taken => taken.1.pid = pes.pid ∧ (∀ cell ∈ taken.1.pkt.data, held cell) ∧
        taken.2.1 = i + widthOf start (headerSize ((packet.drop i).map byte)) := by
  unfold streamInput
  apply (Traced.Ends.lift place).bind
  rintro payload rfl
  cases start with
  | true =>
    rw [if_pos rfl]
    apply (Traced.Ends.lift (header rfl)).bind
    rintro ⟨heading, size⟩ ⟨pid, pkt, sized⟩
    dsimp only at pid pkt sized
    apply (Traced.Ends.lift (Settles.contained.allow allowed)).bind
    intro _ positive
    have whole : size = headerSize ((packet.drop i).map byte) ∧
        headerSize ((packet.drop i).map byte) ≤ ((packet.drop i).map byte).length := by
      rcases sized with none | whole
      · exact absurd none (Nat.ne_of_gt positive)
      · exact whole
    obtain ⟨rfl, inside⟩ := whole
    rw [length_map, length_drop] at inside
    dsimp only
    have place : Settles (payloadFrom packet (i + headerSize ((packet.drop i).map byte))) may
        fun payload => payload = packet.drop (i + headerSize ((packet.drop i).map byte)) := by
      rw [payloadFrom_inside (by unfold headerSize at *; omega)]
      rfl
    apply (Traced.Ends.lift place).bind
    rintro payload rfl
    have left : ∀ cell ∈ heading.pkt.data, held cell := by rwa [pkt]
    have taken := pesPacket_ends byte env.realloc (env.handler j) true left more
    have same : DeliveryFrom heading held = DeliveryFrom pes held := by
      unfold DeliveryFrom
      rw [pid]
    rw [same] at taken
    apply (taken.allow allowed).bind
    intro result cells
    exact .pure ⟨pid, cells, rfl⟩
  | false =>
    rw [if_neg (by decide)]
    apply ((pesPacket_ends byte env.realloc (env.handler j) false pending more).allow allowed).bind
    intro result cells
    exact .pure ⟨rfl, cells, rfl⟩

end Streams

/-- The programs that are still to be asked. -/
def remaining (pat : Pat Cell) (j left : Nat) : List (Pmt Cell) :=
  (List.range' j left).map pat.pmts.slots

theorem remaining_succ (pat : Pat Cell) (j left : Nat) :
    remaining pat j (left + 1) = pat.pmts.slots j :: remaining pat (j + 1) left := rfl

theorem remaining_setPmt (pat : Pat Cell) (j left : Nat) (pmt : Pmt Cell) :
    remaining (pat.setPmt j pmt) (j + 1) left = remaining pat (j + 1) left := by
  apply map_congr_left
  intro k member
  have behind := (List.mem_range'_1.mp member).1
  exact SlotArray.set_other _ _ (by omega)

theorem remaining_all (pat : Pat Cell) : remaining pat 0 pat.pmts.count = pat.pmts.live := by
  unfold remaining SlotArray.live
  rw [range_eq_range']

variable (byte : Cell → UInt8) (env : DecEnv)

theorem programsInput_contained {pid : Nat} {start : Bool} (left : Nat) :
    ∀ {j i : Nat} {r : Int} {pat : Pat Cell}, j + left ≤ pat.pmtCapacity → Housed pat →
      ProgramsInside env.calloc (packet.map byte) pid start (remaining pat j left) i →
      Traced.Ends (programsInput byte env packet pid start left j i r pat) (fun _ => True)
        Contained fun next => Housed next.1 := by
  induction left with
  | zero => exact fun _ housed _ => .pure housed
  | succ left ih =>
    intro j i r pat room housed inside
    rw [remaining_succ, ProgramsInside] at inside
    rw [programsInput, if_pos (by omega)]
    apply Traced.Ends.ite
    · intro here
      rw [if_pos here, ← map_drop] at inside
      have fixed := inside.fixed.head
      rw [length_map, length_drop] at fixed
      apply Traced.Ends.step (payloadFrom_inside (by omega))
      apply (Traced.Ends.lift (pmtRead_settles inside)).bind
      intro pmt _
      exact .pure housed
    · intro elsewhere
      rw [if_neg elsewhere] at inside
      cases taking : takingStream (pat.pmts.slots j) pid start with
      | none =>
        rw [taking] at inside
        exact ih (by omega) housed inside
      | some k =>
        rw [taking] at inside
        dsimp only at inside
        obtain ⟨place, header, further⟩ := inside
        rw [length_map] at place
        rw [← map_drop] at header further
        have every (cells : List Cell) : ∀ cell ∈ cells, (fun _ : Cell => True) cell :=
          fun _ _ => trivial
        have found : Settles (payloadFrom packet i) Contained (· = packet.drop i) := by
          rw [payloadFrom_inside place]
          rfl
        have first := streamInput_ends byte env j (fun _ contained => contained) found
          (fun started => pesReadHeader_settles ((pat.pmts.slots j).streams.slots k)
            (header started)) (every _) (every _)
        dsimp only
        apply Traced.Ends.bind ⟨fun _ _ => trivial, first.result⟩
        rintro taken ⟨-, -, offset⟩
        apply ih
        · change j + 1 + left ≤ pat.pmtCapacity
          omega
        · exact housed
        · rw [remaining_setPmt, offset]
          exact further

theorem tsDemuxerInput_contained {pat : Pat Cell} (memory : env.realloc = true)
    (housed : Housed pat) (inside : PacketInside env.calloc (packet.map byte) pat) :
    Traced.Ends (tsDemuxerInput byte env packet pat) (fun _ => True) Contained fun next =>
      Housed next.1 := by
  unfold tsDemuxerInput
  apply (Traced.Ends.lift Settles.contained).bind
  intro _ size
  have bytes : (packet.map byte).length = 188 := size
  have length : packet.length = 188 := by rwa [length_map] at bytes
  apply Traced.Ends.step (byteAt_inside (by omega))
  apply (Traced.Ends.lift Settles.contained).bind
  intro _ _
  apply Traced.Ends.step (fieldAt_inside _ (by omega))
  apply Traced.Ends.step (byteAt_inside (by omega))
  apply Traced.Ends.step (byteAt_inside (by omega))
  apply Traced.Ends.step (payloadPlace_inside size inside.field)
  apply Traced.Ends.ite
  · intro carries
    have payload := inside.payload carries
    unfold payloadInput
    apply Traced.Ends.ite
    · intro table
      have section_ := payload.association table
      have fixed := section_.head
      rw [← map_drop] at section_
      rw [length_drop] at fixed
      apply Traced.Ends.step (payloadFrom_inside (by omega))
      rw [memory]
      apply (Traced.Ends.lift (patRead_settles housed section_)).bind
      intro next kept
      exact .pure kept
    · intro other
      apply Traced.Ends.ite
      · intro table
        have section_ := payload.services table
        have fixed := section_.head
        rw [← map_drop] at section_
        rw [length_drop] at fixed
        apply Traced.Ends.step (payloadFrom_inside (by omega))
        apply (Traced.Ends.lift (sdtRead_settles pat section_)).bind
        intro next same
        apply Traced.Ends.pure
        unfold Housed
        rw [same.count, same.capacity]
        exact housed
      · intro another
        have programs := payload.programs other another
        rw [← remaining_all] at programs
        exact programsInput_contained byte env _ (by unfold Housed at housed; omega) housed programs
  · exact fun _ => .pure housed

/-! ## Runs -/

/-- A call of `ts_demuxer_input`, with what the environment answers. -/
structure DecCall (Cell : Type) where
  env : DecEnv
  packet : List Cell

def DecReturns (pat : Pat Cell) (call : DecCall Cell) (next : Pat Cell) : Prop :=
  ∃ r, (tsDemuxerInput byte call.env call.packet pat).result = .ok (next, r)

/-- The memory is granted, and every length of the packet stays inside it. -/
def CallInside (pat : Pat Cell) (call : DecCall Cell) : Prop :=
  call.env.realloc = true ∧ PacketInside call.env.calloc (call.packet.map byte) pat

theorem run_housed {calls : List (DecCall Cell)} {pat : Pat Cell}
    (run : Runs (CallInside byte) (DecReturns byte) (Pat.zero Cell) calls pat) : Housed pat := by
  apply run.invariant
  · rintro state call next housed ⟨memory, inside⟩ ⟨r, returned⟩
    exact (tsDemuxerInput_contained byte call.env memory housed inside).result.ok returned
  · exact Nat.le_refl 0

/-- After every run over packets that meet the condition, the next such packet
is read without an access behind it or outside a table: the call returns, or an
assertion of the source ends it. -/
theorem ts_demuxer_reads_inside {calls : List (DecCall Cell)} {pat : Pat Cell}
    (run : Runs (CallInside byte) (DecReturns byte) (Pat.zero Cell) calls pat)
    {call : DecCall Cell} (inside : CallInside byte pat call) :
    ∀ fault, (tsDemuxerInput byte call.env call.packet pat).result = .error fault →
      fault ≠ .outside ∧ fault ≠ .fuel := by
  intro fault failed
  have ends := (tsDemuxerInput_contained byte call.env inside.1 (run_housed byte run) inside.2).result
  rw [failed] at ends
  exact ends

def tablePacket : List UInt8 :=
  [0x47, 0x40, 0x00, 0x10, 0x00, 0x00, 0xb0, 13, 0, 1, 0xC1, 0, 0, 0, 1, 0xE1, 0x00,
    0x2a, 0xb1, 0x04, 0xb2] ++ List.replicate 167 0xff

/-- A packet whose adaptation field claims to be 255 bytes long. -/
def overlongPacket : List UInt8 := [0x47, 0x40, 0x00, 0x30, 0xff] ++ List.replicate 183 0x00

def quietEnv : DecEnv := ⟨true, true, fun _ _ => 0⟩

theorem tablePacket_inside (pat : Pat UInt8) : CallInside id pat ⟨quietEnv, tablePacket⟩ := by
  refine ⟨rfl, ?_, ?_⟩
  · exact fun present => absurd present (by decide +kernel)
  · intro _
    refine ⟨fun _ => ⟨by decide +kernel, fun _ => by decide +kernel⟩, ?_, ?_⟩
    · exact fun services => absurd services (by decide +kernel)
    · exact fun other => absurd (by decide +kernel) other

/-- The table of a program, twice. -/
theorem ts_demuxer_reads_inside_table :
    let call : DecCall UInt8 := ⟨quietEnv, tablePacket⟩
    ∃ pat, Runs (CallInside id) (DecReturns id) (Pat.zero UInt8) [call] pat ∧
      CallInside id pat call ∧ ∀ fault,
        (tsDemuxerInput id call.env call.packet pat).result = .error fault →
          fault ≠ .outside ∧ fault ≠ .fuel := by
  intro call
  have returns : (tsDemuxerInput id call.env call.packet (Pat.zero UInt8)).result.toOption.isSome :=
    by decide +kernel
  obtain ⟨⟨pat, r⟩, returned⟩ := Option.isSome_iff_exists.mp returns
  have run : Runs (CallInside id) (DecReturns id) (Pat.zero UInt8) [call] pat :=
    .cons (tablePacket_inside _) ⟨r, ok_of_toOption returned⟩ (.nil _)
  exact ⟨pat, run, tablePacket_inside pat, ts_demuxer_reads_inside id run (tablePacket_inside pat)⟩

/-- Behind the adaptation field the reader of the table starts at byte 261. -/
theorem ts_demuxer_reads_outside :
    overlongPacket.length = tsPacketSize ∧ overlongPacket.head? = some 0x47 ∧
      faultOf (tsDemuxerInput id quietEnv overlongPacket (Pat.zero UInt8)).result =
        some .outside := by
  decide +kernel

end CLibs.MpegTs
