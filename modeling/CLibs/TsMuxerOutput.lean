import CLibs.TsMuxer

/-!
# Reading the fields of a packet

The fields of a transport packet, read off its bytes at their fixed places, and
what they are for a packet with a given layout.
-/

namespace CLibs.MpegTs

open List

def packetPid (packet : List UInt8) : Nat :=
  ((packet.getD 1 0).toNat &&& 0x1F) <<< 8 ||| (packet.getD 2 0).toNat

def packetCc (packet : List UInt8) : Nat := (packet.getD 3 0).toNat &&& 0x0F

def startFlag (packet : List UInt8) : Bool := decide (packet.getD 1 0 &&& 0x40 ≠ 0)

def hasField (packet : List UInt8) : Bool := decide (packet.getD 3 0 &&& 0x20 ≠ 0)

def fieldLength (packet : List UInt8) : Nat := (packet.getD 4 0).toNat

/-- The bytes behind the header and the adaptation field. -/
def packetBody (packet : List UInt8) : List UInt8 :=
  if hasField packet then packet.drop (4 + (fieldLength packet + 1)) else packet.drop 4

/-- The size, the sync byte and the adaptation field are right. -/
structure WellFormedPacket (packet : List UInt8) : Prop where
  size : packet.length = tsPacketSize
  sync : packet[0]? = some 0x47
  field : hasField packet = true → 4 + (fieldLength packet + 1) ≤ tsPacketSize

section Layout

variable (pid cc : Nat) (start : Bool) (field : Option (List UInt8)) (body : List UInt8)

theorem startFlag_tsPacket : startFlag (tsPacket pid cc start field body) = start := by
  have low : (pid >>> 8) &&& 0x1F < 32 := Nat.and_lt_two_pow _ (by decide : 0x1F < 2 ^ 5)
  have checked : ∀ high < 32, ∀ start : Bool,
      decide ((UInt8.ofNat high ||| if start = true then 0x40 else 0x00) &&& 0x40 ≠ 0) = start := by
    decide
  exact checked _ low start

theorem hasField_tsPacket : hasField (tsPacket pid cc start field body) = field.isSome := by
  obtain ⟨clear, marked, -, -⟩ := controlByte_flag cc
  change decide (controlByte cc field.isSome &&& 0x20 ≠ 0) = field.isSome
  cases field with
  | none => exact decide_eq_false (not_not_intro clear)
  | some held => exact decide_eq_true marked

theorem packetCc_tsPacket : packetCc (tsPacket pid cc start field body) = cc % 16 := by
  have low : cc % 16 < 16 := Nat.mod_lt _ (by decide)
  have checked : ∀ nibble < 16, ∀ adapted : Bool,
      (UInt8.ofNat (0x10 ||| nibble) ||| if adapted = true then 0x20 else 0x00).toNat &&& 0x0F =
        nibble := by
    decide
  have nibble : cc &&& 0x0F = cc % 16 := Nat.and_two_pow_sub_one_eq_mod cc 4
  change (controlByte cc field.isSome).toNat &&& 0x0F = cc % 16
  rw [controlByte, nibble]
  exact checked _ low field.isSome

theorem packetPid_tsPacket : packetPid (tsPacket pid cc start field body) = pid % 2 ^ 13 := by
  have high : (pid >>> 8) &&& 0x1F = pid / 256 % 32 := by
    rw [Nat.and_two_pow_sub_one_eq_mod _ 5, Nat.shiftRight_eq_div_pow]
  have low : pid &&& 0xFF = pid % 256 := Nat.and_two_pow_sub_one_eq_mod pid 8
  have checked : ∀ high < 32, ∀ start : Bool,
      (UInt8.ofNat high ||| if start = true then 0x40 else 0x00).toNat &&& 0x1F = high := by
    decide
  have byte : (UInt8.ofNat (pid &&& 0xFF)).toNat = pid % 256 := by
    rw [low]
    exact toNat_ofNat (Nat.mod_lt _ (by decide))
  change ((startByte pid start).toNat &&& 0x1F) <<< 8 ||| (UInt8.ofNat (pid &&& 0xFF)).toNat =
    pid % 2 ^ 13
  rw [startByte, high, checked _ (Nat.mod_lt _ (by decide)) start, byte,
    ← Nat.shiftLeft_add_eq_or_of_lt (Nat.mod_lt _ (by decide)), Nat.shiftLeft_eq]
  omega

variable {field}

theorem fieldLength_tsPacket {held : List UInt8} (present : field = some held)
    (short : held.length < 256) :
    fieldLength (tsPacket pid cc start field body) = held.length := by
  subst present
  exact toNat_ofNat short

theorem packetBody_tsPacket (short : ∀ held, field = some held → held.length < 256) :
    packetBody (tsPacket pid cc start field body) = body := by
  unfold packetBody
  rw [hasField_tsPacket]
  cases field with
  | none => rfl
  | some held =>
    rw [Option.isSome_some, if_pos rfl,
      fieldLength_tsPacket pid cc start body rfl (short held rfl)]
    exact drop_left' (by simp [tsHeaderBytes]; omega)

theorem wellFormed_tsPacket
    (size : (tsPacket pid cc start field body).length = tsPacketSize) :
    WellFormedPacket (tsPacket pid cc start field body) := by
  refine ⟨size, rfl, fun present => ?_⟩
  rw [hasField_tsPacket] at present
  obtain ⟨held, rfl⟩ := Option.isSome_iff_exists.mp present
  have packet : tsPacketSize = 188 := rfl
  simp only [tsPacket, tsHeaderBytes, fieldBytes_some_length, length_append,
    length_cons, length_nil] at size
  rw [fieldLength_tsPacket pid cc start body rfl (by omega)]
  omega

end Layout

end CLibs.MpegTs

/-!
## What the muxer hands over

Every packet is sent under the counter of one record of the context, with the
record's pid and the counter's value in its header.  `Sent` is a sequence of
such packets; `UnitPackets` are the packets of one access unit.
-/

namespace CLibs.MpegTs

open List

/-! ## Counters -/

/-- The record of the counter is in use. -/
def Counter.Live (ts : EncContext) : Counter → Prop
  | .pat => True
  | .pmt i => i < ts.pat.pmts.count
  | .stream i j => i < ts.pat.pmts.count ∧ j < (ts.pat.pmts.slots i).streams.count

theorem modifyPmt_slots (ts : EncContext) (i : Nat) (change : Pmt UInt8 → Pmt UInt8) (k : Nat) :
    (ts.modifyPmt i change).pat.pmts.slots k =
      if k = i then change (ts.pat.pmts.slots k) else ts.pat.pmts.slots k :=
  SlotArray.modify_slots _ _ _ _

theorem modifyStream_slots (ts : EncContext) (i j : Nat) (change : Pes UInt8 → Pes UInt8)
    (k : Nat) :
    (ts.modifyStream i j change).pat.pmts.slots k =
      if k = i then
        { ts.pat.pmts.slots k with streams := (ts.pat.pmts.slots k).streams.modify j change }
      else ts.pat.pmts.slots k :=
  modifyPmt_slots _ _ _ _

theorem modifyStream_stream (ts : EncContext) (i j : Nat) (change : Pes UInt8 → Pes UInt8)
    (k l : Nat) :
    (ts.modifyStream i j change).stream k l =
      if k = i ∧ l = j then change (ts.stream k l) else ts.stream k l := by
  unfold EncContext.stream
  rw [modifyStream_slots]
  by_cases here : k = i
  · simp only [here, if_true, true_and, SlotArray.modify_slots]
  · simp only [here, if_false, false_and]

@[simp] theorem modifyStream_same (ts : EncContext) (i j : Nat)
    (change : Pes UInt8 → Pes UInt8) :
    (ts.modifyStream i j change).stream i j = change (ts.stream i j) := by
  simp only [modifyStream_stream, and_self, if_true]

@[simp] theorem advance_output (ts : EncContext) (counter : Counter) :
    (counter.advance ts).output = ts.output := by
  cases counter <;> rfl

@[simp] theorem advance_nextPid (ts : EncContext) (counter : Counter) :
    (counter.advance ts).pid = ts.pid := by
  cases counter <;> rfl

@[simp] theorem advance_count (ts : EncContext) (counter : Counter) :
    (counter.advance ts).pat.pmts.count = ts.pat.pmts.count := by
  cases counter <;> rfl

theorem advance_slots (ts : EncContext) (counter : Counter) (k : Nat) :
    ∃ cc streams, (counter.advance ts).pat.pmts.slots k =
        { ts.pat.pmts.slots k with cc := cc, streams := streams } ∧
      streams.count = (ts.pat.pmts.slots k).streams.count ∧
      ∀ l, ∃ count, streams.slots l =
        { (ts.pat.pmts.slots k).streams.slots l with cc := count } := by
  cases counter with
  | pat => exact ⟨_, _, rfl, rfl, fun l => ⟨_, rfl⟩⟩
  | pmt i =>
    simp only [Counter.advance, modifyPmt_slots]
    split
    · exact ⟨_, _, rfl, rfl, fun l => ⟨_, rfl⟩⟩
    · exact ⟨_, _, rfl, rfl, fun l => ⟨_, rfl⟩⟩
  | stream i j =>
    simp only [Counter.advance, modifyStream_slots]
    split
    · refine ⟨_, _, rfl, rfl, fun l => ?_⟩
      rw [SlotArray.modify_slots]
      split
      · exact ⟨_, rfl⟩
      · exact ⟨_, rfl⟩
    · exact ⟨_, _, rfl, rfl, fun l => ⟨_, rfl⟩⟩

theorem advance_pid (ts : EncContext) (counter other : Counter) :
    other.pid (counter.advance ts) = other.pid ts := by
  cases other with
  | pat => rfl
  | pmt k =>
    obtain ⟨cc, streams, same, -, -⟩ := advance_slots ts counter k
    simp only [Counter.pid, same]
  | stream k l =>
    obtain ⟨cc, streams, same, -, each⟩ := advance_slots ts counter k
    obtain ⟨count, record⟩ := each l
    simp only [Counter.pid, EncContext.stream, same, record]

theorem advance_live (ts : EncContext) (counter other : Counter) :
    other.Live (counter.advance ts) ↔ other.Live ts := by
  cases other with
  | pat => rfl
  | pmt k => simp only [Counter.Live, advance_count]
  | stream k l =>
    obtain ⟨cc, streams, same, count, -⟩ := advance_slots ts counter k
    simp only [Counter.Live, advance_count, same, count]

theorem advance_cc_same (ts : EncContext) (counter : Counter) :
    counter.cc (counter.advance ts) = (counter.cc ts + 1) % 16 := by
  cases counter with
  | pat => rfl
  | pmt i => simp only [Counter.cc, Counter.advance, modifyPmt_slots, if_true]
  | stream i j => simp only [Counter.cc, Counter.advance, modifyStream_same]

theorem advance_cc_other (ts : EncContext) {counter other : Counter} (different : other ≠ counter) :
    other.cc (counter.advance ts) = other.cc ts := by
  cases counter with
  | pat =>
    cases other with
    | pat => exact absurd rfl different
    | pmt k => rfl
    | stream k l => rfl
  | pmt i =>
    cases other with
    | pat => rfl
    | pmt k =>
      have elsewhere : k ≠ i := fun same => different (congrArg _ same)
      simp only [Counter.cc, Counter.advance, modifyPmt_slots, if_neg elsewhere]
    | stream k l =>
      simp only [Counter.cc, Counter.advance, EncContext.stream, modifyPmt_slots]
      split <;> rfl
  | stream i j =>
    cases other with
    | pat => rfl
    | pmt k =>
      simp only [Counter.cc, Counter.advance, modifyStream_slots]
      split <;> rfl
    | stream k l =>
      have elsewhere : ¬(k = i ∧ l = j) := by
        rintro ⟨rfl, rfl⟩
        exact different rfl
      simp only [Counter.cc, Counter.advance, modifyStream_stream, if_neg elsewhere]

/-! ## Sequences of packets -/

inductive Sent : EncContext → List (List UInt8) → EncContext → Prop
  | nil (ts : EncContext) : Sent ts [] ts
  | cons {ts last : EncContext} {counter : Counter} {start : Bool} {field : Option (List UInt8)}
      {body : List UInt8} {packets : List (List UInt8)} (live : counter.Live ts)
      (size : (tsPacket (counter.pid ts) (counter.cc ts) start field body).length = tsPacketSize)
      (rest : Sent
        (ts.send counter (tsPacket (counter.pid ts) (counter.cc ts) start field body))
        packets last) :
      Sent ts (tsPacket (counter.pid ts) (counter.cc ts) start field body :: packets) last

variable {last : EncContext} {packets : List (List UInt8)}

theorem Sent.append {first second : EncContext} {more : List (List UInt8)}
    (sent : Sent first packets second) (then_ : Sent second more last) :
    Sent first (packets ++ more) last := by
  induction sent with
  | nil ts => exact then_
  | cons live size rest ih => exact .cons live size (ih then_)

variable {ts : EncContext}

theorem Sent.output (sent : Sent ts packets last) : last.output = ts.output ++ packets := by
  induction sent with
  | nil ts => exact (append_nil _).symm
  | cons live size rest ih =>
    rw [ih]
    simp only [EncContext.send, EncContext.emit, advance_output, append_assoc,
      singleton_append]

theorem Sent.wellFormed (sent : Sent ts packets last) :
    ∀ packet ∈ packets, WellFormedPacket packet := by
  induction sent with
  | nil ts => intro packet member; cases member
  | cons live size rest ih =>
    exact forall_mem_cons.mpr ⟨wellFormed_tsPacket _ _ _ _ size, ih⟩

theorem Sent.live_iff (sent : Sent ts packets last) (counter : Counter) :
    counter.Live last ↔ counter.Live ts := by
  induction sent with
  | nil ts => rfl
  | cons live size rest ih => exact ih.trans (advance_live _ _ counter)

def Sends (ts last : EncContext) : Prop := ∃ packets, Sent ts packets last

theorem Sends.refl (ts : EncContext) : Sends ts ts := ⟨[], .nil ts⟩

theorem Sends.trans {first second : EncContext} (sends : Sends first second)
    (then_ : Sends second last) : Sends first last := by
  obtain ⟨packets, sent⟩ := sends
  obtain ⟨more, after⟩ := then_
  exact ⟨packets ++ more, sent.append after⟩

theorem Sends.live_iff (sends : Sends ts last) (counter : Counter) :
    counter.Live last ↔ counter.Live ts := by
  obtain ⟨packets, sent⟩ := sends
  exact sent.live_iff counter

theorem andThen_sends {outcome : Outcome} {next : EncContext → Outcome}
    (first : Sends ts outcome.state) (second : Sends outcome.state (next outcome.state).state) :
    Sends ts (outcome.andThen next).state := by
  unfold Outcome.andThen
  split
  · exact first.trans second
  · exact first

theorem mpegTsWriteSection_sends (func : Func) {counter : Counter}
    (payload : Except Fault (List UInt8)) (live : counter.Live ts) :
    Sends ts (mpegTsWriteSection func counter payload ts).state := by
  cases payload with
  | error fault => exact .refl ts
  | ok payload =>
    simp only [mpegTsWriteSection, mpegTsWriteSectionHeader]
    split
    · by_cases fits : payload.length < tsPacketSize - 5
      · rw [tsSectionPacket_eq _ _ fits]
        exact ⟨_, .cons live (sectionPacket_length _ _ fits) (.nil _)⟩
      · rw [tsSectionPacket_error _ _ fits]
        exact .refl ts
    · exact .refl ts

theorem mpegTsWritePmts_sends (func : Func) (indices : List Nat) (ts : EncContext)
    (inside : ∀ i ∈ indices, i < ts.pat.pmts.count) :
    Sends ts (mpegTsWritePmts func indices ts).state := by
  induction indices generalizing ts with
  | nil => exact .refl ts
  | cons i rest ih =>
    have live : (Counter.pmt i).Live ts := inside i mem_cons_self
    have first := mpegTsWriteSection_sends func (pmtWrite (ts.pat.pmts.slots i)) live
    apply andThen_sends first
    apply ih
    intro k member
    exact (first.live_iff (.pmt k)).mpr (inside k (mem_cons_of_mem i member))

theorem mpegTsWriteTables_sends (func : Func) (dts : Int) (ts : EncContext) :
    ∃ patPeriod, Sends { ts with patPeriod := patPeriod } (mpegTsWriteTables func dts ts).state := by
  unfold mpegTsWriteTables
  split
  · refine ⟨dts, ?_⟩
    have first := mpegTsWriteSection_sends func (patWrite ts.pat)
      (show Counter.pat.Live { ts with patPeriod := dts } from trivial)
    apply andThen_sends first
    apply mpegTsWritePmts_sends
    intro i member
    exact (first.live_iff (.pmt i)).mpr (mem_range.mp member)
  · exact ⟨ts.patPeriod, .refl ts⟩

/-! ## The packets of a unit -/

/-- Packets that carry the headers of a unit and its payload up to `rest`. -/
inductive UnitPackets (pid : Nat) :
    (cc : Nat) → (start : Bool) → (front payload : List UInt8) → List (List UInt8) →
      (rest : List UInt8) → Prop
  | nil (cc : Nat) (start : Bool) (front payload : List UInt8) :
      UnitPackets pid cc start front payload [] payload
  | cons {cc len : Nat} {start : Bool} {front payload rest : List UInt8}
      {field : Option (List UInt8)} {packets : List (List UInt8)} (some : 0 < len)
      (fits : len ≤ payload.length)
      (size : (tsPacket pid cc start field (front ++ payload.take len)).length = tsPacketSize)
      (more : UnitPackets pid ((cc + 1) % 16) false [] (payload.drop len) packets rest) :
      UnitPackets pid cc start front payload
        (tsPacket pid cc start field (front ++ payload.take len) :: packets) rest

variable {pid cc : Nat} {start : Bool}

theorem field_short {field : Option (List UInt8)} {body : List UInt8}
    (size : (tsPacket pid cc start field body).length = tsPacketSize) :
    ∀ held, field = some held → held.length < 256 := by
  rintro held rfl
  have packet : tsPacketSize = 188 := rfl
  simp only [tsPacket, fieldBytes_some_length, length_append] at size
  omega

theorem UnitPackets.bodies {front payload rest : List UInt8}
    (unit : UnitPackets pid cc start front payload packets rest)
    (some : packets ≠ [] ∨ front = []) :
    packets.flatMap packetBody ++ rest = front ++ payload := by
  induction unit with
  | nil cc start front payload =>
    rcases some with absent | empty
    · exact absurd rfl absent
    · rw [empty]
      rfl
  | @cons cc len start front payload rest field packets some fits size more ih =>
    rw [flatMap_cons, packetBody_tsPacket _ _ _ _ (field_short size), append_assoc,
      ih (.inr rfl), nil_append, append_assoc, take_append_drop]

theorem UnitPackets.starts {front payload rest : List UInt8}
    (unit : UnitPackets pid cc start front payload packets rest) :
    packets.map startFlag = (start :: List.replicate packets.length false).take packets.length := by
  induction unit with
  | nil cc start front payload => rfl
  | cons some fits size more ih =>
    rw [map_cons, startFlag_tsPacket, ih, length_cons, take_succ_cons,
      replicate_succ]

/-- One access unit is cut into packets that hold all of it. -/
theorem tsWritePes_unit (func : Func) (i j : Nat) (fuel : Nat) (start : Bool)
    (payload : List UInt8) (ts : EncContext) (enough : payload.length ≤ fuel)
    (allowed : start = true → TimestampsAllowed (ts.stream i j))
    (live : (Counter.stream i j).Live ts) :
    ∃ code packets rest,
      (tsWritePes func i j fuel start payload ts).result = .ok code ∧
      Sent ts packets (tsWritePes func i j fuel start payload ts).state ∧
      UnitPackets (ts.stream i j).pid (ts.stream i j).cc start
        (unitFront (ts.stream i j) ts.h264H265WithAud start payload.length) payload packets rest ∧
      (code = 0 → rest = []) ∧
      ((∀ sent, func.alloc sent = true ∧ func.write sent = 0) → code = 0) := by
  induction fuel generalizing start payload ts with
  | zero =>
    have empty : payload = [] := eq_nil_of_length_eq_zero (Nat.le_zero.mp enough)
    subst empty
    exact ⟨0, [], [], rfl, .nil ts, .nil _ _ _ _, fun _ => rfl, fun _ => rfl⟩
  | succ fuel ih =>
    unfold tsWritePes
    split
    · rename_i empty
      subst empty
      exact ⟨0, [], [], rfl, .nil ts, .nil _ _ _ _, fun _ => rfl, fun _ => rfl⟩
    · rename_i nonempty
      split
      · obtain ⟨⟨packet, len⟩, returned, size, some, fits, field, layout⟩ :=
          tsWritePesPacket_yields (ts.pat.pmts.slots i).pcrPid ts.h264H265WithAud start allowed
            nonempty
        dsimp only at size some fits layout
        subst layout
        simp only [returned]
        have alive := (advance_live ts (.stream i j) (.stream i j)).mpr live
        by_cases zero : func.write ts.output.length = 0
        · simp only [Outcome.andThen, zero, Except.toOption, if_true]
          have shorter : (payload.drop len).length ≤ fuel := by
            rw [length_drop]
            omega
          obtain ⟨code, packets, rest, result, sent, unit, ends, works⟩ :=
            ih false (payload.drop len) (ts.send (.stream i j) _) shorter
              (fun absurd => nomatch absurd) alive
          refine ⟨code, _ :: packets, rest, result, .cons live size sent, ?_, ends, works⟩
          refine .cons some fits size ?_
          have samePid := advance_pid ts (.stream i j) (.stream i j)
          have nextCc := advance_cc_same ts (.stream i j)
          simp only [Counter.pid, Counter.cc] at samePid nextCc
          rw [← samePid, ← nextCc]
          exact unit
        · simp only [Outcome.andThen, Except.toOption, Option.some.injEq, zero, if_false]
          refine ⟨_, _, payload.drop len, rfl, .cons live size (.nil _),
            .cons some fits size (.nil _ _ _ _), fun absurd => ?_, fun works => ?_⟩
          · exact (zero absurd).elim
          · exact (works _).2
      · rename_i refused
        refine ⟨enomem, [], payload, rfl, .nil ts, .nil _ _ _ _, fun absurd => ?_, fun works => ?_⟩
        · exact nomatch absurd
        · exact absurd (works _).1 refused

end CLibs.MpegTs
