import CLibs.TsTableSlots

/-!
# Bytes and their pids

Every byte that is pending in a slot was carried in a packet with the pid of the
slot, as long as no new program map gives a slot with pending bytes to another
pid.  Then every byte that is handed over was carried under the pid it is handed
over for.
-/

namespace CLibs.MpegTs

open List

variable {Cell : Type} (byte : Cell → UInt8)

def pidOf (packet : List Cell) : Nat := fieldOf (packet.map byte) 1 0x1F

def startOf (packet : List Cell) : Bool := flagOf ((packet.map byte).getD 1 0) 0x40

def pesPlace (packet : List Cell) : Nat :=
  placeOf (packet.map byte) + widthOf (startOf byte packet)
    (headerSize ((packet.drop (placeOf (packet.map byte))).map byte))

def pesPayload (packet : List Cell) : List Cell := packet.drop (pesPlace byte packet)

/-- A packet with this PID has the cell in its payload. -/
def CarriedBy (packets : List (List Cell)) (pid : Nat) (cell : Cell) : Prop :=
  ∃ packet ∈ packets, pidOf byte packet = pid ∧ cell ∈ pesPayload byte packet

def Isolated (packets : List (List Cell)) (pat : Pat Cell) : Prop :=
  ∀ i < pat.pmts.count, ∀ k, ∀ cell ∈ ((pat.pmts.slots i).streams.slots k).pkt.data,
    CarriedBy byte packets ((pat.pmts.slots i).streams.slots k).pid cell

/-- The programs, asked one after another: a new map keeps pending bytes with
their pids. -/
def MapsKeep (packet : List UInt8) (pid : Nat) (start : Bool) : List (Pmt Cell) → Nat → Prop
  | [], _ => True
  | pmt :: rest, i =>
    if pmt.pid = pid then MapKeeps pmt (packet.drop (i + widthOf start 1))
    else
      match takingStream pmt pid start with
      | none => MapsKeep packet pid start rest i
      | some _ => MapsKeep packet pid start rest
          (i + widthOf start (headerSize (packet.drop i)))

variable {byte}

variable {packets : List (List Cell)}

theorem CarriedBy.mono {more : List (List Cell)} {pid : Nat} {cell : Cell}
    (carried : CarriedBy byte packets pid cell) (sub : packets ⊆ more) :
    CarriedBy byte more pid cell := by
  obtain ⟨packet, member, rest⟩ := carried
  exact ⟨packet, sub member, rest⟩

variable {pat : Pat Cell}

theorem Isolated.mono {more : List (List Cell)} (isolated : Isolated byte packets pat)
    (sub : packets ⊆ more) : Isolated byte more pat :=
  fun i inside k cell member => (isolated i inside k cell member).mono sub

theorem Isolated.kept {next : Pat Cell} (isolated : Isolated byte packets pat)
    (kept : StreamsKept pat next) :
    Isolated byte packets next := by
  intro i inside k cell member
  rcases kept i inside with ⟨before, same⟩ | fresh
  · rw [same] at member ⊢
    exact isolated i before k cell member
  · rw [fresh] at member
    exact absurd member not_mem_nil

theorem SameStreams.kept {next : Pat Cell} (same : SameStreams pat next) :
    StreamsKept pat next := by
  intro k inside
  rw [same.count] at inside
  exact .inl ⟨inside, same.streams k⟩

theorem Isolated.setPmt {j : Nat} {pmt : Pmt Cell} (isolated : Isolated byte packets pat)
    (streams : ∀ k, ∀ cell ∈ (pmt.streams.slots k).pkt.data,
      CarriedBy byte packets (pmt.streams.slots k).pid cell) :
    Isolated byte packets (pat.setPmt j pmt) := by
  intro i inside
  by_cases here : i = j
  · subst here
    have slot : (pat.setPmt i pmt).pmts.slots i = pmt := SlotArray.set_same _ _ _
    rw [slot]
    exact streams
  · have slot : (pat.setPmt j pmt).pmts.slots i = pat.pmts.slots i :=
      SlotArray.set_other _ _ here
    rw [slot]
    exact isolated i inside

/-- Every byte that is delivered was carried by a packet of the `PID`. -/
def DeliveryCarried (byte : Cell → UInt8) (packets : List (List Cell))
    (delivery : Delivery Cell) : Prop :=
  ∀ cell ∈ delivery.data, CarriedBy byte packets delivery.pid cell

theorem payloadFrom_brings (packet : List Cell) (i : Nat) :
    Brings (payloadFrom packet i) fun payload => payload = packet.drop i := by
  unfold payloadFrom
  apply Settles.ite
  · exact fun _ => rfl
  · exact fun _ => trivial

theorem programsInput_isolated (env : DecEnv) {packet : List Cell} (member : packet ∈ packets)
    (left : Nat) :
    ∀ {j i : Nat} {r : Int} {pat : Pat Cell}, j + left ≤ pat.pmts.count →
      Isolated byte packets pat →
      (i = placeOf (packet.map byte) ∨ pesPlace byte packet ≤ i) →
      MapsKeep (packet.map byte) (pidOf byte packet) (startOf byte packet)
        (remaining pat j left) i →
      Traced.Ends (programsInput byte env packet (pidOf byte packet) (startOf byte packet) left j i
        r pat) (DeliveryCarried byte packets) (fun _ => True) fun next =>
          Isolated byte packets next.1 := by
  induction left with
  | zero => exact fun _ isolated _ _ => .pure isolated
  | succ left ih =>
    intro j i r pat live isolated place keeps
    rw [remaining_succ, MapsKeep] at keeps
    rw [programsInput]
    apply Traced.Ends.ite
    · intro _
      apply Traced.Ends.ite
      · intro here
        rw [if_pos here, ← map_drop] at keeps
        apply (Traced.Ends.lift (payloadFrom_brings packet _)).bind
        rintro payload rfl
        apply (Traced.Ends.lift (pmtRead_brings env.calloc keeps)).bind
        intro pmt kept
        apply Traced.Ends.pure
        apply isolated.setPmt
        intro k cell pending
        obtain ⟨pkt, same⟩ := kept k
        rw [pkt] at pending
        rcases same with empty | pid
        · rw [empty] at pending
          exact absurd pending not_mem_nil
        · rw [pid]
          exact isolated j (by omega) k cell pending
      · intro elsewhere
        rw [if_neg elsewhere] at keeps
        cases taking : takingStream (pat.pmts.slots j) (pidOf byte packet)
            (startOf byte packet) with
        | none =>
          rw [taking] at keeps
          exact ih (by omega) isolated place keeps
        | some k =>
          rw [taking] at keeps
          dsimp only at keeps
          rw [← map_drop] at keeps
          have found := of_decide_eq_true (SlotArray.find_some taking).2
          have behind : pesPlace byte packet ≤ i + widthOf (startOf byte packet)
              (headerSize ((packet.drop i).map byte)) := by
            rcases place with rfl | behind
            · exact Nat.le_refl _
            · omega
          have pending : ∀ cell ∈ ((pat.pmts.slots j).streams.slots k).pkt.data,
              CarriedBy byte packets (pidOf byte packet) cell := by
            intro cell there
            rw [← found.1]
            exact isolated j (by omega) k cell there
          have more : ∀ cell ∈ packet.drop (i + widthOf (startOf byte packet)
              (headerSize ((packet.drop i).map byte))),
              CarriedBy byte packets (pidOf byte packet) cell := by
            intro cell there
            refine ⟨packet, member, rfl, ?_⟩
            unfold pesPayload
            exact drop_subset_drop_left packet behind there
          have first := streamInput_ends byte env j (fun _ _ => trivial)
            (payloadFrom_brings packet i)
            (fun _ => pesReadHeader_brings ((pat.pmts.slots j).streams.slots k) _) pending more
          have events : ∀ delivery ∈ (streamInput byte env j
              ((pat.pmts.slots j).streams.slots k) packet (startOf byte packet) i).events,
              DeliveryCarried byte packets delivery := by
            intro delivery made cell there
            obtain ⟨pid, cells⟩ := first.events delivery made
            rw [pid, found.1]
            exact cells cell there
          dsimp only
          apply Traced.Ends.bind ⟨events, first.result⟩
          rintro taken ⟨pid, cells, offset⟩
          apply ih
          · change j + 1 + left ≤ pat.pmts.count
            omega
          · apply isolated.setPmt
            intro other cell there
            change cell ∈ (((pat.pmts.slots j).streams.set k taken.1).slots other).pkt.data at there
            change CarriedBy byte packets
              (((pat.pmts.slots j).streams.set k taken.1).slots other).pid cell
            by_cases here : other = k
            · subst here
              rw [SlotArray.set_same] at there ⊢
              rw [pid, found.1]
              exact cells cell there
            · rw [SlotArray.set_other _ _ here] at there ⊢
              exact isolated j (by omega) other cell there
          · rw [offset]
            exact .inr behind
          · rw [remaining_setPmt, offset]
            exact keeps
    · intro _
      exact .lift trivial

theorem adaptationFiledRead_brings (data : List UInt8) :
    Brings (adaptationFiledRead data) fun length => length = (data.getD 0 0).toNat + 1 := by
  apply (byteAt_brings data 0).bind
  rintro length rfl
  apply Settles.ite
  · intro _
    iterate 6
      apply (Brings.any _).bind
      intro _ _
    rfl
  · intro none
    have zero : (data.getD 0 0).toNat = 0 := by omega
    rw [zero]
    rfl

theorem payloadPlace_brings (data : List UInt8) :
    Brings (payloadPlace data) fun place => place = placeOf data := by
  apply (byteAt_brings data 3).bind
  rintro control rfl
  unfold placeOf
  split
  · apply (adaptationFiledRead_brings (data.drop 4)).bind
    rintro length rfl
    rw [getD_drop]
    rfl
  · rfl

/-! ## Runs -/

/-- What the demuxer has seen and handed over. -/
structure Demuxed (Cell : Type) where
  pat : Pat Cell
  packets : List (List Cell)
  deliveries : List (Delivery Cell)

def Demuxed.fresh (Cell : Type) : Demuxed Cell := ⟨Pat.zero Cell, [], []⟩

def Demuxed.input (byte : Cell → UInt8) (state : Demuxed Cell) (call : DecCall Cell) :
    Option (Demuxed Cell) :=
  let run := tsDemuxerInput byte call.env call.packet state.pat
  run.result.toOption.map fun returned =>
    ⟨returned.1, state.packets ++ [call.packet], state.deliveries ++ run.events⟩

/-- The allocator has memory, and a new program map keeps pending bytes with
their pids. -/
structure CallKeeps (byte : Cell → UInt8) (pat : Pat Cell) (call : DecCall Cell) : Prop where
  memory : call.env.realloc = true
  maps : flagOf ((call.packet.map byte).getD 3 0) 0x10 = true →
    pidOf byte call.packet ≠ tsPidPat → pidOf byte call.packet ≠ tsPidSdt →
      MapsKeep (call.packet.map byte) (pidOf byte call.packet) (startOf byte call.packet)
        pat.pmts.live (placeOf (call.packet.map byte))

theorem tsDemuxerInput_isolated {call : DecCall Cell} (member : call.packet ∈ packets)
    (isolated : Isolated byte packets pat) (keeps : CallKeeps byte pat call) :
    Traced.Ends (tsDemuxerInput byte call.env call.packet pat) (DeliveryCarried byte packets)
      (fun _ => True) fun next => Isolated byte packets next.1 := by
  unfold tsDemuxerInput
  apply (Traced.Ends.lift (Brings.any _)).bind
  intro _ _
  apply (Traced.Ends.lift (Brings.any _)).bind
  intro _ _
  apply (Traced.Ends.lift (Brings.any _)).bind
  intro _ _
  apply (Traced.Ends.lift (fieldAt_brings _ 1 0x1F)).bind
  rintro pid rfl
  apply (Traced.Ends.lift (byteAt_brings _ 1)).bind
  rintro marks rfl
  apply (Traced.Ends.lift (byteAt_brings _ 3)).bind
  rintro control rfl
  apply (Traced.Ends.lift (payloadPlace_brings _)).bind
  rintro place rfl
  apply Traced.Ends.ite
  · intro carries
    unfold payloadInput
    apply Traced.Ends.ite
    · intro _
      apply (Traced.Ends.lift (Brings.any _)).bind
      intro payload _
      rw [keeps.memory]
      apply (Traced.Ends.lift (patRead_brings pat _)).bind
      intro next kept
      exact .pure (isolated.kept kept)
    · intro other
      apply Traced.Ends.ite
      · intro _
        apply (Traced.Ends.lift (Brings.any _)).bind
        intro payload _
        apply (Traced.Ends.lift (sdtRead_brings pat _)).bind
        intro next same
        exact .pure (isolated.kept same.kept)
      · intro another
        have maps := keeps.maps carries other another
        rw [← remaining_all] at maps
        exact programsInput_isolated call.env member _ (Nat.le_of_eq (Nat.zero_add _)) isolated
          (.inl rfl) maps
  · exact fun _ => .pure isolated

theorem next_isolated {state : Demuxed Cell} {call : DecCall Cell}
    (isolated : Isolated byte state.packets state.pat) (keeps : CallKeeps byte state.pat call) :
    Traced.Ends (tsDemuxerInput byte call.env call.packet state.pat)
      (DeliveryCarried byte (state.packets ++ [call.packet])) (fun _ => True) fun next =>
        Isolated byte (state.packets ++ [call.packet]) next.1 :=
  tsDemuxerInput_isolated (mem_append_right _ (mem_singleton.mpr rfl))
    (isolated.mono (subset_append_left _ _)) keeps

instance decidableKeepsSlots (slots : Nat → Pes Cell) :
    (used pids : List Nat) → Decidable (KeepsSlots slots used pids)
  | _, [] => isTrue trivial
  | used, pid :: rest =>
    have := decidableKeepsSlots slots used rest
    have := decidableKeepsSlots slots (used ++ [pid]) rest
    inferInstanceAs (Decidable (if pid ∈ used then KeepsSlots slots used rest
      else ((slots used.length).pkt.data = [] ∨ (slots used.length).pid = pid) ∧
        KeepsSlots slots (used ++ [pid]) rest))

instance decidableMapsKeep (packet : List UInt8) (pid : Nat) (start : Bool) :
    (programs : List (Pmt Cell)) → (i : Nat) → Decidable (MapsKeep packet pid start programs i)
  | [], _ => isTrue trivial
  | pmt :: rest, i =>
    have := decidableMapsKeep packet pid start rest i
    have := decidableMapsKeep packet pid start rest
      (i + widthOf start (headerSize (packet.drop i)))
    have : Decidable (MapKeeps pmt (packet.drop (i + widthOf start 1))) :=
      decidableKeepsSlots _ _ _
    have : Decidable (match takingStream pmt pid start with
        | none => MapsKeep packet pid start rest i
        | some _ => MapsKeep packet pid start rest
            (i + widthOf start (headerSize (packet.drop i)))) := by
      cases takingStream pmt pid start <;> infer_instance
    inferInstanceAs (Decidable (if pmt.pid = pid then
      MapKeeps pmt (packet.drop (i + widthOf start 1)) else _))

instance (pat : Pat Cell) (call : DecCall Cell) : Decidable (CallKeeps byte pat call) :=
  decidable_of_iff (call.env.realloc = true ∧
    (flagOf ((call.packet.map byte).getD 3 0) 0x10 = true →
      pidOf byte call.packet ≠ tsPidPat → pidOf byte call.packet ≠ tsPidSdt →
        MapsKeep (call.packet.map byte) (pidOf byte call.packet) (startOf byte call.packet)
          pat.pmts.live (placeOf (call.packet.map byte))))
    ⟨fun both => ⟨both.1, both.2⟩, fun keeps => ⟨keeps.memory, keeps.maps⟩⟩

def mapPacket (version pid : UInt8) : List UInt8 :=
  [(0x47 : UInt8), 0x41, 0x00, 0x10, 0x00, 0x02, 0xb0, 18, 0, 1, (0xC1 : UInt8) ||| (version <<< 1), 0, 0, 0xE1, 0x01,
    0xF0, 0x00, 0x0f, 0xE1, pid, 0xF0, 0x00, 0, 0, 0, 0] ++ List.replicate 162 0xff

/-- A packet that starts a PES packet of unknown length. -/
def unitPacket (pid fill : UInt8) : List UInt8 :=
  [0x47, 0x41, pid, 0x10, 0, 0, 1, 0xC0, 0, 0, 0x80, 0x80, 5, 0x21, 0x00, 0x01, 0x00, 0x01] ++
    List.replicate 170 fill

def quietCall (packet : List UInt8) : DecCall UInt8 := ⟨quietEnv, packet⟩

def Demuxed.handed (state : Demuxed Cell) : List (Nat × List Cell) :=
  state.deliveries.map fun delivery => (delivery.pid, delivery.data)

end CLibs.MpegTs
