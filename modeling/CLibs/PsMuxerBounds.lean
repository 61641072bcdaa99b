import CLibs.PsMuxer

/-!
# The program stream muxer and the size of its packet

A unit is split into packets of at least 65515 bytes, each behind a header of at most 19 bytes, so
64 bytes for every 65535 are enough for the headers.  Whether the headers in front fit depends on
the streams that were added.
-/

namespace CLibs.MpegTs

open List

theorem mapError_step {Value Result : Type} {program : Except Fault Value} {value : Value}
    {next : Value → Except PsFault Result} (wrap : Fault → PsFault) (known : program = .ok value) :
    (program.mapError wrap >>= next) = next value := by
  subst known
  rfl

/-! ## The packets of a unit -/

section Packets

variable {stream : Pes UInt8} {withAud : Bool} {sz : Nat}

/-- At most so many bytes are written for a unit of this length. -/
def unitCost (first : Bool) (length : Nat) : Nat :=
  if length = 0 then 0
  else length + 19 * ((length - 1) / 65515 + 1) + if first then 7 else 0

theorem psAccessUnitDelimiter_length (codecid : UInt8) (withAud : Bool) :
    (psAccessUnitDelimiter codecid withAud).length ≤ 7 := by
  unfold psAccessUnitDelimiter
  split
  · decide
  · split <;> decide

theorem unitCost_step {first : Bool} {length p n : Nat} (some : length ≠ 0)
    (header : p ≤ 19 + if first then 7 else 0) (inside : n ≤ length)
    (full : n = length ∨ 65515 ≤ n) :
    p + n + unitCost false (length - n) ≤ unitCost first length := by
  unfold unitCost
  rw [if_neg some]
  rcases full with whole | large
  · subst whole
    rw [Nat.sub_self, if_pos rfl]
    omega
  · split
    · omega
    · simp only [Bool.false_eq_true, if_false, Nat.add_zero]
      omega

variable {bytes : Nat}

theorem pesWriteHeader_refuses (refused : ¬TimestampsAllowed stream) {data : Buffer UInt8}
    {header : Nat} (room : header + 19 ≤ data.size) (enough : 19 ≤ bytes) :
    pesWriteHeader stream data header bytes = .error .assertion := by
  unfold pesWriteHeader
  rw [if_neg (by omega)]
  have startRoom : header + 4 ≤ data.size := by omega
  have alignRoom : header + 6 + 1 ≤ data.size := by omega
  apply error_step (Buffer.store_eq startRoom)
  apply error_step (Buffer.store_eq alignRoom)
  exact error_bind (check_error refused) _

theorem pesPacketLength_eq {p : Nat} (header : 6 ≤ p) (small : p + bytes < 2 ^ 64) :
    pesPacketLength p bytes = p + bytes - 6 := by
  unfold pesPacketLength
  omega

theorem psWritePes_bounds {first : Bool} {payload : List UInt8} {i : Nat} {packet : Buffer UInt8}
    (some : payload.length ≠ 0) (object : payload.length < 2 ^ 63) (size : packet.size = sz)
    (room : i + unitCost first payload.length ≤ sz) :
    psWritePes stream withAud sz first payload i packet = .error .timestamps ∨
      ∃ p n data, psWritePes stream withAud sz first payload i packet = .ok (p, n, data) ∧
        (p ≤ 19 + if first then 7 else 0) ∧ n ≤ payload.length ∧ 0 < n ∧
        (n = payload.length ∨ 65515 ≤ n) ∧ data.size = sz := by
  have cost : payload.length + 19 + (if first then 7 else 0) ≤ unitCost first payload.length := by
    unfold unitCost
    rw [if_neg some]
    omega
  unfold psWritePes
  by_cases allowed : TimestampsAllowed stream
  · right
    obtain ⟨⟨written, n⟩, returned, sameSize, length, -⟩ := pesWriteHeader_yields allowed
      (show i + 19 ≤ packet.size by omega) (show 19 ≤ sz - i by omega)
    have short := pesHeaderDataLength_le stream
    have delimiter := psAccessUnitDelimiter_length stream.codecid withAud
    dsimp only at sameSize length
    generalize audEq : (if first then psAccessUnitDelimiter stream.codecid withAud else []) = aud
    have audLength : aud.length ≤ if first then 7 else 0 := by
      rw [← audEq]
      split
      · exact delimiter
      · exact Nat.le_refl 0
    have lengthField : pesPacketLength (n + aud.length) payload.length =
        n + aud.length + payload.length - 6 :=
      pesPacketLength_eq (by omega) (by split at audLength <;> omega)
    generalize countEq : (if n + aud.length + payload.length - 6 > maxPesPacket then
      maxPesPacket + 6 - (n + aud.length) else payload.length) = count
    have counted : count ≤ payload.length ∧ 0 < count ∧
        (count = payload.length ∨ 65515 ≤ count) := by
      rw [← countEq]
      unfold maxPesPacket
      split at audLength <;> split <;> omega
    rw [mapError_step _ returned, mapError_step _ (check_eq (show n < 64 by omega))]
    dsimp only
    rw [lengthField, countEq, mapError_step _ (Buffer.store_eq (by omega)),
      mapError_step _ (Buffer.store_eq (by simp only [Buffer.written_size, nboW16_length]; omega)),
      mapError_step _ (Buffer.store_eq (by
        simp only [Buffer.written_size, length_take]
        omega))]
    exact ⟨_, _, _, rfl, by omega, counted.1, counted.2.1, counted.2.2, sameSize.trans size⟩
  · left
    rw [pesWriteHeader_refuses allowed (by omega) (by omega)]
    rfl

theorem psWritePackets_bounds {fuel : Nat} {first : Bool} {payload : List UInt8} {i : Nat}
    {packet : Buffer UInt8} (fueled : payload.length ≤ fuel) (object : payload.length < 2 ^ 63)
    (size : packet.size = sz) (room : i + unitCost first payload.length ≤ sz) :
    psWritePackets stream withAud sz fuel first payload i packet = .error .timestamps ∨
      ∃ behind data, psWritePackets stream withAud sz fuel first payload i packet =
          .ok (behind, data) ∧ behind ≤ i + unitCost first payload.length := by
  induction fuel generalizing first payload i packet with
  | zero =>
    have none := eq_nil_of_length_eq_zero (Nat.le_zero.mp fueled)
    rw [psWritePackets, if_pos none]
    exact .inr ⟨i, packet, rfl, Nat.le_add_right _ _⟩
  | succ fuel ih =>
    rw [psWritePackets]
    split
    · exact .inr ⟨i, packet, rfl, Nat.le_add_right _ _⟩
    · next some =>
        have long : payload.length ≠ 0 := fun zero => some (eq_nil_of_length_eq_zero zero)
        rcases @psWritePes_bounds stream withAud sz _ _ _ _ long object size room with
          refused | ⟨p, n, data, written, header, inside, progress, full, sameSize⟩
        · left
          rw [refused]
          rfl
        · have spent := unitCost_step long header inside full
          rw [← length_drop] at spent
          have left : (payload.drop n).length = payload.length - n := length_drop
          rcases @ih false (payload.drop n) (i + p + n) _ (by omega)
            (by omega) sameSize (by omega) with
            refused | ⟨behind, last, run, bound⟩
          · left
            rw [written]
            exact refused
          · right
            refine ⟨behind, last, ?_, by omega⟩
            rw [written]
            exact run

end Packets

/-! ## The headers in front -/

/-- The muxer can write its headers: both lists of streams agree, no stream has an extended id, and
each has the bytes of its description. -/
structure PsWellFormed (ps : PsMuxer) : Prop where
  count : ps.system.streams.count = ps.psm.streams.count
  plain : ∀ index < ps.system.streams.count,
    pesSidExtension.toNat ≠ (ps.system.streams.slots index).streamId
  fits : ∀ index < ps.psm.streams.count, PsmEntryFits (ps.psm.streams.slots index)
  unused : ∀ index ≥ ps.psm.streams.count, (ps.psm.streams.slots index).esinfoLen = 0

def psHeaderLength (ps : PsMuxer) : Nat :=
  42 + (ps.psm.streams.live.map fun stream => 7 + stream.esinfoLen).sum

section Headers

variable {ps : PsMuxer}

theorem sum_add_const (streams : List (Pes UInt8)) :
    (streams.map fun stream => 7 + stream.esinfoLen).sum =
      3 * streams.length + (streams.map fun stream => 4 + stream.esinfoLen).sum := by
  induction streams with
  | nil => rfl
  | cons stream streams ih =>
    simp only [map_cons, sum_cons, length_cons, ih]
    omega

theorem streamHeaders_length {headers : List PsStreamHeader}
    (plain : ∀ header ∈ headers, pesSidExtension.toNat ≠ header.streamId) :
    (headers.flatMap streamHeaderWrite).length = 3 * headers.length := by
  induction headers with
  | nil => rfl
  | cons header headers ih =>
    obtain ⟨first, rest⟩ := forall_mem_cons.mp plain
    rw [flatMap_cons, length_append, streamHeaderWrite_length first, ih rest,
      length_cons]
    omega

theorem PsWellFormed.system_length (formed : PsWellFormed ps) :
    (systemHeaderWrite ps.system).length = 12 + 3 * ps.psm.streams.count := by
  rw [systemHeaderWrite_length, streamHeaders_length, SlotArray.live_length, formed.count]
  intro header member
  obtain ⟨index, inside, rfl⟩ := SlotArray.mem_live.mp member
  exact formed.plain index inside

theorem PsWellFormed.psm_written (formed : PsWellFormed ps) :
    ∃ written, psmWrite ps.psm = .ok written ∧
      14 + (systemHeaderWrite ps.system).length + written.length = psHeaderLength ps := by
  obtain ⟨written, returned, length⟩ := @psmWrite_length ps.psm (by
    intro stream member
    obtain ⟨index, inside, rfl⟩ := SlotArray.mem_live.mp member
    exact formed.fits index inside)
  refine ⟨written, returned, ?_⟩
  rw [psHeaderLength, sum_add_const, SlotArray.live_length, formed.system_length, length]
  omega

def psFrontLength (ps : PsMuxer) : Nat := if ps.psmPeriod % 30 = 0 then psHeaderLength ps else 14

theorem store_cases (packet : Buffer UInt8) (position : Nat) (bytes : List UInt8) :
    packet.store position bytes = .ok (packet.written position bytes) ∧
        position + bytes.length ≤ packet.size ∨
      packet.store position bytes = .error .outside ∧ packet.size < position + bytes.length := by
  unfold Buffer.store
  split
  · next fits => exact .inl ⟨rfl, fits⟩
  · next beyond => exact .inr ⟨rfl, Nat.not_le.mp beyond⟩

theorem PsWellFormed.headers (formed : PsWellFormed ps) (packet : Buffer UInt8) :
    (∃ data, psWriteHeaders ps packet = .ok (psFrontLength ps, data) ∧ data.size = packet.size) ∨
      psWriteHeaders ps packet = .error (.other .outside) ∧ packet.size < psFrontLength ps := by
  obtain ⟨psm, written, total⟩ := formed.psm_written
  have front : 14 ≤ psFrontLength ps := by
    unfold psFrontLength
    split <;> omega
  unfold psWriteHeaders
  dsimp only
  rw [packHeaderWrite_length]
  rcases store_cases packet 0 (packHeaderWrite ps.pack) with ⟨stored, -⟩ | ⟨failed, beyond⟩
  · rw [mapError_step _ stored]
    split
    · next due =>
        have frontLength : psFrontLength ps = psHeaderLength ps := if_pos due
        rw [frontLength]
        rcases store_cases (packet.written 0 (packHeaderWrite ps.pack)) 14
          (systemHeaderWrite ps.system) with ⟨storedSystem, -⟩ | ⟨failed, beyond⟩
        · rw [mapError_step _ storedSystem, mapError_step _ written]
          rcases store_cases ((packet.written 0 (packHeaderWrite ps.pack)).written 14
            (systemHeaderWrite ps.system)) (14 + (systemHeaderWrite ps.system).length) psm with
            ⟨storedPsm, -⟩ | ⟨failed, beyond⟩
          · rw [mapError_step _ storedPsm, total]
            exact .inl ⟨_, rfl, rfl⟩
          · rw [failed]
            exact .inr ⟨rfl, by simpa only [total, Buffer.written_size] using beyond⟩
        · rw [failed]
          refine .inr ⟨rfl, ?_⟩
          rw [Buffer.written_size] at beyond
          omega
    · next early =>
        have frontLength : psFrontLength ps = 14 := if_neg early
        rw [frontLength]
        exact .inl ⟨_, rfl, rfl⟩
  · rw [failed]
    refine .inr ⟨rfl, ?_⟩
    rw [packHeaderWrite_length] at beyond
    omega

end Headers

/-! ## A call -/

/-- The call ends inside the packet: at most the assertion about time stamps fails. -/
def StaysInside {Value : Type} (result : Except PsFault Value) : Prop :=
  ∀ fault, result = .error fault → fault = .timestamps

theorem psPacketSize_eq (object : bytes < 2 ^ 63) :
    psPacketSize bytes = bytes + 1024 + (bytes / 65535 + 1) * 64 := by
  unfold psPacketSize maxPesHeader maxPesPacket
  omega

theorem unitCost_lt {front : Nat} (object : bytes < 2 ^ 63) (header : front < 1024) :
    front + unitCost true bytes < psPacketSize bytes := by
  rw [psPacketSize_eq object]
  unfold unitCost
  split
  · omega
  · simp only [if_true]
    omega

section Calls

variable {ps : PsMuxer} {input : PsInput} {index : Nat}

theorem psWritePacket_staysInside_iff (formed : PsWellFormed ps)
    (object : input.payload.length < 2 ^ 63) :
    StaysInside (psWritePacket ps input index) ↔ psFrontLength ps < 1024 := by
  unfold psWritePacket
  dsimp only
  generalize newPack : ({ ps.pack with
      systemClockReferenceBase := int64 (input.dts - 3600)
      systemClockReferenceExtension := 0
      programMuxRate := 6106 } : PsPackHeader) = pack
  have same : psFrontLength { ps with pack := pack } = psFrontLength ps := rfl
  have packed : PsWellFormed { ps with pack := pack } :=
    ⟨formed.count, formed.plain, formed.fits, formed.unused⟩
  have headers := packed.headers (Buffer.alloc (psPacketSize input.payload.length))
  rw [same, Buffer.alloc_size] at headers
  rcases headers with ⟨data, written, size⟩ | ⟨failed, beyond⟩
  · rw [written]
    change StaysInside (if psFrontLength ps ≥ maxPesHeader then .error .size else _) ↔ _
    split
    · next large =>
        constructor
        · intro inside
          exact absurd (inside .size rfl) (by decide)
        · intro small
          exact absurd large (Nat.not_le.mpr small)
    · next small =>
        have header : psFrontLength ps < 1024 := Nat.not_le.mp small
        have bound := unitCost_lt object header
        refine ⟨fun _ => header, fun _ => ?_⟩
        rcases @psWritePackets_bounds (ps.psm.streams.slots index) ps.h264H265WithAud _ _ true _ _ _
          (Nat.le_refl _) object size (Nat.le_of_lt bound) with refused | ⟨behind, last, run, within⟩
        · intro fault ended
          rw [refused] at ended
          exact (Except.error.inj ended).symm
        · intro fault ended
          rw [run] at ended
          change (if behind ≥ psPacketSize input.payload.length then Except.error PsFault.size else _) =
            _ at ended
          rw [if_neg (by omega)] at ended
          cases ended
  · rw [failed]
    constructor
    · intro inside
      exact absurd (inside (.other .outside) rfl) (by decide)
    · intro small
      rw [psPacketSize_eq object] at beyond
      omega

theorem PsWellFormed.prepare (formed : PsWellFormed ps) :
    PsWellFormed (ps.prepare input index) := by
  have kept (other : Nat) : ((ps.prepare input index).psm.streams.slots other).esinfoLen =
      (ps.psm.streams.slots other).esinfoLen ∧
      (PsmEntryFits (ps.psm.streams.slots other) →
        PsmEntryFits ((ps.prepare input index).psm.streams.slots other)) := by
    unfold PsMuxer.prepare
    dsimp only
    rw [SlotArray.modify_slots]
    split
    · exact ⟨rfl, fun fits => ⟨fits.plain, fits.held⟩⟩
    · exact ⟨rfl, id⟩
  exact ⟨formed.count, formed.plain, fun other inside => (kept other).2 (formed.fits other inside),
    fun other beyond => (kept other).1.trans (formed.unused other beyond)⟩

theorem prepare_frontLength (ps : PsMuxer) (input : PsInput) (index : Nat) :
    psFrontLength (ps.prepare input index) = psFrontLength ps := by
  have sums : ((ps.prepare input index).psm.streams.live.map fun stream => 7 + stream.esinfoLen) =
      ps.psm.streams.live.map fun stream => 7 + stream.esinfoLen := by
    unfold SlotArray.live
    rw [map_map, map_map]
    apply map_congr_left
    intro other _
    unfold PsMuxer.prepare
    simp only [Function.comp, SlotArray.modify_slots]
    split
    · rfl
    · rfl
  unfold psFrontLength psHeaderLength
  rw [sums]
  rfl

theorem psMuxerInput_staysInside_iff (formed : PsWellFormed ps)
    (object : input.payload.length < 2 ^ 63) :
    StaysInside (psMuxerInput ps input) ↔
      psStreamFind ps input.streamid = none ∨
        input.func.alloc (psPacketSize input.payload.length) = false ∨
        psFrontLength ps < 1024 := by
  unfold psMuxerInput
  cases found : psStreamFind ps input.streamid with
  | none =>
    refine ⟨fun _ => .inl rfl, fun _ fault ended => ?_⟩
    cases ended
  | some index =>
    dsimp only
    cases allocated : input.func.alloc (psPacketSize input.payload.length) with
    | false =>
      refine ⟨fun _ => .inr (.inl rfl), fun _ fault ended => ?_⟩
      cases ended
    | true =>
      rw [if_pos rfl, psWritePacket_staysInside_iff formed.prepare object,
        prepare_frontLength]
      simp

end Calls

/-! ## Histories -/

/-- The states that calls without a fault lead to. -/
inductive PsReached : PsMuxer → Prop
  | create : PsReached psMuxerCreate
  | add {ps next : PsMuxer} {codecid sid : Int} {extradata : List UInt8} :
      PsReached ps → psMuxerAddStream ps codecid extradata = .ok (sid, next) → PsReached next
  | input {ps next : PsMuxer} {input : PsInput} {r : Int} :
      PsReached ps → psMuxerInput ps input = .ok (r, next) → PsReached next

theorem psMuxerCreate_formed : PsWellFormed psMuxerCreate where
  count := rfl
  plain := fun _ inside => absurd inside (Nat.not_lt_zero _)
  fits := fun _ inside => absurd inside (Nat.not_lt_zero _)
  unused := fun _ _ => rfl

variable {ps : PsMuxer}

theorem psStreamKind_plain {codecid : Int} {kind : UInt8 × PsStreamHeader × PsSystemHeader}
    (known : psStreamKind ps codecid = .ok kind) :
    kind.1 ≠ pesSidExtend ∧ pesSidExtension.toNat ≠ kind.2.1.streamId ∧
      kind.2.2.streams = ps.system.streams := by
  have video : ∀ bound < 15, UInt8.ofNat (pesSidVideo.toNat + bound) ≠ pesSidExtend ∧
      pesSidExtension.toNat ≠ (UInt8.ofNat (pesSidVideo.toNat + bound)).toNat := by decide
  have audio : ∀ bound < 31, UInt8.ofNat (pesSidAudio.toNat + bound) ≠ pesSidExtend ∧
      pesSidExtension.toNat ≠ (UInt8.ofNat (pesSidAudio.toNat + bound)).toNat := by decide
  unfold psStreamKind at known
  split at known
  · obtain ⟨_, checked, returned⟩ := ok_of_bind known
    cases returned
    have bound := video ps.system.videoBound (by have := of_check checked; omega)
    exact ⟨bound.1, bound.2, rfl⟩
  · split at known
    · obtain ⟨_, checked, returned⟩ := ok_of_bind known
      cases returned
      have bound := audio ps.system.audioBound (by have := of_check checked; omega)
      exact ⟨bound.1, bound.2, rfl⟩
    · cases known

variable {next : PsMuxer}

theorem PsWellFormed.add {codecid sid : Int} {extradata : List UInt8} (formed : PsWellFormed ps)
    (added : psMuxerAddStream ps codecid extradata = .ok (sid, next)) : PsWellFormed next := by
  unfold psMuxerAddStream at added
  obtain ⟨_, -, added⟩ := ok_of_bind added
  obtain ⟨_, -, added⟩ := ok_of_bind added
  obtain ⟨kind, known, added⟩ := ok_of_bind added
  obtain ⟨_, -, added⟩ := ok_of_bind added
  obtain ⟨plain, plainHeader, streams⟩ := psStreamKind_plain known
  have unused := formed.unused ps.psm.streams.count (Nat.le_refl _)
  cases added
  constructor
  · rfl
  · intro index inside
    dsimp only at inside ⊢
    rcases Nat.lt_succ_iff_lt_or_eq.mp inside with old | here
    · rw [SlotArray.set_other _ _ (by omega)]
      exact formed.plain index (by rw [formed.count]; exact old)
    · rw [here, SlotArray.set_same]
      exact plainHeader
  · intro index inside
    dsimp only at inside ⊢
    rcases Nat.lt_succ_iff_lt_or_eq.mp inside with old | here
    · rw [SlotArray.set_other _ _ (by omega)]
      exact formed.fits index old
    · rw [here, SlotArray.set_same]
      split
      · exact ⟨plain, Nat.le_refl _⟩
      · exact ⟨plain, by dsimp only; rw [unused]; exact Nat.zero_le _⟩
  · intro index beyond
    dsimp only at beyond ⊢
    rw [SlotArray.set_other _ _ (by omega)]
    exact formed.unused index (by omega)

theorem psWritePacket_keeps {input : PsInput} {index : Nat} {r : Int}
    (returned : psWritePacket ps input index = .ok (r, next)) :
    next.psm = ps.psm ∧ next.system = ps.system := by
  unfold psWritePacket at returned
  dsimp only at returned
  generalize psWriteHeaders _ _ = headers at returned
  cases headers with
  | error fault => cases returned
  | ok headers =>
    change (if headers.1 ≥ maxPesHeader then Except.error PsFault.size else _) = _ at returned
    split at returned
    · cases returned
    · generalize psWritePackets _ _ _ _ _ _ _ _ = packets at returned
      cases packets with
      | error fault => cases returned
      | ok packets =>
        change (if packets.1 ≥ psPacketSize input.payload.length then
          Except.error PsFault.size else _) = _ at returned
        split at returned
        · cases returned
        · cases returned
          exact ⟨rfl, rfl⟩

theorem PsWellFormed.input {input : PsInput} {r : Int} (formed : PsWellFormed ps)
    (returned : psMuxerInput ps input = .ok (r, next)) :
    PsWellFormed next := by
  unfold psMuxerInput at returned
  split at returned
  · cases returned
    exact formed
  · next index _ =>
      have prepared : PsWellFormed (ps.prepare input index) := formed.prepare
      dsimp only at returned
      split at returned
      · obtain ⟨psm, system⟩ := psWritePacket_keeps returned
        constructor
        · rw [psm, system]
          exact prepared.count
        · rw [system]
          exact prepared.plain
        · rw [psm]
          exact prepared.fits
        · rw [psm]
          exact prepared.unused
      · cases returned
        exact prepared

theorem PsReached.formed (reached : PsReached ps) : PsWellFormed ps := by
  induction reached with
  | create => exact psMuxerCreate_formed
  | add _ added ih => exact ih.add added
  | input _ returned ih => exact ih.input returned

/-- In every state of a muxer, writing a unit stays inside its packet just if there is no stream of
this id, no packet, no map to be written, or its streams have short descriptions. -/
theorem ps_muxer_stays_inside_iff {ps : PsMuxer} (reached : PsReached ps) {input : PsInput}
    (object : input.payload.length < 2 ^ 63) :
    StaysInside (psMuxerInput ps input) ↔
      psStreamFind ps input.streamid = none ∨
        input.func.alloc (psPacketSize input.payload.length) = false ∨
        ps.psmPeriod % 30 ≠ 0 ∨
        42 + (ps.psm.streams.live.map fun stream => 7 + stream.esinfoLen).sum < 1024 := by
  rw [psMuxerInput_staysInside_iff reached.formed object]
  have front : psFrontLength ps < 1024 ↔ ps.psmPeriod % 30 ≠ 0 ∨
      42 + (ps.psm.streams.live.map fun stream => 7 + stream.esinfoLen).sum < 1024 := by
    unfold psFrontLength psHeaderLength
    split
    · next due => simp [due]
    · next early => simp [early]
  rw [front]

/-! ## Two streams -/

/-- A description of the greatest length. -/
def longDescription : List UInt8 := List.replicate 511 0

/-- One byte for the first video stream. -/
def oneByte : PsInput := ⟨⟨fun _ => true, fun _ _ => 0⟩, 0xE0, 0, 0, 0, [1]⟩

def addTwo (description : List UInt8) : Except Fault PsMuxer := do
  let video ← psMuxerAddStream psMuxerCreate 0x1b description
  let audio ← psMuxerAddStream video.2 0x0f description
  .ok audio.2

theorem addTwo_reached {description : List UInt8} (added : addTwo description = .ok ps) :
    PsReached ps := by
  unfold addTwo at added
  obtain ⟨video, videoAdded, added⟩ := ok_of_bind added
  obtain ⟨audio, audioAdded, added⟩ := ok_of_bind added
  cases added
  exact .add (.add .create videoAdded) audioAdded

/-- Two streams, each described by one byte. -/
theorem ps_muxer_stays_inside_iff_two :
    ∃ ps, PsReached ps ∧ StaysInside (psMuxerInput ps oneByte) := by
  have added : ∃ ps, addTwo [7] = .ok ps ∧
      42 + (ps.psm.streams.live.map fun stream => 7 + stream.esinfoLen).sum < 1024 :=
    ⟨_, rfl, by decide⟩
  obtain ⟨ps, returned, short⟩ := added
  have reached := addTwo_reached returned
  exact ⟨ps, reached, (ps_muxer_stays_inside_iff reached (by decide)).mpr (.inr (.inr (.inr short)))⟩

set_option maxRecDepth 4000 in
/-- Two streams with long descriptions make headers of 1078 bytes, which are more than there is
room for. -/
theorem ps_muxer_overflows :
    ∃ ps, PsReached ps ∧
      42 + (ps.psm.streams.live.map fun stream => 7 + stream.esinfoLen).sum = 1078 ∧
      ¬StaysInside (psMuxerInput ps oneByte) := by
  have added : ∃ ps, addTwo longDescription = .ok ps ∧ psFrontLength ps = 1078 ∧
      psHeaderLength ps = 1078 ∧ psStreamFind ps 0xE0 = some 0 :=
    ⟨_, rfl, rfl, rfl, rfl⟩
  obtain ⟨ps, returned, front, length, found⟩ := added
  have reached := addTwo_reached returned
  refine ⟨ps, reached, length, fun inside => ?_⟩
  rcases (psMuxerInput_staysInside_iff reached.formed (by decide)).mp inside with
    missing | refused | short
  · rw [show oneByte.streamid = 0xE0 from rfl, found] at missing
    cases missing
  · cases refused
  · omega

end CLibs.MpegTs
