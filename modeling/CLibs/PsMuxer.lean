import CLibs.TsPesLayout

/-!
# Headers of a program stream

Model of the records of `mpeg-ps-proto.h` and of what `mpeg-pack-header.c`, `mpeg-system-header.c`
and `mpeg-psm.c` write.  The streams of a header or a map are slots, of which so many are in use.
-/

namespace CLibs.MpegTs

def pesSidExtension : UInt8 := 0xB7
def pesSidExtend : UInt8 := 0xFD

/-- The streams that a header or a map has room for. -/
def psStreamsCapacity : Nat := 16

structure PsPackHeader where
  mpeg2 : Bool
  systemClockReferenceBase : Int
  systemClockReferenceExtension : Nat
  programMuxRate : Nat

structure PsStreamHeader where
  streamId : Nat
  streamExtid : Nat
  bufferBoundScale : Nat
  bufferSizeBound : Nat
  deriving DecidableEq

structure PsSystemHeader where
  rateBound : Nat
  audioBound : Nat
  fixedFlag : Nat
  cspsFlag : Nat
  systemAudioLockFlag : Nat
  systemVideoLockFlag : Nat
  videoBound : Nat
  packetRateRestrictionFlag : Nat
  streams : SlotArray PsStreamHeader

structure Psm where
  ver : Nat
  streams : SlotArray (Pes UInt8)

/-! ## Writing -/

/-- The 14 bytes that `pack_header_write` stores. -/
def packHeaderWrite (h : PsPackHeader) : List UInt8 :=
  let base := h.systemClockReferenceBase
  let extension := h.systemClockReferenceExtension
  nboW32 0x000001BA ++
    [UInt8.ofNat (0x44 ||| (bits base 30 3 <<< 3) ||| bits base 28 2),
      UInt8.ofNat (bits base 20 8),
      UInt8.ofNat (0x04 ||| (bits base 15 5 <<< 3) ||| bits base 13 2),
      UInt8.ofNat (bits base 5 8),
      UInt8.ofNat (0x04 ||| (bits base 0 5 <<< 3) ||| ((extension >>> 7) &&& 0x03)),
      UInt8.ofNat (0x01 ||| ((extension &&& 0x7F) <<< 1)),
      UInt8.ofNat (h.programMuxRate >>> 14),
      UInt8.ofNat (h.programMuxRate >>> 6),
      UInt8.ofNat (0x03 ||| ((h.programMuxRate &&& 0x3F) <<< 2)),
      0xF8]

/-- What `system_header_write` stores for a stream. -/
def streamHeaderWrite (stream : PsStreamHeader) : List UInt8 :=
  [UInt8.ofNat stream.streamId] ++
    (if pesSidExtension.toNat = stream.streamId then
      [0xD0, UInt8.ofNat (stream.streamExtid &&& 0x7F), 0xB6]
    else []) ++
    [UInt8.ofNat (0xC0 ||| ((stream.bufferBoundScale &&& 0x01) <<< 5) |||
        ((stream.bufferSizeBound >>> 8) &&& 0x1F)),
      UInt8.ofNat (stream.bufferSizeBound &&& 0xFF)]

/-- What stands behind the length field. -/
def systemHeaderBody (h : PsSystemHeader) : List UInt8 :=
  [UInt8.ofNat (0x80 ||| ((h.rateBound >>> 15) &&& 0x7F)),
    UInt8.ofNat ((h.rateBound >>> 7) &&& 0xFF),
    UInt8.ofNat (0x01 ||| ((h.rateBound &&& 0x7F) <<< 1)),
    UInt8.ofNat (((h.audioBound &&& 0x3F) <<< 2) ||| ((h.fixedFlag &&& 0x01) <<< 1) |||
      (h.cspsFlag &&& 0x01)),
    UInt8.ofNat (0x20 ||| ((h.systemAudioLockFlag &&& 0x01) <<< 7) |||
      ((h.systemVideoLockFlag &&& 0x01) <<< 6) ||| (h.videoBound &&& 0x1F)),
    UInt8.ofNat (0x7F ||| ((h.packetRateRestrictionFlag &&& 0x01) <<< 7))] ++
    h.streams.live.flatMap streamHeaderWrite

def systemHeaderWrite (h : PsSystemHeader) : List UInt8 :=
  nboW32 0x000001BB ++ nboW16 (systemHeaderBody h).length ++ systemHeaderBody h

/-- The entry of a stream in the map; `memcpy` reads as many bytes as the length says. -/
def psmEntry (stream : Pes UInt8) : Except Fault (List UInt8) := do
  check (stream.sid ≠ pesSidExtend)
  let esinfo := stream.esinfo.getD []
  if esinfo.length < stream.esinfoLen then .error .outside
  else .ok ([stream.codecid, stream.sid] ++ nboW16 stream.esinfoLen ++ esinfo.take stream.esinfoLen)

def psmEntries : List (Pes UInt8) → Except Fault (List UInt8)
  | [] => .ok []
  | stream :: streams => do
      let entry ← psmEntry stream
      let entries ← psmEntries streams
      .ok (entry ++ entries)

def psmWrite (psm : Psm) : Except Fault (List UInt8) := do
  let entries ← psmEntries psm.streams.live
  .ok (withCrc32 (nboW32 0x000001BC ++ nboW16 (10 + entries.length) ++
    [UInt8.ofNat (0xC0 ||| (psm.ver &&& 0x1F)), 0x01] ++ nboW16 0 ++ nboW16 entries.length ++
    entries))

/-! ## Lengths -/

@[simp]
theorem packHeaderWrite_length (h : PsPackHeader) : (packHeaderWrite h).length = 14 := by
  simp [packHeaderWrite]

theorem streamHeaderWrite_length {stream : PsStreamHeader}
    (plain : pesSidExtension.toNat ≠ stream.streamId) : (streamHeaderWrite stream).length = 3 := by
  unfold streamHeaderWrite
  rw [if_neg plain]
  rfl

theorem systemHeaderWrite_length (h : PsSystemHeader) :
    (systemHeaderWrite h).length = 12 + (h.streams.live.flatMap streamHeaderWrite).length := by
  simp [systemHeaderWrite, systemHeaderBody]
  omega

/-- The entries are written just if no stream has the extended id and every `esinfo` is as long as
it says. -/
structure PsmEntryFits (stream : Pes UInt8) : Prop where
  plain : stream.sid ≠ pesSidExtend
  held : stream.esinfoLen ≤ (stream.esinfo.getD []).length

theorem psmEntry_eq {stream : Pes UInt8} (fits : PsmEntryFits stream) :
    psmEntry stream = .ok ([stream.codecid, stream.sid] ++ nboW16 stream.esinfoLen ++
      (stream.esinfo.getD []).take stream.esinfoLen) := by
  unfold psmEntry
  rw [check_eq fits.plain, ok_bind]
  dsimp only
  rw [if_neg (Nat.not_lt.mpr fits.held)]

theorem psmEntries_length {streams : List (Pes UInt8)} (fit : ∀ stream ∈ streams, PsmEntryFits stream) :
    Yields (psmEntries streams) fun entries =>
      entries.length = (streams.map fun stream => 4 + stream.esinfoLen).sum := by
  induction streams with
  | nil => exact ⟨[], rfl, rfl⟩
  | cons stream streams ih =>
    obtain ⟨first, rest⟩ := List.forall_mem_cons.mp fit
    obtain ⟨entries, written, length⟩ := ih rest
    unfold psmEntries
    rw [psmEntry_eq first, ok_bind, written, ok_bind]
    refine ⟨_, rfl, ?_⟩
    have held := first.held
    simp only [List.length_append, List.length_cons, List.length_nil, nboW16_length,
      List.length_take, List.map_cons, List.sum_cons, length]
    omega

theorem psmWrite_length {psm : Psm} (fit : ∀ stream ∈ psm.streams.live, PsmEntryFits stream) :
    Yields (psmWrite psm) fun written =>
      written.length = 16 + (psm.streams.live.map fun stream => 4 + stream.esinfoLen).sum := by
  obtain ⟨entries, written, length⟩ := psmEntries_length fit
  unfold psmWrite
  rw [written, ok_bind]
  refine ⟨_, rfl, ?_⟩
  simp only [withCrc32_length, List.length_append, List.length_cons, List.length_nil, nboW16_length,
    nboW32_length, length]
  omega

end CLibs.MpegTs

/-!
## The program stream muxer

Model of `mpeg-ps-enc.c`.  The packet that `ps_muxer_input` fills is a buffer of the size that it
asks for, and every access to it is checked.  The payload is an object, so it has fewer than 2^63
bytes.
-/

namespace CLibs.MpegTs

def maxPesHeader : Nat := 1024
def maxPesPacket : Nat := 0xFFFF

def mpegFlagIdrFrame : Nat := 0x0001
def mpegFlagH264H265WithAud : Nat := 0x8000

/-- `ps_muxer_t`; `scr_period` is not used. -/
structure PsMuxer where
  psm : Psm
  pack : PsPackHeader
  system : PsSystemHeader
  h264H265WithAud : Bool
  psmPeriod : Nat

def PsStreamHeader.zero : PsStreamHeader := ⟨0, 0, 0, 0⟩

def psMuxerCreate : PsMuxer where
  psm := ⟨0, ⟨fun _ => Pes.zero UInt8, 0⟩⟩
  pack := ⟨false, 0, 0, 0⟩
  system := ⟨26234, 0, 0, 0, 0, 0, 0, 0, ⟨fun _ => PsStreamHeader.zero, 0⟩⟩
  h264H265WithAud := false
  psmPeriod := 0

/-- How a call of the muxer ends the program. -/
inductive PsFault
  | size
  | timestamps
  | other (fault : Fault)
  deriving DecidableEq

def PsFault.ofHeader : Fault → PsFault
  | .assertion => .timestamps
  | fault => .other fault

def psAccessUnitDelimiter (codecid : UInt8) (withAud : Bool) : List UInt8 :=
  if codecid = psiStreamH264 ∧ !withAud then nboW32 0x00000001 ++ [0x09, 0xE0]
  else if codecid = psiStreamH265 ∧ !withAud then nboW32 0x00000001 ++ [0x46, 0x01, 0x50]
  else []

/-- `PES_packet_length`, a `size_t`, for a header of `p` bytes. -/
def pesPacketLength (p bytes : Nat) : Nat := (p + bytes + (2 ^ 64 - 6)) % 2 ^ 64

def psWritePes (stream : Pes UInt8) (withAud : Bool) (sz : Nat) (first : Bool)
    (payload : List UInt8) (i : Nat) (packet : Buffer UInt8) :
    Except PsFault (Nat × Nat × Buffer UInt8) := do
  let header ← (pesWriteHeader stream packet i (sz - i)).mapError PsFault.ofHeader
  (check (header.2 < 64)).mapError .other
  let aud := if first then psAccessUnitDelimiter stream.codecid withAud else []
  let packet ← (header.1.store (i + header.2) aud).mapError .other
  let p := header.2 + aud.length
  let length := pesPacketLength p payload.length
  let n := if length > maxPesPacket then maxPesPacket + 6 - p else payload.length
  let packet ← (packet.store (i + 4) (nboW16 (min length maxPesPacket))).mapError .other
  let packet ← (packet.store (i + p) (payload.take n)).mapError .other
  .ok (p, n, packet)

def psWritePackets (stream : Pes UInt8) (withAud : Bool) (sz : Nat) :
    (fuel : Nat) → (first : Bool) → (payload : List UInt8) → (i : Nat) → Buffer UInt8 →
      Except PsFault (Nat × Buffer UInt8)
  | 0, _, payload, i, packet => if payload = [] then .ok (i, packet) else .error (.other .fuel)
  | fuel + 1, first, payload, i, packet =>
    if payload = [] then .ok (i, packet)
    else do
      let (p, n, packet) ← psWritePes stream withAud sz first payload i packet
      psWritePackets stream withAud sz fuel false (payload.drop n) (i + p + n) packet

def psWriteHeaders (ps : PsMuxer) (packet : Buffer UInt8) : Except PsFault (Nat × Buffer UInt8) := do
  let pack := packHeaderWrite ps.pack
  let packet ← (packet.store 0 pack).mapError .other
  if ps.psmPeriod % 30 = 0 then do
    let system := systemHeaderWrite ps.system
    let packet ← (packet.store pack.length system).mapError .other
    let psm ← (psmWrite ps.psm).mapError .other
    let packet ← (packet.store (pack.length + system.length) psm).mapError .other
    .ok (pack.length + system.length + psm.length, packet)
  else .ok (pack.length, packet)

def psPacketSize (bytes : Nat) : Nat :=
  (bytes + maxPesHeader + (bytes / maxPesPacket + 1) * 64) % 2 ^ 64

/-- What `func` answers: whether `alloc` has so many bytes, and what `write` returns. -/
structure PsFunc where
  alloc : Nat → Bool
  write : UInt8 → List (Option UInt8) → Int

/-- One call of `ps_muxer_input`. -/
structure PsInput where
  func : PsFunc
  streamid : Int
  flags : Nat
  pts : Int
  dts : Int
  payload : List UInt8

def PsMuxer.prepare (ps : PsMuxer) (input : PsInput) (index : Nat) : PsMuxer :=
  { ps with
    psm := { ps.psm with
      streams := ps.psm.streams.modify index fun stream =>
        { stream with
          dataAlignmentIndicator := input.flags &&& mpegFlagIdrFrame ≠ 0
          pts := input.pts
          dts := input.dts } }
    h264H265WithAud := input.flags &&& mpegFlagH264H265WithAud ≠ 0 }

/-- `ps_muxer_input` behind `alloc`, for the stream at an index. -/
def psWritePacket (ps : PsMuxer) (input : PsInput) (index : Nat) :
    Except PsFault (Int × PsMuxer) := do
  let sz := psPacketSize input.payload.length
  let ps := { ps with
    pack := { ps.pack with
      systemClockReferenceBase := int64 (input.dts - 3600)
      systemClockReferenceExtension := 0
      programMuxRate := 6106 } }
  let headers ← psWriteHeaders ps (Buffer.alloc sz)
  if headers.1 ≥ maxPesHeader then .error .size
  else do
    let stream := ps.psm.streams.slots index
    let packets ← psWritePackets stream ps.h264H265WithAud sz input.payload.length true
      input.payload headers.1 headers.2
    if packets.1 ≥ sz then .error .size
    else .ok (input.func.write stream.sid ((List.range packets.1).map packets.2.cells),
      { ps with psmPeriod := (ps.psmPeriod + 1) % 2 ^ 32 })

def psStreamFind (ps : PsMuxer) (streamid : Int) : Option Nat :=
  ps.psm.streams.find fun stream => decide (streamid = stream.sid.toNat)

def psMuxerInput (ps : PsMuxer) (input : PsInput) : Except PsFault (Int × PsMuxer) :=
  match psStreamFind ps input.streamid with
  | none => .ok (-1, ps)
  | some index =>
    let ps := ps.prepare input index
    if input.func.alloc (psPacketSize input.payload.length) then psWritePacket ps input index
    else .ok (12, ps)

/-! ## Adding streams -/

/-- What `ps_muxer_add_stream` sets for a stream: its id, its place in the system header, and the
bounds of the system header. -/
def psStreamKind (ps : PsMuxer) (codecid : Int) : Except Fault (UInt8 × PsStreamHeader × PsSystemHeader) :=
  if mpegStreamTypeVideo codecid then do
    let sid := UInt8.ofNat (pesSidVideo.toNat + ps.system.videoBound)
    check (ps.system.videoBound + 1 < 16)
    .ok (sid, ⟨sid.toNat, 0, 1, 400⟩, { ps.system with videoBound := ps.system.videoBound + 1 })
  else if mpegStreamTypeAudio codecid then do
    let sid := UInt8.ofNat (pesSidAudio.toNat + ps.system.audioBound)
    check (ps.system.audioBound + 1 < 32)
    .ok (sid, ⟨sid.toNat, 0, 0, 32⟩, { ps.system with audioBound := ps.system.audioBound + 1 })
  else .error .assertion

/-- `ps_muxer_add_stream`, where memory is available: the id of the stream and the muxer. -/
def psMuxerAddStream (ps : PsMuxer) (codecid : Int) (extradata : List UInt8) :
    Except Fault (Int × PsMuxer) := do
  check (extradata.length < 512)
  check (ps.psm.streams.count < psStreamsCapacity)
  let kind ← psStreamKind ps codecid
  let index := ps.psm.streams.count
  let slot := ps.psm.streams.slots index
  let pes := { slot with sid := kind.1 }
  let pes :=
    if extradata.length > 0 then
      { pes with esinfo := some extradata, esinfoLen := extradata.length }
    else pes
  check (ps.psm.streams.count = ps.system.streams.count)
  let pes := { pes with codecid := UInt8.ofNat (codecid % 256).toNat }
  .ok (kind.1.toNat,
    { ps with
      psm :=
        { ver := (ps.psm.ver + 1) % 2 ^ 5
          streams := { (ps.psm.streams.set index pes) with count := index + 1 } }
      system :=
        { kind.2.2 with
          streams := { (ps.system.streams.set index kind.2.1) with count := index + 1 } }
      psmPeriod := 0 })

end CLibs.MpegTs
