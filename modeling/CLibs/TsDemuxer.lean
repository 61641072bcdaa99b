import CLibs.TracedPrograms
import CLibs.TsSectionReading

/-!
# Assembling packets

Model of `mpeg-packet.c` and of the searches of `mpeg-ts-h264.c` and
`mpeg-ts-h265.c` that it uses.  A stream's packet grows by the bytes of each
call and is handed to the callback when the next one starts.  `Cell` is what a
byte of the packet is, and `byte` looks at one.
-/

namespace CLibs.MpegTs

variable {Cell : Type}

/-- What `onpacket` is called with. -/
structure Delivery (Cell : Type) where
  pn : Nat
  pid : Nat
  codecid : UInt8
  flags : Nat
  pts : Int
  dts : Int
  data : List Cell

def einval : Int := 22

def mpegPacketPayloadMaxSize : Nat := 10 * 1024 * 1024

def mpegPacketAppend (realloc : Bool) (pkt : Packet Cell) (data : List Cell) :
    Packet Cell × Int :=
  let size := pkt.data.length + data.length
  if pkt.capacity < size then
    if size > mpegPacketPayloadMaxSize then (pkt, einval)
    else if realloc then ({ pkt with data := pkt.data ++ data, capacity := size + 2048 }, 0)
    else (pkt, 12)
  else ({ pkt with data := pkt.data ++ data }, 0)

/-! ## Searching for access units -/

/-- `mpeg_h264_find_nalu` from the byte `i` on, behind `zeros` zeros: the place
behind the start code and the length of the code.  The zeros are among the
bytes before, which is what the assertion of the source says. -/
def mpegH264FindNalu : (bytes : List UInt8) → (i zeros : Nat) → Option (Nat × Nat)
  | byte :: next :: rest, i, zeros =>
    if byte = 0x01 ∧ zeros ≥ 2 then some (i + 1, (if zeros > 2 then 3 else zeros) + 1)
    else mpegH264FindNalu (next :: rest) (i + 1) (if byte ≠ 0x00 then 0 else zeros + 1)
  | _, _, _ => none

/-- What tells the units of H.264 and of H.265 apart. -/
structure UnitRules where
  isNewAccessUnit : List UInt8 → Bool
  isVcl : UInt8 → Bool

def mpegH264IsNewAccessUnit (nalu : List UInt8) : Bool :=
  if nalu.length < 2 then false
  else
    let nalType := (nalu.getD 0 0 &&& 0x1f).toNat
    if nalType = 9 ∨ nalType = 7 ∨ nalType = 8 ∨ nalType = 6 ∨ (14 ≤ nalType ∧ nalType ≤ 18) then
      true
    else if nalType = 1 ∨ nalType = 2 ∨ nalType = 5 then decide (nalu.getD 1 0 &&& 0x80 ≠ 0)
    else false

def h264Rules : UnitRules where
  isNewAccessUnit := mpegH264IsNewAccessUnit
  isVcl := fun byte => decide ((byte &&& 0x1f).toNat > 0 ∧ (byte &&& 0x1f).toNat < 6)

def mpegH265IsNewAccessUnit (nalu : List UInt8) : Bool :=
  if nalu.length < 3 then false
  else
    let nalType := ((nalu.getD 0 0 >>> 1) &&& 0x3f).toNat
    let nuhLayerId := (((nalu.getD 0 0 &&& 0x01) <<< 5) ||| ((nalu.getD 1 0 >>> 3) &&& 0x1F)).toNat
    if nalType = 32 ∨ nalType = 33 ∨ nalType = 34 ∨ (nuhLayerId = 0 ∧ (nalType = 35 ∨
        nalType = 39 ∨ (41 ≤ nalType ∧ nalType ≤ 44) ∨ (48 ≤ nalType ∧ nalType ≤ 55))) then true
    else if nalType ≤ 31 then decide (nalu.getD 2 0 &&& 0x80 ≠ 0)
    else false

def h265Rules : UnitRules where
  isNewAccessUnit := mpegH265IsNewAccessUnit
  isVcl := fun byte => decide (((byte >>> 1) &&& 0x3f).toNat ≤ 31)

/-- `mpeg_h264_find_new_access_unit` and `mpeg_h265_find_new_access_unit`, from
`position` on: where the next unit starts, and the count of `vcl`.  A start is
only found behind a counted unit, as the caller asserts. -/
def findNewAccessUnit (rules : UnitRules) :
    (fuel : Nat) → (bytes : List UInt8) → (position vcl : Nat) → Option Nat × Nat
  | 0, _, _, vcl => (none, vcl)
  | fuel + 1, bytes, position, vcl =>
    match mpegH264FindNalu bytes 0 0 with
    | none => (none, vcl)
    | some (n, leading) =>
      if vcl > 0 ∧ rules.isNewAccessUnit (bytes.drop n) then
        (some (position + n - leading), vcl)
      else
        findNewAccessUnit rules fuel (bytes.drop n) (position + n)
          (if rules.isVcl (bytes.getD n 0) then vcl + 1 else vcl)

/-! ## Handing packets over -/

section Assembly

variable (byte : Cell → UInt8)

/-- Whether a unit is the delimiter, by the type of the packet. -/
def isDelimiter (codecid header : UInt8) : Bool :=
  if codecid = psiStreamH264 then decide (header &&& 0x1f = 9)
  else decide ((header >>> 1) &&& 0x3f = 35)

/-- The loop of `mpeg_packet_h264_h265_filter`: where the unit starts behind its
delimiters.  The loop can also end behind the last byte. -/
def skipDelimiters (codecid : UInt8) (data : List Cell) :
    (fuel off i : Nat) → Except Fault Nat
  | 0, _, _ => .error .fuel
  | fuel + 1, off, i =>
    if off < data.length then
      match mpegH264FindNalu ((data.drop off).map byte) 0 0 with
      | none => .error .assertion
      | some (n, leading) =>
        if isDelimiter codecid (((data.drop off).map byte).getD n 0) then
          skipDelimiters codecid data fuel (off + n + 1) n
        else .ok (off + n - leading)
    else .ok (off + i)

def deliveryOf (pes : Pes Cell) (pkt : Packet Cell) (data : List Cell) : Delivery Cell where
  pn := pes.pn
  pid := pes.pid
  codecid := pkt.codecid
  flags := pkt.flags
  pts := pkt.pts
  dts := pkt.dts
  data := data

/-- `mpeg_packet_h264_h265_filter`.  Behind the last byte it would hand over
bytes that were never received. -/
def mpegPacketH264H265Filter (answer : Int) (pes : Pes Cell) (pkt : Packet Cell)
    (data : List Cell) : Traced (Delivery Cell) Int := do
  let start ← Traced.lift (skipDelimiters byte pkt.codecid data (data.length + 1) 0 0)
  if start ≤ data.length then
    Traced.emit (deliveryOf pes pkt (data.drop start))
    return answer
  else Traced.lift (.error .unwritten)

/-- What `pes_packet` saves with the pending bytes. -/
def savedPacket (pes : Pes Cell) (pkt : Packet Cell) : Packet Cell :=
  { pkt with
    pts := pes.pts
    dts := pes.dts
    sid := pes.sid
    codecid := pes.codecid
    flags := if pes.dataAlignmentIndicator then 1 else 0 }

def unitRules (codecid : UInt8) : UnitRules :=
  if codecid = psiStreamH264 then h264Rules else h265Rules

/-- The loop of `mpeg_packet_h264_h265`: the bytes up to `data` have been handed
over, and the search goes on from `p`.  `handler` answers the calls in order. -/
def handOverUnits (pes : Pes Cell) (handler : Nat → Int) :
    (fuel calls data p : Nat) → Packet Cell → Traced (Delivery Cell) (Packet Cell × Int)
  | 0, _, _, _, _ => Traced.lift (.error .fuel)
  | fuel + 1, calls, data, p, pkt =>
    let rest := (pkt.data.drop p).map byte
    let found := findNewAccessUnit (unitRules pes.codecid) (rest.length + 1) rest 0 pkt.vcl
    match found.1 with
    | none => pure
        ({ savedPacket pes pkt with vcl := found.2, data := pkt.data.drop data }, 0)
    | some n => do
        let answer ← mpegPacketH264H265Filter byte (handler calls) pes pkt
          ((pkt.data.take (p + n)).drop data)
        if answer = 0 then
          handOverUnits pes handler fuel (calls + 1) (p + n) (p + n) { pkt with vcl := 0 }
        else pure ({ pkt with vcl := found.2 }, answer)

/-- The part of `pes_packet` for H.264 and H.265. -/
def mpegPacketH264H265 (pes : Pes Cell) (handler : Nat → Int) (pkt : Packet Cell) (size : Nat) :
    Traced (Delivery Cell) (Packet Cell × Int) :=
  handOverUnits byte pes handler (pkt.data.length + 2) 0 0
    (if pkt.data.length < size + 5 then 0 else pkt.data.length - size - 5) pkt

def handOverPending (pes : Pes Cell) (answer : Int) (start : Bool) :
    Traced (Delivery Cell) (Packet Cell × Int) := do
  let pkt := pes.pkt
  if pkt.data ≠ [] ∧ (pkt.dts ≠ pes.dts ∨ start) then
    Traced.lift (check (pkt.dts ≠ ptsNoValue))
    Traced.emit (deliveryOf pes pkt pkt.data)
    return ({ pkt with data := [] }, answer)
  else return (pkt, 0)

def handOverComplete (pes : Pes Cell) (answer : Int) (pkt : Packet Cell) :
    Traced (Delivery Cell) (Packet Cell × Int) := do
  if pes.len > 0 ∧ pkt.data.length ≥ pes.len then
    Traced.lift (check (pkt.data.length = pes.len))
    Traced.emit (deliveryOf pes pkt (pkt.data.take pes.len))
    return ({ pkt with data := [] }, answer)
  else return (pkt, 0)

/-- `pes_packet`, for the packet of the stream itself. -/
def pesPacket (realloc : Bool) (handler : Nat → Int) (pes : Pes Cell) (data : List Cell)
    (start : Bool) : Traced (Delivery Cell) (Packet Cell × Int) := do
  if pes.codecid = psiStreamH264 ∨ pes.codecid = psiStreamH265 then
    let grown := mpegPacketAppend realloc pes.pkt data
    if grown.2 = 0 then mpegPacketH264H265 byte pes handler grown.1 data.length
    else pure grown
  else
    Traced.lift (check (pes.dts ≠ ptsNoValue))
    let pending ← handOverPending pes (handler 0) start
    if pending.2 = 0 then
      let grown := mpegPacketAppend realloc pending.1 data
      if grown.2 = 0 then
        handOverComplete pes (handler 1) (savedPacket pes grown.1)
      else pure grown
    else pure pending

end Assembly

end CLibs.MpegTs

/-!
## The transport stream demuxer

Model of `mpeg-ts-dec.c`, of `sdt_read` of `mpeg-sdt.c` and of
`pes_read_header` of `mpeg-pes.c`.  Every byte of the packet that the source
reads is read here, also where its value is not used any more: an access behind
the packet is a fault.  The notification of new streams and the continuity
counter, which nothing reads, are left out.
-/

namespace CLibs.MpegTs

variable {Cell : Type}

/-! ## The adaptation field -/

/-- Reads `count` bytes from `i` on, for fields whose values are not used. -/
def touch (data : List UInt8) (i count : Nat) : Except Fault Unit :=
  if i + count ≤ data.length then .ok () else .error .outside

def touchIf (condition : Bool) (data : List UInt8) (i count : Nat) : Except Fault Unit :=
  if condition then touch data i count else .ok ()

def flagOf (byte mask : UInt8) : Bool := decide (byte &&& mask ≠ 0)

/-- How far a field moves the place of the next one. -/
def widthOf (present : Bool) (width : Nat) : Nat := if present then width else 0

/-- The extension of the field, whose optional parts are skipped unread. -/
def extensionRead (data : List UInt8) (present : Bool) (i : Nat) : Except Fault Unit :=
  touchIf present data i 2

def privateDataRead (data : List UInt8) (present : Bool) (i : Nat) : Except Fault Nat := do
  if present then
    let length ← byteAt data i
    return i + 1 + length.toNat
  else return i

/-- `adaptation_filed_read`: the length of the field with its first byte. -/
def adaptationFiledRead (data : List UInt8) : Except Fault Nat := do
  let length ← byteAt data 0
  if length.toNat > 0 then
    let flags ← byteAt data 1
    let opcr := 2 + widthOf (flagOf flags 0x10) 6
    let splice := opcr + widthOf (flagOf flags 0x08) 6
    let privateData := splice + widthOf (flagOf flags 0x04) 1
    touchIf (flagOf flags 0x10) data 2 6
    touchIf (flagOf flags 0x08) data opcr 6
    touchIf (flagOf flags 0x04) data splice 1
    let extension ← privateDataRead data (flagOf flags 0x02) privateData
    extensionRead data (flagOf flags 0x01) extension
    return length.toNat + 1
  else return 1

/-! ## The header of a PES packet -/

/-- A time stamp of five bytes. -/
def timestampAt (data : List UInt8) (i : Nat) : Except Fault Int := do
  let first ← byteAt data i
  let second ← byteAt data (i + 1)
  let third ← byteAt data (i + 2)
  let fourth ← byteAt data (i + 3)
  let fifth ← byteAt data (i + 4)
  return ((((first >>> 1) &&& 0x07).toNat <<< 30) ||| (second.toNat <<< 22) |||
    (((third >>> 1) &&& 0x7F).toNat <<< 15) ||| (fourth.toNat <<< 7) |||
    ((fifth >>> 1) &&& 0x7F).toNat : Nat)

/-- A time stamp that stands behind its mark, or what was there before. -/
def markedTimestamp (data : List UInt8) (present : Bool) (i : Nat) (mark : UInt8) (before : Int) :
    Except Fault Int := do
  if present then
    let first ← byteAt data i
    check (first &&& mark = mark)
    timestampAt data i
  else return before

/-- The stream with the fixed part of the header. -/
def pesHeading (pes : Pes Cell) (sid : UInt8) (len : Nat) (flags : UInt8) : Pes Cell :=
  { pes with sid := sid, len := len, dataAlignmentIndicator := flagOf flags 0x04 }

/-- The optional fields of the header, behind its fixed part. -/
def pesReadOptions (pes : Pes Cell) (data : List UInt8) (flags : UInt8) :
    Except Fault (Int × Int) := do
  let dtsPlace := 9 + widthOf (flagOf flags 0x80) 5
  let escr := dtsPlace + widthOf (flagOf flags 0x40) 5
  let esRate := escr + widthOf (flagOf flags 0x20) 6
  let pts ← markedTimestamp data (flagOf flags 0x80) 9 0x20 pes.pts
  let dts ← markedTimestamp data (flagOf flags 0x40) dtsPlace 0x10
    (if flagOf flags 0x80 then pts else pes.dts)
  touchIf (flagOf flags 0x20) data escr 6
  touchIf (flagOf flags 0x10) data esRate 3
  return (pts, dts)

/-- `pes_read_header`: the stream and the length of the header, 0 when the
packet is too short for it.  `len` is a `uint32_t`. -/
def pesReadHeader (pes : Pes Cell) (data : List UInt8) : Except Fault (Pes Cell × Nat) := do
  let opened ← spells data 0 [0x00, 0x00, 0x01]
  check (opened = true)
  let sid ← byteAt data 3
  let len ← fieldAt data 4 0xFF
  let marks ← byteAt data 6
  check ((marks >>> 6) &&& 0x3 = 0x02)
  let flags ← byteAt data 7
  let headerLength ← byteAt data 8
  if data.length < headerLength.toNat + 9 then return (pesHeading pes sid len marks, 0)
  else
    let times ← pesReadOptions pes data flags
    let len := if len > 0 then (len + 2 ^ 32 - (headerLength.toNat + 3)) % 2 ^ 32 else len
    return ({ pesHeading pes sid len marks with pts := times.1, dts := times.2 },
      headerLength.toNat + 9)

/-! ## The service description -/

def patTidSdt : UInt8 := 0x42

def serviceNameSize : Nat := 64

def bytesAt (data : List UInt8) (i count : Nat) : Except Fault (List UInt8) :=
  if i + count ≤ data.length then .ok ((data.drop i).take count) else .error .outside

/-- The service descriptor at `k`, which ends at `last`. -/
def readService (data : List UInt8) (k last : Nat) (pmt : Pmt Cell) : Except Fault (Pmt Cell) := do
  let providerLength ← byteAt data (k + 3)
  if providerLength.toNat ≥ serviceNameSize ∨ k + 3 + providerLength.toNat > last then return pmt
  else
    let provider ← bytesAt data (k + 4) providerLength.toNat
    let nameLength ← byteAt data (k + 4 + providerLength.toNat)
    if nameLength.toNat ≥ serviceNameSize ∨
        k + 5 + providerLength.toNat + nameLength.toNat > last then
      return { pmt with provider := provider }
    else
      let name ← bytesAt data (k + 5 + providerLength.toNat) nameLength.toNat
      return { pmt with provider := provider, name := name }

/-- The descriptors of a service, up to `last`. -/
def sdtReadDescriptors (data : List UInt8) (last : Nat) :
    (fuel k : Nat) → Pmt Cell → Except Fault (Pmt Cell)
  | 0, _, _ => .error .fuel
  | fuel + 1, k, pmt =>
    if k + 2 ≤ last then do
      let tag ← byteAt data k
      let length ← byteAt data (k + 1)
      if tag ≠ 0x48 ∨ k + length.toNat > last then
        sdtReadDescriptors data last fuel (k + 2 + length.toNat) pmt
      else
        let pmt ← readService data k last pmt
        sdtReadDescriptors data last fuel (k + 2 + length.toNat) pmt
    else .ok pmt

def patFind (pat : Pat Cell) (pn : Nat) : Option Nat :=
  pat.pmts.find fun pmt => decide (pmt.pn = pn)

def sdtReadServices (data : List UInt8) (bound : Nat) :
    (fuel i : Nat) → Pat Cell → Except Fault (Pat Cell)
  | 0, _, _ => .error .fuel
  | fuel + 1, i, pat =>
    if i + 5 ≤ bound then do
      let n ← fieldAt data (i + 3) 0x0F
      let sid ← fieldAt data i 0xFF
      if i + 5 + n > bound then sdtReadServices data bound fuel (i + 5 + n) pat
      else
        match patFind pat sid with
        | none => sdtReadServices data bound fuel (i + 5 + n) pat
        | some k =>
          let pmt ← sdtReadDescriptors data (i + 5 + n) (n + 1) (i + 5) (pat.pmts.slots k)
          sdtReadServices data bound fuel (i + 5 + n) { pat with pmts := pat.pmts.set k pmt }
    else .ok pat

/-- `sdt_read`; it returns 0. -/
def sdtRead (pat : Pat Cell) (data : List UInt8) : Except Fault (Pat Cell) := do
  let tableId ← byteAt data 0
  let sectionLength ← fieldAt data 1 0x0F
  if tableId ≠ patTidSdt then return pat
  else
    check (data.length ≥ sectionLength + 3)
    sdtReadServices data (sectionEnd sectionLength) (data.length + 1) 11 pat

/-! ## Packets -/

/-- What the allocator and the callback answer during a call; `handler j`
answers for the stream of program `j`. -/
structure DecEnv where
  calloc : Bool
  realloc : Bool
  handler : Nat → Nat → Int

def tsPidPat : Nat := 0x00
def tsPidSdt : Nat := 0x11

section Input

variable (byte : Cell → UInt8) (env : DecEnv)

/-- The bytes from `i` on.  Behind the packet `bytes - i` would wrap around. -/
def payloadFrom (packet : List Cell) (i : Nat) : Except Fault (List Cell) :=
  if i ≤ packet.length then .ok (packet.drop i) else .error .outside

/-- A packet of stream `k`: its payload starts at `i`, behind the header if it
has one.  The result is the stream, the place of the payload and the answer. -/
def streamInput (j : Nat) (pes : Pes Cell) (packet : List Cell) (start : Bool) (i : Nat) :
    Traced (Delivery Cell) (Pes Cell × Nat × Int) := do
  let payload ← Traced.lift (payloadFrom packet i)
  if start then
    let header ← Traced.lift (pesReadHeader pes (payload.map byte))
    Traced.lift (check (header.2 > 0))
    let payload ← Traced.lift (payloadFrom packet (i + header.2))
    let taken ← pesPacket byte env.realloc (env.handler j) header.1 payload true
    return ({ header.1 with pkt := taken.1 }, i + header.2, taken.2)
  else
    let taken ← pesPacket byte env.realloc (env.handler j) pes payload false
    return ({ pes with pkt := taken.1 }, i, taken.2)

/-- The stream of a program that takes the packet: the first with this pid,
unless its header is still missing. -/
def takingStream (pmt : Pmt Cell) (pid : Nat) (start : Bool) : Option Nat :=
  pmt.streams.find fun stream => decide (stream.pid = pid ∧ (start = true ∨ stream.sid ≠ 0))

def Pat.setPmt (pat : Pat Cell) (j : Nat) (pmt : Pmt Cell) : Pat Cell :=
  { pat with pmts := pat.pmts.set j pmt }

/-- The loop of `ts_demuxer_input` over the programs from `j` on.  It goes on
behind a stream that took the packet, with the place behind its header. -/
def programsInput (packet : List Cell) (pid : Nat) (start : Bool) :
    (left j i : Nat) → (r : Int) → Pat Cell → Traced (Delivery Cell) (Pat Cell × Int)
  | 0, _, _, r, pat => pure (pat, r)
  | left + 1, j, i, r, pat =>
    if j < pat.pmtCapacity then
      if (pat.pmts.slots j).pid = pid then do
        let payload ← Traced.lift (payloadFrom packet (i + widthOf start 1))
        let pmt ← Traced.lift (pmtRead env.calloc (pat.pmts.slots j) (payload.map byte))
        return (pat.setPmt j pmt, r)
      else
        match takingStream (pat.pmts.slots j) pid start with
        | none => programsInput packet pid start left (j + 1) i r pat
        | some k => do
            let taken ← streamInput byte env j ((pat.pmts.slots j).streams.slots k) packet start i
            programsInput packet pid start left (j + 1) taken.2.1 taken.2.2
              (pat.setPmt j (pmtStore (pat.pmts.slots j) k taken.1))
    else Traced.lift (.error .outside)

def payloadInput (packet : List Cell) (pid : Nat) (start : Bool) (i : Nat) (pat : Pat Cell) :
    Traced (Delivery Cell) (Pat Cell × Int) := do
  if pid = tsPidPat then
    let payload ← Traced.lift (payloadFrom packet (i + widthOf start 1))
    let pat ← Traced.lift (patRead env.realloc pat (payload.map byte))
    return (pat, 0)
  else if pid = tsPidSdt then
    let payload ← Traced.lift (payloadFrom packet (i + widthOf start 1))
    let pat ← Traced.lift (sdtRead pat (payload.map byte))
    return (pat, 0)
  else programsInput byte env packet pid start pat.pmts.count 0 i 0 pat

def payloadPlace (data : List UInt8) : Except Fault Nat := do
  let control ← byteAt data 3
  if flagOf control 0x20 then
    let length ← adaptationFiledRead (data.drop 4)
    return 4 + length
  else return 4

/-- `ts_demuxer_input` for one packet. -/
def tsDemuxerInput (packet : List Cell) (pat : Pat Cell) :
    Traced (Delivery Cell) (Pat Cell × Int) := do
  let data := packet.map byte
  Traced.lift (check (data.length = tsPacketSize))
  let sync ← Traced.lift (byteAt data 0)
  Traced.lift (check (sync = 0x47))
  let pid ← Traced.lift (fieldAt data 1 0x1F)
  let marks ← Traced.lift (byteAt data 1)
  let control ← Traced.lift (byteAt data 3)
  let i ← Traced.lift (payloadPlace data)
  if flagOf control 0x10 then payloadInput byte env packet pid (flagOf marks 0x40) i pat
  else return (pat, 0)

end Input

end CLibs.MpegTs
