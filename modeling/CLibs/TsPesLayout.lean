import CLibs.TsRecords

/-!
# Writing one packet of an elementary stream

Model of `pes_write_header` of `mpeg-pes.c` and of the body of the loop of
`ts_write_pes` in `mpeg-ts-enc.c`, which fills one 188-byte buffer.  The buffer
starts out unwritten and every access to it is checked.  The assertions of the
source are checked too: the build files do not switch them off.
-/

namespace CLibs.MpegTs

variable {Cell : Type}

def tsHeaderLen : Nat := 4
def pesHeaderLen : Nat := 6
def afFlagPcr : UInt8 := 0x10
def afFlagRandomAccessIndicator : UInt8 := 0x40
def tsPayloadUnitStartIndicator : UInt8 := 0x40

def timestampBytes (marker : UInt8) (time : Int) : List UInt8 :=
  [marker ||| UInt8.ofNat (bits time 30 3 <<< 1) ||| 0x01,
    UInt8.ofNat (bits time 22 8),
    UInt8.ofNat (bits time 15 7 <<< 1) ||| 0x01,
    UInt8.ofNat (bits time 7 8),
    UInt8.ofNat (bits time 0 7 <<< 1) ||| 0x01]

/-- `PTS_DTS_flags` as the header carries them. -/
def ptsDtsFlags (pes : Pes Cell) : UInt8 :=
  (if pes.pts ≠ ptsNoValue then 0x80 else 0x00) |||
    (if pes.dts ≠ ptsNoValue ∧ pes.dts ≠ pes.pts then 0x40 else 0x00)

def pesHeaderDataLength (pes : Pes Cell) : Nat :=
  (if pes.pts ≠ ptsNoValue then 5 else 0) +
    (if pes.dts ≠ ptsNoValue ∧ pes.dts ≠ pes.pts then 5 else 0)

def ptsBytes (pes : Pes Cell) : List UInt8 :=
  if ptsDtsFlags pes &&& 0x80 ≠ 0 then
    timestampBytes ((ptsDtsFlags pes >>> 2) &&& 0x30) pes.pts
  else []

def dtsBytes (pes : Pes Cell) : List UInt8 :=
  if ptsDtsFlags pes &&& 0x40 ≠ 0 then timestampBytes 0x10 pes.dts else []

/-- What `pes_write_header` asserts: only video has two time stamps. -/
def TimestampsAllowed (pes : Pes Cell) : Prop :=
  pes.dts = ptsNoValue ∨ pes.pts = pes.dts ∨ pes.sid = pesSidVideo

instance (pes : Pes Cell) : Decidable (TimestampsAllowed pes) :=
  inferInstanceAs (Decidable (_ ∨ _ ∨ _))

/-- `pes_write_header` at position `header` of the buffer, where `bytes` cells
are left; the length field stays unwritten.  The result is the buffer and the
number of bytes of the header, 0 for an error. -/
def pesWriteHeader (pes : Pes Cell) (data : Buffer UInt8) (header bytes : Nat) :
    Except Fault (Buffer UInt8 × Nat) := do
  if bytes < 9 then return (data, 0)
  let data ← data.store header [0x00, 0x00, 0x01, pes.sid]
  let data ← data.store (header + 6) [if pes.dataAlignmentIndicator then 0x80 ||| 0x04 else 0x80]
  check (TimestampsAllowed pes)
  let data ← data.store (header + 7) [ptsDtsFlags pes, UInt8.ofNat (pesHeaderDataLength pes)]
  if pesHeaderDataLength pes + 9 > bytes then return (data, 0)
  let data ← data.store (header + 9) (ptsBytes pes)
  let data ← data.store (header + 9 + (ptsBytes pes).length) (dtsBytes pes)
  return (data, 9 + (ptsBytes pes).length + (dtsBytes pes).length)

def accessUnitDelimiter (codecid : UInt8) (withAud : Bool) : List UInt8 :=
  if codecid = psiStreamH264 ∧ !withAud then nboW32 0x00000001 ++ [0x09, 0xF0]
  else if codecid = psiStreamH265 ∧ !withAud then nboW32 0x00000001 ++ [0x46, 0x01, 0x50]
  else []

/-- Announces an adaptation field with this flag, when the condition holds. -/
def tsAddFlag (condition : Prop) [Decidable condition] (flag : UInt8) (data : Buffer UInt8) :
    Except Fault (Buffer UInt8) :=
  if condition then do
    let data ← data.modify 3 (· ||| 0x20)
    data.modify 5 (· ||| flag)
  else .ok data

/-- The clock reference of a packet whose flags announce one. -/
def tsWritePcr (stream : Pes Cell) (flags : UInt8) (data : Buffer UInt8) :
    Except Fault (Buffer UInt8) :=
  if flags &&& afFlagPcr ≠ 0 then do
    let pcr := if stream.dts = ptsNoValue then stream.pts else stream.dts
    let data ← data.store 6 (pcrWrite (int64 (pcr * 300)))
    data.modify 4 (· + 6)
  else .ok data

/-- The adaptation field of a packet, before any stuffing, and the position
behind it. -/
def tsWriteAdaptation (pcrPid : Nat) (stream : Pes Cell) (start : Bool) (data : Buffer UInt8) :
    Except Fault (Buffer UInt8 × Nat) := do
  let data ← tsAddFlag (start ∧ stream.pid = pcrPid) afFlagPcr data
  let data ← tsAddFlag (start ∧ stream.dataAlignmentIndicator ∧ stream.pts ≠ ptsNoValue)
    afFlagRandomAccessIndicator data
  if (← data.load 3) &&& 0x20 ≠ 0 then
    let data ← data.store 4 [1]
    let data ← tsWritePcr stream (← data.load 5) data
    return (data, tsHeaderLen + 1 + (← data.load 4).toNat)
  else
    return (data, tsHeaderLen)

/-- What only the first packet of a unit carries: the start indicator, the PES
header and the delimiter.  `bytes` is the length of the payload. -/
def tsWritePesStart (stream : Pes Cell) (withAud start : Bool) (header bytes : Nat)
    (data : Buffer UInt8) : Except Fault (Buffer UInt8 × Nat) :=
  if start then do
    let data ← data.modify 1 (· ||| tsPayloadUnitStartIndicator)
    let (data, n) ← pesWriteHeader stream data header (tsPacketSize - header)
    let aud := accessUnitDelimiter stream.codecid withAud
    let data ← data.store (header + n) aud
    let p := header + n + aud.length
    let length := (p - header - pesHeaderLen) + bytes
    let data ← data.store (header + 4) (nboW16 (if length > 0xFFFF then 0 else length))
    return (data, p)
  else .ok (data, header)

def tsGrowAdaptation (stuffing : Nat) (data : Buffer UInt8) : Except Fault (Buffer UInt8) := do
  check ((← data.load 5) ≠ 0 ∧ (← data.load 4) > 0)
  let data ← data.store (tsHeaderLen + 1 + (← data.load 4).toNat) (List.replicate stuffing 0xFF)
  data.modify 4 (· + UInt8.ofNat stuffing)

/-- What stands behind the length byte of a field made for stuffing. -/
def tsFillAdaptation (stuffing : Nat) (data : Buffer UInt8) : Except Fault (Buffer UInt8) := do
  let data ← data.storeIf ((← data.load 4) > 0) 5 [0]
  data.storeIf ((← data.load 4) > 1) 6 (List.replicate (stuffing - 2) 0xFF)

/-- An adaptation field that holds nothing but stuffing. -/
def tsMakeAdaptation (stuffing : Nat) (data : Buffer UInt8) : Except Fault (Buffer UInt8) := do
  let data ← data.modify 3 (· ||| 0x20)
  let data ← data.store 4 [UInt8.ofNat (stuffing - 1)]
  tsFillAdaptation stuffing data

/-- The PES header, which ends at `p`, moved up to the end of the packet less
the payload. -/
def tsMoveHeader (start : Bool) (header p bytes : Nat) (data : Buffer UInt8) :
    Except Fault (Buffer UInt8) :=
  if 0 < p - header then do
    check (start = true)
    data.move (tsPacketSize - bytes - (p - header)) header (p - header)
  else .ok data

def tsStuffAdaptation (header p stuffing : Nat) (data : Buffer UInt8) :
    Except Fault (Buffer UInt8) := do
  if (← data.load 3) &&& 0x20 ≠ 0 then tsGrowAdaptation stuffing data
  else
    check (p = (p - header) + tsHeaderLen)
    tsMakeAdaptation stuffing data

/-- The end of the headers, made to meet a payload of `bytes` bytes: the
buffer, the position of the payload and how much of it fits. -/
def tsWriteStuffing (start : Bool) (header p bytes : Nat) (data : Buffer UInt8) :
    Except Fault (Buffer UInt8 × Nat × Nat) := do
  if p + bytes < tsPacketSize then
    let data ← tsMoveHeader start header p bytes data
    let data ← tsStuffAdaptation header p (tsPacketSize - (p + bytes)) data
    return (data, 5 + (← data.load 4).toNat + (p - header), bytes)
  else
    return (data, p, tsPacketSize - p)

/-- One round of the loop of `ts_write_pes`: the packet and the number of
payload bytes in it. -/
def tsWritePesPacket (pcrPid : Nat) (stream : Pes Cell) (withAud start : Bool)
    (payload : List UInt8) : Except Fault (List UInt8 × Nat) := do
  let data ← (Buffer.alloc tsPacketSize).store 0
    [0x47, UInt8.ofNat ((stream.pid >>> 8) &&& 0x1F), UInt8.ofNat (stream.pid &&& 0xFF),
      UInt8.ofNat (0x10 ||| (stream.cc &&& 0x0F)), 0, 0]
  let (data, header) ← tsWriteAdaptation pcrPid stream start data
  let (data, p) ← tsWritePesStart stream withAud start header payload.length data
  let (data, p, len) ← tsWriteStuffing start header p payload.length data
  let data ← data.store p (payload.take len)
  return (← data.contents, len)

end CLibs.MpegTs

/-!
## Headers of the packets of an elementary stream

The layout of a transport packet, and the headers that one round of
`ts_write_pes` puts into its buffer: the adaptation field before any stuffing,
and in the first packet of a unit the PES header and the delimiter.
-/

namespace CLibs.MpegTs

variable {Cell : Type}

/-! ## Packets as H.222.0 lays them out -/

def fieldBytes (field : Option (List UInt8)) : List UInt8 :=
  field.elim [] fun held => UInt8.ofNat held.length :: held

def startByte (pid : Nat) (start : Bool) : UInt8 :=
  UInt8.ofNat ((pid >>> 8) &&& 0x1F) ||| if start then 0x40 else 0x00

def controlByte (cc : Nat) (adapted : Bool) : UInt8 :=
  UInt8.ofNat (0x10 ||| (cc &&& 0x0F)) ||| if adapted then 0x20 else 0x00

def tsHeaderBytes (pid cc : Nat) (start adapted : Bool) : List UInt8 :=
  [0x47, startByte pid start, UInt8.ofNat (pid &&& 0xFF), controlByte cc adapted]

def tsPacket (pid cc : Nat) (start : Bool) (field : Option (List UInt8)) (body : List UInt8) :
    List UInt8 :=
  tsHeaderBytes pid cc start field.isSome ++ fieldBytes field ++ body

def pesHeaderTail (pes : Pes Cell) : List UInt8 :=
  [if pes.dataAlignmentIndicator then 0x80 ||| 0x04 else 0x80, ptsDtsFlags pes,
    UInt8.ofNat (pesHeaderDataLength pes)] ++ ptsBytes pes ++ dtsBytes pes

/-- The PES header, with `length` in its length field. -/
def pesHeader (pes : Pes Cell) (length : Nat) : List UInt8 :=
  [0x00, 0x00, 0x01, pes.sid] ++ nboW16 length ++ pesHeaderTail pes

/-- What the length field says of a unit: 0 stands for a length that it cannot
hold. -/
def pesLengthField (length : Nat) : Nat := if length > 0xFFFF then 0 else length

/-- What stands in front of the bytes of an access unit. -/
def unitHeader (stream : Pes Cell) (withAud : Bool) (bytes : Nat) : List UInt8 :=
  let aud := accessUnitDelimiter stream.codecid withAud
  pesHeader stream (pesLengthField (3 + pesHeaderDataLength stream + aud.length + bytes)) ++ aud

/-! ## The adaptation field -/

/-- Whether the packet carries the clock reference of its program. -/
def CarriesPcr (pcrPid : Nat) (stream : Pes Cell) (start : Bool) : Prop :=
  start = true ∧ stream.pid = pcrPid

/-- Whether the packet starts a unit that can be decoded on its own. -/
def RandomAccess (stream : Pes Cell) (start : Bool) : Prop :=
  start = true ∧ stream.dataAlignmentIndicator = true ∧ stream.pts ≠ ptsNoValue

instance (pcrPid : Nat) (stream : Pes Cell) (start : Bool) :
    Decidable (CarriesPcr pcrPid stream start) :=
  inferInstanceAs (Decidable (_ ∧ _))

instance (stream : Pes Cell) (start : Bool) : Decidable (RandomAccess stream start) :=
  inferInstanceAs (Decidable (_ ∧ _ ∧ _))

/-- The clock reference that a packet of the stream carries. -/
def pcrOf (stream : Pes Cell) : List UInt8 :=
  pcrWrite (int64 ((if stream.dts = ptsNoValue then stream.pts else stream.dts) * 300))

def adaptationFlags (pcrPid : Nat) (stream : Pes Cell) (start : Bool) : UInt8 :=
  (if CarriesPcr pcrPid stream start then afFlagPcr else 0) |||
    (if RandomAccess stream start then afFlagRandomAccessIndicator else 0)

/-- The field of a packet that has one before any stuffing. -/
def initialField (pcrPid : Nat) (stream : Pes Cell) (start : Bool) : List UInt8 :=
  adaptationFlags pcrPid stream start ::
    if adaptationFlags pcrPid stream start &&& afFlagPcr ≠ 0 then pcrOf stream else []

/-- What the adaptation field of a packet holds before any stuffing. -/
def adaptationField (pcrPid : Nat) (stream : Pes Cell) (start : Bool) : Option (List UInt8) :=
  if CarriesPcr pcrPid stream start ∨ RandomAccess stream start then
    some (initialField pcrPid stream start)
  else none

variable {stream : Pes Cell}

theorem adaptationField_some {pcrPid : Nat} {start : Bool}
    (adapted : CarriesPcr pcrPid stream start ∨ RandomAccess stream start) :
    adaptationField pcrPid stream start = some (initialField pcrPid stream start) :=
  if_pos adapted

theorem adaptationField_none {pcrPid : Nat} {start : Bool}
    (plain : ¬(CarriesPcr pcrPid stream start ∨ RandomAccess stream start)) :
    adaptationField pcrPid stream start = none :=
  if_neg plain

theorem initialField_length (pcrPid : Nat) (stream : Pes Cell) (start : Bool) :
    (initialField pcrPid stream start).length ≤ 7 := by
  unfold initialField
  split
  · exact Nat.le_refl 7
  · simp

@[simp] theorem fieldBytes_none : fieldBytes none = [] := rfl

@[simp] theorem fieldBytes_some_length (held : List UInt8) :
    (fieldBytes (some held)).length = held.length + 1 := rfl

theorem controlByte_flag (cc : Nat) :
    controlByte cc false &&& 0x20 = 0 ∧ controlByte cc true &&& 0x20 ≠ 0 ∧
      controlByte cc false ||| 0x20 = controlByte cc true ∧
      controlByte cc true ||| 0x20 = controlByte cc true := by
  have low : cc &&& 0x0F < 16 := Nat.and_lt_two_pow cc (by decide : 0x0F < 2 ^ 4)
  have checked : ∀ nibble < 16,
      (UInt8.ofNat (0x10 ||| nibble) ||| 0x00) &&& 0x20 = 0 ∧
        (UInt8.ofNat (0x10 ||| nibble) ||| 0x20) &&& 0x20 ≠ 0 ∧
        (UInt8.ofNat (0x10 ||| nibble) ||| 0x00) ||| 0x20 = UInt8.ofNat (0x10 ||| nibble) ||| 0x20 ∧
        (UInt8.ofNat (0x10 ||| nibble) ||| 0x20) ||| 0x20 =
          UInt8.ofNat (0x10 ||| nibble) ||| 0x20 := by
    decide
  exact checked _ low

variable {data : Buffer UInt8} {first second third : UInt8}

theorem tsAddFlag_yields {flags : UInt8} {cc : Nat} {adapted : Bool} (condition : Prop)
    [Decidable condition] (flag : UInt8)
    (holds : data.Holds 0 [first, second, third, controlByte cc adapted, 0, flags]) :
    Yields (tsAddFlag condition flag data) fun next => next.size = data.size ∧
      next.Holds 0 [first, second, third, controlByte cc (adapted || decide condition), 0,
        flags ||| if condition then flag else 0] := by
  obtain ⟨-, -, marks, again⟩ := controlByte_flag cc
  apply Yields.ite
  · intro set
    have both : controlByte cc adapted ||| 0x20 = controlByte cc true := by
      cases adapted
      · exact marks
      · exact again
    simp only [set, decide_true, Bool.or_true, if_true, ← both]
    apply Yields.step (holds.modify_eq (Nat.zero_le 3) rfl)
    have announced := holds.set_cell (controlByte cc adapted ||| 0x20) (Nat.zero_le 3)
    refine ⟨_, announced.modify_eq (Nat.zero_le 5) rfl, rfl, ?_⟩
    exact announced.set_cell (flags ||| flag) (Nat.zero_le 5)
  · intro unset
    simp only [unset, decide_false, Bool.or_false, if_false, UInt8.or_zero]
    exact Yields.pure ⟨rfl, holds⟩

theorem tsWritePcr_yields {control flags : UInt8} (stream : Pes Cell)
    (size : data.size = tsPacketSize)
    (holds : data.Holds 0 [first, second, third, control, 1, flags]) :
    Yields (tsWritePcr stream flags data) fun next => next.size = tsPacketSize ∧
      next.Holds 0 ([first, second, third, control] ++
        fieldBytes (some (flags :: if flags &&& afFlagPcr ≠ 0 then pcrOf stream else []))) := by
  apply Yields.ite
  · intro clocked
    rw [if_pos clocked]
    have room : 6 + 6 ≤ data.size := by rw [size]; decide
    apply Yields.step (Buffer.store_eq room)
    have extended := holds.extend (pcrOf stream) rfl room
    refine ⟨_, extended.modify_eq (Nat.zero_le 4) rfl, size, ?_⟩
    exact extended.set_cell 7 (Nat.zero_le 4)
  · intro plain
    rw [if_neg plain]
    exact Yields.pure ⟨size, holds⟩

theorem tsWriteAdaptation_yields (pcrPid : Nat) (stream : Pes Cell) (start : Bool) {cc : Nat}
    (size : data.size = tsPacketSize)
    (holds : data.Holds 0 [first, second, third, controlByte cc false, 0, 0]) :
    Yields (tsWriteAdaptation pcrPid stream start data) fun result =>
      result.1.size = tsPacketSize ∧
      result.2 = tsHeaderLen + (fieldBytes (adaptationField pcrPid stream start)).length ∧
      result.1.Holds 0 ([first, second, third,
        controlByte cc (adaptationField pcrPid stream start).isSome] ++
          fieldBytes (adaptationField pcrPid stream start)) := by
  obtain ⟨clear, marked, -, -⟩ := controlByte_flag cc
  apply Yields.bind (tsAddFlag_yields (CarriesPcr pcrPid stream start) afFlagPcr holds)
  rintro clocked ⟨sameSize, clockHeld⟩
  apply Yields.bind
    (tsAddFlag_yields (RandomAccess stream start) afFlagRandomAccessIndicator clockHeld)
  rintro flagged ⟨flaggedSize, held⟩
  have packet : flagged.size = tsPacketSize := flaggedSize.trans (sameSize.trans size)
  apply Yields.step (held.load_eq (Nat.zero_le 3) rfl)
  rw [UInt8.zero_or, Bool.false_or, ← Bool.decide_or] at held
  rw [Bool.false_or, ← Bool.decide_or]
  by_cases adapted : CarriesPcr pcrPid stream start ∨ RandomAccess stream start
  · rw [adaptationField_some adapted]
    simp only [adapted, decide_true] at held ⊢
    rw [if_pos marked]
    apply Yields.step (Buffer.store_eq (by rw [packet]; decide))
    have one : (flagged.written 4 [1]).Holds 0 [first, second, third, controlByte cc true, 1,
        adaptationFlags pcrPid stream start] := held.set_cell 1 (Nat.zero_le 4)
    have sized : (flagged.written 4 [1]).size = tsPacketSize := packet
    apply Yields.step (one.load_eq (Nat.zero_le 5) rfl)
    apply Yields.bind (tsWritePcr_yields stream sized one)
    rintro final ⟨finalSize, finalHeld⟩
    apply Yields.step (finalHeld.load_eq (Nat.zero_le 4) rfl)
    refine Yields.pure ⟨finalSize, ?_, finalHeld⟩
    have short := initialField_length pcrPid stream start
    change tsHeaderLen + 1 + (UInt8.ofNat (initialField pcrPid stream start).length).toNat = _
    rw [fieldBytes_some_length, toNat_ofNat (by omega), Nat.add_assoc, Nat.add_comm 1]
  · rw [adaptationField_none adapted]
    simp only [adapted, decide_false] at held ⊢
    rw [if_neg (not_not_intro clear)]
    refine Yields.pure ⟨packet, rfl, ?_⟩
    exact (Buffer.holds_append.mp (show flagged.Holds 0
      ([first, second, third, controlByte cc false] ++ [0, adaptationFlags pcrPid stream start])
      from held)).1

/-! ## The PES header -/

theorem ptsDtsFlags_pts (pes : Pes Cell) :
    ptsDtsFlags pes &&& 0x80 ≠ 0 ↔ pes.pts ≠ ptsNoValue := by
  have table : ∀ pts dts : Bool,
      ((if pts = true then 0x80 else 0x00) ||| if dts = true then 0x40 else 0x00 : UInt8) &&& 0x80 ≠ 0 ↔
        pts = true := by
    decide
  simpa only [ptsDtsFlags, decide_eq_true_eq] using table (decide (pes.pts ≠ ptsNoValue))
    (decide (pes.dts ≠ ptsNoValue ∧ pes.dts ≠ pes.pts))

theorem ptsDtsFlags_dts (pes : Pes Cell) :
    ptsDtsFlags pes &&& 0x40 ≠ 0 ↔ pes.dts ≠ ptsNoValue ∧ pes.dts ≠ pes.pts := by
  have table : ∀ pts dts : Bool,
      ((if pts = true then 0x80 else 0x00) ||| if dts = true then 0x40 else 0x00 : UInt8) &&& 0x40 ≠ 0 ↔
        dts = true := by
    decide
  simpa only [ptsDtsFlags, decide_eq_true_eq] using table (decide (pes.pts ≠ ptsNoValue))
    (decide (pes.dts ≠ ptsNoValue ∧ pes.dts ≠ pes.pts))

theorem timestamps_length (pes : Pes Cell) :
    (ptsBytes pes).length + (dtsBytes pes).length = pesHeaderDataLength pes := by
  unfold ptsBytes dtsBytes pesHeaderDataLength
  simp only [ptsDtsFlags_pts, ptsDtsFlags_dts]
  split <;> split <;> rfl

theorem pesHeaderDataLength_le (pes : Pes Cell) : pesHeaderDataLength pes ≤ 10 := by
  unfold pesHeaderDataLength
  split <;> split <;> decide

theorem pesWriteHeader_yields {pes : Pes Cell} (allowed : TimestampsAllowed pes)
    {data : Buffer UInt8} {header bytes : Nat} (room : header + 19 ≤ data.size)
    (enough : 19 ≤ bytes) :
    Yields (pesWriteHeader pes data header bytes) fun result =>
      result.1.size = data.size ∧ result.2 = 9 + pesHeaderDataLength pes ∧
      result.1.Holds header [0x00, 0x00, 0x01, pes.sid] ∧
      result.1.Holds (header + 6) (pesHeaderTail pes) ∧
      ∀ place known, data.Holds place known →
        place + known.length ≤ header ∨ header + 9 + pesHeaderDataLength pes ≤ place →
        result.1.Holds place known := by
  have whole := timestamps_length pes
  have short := pesHeaderDataLength_le pes
  unfold pesWriteHeader
  rw [if_neg (by omega)]
  have startRoom : header + 4 ≤ data.size := by omega
  have alignRoom : header + 6 + 1 ≤ data.size := by omega
  have flagsRoom : header + 7 + 2 ≤ data.size := by omega
  have ptsRoom : header + 9 + (ptsBytes pes).length ≤ data.size := by omega
  have dtsRoom : header + 9 + (ptsBytes pes).length + (dtsBytes pes).length ≤ data.size := by omega
  apply Yields.step (Buffer.store_eq startRoom)
  apply Yields.step (Buffer.store_eq alignRoom)
  apply Yields.step (check_eq allowed)
  apply Yields.step (Buffer.store_eq flagsRoom)
  rw [if_neg (by omega)]
  apply Yields.step (Buffer.store_eq (by exact ptsRoom))
  apply Yields.step (Buffer.store_eq (by exact dtsRoom))
  refine Yields.pure ⟨rfl, (Nat.add_assoc 9 _ _).trans (congrArg (9 + ·) whole), ?_, ?_, ?_⟩
  · have held := Buffer.written_holds data [0x00, 0x00, 0x01, pes.sid] startRoom
    exact (((held.written (.inl (by simp))).written (.inl (by simp))).written
      (.inl (by simp))).written (.inl (by simp; omega))
  · have held := Buffer.written_holds (data.written header [0x00, 0x00, 0x01, pes.sid])
      [if pes.dataAlignmentIndicator then 0x80 ||| 0x04 else 0x80] alignRoom
    have flagged := held.extend [ptsDtsFlags pes, UInt8.ofNat (pesHeaderDataLength pes)]
      (rfl : header + 7 = _) flagsRoom
    have timed := flagged.extend (ptsBytes pes) (rfl : header + 9 = _) ptsRoom
    exact timed.extend (dtsBytes pes) (by simp; omega) dtsRoom
  · intro place known held apart
    exact ((((held.written (by simp; omega)).written (by simp; omega)).written
      (by simp; omega)).written (by omega)).written (by omega)

theorem pesHeaderTail_length (pes : Pes Cell) :
    (pesHeaderTail pes).length = 3 + pesHeaderDataLength pes := by
  have whole := timestamps_length pes
  simp only [pesHeaderTail, List.length_append, List.length_cons, List.length_nil]
  omega

theorem pesHeader_length (pes : Pes Cell) (length : Nat) :
    (pesHeader pes length).length = 9 + pesHeaderDataLength pes := by
  simp only [pesHeader, List.length_append, pesHeaderTail_length, nboW16_length,
    List.length_cons, List.length_nil]
  omega

theorem accessUnitDelimiter_length (codecid : UInt8) (withAud : Bool) :
    (accessUnitDelimiter codecid withAud).length ≤ 7 := by
  unfold accessUnitDelimiter
  split
  · decide
  · split <;> decide

theorem unitHeader_length (stream : Pes Cell) (withAud : Bool) (bytes : Nat) :
    (unitHeader stream withAud bytes).length =
      9 + pesHeaderDataLength stream + (accessUnitDelimiter stream.codecid withAud).length := by
  simp only [unitHeader, List.length_append, pesHeader_length]

theorem tsWritePesStart_yields (allowed : TimestampsAllowed stream) (withAud : Bool) {header : Nat}
    (bytes : Nat) {sync : UInt8} {more : List UInt8} (size : data.size = tsPacketSize)
    (ends : header = more.length + 2) (short : header ≤ 12)
    (holds : data.Holds 0 (sync :: second :: more)) :
    Yields (tsWritePesStart stream withAud true header bytes data) fun result =>
      result.1.size = tsPacketSize ∧
      result.2 = header + (unitHeader stream withAud bytes).length ∧
      result.1.Holds 0
        (sync :: (second ||| 0x40) :: more ++ unitHeader stream withAud bytes) := by
  have dataLength := pesHeaderDataLength_le stream
  have audLength := accessUnitDelimiter_length stream.codecid withAud
  have tailLength := pesHeaderTail_length stream
  have packet : tsPacketSize = 188 := rfl
  unfold tsWritePesStart
  rw [if_pos rfl]
  apply Yields.step (holds.modify_eq (Nat.zero_le 1) rfl)
  have flagged : (data.written 1 [second ||| 0x40]).Holds 0 (sync :: (second ||| 0x40) :: more) :=
    holds.set_cell (second ||| 0x40) (Nat.zero_le 1)
  apply Yields.bind (pesWriteHeader_yields allowed (by
    rw [Buffer.written_size, size]; omega) (by omega))
  rintro ⟨written, n⟩ ⟨sameSize, length, started, tail, kept⟩
  replace sameSize : written.size = tsPacketSize := sameSize.trans size
  replace length : n = 9 + pesHeaderDataLength stream := length
  have known := kept _ _ flagged (.inl (by simp; omega))
  apply Yields.step (Buffer.store_eq (by rw [sameSize]; omega))
  have delimited := tail.extend (accessUnitDelimiter stream.codecid withAud)
    (show header + n = _ by omega) (by rw [sameSize]; omega)
  apply Yields.step (Buffer.store_eq (by rw [Buffer.written_size, sameSize, nboW16_length]; omega))
  have counted : header + n + (accessUnitDelimiter stream.codecid withAud).length - header -
      pesHeaderLen = 3 + pesHeaderDataLength stream +
        (accessUnitDelimiter stream.codecid withAud).length := by
    unfold pesHeaderLen
    omega
  refine Yields.pure ⟨sameSize, ?_, ?_⟩
  · change header + n + (accessUnitDelimiter stream.codecid withAud).length = _
    rw [unitHeader_length]
    omega
  · simp only [counted]
    have opened : (written.written (header + n) (accessUnitDelimiter stream.codecid withAud)).Holds 0
        ((sync :: (second ||| 0x40) :: more) ++ [0x00, 0x00, 0x01, stream.sid]) :=
      (known.append started (by simp; omega)).written (.inl (by simp; omega))
    have front := opened.extend
      (nboW16 (pesLengthField (3 + pesHeaderDataLength stream +
        (accessUnitDelimiter stream.codecid withAud).length + bytes)))
      (show header + 4 = _ by simp; omega) (by simp [sameSize]; omega)
    have back := front.append (delimited.written (.inr (by simp))) (by simp; omega)
    simp only [unitHeader, pesHeader, List.append_assoc] at back ⊢
    exact back

end CLibs.MpegTs
