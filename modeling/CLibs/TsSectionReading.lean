import CLibs.TsRecords

/-!
# Reading program tables

Model of `pat_read` of `mpeg-pat.c` and of `pmt_read` of `mpeg-pmt.c`.  The
section starts at the first byte of `data`; what lies behind the last one is
outside the packet.  Sums of the source that are unsigned wrap around at `2 ^ 32`.
-/

namespace CLibs.MpegTs

variable {Cell : Type}

def byteAt (data : List UInt8) (i : Nat) : Except Fault UInt8 :=
  (data[i]?).elim (.error .outside) .ok

/-- Two bytes, of which the bits above `mask` in the first one are flags. -/
def fieldAt (data : List UInt8) (i : Nat) (mask : UInt8) : Except Fault Nat := do
  let high ← byteAt data i
  let low ← byteAt data (i + 1)
  return (high &&& mask).toNat <<< 8 ||| low.toNat

def versionOf (byte : UInt8) : Nat := ((byte >>> 1) &&& 0x1F).toNat

def syntaxIndicator (byte : UInt8) : Nat := ((byte >>> 7) &&& 0x01).toNat

/-- `section_length + 3 - 4` in 32 bits, which wraps around at 0. -/
@[irreducible] def sectionEnd (sectionLength : Nat) : Nat := (sectionLength + 3 + 2 ^ 32 - 4) % 2 ^ 32

theorem sectionEnd_eq {sectionLength : Nat} (some : sectionLength ≠ 0)
    (small : sectionLength < 2 ^ 12) : sectionEnd sectionLength = sectionLength - 1 := by
  unfold sectionEnd
  omega

def patTidPas : UInt8 := 0x00
def patTidPms : UInt8 := 0x02

/-! ## The program association table -/

/-- `pat_fetch`: the table, and the entry unless there is no memory for it.  The
entry is counted in either case; a scan beyond the memory is outside. -/
def patFetch (realloc : Bool) (pat : Pat Cell) (pid : Nat) :
    Except Fault (Pat Cell × Option Nat) :=
  match pat.pmts.find fun pmt => decide (pmt.pid = pid) with
  | some k => if k < pat.pmtCapacity then .ok (pat, some k) else .error .outside
  | none =>
    if pat.pmtCapacity < pat.pmts.count then .error .outside
    else do
      let allocated ← patAllocPmt realloc pat
      let table := allocated.getD pat
      return ({ table with pmts := { table.pmts with count := table.pmts.count + 1 } },
        if allocated.isSome then some pat.pmts.count else none)

/-- What an entry of the section says about its program. -/
def patStore (fetched : Pat Cell × Option Nat) (pn pid : Nat) : Pat Cell :=
  match fetched.2 with
  | none => fetched.1
  | some k =>
    { fetched.1 with pmts := fetched.1.pmts.modify k fun pmt => { pmt with pn := pn, pid := pid } }

/-- The loop of `pat_read`.  Every round reads bytes that lie further back, so
the length of the data is enough fuel. -/
def patReadPrograms (realloc : Bool) (data : List UInt8) (bound : Nat) :
    (fuel i : Nat) → Pat Cell → Except Fault (Pat Cell)
  | 0, _, _ => .error .fuel
  | fuel + 1, i, pat =>
    if i + 4 ≤ bound then do
      let pn ← fieldAt data i 0xFF
      let pid ← fieldAt data (i + 2) 0x1F
      if pn = 0 then patReadPrograms realloc data bound fuel (i + 4) pat
      else
        let fetched ← patFetch realloc pat pid
        patReadPrograms realloc data bound fuel (i + 4) (patStore fetched pn pid)
    else .ok pat

/-- The table that the fixed part of the section leaves. -/
def patHeading (pat : Pat Cell) (tsid ver : Nat) : Pat Cell :=
  { pat with
    tsid := tsid
    ver := ver
    pmts := { pat.pmts with count := if pat.ver ≠ ver then 0 else pat.pmts.count } }

/-- `pat_read`; it returns 0. -/
def patRead (realloc : Bool) (pat : Pat Cell) (data : List UInt8) : Except Fault (Pat Cell) := do
  let tableId ← byteAt data 0
  let flags ← byteAt data 1
  let sectionLength ← fieldAt data 1 0x0F
  let transportStreamId ← fieldAt data 3 0xFF
  let version ← byteAt data 5
  check (tableId = patTidPas)
  check (syntaxIndicator flags = 1)
  check (data.length ≥ sectionLength + 3)
  patReadPrograms realloc data ((sectionLength + 8 + 2 ^ 32 - 5 - 4) % 2 ^ 32) (data.length + 1) 8
    (patHeading pat transportStreamId (versionOf version))

/-! ## Descriptors -/

def opusDefaultExtradata : List UInt8 :=
  [0x4F, 0x70, 0x75, 0x73, 0x48, 0x65, 0x61, 0x64, 1, 0, 0, 0, 0, 0, 0, 0, 0, 0, 0, 0,
    0, 0, 0, 0, 0, 0, 0, 0, 0, 0]

def opusCoupledStreamCnt : List UInt8 := [1, 0, 1, 1, 2, 2, 2, 3, 3]

def opusStreamCnt : List UInt8 := [1, 1, 1, 2, 2, 3, 4, 4, 5]

def opusChannelMap : List (List UInt8) :=
  [[0, 0, 0, 0, 0, 0, 0, 0], [0, 1, 0, 0, 0, 0, 0, 0], [0, 2, 1, 0, 0, 0, 0, 0],
    [0, 1, 2, 3, 0, 0, 0, 0], [0, 4, 1, 2, 3, 0, 0, 0], [0, 4, 1, 2, 3, 5, 0, 0],
    [0, 4, 1, 2, 3, 5, 6, 0], [0, 6, 1, 2, 3, 4, 5, 7]]

/-- An entry of one of the tables above. -/
def entryOf {Entry : Type} (table : List Entry) (index : Nat) : Except Fault Entry :=
  (table[index]?).elim (.error .outside) .ok

def opusExtradata (channels : UInt8) : Except Fault (List UInt8) := do
  let count := if channels = 0 then 2 else channels
  let streams ← entryOf opusStreamCnt channels.toNat
  let coupled ← entryOf opusCoupledStreamCnt channels.toNat
  let places ← entryOf opusChannelMap (count.toNat - 1)
  let family : UInt8 := if channels = 0 then 255 else if channels > 2 then 1 else 0
  return opusDefaultExtradata.take 9 ++ [count] ++ (opusDefaultExtradata.drop 10).take 8 ++
    [family, streams, coupled] ++ places.take count.toNat ++
    opusDefaultExtradata.drop (21 + count.toNat)

theorem opusExtradata_eq {channels : UInt8} (few : channels.toNat ≤ 8) :
    ∃ extradata, opusExtradata channels = .ok extradata := by
  have checked : ∀ count < 9, (opusExtradata (UInt8.ofNat count)).toOption.isSome = true := by
    decide
  have found := checked channels.toNat (Nat.lt_succ_of_le few)
  rw [UInt8.ofNat_toNat] at found
  cases read : opusExtradata channels with
  | error fault =>
    rw [read] at found
    exact absurd found nofun
  | ok extradata => exact ⟨extradata, rfl⟩

/-- Compares byte after byte, and reads none behind the first that differs. -/
def spells (data : List UInt8) : Nat → List UInt8 → Except Fault Bool
  | _, [] => .ok true
  | i, letter :: letters => do
      let byte ← byteAt data i
      if byte = letter then spells data (i + 1) letters else return false

/-- The registration descriptor at `i`. -/
def readRegistration (data : List UInt8) (i : Nat) (stream : Pes Cell) :
    Except Fault (Pes Cell) := do
  let opus ← spells data (i + 2) [0x4F, 0x70, 0x75, 0x73]
  if opus then
    check (stream.codecid = psiStreamPrivateData)
    return { stream with codecid := psiStreamAudioOpus }
  else return stream

/-- The extension descriptor at `i`. -/
def readExtension (calloc : Bool) (data : List UInt8) (i : Nat) (stream : Pes Cell) :
    Except Fault (Pes Cell) := do
  if stream.codecid = psiStreamAudioOpus then
    let tag ← byteAt data (i + 2)
    if tag = 0x80 then
      let channels ← byteAt data (i + 3)
      if calloc then
        let esinfo ← opusExtradata channels
        return { stream with esinfo := some esinfo, esinfoLen := 30 }
      else return { stream with esinfo := none }
    else return stream
  else return stream

def readDescriptor (calloc : Bool) (data : List UInt8) (i : Nat) (tag : UInt8)
    (stream : Pes Cell) : Except Fault (Pes Cell) :=
  if tag = 0x05 then readRegistration data i stream
  else if tag = 0x7f then readExtension calloc data i stream
  else .ok stream

/-- `pmt_read_descriptor`, whose result the caller ignores. -/
def pmtReadDescriptor (calloc : Bool) (data : List UInt8) :
    (fuel i bytes : Nat) → Pes Cell → Except Fault (Pes Cell)
  | 0, _, _, _ => .error .fuel
  | fuel + 1, i, bytes, stream =>
    if bytes > 2 then do
      let tag ← byteAt data i
      let len ← byteAt data (i + 1)
      if len.toNat + 2 > bytes then return stream
      else
        let stream ← readDescriptor calloc data i tag stream
        pmtReadDescriptor calloc data fuel (i + len.toNat + 2) (bytes - (len.toNat + 2)) stream
    else do
      check (bytes = 0)
      return stream

/-! ## The program map -/

def pmtFetch (pmt : Pmt Cell) (pid : Nat) : Except Fault (Pmt Cell × Nat) :=
  match pmt.streams.find fun stream => decide (stream.pid = pid) with
  | some j => .ok (pmt, j)
  | none =>
    if pmt.streams.count ≥ streamsCapacity then .error .assertion
    else .ok ({ pmt with streams := { pmt.streams with count := pmt.streams.count + 1 } },
      pmt.streams.count)

def pmtEntryStream (stream : Pes Cell) (pn pid : Nat) (codecid : UInt8) : Pes Cell :=
  { stream with pn := pn, pid := pid, codecid := codecid, esinfoLen := 0 }

def pmtStore (pmt : Pmt Cell) (j : Nat) (stream : Pes Cell) : Pmt Cell :=
  { pmt with streams := pmt.streams.set j stream }

/-- The descriptors of the entry at `i`. -/
def pmtReadInfo (calloc : Bool) (data : List UInt8) (i len : Nat) (stream : Pes Cell) :
    Except Fault (Pes Cell) :=
  if len > 2 then pmtReadDescriptor calloc data (len + 1) (i + 5) len stream else .ok stream

def pmtReadStreams (calloc : Bool) (data : List UInt8) (bound : Nat) :
    (fuel i : Nat) → Pmt Cell → Except Fault (Pmt Cell)
  | 0, _, _ => .error .fuel
  | fuel + 1, i, pmt =>
    if i + 5 ≤ bound then do
      let pid ← fieldAt data (i + 1) 0x1F
      let len ← fieldAt data (i + 3) 0x0F
      if i + len + 5 > bound then return pmt
      else
        check (pmt.streams.count ≤ streamsCapacity)
        let fetched ← pmtFetch pmt pid
        let codecid ← byteAt data i
        let stream ← pmtReadInfo calloc data i len
          (pmtEntryStream (fetched.1.streams.slots fetched.2) (pmt.pn % 2 ^ 16) pid codecid)
        pmtReadStreams calloc data bound fuel (i + len + 5) (pmtStore fetched.1 fetched.2 stream)
    else .ok pmt

/-- The program that the fixed part of the section leaves. -/
def pmtHeading (pmt : Pmt Cell) (pn ver pcrPid pminfoLen : Nat) : Pmt Cell :=
  { pmt with
    pn := pn
    ver := ver
    pcrPid := pcrPid
    pminfoLen := pminfoLen
    streams := { pmt.streams with count := if pmt.ver ≠ ver then 0 else pmt.streams.count } }

/-- `pmt_read`; it returns 0. -/
def pmtRead (calloc : Bool) (pmt : Pmt Cell) (data : List UInt8) : Except Fault (Pmt Cell) := do
  let tableId ← byteAt data 0
  let flags ← byteAt data 1
  let sectionLength ← fieldAt data 1 0x0F
  let programNumber ← fieldAt data 3 0xFF
  let version ← byteAt data 5
  let sectorNumber ← byteAt data 6
  let lastSectorNumber ← byteAt data 7
  let pcrPid ← fieldAt data 8 0x1F
  let programInfoLength ← fieldAt data 10 0x0F
  check (tableId = patTidPms)
  check (syntaxIndicator flags = 1)
  check (sectorNumber = 0)
  check (lastSectorNumber = 0)
  check (data.length ≥ sectionLength + 3)
  pmtReadStreams calloc data (sectionEnd sectionLength) (data.length + 1)
    (12 + programInfoLength)
    (pmtHeading pmt programNumber (versionOf version) pcrPid programInfoLength)

end CLibs.MpegTs
