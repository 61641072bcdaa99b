import CLibs.TsPesPackets
import CLibs.TsSections

/-!
# The transport stream muxer

Model of `mpeg-ts-enc.c`.  The context carries the packets that were handed to
`func.write`, in order.  What the callbacks and the allocator answer is a
parameter of each call.  `pcr_period` and `pcr_clock` are left out: they are
written and never read.
-/

namespace CLibs.MpegTs

def enoent : Int := 2
def enomem : Int := 12

def patInterval : Int := 400 * 90

/-- `PCR_PID` of a program that has no clock yet. -/
def pcrPidUnset : Nat := 0x1FFF

/-- The muxer, with the packets that it has handed out. -/
structure EncContext where
  pat : Pat UInt8
  h264H265WithAud : Bool
  patPeriod : Int
  pid : Nat
  output : List (List UInt8)

/-- What the callbacks answer when so many packets have been handed over. -/
structure Func where
  alloc : Nat → Bool
  write : Nat → Int

/-- Whether the allocator has memory during a call. -/
structure Heap where
  malloc : Bool
  realloc : Bool

/-- How a call ends, and the context it leaves. -/
structure Outcome where
  result : Except Fault Int
  state : EncContext

/-- Goes on when what came before returned 0. -/
def Outcome.andThen (outcome : Outcome) (next : EncContext → Outcome) : Outcome :=
  if outcome.result.toOption = some 0 then next outcome.state else outcome

namespace EncContext

def stream (ts : EncContext) (i j : Nat) : Pes UInt8 := (ts.pat.pmts.slots i).streams.slots j

def modifyPmt (ts : EncContext) (i : Nat) (change : Pmt UInt8 → Pmt UInt8) : EncContext :=
  { ts with pat := { ts.pat with pmts := ts.pat.pmts.modify i change } }

def modifyStream (ts : EncContext) (i j : Nat) (change : Pes UInt8 → Pes UInt8) : EncContext :=
  ts.modifyPmt i fun pmt => { pmt with streams := pmt.streams.modify j change }

def emit (ts : EncContext) (packet : List UInt8) : EncContext :=
  { ts with output := ts.output ++ [packet] }

end EncContext

/-- The record that holds a continuity counter. -/
inductive Counter
  | pat
  | pmt (i : Nat)
  | stream (i j : Nat)

def Counter.cc (ts : EncContext) : Counter → Nat
  | .pat => ts.pat.cc
  | .pmt i => (ts.pat.pmts.slots i).cc
  | .stream i j => (ts.stream i j).cc

def Counter.pid (ts : EncContext) : Counter → Nat
  | .pat => 0x00
  | .pmt i => (ts.pat.pmts.slots i).pid
  | .stream i j => (ts.stream i j).pid

def Counter.advance (ts : EncContext) : Counter → EncContext
  | .pat => { ts with pat := { ts.pat with cc := (ts.pat.cc + 1) % 16 } }
  | .pmt i => ts.modifyPmt i fun pmt => { pmt with cc := (pmt.cc + 1) % 16 }
  | .stream i j => ts.modifyStream i j fun stream => { stream with cc := (stream.cc + 1) % 16 }

def EncContext.send (counter : Counter) (ts : EncContext) (packet : List UInt8) : EncContext :=
  (counter.advance ts).emit packet

/-! ## Writing -/

def mpegTsWriteSectionHeader (func : Func) (counter : Counter) (payload : List UInt8)
    (ts : EncContext) : Outcome :=
  if func.alloc ts.output.length then
    match tsSectionPacket (counter.pid ts) (counter.cc ts) payload with
    | .error fault => ⟨.error fault, ts⟩
    | .ok packet => ⟨.ok (func.write ts.output.length), ts.send counter packet⟩
  else ⟨.ok enomem, ts⟩

/-- The section built by `section`, sent under its counter. -/
def mpegTsWriteSection (func : Func) (counter : Counter) (payload : Except Fault (List UInt8))
    (ts : EncContext) : Outcome :=
  match payload with
  | .error fault => ⟨.error fault, ts⟩
  | .ok payload => mpegTsWriteSectionHeader func counter payload ts

def mpegTsWritePmts (func : Func) : List Nat → EncContext → Outcome
  | [], ts => ⟨.ok 0, ts⟩
  | i :: rest, ts =>
    (mpegTsWriteSection func (.pmt i) (pmtWrite (ts.pat.pmts.slots i)) ts).andThen
      (mpegTsWritePmts func rest)

/-- `ts_write_pes`, for stream `j` of program `i`.  Every round sends at least
one byte, so the length of the payload is enough fuel. -/
def tsWritePes (func : Func) (i j : Nat) :
    (fuel : Nat) → (start : Bool) → (payload : List UInt8) → EncContext → Outcome
  | 0, _, payload, ts => ⟨if payload = [] then .ok 0 else .error .fuel, ts⟩
  | fuel + 1, start, payload, ts =>
    if payload = [] then ⟨.ok 0, ts⟩
    else if func.alloc ts.output.length then
      match tsWritePesPacket (ts.pat.pmts.slots i).pcrPid (ts.stream i j) ts.h264H265WithAud
          start payload with
      | .error fault => ⟨.error fault, (Counter.stream i j).advance ts⟩
      | .ok (packet, len) =>
        Outcome.andThen ⟨.ok (func.write ts.output.length), ts.send (.stream i j) packet⟩
          (tsWritePes func i j fuel false (payload.drop len))
    else ⟨.ok enomem, ts⟩

/-- `mpeg_ts_find`: the program and the stream with this pid. -/
def mpegTsFind (ts : EncContext) (pid : Int) : Option (Nat × Nat) :=
  (List.range ts.pat.pmts.count).findSome? fun i =>
    ((ts.pat.pmts.slots i).streams.find fun stream => decide (pid = stream.pid)).map fun j => (i, j)

def takesClock (pmt : Pmt UInt8) (stream : Pes UInt8) : Bool :=
  decide (pmt.pcrPid = pcrPidUnset ∨
    (stream.sid &&& pesSidVideo = pesSidVideo ∧ pmt.pcrPid ≠ stream.pid))

def writtenStream (flags pts dts : Int) (stream : Pes UInt8) : Pes UInt8 :=
  { stream with
    pts := pts
    dts := dts
    dataAlignmentIndicator := decide (bits flags 0 1 = 1) }

/-- Whether the caller says that the unit has its delimiter. -/
def withAudFlag (flags : Int) : Bool := decide (bits flags 15 1 = 1)

def mpegTsSetClock (i j : Nat) (ts : EncContext) : EncContext :=
  if takesClock (ts.pat.pmts.slots i) (ts.stream i j) then
    { ts.modifyPmt i fun pmt => { pmt with pcrPid := (ts.stream i j).pid } with patPeriod := 0 }
  else ts

/-- What `mpeg_ts_write` records before it writes. -/
def mpegTsPrepare (i j : Nat) (flags pts dts : Int) (ts : EncContext) : EncContext :=
  let ts := ts.modifyStream i j (writtenStream flags pts dts)
  mpegTsSetClock i j { ts with h264H265WithAud := withAudFlag flags }

/-- The tables, when `mpeg_ts_write` has to repeat them. -/
def mpegTsWriteTables (func : Func) (dts : Int) (ts : EncContext) : Outcome :=
  if ts.patPeriod = 0 ∨ int64 (ts.patPeriod + patInterval) ≤ dts then
    let ts := { ts with patPeriod := dts }
    (mpegTsWriteSection func .pat (patWrite ts.pat) ts).andThen
      (mpegTsWritePmts func (List.range ts.pat.pmts.count))
  else ⟨.ok 0, ts⟩

def mpegTsWrite (func : Func) (pid flags pts dts : Int) (data : List UInt8) (ts : EncContext) :
    Outcome :=
  match mpegTsFind ts pid with
  | none => ⟨.ok (-enoent), ts⟩
  | some (i, j) =>
    (mpegTsWriteTables func dts (mpegTsPrepare i j flags pts dts ts)).andThen
      (tsWritePes func i j data.length true data)

/-! ## Programs and streams -/

def mpegTsReset (ts : EncContext) : EncContext := { ts with patPeriod := 0 }

def mpegTsCreate : EncContext where
  pat := { Pat.zero UInt8 with tsid := 1 }
  h264H265WithAud := false
  patPeriod := 0
  pid := 0x100
  output := []

def EncContext.nextPid (ts : EncContext) : EncContext := { ts with pid := (ts.pid + 1) % 2 ^ 16 }

def copyOf (data : Option (List UInt8)) (bytes : Nat) : Except Fault (Option (List UInt8)) :=
  match data with
  | none => .ok none
  | some held =>
    if bytes = 0 then .ok none
    else if bytes ≤ held.length then .ok (some (held.take bytes))
    else .error .outside

/-- `mpeg_ts_add_program` once the entry behind the last one is allocated. -/
def mpegTsFillProgram (heap : Heap) (pn : Nat) (info : Option (List UInt8)) (bytes : Int)
    (ts : EncContext) : Outcome :=
  let i := ts.pat.pmts.count
  let pid := ts.pid
  let ts := (ts.modifyPmt i fun pmt =>
    { pmt with pid := pid, pn := pn, ver := 0x00, cc := 0, pcrPid := pcrPidUnset }).nextPid
  match copyOf info bytes.toNat with
  | .error fault => ⟨.error fault, ts⟩
  | .ok pminfo =>
    if pminfo.isSome ∧ !heap.malloc then ⟨.ok (-1), ts⟩
    else
      let ts := ts.modifyPmt i fun pmt =>
        { pmt with pminfo := pminfo, pminfoLen := (pminfo.getD []).length }
      let pmts := { ts.pat.pmts with count := ts.pat.pmts.count + 1 }
      ⟨.ok 0, mpegTsReset { ts with pat := { ts.pat with pmts := pmts } }⟩

def mpegTsAddProgram (heap : Heap) (pn : Nat) (info : Option (List UInt8)) (bytes : Int)
    (ts : EncContext) : Outcome :=
  if pn < 1 ∨ bytes < 0 ∨ bytes ≥ 2 ^ 12 then ⟨.ok (-1), ts⟩
  else if (ts.pat.pmts.find fun pmt => decide (pmt.pn = pn)).isSome then ⟨.ok (-1), ts⟩
  else
    match patAllocPmt heap.realloc ts.pat with
    | .error fault => ⟨.error fault, ts⟩
    | .ok none => ⟨.ok (-1), ts⟩
    | .ok (some pat) => mpegTsFillProgram heap pn info bytes { ts with pat := pat }

def mpegTsRemoveProgram (pn : Nat) (ts : EncContext) : Outcome :=
  match ts.pat.pmts.find fun pmt => decide (pmt.pn = pn) with
  | none => ⟨.ok (-1), ts⟩
  | some i =>
    ⟨.ok 0, mpegTsReset { ts with pat := { ts.pat with pmts := ts.pat.pmts.removeAt i } }⟩

def streamIdOf (codecid : Int) : UInt8 :=
  if mpegStreamTypeVideo codecid then pesSidVideo
  else if mpegStreamTypeAudio codecid then pesSidAudio
  else pesSidPrivate1

def mpegTsPmtAddStream (heap : Heap) (i : Nat) (codecid : Int)
    (extraData : Option (List UInt8)) (extraDataSize : Nat) (ts : EncContext) : Outcome :=
  if (ts.pat.pmts.slots i).streams.count ≥ streamsCapacity then ⟨.error .assertion, ts⟩
  else
    let pid := ts.pid
    let j := (ts.pat.pmts.slots i).streams.count
    let ts := (ts.modifyStream i j fun stream =>
      { stream with
        codecid := UInt8.ofNat (codecid % 256).toNat
        pid := pid
        esinfoLen := 0
        esinfo := none
        sid := streamIdOf codecid }).nextPid
    match copyOf extraData extraDataSize with
    | .error fault => ⟨.error fault, ts⟩
    | .ok esinfo =>
      if esinfo.isSome ∧ !heap.malloc then ⟨.ok (-enomem), ts⟩
      else
        let ts := ts.modifyStream i j fun stream =>
          { stream with esinfo := esinfo, esinfoLen := (esinfo.getD []).length % 2 ^ 16 }
        ⟨.ok pid, mpegTsReset (ts.modifyPmt i fun pmt =>
          { pmt with
            streams := { pmt.streams with count := pmt.streams.count + 1 }
            ver := (pmt.ver + 1) % 32 })⟩

def mpegTsAddStream (heap : Heap) (codecid : Int) (extraData : Option (List UInt8))
    (extraDataSize : Nat) (ts : EncContext) : Outcome :=
  if ts.pat.pmts.count = 0 then
    let added := mpegTsAddProgram heap 1 none 0 ts
    added.andThen (mpegTsPmtAddStream heap 0 codecid extraData extraDataSize)
  else mpegTsPmtAddStream heap 0 codecid extraData extraDataSize ts

def mpegTsAddProgramStream (heap : Heap) (pn : Nat) (codecid : Int)
    (extraData : Option (List UInt8)) (extraDataSize : Nat) (ts : EncContext) : Outcome :=
  match ts.pat.pmts.find fun pmt => decide (pmt.pn = pn) with
  | none => ⟨.ok (-1), ts⟩
  | some i => mpegTsPmtAddStream heap i codecid extraData extraDataSize ts

/-- The calls of the interface. -/
inductive Call
  | addProgram (heap : Heap) (pn : Nat) (info : Option (List UInt8)) (bytes : Int)
  | addStream (heap : Heap) (codecid : Int) (extraData : Option (List UInt8))
      (extraDataSize : Nat)
  | addProgramStream (heap : Heap) (pn : Nat) (codecid : Int) (extraData : Option (List UInt8))
      (extraDataSize : Nat)
  | removeProgram (pn : Nat)
  | reset
  | write (func : Func) (pid flags pts dts : Int) (data : List UInt8)

def Call.run : Call → EncContext → Outcome
  | .addProgram heap pn info bytes => mpegTsAddProgram heap pn info bytes
  | .addStream heap codecid extraData extraDataSize =>
    mpegTsAddStream heap codecid extraData extraDataSize
  | .addProgramStream heap pn codecid extraData extraDataSize =>
    mpegTsAddProgramStream heap pn codecid extraData extraDataSize
  | .removeProgram pn => mpegTsRemoveProgram pn
  | .reset => fun ts => ⟨.ok 0, mpegTsReset ts⟩
  | .write func pid flags pts dts data => mpegTsWrite func pid flags pts dts data

end CLibs.MpegTs
