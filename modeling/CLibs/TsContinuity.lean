import CLibs.GuardedRuns
import CLibs.TsMuxerOutput

/-!
# Layout of what one write hands over

`mpeg_ts_write` repeats the tables when they are due and then hands over the
packets of the unit.  Every packet fills its 188 bytes and keeps its adaptation
field inside them; what the packets of the unit carry, put together, is the PES
header, the delimiter and the payload.
-/

namespace CLibs.MpegTs

open List

variable {ts : EncContext}

theorem mpegTsFind_live {pid : Int} {i j : Nat} (found : mpegTsFind ts pid = some (i, j)) :
    (Counter.stream i j).Live ts ∧ pid = (ts.stream i j).pid := by
  obtain ⟨k, member, located⟩ := exists_of_findSome?_eq_some found
  obtain ⟨l, stream, same⟩ := Option.map_eq_some_iff.mp located
  obtain ⟨rfl, rfl⟩ := Prod.mk.inj same
  obtain ⟨inside, matching⟩ := SlotArray.find_some stream
  exact ⟨⟨mem_range.mp member, inside⟩, of_decide_eq_true matching⟩

theorem setClock_slots (ts : EncContext) (i j k : Nat) :
    ∃ pcrPid, (mpegTsSetClock i j ts).pat.pmts.slots k =
      { ts.pat.pmts.slots k with pcrPid := pcrPid } := by
  unfold mpegTsSetClock
  split
  · simp only [modifyPmt_slots]
    split
    · exact ⟨_, rfl⟩
    · exact ⟨_, rfl⟩
  · exact ⟨_, rfl⟩

section Prepared

variable (ts : EncContext) (i j : Nat) (flags pts dts : Int)

theorem setClock_keeps :
    (mpegTsSetClock i j ts).output = ts.output ∧
      (mpegTsSetClock i j ts).h264H265WithAud = ts.h264H265WithAud ∧
      (mpegTsSetClock i j ts).pat.pmts.count = ts.pat.pmts.count ∧
      (mpegTsSetClock i j ts).pid = ts.pid ∧ (mpegTsSetClock i j ts).pat.cc = ts.pat.cc := by
  unfold mpegTsSetClock
  split
  · exact ⟨rfl, rfl, rfl, rfl, rfl⟩
  · exact ⟨rfl, rfl, rfl, rfl, rfl⟩

theorem setClock_stream (k l : Nat) : (mpegTsSetClock i j ts).stream k l = ts.stream k l := by
  obtain ⟨pcrPid, same⟩ := setClock_slots ts i j k
  simp only [EncContext.stream, same]

theorem prepare_output : (mpegTsPrepare i j flags pts dts ts).output = ts.output :=
  (setClock_keeps _ i j).1

theorem prepare_withAud :
    (mpegTsPrepare i j flags pts dts ts).h264H265WithAud = withAudFlag flags :=
  (setClock_keeps _ i j).2.1

theorem prepare_stream (k l : Nat) :
    (mpegTsPrepare i j flags pts dts ts).stream k l =
      if k = i ∧ l = j then writtenStream flags pts dts (ts.stream k l) else ts.stream k l := by
  unfold mpegTsPrepare
  rw [setClock_stream]
  exact modifyStream_stream ts i j _ k l

theorem prepare_live (counter : Counter) :
    counter.Live (mpegTsPrepare i j flags pts dts ts) ↔ counter.Live ts := by
  have count : (mpegTsPrepare i j flags pts dts ts).pat.pmts.count = ts.pat.pmts.count :=
    (setClock_keeps _ i j).2.2.1
  cases counter with
  | pat => rfl
  | pmt k => simp only [Counter.Live, count]
  | stream k l =>
    have streams : ((mpegTsPrepare i j flags pts dts ts).pat.pmts.slots k).streams.count =
        (ts.pat.pmts.slots k).streams.count := by
      unfold mpegTsPrepare
      obtain ⟨pcrPid, same⟩ := setClock_slots
        { ts.modifyStream i j (writtenStream flags pts dts) with
          h264H265WithAud := withAudFlag flags } i j k
      rw [same]
      simp only [modifyStream_slots]
      split <;> rfl
    simp only [Counter.Live, count, streams]

end Prepared

theorem Sent.stream_eq {last : EncContext} {packets : List (List UInt8)}
    (sent : Sent ts packets last) (i j : Nat) :
    last.h264H265WithAud = ts.h264H265WithAud ∧
      ∃ cc, last.stream i j = { ts.stream i j with cc := cc } := by
  induction sent with
  | nil ts => exact ⟨rfl, _, rfl⟩
  | @cons ts last counter start field body packets live size rest ih =>
    obtain ⟨flag, cc, same⟩ := ih
    obtain ⟨counted, streams, slot, -, each⟩ := advance_slots ts counter i
    obtain ⟨count, record⟩ := each j
    refine ⟨flag.trans ?_, cc, ?_⟩
    · cases counter <;> rfl
    · rw [same]
      simp only [EncContext.send, EncContext.emit, EncContext.stream]
      rw [slot, record]

variable {data : List UInt8}

theorem tsWritePes_forbidden (func : Func) (i j : Nat) (nonempty : data ≠ [])
    (forbidden : ¬TimestampsAllowed (ts.stream i j)) :
    (tsWritePes func i j data.length true data ts).state.output = ts.output ∧
      (tsWritePes func i j data.length true data ts).result ≠ .ok 0 ∧
      ∀ fault, (tsWritePes func i j data.length true data ts).result = .error fault →
        fault = .assertion := by
  obtain ⟨fuel, length⟩ := Nat.exists_eq_succ_of_ne_zero
    (fun none => nonempty (eq_nil_of_length_eq_zero none))
  rw [length]
  unfold tsWritePes
  rw [if_neg nonempty, tsWritePesPacket_error _ _ forbidden]
  split
  · refine ⟨advance_output ts _, ?_, fun fault same => ?_⟩
    · intro same
      cases same
    · exact (Except.error.inj same).symm
  · refine ⟨rfl, ?_, fun fault same => ?_⟩
    · intro same
      cases same
    · cases same

/-- What `ts_write_pes` hands over for a unit with these contents. -/
structure UnitOutput (func : Func) (ts : EncContext) (stream : Pes UInt8) (content : List UInt8)
    (outcome : Outcome) (unit : List (List UInt8)) : Prop where
  output : outcome.state.output = ts.output ++ unit
  wellFormed : ∀ packet ∈ unit, WellFormedPacket packet
  starts : unit.map startFlag = (true :: List.replicate unit.length false).take unit.length
  bodies : unit.flatMap packetBody <+: content
  whole : outcome.result = .ok 0 → unit.flatMap packetBody = content
  faults : ∀ fault, outcome.result = .error fault →
    fault = .assertion ∧ ¬TimestampsAllowed stream
  returns : TimestampsAllowed stream →
    (∀ sent, func.alloc sent = true ∧ func.write sent = 0) → outcome.result = .ok 0

theorem tsWritePes_output (func : Func) (i j : Nat) (nonempty : data ≠ [])
    (live : (Counter.stream i j).Live ts) :
    ∃ unit, UnitOutput func ts (ts.stream i j)
      (unitHeader (ts.stream i j) ts.h264H265WithAud data.length ++ data)
      (tsWritePes func i j data.length true data ts) unit := by
  by_cases allowed : TimestampsAllowed (ts.stream i j)
  · obtain ⟨code, unit, rest, result, sent, carried, ends, works⟩ :=
      tsWritePes_unit func i j data.length true data ts (Nat.le_refl _) (fun _ => allowed) live
    refine ⟨unit, sent.output, sent.wellFormed, carried.starts, ?_, ?_, ?_, ?_⟩
    · cases unit with
      | nil => exact nil_prefix
      | cons packet packets =>
        have together := carried.bodies (.inl (cons_ne_nil _ _))
        exact ⟨rest, together⟩
    · intro zero
      have done := ends (Except.ok.inj (result.symm.trans zero))
      subst done
      cases carried with
      | nil cc start front payload => exact absurd rfl nonempty
      | cons some fits size more =>
        have together := (UnitPackets.cons some fits size more).bodies
          (.inl (cons_ne_nil _ _))
        rw [append_nil] at together
        exact together
    · intro fault failed
      exact nomatch result.symm.trans failed
    · intro _ succeed
      rw [result, works succeed]
  · obtain ⟨output, unfinished, assertion⟩ := tsWritePes_forbidden func i j nonempty allowed
    refine ⟨[], ?_, ?_, rfl, nil_prefix, ?_, ?_, ?_⟩
    · rw [output, append_nil]
    · exact fun packet member => nomatch member
    · exact fun zero => absurd zero unfinished
    · exact fun fault failed => ⟨assertion fault failed, allowed⟩
    · exact fun forbidden => absurd forbidden allowed

theorem packet_faults {Cell : Type} :
    (∀ (pid cc : Nat) (payload : List UInt8) (fault : Fault),
      tsSectionPacket pid cc payload = .error fault → fault = .assertion) ∧
    ∀ (pcrPid : Nat) (stream : Pes Cell) (withAud start : Bool) (payload : List UInt8)
      (fault : Fault), payload ≠ [] →
      tsWritePesPacket pcrPid stream withAud start payload = .error fault →
        fault = .assertion := by
  constructor
  · intro pid cc payload fault failed
    by_cases fits : payload.length < tsPacketSize - 5
    · rw [tsSectionPacket_eq pid cc fits] at failed
      cases failed
    · rw [tsSectionPacket_error pid cc fits] at failed
      exact (Except.error.inj failed).symm
  · intro pcrPid stream withAud start payload fault nonempty failed
    by_cases allowed : start = true → TimestampsAllowed stream
    · obtain ⟨result, returned, -⟩ := tsWritePesPacket_yields pcrPid withAud start allowed nonempty
      cases returned.symm.trans failed
    · obtain ⟨rfl, forbidden⟩ := Classical.not_imp.mp allowed
      rw [tsWritePesPacket_error pcrPid withAud forbidden] at failed
      exact (Except.error.inj failed).symm

/-- What one `mpeg_ts_write` to a stream hands to `func.write`: the packets
`psi` of the tables, if they are due, and then the packets `unit` that carry the
unit. -/
structure WriteLayout (func : Func) (ts : EncContext) (stream : Pes UInt8) (content : List UInt8)
    (tables outcome : Outcome) (psi unit : List (List UInt8)) : Prop where
  tablesOutput : tables.state.output = ts.output ++ psi
  output : outcome.state.output = ts.output ++ psi ++ unit
  wellFormed : ∀ packet ∈ psi ++ unit, WellFormedPacket packet
  starts : unit.map startFlag = (true :: List.replicate unit.length false).take unit.length
  bodies : unit.flatMap packetBody <+: content
  whole : outcome.result = .ok 0 → unit.flatMap packetBody = content
  faults : ∀ fault, outcome.result = .error fault →
    tables.result = .error fault ∨ fault = .assertion ∧ ¬TimestampsAllowed stream
  returns : tables.result = .ok 0 → TimestampsAllowed stream →
    (∀ sent, func.alloc sent = true ∧ func.write sent = 0) → outcome.result = .ok 0

theorem writeLayout_of_found (func : Func) {pid : Int} (flags pts dts : Int) (nonempty : data ≠ [])
    {i j : Nat} (found : mpegTsFind ts pid = some (i, j)) :
    let stream := writtenStream flags pts dts (ts.stream i j)
    ∃ psi unit, WriteLayout func ts stream
      (unitHeader stream (withAudFlag flags) data.length ++ data)
      (mpegTsWriteTables func dts (mpegTsPrepare i j flags pts dts ts))
      (mpegTsWrite func pid flags pts dts data ts) psi unit := by
  intro stream
  let tables := mpegTsWriteTables func dts (mpegTsPrepare i j flags pts dts ts)
  obtain ⟨patPeriod, psi, sent⟩ := mpegTsWriteTables_sends func dts
    (mpegTsPrepare i j flags pts dts ts)
  have psiOutput : tables.state.output = ts.output ++ psi := by
    rw [← prepare_output ts i j flags pts dts]
    exact sent.output
  have run : mpegTsWrite func pid flags pts dts data ts =
      tables.andThen (tsWritePes func i j data.length true data) := by
    simp only [mpegTsWrite, found, tables]
  have live : (Counter.stream i j).Live tables.state :=
    (sent.live_iff _).mpr ((prepare_live ts i j flags pts dts _).mpr (mpegTsFind_live found).1)
  by_cases written : tables.result.toOption = some 0
  · rw [Outcome.andThen, if_pos written] at run
    obtain ⟨unit, output⟩ := tsWritePes_output func i j nonempty live
    obtain ⟨withAud, cc, record⟩ := sent.stream_eq i j
    replace withAud : tables.state.h264H265WithAud = withAudFlag flags :=
      withAud.trans (prepare_withAud ts i j flags pts dts)
    replace record : tables.state.stream i j = { stream with cc := cc } := by
      have prepared := prepare_stream ts i j flags pts dts i j
      rw [if_pos ⟨rfl, rfl⟩] at prepared
      exact record.trans (congrArg (fun record : Pes UInt8 => { record with cc := cc }) prepared)
    rw [record, withAud, ← run] at output
    refine ⟨psi, unit, psiOutput, ?_, ?_, output.starts, output.bodies, output.whole,
      fun fault failed => .inr (output.faults fault failed), fun _ => output.returns⟩
    · rw [← psiOutput]
      exact output.output
    · exact forall_mem_append.mpr ⟨sent.wellFormed, output.wellFormed⟩
  · rw [Outcome.andThen, if_neg written] at run
    refine ⟨psi, [], psiOutput, ?_, ?_, rfl, nil_prefix, ?_, ?_, ?_⟩
    · rw [run, psiOutput, append_nil]
    · rw [append_nil]
      exact sent.wellFormed
    · intro zero
      rw [run] at zero
      exact absurd (congrArg Except.toOption zero) written
    · intro fault failed
      rw [run] at failed
      exact .inl failed
    · intro zero
      exact absurd (congrArg Except.toOption zero) written

/-- The layout of everything that `mpeg_ts_write` hands to `func.write`, for
any stream, flags, time stamps and payload, and whatever the callbacks answer.
The last two parts say that no byte is stored outside a 188-byte buffer and
none of its bytes is left unwritten. -/
theorem mpegTsWrite_layout (func : Func) (pid flags pts dts : Int) {data : List UInt8}
    (nonempty : data ≠ []) (ts : EncContext) :
    (mpegTsFind ts pid = none →
      (mpegTsWrite func pid flags pts dts data ts).state.output = ts.output) ∧
    (∀ i j, mpegTsFind ts pid = some (i, j) →
      let stream := writtenStream flags pts dts (ts.stream i j)
      ∃ psi unit, WriteLayout func ts stream
        (unitHeader stream (withAudFlag flags) data.length ++ data)
        (mpegTsWriteTables func dts (mpegTsPrepare i j flags pts dts ts))
        (mpegTsWrite func pid flags pts dts data ts) psi unit) ∧
    (∀ (pid cc : Nat) (payload : List UInt8) (fault : Fault),
      tsSectionPacket pid cc payload = .error fault → fault = .assertion) ∧
    ∀ (pcrPid : Nat) (stream : Pes UInt8) (withAud start : Bool) (payload : List UInt8)
      (fault : Fault), payload ≠ [] →
      tsWritePesPacket pcrPid stream withAud start payload = .error fault →
        fault = .assertion := by
  refine ⟨?_, ?_, packet_faults⟩
  · intro missing
    simp only [mpegTsWrite, missing]
  · intro i j found
    exact writeLayout_of_found func flags pts dts nonempty found

/-- A muxer with one AAC stream, written to once. -/
theorem mpegTsWrite_layout_aac :
    let ts := (mpegTsAddStream ⟨true, true⟩ 0x0f none 0 mpegTsCreate).state
    let func : Func := ⟨fun _ => true, fun _ => 0⟩
    let stream := writtenStream 0 90000 90000 (ts.stream 0 0)
    mpegTsFind ts 0x101 = some (0, 0) ∧
    ∃ psi unit, WriteLayout func ts stream
      (unitHeader stream (withAudFlag 0) 3 ++ [1, 2, 3])
      (mpegTsWriteTables func 90000 (mpegTsPrepare 0 0 0 90000 90000 ts))
      (mpegTsWrite func 0x101 0 90000 90000 [1, 2, 3] ts) psi unit := by
  intro ts func stream
  have found : mpegTsFind ts 0x101 = some (0, 0) := by decide
  exact ⟨found, (mpegTsWrite_layout func 0x101 0 90000 90000 (cons_ne_nil 1 [2, 3]) ts).2.1
    0 0 found⟩

end CLibs.MpegTs

/-!
## Continuity counters

Every record in use has a pid of its own and counts the packets sent on it.
The invariant is about the records by name, so that it does not matter where
an array keeps them; a removal only renames the records behind the gap.
-/

namespace CLibs.MpegTs

open List

/-- The counters of the packets of a `PID`, in the order of the output. -/
def countersOn (pid : Nat) (output : List (List UInt8)) : List Nat :=
  (output.filter fun packet => packetPid packet = pid).map packetCc

/-- Each counter is the one before it plus one, modulo 16. -/
def Consecutive (counters : List Nat) : Prop :=
  ∀ index cc next, counters[index]? = some cc → counters[index + 1]? = some next →
    next = (cc + 1) % 16

def CountsUp (counters : List Nat) : Prop :=
  counters = (List.range counters.length).map (· % 16)

theorem CountsUp.consecutive {counters : List Nat} (counts : CountsUp counters) :
    Consecutive counters := by
  intro index cc next here there
  rw [counts] at here there
  simp only [List.getElem?_map, Option.map_eq_some_iff] at here there
  obtain ⟨position, located, rfl⟩ := here
  obtain ⟨behind, following, rfl⟩ := there
  obtain ⟨-, rfl⟩ := List.getElem?_eq_some_iff.mp located
  obtain ⟨-, rfl⟩ := List.getElem?_eq_some_iff.mp following
  simp only [getElem_range]
  omega

theorem CountsUp.append {counters : List Nat} (counts : CountsUp counters) :
    CountsUp (counters ++ [counters.length % 16]) := by
  unfold CountsUp at counts ⊢
  rw [length_append, length_singleton, range_succ, map_append, ← counts]
  rfl

/-- Records and packets agree: the invariant of every reachable context. -/
structure Counted (ts : EncContext) : Prop where
  countsUp : ∀ pid, CountsUp (countersOn pid ts.output)
  current : ∀ counter : Counter, counter.Live ts →
    counter.cc ts = (countersOn (counter.pid ts) ts.output).length % 16
  distinct : ∀ counter other : Counter, counter.Live ts → other.Live ts →
    counter.pid ts = other.pid ts → counter = other
  used : ∀ counter : Counter, counter.Live ts → counter.pid ts < ts.pid
  fresh : ∀ pid, ts.pid ≤ pid → countersOn pid ts.output = []
  bounded : ts.pid < 2 ^ 13

theorem countersOn_append (pid : Nat) (output : List (List UInt8)) (packet : List UInt8) :
    countersOn pid (output ++ [packet]) =
      countersOn pid output ++ if packetPid packet = pid then [packetCc packet] else [] := by
  unfold countersOn
  rw [filter_append, map_append]
  congr 1
  by_cases here : packetPid packet = pid <;> simp [here]

variable {ts : EncContext}

theorem Counted.send (counted : Counted ts) {counter : Counter} (live : counter.Live ts)
    (start : Bool) (field : Option (List UInt8)) (body : List UInt8) :
    Counted (ts.send counter (tsPacket (counter.pid ts) (counter.cc ts) start field body)) := by
  have below := counted.used counter live
  have bounded := counted.bounded
  have onPid : packetPid (tsPacket (counter.pid ts) (counter.cc ts) start field body) =
      counter.pid ts := by
    rw [packetPid_tsPacket]
    exact Nat.mod_eq_of_lt (by omega)
  have counters : ∀ pid, countersOn pid
      (ts.send counter (tsPacket (counter.pid ts) (counter.cc ts) start field body)).output =
        countersOn pid ts.output ++ if counter.pid ts = pid then [counter.cc ts % 16] else [] := by
    intro pid
    simp only [EncContext.send, EncContext.emit, advance_output, countersOn_append, onPid,
      packetCc_tsPacket]
  have pidOf : ∀ other : Counter, other.pid (ts.send counter
      (tsPacket (counter.pid ts) (counter.cc ts) start field body)) = other.pid ts :=
    advance_pid ts counter
  have liveOf : ∀ other : Counter, other.Live (ts.send counter
      (tsPacket (counter.pid ts) (counter.cc ts) start field body)) ↔ other.Live ts :=
    advance_live ts counter
  have nextPid : (ts.send counter
      (tsPacket (counter.pid ts) (counter.cc ts) start field body)).pid = ts.pid :=
    advance_nextPid ts counter
  refine ⟨fun pid => ?_, fun other alive => ?_, fun first second alive also same => ?_,
    fun other alive => ?_, fun pid unused => ?_, ?_⟩
  · rw [counters]
    split
    · rename_i here
      subst here
      rw [counted.current counter live, Nat.mod_mod]
      exact (counted.countsUp _).append
    · rw [append_nil]
      exact counted.countsUp pid
  · rw [pidOf, counters]
    replace alive := (liveOf other).mp alive
    by_cases same : other = counter
    · subst same
      have advanced : other.cc (ts.send other
          (tsPacket (other.pid ts) (other.cc ts) start field body)) = (other.cc ts + 1) % 16 :=
        advance_cc_same ts other
      rw [advanced, if_pos rfl, length_append, length_singleton,
        counted.current other alive]
      omega
    · have elsewhere : counter.pid ts ≠ other.pid ts := fun equal =>
        same (counted.distinct other counter alive live equal.symm)
      rw [if_neg elsewhere, append_nil, ← counted.current other alive]
      exact advance_cc_other ts same
  · rw [pidOf, pidOf] at same
    exact counted.distinct first second ((liveOf first).mp alive) ((liveOf second).mp also) same
  · rw [pidOf, nextPid]
    exact counted.used other ((liveOf other).mp alive)
  · rw [nextPid] at unused
    rw [counters, counted.fresh pid unused, if_neg (by omega)]
    rfl
  · rw [nextPid]
    exact bounded

theorem Counted.sent {last : EncContext} {packets : List (List UInt8)} (counted : Counted ts)
    (sent : Sent ts packets last) : Counted last := by
  induction sent with
  | nil ts => exact counted
  | cons live size rest ih => exact ih (counted.send live _ _ _)

theorem Counted.rename {next : EncContext} (counted : Counted ts) (output : next.output = ts.output)
    (pid : ts.pid ≤ next.pid) (bounded : next.pid < 2 ^ 13) (name : Counter → Counter)
    (injective : ∀ counter other : Counter, name counter = name other → counter = other)
    (live : ∀ counter : Counter, counter.Live next → (name counter).Live ts)
    (record : ∀ counter : Counter, counter.Live next →
      counter.pid next = (name counter).pid ts ∧ counter.cc next = (name counter).cc ts) :
    Counted next := by
  refine ⟨fun pid => ?_, fun counter alive => ?_, fun counter other alive also same => ?_,
    fun counter alive => ?_, fun pid unused => ?_, bounded⟩
  · rw [output]
    exact counted.countsUp pid
  · rw [(record counter alive).1, (record counter alive).2, output]
    exact counted.current _ (live counter alive)
  · rw [(record counter alive).1, (record other also).1] at same
    exact injective _ _ (counted.distinct _ _ (live counter alive) (live other also) same)
  · rw [(record counter alive).1]
    exact Nat.lt_of_lt_of_le (counted.used _ (live counter alive)) pid
  · rw [output]
    exact counted.fresh pid (by omega)

theorem Counted.add {next : EncContext} (counted : Counted ts) (output : next.output = ts.output)
    (pid : next.pid = ts.pid + 1) (bounded : next.pid < 2 ^ 13) (added : Counter)
    (newPid : added.pid next = ts.pid) (newCc : added.cc next = 0)
    (live : ∀ counter : Counter, counter.Live next → counter = added ∨ counter.Live ts)
    (record : ∀ counter : Counter, counter.Live ts →
      counter.pid next = counter.pid ts ∧ counter.cc next = counter.cc ts) :
    Counted next := by
  have unlike : ∀ counter : Counter, counter.Live ts → counter.pid next ≠ ts.pid := by
    intro counter alive
    rw [(record counter alive).1]
    exact Nat.ne_of_lt (counted.used counter alive)
  refine ⟨fun pid => ?_, fun counter alive => ?_, fun counter other alive also same => ?_,
    fun counter alive => ?_, fun pid unused => ?_, bounded⟩
  · rw [output]
    exact counted.countsUp pid
  · rw [output]
    rcases live counter alive with rfl | before
    · rw [newCc, newPid, counted.fresh ts.pid (Nat.le_refl _)]
      rfl
    · rw [(record counter before).1, (record counter before).2]
      exact counted.current counter before
  · rcases live counter alive with rfl | before
    · rcases live other also with rfl | after
      · rfl
      · exact absurd (same.symm.trans newPid) (unlike other after)
    · rcases live other also with rfl | after
      · exact absurd (same.trans newPid) (unlike counter before)
      · rw [(record counter before).1, (record other after).1] at same
        exact counted.distinct counter other before after same
  · rcases live counter alive with rfl | before
    · omega
    · rw [(record counter before).1]
      have below := counted.used counter before
      omega
  · rw [output]
    exact counted.fresh pid (by omega)

end CLibs.MpegTs
