import CLibs.TsContinuityCalls

/-!
# Program tables over runs of the muxer

The sizes of the tables depend on the programs, their descriptions and the streams, which sending
packets leaves alone.  In every context that the calls reach, the sections hold all programs and
streams and fit their packets exactly if the programs fit.
-/

namespace CLibs.MpegTs

open List

/-! ## What the tables depend on -/

/-- What the size of a stream's entry depends on. -/
def Pes.described (stream : Pes UInt8) : UInt8 × Option (List UInt8) × Nat :=
  (stream.codecid, stream.esinfo, stream.esinfoLen)

/-- The two programs have tables of the same size. -/
structure SameProgram (pmt other : Pmt UInt8) : Prop where
  info : other.pminfo = pmt.pminfo
  infoLen : other.pminfoLen = pmt.pminfoLen
  streams : other.streams.live.map Pes.described = pmt.streams.live.map Pes.described

structure SameTables (ts next : EncContext) : Prop where
  count : next.pat.pmts.count = ts.pat.pmts.count
  program : ∀ k, SameProgram (ts.pat.pmts.slots k) (next.pat.pmts.slots k)

theorem SameProgram.refl (pmt : Pmt UInt8) : SameProgram pmt pmt := ⟨rfl, rfl, rfl⟩

theorem SameProgram.trans {first second third : Pmt UInt8} (same : SameProgram first second)
    (then_ : SameProgram second third) : SameProgram first third :=
  ⟨then_.info.trans same.info, then_.infoLen.trans same.infoLen, then_.streams.trans same.streams⟩

theorem SameTables.refl (ts : EncContext) : SameTables ts ts := ⟨rfl, fun _ => .refl _⟩

theorem SameTables.trans {first second third : EncContext} (same : SameTables first second)
    (then_ : SameTables second third) : SameTables first third :=
  ⟨then_.count.trans same.count, fun k => (same.program k).trans (then_.program k)⟩

theorem described_live {streams others : SlotArray (Pes UInt8)} (count : others.count = streams.count)
    (each : ∀ l, (others.slots l).described = (streams.slots l).described) :
    others.live.map Pes.described = streams.live.map Pes.described := by
  unfold SlotArray.live
  rw [map_map, map_map, count]
  apply map_congr_left
  intro l member
  exact each l

theorem advance_sameTables (ts : EncContext) (counter : Counter) :
    SameTables ts (counter.advance ts) := by
  refine ⟨advance_count ts counter, ?_⟩
  intro k
  obtain ⟨cc, streams, slot, count, each⟩ := advance_slots ts counter k
  rw [slot]
  refine ⟨rfl, rfl, described_live count ?_⟩
  intro l
  obtain ⟨cc, record⟩ := each l
  rw [record]
  rfl

theorem send_sameTables (ts : EncContext) (counter : Counter) (packet : List UInt8) :
    SameTables ts (ts.send counter packet) :=
  ⟨(advance_sameTables ts counter).count, (advance_sameTables ts counter).program⟩

variable {ts : EncContext}

theorem Sent.sameTables {last : EncContext} {packets : List (List UInt8)}
    (sent : Sent ts packets last) : SameTables ts last := by
  induction sent with
  | nil ts => exact .refl ts
  | cons live size rest ih => exact (send_sameTables _ _ _).trans ih

theorem Sends.sameTables {last : EncContext} (sends : Sends ts last) : SameTables ts last := by
  obtain ⟨packets, sent⟩ := sends
  exact sent.sameTables

theorem modifyStream_sameTables (ts : EncContext) (i j : Nat) {change : Pes UInt8 → Pes UInt8}
    (keeps : ∀ stream, (change stream).described = stream.described) :
    SameTables ts (ts.modifyStream i j change) := by
  refine ⟨rfl, ?_⟩
  intro k
  rw [modifyStream_slots]
  split
  · refine ⟨rfl, rfl, described_live rfl ?_⟩
    intro l
    rw [SlotArray.modify_slots]
    split
    · exact keeps _
    · rfl
  · exact .refl _

theorem prepare_sameTables (ts : EncContext) (i j : Nat) (flags pts dts : Int) :
    SameTables ts (mpegTsPrepare i j flags pts dts ts) := by
  have stream : SameTables ts (ts.modifyStream i j (writtenStream flags pts dts)) :=
    modifyStream_sameTables ts i j fun _ => rfl
  refine ⟨(setClock_keeps _ i j).2.2.1, ?_⟩
  intro k
  apply (stream.program k).trans
  obtain ⟨pcrPid, slot⟩ := setClock_slots
    { ts.modifyStream i j (writtenStream flags pts dts) with
      h264H265WithAud := withAudFlag flags } i j k
  unfold mpegTsPrepare
  rw [slot]
  exact ⟨rfl, rfl, rfl⟩

/-! ## Sizes that are kept -/

theorem entrySize_eq (stream : Pes UInt8) :
    entrySize stream = if stream.described.1 = psiStreamAudioOpus then 15 else 5 := rfl

theorem StreamsFit.of_described {streams others : List (Pes UInt8)} {p : Nat}
    (same : others.map Pes.described = streams.map Pes.described) (fit : StreamsFit streams p) :
    StreamsFit others p := by
  induction streams generalizing others p with
  | nil =>
    rw [map_eq_nil_iff.mp same]
    trivial
  | cons stream streams ih =>
    cases others with
    | nil => exact absurd same nofun
    | cons other others =>
      have head := head_eq_of_cons_eq same
      obtain ⟨codecid, rest⟩ := Prod.mk.inj head
      obtain ⟨esinfo, esinfoLen⟩ := Prod.mk.inj rest
      obtain ⟨room, held, further⟩ := fit
      refine ⟨by rwa [esinfoLen], ?_, ?_⟩
      · intro opus described
        rw [esinfo]
        rw [codecid] at opus
        rw [esinfoLen] at described
        exact held opus described
      · rw [entrySize_eq, head, ← entrySize_eq]
        exact ih (tail_eq_of_cons_eq same) further

theorem SameProgram.fits {pmt other : Pmt UInt8} (same : SameProgram pmt other)
    (fits : ProgramFits pmt) : ProgramFits other := by
  have sizes : other.streams.live.map entrySize = pmt.streams.live.map entrySize := by
    have mapped := congrArg (List.map fun described : UInt8 × Option (List UInt8) × Nat =>
      if described.1 = psiStreamAudioOpus then 15 else 5) same.streams
    rwa [map_map, map_map] at mapped
  constructor
  · rw [same.infoLen, sizes]
    exact fits.size
  · rw [same.infoLen]
    exact fits.streams.of_described same.streams

theorem SameProgram.held {pmt other : Pmt UInt8} (same : SameProgram pmt other)
    (held : InfoHeld pmt) : InfoHeld other := by
  unfold InfoHeld
  rw [same.info, same.infoLen]
  exact held

/-- The lengths of the tables, without their sections. -/
structure TablesFit (ts : EncContext) : Prop where
  programs : 12 + 4 * ts.pat.pmts.count < tsPacketSize - 5
  program : ∀ i < ts.pat.pmts.count, ProgramFits (ts.pat.pmts.slots i)

/-- The sections that would be written next fit into one packet. -/
structure SectionsFit (ts : EncContext) : Prop where
  pat : Yields (patWrite ts.pat) fun payload =>
    payload = patSection ts.pat ∧ payload.length < tsPacketSize - 5
  pmt : ∀ i < ts.pat.pmts.count, Yields (pmtWrite (ts.pat.pmts.slots i)) fun payload =>
    payload = pmtSection (ts.pat.pmts.slots i) ∧ payload.length < tsPacketSize - 5

/-- Every description in use is held in full. -/
def InfosHeld (ts : EncContext) : Prop :=
  ∀ i < ts.pat.pmts.count, InfoHeld (ts.pat.pmts.slots i)

variable {next : EncContext}

theorem SameTables.held (same : SameTables ts next) (held : InfosHeld ts) :
    InfosHeld next := by
  intro i inside
  rw [same.count] at inside
  exact (same.program i).held (held i inside)

theorem SameTables.fit (same : SameTables ts next) (fit : TablesFit ts) :
    TablesFit next := by
  constructor
  · rw [same.count]
    exact fit.programs
  · intro i inside
    rw [same.count] at inside
    exact (same.program i).fits (fit.program i inside)

theorem sectionsFit_iff (held : InfosHeld ts) :
    SectionsFit ts ↔ TablesFit ts := by
  constructor
  · intro fit
    exact ⟨(patWrite_iff ts.pat).mp fit.pat, fun i inside =>
      (pmtWrite_iff (held i inside)).mp (fit.pmt i inside)⟩
  · intro fit
    exact ⟨(patWrite_iff ts.pat).mpr fit.programs, fun i inside =>
      (pmtWrite_iff (held i inside)).mpr (fit.program i inside)⟩

/-! ## Writing the tables -/

def Outcome.Returns (outcome : Outcome) : Prop := ∃ code, outcome.result = .ok code

theorem andThen_returns {outcome : Outcome} {next : EncContext → Outcome}
    (first : outcome.Returns) (second : (next outcome.state).Returns) :
    (outcome.andThen next).Returns := by
  unfold Outcome.andThen
  split
  · exact second
  · exact first

theorem mpegTsWriteSection_returns (func : Func) (counter : Counter) (ts : EncContext)
    {payload : Except Fault (List UInt8)} {post : List UInt8 → Prop}
    (built : Yields payload fun bytes => post bytes ∧ bytes.length < tsPacketSize - 5) :
    (mpegTsWriteSection func counter payload ts).Returns := by
  obtain ⟨bytes, rfl, -, fits⟩ := built
  simp only [mpegTsWriteSection, mpegTsWriteSectionHeader, tsSectionPacket_eq _ _ fits]
  split
  · exact ⟨_, rfl⟩
  · exact ⟨_, rfl⟩

theorem mpegTsWritePmts_returns (func : Func) (indices : List Nat) (held : InfosHeld ts)
    (fit : TablesFit ts) (inside : ∀ i ∈ indices, i < ts.pat.pmts.count) :
    (mpegTsWritePmts func indices ts).Returns := by
  induction indices generalizing ts with
  | nil => exact ⟨0, rfl⟩
  | cons i rest ih =>
    have program := inside i mem_cons_self
    have same := (mpegTsWriteSection_sends func (pmtWrite (ts.pat.pmts.slots i))
      (show (Counter.pmt i).Live ts from program)).sameTables
    apply andThen_returns
    · exact mpegTsWriteSection_returns func _ ts (((sectionsFit_iff held).mpr fit).pmt i program)
    · apply ih (same.held held) (same.fit fit)
      intro k member
      rw [same.count]
      exact inside k (mem_cons_of_mem i member)

theorem mpegTsWriteTables_returns (func : Func) (dts : Int) (held : InfosHeld ts)
    (fit : TablesFit ts) : (mpegTsWriteTables func dts ts).Returns := by
  unfold mpegTsWriteTables
  split
  · have period : SameTables ts { ts with patPeriod := dts } := ⟨rfl, fun k => .refl _⟩
    have same := period.trans (mpegTsWriteSection_sends func (patWrite ts.pat)
      (show Counter.pat.Live { ts with patPeriod := dts } from trivial)).sameTables
    apply andThen_returns
    · exact mpegTsWriteSection_returns func _ _ ((sectionsFit_iff held).mpr fit).pat
    · apply mpegTsWritePmts_returns func _ (same.held held) (same.fit fit)
      intro i member
      rw [same.count]
      exact mem_range.mp member
  · exact ⟨0, rfl⟩

/-! ## Runs -/

/-- The call returns, and leaves this state. -/
def CallReturns (ts : EncContext) (call : Call) (next : EncContext) : Prop :=
  (call.run ts).Returns ∧ next = (call.run ts).state

theorem mpegTsWrite_held (func : Func) (pid flags pts dts : Int) (data : List UInt8)
    (held : InfosHeld ts) (returned : (mpegTsWrite func pid flags pts dts data ts).Returns) :
    InfosHeld (mpegTsWrite func pid flags pts dts data ts).state := by
  revert returned
  unfold mpegTsWrite
  split
  · exact fun _ => held
  · rename_i i j found
    obtain ⟨patPeriod, tables⟩ := mpegTsWriteTables_sends func dts
      (mpegTsPrepare i j flags pts dts ts)
    have live := (tables.live_iff (.stream i j)).mpr
      ((prepare_live ts i j flags pts dts _).mpr (mpegTsFind_live found).1)
    have prepared := (prepare_sameTables ts i j flags pts dts).held held
    have period : SameTables (mpegTsPrepare i j flags pts dts ts)
        { mpegTsPrepare i j flags pts dts ts with patPeriod := patPeriod } :=
      ⟨rfl, fun k => .refl _⟩
    have written := (period.trans tables.sameTables).held prepared
    unfold Outcome.andThen
    split
    · rintro ⟨code, returned⟩
      rcases tsWritePes_sent func i j data live with unit | ⟨-, -, fault, failed⟩
      · exact unit.sameTables.held written
      · exact nomatch failed.symm.trans returned
    · exact fun _ => written

theorem InfosHeld.rename (held : InfosHeld ts) (name : Nat → Nat)
    (live : ∀ k < next.pat.pmts.count, name k < ts.pat.pmts.count)
    (info : ∀ k < next.pat.pmts.count,
      (next.pat.pmts.slots k).pminfo = (ts.pat.pmts.slots (name k)).pminfo ∧
        (next.pat.pmts.slots k).pminfoLen = (ts.pat.pmts.slots (name k)).pminfoLen) :
    InfosHeld next := by
  intro k inside
  unfold InfoHeld
  rw [(info k inside).1, (info k inside).2]
  exact held (name k) (live k inside)

theorem mpegTsFillProgram_held (heap : Heap) (pn : Nat) (info : Option (List UInt8)) (bytes : Int)
    (held : InfosHeld ts) :
    InfosHeld (mpegTsFillProgram heap pn info bytes ts).state := by
  have spare : ∀ change : Pmt UInt8 → Pmt UInt8,
      InfosHeld (ts.modifyPmt ts.pat.pmts.count change).nextPid := by
    intro change k inside
    have same : (ts.modifyPmt ts.pat.pmts.count change).nextPid.pat.pmts.slots k =
        ts.pat.pmts.slots k := by
      refine (modifyPmt_slots ts _ change k).trans ?_
      exact if_neg (Nat.ne_of_lt inside)
    rw [same]
    exact held k inside
  unfold mpegTsFillProgram
  split
  · exact spare _
  · dsimp only
    split
    · exact spare _
    · intro k inside
      simp only [mpegTsReset, modifyPmt_nextPid_modifyPmt]
      split
      · rfl
      · rename_i other
        apply held
        exact Nat.lt_of_le_of_ne (Nat.le_of_lt_succ inside) other

theorem mpegTsAddProgram_held (heap : Heap) (pn : Nat) (info : Option (List UInt8)) (bytes : Int)
    (held : InfosHeld ts) :
    InfosHeld (mpegTsAddProgram heap pn info bytes ts).state := by
  unfold mpegTsAddProgram
  split
  · exact held
  · split
    · exact held
    · split
      · exact held
      · exact held
      · rename_i pat allocated
        obtain ⟨-, pmts⟩ := patAllocPmt_some allocated
        apply mpegTsFillProgram_held
        apply held.rename id
        · intro k inside
          rw [pmts] at inside
          exact inside
        · intro k inside
          rw [pmts] at inside ⊢
          have other : k ≠ ts.pat.pmts.count := Nat.ne_of_lt inside
          rw [SlotArray.set_other _ _ other]
          exact ⟨rfl, rfl⟩

theorem InfosHeld.modifyPmt (held : InfosHeld ts) (i : Nat) {change : Pmt UInt8 → Pmt UInt8}
    (keeps : ∀ pmt, (change pmt).pminfo = pmt.pminfo ∧ (change pmt).pminfoLen = pmt.pminfoLen) :
    InfosHeld (ts.modifyPmt i change) := by
  apply held.rename id
  · exact fun k inside => inside
  · intro k inside
    rw [modifyPmt_slots]
    split
    · exact keeps _
    · exact ⟨rfl, rfl⟩

theorem mpegTsPmtAddStream_held (heap : Heap) (i : Nat) (codecid : Int)
    (extraData : Option (List UInt8)) (extraDataSize : Nat) (held : InfosHeld ts) :
    InfosHeld (mpegTsPmtAddStream heap i codecid extraData extraDataSize ts).state := by
  have stream {ts : EncContext} (held : InfosHeld ts) (j : Nat) (change : Pes UInt8 → Pes UInt8) :
      InfosHeld (ts.modifyStream i j change) := held.modifyPmt i fun _ => ⟨rfl, rfl⟩
  unfold mpegTsPmtAddStream
  split
  · exact held
  · dsimp only
    split
    · exact stream held _ _
    · split
      · exact stream held _ _
      · have counted {ts : EncContext} (held : InfosHeld ts) : InfosHeld ts.nextPid := held
        refine InfosHeld.modifyPmt ?_ i fun _ => ⟨rfl, rfl⟩
        apply stream
        apply counted
        exact stream held _ _

theorem Call.run_held (call : Call) (held : InfosHeld ts) (returned : (call.run ts).Returns) :
    InfosHeld (call.run ts).state := by
  cases call with
  | addProgram heap pn info bytes => exact mpegTsAddProgram_held heap pn info bytes held
  | addStream heap codecid extraData extraDataSize =>
    dsimp only [Call.run, mpegTsAddStream]
    split
    · unfold Outcome.andThen
      split
      · exact mpegTsPmtAddStream_held _ _ _ _ _ (mpegTsAddProgram_held _ _ _ _ held)
      · exact mpegTsAddProgram_held _ _ _ _ held
    · exact mpegTsPmtAddStream_held _ _ _ _ _ held
  | addProgramStream heap pn codecid extraData extraDataSize =>
    dsimp only [Call.run, mpegTsAddProgramStream]
    split
    · exact held
    · exact mpegTsPmtAddStream_held _ _ _ _ _ held
  | removeProgram pn =>
    dsimp only [Call.run, mpegTsRemoveProgram]
    split
    · exact held
    · rename_i i found
      have inside := (SlotArray.find_some found).1
      apply held.rename fun k => if k < i then k else k + 1
      · intro k live
        change k < ts.pat.pmts.count - 1 at live
        split <;> omega
      · intro k live
        change k < ts.pat.pmts.count - 1 at live
        have slot : (ts.pat.pmts.removeAt i).slots k = _ :=
          SlotArray.removeAt_slots ts.pat.pmts (show k + 1 < ts.pat.pmts.count by omega)
        exact ⟨congrArg Pmt.pminfo slot, congrArg Pmt.pminfoLen slot⟩
  | reset => exact held
  | write func pid flags pts dts data => exact mpegTsWrite_held func pid flags pts dts data held returned

theorem run_held {calls : List Call}
    (run : Runs (fun _ _ => True) CallReturns mpegTsCreate calls ts) : InfosHeld ts := by
  apply run.invariant
  · rintro state call next held - ⟨returned, rfl⟩
    exact call.run_held held returned
  · exact fun i inside => absurd inside (Nat.not_lt_zero i)

/-- After every run: the sections hold all programs and streams and fit their
packets exactly if the programs fit, and then no write fails on its tables. -/
theorem mpeg_ts_sections_fit {calls : List Call} {ts : EncContext}
    (run : Runs (fun _ _ => True) CallReturns mpegTsCreate calls ts) :
    (SectionsFit ts ↔ TablesFit ts) ∧
      (TablesFit ts → ∀ func i j flags pts dts,
        SectionsFit (mpegTsPrepare i j flags pts dts ts) ∧
          (mpegTsWriteTables func dts (mpegTsPrepare i j flags pts dts ts)).Returns) := by
  have held := run_held run
  refine ⟨sectionsFit_iff held, ?_⟩
  intro fit func i j flags pts dts
  have same := prepare_sameTables ts i j flags pts dts
  have prepared := same.fit fit
  exact ⟨(sectionsFit_iff (same.held held)).mpr prepared,
    mpegTsWriteTables_returns func dts (same.held held) prepared⟩

/-- One program with an AAC stream. -/
theorem mpeg_ts_sections_fit_aac :
    let add : Call := .addStream ⟨true, true⟩ 0x0f none 0
    ∃ ts, Runs (fun _ _ => True) CallReturns mpegTsCreate [add] ts ∧ TablesFit ts ∧
      SectionsFit ts := by
  intro add
  have run : Runs (fun _ _ => True) CallReturns mpegTsCreate [add] (add.run mpegTsCreate).state :=
    .cons trivial ⟨⟨0x101, rfl⟩, rfl⟩ (.nil _)
  have fit : TablesFit (add.run mpegTsCreate).state := by
    constructor
    · decide
    · intro i inside
      have first : i = 0 := Nat.lt_one_iff.mp inside
      subst first
      exact ⟨by decide, by decide, by decide, trivial⟩
  exact ⟨_, run, fit, (mpeg_ts_sections_fit run).1.mpr fit⟩

/-- A description of 200 bytes is accepted, but the map that holds it does not
fit its packet: the next write ends in an assertion. -/
theorem mpeg_ts_long_description :
    let info := List.replicate 200 (0 : UInt8)
    let add : Call := .addProgram ⟨true, true⟩ 1 (some info) 200
    let func : Func := ⟨fun _ => true, fun _ => 0⟩
    ∃ ts, Runs (fun _ _ => True) CallReturns mpegTsCreate [add] ts ∧
      (add.run mpegTsCreate).result.toOption = some 0 ∧ ¬SectionsFit ts ∧
        ¬(mpegTsWriteTables func 90000 ts).Returns := by
  intro info add func
  have accepted : (add.run mpegTsCreate).result.toOption = some 0 := by
    decide +kernel
  have run : Runs (fun _ _ => True) CallReturns mpegTsCreate [add] (add.run mpegTsCreate).state :=
    .cons trivial ⟨⟨0, ok_of_toOption accepted⟩, rfl⟩ (.nil _)
  refine ⟨_, run, accepted, ?_, ?_⟩
  · intro fit
    have live : 0 < (add.run mpegTsCreate).state.pat.pmts.count := by
      decide +kernel
    have program := (pmtWrite_iff (run_held run 0 live)).mp (fit.pmt 0 live)
    exact absurd program.size (by decide +kernel)
  · rintro ⟨code, returned⟩
    have faulted : (mpegTsWriteTables func 90000 (add.run mpegTsCreate).state).result.toOption =
        none := by
      decide +kernel
    rw [returned] at faulted
    exact absurd faulted nofun

end CLibs.MpegTs
