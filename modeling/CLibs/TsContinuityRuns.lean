import CLibs.TsContinuityCalls

/-!
# Continuity counters over runs of the muxer

Adding a stream keeps the invariant of the counters too, so it holds after
every sequence of calls that does not exhaust the pids.
-/

namespace CLibs.MpegTs

/-! ## Streams -/

structure AgreeExcept (i j : Nat) (ts next : EncContext) : Prop where
  output : next.output = ts.output
  cc : next.pat.cc = ts.pat.cc
  count : next.pat.pmts.count = ts.pat.pmts.count
  pmtPid : ∀ k, (next.pat.pmts.slots k).pid = (ts.pat.pmts.slots k).pid
  pmtCc : ∀ k, (next.pat.pmts.slots k).cc = (ts.pat.pmts.slots k).cc
  stream : ∀ k l, ¬ (k = i ∧ l = j) → next.stream k l = ts.stream k l

variable {i j : Nat} {ts next : EncContext}

theorem AgreeExcept.record (agree : AgreeExcept i j ts next) {counter : Counter}
    (other : counter ≠ .stream i j) :
    counter.pid next = counter.pid ts ∧ counter.cc next = counter.cc ts := by
  cases counter with
  | pat => exact ⟨rfl, agree.cc⟩
  | pmt k => exact ⟨agree.pmtPid k, agree.pmtCc k⟩
  | stream k l =>
    have same := agree.stream k l (by rintro ⟨rfl, rfl⟩; exact other rfl)
    exact ⟨congrArg Pes.pid same, congrArg Pes.cc same⟩

theorem Accounted.spareStream (accounted : Accounted ts) (agree : AgreeExcept i j ts next)
    (unused : j = (ts.pat.pmts.slots i).streams.count) (pid : ts.pid ≤ next.pid)
    (bounded : next.pid < 2 ^ 13)
    (streams : ∀ k, (next.pat.pmts.slots k).streams.count = (ts.pat.pmts.slots k).streams.count)
    (cc : (next.stream i j).cc = (ts.stream i j).cc) : Accounted next := by
  have live : ∀ counter : Counter, counter.Live next → counter.Live ts := by
    intro counter alive
    cases counter with
    | pat => trivial
    | pmt k => exact Nat.lt_of_lt_of_eq alive agree.count
    | stream k l =>
      exact ⟨Nat.lt_of_lt_of_eq alive.1 agree.count, Nat.lt_of_lt_of_eq alive.2 (streams k)⟩
  constructor
  · refine accounted.counted.rename agree.output pid bounded id (fun _ _ same => same) live ?_
    intro counter alive
    apply agree.record
    rintro rfl
    exact Nat.lt_irrefl _ (Nat.lt_of_lt_of_eq (live _ alive).2 unused.symm)
  · intro k inside l behind
    rw [agree.count] at inside
    rw [streams] at behind
    have before := accounted.cleared k inside l behind
    by_cases here : k = i ∧ l = j
    · obtain ⟨rfl, rfl⟩ := here
      exact cc.trans before
    · rw [agree.stream k l here]
      exact before

theorem Accounted.addStream (accounted : Accounted ts) (agree : AgreeExcept i j ts next)
    (program : i < ts.pat.pmts.count) (unused : j = (ts.pat.pmts.slots i).streams.count)
    (pid : next.pid = ts.pid + 1) (bounded : next.pid < 2 ^ 13)
    (streams : ∀ k, (next.pat.pmts.slots k).streams.count =
      (ts.pat.pmts.slots k).streams.count + if k = i then 1 else 0)
    (newPid : (next.stream i j).pid = ts.pid) (cc : (next.stream i j).cc = (ts.stream i j).cc) :
    Accounted next := by
  have zero := accounted.cleared i program j (Nat.le_of_eq unused.symm)
  constructor
  · refine accounted.counted.add agree.output pid bounded (.stream i j) newPid (cc.trans zero) ?_ ?_
    · intro counter alive
      cases counter with
      | pat => exact .inr trivial
      | pmt k => exact .inr (Nat.lt_of_lt_of_eq alive agree.count)
      | stream k l =>
        obtain ⟨inside, below⟩ := alive
        rw [agree.count] at inside
        rw [streams] at below
        by_cases here : k = i ∧ l = j
        · obtain ⟨rfl, rfl⟩ := here
          exact .inl rfl
        · refine .inr ⟨inside, ?_⟩
          split at below
          · rename_i same
            subst same
            omega
          · exact below
    · intro counter alive
      apply agree.record
      rintro rfl
      exact Nat.lt_irrefl _ (Nat.lt_of_lt_of_eq alive.2 unused.symm)
  · intro k inside l behind
    rw [agree.count] at inside
    rw [streams] at behind
    have other : ¬ (k = i ∧ l = j) := by
      rintro ⟨rfl, rfl⟩
      rw [if_pos rfl] at behind
      omega
    rw [agree.stream k l other]
    exact accounted.cleared k inside l (by omega)

theorem modifyStream_agree (ts : EncContext) (i j : Nat) (change : Pes UInt8 → Pes UInt8) :
    AgreeExcept i j ts (ts.modifyStream i j change).nextPid := by
  refine ⟨rfl, rfl, rfl, fun k => ?_, fun k => ?_, fun k l other => ?_⟩
  · refine (congrArg Pmt.pid (modifyStream_slots ts i j change k)).trans ?_
    split <;> rfl
  · refine (congrArg Pmt.cc (modifyStream_slots ts i j change k)).trans ?_
    split <;> rfl
  · refine (modifyStream_stream ts i j change k l).trans ?_
    rw [if_neg other]

/-- The program record once its new stream counts. -/
def withStream (j : Nat) (first second : Pes UInt8 → Pes UInt8) (pmt : Pmt UInt8) : Pmt UInt8 :=
  let streams := (pmt.streams.modify j first).modify j second
  { pmt with
    streams := { streams with count := pmt.streams.count + 1 }
    ver := (pmt.ver + 1) % 32 }

theorem addedStream_slots (ts : EncContext) (i j : Nat) (first second : Pes UInt8 → Pes UInt8)
    (k : Nat) :
    (((ts.modifyStream i j first).nextPid.modifyStream i j second).modifyPmt i fun pmt =>
      { pmt with
        streams := { pmt.streams with count := pmt.streams.count + 1 }
        ver := (pmt.ver + 1) % 32 }).pat.pmts.slots k =
      if k = i then withStream j first second (ts.pat.pmts.slots k) else ts.pat.pmts.slots k := by
  have inner : (ts.modifyStream i j first).nextPid.pat.pmts.slots k = _ :=
    modifyStream_slots ts i j first k
  rw [modifyPmt_slots, modifyStream_slots, inner]
  split <;> rfl

theorem addedStream_same (ts : EncContext) (i j : Nat) (first second : Pes UInt8 → Pes UInt8) :
    (mpegTsReset
      (((ts.modifyStream i j first).nextPid.modifyStream i j second).modifyPmt i fun pmt =>
        { pmt with
          streams := { pmt.streams with count := pmt.streams.count + 1 }
          ver := (pmt.ver + 1) % 32 })).stream i j = second (first (ts.stream i j)) := by
  refine (congrArg (·.streams.slots j) (addedStream_slots ts i j first second i)).trans ?_
  simp only [if_true, withStream, SlotArray.modify_same]
  rfl

theorem addedStream_agree (ts : EncContext) (i j : Nat) (first second : Pes UInt8 → Pes UInt8) :
    AgreeExcept i j ts (mpegTsReset
      (((ts.modifyStream i j first).nextPid.modifyStream i j second).modifyPmt i fun pmt =>
        { pmt with
          streams := { pmt.streams with count := pmt.streams.count + 1 }
          ver := (pmt.ver + 1) % 32 })) := by
  refine ⟨rfl, rfl, rfl, fun k => ?_, fun k => ?_, fun k l other => ?_⟩
  · refine (congrArg Pmt.pid (addedStream_slots ts i j first second k)).trans ?_
    split <;> rfl
  · refine (congrArg Pmt.cc (addedStream_slots ts i j first second k)).trans ?_
    split <;> rfl
  · refine (congrArg (·.streams.slots l) (addedStream_slots ts i j first second k)).trans ?_
    split
    · rename_i here
      dsimp only [withStream]
      rw [SlotArray.modify_other _ _ fun there => other ⟨here, there⟩,
        SlotArray.modify_other _ _ fun there => other ⟨here, there⟩]
      rfl
    · rfl

theorem mpegTsPmtAddStream_pid (heap : Heap) (i : Nat) (codecid : Int)
    (extraData : Option (List UInt8)) (extraDataSize : Nat) (ts : EncContext) :
    (mpegTsPmtAddStream heap i codecid extraData extraDataSize ts).state.pid =
      if (ts.pat.pmts.slots i).streams.count ≥ streamsCapacity then ts.pid
      else (ts.pid + 1) % 2 ^ 16 := by
  unfold mpegTsPmtAddStream
  split
  · rfl
  · dsimp only
    split
    · rfl
    · split <;> rfl

theorem mpegTsPmtAddStream_kept (heap : Heap) (codecid : Int) (extraData : Option (List UInt8))
    (extraDataSize : Nat) (accounted : Accounted ts) (program : i < ts.pat.pmts.count)
    (room : (mpegTsPmtAddStream heap i codecid extraData extraDataSize ts).state.pid < 2 ^ 13) :
    Kept ts (mpegTsPmtAddStream heap i codecid extraData extraDataSize ts) := by
  have bounded := accounted.counted.bounded
  have increment : (ts.pid + 1) % 2 ^ 16 = ts.pid + 1 := Nat.mod_eq_of_lt (by omega)
  have grown : ts.pid ≤ (ts.pid + 1) % 2 ^ 16 := by omega
  by_cases full : (ts.pat.pmts.slots i).streams.count ≥ streamsCapacity
  · unfold mpegTsPmtAddStream
    rw [if_pos full]
    exact accounted.kept (Nat.le_refl _)
  · rw [mpegTsPmtAddStream_pid, if_neg full] at room
    -- while the stream is not in use, only its counter matters
    have unfinished : ∀ change : Pes UInt8 → Pes UInt8, (∀ stream, (change stream).cc = stream.cc) →
        Accounted (ts.modifyStream i (ts.pat.pmts.slots i).streams.count change).nextPid := by
      intro change keeps
      have agree := modifyStream_agree ts i (ts.pat.pmts.slots i).streams.count change
      apply accounted.spareStream agree rfl grown room
      · intro k
        refine (congrArg (·.streams.count) (modifyStream_slots ts i _ change k)).trans ?_
        split <;> rfl
      · exact (congrArg Pes.cc (modifyStream_same ts i _ change)).trans (keeps _)
    unfold mpegTsPmtAddStream
    rw [if_neg full]
    dsimp only
    split
    · refine Accounted.kept (unfinished _ ?_) grown
      exact fun stream => rfl
    · split
      · refine Accounted.kept (unfinished _ ?_) grown
        exact fun stream => rfl
      · refine Accounted.kept (accounted.addStream (addedStream_agree ts i _ _ _) program rfl
          increment room ?_ ?_ ?_) grown
        · intro k
          refine (congrArg (·.streams.count) (addedStream_slots ts i _ _ _ k)).trans ?_
          split <;> rfl
        · refine (congrArg Pes.pid (addedStream_same ts i _ _ _)).trans ?_
          rfl
        · refine (congrArg Pes.cc (addedStream_same ts i _ _ _)).trans ?_
          rfl

theorem mpegTsAddProgram_pid (heap : Heap) (pn : Nat) (info : Option (List UInt8)) (bytes : Int)
    (ts : EncContext) :
    (mpegTsAddProgram heap pn info bytes ts).state.pid = ts.pid ∨
      (mpegTsAddProgram heap pn info bytes ts).state.pid = (ts.pid + 1) % 2 ^ 16 := by
  unfold mpegTsAddProgram
  split
  · exact .inl rfl
  · split
    · exact .inl rfl
    · split
      · exact .inl rfl
      · exact .inl rfl
      · exact .inr (mpegTsFillProgram_pid _ _ _ _ _)

theorem mpegTsAddProgram_count {heap : Heap} {pn : Nat} {info : Option (List UInt8)} {bytes : Int}
    (succeeded : (mpegTsAddProgram heap pn info bytes ts).result = .ok 0) :
    0 < (mpegTsAddProgram heap pn info bytes ts).state.pat.pmts.count := by
  revert succeeded
  unfold mpegTsAddProgram
  split
  · exact nofun
  · split
    · exact nofun
    · split
      · exact nofun
      · exact nofun
      · unfold mpegTsFillProgram
        split
        · exact nofun
        · dsimp only
          split
          · exact nofun
          · exact fun _ => Nat.succ_pos _

theorem mpegTsAddStream_kept (heap : Heap) (codecid : Int) (extraData : Option (List UInt8))
    (extraDataSize : Nat) (accounted : Accounted ts)
    (room : (mpegTsAddStream heap codecid extraData extraDataSize ts).state.pid < 2 ^ 13) :
    Kept ts (mpegTsAddStream heap codecid extraData extraDataSize ts) := by
  have bounded := accounted.counted.bounded
  unfold mpegTsAddStream at room ⊢
  split
  · rename_i empty
    simp only [if_pos empty, Outcome.andThen] at room ⊢
    have programPid := mpegTsAddProgram_pid heap 1 none 0 ts
    split
    · rename_i succeeded
      rw [if_pos succeeded] at room
      have streamPid := mpegTsPmtAddStream_pid heap 0 codecid extraData extraDataSize
        (mpegTsAddProgram heap 1 none 0 ts).state
      -- the pid of the stream comes after the one of its program
      have program := mpegTsAddProgram_kept heap 1 none 0 accounted (by
        split at streamPid <;> omega)
      obtain ⟨next, grown⟩ := program.2 0 (ok_of_toOption succeeded)
      have stream := mpegTsPmtAddStream_kept heap codecid extraData extraDataSize next
        (mpegTsAddProgram_count (ok_of_toOption succeeded)) room
      exact ⟨stream.1, fun code returned =>
        ⟨(stream.2 code returned).1, Nat.le_trans grown (stream.2 code returned).2⟩⟩
    · rename_i failed
      rw [if_neg failed] at room
      exact mpegTsAddProgram_kept heap 1 none 0 accounted room
  · rename_i filled
    rw [if_neg filled] at room
    exact mpegTsPmtAddStream_kept heap codecid extraData extraDataSize accounted
      (Nat.pos_of_ne_zero filled) room

theorem mpegTsAddProgramStream_kept (heap : Heap) (pn : Nat) (codecid : Int)
    (extraData : Option (List UInt8)) (extraDataSize : Nat) (accounted : Accounted ts)
    (room : (mpegTsAddProgramStream heap pn codecid extraData extraDataSize ts).state.pid < 2 ^ 13) :
    Kept ts (mpegTsAddProgramStream heap pn codecid extraData extraDataSize ts) := by
  unfold mpegTsAddProgramStream at room ⊢
  split
  · exact accounted.kept (Nat.le_refl _)
  · rename_i i found
    rw [found] at room
    exact mpegTsPmtAddStream_kept heap codecid extraData extraDataSize accounted
      (SlotArray.find_some found).1 room

/-! ## Runs -/

theorem Call.run_kept (call : Call) (accounted : Accounted ts)
    (room : (call.run ts).state.pid < 2 ^ 13) : Kept ts (call.run ts) := by
  cases call with
  | addProgram heap pn info bytes => exact mpegTsAddProgram_kept heap pn info bytes accounted room
  | addStream heap codecid extraData extraDataSize =>
    exact mpegTsAddStream_kept heap codecid extraData extraDataSize accounted room
  | addProgramStream heap pn codecid extraData extraDataSize =>
    exact mpegTsAddProgramStream_kept heap pn codecid extraData extraDataSize accounted room
  | removeProgram pn => exact mpegTsRemoveProgram_kept pn accounted
  | reset => exact Accounted.kept (accounted.period 0) (Nat.le_refl _)
  | write func pid flags pts dts data =>
    exact mpegTsWrite_kept func pid flags pts dts data accounted

theorem mpegTsPmtAddStream_pid_lt (heap : Heap) (i : Nat) (codecid : Int)
    (extraData : Option (List UInt8)) (extraDataSize : Nat) (bounded : ts.pid < 2 ^ 16) :
    (mpegTsPmtAddStream heap i codecid extraData extraDataSize ts).state.pid < 2 ^ 16 := by
  rw [mpegTsPmtAddStream_pid]
  split <;> omega

theorem Call.run_pid_lt (call : Call) (bounded : ts.pid < 2 ^ 16) :
    (call.run ts).state.pid < 2 ^ 16 := by
  cases call with
  | addProgram heap pn info bytes =>
    have pid := mpegTsAddProgram_pid heap pn info bytes ts
    dsimp only [Call.run]
    omega
  | addStream heap codecid extraData extraDataSize =>
    dsimp only [Call.run, mpegTsAddStream, Outcome.andThen]
    have pid := mpegTsAddProgram_pid heap 1 none 0 ts
    split
    · split
      · exact mpegTsPmtAddStream_pid_lt _ _ _ _ _ (by omega)
      · omega
    · exact mpegTsPmtAddStream_pid_lt _ _ _ _ _ bounded
  | addProgramStream heap pn codecid extraData extraDataSize =>
    dsimp only [Call.run, mpegTsAddProgramStream]
    split
    · exact bounded
    · exact mpegTsPmtAddStream_pid_lt _ _ _ _ _ bounded
  | removeProgram pn =>
    dsimp only [Call.run, mpegTsRemoveProgram]
    split <;> exact bounded
  | reset => exact bounded
  | write func pid flags pts dts data =>
    dsimp only [Call.run]
    rw [mpegTsWrite_pid]
    exact bounded

/-- How many pids a call hands out: `tsctx->pid` counts them on 16 bits. -/
def Call.handsOut (call : Call) (ts : EncContext) : Nat :=
  ((call.run ts).state.pid + 2 ^ 16 - ts.pid) % 2 ^ 16

/-- A muxer, and how many pids it has handed out. -/
abbrev Muxer := EncContext × Nat

/-- Behind the call there are `PID`s left to hand out. -/
def PidsLeft (muxer : Muxer) (call : Call) : Prop :=
  muxer.2 + call.handsOut muxer.1 < 2 ^ 13 - 0x100

instance (muxer : Muxer) (call : Call) : Decidable (PidsLeft muxer call) :=
  inferInstanceAs (Decidable (_ < _))

def MuxerStep (muxer : Muxer) (call : Call) (next : Muxer) : Prop :=
  (∃ code, (call.run muxer.1).result = .ok code) ∧
    next = ((call.run muxer.1).state, muxer.2 + call.handsOut muxer.1)

theorem mpegTsCreate_accounted : Accounted mpegTsCreate := by
  have onlyPat : ∀ counter : Counter, counter.Live mpegTsCreate → counter = .pat := by
    intro counter live
    cases counter with
    | pat => rfl
    | pmt i => exact absurd live (Nat.not_lt_zero i)
    | stream i j => exact absurd live.1 (Nat.not_lt_zero i)
  constructor
  · refine ⟨fun pid => rfl, fun counter live => ?_, fun counter other live also same => ?_,
      fun counter live => ?_, fun pid unused => rfl, by decide⟩
    · rw [onlyPat counter live]
      rfl
    · rw [onlyPat counter live, onlyPat other also]
    · rw [onlyPat counter live]
      decide
  · exact fun i inside => absurd inside (Nat.not_lt_zero i)

variable {muxer : Muxer}

theorem PidsLeft.room {call : Call} (left : PidsLeft muxer call)
    (pids : muxer.1.pid = 0x100 + muxer.2) :
    (call.run muxer.1).state.pid < 2 ^ 13 ∧
      (muxer.1.pid ≤ (call.run muxer.1).state.pid →
        (call.run muxer.1).state.pid = 0x100 + (muxer.2 + call.handsOut muxer.1)) := by
  unfold PidsLeft Call.handsOut at left
  have bounded : muxer.1.pid < 2 ^ 16 := by omega
  have below := call.run_pid_lt bounded
  unfold Call.handsOut
  omega

theorem muxer_accounted {calls : List Call}
    (run : Runs PidsLeft MuxerStep (mpegTsCreate, 0) calls muxer) :
    Accounted muxer.1 ∧ muxer.1.pid = 0x100 + muxer.2 := by
  apply run.invariant
  · rintro state call next ⟨accounted, pids⟩ left ⟨⟨code, returned⟩, rfl⟩
    obtain ⟨room, handedOut⟩ := left.room pids
    obtain ⟨kept, grown⟩ := (call.run_kept accounted room).2 code returned
    exact ⟨kept, handedOut grown⟩
  · exact ⟨mpegTsCreate_accounted, rfl⟩

/-- Along every run on which fewer than `2 ^ 13 - 0x100` pids are handed out:
on each pid the counters go up by one modulo 16, and no two records in use
have the same pid.  The last part is about the call that comes next, whether
it returns or an assertion ends it. -/
theorem continuity_counters {calls : List Call}
    (run : Runs PidsLeft MuxerStep (mpegTsCreate, 0) calls muxer) :
    (∀ pid, Consecutive (countersOn pid muxer.1.output)) ∧
    (∀ counter other : Counter, counter.Live muxer.1 → other.Live muxer.1 →
      counter.pid muxer.1 = other.pid muxer.1 → counter = other) ∧
    ∀ call, PidsLeft muxer call →
      ∀ pid, Consecutive (countersOn pid (call.run muxer.1).state.output) := by
  obtain ⟨accounted, pids⟩ := muxer_accounted run
  refine ⟨fun pid => (accounted.counted.countsUp pid).consecutive, accounted.counted.distinct, ?_⟩
  intro call left pid
  have kept := call.run_kept accounted (left.room pids).1
  exact (kept.1 pid).consecutive

theorem MuxerStep.returned {call : Call} (code : Int)
    (result : (call.run muxer.1).result.toOption = some code) :
    MuxerStep muxer call ((call.run muxer.1).state, muxer.2 + call.handsOut muxer.1) :=
  ⟨⟨code, ok_of_toOption result⟩, rfl⟩

/-- An AAC stream is added and written to twice, and the program is removed. -/
theorem continuity_counters_aac :
    let add : Call := .addStream ⟨true, true⟩ 0x0f none 0
    let write : Call := .write ⟨fun _ => true, fun _ => 0⟩ 0x101 0 90000 90000 [1, 2, 3]
    ∃ muxer, Runs PidsLeft MuxerStep (mpegTsCreate, 0) [add, write, write] muxer ∧
      PidsLeft muxer (.removeProgram 1) ∧ countersOn 0x101 muxer.1.output = [0, 1] ∧
      ∀ pid, Consecutive (countersOn pid muxer.1.output) := by
  intro add write
  have run : Runs PidsLeft MuxerStep (mpegTsCreate, 0) [add, write, write] _ :=
    .cons (by decide) (.returned 0x101 (by decide +kernel))
      (.cons (by decide +kernel) (.returned 0 (by decide +kernel))
        (.cons (by decide +kernel) (.returned 0 (by decide +kernel)) (.nil _)))
  exact ⟨_, run, by decide +kernel, by decide +kernel, (continuity_counters run).1⟩

end CLibs.MpegTs
