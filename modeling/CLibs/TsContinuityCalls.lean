import CLibs.TsContinuity

/-!
# Continuity counters over runs of the muxer

Each call of the interface keeps the invariant of the counters, so it holds
after every sequence of calls that does not exhaust the pids.
-/

namespace CLibs.MpegTs

def Cleared (ts : EncContext) : Prop :=
  ∀ i < ts.pat.pmts.count, ∀ j ≥ (ts.pat.pmts.slots i).streams.count, (ts.stream i j).cc = 0

structure Accounted (ts : EncContext) : Prop where
  counted : Counted ts
  cleared : Cleared ts

variable {ts last : EncContext} {packets : List (List UInt8)}

theorem Cleared.sent (cleared : Cleared ts) (sent : Sent ts packets last) : Cleared last := by
  induction sent with
  | nil ts => exact cleared
  | @cons ts last counter start field body packets live size rest ih =>
    apply ih
    intro i inside j unused
    obtain ⟨cc, streams, slot, count, -⟩ := advance_slots ts counter i
    have program : i < ts.pat.pmts.count := by
      rw [← advance_count ts counter]
      exact inside
    have behind : j ≥ (ts.pat.pmts.slots i).streams.count := by
      rw [← count]
      change j ≥ ((counter.advance ts).pat.pmts.slots i).streams.count at unused
      rw [slot] at unused
      exact unused
    have other : Counter.stream i j ≠ counter := by
      rintro rfl
      exact Nat.not_lt.mpr behind live.2
    exact (advance_cc_other ts other).trans (cleared i program j behind)

theorem Accounted.sent (accounted : Accounted ts) (sent : Sent ts packets last) : Accounted last :=
  ⟨accounted.counted.sent sent, accounted.cleared.sent sent⟩

theorem Sent.pid_eq (sent : Sent ts packets last) : last.pid = ts.pid := by
  induction sent with
  | nil ts => rfl
  | cons live size rest ih => exact ih.trans (advance_nextPid _ _)

/-! ## Writing -/

section Prepared

variable (ts : EncContext) (i j : Nat) (flags pts dts : Int)

theorem prepare_record (counter : Counter) :
    counter.pid (mpegTsPrepare i j flags pts dts ts) = counter.pid ts ∧
      counter.cc (mpegTsPrepare i j flags pts dts ts) = counter.cc ts := by
  cases counter with
  | pat => exact ⟨rfl, (setClock_keeps _ i j).2.2.2.2⟩
  | pmt k =>
    unfold mpegTsPrepare
    obtain ⟨pcrPid, same⟩ := setClock_slots
      { ts.modifyStream i j (writtenStream flags pts dts) with
        h264H265WithAud := withAudFlag flags } i j k
    simp only [Counter.pid, Counter.cc, same, modifyStream_slots]
    constructor
    · split <;> rfl
    · split <;> rfl
  | stream k l =>
    simp only [Counter.pid, Counter.cc, prepare_stream]
    constructor
    · split <;> rfl
    · split <;> rfl

theorem prepare_pid : (mpegTsPrepare i j flags pts dts ts).pid = ts.pid :=
  (setClock_keeps _ i j).2.2.2.1

end Prepared

theorem Accounted.period (accounted : Accounted ts) (patPeriod : Int) :
    Accounted { ts with patPeriod := patPeriod } := by
  constructor
  · refine accounted.counted.rename rfl (Nat.le_refl _) accounted.counted.bounded id
      (fun _ _ same => same) ?_ ?_
    · intro counter live
      cases counter <;> exact live
    · intro counter live
      cases counter <;> exact ⟨rfl, rfl⟩
  · exact accounted.cleared

theorem Accounted.prepare (accounted : Accounted ts) (i j : Nat) (flags pts dts : Int) :
    Accounted (mpegTsPrepare i j flags pts dts ts) := by
  have pid := prepare_pid ts i j flags pts dts
  constructor
  · apply accounted.counted.rename (prepare_output ts i j flags pts dts) (Nat.le_of_eq pid.symm)
      (by rw [pid]; exact accounted.counted.bounded) id (fun _ _ same => same)
    · exact fun counter => (prepare_live ts i j flags pts dts counter).mp
    · exact fun counter _ => prepare_record ts i j flags pts dts counter
  · intro k inside l unused
    have program : k < ts.pat.pmts.count :=
      (prepare_live ts i j flags pts dts (.pmt k)).mp inside
    have behind : l ≥ (ts.pat.pmts.slots k).streams.count := by
      apply Nat.le_of_not_lt
      intro live
      have alive := (prepare_live ts i j flags pts dts (.stream k l)).mpr ⟨program, live⟩
      exact Nat.not_lt.mpr unused alive.2
    have cc := (prepare_record ts i j flags pts dts (.stream k l)).2
    exact cc.trans (accounted.cleared k program l behind)

theorem tsWritePes_sent (func : Func) (i j : Nat) (data : List UInt8)
    (live : (Counter.stream i j).Live ts) :
    Sends ts (tsWritePes func i j data.length true data ts).state ∨
      (tsWritePes func i j data.length true data ts).state.output = ts.output ∧
        (tsWritePes func i j data.length true data ts).state.pid = ts.pid ∧
        ∃ fault, (tsWritePes func i j data.length true data ts).result = .error fault := by
  by_cases allowed : TimestampsAllowed (ts.stream i j)
  · obtain ⟨code, packets, rest, -, sent, -⟩ :=
      tsWritePes_unit func i j data.length true data ts (Nat.le_refl _) (fun _ => allowed) live
    exact .inl ⟨packets, sent⟩
  · cases data with
    | nil => exact .inl (.refl ts)
    | cons byte bytes =>
      simp only [List.length_cons, tsWritePes, List.cons_ne_nil, if_false,
        tsWritePesPacket_error _ _ allowed]
      split
      · exact .inr ⟨advance_output ts _, advance_nextPid ts _, .assertion, rfl⟩
      · exact .inl (.refl ts)

/-- What a call leaves behind: counters that run on, and a context that is
accounted for unless the program ended. -/
def Kept (ts : EncContext) (outcome : Outcome) : Prop :=
  (∀ pid, CountsUp (countersOn pid outcome.state.output)) ∧
    ∀ code, outcome.result = .ok code → Accounted outcome.state ∧ ts.pid ≤ outcome.state.pid

theorem Accounted.kept {outcome : Outcome} (accounted : Accounted outcome.state)
    (pid : ts.pid ≤ outcome.state.pid) : Kept ts outcome :=
  ⟨accounted.counted.countsUp, fun _ _ => ⟨accounted, pid⟩⟩

theorem mpegTsWrite_kept (func : Func) (pid flags pts dts : Int) (data : List UInt8)
    (accounted : Accounted ts) :
    Kept ts (mpegTsWrite func pid flags pts dts data ts) := by
  unfold mpegTsWrite
  split
  · exact accounted.kept (Nat.le_refl _)
  · rename_i i j found
    obtain ⟨patPeriod, psi, sent⟩ := mpegTsWriteTables_sends func dts
      (mpegTsPrepare i j flags pts dts ts)
    have tables := ((accounted.prepare i j flags pts dts).period patPeriod).sent sent
    have tablesPid : ts.pid ≤
        (mpegTsWriteTables func dts (mpegTsPrepare i j flags pts dts ts)).state.pid := by
      rw [sent.pid_eq]
      exact Nat.le_of_eq (prepare_pid ts i j flags pts dts).symm
    have live := (sent.live_iff (.stream i j)).mpr
      ((prepare_live ts i j flags pts dts _).mpr (mpegTsFind_live found).1)
    unfold Outcome.andThen
    split
    · rcases tsWritePes_sent func i j data live with ⟨packets, unit⟩ | ⟨output, -, fault, failed⟩
      · exact (tables.sent unit).kept (by rw [unit.pid_eq]; exact tablesPid)
      · constructor
        · rw [output]
          exact tables.counted.countsUp
        · intro code returned
          exact nomatch failed.symm.trans returned
    · exact tables.kept tablesPid

theorem mpegTsWrite_pid (func : Func) (pid flags pts dts : Int) (data : List UInt8)
    (ts : EncContext) : (mpegTsWrite func pid flags pts dts data ts).state.pid = ts.pid := by
  unfold mpegTsWrite
  split
  · rfl
  · rename_i i j found
    obtain ⟨patPeriod, psi, sent⟩ := mpegTsWriteTables_sends func dts
      (mpegTsPrepare i j flags pts dts ts)
    have tablesPid := sent.pid_eq.trans (prepare_pid ts i j flags pts dts)
    have live := (sent.live_iff (.stream i j)).mpr
      ((prepare_live ts i j flags pts dts _).mpr (mpegTsFind_live found).1)
    unfold Outcome.andThen
    split
    · rcases tsWritePes_sent func i j data live with ⟨packets, unit⟩ | ⟨-, same, -⟩
      · exact unit.pid_eq.trans tablesPid
      · exact same.trans tablesPid
    · exact tablesPid

/-! ## Programs and streams -/

theorem patAllocPmt_some {realloc : Bool} {pat next : Pat UInt8}
    (allocated : patAllocPmt realloc pat = .ok (some next)) :
    next.cc = pat.cc ∧ next.pmts = pat.pmts.set pat.pmts.count (Pmt.zero UInt8) := by
  unfold patAllocPmt at allocated
  split at allocated
  · cases allocated
  · dsimp only at allocated
    generalize (if pat.pmtCapacity = 0 then 1 else pat.pmtCapacity) = capacity at allocated
    split at allocated
    · obtain rfl := Option.some.inj (Except.ok.inj allocated)
      exact ⟨rfl, rfl⟩
    · split at allocated
      · cases allocated
      · split at allocated
        · obtain rfl := Option.some.inj (Except.ok.inj allocated)
          exact ⟨rfl, rfl⟩
        · cases allocated

variable {next : EncContext}

theorem Accounted.spare (accounted : Accounted ts) (output : next.output = ts.output)
    (pid : ts.pid ≤ next.pid) (bounded : next.pid < 2 ^ 13) (cc : next.pat.cc = ts.pat.cc)
    (count : next.pat.pmts.count = ts.pat.pmts.count)
    (slots : ∀ k < ts.pat.pmts.count, next.pat.pmts.slots k = ts.pat.pmts.slots k) :
    Accounted next := by
  constructor
  · refine accounted.counted.rename output pid bounded id (fun _ _ same => same) ?_ ?_
    · intro counter live
      cases counter with
      | pat => trivial
      | pmt k => exact Nat.lt_of_lt_of_eq live count
      | stream k l =>
        obtain ⟨program, stream⟩ := live
        rw [count] at program
        rw [slots k program] at stream
        exact ⟨program, stream⟩
    · intro counter live
      cases counter with
      | pat => exact ⟨rfl, cc⟩
      | pmt k =>
        have same := slots k (count ▸ live)
        simp only [Counter.pid, Counter.cc, same, id, and_self]
      | stream k l =>
        have same := slots k (count ▸ live.1)
        simp only [Counter.pid, Counter.cc, EncContext.stream, same, id, and_self]
  · intro k inside l unused
    rw [count] at inside
    simp only [EncContext.stream, slots k inside] at unused ⊢
    exact accounted.cleared k inside l unused

theorem Accounted.addProgram (accounted : Accounted ts) (output : next.output = ts.output)
    (pid : next.pid = ts.pid + 1) (bounded : next.pid < 2 ^ 13) (cc : next.pat.cc = ts.pat.cc)
    (count : next.pat.pmts.count = ts.pat.pmts.count + 1)
    (slots : ∀ k < ts.pat.pmts.count, next.pat.pmts.slots k = ts.pat.pmts.slots k)
    (newPid : (next.pat.pmts.slots ts.pat.pmts.count).pid = ts.pid)
    (newCc : (next.pat.pmts.slots ts.pat.pmts.count).cc = 0)
    (empty : (next.pat.pmts.slots ts.pat.pmts.count).streams = (Pmt.zero UInt8).streams) :
    Accounted next := by
  constructor
  · refine accounted.counted.add output pid bounded (.pmt ts.pat.pmts.count) newPid newCc ?_ ?_
    · intro counter live
      cases counter with
      | pat => exact .inr trivial
      | pmt k =>
        rcases Nat.lt_or_eq_of_le (Nat.lt_succ_iff.mp (Nat.lt_of_lt_of_eq live count))
          with before | rfl
        · exact .inr before
        · exact .inl rfl
      | stream k l =>
        obtain ⟨program, stream⟩ := live
        rcases Nat.lt_or_eq_of_le (Nat.lt_succ_iff.mp (Nat.lt_of_lt_of_eq program count))
          with before | rfl
        · rw [slots k before] at stream
          exact .inr ⟨before, stream⟩
        · rw [empty] at stream
          exact absurd stream (Nat.not_lt_zero l)
    · intro counter live
      cases counter with
      | pat => exact ⟨rfl, cc⟩
      | pmt k =>
        have same := slots k live
        simp only [Counter.pid, Counter.cc, same, and_self]
      | stream k l =>
        have same := slots k live.1
        simp only [Counter.pid, Counter.cc, EncContext.stream, same, and_self]
  · intro k inside l unused
    rcases Nat.lt_or_eq_of_le (Nat.lt_succ_iff.mp (Nat.lt_of_lt_of_eq inside count))
      with before | rfl
    · simp only [EncContext.stream, slots k before] at unused ⊢
      exact accounted.cleared k before l unused
    · simp only [EncContext.stream, empty]
      rfl

theorem mpegTsFillProgram_pid (heap : Heap) (pn : Nat) (info : Option (List UInt8)) (bytes : Int)
    (ts : EncContext) :
    (mpegTsFillProgram heap pn info bytes ts).state.pid = (ts.pid + 1) % 2 ^ 16 := by
  unfold mpegTsFillProgram
  split
  · rfl
  · dsimp only
    split <;> rfl

theorem modifyPmt_nextPid_modifyPmt (ts : EncContext) (i : Nat)
    (change more : Pmt UInt8 → Pmt UInt8) (k : Nat) :
    ((ts.modifyPmt i change).nextPid.modifyPmt i more).pat.pmts.slots k =
      if k = i then more (change (ts.pat.pmts.slots k)) else ts.pat.pmts.slots k := by
  have first : (ts.modifyPmt i change).nextPid.pat.pmts.slots k = _ := modifyPmt_slots ts i change k
  rw [modifyPmt_slots, first]
  split <;> rfl

theorem mpegTsFillProgram_kept (heap : Heap) (pn : Nat) (info : Option (List UInt8)) (bytes : Int)
    (accounted : Accounted ts) (output : next.output = ts.output) (pid : next.pid = ts.pid)
    (cc : next.pat.cc = ts.pat.cc)
    (pmts : next.pat.pmts = ts.pat.pmts.set ts.pat.pmts.count (Pmt.zero UInt8))
    (room : (mpegTsFillProgram heap pn info bytes next).state.pid < 2 ^ 13) :
    Kept ts (mpegTsFillProgram heap pn info bytes next) := by
  have bounded := accounted.counted.bounded
  have increment : (next.pid + 1) % 2 ^ 16 = ts.pid + 1 := by
    rw [pid]
    exact Nat.mod_eq_of_lt (by omega)
  rw [mpegTsFillProgram_pid, increment] at room
  have count : next.pat.pmts.count = ts.pat.pmts.count := by rw [pmts]; rfl
  have others : ∀ k < ts.pat.pmts.count, ∀ change : Pmt UInt8 → Pmt UInt8,
      (next.modifyPmt next.pat.pmts.count change).pat.pmts.slots k = ts.pat.pmts.slots k := by
    intro k inside change
    rw [modifyPmt_slots, if_neg (by omega), pmts, SlotArray.set_other _ _ (by omega)]
  have cleared : next.pat.pmts.slots ts.pat.pmts.count = Pmt.zero UInt8 := by
    rw [pmts]
    exact SlotArray.set_same _ _ _
  have grown : ts.pid ≤ (next.pid + 1) % 2 ^ 16 := by omega
  have below : (next.pid + 1) % 2 ^ 16 < 2 ^ 13 := by omega
  -- while the entry is not in use, what stands in it does not matter
  have unfinished : ∀ change : Pmt UInt8 → Pmt UInt8,
      Accounted (next.modifyPmt next.pat.pmts.count change).nextPid := fun change =>
    accounted.spare output grown below cc count fun k inside => others k inside change
  unfold mpegTsFillProgram
  split
  · exact (unfinished _).kept grown
  · dsimp only
    split
    · exact (unfinished _).kept grown
    · refine Accounted.kept (accounted.addProgram output increment below cc ?_ ?_ ?_ ?_ ?_) grown
      · exact congrArg (· + 1) count
      · intro k inside
        have other : k ≠ next.pat.pmts.count := by omega
        simp only [mpegTsReset, modifyPmt_nextPid_modifyPmt, if_neg other]
        rw [pmts, SlotArray.set_other _ _ (by omega)]
      all_goals simp only [mpegTsReset, modifyPmt_nextPid_modifyPmt, count, if_true]
      · exact pid
      · rw [cleared]

theorem mpegTsAddProgram_kept (heap : Heap) (pn : Nat) (info : Option (List UInt8)) (bytes : Int)
    (accounted : Accounted ts)
    (room : (mpegTsAddProgram heap pn info bytes ts).state.pid < 2 ^ 13) :
    Kept ts (mpegTsAddProgram heap pn info bytes ts) := by
  have unchanged : ∀ result, Kept ts ⟨result, ts⟩ := fun _ => accounted.kept (Nat.le_refl _)
  revert room
  unfold mpegTsAddProgram
  split
  · exact fun _ => unchanged _
  · split
    · exact fun _ => unchanged _
    · split
      · exact fun _ => unchanged _
      · exact fun _ => unchanged _
      · rename_i pat allocated
        obtain ⟨cc, pmts⟩ := patAllocPmt_some allocated
        exact mpegTsFillProgram_kept heap pn info bytes accounted rfl rfl cc pmts

/-- Where the record stood before program `i` was removed. -/
def Counter.before (i : Nat) : Counter → Counter
  | .pat => .pat
  | .pmt k => .pmt (if k < i then k else k + 1)
  | .stream k l => .stream (if k < i then k else k + 1) l

theorem Counter.before_injective (i : Nat) (counter other : Counter)
    (same : counter.before i = other.before i) : counter = other := by
  have shift : ∀ k m, (if k < i then k else k + 1) = (if m < i then m else m + 1) → k = m := by
    intro k m equal
    split at equal <;> split at equal <;> omega
  cases counter <;> cases other <;>
    simp only [Counter.before, Counter.pmt.injEq, Counter.stream.injEq, reduceCtorEq] at same
  · rfl
  · rw [shift _ _ same]
  · rw [shift _ _ same.1, same.2]

theorem mpegTsRemoveProgram_kept (pn : Nat) (accounted : Accounted ts) :
    Kept ts (mpegTsRemoveProgram pn ts) := by
  unfold mpegTsRemoveProgram
  split
  · exact accounted.kept (Nat.le_refl _)
  · rename_i i found
    have inside := (SlotArray.find_some found).1
    have slots : ∀ k < ts.pat.pmts.count - 1, (ts.pat.pmts.removeAt i).slots k =
        ts.pat.pmts.slots (if k < i then k else k + 1) := fun k live =>
      SlotArray.removeAt_slots _ (by omega)
    have program : ∀ k < ts.pat.pmts.count - 1,
        (if k < i then k else k + 1) < ts.pat.pmts.count := by
      intro k live
      split <;> omega
    apply Accounted.kept
    · constructor
      · refine accounted.counted.rename rfl (Nat.le_refl _) accounted.counted.bounded
          (Counter.before i) (Counter.before_injective i) ?_ ?_
        · intro counter live
          cases counter with
          | pat => trivial
          | pmt k => exact program k live
          | stream k l =>
            refine ⟨program k live.1, ?_⟩
            rw [← slots k live.1]
            exact live.2
        · intro counter live
          cases counter with
          | pat => exact ⟨rfl, rfl⟩
          | pmt k =>
            have same := slots k live
            exact ⟨congrArg Pmt.pid same, congrArg Pmt.cc same⟩
          | stream k l =>
            have same := congrArg (fun pmt => pmt.streams.slots l) (slots k live.1)
            exact ⟨congrArg Pes.pid same, congrArg Pes.cc same⟩
      · intro k live l unused
        have same := slots k live
        have stream := congrArg (fun pmt => pmt.streams.slots l) same
        refine (congrArg Pes.cc stream).trans (accounted.cleared _ (program k live) l ?_)
        rw [← same]
        exact unused
    · exact Nat.le_refl _

end CLibs.MpegTs
