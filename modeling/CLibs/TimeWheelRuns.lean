import CLibs.TimeWheelTicks

/-!
# Calls on the timing wheel

The invariant of the wheel between calls, and what each call does to it.  Every
call that passes the assertions of `twtimer_start` returns.
-/

namespace CLibs.Twtimer

variable {Timer : Type} [DecidableEq Timer]

/-- The clock with which the iteration of a running `twtimer_process` began. -/
def System.tick (system : System Timer) : Nat :=
  match system.running with
  | some running => running.tick
  | none => 0

/-- The invariant between calls.  `due` is the tick for which a timer was
started. -/
structure Scheduled (system : System Timer) (due : Timer → Nat) (lists : Slot → List Timer)
    (members : Finset Timer) : Prop where
  placement : Placement 0 system.tm system.tick due lists none members
  next_empty : lists .next = []
  bucket_empty : system.running = none → lists .bucket = []
  process : ∀ running, system.running = some running →
    running.clock < 2 ^ 64 ∧ system.tm.clock = running.tick + 1

/-- What a call does to the set of linked timers, to their ticks and to the
record of callbacks. -/
def Effect (system next : System Timer) (due due' : Timer → Nat)
    (members members' : Finset Timer) : Call Timer → Prop
  | .start timer expire =>
    due' = Function.update due timer (max expire system.tm.clock) ∧ timer ∉ members ∧
      members' = insert timer members ∧ next.fired = system.fired ∧
      next.tm.clock = system.tm.clock ∧ next.running = system.running
  | .stop timer =>
    due' = due ∧ members' = members.erase timer ∧ next.fired = system.fired ∧
      next.tm.clock = system.tm.clock ∧ next.running = system.running
  | .process _ | .resume =>
    due' = due ∧ system.tm.clock ≤ next.tm.clock ∧
      ((members' = members ∧ next.fired = system.fired) ∨
        ∃ timer ∈ members, members' = members.erase timer ∧
          next.fired = system.fired ++ [(timer, due timer)] ∧ due timer < next.tm.clock)

/-- A `twtimer_process` that returns has brought the wheel to its clock. -/
def Reaches (system next : System Timer) (call : Call Timer) : Prop :=
  next.running = none → ∀ clock, system.target call = some clock →
    next.tm.clock = max system.tm.clock clock

variable {system : System Timer} {due : Timer → Nat} {lists : Slot → List Timer}
variable {members : Finset Timer}

omit [DecidableEq Timer] in
theorem scheduled_timeWheelCreate (clock : Nat) (ontimeout : Timer → Bool) (due : Timer → Nat) :
    Scheduled (timeWheelCreate clock ontimeout) due (fun _ => []) ∅ := by
  have linked : (timeWheelCreate clock ontimeout).tm.links.Linked (fun _ => []) none ∅ := by
    constructor <;> simp [timeWheelCreate, Links.Chain, Links.LooseChain, Links.load]
  refine ⟨⟨linked, ?_, ?_, ?_⟩, rfl, fun _ => rfl, ?_⟩ <;> simp [timeWheelCreate]

theorem Scheduled.linked_iff (scheduled : Scheduled system due lists members) (timer : Timer) :
    (system.tm.links.pprev timer).isSome ↔ timer ∈ members := by
  have linked := scheduled.placement.linked
  constructor
  · intro isLinked
    by_contra outside
    simp [(linked.unlinked timer outside).1] at isLinked
  · intro member
    obtain ⟨slot, inList⟩ := (linked.mem_members timer).mp member
    obtain ⟨cell, back, _⟩ := (linked.chain slot (by simp)).load_pprev inList
    simp [back]

/-! ## One call -/

theorem Scheduled.start (scheduled : Scheduled system due lists members) {timer : Timer}
    {expire : Nat} (accepted : Accepted system (.start timer expire)) :
    ∃ value next due' lists' members',
      Returns (fun fuel => exec fuel system (.start timer expire)) (value, next) ∧
      Scheduled next due' lists' members' ∧
      Effect system next due due' members members' (.start timer expire) := by
  obtain ⟨_, callback, idle, near⟩ := accepted
  have outside : timer ∉ members := by
    rw [← scheduled.linked_iff timer, idle]
    simp
  have placement := scheduled.placement
  -- the timer is in no list, so its own fields do not matter yet
  have prepared : Placement 0
      { system.tm with expire := Function.update system.tm.expire timer expire } system.tick
      (Function.update due timer (max expire system.tm.clock)) lists none members := by
    refine ⟨placement.linked, placement.count, placement.ontimeout, ?_⟩
    intro slot other member
    have different : other ≠ timer := by
      rintro rfl
      exact outside (placement.mem_members member)
    change Waits 0 system.tm.clock system.tick (Function.update system.tm.expire timer expire other)
      (Function.update due timer (max expire system.tm.clock) other) slot
    rw [Function.update_of_ne different, Function.update_of_ne different]
    exact placement.waits slot other member
  obtain ⟨slot, notBucket, notNext, added, placed⟩ :=
    prepared.add outside callback (by simpa using near) (by simp) (.inl rfl)
  refine ⟨0, ⟨_, system.running, system.fired⟩, _, _, _, ⟨0, fun fuel _ => ?_⟩,
    ⟨placed, ?_, ?_, ?_⟩, rfl, outside, rfl, rfl, rfl, rfl⟩
  · simp only [exec, twtimerStart, callback, added]
    rfl
  · rw [Function.update_of_ne notNext.symm]
    exact scheduled.next_empty
  · intro idleProcess
    rw [Function.update_of_ne notBucket.symm]
    exact scheduled.bucket_empty idleProcess
  · exact scheduled.process

theorem Scheduled.stop (scheduled : Scheduled system due lists members) (timer : Timer) :
    ∃ next, Returns (fun fuel => exec fuel system (.stop timer))
        (if timer ∈ members then 0 else -1, next) ∧
      Scheduled next due (fun slot => (lists slot).erase timer) (members.erase timer) ∧
      Effect system next due due members (members.erase timer) (.stop timer) := by
  have placement := scheduled.placement
  have unlinked := placement.linked.unlink timer
  have nextEmpty : (lists .next).erase timer = [] := by simp [scheduled.next_empty]
  have bucketEmpty : system.running = none → (lists .bucket).erase timer = [] := by
    intro idle
    simp [scheduled.bucket_empty idle]
  have isLinked := scheduled.linked_iff timer
  cases back : system.tm.links.pprev timer with
  | some cell =>
    have member : timer ∈ members := isLinked.mp (by simp [back])
    refine ⟨⟨_, system.running, system.fired⟩, ⟨0, fun _ _ => ?_⟩,
      ⟨placement.erase member unlinked, nextEmpty, bucketEmpty, ?_⟩, rfl, rfl, rfl, rfl, rfl⟩
    · simp only [exec, twtimerStop, back, member, if_true]
    · exact scheduled.process
  | none =>
    have outside : timer ∉ members := by
      rw [← isLinked, back]
      simp
    have same : Placement 0 { system.tm with links := system.tm.links.unlink timer } system.tick
        due (fun slot => (lists slot).erase timer) none (members.erase timer) := by
      refine ⟨unlinked, ?_, ?_, ?_⟩
      · rw [Finset.erase_eq_of_notMem outside]
        exact placement.count
      · intro other member
        exact placement.ontimeout other (Finset.mem_of_mem_erase member)
      · intro slot other member
        exact placement.waits slot other (List.mem_of_mem_erase member)
    refine ⟨⟨_, system.running, system.fired⟩, ⟨0, fun _ _ => ?_⟩,
      ⟨same, nextEmpty, bucketEmpty, ?_⟩, rfl, rfl, rfl, rfl, rfl⟩
    · simp only [exec, twtimerStop, back, outside, if_false]
    · exact scheduled.process

theorem Scheduled.processLoop (scheduled : Scheduled system due lists members) (running : Running)
    (placement : Placement 0 system.tm running.tick due lists none members)
    (fits : running.clock < 2 ^ 64)
    (ticked : lists .bucket = [] ∨ system.tm.clock = running.tick + 1) :
    ∃ value next lists' members',
      Returns (fun fuel => (processLoop fuel system.tm running).map system.after) (value, next) ∧
      Scheduled next due lists' members' ∧
      Effect system next due due members members' .resume ∧
      (next.running = none → next.tm.clock = max system.tm.clock running.clock) := by
  obtain ⟨⟨outcome, tm⟩, lists', returns, -, -, nextEmpty, processed⟩ :=
    processLoop_returns placement (.inl rfl) scheduled.next_empty fits ticked
  have after := returns.map system.after
  cases outcome with
  | callback timer later =>
    obtain ⟨sameClock, clock, notBefore, member, isDue, placed⟩ := processed
    refine ⟨_, _, lists', _, after, ⟨placed, nextEmpty, ?_, ?_⟩,
      ⟨rfl, notBefore, .inr ⟨timer, member, rfl, ?_, ?_⟩⟩, nofun⟩
    · simp
    · rintro _ ⟨⟩
      exact ⟨by omega, clock⟩
    · rw [isDue]
    · rw [isDue]
      change later.tick < tm.clock
      omega
  | returned value =>
    obtain ⟨reached, bucketEmpty, placed⟩ := processed
    refine ⟨_, _, lists', _, after, ⟨placed _, nextEmpty, fun _ => bucketEmpty, ?_⟩,
      ⟨rfl, ?_, .inl ⟨rfl, rfl⟩⟩, fun _ => reached⟩
    · simp
    · exact (le_max_left _ _).trans_eq reached.symm

variable {call : Call Timer}

theorem Scheduled.returns (scheduled : Scheduled system due lists members)
    (accepted : Accepted system call) :
    ∃ value next due' lists' members', Returns (fun fuel => exec fuel system call) (value, next) ∧
      Scheduled next due' lists' members' ∧
      Effect system next due due' members members' call ∧ Reaches system next call := by
  cases call with
  | start timer expire =>
    obtain ⟨value, next, due', lists', members', returns, later, effect⟩ :=
      scheduled.start accepted
    exact ⟨value, next, due', lists', members', returns, later, effect, fun _ => nofun⟩
  | stop timer =>
    obtain ⟨next, returns, later, effect⟩ := scheduled.stop timer
    exact ⟨_, next, _, _, _, returns, later, effect, fun _ => nofun⟩
  | process clock =>
    obtain ⟨fits, idle⟩ := accepted
    have bucketEmpty := scheduled.bucket_empty idle
    obtain ⟨value, next, lists', members', returns, later, effect, reached⟩ :=
      scheduled.processLoop ⟨clock, system.tm.clock⟩ (scheduled.placement.retick bucketEmpty _)
        fits (.inl bucketEmpty)
    refine ⟨value, next, due, lists', members', returns, later, effect, fun ended => ?_⟩
    rintro _ ⟨⟩
    exact reached ended
  | resume =>
    obtain ⟨running, isRunning⟩ := Option.ne_none_iff_exists'.mp accepted
    obtain ⟨fits, clock⟩ := scheduled.process running isRunning
    have placement : Placement 0 system.tm running.tick due lists none members := by
      have tick : system.tick = running.tick := by simp [System.tick, isRunning]
      rw [← tick]
      exact scheduled.placement
    obtain ⟨value, next, lists', members', returns, later, effect, reached⟩ :=
      scheduled.processLoop running placement fits (.inr clock)
    refine ⟨value, next, due, lists', members', ?_, later, effect, fun ended clock same => ?_⟩
    · simpa only [exec, isRunning] using returns
    · obtain rfl : running.clock = clock := by simpa [System.target, isRunning] using same
      exact reached ended

theorem accepted_of_step {next : System Timer} (allowed : Allowed system call)
    (step : Step system call next) : Accepted system call := by
  cases call with
  | start timer expire =>
    obtain ⟨value, enough, returns⟩ := step
    have returned := returns enough (le_refl _)
    simp only [exec, twtimerStart, twtimerAdd, Function.update_self] at returned
    split at returned
    · cases returned
    split at returned
    · cases returned
    rename_i callback idle
    cases chosen : slotFor system.tm.clock expire with
    | none =>
      rw [chosen] at returned
      cases returned
    | some slot =>
      exact ⟨allowed, by simpa using callback, by simpa using idle,
        near_of_slotFor allowed chosen⟩
  | stop timer => exact allowed
  | process clock => exact allowed
  | resume => exact allowed

theorem Scheduled.step (scheduled : Scheduled system due lists members)
    {next : System Timer} (allowed : Allowed system call) (step : Step system call next) :
    ∃ due' lists' members', Scheduled next due' lists' members' ∧
      Effect system next due due' members members' call ∧ Reaches system next call := by
  obtain ⟨value, next', due', lists', members', returns, later, effect⟩ :=
    scheduled.returns (accepted_of_step allowed step)
  obtain ⟨value', stepped⟩ := step
  obtain ⟨rfl, rfl⟩ := Prod.mk.inj (returns.unique stepped)
  exact ⟨due', lists', members', later, effect⟩

theorem exists_scheduled {clock : Nat} {ontimeout : Timer → Bool} {calls : List (Call Timer)}
    (run : Runs Allowed Step (timeWheelCreate clock ontimeout) calls system) :
    ∃ due lists members, Scheduled system due lists members := by
  have initial : ∃ due lists members,
      Scheduled (timeWheelCreate clock ontimeout) due lists members :=
    ⟨fun _ => 0, _, _, scheduled_timeWheelCreate clock ontimeout _⟩
  apply run.invariant _ initial
  rintro state call next ⟨due, lists, members, scheduled⟩ allowed step
  obtain ⟨due', lists', members', later, _⟩ := scheduled.step allowed step
  exact ⟨due', lists', members', later⟩

end CLibs.Twtimer

/-!
## Runs of the timing wheel

Two results about whole runs: the lists stay intact, and every timer fires
once, at the tick it is due.
-/

namespace CLibs.Twtimer

variable {Timer : Type} [DecidableEq Timer]
variable {system : System Timer} {due : Timer → Nat} {lists : Slot → List Timer}
variable {members : Finset Timer}

/-! ## The lists -/

def IsLinked (tm : TimeWheel Timer) (timer : Timer) : Prop :=
  ∃ slot, tm.links.OnList (.head slot) timer

/-- The lists of the wheel and of a running `twtimer_process` are intact. -/
structure Integrity (tm : TimeWheel Timer) : Prop where
  pprev_points : ∀ timer, IsLinked tm timer →
    ∃ cell, tm.links.pprev timer = some cell ∧ tm.links.load cell = some timer
  next_points_back : ∀ timer, IsLinked tm timer → ∀ successor,
    tm.links.next timer = some successor → tm.links.pprev successor = some (.next timer)
  in_one_list : ∀ timer first second, tm.links.OnList (.head first) timer →
    tm.links.OnList (.head second) timer → first = second
  pprev_iff : ∀ timer, tm.links.pprev timer ≠ none ↔ IsLinked tm timer
  next_unused : tm.links.first .next = none
  count_eq : ∃ linked : Finset Timer, (∀ timer, timer ∈ linked ↔ IsLinked tm timer) ∧
    tm.count = linked.card
  stop_iff : ∀ timer, (twtimerStop tm timer).1 = 0 ↔ IsLinked tm timer

omit [DecidableEq Timer] in
theorem Scheduled.isLinked_iff (scheduled : Scheduled system due lists members) (timer : Timer) :
    IsLinked system.tm timer ↔ timer ∈ members := by
  have linked := scheduled.placement.linked
  rw [linked.mem_members]
  apply exists_congr
  intro slot
  exact (linked.chain slot (by simp)).onList_iff timer

theorem Scheduled.integrity (scheduled : Scheduled system due lists members) :
    Integrity system.tm := by
  have linked := scheduled.placement.linked
  have chain : ∀ slot, system.tm.links.Chain (.head slot) (lists slot) := fun slot =>
    linked.chain slot (by simp)
  have inList : ∀ {timer}, IsLinked system.tm timer → ∃ slot, timer ∈ lists slot := by
    rintro timer ⟨slot, onList⟩
    exact ⟨slot, ((chain slot).onList_iff timer).mp onList⟩
  have pprevIff : ∀ timer, system.tm.links.pprev timer ≠ none ↔ IsLinked system.tm timer := by
    intro timer
    rw [scheduled.isLinked_iff, ← scheduled.linked_iff, Option.isSome_iff_ne_none]
  constructor
  · intro timer isLinked
    obtain ⟨slot, member⟩ := inList isLinked
    exact (chain slot).load_pprev member
  · intro timer isLinked successor follows
    obtain ⟨slot, member⟩ := inList isLinked
    exact ((chain slot).pprev_next member follows).2
  · intro timer first second onFirst onSecond
    apply linked.unique
    · exact ((chain first).onList_iff timer).mp onFirst
    · exact ((chain second).onList_iff timer).mp onSecond
  · exact pprevIff
  · rw [linked.first_eq, scheduled.next_empty]
    rfl
  · exact ⟨members, fun timer => (scheduled.isLinked_iff timer).symm, scheduled.placement.count⟩
  · intro timer
    rw [← pprevIff]
    cases back : system.tm.links.pprev timer <;> simp [twtimerStop, back]

/-- The lists are intact in every state that any run reaches while the lock is
free. -/
theorem integrity_of_run {clock : Nat} {ontimeout : Timer → Bool} {calls : List (Call Timer)}
    {system : System Timer}
    (run : Runs Allowed Step (timeWheelCreate clock ontimeout) calls system) :
    Integrity system.tm := by
  obtain ⟨due, lists, members, scheduled⟩ := exists_scheduled run
  exact scheduled.integrity

/-- The state behind some calls on two timers, with fuel for twenty turns of a loop. -/
def afterCalls (calls : List (Call Bool)) : System Bool :=
  calls.foldl (fun system call => ((exec 20 system call).toOption.map Prod.snd).getD system)
    (timeWheelCreate 0 fun _ => true)

/-- Two timers wait in one bucket; the callback of the one that fires stops the other. -/
theorem integrity_of_run_two :
    ∃ system, Runs Allowed Step (timeWheelCreate 0 fun _ : Bool => true)
      [.start true 3, .start false 3, .process 5, .stop true, .resume] system ∧
      system.fired = [(false, 3)] ∧ system.tm.clock = 5 ∧ Integrity system.tm := by
  have started : Step (afterCalls []) (.start true 3) (afterCalls [.start true 3]) :=
    ⟨_, .of_add 20 fun _ => rfl⟩
  have both : Step (afterCalls [.start true 3]) (.start false 3)
      (afterCalls [.start true 3, .start false 3]) := ⟨_, .of_add 20 fun _ => rfl⟩
  have fired : Step (afterCalls [.start true 3, .start false 3]) (.process 5)
      (afterCalls [.start true 3, .start false 3, .process 5]) := ⟨_, .of_add 20 fun _ => rfl⟩
  have stopped : Step (afterCalls [.start true 3, .start false 3, .process 5]) (.stop true)
      (afterCalls [.start true 3, .start false 3, .process 5, .stop true]) :=
    ⟨_, .of_add 20 fun _ => rfl⟩
  have ended : Step (afterCalls [.start true 3, .start false 3, .process 5, .stop true]) .resume
      (afterCalls [.start true 3, .start false 3, .process 5, .stop true, .resume]) :=
    ⟨_, .of_add 20 fun _ => rfl⟩
  have run : Runs Allowed Step (timeWheelCreate 0 fun _ : Bool => true)
      [.start true 3, .start false 3, .process 5, .stop true, .resume] _ :=
    .cons (by decide : 3 < 2 ^ 64) started (.cons (by decide : 3 < 2 ^ 64) both
      (.cons ⟨by decide, rfl⟩ fired (.cons trivial stopped (.cons nofun ended (.nil _)))))
  exact ⟨_, run, rfl, rfl, integrity_of_run run⟩

/-! ## The callbacks -/

def invocations (timer : Timer) (record : List (Timer × Nat)) : List (Timer × Nat) :=
  record.filter fun entry => entry.1 = timer

/-- Since it was started the timer has been called at most once and at its tick: not before the
clock has passed it, and behind it certainly. -/
structure FiresOnce (system : System Timer) (timer : Timer) (due : Nat)
    (since : List (Timer × Nat)) : Prop where
  at_most_once : invocations timer since = [] ∨ invocations timer since = [(timer, due)]
  not_early : system.tm.clock ≤ due → invocations timer since = []
  not_late : due < system.tm.clock →
    (∀ running, system.running = some running → running.tick ≠ due) →
    invocations timer since = [(timer, due)]
  when_idle : system.tm.links.pprev timer = none → invocations timer since = [(timer, due)]

/-- The invariant for one timer: it waits, or it has been invoked on time. -/
def Tracked (timer : Timer) (tick : Nat) (record : List (Timer × Nat))
    (system : System Timer) : Prop :=
  ∃ due lists members, Scheduled system due lists members ∧ due timer = tick ∧
    ∃ since, system.fired = record ++ since ∧
      ((timer ∈ members ∧ invocations timer since = []) ∨
        (timer ∉ members ∧ tick < system.tm.clock ∧ invocations timer since = [(timer, tick)]))

variable {timer : Timer} {record : List (Timer × Nat)}

theorem Tracked.step {tick : Nat}
    {next : System Timer} {call : Call Timer} (tracked : Tracked timer tick record system)
    (allowed : Allowed system call) (step : Step system call next)
    (notStopped : call ≠ .stop timer) (notStarted : ∀ expire, call ≠ .start timer expire) :
    Tracked timer tick record next := by
  obtain ⟨due, lists, members, scheduled, dueTick, since, record_eq, state⟩ := tracked
  obtain ⟨due', lists', members', later, effect, -⟩ := scheduled.step allowed step
  cases call with
  | start other expire =>
    obtain ⟨rfl, _, rfl, sameRecord, sameClock, _⟩ := effect
    have different : timer ≠ other := by
      rintro rfl
      exact notStarted expire rfl
    refine ⟨_, lists', _, later, ?_, since, sameRecord.trans record_eq, ?_⟩
    · rw [Function.update_of_ne different]
      exact dueTick
    · rw [Finset.mem_insert, sameClock]
      simpa [different] using state
  | stop other =>
    obtain ⟨rfl, rfl, sameRecord, sameClock, _⟩ := effect
    have different : timer ≠ other := by
      rintro rfl
      exact notStopped rfl
    refine ⟨_, lists', _, later, dueTick, since, sameRecord.trans record_eq, ?_⟩
    rw [Finset.mem_erase, sameClock]
    simpa [different] using state
  | process _ | resume =>
    obtain ⟨rfl, notBefore, ⟨rfl, sameRecord⟩ | ⟨fired, member, rfl, newRecord, past⟩⟩ := effect
    · refine ⟨_, lists', _, later, dueTick, since, sameRecord.trans record_eq, ?_⟩
      exact state.imp id fun done => ⟨done.1, by omega, done.2.2⟩
    · refine ⟨_, lists', _, later, dueTick, since ++ [(fired, due' fired)], ?_, ?_⟩
      · rw [newRecord, record_eq, List.append_assoc]
      · by_cases same : fired = timer
        · subst same
          have waiting := state.resolve_right fun done => done.1 member
          refine .inr ⟨Finset.notMem_erase _ _, by omega, ?_⟩
          rw [invocations, List.filter_append]
          change invocations fired since ++ _ = _
          rw [waiting.2, dueTick]
          simp
        · have unchanged : invocations timer (since ++ [(fired, due' fired)]) =
              invocations timer since := by
            simp [invocations, same]
          rw [Finset.mem_erase, unchanged]
          rcases state with waiting | done
          · exact .inl ⟨⟨Ne.symm same, waiting.1⟩, waiting.2⟩
          · exact .inr ⟨fun inside => done.1 inside.2, by omega, done.2.2⟩

theorem Tracked.run {tick : Nat}
    {first last : System Timer} {calls : List (Call Timer)}
    (run : Runs Allowed Step first calls last) (tracked : Tracked timer tick record first)
    (notStopped : .stop timer ∉ calls) (notStarted : ∀ expire, .start timer expire ∉ calls) :
    Tracked timer tick record last := by
  induction run with
  | nil state => exact tracked
  | cons allowed step rest ih =>
    simp only [List.mem_cons, not_or] at notStopped notStarted
    apply ih _ notStopped.2 fun expire => (notStarted expire).2
    apply tracked.step allowed step (Ne.symm notStopped.1)
    intro expire
    exact Ne.symm (notStarted expire).1

omit [DecidableEq Timer] in
theorem Scheduled.due_of_mem (scheduled : Scheduled system due lists members)
    (member : timer ∈ members) (past : due timer < system.tm.clock) :
    ∃ running, system.running = some running ∧ running.tick = due timer := by
  obtain ⟨slot, inList⟩ := (scheduled.placement.linked.mem_members timer).mp member
  have waits := scheduled.placement.waits slot timer inList
  cases slot with
  | tv1 index =>
    have notPast := waits.1
    omega
  | tvn level index =>
    have fromClock := waits.2.2.2.1
    have lower := base_le level (due timer)
    omega
  | next =>
    rw [scheduled.next_empty] at inList
    cases inList
  | bucket =>
    cases running : system.running with
    | none =>
      rw [scheduled.bucket_empty running] at inList
      cases inList
    | some process =>
      have isTick : due timer = system.tick := waits
      refine ⟨process, rfl, ?_⟩
      rw [isTick, System.tick, running]

theorem Tracked.firesOnce {tick : Nat}
    (tracked : Tracked timer tick record system) :
    ∃ since, system.fired = record ++ since ∧ FiresOnce system timer tick since := by
  obtain ⟨due, lists, members, scheduled, dueTick, since, record_eq, state⟩ := tracked
  refine ⟨since, record_eq, ?_, ?_, ?_, ?_⟩
  · exact state.imp And.right fun done => done.2.2
  · intro notPast
    exact (state.resolve_right fun done => by omega).2
  · intro past ended
    refine (state.resolve_left fun waiting => ?_).2.2
    obtain ⟨running, isRunning, isTick⟩ :=
      scheduled.due_of_mem waiting.1 (by rw [dueTick]; exact past)
    exact ended running isRunning (isTick.trans dueTick)
  · intro idle
    refine (state.resolve_left fun waiting => ?_).2.2
    have isSome := (scheduled.linked_iff timer).mpr waiting.1
    simp [idle] at isSome

/-- A timer that is started and not stopped is invoked once, in the iteration whose clock is the
later one of its expiry and the clock at its start.  The calls after the start are those before the
timer is started again. -/
theorem fires_once_when_due {clock : Nat} {ontimeout : Timer → Bool}
    {calls more : List (Call Timer)} {before started last : System Timer}
    {expire : Nat}
    (run : Runs Allowed Step (timeWheelCreate clock ontimeout) calls before)
    (allowed : Allowed before (.start timer expire))
    (start : Step before (.start timer expire) started)
    (continued : Runs Allowed Step started more last)
    (notStopped : .stop timer ∉ more) (notStarted : ∀ again, .start timer again ∉ more) :
    (∃ since, last.fired = started.fired ++ since ∧
      FiresOnce last timer (max expire before.tm.clock) since) ∧
    (∀ call, Accepted last call → ∃ next, Step last call next) ∧
    ∀ call next, Allowed last call → Step last call next → Reaches last next call := by
  obtain ⟨due, lists, members, scheduled⟩ := exists_scheduled run
  obtain ⟨due', lists', members', later, effect, -⟩ := scheduled.step allowed start
  have tracked : Tracked timer (max expire before.tm.clock) started.fired started := by
    refine ⟨due', lists', members', later, ?_, [], by simp, .inl ⟨?_, rfl⟩⟩
    · rw [effect.1, Function.update_self]
    · rw [effect.2.2.1]
      exact Finset.mem_insert_self _ _
  have lastTracked := Tracked.run continued tracked notStopped notStarted
  obtain ⟨due, lists, members, lastScheduled, -⟩ := id lastTracked
  refine ⟨lastTracked.firesOnce, fun call accepted => ?_, fun call next allowed step => ?_⟩
  · obtain ⟨value, next, -, -, -, returns, -⟩ := lastScheduled.returns accepted
    exact ⟨next, value, returns⟩
  · obtain ⟨-, -, -, -, -, reaches⟩ := lastScheduled.step allowed step
    exact reaches

/-- The timer has fired, at its tick, when `twtimer_process` returns. -/
theorem fires_once_when_due_three :
    ∃ started called last, Step (timeWheelCreate 0 fun _ : Bool => true) (.start true 3) started ∧
      Runs Allowed Step started [.process 5] called ∧ Step called .resume last ∧
      FiresOnce called true 3 [(true, 3)] ∧ Reaches called last .resume ∧
      last.fired = [(true, 3)] ∧ last.running = none ∧ last.tm.clock = 5 := by
  have start : Step (afterCalls []) (.start true 3) (afterCalls [.start true 3]) :=
    ⟨_, .of_add 20 fun _ => rfl⟩
  have fired : Step (afterCalls [.start true 3]) (.process 5)
      (afterCalls [.start true 3, .process 5]) := ⟨_, .of_add 20 fun _ => rfl⟩
  have ended : Step (afterCalls [.start true 3, .process 5]) .resume
      (afterCalls [.start true 3, .process 5, .resume]) := ⟨_, .of_add 20 fun _ => rfl⟩
  have continued : Runs Allowed Step (afterCalls [.start true 3]) [.process 5] _ :=
    .cons ⟨by decide, rfl⟩ fired (.nil _)
  obtain ⟨⟨since, recorded, once⟩, -, reaches⟩ := fires_once_when_due (.nil _)
    (by decide : 3 < 2 ^ 64) start continued (by simp) (by simp)
  obtain rfl : since = [(true, 3)] := recorded.symm
  exact ⟨_, _, _, start, continued, ended, once, reaches _ _ nofun ended, rfl, rfl, rfl⟩

end CLibs.Twtimer
