import CLibs.HeapTimerCalls

/-!
# The schedule of a timer event

An event that is never cancelled goes through the stages of its plan: it is in the array
with its next clock, or it has been taken out for that clock, or its clocks have run
out.  A run takes it through all clocks that are due.
-/

namespace CLibs.HeapTimers

open ArrayHeaps List

variable {Callback : Type} {system next : System Callback} {maxEvts ev now m k : Nat}
  {event : TimerEvent Callback}

/-- The first clock of an event, its interval, how often it is repeated, where `0` is for ever, and
whether it has a callback. -/
structure Plan where
  clock : Nat
  interval : Nat
  count : Nat
  called : Bool

/-- There is a clock with this number. -/
def Plan.HasNext (plan : Plan) (k : Nat) : Prop :=
  k = 0 ∨ 0 < plan.interval ∧ (plan.count = 0 ∨ k ≤ plan.count)

def Plan.clocks (plan : Plan) (m : Nat) : List Nat :=
  (List.range m).map fun k => plan.clock + k * plan.interval

/-- The clocks for which the callback is called, of the first ones. -/
def Plan.calls (plan : Plan) (m : Nat) : List Nat := if plan.called then plan.clocks m else []

/-- The clocks from one number to another are due. -/
def Plan.Due (plan : Plan) (now m last : Nat) : Prop :=
  m ≤ last ∧ ∀ k, m ≤ k → k < last → plan.clock + k * plan.interval ≤ now

variable {plan : Plan}

theorem Plan.Due.trans {middle : Nat} (first : plan.Due now m middle)
    (second : plan.Due now middle k) : plan.Due now m k := by
  refine ⟨first.1.trans second.1, fun place low high => ?_⟩
  rcases Nat.lt_or_ge place middle with before | behind
  · exact first.2 place low before
  · exact second.2 place behind high

theorem Plan.due_refl (plan : Plan) (now m : Nat) : plan.Due now m m :=
  ⟨Nat.le_refl m, fun _ low high => absurd high (Nat.not_lt_of_le low)⟩

theorem Plan.HasNext.of_le (next : plan.HasNext m) (le : k ≤ m) : plan.HasNext k := by
  unfold Plan.HasNext at *
  omega

theorem Plan.clocks_succ (plan : Plan) (m : Nat) :
    plan.clocks (m + 1) = plan.clocks m ++ [plan.clock + m * plan.interval] := by
  unfold Plan.clocks
  rw [range_succ, map_append, map_singleton]

/-! ## Stages -/

structure AtStage (plan : Plan) (k : Nat) (event : TimerEvent Callback) : Prop where
  enabled : event.enable = true
  cb : event.cb.isSome = plan.called
  clock : event.clock = plan.clock + k * plan.interval
  interval : event.interval = if 0 < plan.count ∧ plan.count ≤ k then 0 else plan.interval
  count : event.count = plan.count - k

theorem AtStage.repeats_iff (atStage : AtStage plan k event) :
    0 < event.interval ↔ plan.HasNext (k + 1) := by
  rw [atStage.interval]
  unfold Plan.HasNext
  split
  · omega
  · omega

theorem AtStage.step (atStage : AtStage plan k event) (repeats : 0 < event.interval)
    (noWrap : event.clock + event.interval < 2 ^ 64) : AtStage plan (k + 1) event.next := by
  have interval := atStage.interval
  have count := atStage.count
  have going : ¬(0 < plan.count ∧ plan.count ≤ k) := by
    intro past
    rw [if_pos past] at interval
    omega
  rw [if_neg going] at interval
  refine ⟨?_, ?_, ?_, ?_, ?_⟩
  · unfold TimerEvent.next
    dsimp only
    split
    · exact atStage.enabled
    · exact atStage.enabled
  · unfold TimerEvent.next
    dsimp only
    split
    · exact atStage.cb
    · exact atStage.cb
  · rw [next_clock noWrap, atStage.clock, interval, Nat.succ_mul, Nat.add_assoc]
  · unfold TimerEvent.next
    dsimp only
    by_cases counts : 0 < event.count
    · rw [if_pos counts]
      dsimp only
      rw [interval]
      exact if_congr (by omega) rfl rfl
    · rw [if_neg counts, if_neg (by omega)]
      exact interval
  · unfold TimerEvent.next
    dsimp only
    by_cases counts : 0 < event.count
    · rw [if_pos counts]
      dsimp only
      omega
    · rw [if_neg counts]
      dsimp only
      omega

/-- Where an event is that has been taken out for its first `m` clocks. -/
inductive Status (plan : Plan) (ev : Nat) (system : System Callback) : Nat → Prop
  | waiting {k : Nat} {event : TimerEvent Callback} (found : system.timer.events[ev]? = some event)
      (stage : AtStage plan k event) (listed : ev ∈ system.timer.heap)
      (free : ∀ called, system.mode ≠ .taken ev called) (next : plan.HasNext k) :
      Status plan ev system k
  | firing {k : Nat} {event : TimerEvent Callback} {called : Bool}
      (found : system.timer.events[ev]? = some event) (stage : AtStage plan k event)
      (mode : system.mode = .taken ev called) (next : plan.HasNext k) : Status plan ev system (k + 1)
  | finished {k : Nat} {event : TimerEvent Callback} (found : system.timer.events[ev]? = some event)
      (stage : AtStage plan k event) (absent : ev ∉ system.timer.heap)
      (free : ∀ called, system.mode ≠ .taken ev called) (next : plan.HasNext k)
      (last : ¬plan.HasNext (k + 1)) : Status plan ev system (k + 1)

/-- The clocks for which the callback of an event has been called. -/
def firings (log : List (Nat × Nat)) (ev : Nat) : List Nat :=
  (log.filter fun firing => firing.1 = ev).map Prod.snd

theorem firings_append (log more : List (Nat × Nat)) (ev : Nat) :
    firings (log ++ more) ev = firings log ev ++ firings more ev := by
  unfold firings
  rw [filter_append, map_append]

/-- The event is at a stage of its plan, and its callback has been called for the clocks before. -/
structure OnSchedule (plan : Plan) (ev : Nat) (system : System Callback) (m : Nat) : Prop where
  status : Status plan ev system m
  log : firings system.log ev = plan.calls m

theorem OnSchedule.listed_iff (onSchedule : OnSchedule plan ev system m)
    (free : ∀ called, system.mode ≠ .taken ev called) :
    ev ∈ system.timer.heap ↔ plan.HasNext m := by
  cases onSchedule.status with
  | waiting found stage listed free next => exact iff_of_true listed next
  | firing found stage mode next => exact absurd mode (free _)
  | finished found stage absent free next last => exact iff_of_false absent last

/-! ## Steps -/

theorem OnSchedule.tests (onSchedule : OnSchedule plan ev system m) (sound : Sound maxEvts system)
    (looping : system.mode = .looping) (tested : testLoop system now = .ok next) :
    ∃ last, OnSchedule plan ev next last ∧ plan.Due now m last := by
  obtain ⟨status, log⟩ := onSchedule
  rcases sound.test_eq now with ⟨ends, -⟩ | ⟨other, rest, heap, here, due, takes, perm, -⟩
  · rw [ends] at tested
    rw [← Except.ok.inj tested]
    refine ⟨m, ⟨?_, log⟩, plan.due_refl now m⟩
    cases status with
    | waiting found stage listed free next => exact .waiting found stage listed nofun next
    | firing found stage mode next => exact absurd (mode.symm.trans looping) nofun
    | finished found stage absent free next last => exact .finished found stage absent nofun next last
  · rw [takes] at tested
    rw [← Except.ok.inj tested]
    by_cases same : other = ev
    · subst same
      cases status with
      | waiting found stage listed free next =>
        rw [clock_of found, stage.clock] at due
        refine ⟨m + 1, ⟨.firing found stage rfl next, ?_⟩, Nat.le_succ m, fun k low high => ?_⟩
        · have calls : system.timer.calls other = plan.called := by
            unfold HeapTimer.calls HeapTimer.enabled HeapTimer.hasCallback
            rw [found, ← stage.cb, Option.map_some, Option.getD_some, stage.enabled]
            exact Bool.true_and _
          unfold Plan.calls at log ⊢
          dsimp only
          rw [calls]
          split
          · next called =>
              rw [if_pos called] at log
              rw [firings_append, log, plan.clocks_succ, clock_of found, stage.clock]
              simp [firings]
          · next silent =>
              rw [if_neg silent] at log
              exact log
        · rw [Nat.le_antisymm (Nat.le_of_lt_succ high) low]
          exact due
      | firing found stage mode next => exact absurd (mode.symm.trans looping) nofun
      | finished found stage absent free next last =>
        exact absurd (by rw [here]; exact mem_cons_self) absent
    · have member : ev ∈ heap ↔ ev ∈ system.timer.heap := by
        rw [here, mem_cons, perm.mem_iff]
        exact ⟨.inr, fun listed => listed.resolve_left (Ne.symm same)⟩
      have free' : ∀ called' : Bool,
          Mode.taken other (system.timer.calls other) ≠ .taken ev called' :=
        fun called' equal => same (Mode.taken.inj equal).1
      refine ⟨m, ⟨?_, ?_⟩, plan.due_refl now m⟩
      · cases status with
        | waiting found stage listed free next =>
          exact .waiting found stage (member.mpr listed) free' next
        | firing found stage mode next => exact absurd (mode.symm.trans looping) nofun
        | finished found stage absent free next last =>
          exact .finished found stage (fun listed => absent (member.mp listed)) free' next last
      · dsimp only
        split
        · rw [firings_append, log]
          simp [firings, same]
        · exact log

theorem OnSchedule.finishes {other : Nat} {called : Bool} {timer : HeapTimer Callback}
    (onSchedule : OnSchedule plan ev system m) (sound : Sound maxEvts system)
    (mode : system.mode = .taken other called) (room : HasRoom system) (noWrap : NoWrap system)
    (enqueued : eventReEnqueue system.timer other = .ok timer) :
    OnSchedule plan ev ⟨timer, .looping, system.log⟩ m := by
  obtain ⟨status, log⟩ := onSchedule
  refine ⟨?_, log⟩
  obtain ⟨absent', inside⟩ := sound.taken other called mode
  obtain ⟨event, found, cases⟩ := sound.reEnqueue_eq mode
    fun _ other called' mode' _ _ _ _ => room other called' mode'
  by_cases same : other = ev
  · subst same
    cases status with
    | waiting found' stage listed free next => exact absurd mode (free called)
    | firing found' stage mode' next =>
      obtain rfl := Option.some.inj (found.symm.trans found')
      rcases cases with ⟨stops, kept⟩ | ⟨-, repeats, heap, pushed, perm, -, -⟩
      · rw [kept] at enqueued
        rw [← Except.ok.inj enqueued]
        exact .finished found stage absent' nofun next
          fun further => stops ⟨stage.enabled, stage.repeats_iff.mpr further⟩
      · rw [pushed] at enqueued
        rw [← Except.ok.inj enqueued]
        have fits := noWrap other called mode event found stage.enabled repeats
        exact .waiting (List.getElem?_set_self inside) (stage.step repeats fits)
          (perm.mem_iff.mpr mem_cons_self) nofun (stage.repeats_iff.mp repeats)
    | finished found' stage absent free next last => exact absurd mode (free called)
  · rcases cases with ⟨-, kept⟩ | ⟨-, -, heap, pushed, perm, -, -⟩
    · rw [kept] at enqueued
      rw [← Except.ok.inj enqueued]
      cases status with
      | waiting found' stage listed free next => exact .waiting found' stage listed nofun next
      | firing found' stage mode' next =>
        exact absurd (Mode.taken.inj (mode.symm.trans mode')).1 same
      | finished found' stage absent free next last => exact .finished found' stage absent nofun next last
    · rw [pushed] at enqueued
      rw [← Except.ok.inj enqueued]
      have member : ev ∈ heap ↔ ev ∈ system.timer.heap := by
        rw [perm.mem_iff, mem_cons]
        exact ⟨fun listed => listed.resolve_left (Ne.symm same), .inr⟩
      have kept : (system.timer.events.set other event.next)[ev]? = system.timer.events[ev]? :=
        List.getElem?_set_ne same
      cases status with
      | waiting found' stage listed free next =>
        exact .waiting (kept.trans found') stage (member.mpr listed) nofun next
      | firing found' stage mode' next =>
        exact absurd (Mode.taken.inj (mode.symm.trans mode')).1 same
      | finished found' stage absent free next last =>
        exact .finished (kept.trans found') stage (fun listed => absent (member.mp listed)) nofun next
          last

theorem Visits.onSchedule {visited : System Callback} (visits : Visits now system visited)
    (idle : Idle maxEvts system) (fit : ClocksFit system (.run now))
    (onSchedule : OnSchedule plan ev system m) :
    ∃ last, OnSchedule plan ev visited last ∧ plan.Due now m last := by
  induction visits with
  | start =>
    refine ⟨m, ⟨?_, onSchedule.log⟩, plan.due_refl now m⟩
    cases onSchedule.status with
    | waiting found stage listed free next => exact .waiting found stage listed nofun next
    | firing found stage mode next => exact absurd (mode.symm.trans idle.outside) nofun
    | finished found stage absent free next last => exact .finished found stage absent nofun next last
  | @step middle after visits running advanced ih =>
    obtain ⟨reached, before, due⟩ := ih
    have inside := visits.inside idle.sound fit
    cases mode : middle.mode with
    | outside => exact absurd mode running
    | looping =>
      rw [advance_looping mode] at advanced
      obtain ⟨last, after, further⟩ := before.tests inside.sound mode advanced
      exact ⟨last, after, due.trans further⟩
    | taken other called =>
      rw [advance_taken mode] at advanced
      cases enqueued : eventReEnqueue middle.timer other with
      | error fault =>
        rw [enqueued] at advanced
        cases advanced
      | ok timer =>
        rw [enqueued] at advanced
        rw [← Except.ok.inj advanced]
        exact ⟨reached, before.finishes inside.sound mode inside.room (fit _ visits) enqueued,
          due⟩

theorem OnSchedule.registers (onSchedule : OnSchedule plan ev system m) (idle : Idle maxEvts system)
    {registration : Registration Callback} {timer : HeapTimer Callback}
    (registered : timerEventRegister system.timer registration = .ok timer) :
    OnSchedule plan ev { system with timer := timer } m := by
  rcases idle.sound.register_eq registration with same | ⟨heap, added, perm, -, -, -⟩
  · rw [same] at registered
    rw [← Except.ok.inj registered]
    exact onSchedule
  · rw [added] at registered
    rw [← Except.ok.inj registered]
    refine ⟨?_, onSchedule.log⟩
    have kept : ∀ {event : TimerEvent Callback}, system.timer.events[ev]? = some event →
        (system.timer.events ++ [registration.event])[ev]? = some event := by
      intro event found
      rw [List.getElem?_append_left (List.getElem?_eq_some_iff.mp found).1, found]
    cases onSchedule.status with
    | waiting found stage listed free next =>
      exact .waiting (kept found) stage (perm.mem_iff.mpr (mem_cons_of_mem _ listed)) free next
    | firing found stage mode next => exact absurd (mode.symm.trans idle.outside) nofun
    | finished found stage absent free next last =>
      refine .finished (kept found) stage (fun listed => ?_) free next last
      rcases mem_cons.mp (perm.mem_iff.mp listed) with rfl | listed
      · exact Nat.lt_irrefl _ (List.getElem?_eq_some_iff.mp found).1
      · exact absent listed

theorem OnSchedule.cancels (onSchedule : OnSchedule plan ev system m) {other : Nat}
    (ne : other ≠ ev) :
    OnSchedule plan ev { system with timer := timerEventCancel system.timer other } m := by
  have kept : (system.timer.events.modify other TimerEvent.disabled)[ev]? =
      system.timer.events[ev]? := by
    simp [ne]
  refine ⟨?_, onSchedule.log⟩
  cases onSchedule.status with
  | waiting found stage listed free next => exact .waiting (kept.trans found) stage listed free next
  | firing found stage mode next => exact .firing (kept.trans found) stage mode next
  | finished found stage absent free next last =>
    exact .finished (kept.trans found) stage absent free next last

end CLibs.HeapTimers

/-!
## The firings of a timer event

Between two calls the callback of an event has been called for exactly those of its clocks that
were due in some run since its registration.
-/

namespace CLibs.HeapTimers

open ArrayHeaps List

variable {Callback : Type} {system next : System Callback} {maxEvts ev now m k : Nat} {plan : Plan}

/-! ## Sequences of calls -/

/-- Between the calls `seen` since its registration: the event has been taken out for its first
clocks, each of them due in some run, and its next clock has not been due in any. -/
structure Fired (plan : Plan) (ev : Nat) (seen : List (Call Callback)) (system : System Callback)
    (m : Nat) : Prop where
  onSchedule : OnSchedule plan ev system m
  past : ∀ k < m, ∃ now, .run now ∈ seen ∧ plan.clock + k * plan.interval ≤ now
  ahead : plan.HasNext m → ∀ now, .run now ∈ seen → now < plan.clock + m * plan.interval

theorem OnSchedule.hasNext (onSchedule : OnSchedule plan ev system m) (below : k < m) :
    plan.HasNext k := by
  cases onSchedule.status with
  | waiting found stage listed free next => exact next.of_le (Nat.le_of_lt below)
  | firing found stage mode next => exact next.of_le (Nat.le_of_lt_succ below)
  | finished found stage absent free next last => exact next.of_le (Nat.le_of_lt_succ below)

theorem Fired.iff {seen : List (Call Callback)} (fired : Fired plan ev seen system m) (k : Nat) :
    k < m ↔ plan.HasNext k ∧
      ∃ now, .run now ∈ seen ∧ plan.clock + k * plan.interval ≤ now := by
  constructor
  · intro below
    exact ⟨fired.onSchedule.hasNext below, fired.past k below⟩
  · rintro ⟨next, now, ran, due⟩
    by_contra above
    have le : m ≤ k := Nat.le_of_not_lt above
    have early := fired.ahead (next.of_le le) now ran
    have more := Nat.mul_le_mul_right plan.interval le
    omega

theorem Fired.call {seen : List (Call Callback)} {call : Call Callback}
    (fired : Fired plan ev seen system m) (idle : Idle maxEvts system)
    (fit : ClocksFit system call) (stepped : CallSteps system call next)
    (kept : call ≠ .cancel ev) : ∃ m, Fired plan ev (seen ++ [call]) next m := by
  obtain ⟨onSchedule, past, ahead⟩ := fired
  have known : ∀ k < m, ∃ now, .run now ∈ seen ++ [call] ∧
      plan.clock + k * plan.interval ≤ now := by
    intro k below
    obtain ⟨now, ran, due⟩ := past k below
    exact ⟨now, mem_append_left _ ran, due⟩
  cases call with
  | register registration =>
    obtain ⟨timer, registered, rfl⟩ := stepped
    refine ⟨m, onSchedule.registers idle registered, known, fun next now ran => ?_⟩
    exact ahead next now ((mem_append.mp ran).resolve_right (by simp))
  | cancel other =>
    obtain ⟨-, rfl⟩ := stepped
    refine ⟨m, onSchedule.cancels (fun same => kept (by rw [same])), known, fun next now ran => ?_⟩
    exact ahead next now ((mem_append.mp ran).resolve_right (by simp))
  | run now =>
    obtain ⟨fuel, returned⟩ := stepped
    obtain ⟨visits, outside⟩ := runLoop_visits .start returned
    obtain ⟨m', after, le, new⟩ := visits.onSchedule idle fit onSchedule
    have inside := visits.inside idle.sound fit
    refine ⟨m', after, ?_, ?_⟩
    · intro k below
      rcases Nat.lt_or_ge k m with old | recent
      · exact known k old
      · exact ⟨now, mem_append_right _ mem_cons_self, new k recent below⟩
    · intro further reading ran
      rcases mem_append.mp ran with earlier | last
      · have before := ahead (further.of_le le) reading earlier
        have more := Nat.mul_le_mul_right plan.interval le
        omega
      · obtain rfl : reading = now := by simpa using last
        have free : ∀ called, next.mode ≠ .taken ev called := by
          rw [outside]
          exact nofun
        have listed := (after.listed_iff free).mpr further
        have late := inside.inRun.ended outside ev listed
        cases after.status with
        | waiting found stage listed free next =>
          rw [clock_of found, stage.clock] at late
          exact late
        | firing found stage mode next => exact absurd mode (free _)
        | finished found stage absent free next last => exact absurd listed absent

theorem Fired.calls {calls seen : List (Call Callback)}
    (run : Runs ClocksFit CallSteps system calls next) (fired : Fired plan ev seen system m)
    (idle : Idle maxEvts system) (kept : .cancel ev ∉ calls) :
    ∃ m, Fired plan ev (seen ++ calls) next m := by
  induction run generalizing seen m with
  | nil state =>
    rw [append_nil]
    exact ⟨m, fired⟩
  | cons fit stepped rest ih =>
    obtain ⟨m', after⟩ := fired.call idle fit stepped
      fun same => kept (by rw [same]; exact mem_cons_self)
    rw [append_cons]
    exact ih after (idle.call fit stepped) fun listed => kept (mem_cons_of_mem _ listed)

def Registration.planned (registration : Registration Callback) : Plan :=
  ⟨registration.now + registration.delay, registration.interval, registration.count,
    registration.cb.isSome⟩

theorem Idle.registered (idle : Idle maxEvts system) {registration : Registration Callback}
    (free : system.nevts < maxEvts) (memory : registration.allocated = true)
    (fit : ClocksFit system (.register registration))
    (stepped : CallSteps system (.register registration) next) :
    Fired registration.planned system.timer.events.length [] next 0 := by
  obtain ⟨timer, registered, rfl⟩ := stepped
  have size := idle.sound.size
  unfold System.nevts at free
  have accepted : ¬(system.timer.maxEvts ≤ system.timer.heap.length ∨
      registration.allocated = false) := by
    rintro (full | none)
    · omega
    · exact absurd (memory.symm.trans none) (by decide)
  have known : ∀ ev ∈ system.timer.heap,
      HeapTimer.clock { system.timer with events := system.timer.events ++ [registration.event] } ev =
        system.timer.clock ev := fun ev listed => clock_append (idle.sound.allocated ev listed) _ _
  obtain ⟨heap, pushed, perm, -⟩ := @eventHeapPush_eq _
    { system.timer with events := system.timer.events ++ [registration.event] }
    (idle.sound.ordered.congr known) (show system.timer.heap.length < system.timer.maxEvts by omega)
    system.timer.events.length
  unfold timerEventRegister at registered
  rw [if_neg accepted, pushed] at registered
  rw [← Except.ok.inj registered]
  refine ⟨⟨@Status.waiting _ _ _ _ 0 registration.event List.getElem?_concat_length ?_ ?_ ?_
    (.inl rfl), ?_⟩, nofun, nofun⟩
  · refine ⟨rfl, rfl, ?_, ?_, rfl⟩
    · change (registration.now + registration.delay) % 2 ^ 64 = _
      rw [Nat.mod_eq_of_lt fit, Nat.zero_mul]
      rfl
    · rw [if_neg (by omega)]
      rfl
  · exact perm.mem_iff.mpr mem_cons_self
  · intro called
    dsimp only
    rw [idle.outside]
    exact nofun
  · have none : registration.planned.calls 0 = [] := ite_self _
    change firings system.log system.timer.events.length = _
    rw [none]
    unfold firings
    rw [map_eq_nil_iff, filter_eq_nil_iff]
    intro firing listed
    have before := idle.sound.logged firing listed
    simp only [decide_eq_true_eq]
    omega

/-! ## All calls -/

/-- The array is a heap on the clocks and holds no event twice. -/
structure InOrder (system : System Callback) : Prop where
  isHeap : IsHeap system.timer.clock system.timer.heap
  nodup : system.timer.heap.Nodup

/-- The run ends; it calls the callbacks in the order of the clocks of their events and leaves no
event that is due. -/
def RunsInOrder (now : Nat) (system : System Callback) : Prop :=
  ∃ fuel next fired, heapTimerRun now fuel system = .ok next ∧ next.log = system.log ++ fired ∧
    (fired.map Prod.snd).Pairwise (· ≤ ·) ∧ ∀ ev ∈ next.timer.heap, now < next.timer.clock ev

/-- The callback of the event, if it has one, has been called for its first clocks, and the event
is in the array exactly if it has another one; an event whose callback is running is not. -/
def OnPlan (plan : Plan) (ev m : Nat) (system : System Callback) : Prop :=
  firings system.log ev = plan.calls m ∧
    ((∀ called, system.mode ≠ .taken ev called) → (ev ∈ system.timer.heap ↔ plan.HasNext m))

/-- In every state the array is in order and runs are; the callback of an event that is never
cancelled is called for the clocks of its plan and for no others, as soon as a run has reached
them. -/
theorem heapTimer_schedule {calls : List (Call Callback)}
    (run : Runs ClocksFit CallSteps (created maxEvts) calls system) :
    InOrder system ∧
    (∀ now, ClocksFit system (.run now) → RunsInOrder now system ∧
      ∀ visited, Visits now system visited → InOrder visited) ∧
    ∀ registration later last, registration.allocated = true → system.nevts < maxEvts →
      Runs ClocksFit CallSteps system (.register registration :: later) last →
      .cancel system.timer.events.length ∉ later →
      (∃ m, OnPlan registration.planned system.timer.events.length m last ∧
        ∀ k, k < m ↔ registration.planned.HasNext k ∧ ∃ now, .run now ∈ later ∧
          registration.planned.clock + k * registration.planned.interval ≤ now) ∧
      ∀ now, ClocksFit last (.run now) → ∀ visited, Visits now last visited →
        ∃ m, OnPlan registration.planned system.timer.events.length m visited := by
  have idle := run.invariant (fun _ _ _ idle fit stepped => Idle.call idle fit stepped)
    (created_idle maxEvts)
  refine ⟨⟨idle.sound.ordered, idle.sound.nodup⟩, fun now fit => ⟨?_, fun visited visits => ?_⟩, ?_⟩
  · obtain ⟨fuel, next, returned, fired, log, sorted, late⟩ := idle.returns fit
    exact ⟨fuel, next, fired, returned, log, sorted, late⟩
  · have sound := (visits.inside idle.sound fit).sound
    exact ⟨sound.ordered, sound.nodup⟩
  · intro registration later last memory free further kept
    cases further with
    | cons fit stepped rest =>
      have start := idle.registered free memory fit stepped
      have idle' := idle.call fit stepped
      obtain ⟨m, fired⟩ := start.calls rest idle' kept
      have ended := rest.invariant (fun _ _ _ idle fit stepped => Idle.call idle fit stepped) idle'
      rw [nil_append] at fired
      refine ⟨⟨m, ⟨fired.onSchedule.log, fired.onSchedule.listed_iff⟩, fired.iff⟩, ?_⟩
      intro now fits visited visits
      obtain ⟨m, onSchedule, -⟩ := visits.onSchedule ended fits fired.onSchedule
      exact ⟨m, onSchedule.log, onSchedule.listed_iff⟩

/-! ## Clocks that fit -/

theorem next_interval_le (event : TimerEvent Callback) : event.next.interval ≤ event.interval := by
  unfold TimerEvent.next
  dsimp only
  split
  · dsimp only
    split
    · exact Nat.zero_le _
    · exact Nat.le_refl _
  · exact Nat.le_refl _

theorem eventReEnqueue_events {timer after : HeapTimer Callback}
    (enqueued : eventReEnqueue timer ev = .ok after) {bound : Nat}
    (small : ∀ event ∈ timer.events, event.interval ≤ bound) :
    ∀ event ∈ after.events, event.interval ≤ bound := by
  unfold eventReEnqueue at enqueued
  split at enqueued
  · cases enqueued
  · rename_i event found
    split at enqueued
    · obtain ⟨heap, -, returned⟩ : ∃ heap, _ ∧ _ = Except.ok after := by
        unfold eventHeapPush at enqueued
        dsimp only at enqueued
        split at enqueued
        · cases enqueued
        · exact ok_of_bind enqueued
      rw [← Except.ok.inj returned]
      intro other listed
      rcases mem_or_eq_of_mem_set listed with old | rfl
      · exact small other old
      · exact le_trans (next_interval_le event) (small event (mem_of_getElem? found))
    · rw [← Except.ok.inj enqueued]
      exact small

theorem Idle.clocksFit (idle : Idle maxEvts system) {bound : Nat}
    (small : ∀ event ∈ system.timer.events, event.interval ≤ bound) (fits : now + bound < 2 ^ 64) :
    ClocksFit system (.run now) := by
  have noWrap : ∀ {visited : System Callback}, Inside maxEvts now system.log visited →
      (∀ event ∈ visited.timer.events, event.interval ≤ bound) → NoWrap visited := by
    intro visited inside small ev called mode event found _ _
    have early := (inside.inRun.taken ev called mode).1
    rw [clock_of found] at early
    have interval := small event (mem_of_getElem? found)
    omega
  have all : ∀ visited, Visits now system visited → Inside maxEvts now system.log visited ∧
      ∀ event ∈ visited.timer.events, event.interval ≤ bound := by
    intro visited visits
    induction visits with
    | start => exact ⟨idle.sound.begins, small⟩
    | @step middle after visits running advanced ih =>
      obtain ⟨inside, small⟩ := ih
      obtain ⟨other, same, further⟩ := inside.advances (noWrap inside small) running
      obtain rfl : other = after := Except.ok.inj (same.symm.trans advanced)
      refine ⟨further, ?_⟩
      cases mode : middle.mode with
      | outside => exact absurd mode running
      | looping =>
        rw [advance_looping mode] at advanced
        rcases inside.sound.test_eq now with ⟨ends, -⟩ | ⟨_, _, _, -, -, takes, -⟩
        · rw [ends] at advanced
          rw [← Except.ok.inj advanced]
          exact small
        · rw [takes] at advanced
          rw [← Except.ok.inj advanced]
          exact small
      | taken ev called =>
        rw [advance_taken mode] at advanced
        cases enqueued : eventReEnqueue middle.timer ev with
        | error fault =>
          rw [enqueued] at advanced
          cases advanced
        | ok timer =>
          rw [enqueued] at advanced
          rw [← Except.ok.inj advanced]
          exact eventReEnqueue_events enqueued small
  exact fun visited visits => noWrap (all visited visits).1 (all visited visits).2

/-- An event with two clocks is called at both, in two runs and around another event, and then
never again. -/
theorem heapTimer_schedule_once : ∃ last : System Unit,
    Runs ClocksFit CallSteps (created 2) [.register ⟨0, some (), 5, 3, 1, true⟩,
      .register ⟨0, some (), 7, 0, 0, true⟩, .run 5, .run 20] last ∧
      last.log = [(0, 5), (1, 7), (0, 8)] ∧ ∃ m, OnPlan ⟨5, 3, 1, true⟩ 0 m last ∧ ∀ k, k < m ↔
        Plan.HasNext ⟨5, 3, 1, true⟩ k ∧ ∃ now,
          Call.run now ∈ [.register ⟨0, some (), 7, 0, 0, true⟩, .run 5, (.run 20 : Call Unit)] ∧
          5 + k * 3 ≤ now := by
  have wide : ClocksFit (created 2) (.register ⟨0, some (), 5, 3, 1, true⟩ : Call Unit) :=
    show 0 + 5 < 2 ^ 64 by decide
  have first : CallSteps (created 2) (.register ⟨0, some (), 5, 3, 1, true⟩)
      (⟨⟨2, [0], [⟨5, some (), 5, 3, 1, true⟩]⟩, .outside, []⟩ : System Unit) := ⟨_, rfl, rfl⟩
  have also : ClocksFit (⟨⟨2, [0], [⟨5, some (), 5, 3, 1, true⟩]⟩, .outside, []⟩ : System Unit)
      (.register ⟨0, some (), 7, 0, 0, true⟩) := show 0 + 7 < 2 ^ 64 by decide
  have second : CallSteps (⟨⟨2, [0], [⟨5, some (), 5, 3, 1, true⟩]⟩, .outside, []⟩ : System Unit)
      (.register ⟨0, some (), 7, 0, 0, true⟩)
      ⟨⟨2, [0, 1], [⟨5, some (), 5, 3, 1, true⟩, ⟨7, some (), 7, 0, 0, true⟩]⟩, .outside, []⟩ :=
    ⟨_, rfl, rfl⟩
  have idle := ((created_idle 2).call wide first).call also second
  have fits : ClocksFit (⟨⟨2, [0, 1],
      [⟨5, some (), 5, 3, 1, true⟩, ⟨7, some (), 7, 0, 0, true⟩]⟩, .outside, []⟩ : System Unit)
      (.run 5) := @idle.clocksFit _ _ _ _ 3 (by simp) (by decide)
  have third : CallSteps (⟨⟨2, [0, 1],
      [⟨5, some (), 5, 3, 1, true⟩, ⟨7, some (), 7, 0, 0, true⟩]⟩, .outside, []⟩ : System Unit)
      (.run 5) ⟨⟨2, [1, 0],
        [⟨8, some (), 5, 0, 0, true⟩, ⟨7, some (), 7, 0, 0, true⟩]⟩, .outside, [(0, 5)]⟩ := ⟨4, rfl⟩
  have further : ClocksFit (⟨⟨2, [1, 0],
      [⟨8, some (), 5, 0, 0, true⟩, ⟨7, some (), 7, 0, 0, true⟩]⟩, .outside, [(0, 5)]⟩ : System Unit)
      (.run 20) :=
    @(idle.call fits third).clocksFit _ _ _ _ 3 (by simp) (by decide)
  have fourth : CallSteps (⟨⟨2, [1, 0],
      [⟨8, some (), 5, 0, 0, true⟩, ⟨7, some (), 7, 0, 0, true⟩]⟩, .outside, [(0, 5)]⟩ : System Unit)
      (.run 20) ⟨⟨2, [], [⟨8, some (), 5, 0, 0, true⟩, ⟨7, some (), 7, 0, 0, true⟩]⟩, .outside,
        [(0, 5), (1, 7), (0, 8)]⟩ := ⟨6, rfl⟩
  have run := Runs.cons wide first (.cons also second (.cons fits third (.cons further fourth
    (.nil _))))
  obtain ⟨-, -, planned⟩ := heapTimer_schedule (.nil (created 2 : System Unit))
  exact ⟨_, run, rfl, (planned _ _ _ rfl (by decide) run (by simp)).1⟩

end CLibs.HeapTimers
