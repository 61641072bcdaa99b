import CLibs.HeapTimerRuns

/-!
# Calls of the heap timer

With callbacks that leave the timer alone, `heap_timer_run` with a fixed clock is a loop
of its own: it takes the events in the order of their clocks, and ends when no event in
the array is due.  Every event that is put back has come closer to the clock of the run.
-/

namespace CLibs.HeapTimers

open ArrayHeaps List

variable {Callback : Type} {system next : System Callback} {maxEvts ev now : Nat}

/-! ## The loop -/

/-- The next step of a run whose callbacks leave the timer alone. -/
def advance (now : Nat) (system : System Callback) : Except Fault (System Callback) :=
  match system.mode with
  | .outside => .ok system
  | .looping => testLoop system now
  | .taken ev _ =>
    (eventReEnqueue system.timer ev).map fun timer => ⟨timer, .looping, system.log⟩

def runLoop (now : Nat) : (fuel : Nat) → System Callback → Except Fault (System Callback)
  | 0, _ => .error .fuel
  | fuel + 1, system =>
    if system.mode = .outside then .ok system else advance now system >>= runLoop now fuel

/-- `heap_timer_run`, with a clock that always reads the same. -/
def heapTimerRun (now fuel : Nat) (system : System Callback) : Except Fault (System Callback) :=
  runLoop now fuel { system with mode := .looping }

/-- The states of a run, from its start on. -/
inductive Visits (now : Nat) (system : System Callback) : System Callback → Prop
  | start : Visits now system { system with mode := .looping }
  | step {middle next : System Callback} (visits : Visits now system middle)
      (inside : middle.mode ≠ .outside) (advanced : advance now middle = .ok next) :
      Visits now system next

/-- The clock of an event that is set again does not wrap. -/
def NoWrap (system : System Callback) : Prop :=
  ∀ ev called, system.mode = .taken ev called → ∀ event, system.timer.events[ev]? = some event →
    event.enable = true → 0 < event.interval → event.clock + event.interval < 2 ^ 64

/-- Between a test and the end of the loop body there is a place for the event. -/
def HasRoom (system : System Callback) : Prop :=
  ∀ ev called, system.mode = .taken ev called → system.nevts < system.timer.maxEvts

/-! ## What holds inside a run -/

/-- The log of a run is in the order of the clocks, which have not passed the ones in the array. -/
structure InRun (now : Nat) (before : List (Nat × Nat)) (system : System Callback) : Prop where
  log : ∃ fired, system.log = before ++ fired ∧
    (fired.map Prod.snd).Pairwise (· ≤ ·) ∧ (∀ firing ∈ fired, firing.2 ≤ now) ∧
    (system.mode = .looping → ∀ firing ∈ fired, ∀ ev ∈ system.timer.heap,
      firing.2 ≤ system.timer.clock ev) ∧
    (∀ ev called, system.mode = .taken ev called →
      ∀ firing ∈ fired, firing.2 ≤ system.timer.clock ev)
  taken : ∀ ev called, system.mode = .taken ev called → system.timer.clock ev ≤ now ∧
    ∀ other ∈ system.timer.heap, system.timer.clock ev ≤ system.timer.clock other
  ended : system.mode = .outside → ∀ ev ∈ system.timer.heap, now < system.timer.clock ev

variable {timer : HeapTimer Callback}

theorem clock_of {event : TimerEvent Callback} (found : timer.events[ev]? = some event) :
    timer.clock ev = event.clock := by
  unfold HeapTimer.clock
  rw [found]
  rfl

theorem next_clock {event : TimerEvent Callback}
    (noWrap : event.clock + event.interval < 2 ^ 64) :
    event.next.clock = event.clock + event.interval := by
  have same : event.next.clock = (event.clock + event.interval) % 2 ^ 64 := by
    unfold TimerEvent.next
    dsimp only
    split
    · rfl
    · rfl
  rw [same, Nat.mod_eq_of_lt noWrap]

theorem clock_set_self (inside : ev < timer.events.length) (event : TimerEvent Callback)
    (heap : List Nat) :
    HeapTimer.clock ⟨maxEvts, heap, timer.events.set ev event⟩ ev = event.clock :=
  clock_of (List.getElem?_set_self inside)

variable {before : List (Nat × Nat)}

theorem InRun.tests (inRun : InRun now before system) (sound : Sound maxEvts system)
    (looping : system.mode = .looping) (tested : testLoop system now = .ok next) :
    InRun now before next := by
  obtain ⟨fired, log, sorted, due, behind, -⟩ := inRun.log
  have ordered := sound.ordered
  rcases sound.test_eq now with ⟨ends, later⟩ | ⟨ev, rest, heap, here, early, takes, perm, -⟩
  · rw [ends] at tested
    rw [← Except.ok.inj tested]
    exact ⟨⟨fired, log, sorted, due, nofun, nofun⟩, nofun, fun _ => later⟩
  · rw [takes] at tested
    rw [← Except.ok.inj tested]
    rw [here] at ordered
    have least : ∀ other ∈ heap, system.timer.clock ev ≤ system.timer.clock other :=
      fun other listed => ordered.le_of_mem (mem_cons_of_mem _ (perm.mem_iff.mp listed))
    have past := fun firing listed => behind looping firing listed ev (by
      rw [here]
      exact mem_cons_self)
    refine ⟨?_, ?_, nofun⟩
    · by_cases calls : system.timer.calls ev = true
      · refine ⟨fired ++ [(ev, system.timer.clock ev)], ?_, ?_, ?_, nofun, ?_⟩
        · dsimp only
          rw [if_pos calls, log, append_assoc]
        · rw [map_append, pairwise_append]
          refine ⟨sorted, pairwise_singleton _ _, ?_⟩
          intro clock listed last same
          obtain ⟨firing, member, rfl⟩ := mem_map.mp listed
          rw [mem_singleton.mp same]
          exact past firing member
        · exact forall_mem_append.mpr ⟨due, forall_mem_singleton.mpr early⟩
        · intro other called' mode firing listed
          obtain ⟨rfl, -⟩ := Mode.taken.inj mode
          rcases mem_append.mp listed with listed | listed
          · exact past firing listed
          · rw [mem_singleton.mp listed]
            exact le_refl _
      · refine ⟨fired, ?_, sorted, due, nofun, ?_⟩
        · dsimp only
          rw [if_neg calls, log]
        · intro other called' mode firing listed
          obtain ⟨rfl, -⟩ := Mode.taken.inj mode
          exact past firing listed
    · intro other called' mode
      obtain ⟨rfl, -⟩ := Mode.taken.inj mode
      exact ⟨early, least⟩

theorem InRun.finishes {called : Bool} (inRun : InRun now before system)
    (sound : Sound maxEvts system) (mode : system.mode = .taken ev called) (room : HasRoom system)
    (noWrap : NoWrap system) (enqueued : eventReEnqueue system.timer ev = .ok timer) :
    InRun now before ⟨timer, .looping, system.log⟩ := by
  obtain ⟨fired, log, sorted, due, -, past⟩ := inRun.log
  obtain ⟨early, least⟩ := inRun.taken ev called mode
  obtain ⟨absent, inside⟩ := sound.taken ev called mode
  obtain ⟨event, found, ⟨-, same⟩ | ⟨enabled, repeats, heap, pushed, perm, -, -⟩⟩ :=
    sound.reEnqueue_eq mode fun _ other called' mode' _ _ _ _ => room other called' mode'
  · rw [same] at enqueued
    rw [← Except.ok.inj enqueued]
    exact ⟨⟨fired, log, sorted, due, fun _ firing listed other member =>
      le_trans (past ev called mode firing listed) (least other member), nofun⟩, nofun, nofun⟩
  · rw [pushed] at enqueued
    rw [← Except.ok.inj enqueued]
    refine ⟨⟨fired, log, sorted, due, ?_, nofun⟩, nofun, nofun⟩
    intro _ firing listed other member
    have reached := past ev called mode firing listed
    rcases mem_cons.mp (perm.mem_iff.mp member) with rfl | stays
    · have sum := next_clock (noWrap other called mode event found enabled repeats)
      have old := clock_of found
      rw [clock_set_self inside]
      omega
    · rw [clock_set (fun equal => by subst equal; exact absent stays)]
      exact le_trans reached (least other stays)

/-- All that holds of the states of a run. -/
structure Inside (maxEvts now : Nat) (before : List (Nat × Nat)) (system : System Callback) :
    Prop where
  sound : Sound maxEvts system
  room : HasRoom system
  inRun : InRun now before system

theorem Sound.begins (sound : Sound maxEvts system) :
    Inside maxEvts now system.log { system with mode := .looping } where
  sound := ⟨sound.size, sound.room, sound.ordered, sound.nodup, sound.allocated, nofun, sound.logged⟩
  room := nofun
  inRun := ⟨⟨[], (append_nil _).symm, .nil, nofun, nofun, nofun⟩, nofun, nofun⟩

theorem Sound.tests_room (sound : Sound maxEvts system) (tested : testLoop system now = .ok next) :
    HasRoom next := by
  rcases sound.test_eq now with ⟨ends, -⟩ | ⟨ev, rest, heap, here, -, takes, perm, -⟩
  · rw [ends] at tested
    rw [← Except.ok.inj tested]
    exact nofun
  · rw [takes] at tested
    rw [← Except.ok.inj tested]
    intro _ _ _
    have room := sound.room
    have size := sound.size
    unfold System.nevts at room
    rw [here, length_cons] at room
    change heap.length < system.timer.maxEvts
    rw [perm.length_eq]
    omega

theorem advance_looping (mode : system.mode = .looping) :
    advance now system = testLoop system now := by
  simp only [advance, mode]

theorem advance_taken {called : Bool} (mode : system.mode = .taken ev called) :
    advance now system = (eventReEnqueue system.timer ev).map fun timer =>
      ⟨timer, .looping, system.log⟩ := by
  simp only [advance, mode]

theorem Inside.advances (inside : Inside maxEvts now before system) (noWrap : NoWrap system)
    (running : system.mode ≠ .outside) :
    Yields (advance now system) (Inside maxEvts now before) := by
  cases mode : system.mode with
  | outside => exact absurd mode running
  | looping =>
    obtain ⟨next, tested, after⟩ := inside.sound.tests now
    rw [advance_looping mode]
    exact ⟨next, tested, after, inside.sound.tests_room tested,
      inside.inRun.tests inside.sound mode tested⟩
  | taken ev called =>
    have leaves : LeavesRoom system .finish :=
      fun _ other called' mode' _ _ _ _ => inside.room other called' mode'
    obtain ⟨timer, enqueued, after⟩ := inside.sound.finishes mode leaves
    rw [advance_taken mode, enqueued]
    exact ⟨_, rfl, after, nofun,
      inside.inRun.finishes inside.sound mode inside.room noWrap enqueued⟩

theorem Visits.inside {visited : System Callback} (visits : Visits now system visited)
    (sound : Sound maxEvts system) (noWrap : ∀ visited, Visits now system visited → NoWrap visited) :
    Inside maxEvts now system.log visited := by
  induction visits with
  | start => exact sound.begins
  | step visits running advanced ih =>
    obtain ⟨next, same, after⟩ := ih.advances (noWrap _ visits) running
    rw [same] at advanced
    rw [← Except.ok.inj advanced]
    exact after

/-! ## The end of a run -/

/-- How far the events are behind the clock of the run. -/
def behind (now : Nat) (clock : Nat → Nat) (evs : List Nat) : Nat :=
  (evs.map fun ev => now + 1 - clock ev).sum

theorem behind_cons (clock : Nat → Nat) (ev : Nat) (evs : List Nat) :
    behind now clock (ev :: evs) = now + 1 - clock ev + behind now clock evs := by
  unfold behind
  rw [map_cons, sum_cons]

theorem behind_perm {clock : Nat → Nat} {first second : List Nat} (perm : first.Perm second) :
    behind now clock first = behind now clock second :=
  (perm.map _).sum_nat

theorem behind_congr {clock other : Nat → Nat} {evs : List Nat}
    (same : ∀ ev ∈ evs, other ev = clock ev) : behind now other evs = behind now clock evs := by
  unfold behind
  rw [map_congr_left fun ev listed => congrArg (now + 1 - ·) (same ev listed)]

def stepsLeft (now : Nat) (system : System Callback) : Nat :=
  match system.mode with
  | .outside => 0
  | .looping => 2 * behind now system.timer.clock system.timer.heap + 1
  | .taken ev _ => 2 * behind now system.timer.clock (ev :: system.timer.heap)

theorem Inside.decreases (inside : Inside maxEvts now before system) (noWrap : NoWrap system)
    (running : system.mode ≠ .outside) (advanced : advance now system = .ok next) :
    stepsLeft now next < stepsLeft now system := by
  cases mode : system.mode with
  | outside => exact absurd mode running
  | looping =>
    have left : stepsLeft now system =
        2 * behind now system.timer.clock system.timer.heap + 1 := by
      simp only [stepsLeft, mode]
    rw [advance_looping mode] at advanced
    rcases inside.sound.test_eq now with ⟨ends, -⟩ | ⟨ev, rest, heap, here, -, takes, perm, -⟩
    · rw [ends] at advanced
      rw [← Except.ok.inj advanced, left]
      exact Nat.succ_pos _
    · rw [takes] at advanced
      rw [← Except.ok.inj advanced, left, here]
      have same : behind now system.timer.clock (ev :: heap) =
          behind now system.timer.clock (ev :: rest) := behind_perm (perm.cons ev)
      change 2 * behind now system.timer.clock (ev :: heap) < _
      omega
  | taken ev called =>
    have left : stepsLeft now system =
        2 * behind now system.timer.clock (ev :: system.timer.heap) := by
      simp only [stepsLeft, mode]
    obtain ⟨early, -⟩ := inside.inRun.taken ev called mode
    obtain ⟨absent, here⟩ := inside.sound.taken ev called mode
    rw [behind_cons] at left
    rw [advance_taken mode] at advanced
    obtain ⟨event, found, ⟨-, same⟩ | ⟨enabled, repeats, heap, pushed, perm, -, -⟩⟩ :=
      inside.sound.reEnqueue_eq mode fun _ other called' mode' _ _ _ _ =>
        inside.room other called' mode'
    · rw [same] at advanced
      rw [← Except.ok.inj advanced, left]
      change 2 * behind now system.timer.clock system.timer.heap + 1 < _
      omega
    · rw [pushed] at advanced
      rw [← Except.ok.inj advanced, left]
      have sum := next_clock (noWrap ev called mode event found enabled repeats)
      have old := clock_of found
      have others : behind now (HeapTimer.clock ⟨system.timer.maxEvts, heap,
          system.timer.events.set ev event.next⟩) system.timer.heap =
            behind now system.timer.clock system.timer.heap :=
        behind_congr fun other listed =>
          clock_set (fun equal => by subst equal; exact absent listed) _ _
      change 2 * behind now _ heap + 1 < _
      rw [behind_perm perm, behind_cons, others, clock_set_self here]
      omega

theorem runLoop_yields {origin : System Callback} (sound : Sound maxEvts origin)
    (noWrap : ∀ visited, Visits now origin visited → NoWrap visited)
    (visits : Visits now origin system) {fuel : Nat} (enough : stepsLeft now system < fuel) :
    Yields (runLoop now fuel system) fun next => Visits now origin next ∧ next.mode = .outside := by
  induction fuel generalizing system with
  | zero => exact absurd enough (Nat.not_lt_zero _)
  | succ fuel ih =>
    rw [runLoop]
    by_cases ended : system.mode = .outside
    · rw [if_pos ended]
      exact ⟨system, rfl, visits, ended⟩
    · have inside := visits.inside sound noWrap
      obtain ⟨next, advanced, -⟩ := inside.advances (noWrap _ visits) ended
      have fewer := inside.decreases (noWrap _ visits) ended advanced
      rw [if_neg ended, advanced, ok_bind]
      exact ih (visits.step ended advanced) (by omega)

/-- The loop leaves the timer where no event is due. -/
theorem runLoop_visits {origin : System Callback} (visits : Visits now origin system) {fuel : Nat}
    (returned : runLoop now fuel system = .ok next) :
    Visits now origin next ∧ next.mode = .outside := by
  induction fuel generalizing system with
  | zero => cases returned
  | succ fuel ih =>
    rw [runLoop] at returned
    by_cases ended : system.mode = .outside
    · rw [if_pos ended] at returned
      rw [← Except.ok.inj returned]
      exact ⟨visits, ended⟩
    · rw [if_neg ended] at returned
      obtain ⟨middle, advanced, rest⟩ := ok_of_bind returned
      exact ih (visits.step ended advanced) rest

/-! ## Calls -/

/-- The calls one after the other, each as a whole. -/
inductive Call (Callback : Type)
  | register (registration : Registration Callback)
  | cancel (ev : Nat)
  | run (now : Nat)

def CallSteps (system : System Callback) : Call Callback → System Callback → Prop
  | .register registration, next => ∃ timer,
      timerEventRegister system.timer registration = .ok timer ∧ next = { system with timer := timer }
  | .cancel ev, next => ev < system.timer.events.length ∧
      next = { system with timer := timerEventCancel system.timer ev }
  | .run now, next => ∃ fuel, heapTimerRun now fuel system = .ok next

/-- No clock that the call computes reaches `2 ^ 64`. -/
def ClocksFit (system : System Callback) : Call Callback → Prop
  | .register registration => registration.now + registration.delay < 2 ^ 64
  | .cancel _ => True
  | .run now => ∀ visited, Visits now system visited → NoWrap visited

/-- Between the calls. -/
structure Idle (maxEvts : Nat) (system : System Callback) : Prop where
  sound : Sound maxEvts system
  outside : system.mode = .outside

theorem Idle.call {call : Call Callback} (idle : Idle maxEvts system) (fit : ClocksFit system call)
    (stepped : CallSteps system call next) : Idle maxEvts next := by
  cases call with
  | register registration =>
    obtain ⟨timer, registered, rfl⟩ := stepped
    obtain ⟨other, same, after⟩ := idle.sound.registers registration
    rw [registered] at same
    rw [Except.ok.inj same]
    exact ⟨after, idle.outside⟩
  | cancel ev =>
    obtain ⟨-, rfl⟩ := stepped
    exact ⟨idle.sound.cancels ev, idle.outside⟩
  | run now =>
    obtain ⟨fuel, returned⟩ := stepped
    obtain ⟨visits, outside⟩ := runLoop_visits .start returned
    exact ⟨(visits.inside idle.sound fit).sound, outside⟩

theorem created_idle (maxEvts : Nat) : Idle maxEvts (created maxEvts : System Callback) :=
  ⟨created_sound maxEvts, rfl⟩

theorem Idle.returns (idle : Idle maxEvts system) (fit : ClocksFit system (.run now)) :
    ∃ fuel next, heapTimerRun now fuel system = .ok next ∧ ∃ fired,
      next.log = system.log ++ fired ∧ (fired.map Prod.snd).Pairwise (· ≤ ·) ∧
      ∀ ev ∈ next.timer.heap, now < next.timer.clock ev := by
  obtain ⟨next, returned, visits, outside⟩ :=
    runLoop_yields idle.sound fit .start (Nat.lt_succ_self _)
  have inside := visits.inside idle.sound fit
  obtain ⟨fired, log, sorted, -⟩ := inside.inRun.log
  exact ⟨_, next, returned, fired, log, sorted, inside.inRun.ended outside⟩

end CLibs.HeapTimers
