import CLibs.HeapTimers

/-!
# Runs of the heap timer

In every run the array is a heap on the clocks, and an event that has been taken out is
not in it.  The array never overflows as long as a callback leaves a place for the event
it belongs to, if that one is going to be put back.
-/

namespace CLibs.HeapTimers

open ArrayHeaps List

variable {Callback : Type} {timer : HeapTimer Callback} {system next : System Callback}
  {maxEvts ev : Nat} {action : Action Callback}

/-! ## The operations of the array -/

theorem eventHeapPush_eq (isHeap : IsHeap timer.clock timer.heap)
    (room : timer.heap.length < timer.maxEvts) (ev : Nat) :
    ∃ heap, eventHeapPush timer ev = .ok { timer with heap := heap } ∧
      heap.Perm (ev :: timer.heap) ∧ IsHeap timer.clock heap := by
  have behind : timer.heap.length < (timer.heap ++ [ev]).length := by
    rw [length_append, length_singleton]
    omega
  obtain ⟨heap, sifted, perm, ordered⟩ := (isHeap.pushed ev).siftUp (.inl behind) (Nat.lt_succ_self _)
  refine ⟨heap, ?_, perm.trans (perm_append_singleton ..), ordered⟩
  unfold eventHeapPush heapInsert
  dsimp only
  rw [if_neg (Nat.not_le_of_lt room), sifted]
  rfl

theorem eventHeapPush_full (full : timer.maxEvts ≤ timer.heap.length) :
    eventHeapPush timer ev = .error .outside := by
  unfold eventHeapPush
  dsimp only
  rw [if_pos full]
  rfl

theorem lastFirst_perm (rest : List Nat) : (lastFirst rest).Perm rest := by
  rcases eq_nil_or_concat rest with rfl | ⟨others, last, rfl⟩
  · exact .rfl
  · unfold lastFirst
    rw [concat_eq_append, List.getLast?_append, dropLast_concat]
    exact (perm_append_singleton ..).symm

theorem heapDelete_eq {clock : Nat → Nat} {rest : List Nat} (isHeap : IsHeap clock (ev :: rest)) :
    ∃ heap, heapDelete clock (lastFirst rest) 0 = .ok heap ∧ heap.Perm rest ∧
      IsHeap clock heap := by
  rcases eq_nil_or_concat rest with rfl | ⟨others, last, rfl⟩
  · exact ⟨[], rfl, .rfl, .nil⟩
  · have list : lastFirst (others.concat last) = last :: others := by
      unfold lastFirst
      rw [concat_eq_append, List.getLast?_append, dropLast_concat]
      rfl
    rw [concat_eq_append] at isHeap
    obtain ⟨heap, sifted, perm, ordered⟩ := (@IsHeap.replaced _ _ _ _ _ _ isHeap last others
      (prefix_append others [last])).siftDown (Nat.lt_succ_of_le (Nat.sub_le _ _))
    rw [list]
    refine ⟨heap, sifted, perm.trans ?_, ordered⟩
    rw [concat_eq_append]
    exact (perm_append_singleton ..).symm

theorem eventHeapPop_eq {rest : List Nat} (here : timer.heap = ev :: rest)
    (isHeap : IsHeap timer.clock timer.heap) (room : timer.heap.length ≤ timer.maxEvts) :
    ∃ heap, eventHeapPop timer = .ok (ev, { timer with heap := heap }) ∧ heap.Perm rest ∧
      IsHeap timer.clock heap := by
  rw [here] at isHeap room
  obtain ⟨heap, deleted, perm, ordered⟩ := heapDelete_eq isHeap
  have fewer : (lastFirst rest).length < timer.maxEvts := by
    rw [(lastFirst_perm rest).length_eq]
    rw [length_cons] at room
    omega
  refine ⟨heap, ?_, perm, ordered⟩
  unfold eventHeapPop
  rw [here]
  dsimp only
  rw [check_eq fewer, ok_bind, deleted, ok_bind]

/-! ## Clocks -/

theorem clock_set {other : Nat} (ne : other ≠ ev) (event : TimerEvent Callback) (heap : List Nat) :
    HeapTimer.clock ⟨maxEvts, heap, timer.events.set ev event⟩ other = timer.clock other := by
  unfold HeapTimer.clock
  rw [List.getElem?_set_ne ne.symm]

theorem clock_append {other : Nat} (inside : other < timer.events.length)
    (event : TimerEvent Callback) (heap : List Nat) :
    HeapTimer.clock ⟨maxEvts, heap, timer.events ++ [event]⟩ other = timer.clock other := by
  unfold HeapTimer.clock
  rw [List.getElem?_append_left inside]

theorem clock_cancel (timer : HeapTimer Callback) (ev other : Nat) :
    (timerEventCancel timer ev).clock other = timer.clock other := by
  unfold HeapTimer.clock timerEventCancel
  rw [List.getElem?_modify]
  cases timer.events[other]? with
  | none => rfl
  | some event =>
    change (if ev = other then event.disabled else event).clock = event.clock
    split
    · rfl
    · rfl

/-! ## Steps -/

structure Sound (maxEvts : Nat) (system : System Callback) : Prop where
  size : system.timer.maxEvts = maxEvts
  room : system.nevts ≤ maxEvts
  ordered : IsHeap system.timer.clock system.timer.heap
  nodup : system.timer.heap.Nodup
  allocated : ∀ ev ∈ system.timer.heap, ev < system.timer.events.length
  taken : ∀ ev called, system.mode = .taken ev called →
    ev ∉ system.timer.heap ∧ ev < system.timer.events.length
  logged : ∀ firing ∈ system.log, firing.1 < system.timer.events.length

theorem created_sound (maxEvts : Nat) : Sound maxEvts (created maxEvts : System Callback) where
  size := rfl
  room := Nat.zero_le _
  ordered := .nil
  nodup := nodup_nil
  allocated := nofun
  taken := nofun
  logged := nofun

/-- A callback leaves a place for its event, if that one is going to be put back. -/
def LeavesRoom (system : System Callback) (action : Action Callback) : Prop :=
  action = .finish → ∀ ev called, system.mode = .taken ev called →
    ∀ event, system.timer.events[ev]? = some event → event.enable = true → 0 < event.interval →
      system.nevts < system.timer.maxEvts

theorem Sound.register_eq (sound : Sound maxEvts system) (registration : Registration Callback) :
    timerEventRegister system.timer registration = .ok system.timer ∨
    ∃ heap, timerEventRegister system.timer registration = .ok
        ⟨system.timer.maxEvts, heap, system.timer.events ++ [registration.event]⟩ ∧
      heap.Perm (system.timer.events.length :: system.timer.heap) ∧
      IsHeap (HeapTimer.clock ⟨system.timer.maxEvts, heap,
        system.timer.events ++ [registration.event]⟩) heap ∧
      system.nevts < maxEvts ∧ registration.allocated = true := by
  unfold timerEventRegister
  by_cases fails : system.timer.maxEvts ≤ system.timer.heap.length ∨ registration.allocated = false
  · rw [if_pos fails]
    exact .inl rfl
  · rw [if_neg fails]
    rw [not_or, Bool.not_eq_false] at fails
    obtain ⟨free, allocated⟩ := fails
    have known : ∀ ev ∈ system.timer.heap,
        HeapTimer.clock { system.timer with events := system.timer.events ++ [registration.event] } ev =
          system.timer.clock ev := fun ev listed => clock_append (sound.allocated ev listed) _ _
    obtain ⟨heap, pushed, perm, ordered⟩ := @eventHeapPush_eq _
      { system.timer with events := system.timer.events ++ [registration.event] }
      (sound.ordered.congr known) (Nat.lt_of_not_le free) system.timer.events.length
    refine .inr ⟨heap, pushed, perm, ordered, ?_, allocated⟩
    have size := sound.size
    unfold System.nevts
    omega

theorem Sound.registers (sound : Sound maxEvts system) (registration : Registration Callback) :
    Yields (timerEventRegister system.timer registration) fun timer =>
      Sound maxEvts { system with timer := timer } := by
  rcases sound.register_eq registration with same | ⟨heap, registered, perm, ordered, free, -⟩
  · exact ⟨system.timer, same, sound⟩
  · have fresh : system.timer.events.length ∉ system.timer.heap :=
      fun listed => Nat.lt_irrefl _ (sound.allocated _ listed)
    refine ⟨_, registered, sound.size, ?_, ordered, ?_, ?_, ?_, ?_⟩
    · change heap.length ≤ maxEvts
      rw [perm.length_eq]
      exact free
    · exact perm.nodup_iff.mpr (nodup_cons.mpr ⟨fresh, sound.nodup⟩)
    · intro ev listed
      dsimp only
      rw [length_append, length_singleton]
      rcases mem_cons.mp (perm.mem_iff.mp listed) with rfl | listed
      · exact Nat.lt_succ_self _
      · exact Nat.lt_succ_of_lt (sound.allocated ev listed)
    · intro ev called mode
      obtain ⟨absent, inside⟩ := sound.taken ev called mode
      dsimp only
      rw [length_append, length_singleton]
      refine ⟨fun listed => ?_, Nat.lt_succ_of_lt inside⟩
      rcases mem_cons.mp (perm.mem_iff.mp listed) with rfl | listed
      · exact Nat.lt_irrefl _ inside
      · exact absent listed
    · intro firing listed
      dsimp only
      rw [length_append, length_singleton]
      exact Nat.lt_succ_of_lt (sound.logged firing listed)

theorem Sound.cancels (sound : Sound maxEvts system) (ev : Nat) :
    Sound maxEvts { system with timer := timerEventCancel system.timer ev } where
  size := sound.size
  room := sound.room
  ordered := sound.ordered.congr fun other _ => clock_cancel system.timer ev other
  nodup := sound.nodup
  allocated := by
    intro other listed
    change other < (system.timer.events.modify ev TimerEvent.disabled).length
    rw [length_modify]
    exact sound.allocated other listed
  taken := by
    intro other called mode
    change other ∉ system.timer.heap ∧
      other < (system.timer.events.modify ev TimerEvent.disabled).length
    rw [length_modify]
    exact sound.taken other called mode
  logged := by
    intro firing listed
    change firing.1 < (system.timer.events.modify ev TimerEvent.disabled).length
    rw [length_modify]
    exact sound.logged firing listed

theorem Sound.test_eq (sound : Sound maxEvts system) (now : Nat) :
    (testLoop system now = .ok { system with mode := .outside } ∧
      ∀ ev ∈ system.timer.heap, now < system.timer.clock ev) ∨
    ∃ ev rest heap, system.timer.heap = ev :: rest ∧ system.timer.clock ev ≤ now ∧
      testLoop system now = .ok ⟨{ system.timer with heap := heap },
        .taken ev (system.timer.calls ev),
        if system.timer.calls ev then system.log ++ [(ev, system.timer.clock ev)]
        else system.log⟩ ∧
      heap.Perm rest ∧ IsHeap system.timer.clock heap := by
  have ordered := sound.ordered
  cases here : system.timer.heap with
  | nil =>
    left
    unfold testLoop
    rw [here]
    exact ⟨rfl, nofun⟩
  | cons ev rest =>
    by_cases due : system.timer.clock ev ≤ now
    · right
      obtain ⟨heap, popped, perm, isHeap⟩ := eventHeapPop_eq here ordered
        (by rw [sound.size]; exact sound.room)
      refine ⟨ev, rest, heap, rfl, due, ?_, perm, isHeap⟩
      unfold testLoop
      rw [here, List.head?_cons, Option.any_some, if_pos (decide_eq_true due), popped, ok_bind]
      rfl
    · left
      rw [here] at ordered
      refine ⟨?_, fun other listed =>
        Nat.lt_of_lt_of_le (Nat.lt_of_not_le due) (ordered.le_of_mem listed)⟩
      unfold testLoop
      rw [here, List.head?_cons, Option.any_some,
        if_neg (fun impossible => due (of_decide_eq_true impossible))]

theorem Sound.tests (sound : Sound maxEvts system) (now : Nat) :
    Yields (testLoop system now) (Sound maxEvts) := by
  rcases sound.test_eq now with ⟨ends, -⟩ | ⟨ev, rest, heap, here, -, takes, perm, isHeap⟩
  · exact ⟨_, ends, sound.size, sound.room, sound.ordered, sound.nodup, sound.allocated, nofun,
      sound.logged⟩
  · have nodup := sound.nodup
    have room := sound.room
    unfold System.nevts at room
    rw [here, length_cons] at room
    rw [here, nodup_cons] at nodup
    have member : ∀ other, other ∈ heap → other ∈ system.timer.heap := by
      intro other listed
      rw [here]
      exact mem_cons_of_mem _ (perm.mem_iff.mp listed)
    refine ⟨_, takes, sound.size, ?_, isHeap, perm.nodup_iff.mpr nodup.2,
      fun other listed => sound.allocated other (member other listed), ?_, ?_⟩
    · change heap.length ≤ maxEvts
      rw [perm.length_eq]
      omega
    · intro other called mode
      obtain ⟨rfl, -⟩ := Mode.taken.inj mode
      exact ⟨fun listed => nodup.1 (perm.mem_iff.mp listed),
        sound.allocated _ (by rw [here]; exact mem_cons_self)⟩
    · intro firing listed
      dsimp only at listed
      split at listed
      · rcases mem_append.mp listed with listed | listed
        · exact sound.logged firing listed
        · rw [mem_singleton.mp listed]
          exact sound.allocated _ (by rw [here]; exact mem_cons_self)
      · exact sound.logged firing listed

theorem Sound.reEnqueue_eq (sound : Sound maxEvts system) {called : Bool}
    (mode : system.mode = .taken ev called) (leaves : LeavesRoom system .finish) :
    ∃ event, system.timer.events[ev]? = some event ∧
      ((¬(event.enable = true ∧ 0 < event.interval) ∧
        eventReEnqueue system.timer ev = .ok system.timer) ∨
      (event.enable = true ∧ 0 < event.interval ∧ ∃ heap,
        eventReEnqueue system.timer ev = .ok
          ⟨system.timer.maxEvts, heap, system.timer.events.set ev event.next⟩ ∧
        heap.Perm (ev :: system.timer.heap) ∧
        IsHeap (HeapTimer.clock ⟨system.timer.maxEvts, heap,
          system.timer.events.set ev event.next⟩) heap ∧ system.nevts < maxEvts)) := by
  obtain ⟨absent, inside⟩ := sound.taken ev called mode
  have found := List.getElem?_eq_getElem inside
  refine ⟨_, found, ?_⟩
  by_cases again : system.timer.events[ev].enable = true ∧ 0 < system.timer.events[ev].interval
  · right
    have free := leaves rfl ev called mode _ found again.1 again.2
    have known : ∀ other ∈ system.timer.heap,
        HeapTimer.clock { system.timer with
          events := system.timer.events.set ev system.timer.events[ev].next } other =
          system.timer.clock other :=
      fun other listed => clock_set (fun same => by subst same; exact absent listed) _ _
    obtain ⟨heap, pushed, perm, ordered⟩ := @eventHeapPush_eq _ { system.timer with
      events := system.timer.events.set ev system.timer.events[ev].next }
      (sound.ordered.congr known) free ev
    refine ⟨again.1, again.2, heap, ?_, perm, ordered, by rw [← sound.size]; exact free⟩
    unfold eventReEnqueue
    rw [found]
    dsimp only
    rw [if_pos again, pushed]
  · left
    refine ⟨again, ?_⟩
    unfold eventReEnqueue
    rw [found]
    dsimp only
    rw [if_neg again]

theorem Sound.finishes (sound : Sound maxEvts system) {called : Bool}
    (mode : system.mode = .taken ev called) (leaves : LeavesRoom system .finish) :
    Yields (eventReEnqueue system.timer ev) fun timer =>
      Sound maxEvts ⟨timer, .looping, system.log⟩ := by
  obtain ⟨absent, inside⟩ := sound.taken ev called mode
  obtain ⟨event, -, ⟨-, same⟩ | ⟨-, -, heap, pushed, perm, ordered, free⟩⟩ :=
    sound.reEnqueue_eq mode leaves
  · exact ⟨_, same, sound.size, sound.room, sound.ordered, sound.nodup, sound.allocated, nofun,
      sound.logged⟩
  · refine ⟨_, pushed, sound.size, ?_, ordered,
      perm.nodup_iff.mpr (nodup_cons.mpr ⟨absent, sound.nodup⟩), ?_, nofun, ?_⟩
    · change heap.length ≤ maxEvts
      rw [perm.length_eq]
      exact free
    · intro other listed
      dsimp only
      rw [length_set]
      rcases mem_cons.mp (perm.mem_iff.mp listed) with rfl | listed
      · exact inside
      · exact sound.allocated other listed
    · intro firing listed
      dsimp only
      rw [length_set]
      exact sound.logged firing listed

theorem step_finish {called : Bool} (mode : system.mode = .taken ev called) :
    step system .finish = some ((eventReEnqueue system.timer ev).map fun timer =>
      ⟨timer, .looping, system.log⟩) := by
  simp only [step, mode]

theorem Sound.step (sound : Sound maxEvts system) (leaves : LeavesRoom system action)
    {result : Except Fault (System Callback)} (stepped : step system action = some result) :
    ∃ next, result = .ok next ∧ Sound maxEvts next := by
  cases action with
  | register registration =>
    by_cases calls : system.mode.calls = true
    · rw [HeapTimers.step, if_pos calls] at stepped
      obtain ⟨timer, registered, after⟩ := sound.registers registration
      rw [registered] at stepped
      exact ⟨_, (Option.some.inj stepped).symm, after⟩
    · rw [HeapTimers.step, if_neg calls] at stepped
      cases stepped
  | cancel ev =>
    by_cases calls : system.mode.calls = true ∧ ev < system.timer.events.length
    · rw [HeapTimers.step, if_pos calls] at stepped
      exact ⟨_, (Option.some.inj stepped).symm, sound.cancels ev⟩
    · rw [HeapTimers.step, if_neg calls] at stepped
      cases stepped
  | run =>
    by_cases outside : system.mode = .outside
    · rw [HeapTimers.step, if_pos outside] at stepped
      exact ⟨_, (Option.some.inj stepped).symm, sound.size, sound.room, sound.ordered, sound.nodup,
        sound.allocated, nofun, sound.logged⟩
    · rw [HeapTimers.step, if_neg outside] at stepped
      cases stepped
  | test now =>
    by_cases looping : system.mode = .looping
    · rw [HeapTimers.step, if_pos looping] at stepped
      obtain ⟨next, tested, after⟩ := sound.tests now
      exact ⟨next, by rw [← Option.some.inj stepped, tested], after⟩
    · rw [HeapTimers.step, if_neg looping] at stepped
      cases stepped
  | finish =>
    cases mode : system.mode with
    | outside => simp [HeapTimers.step, mode] at stepped
    | looping => simp [HeapTimers.step, mode] at stepped
    | taken ev called =>
      obtain ⟨timer, enqueued, after⟩ := sound.finishes mode leaves
      rw [step_finish mode, enqueued] at stepped
      exact ⟨_, (Option.some.inj stepped).symm, after⟩

theorem step_overflows (full : ¬LeavesRoom system action) :
    step system action = some (.error .outside) := by
  unfold LeavesRoom at full
  push Not at full
  obtain ⟨rfl, ev, called, mode, event, found, enabled, repeats, full⟩ := full
  have lost : eventReEnqueue system.timer ev = .error .outside := by
    unfold eventReEnqueue
    rw [found]
    dsimp only
    rw [if_pos ⟨enabled, repeats⟩]
    exact @eventHeapPush_full _ { system.timer with
      events := system.timer.events.set ev event.next } ev full
  rw [step_finish mode, lost]
  rfl

theorem Runs.sound {actions : List (Action Callback)}
    (run : Runs LeavesRoom Steps (created maxEvts) actions system) : Sound maxEvts system := by
  refine run.invariant ?_ (created_sound maxEvts)
  intro system action next sound leaves stepped
  obtain ⟨other, same, after⟩ := sound.step leaves stepped
  rw [Except.ok.inj same]
  exact after

/-- In a run whose callbacks leave room the array never overflows, and the step that does not
leave room is exactly the one that overflows it. -/
theorem heapTimer_capacity {actions : List (Action Callback)}
    (run : Runs LeavesRoom Steps (created maxEvts) actions system) :
    system.nevts ≤ maxEvts ∧ ∀ action,
      (∀ fault, step system action ≠ some (.error fault)) ↔ LeavesRoom system action := by
  have sound := Runs.sound run
  refine ⟨sound.room, fun action => ⟨fun runs => ?_, fun leaves fault faulted => ?_⟩⟩
  · by_contra full
    exact runs .outside (step_overflows full)
  · obtain ⟨next, same, -⟩ := sound.step leaves faulted
    cases same

/-- A callback registers an event while there is a place left for its own. -/
theorem heapTimer_capacity_two : ∃ last : System Unit,
    Runs LeavesRoom Steps (created 2) [.register ⟨0, some (), 5, 1, 0, true⟩, .run, .test 5,
      .register ⟨5, some (), 9, 0, 0, true⟩, .finish] last ∧ last.nevts ≤ 2 := by
  have run : ∃ last : System Unit, Runs LeavesRoom Steps (created 2)
      [.register ⟨0, some (), 5, 1, 0, true⟩, .run, .test 5,
        .register ⟨5, some (), 9, 0, 0, true⟩, .finish] last := by
    refine ⟨_, .cons nofun rfl (.cons nofun rfl (.cons nofun rfl (.cons nofun rfl
      (.cons ?_ rfl (.nil _)))))⟩
    intro _ ev called _ event _ _ _
    decide
  obtain ⟨last, run⟩ := run
  exact ⟨last, run, (heapTimer_capacity run).1⟩

/-- A callback takes the last place, and its own event is stored behind the array. -/
theorem heapTimer_overflows : ∃ actions, ∃ last : System Unit,
    Runs (fun _ _ => True) Steps (created 1) actions last ∧
      step last .finish = some (.error .outside) :=
  ⟨[.register ⟨0, some (), 5, 1, 0, true⟩, .run, .test 5, .register ⟨5, some (), 9, 0, 0, true⟩], _,
    .cons trivial rfl (.cons trivial rfl (.cons trivial rfl (.cons trivial rfl (.nil _)))), rfl⟩

end CLibs.HeapTimers
