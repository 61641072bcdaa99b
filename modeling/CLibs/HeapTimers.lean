import CLibs.ArrayHeaps
import CLibs.GuardedRuns
import Mathlib.Algebra.Group.Int.Defs
import Mathlib.Algebra.GroupWithZero.Nat
import Mathlib.Data.Nat.Basic

/-!
# The heap timer

`heap_timer.c` keeps pointers to timer events in an array of a fixed size, as a binary
heap on their clocks.  An event is a place in the list of all events that were ever
allocated, as none is freed; the list `heap` is the part of the array that is in use, so
its length is `nevts`.  `heap_timer_run` is split into its steps: a test of the loop
condition takes an event out, its callback may register and cancel events, and behind
the callback the event may be put back.
-/

namespace CLibs.HeapTimers

variable {Callback : Type}

/-- An event of which `clock` says when it is due. -/
structure TimerEvent (Callback : Type) where
  clock : Nat
  cb : Option Callback
  delay : Nat
  interval : Nat
  count : Nat
  enable : Bool

/-- The heap of events, and the events themselves. -/
structure HeapTimer (Callback : Type) where
  maxEvts : Nat
  heap : List Nat
  events : List (TimerEvent Callback)

def HeapTimer.clock (timer : HeapTimer Callback) (ev : Nat) : Nat :=
  (timer.events[ev]?.map TimerEvent.clock).getD 0

def heapInsert (clock : Nat → Nat) (heap : List Nat) (idx : Nat) : Except Fault (List Nat) :=
  ArrayHeaps.siftUp clock (idx + 1) idx heap

def heapDelete (clock : Nat → Nat) (heap : List Nat) (idx : Nat) : Except Fault (List Nat) :=
  ArrayHeaps.siftDown clock (heap.length + 1) idx heap

/-- `event_heap_push` writes `heap[nevts]` before it asserts that this is inside. -/
def eventHeapPush (timer : HeapTimer Callback) (ev : Nat) : Except Fault (HeapTimer Callback) := do
  let idx := timer.heap.length
  if timer.maxEvts ≤ idx then .error .outside
  let heap ← heapInsert timer.clock (timer.heap ++ [ev]) idx
  .ok { timer with heap := heap }

/-- `heap[0] = heap[--nevts]`, for what stands behind `heap[0]`. -/
def lastFirst (rest : List Nat) : List Nat := rest.getLast?.toList ++ rest.dropLast

def eventHeapPop (timer : HeapTimer Callback) : Except Fault (Nat × HeapTimer Callback) :=
  match timer.heap with
  | [] => .error .outside
  | ev :: rest => do
      let heap := lastFirst rest
      check (heap.length < timer.maxEvts)
      let heap ← heapDelete timer.clock heap 0
      .ok (ev, { timer with heap := heap })

/-- What `event_re_enqueue` makes of an event that it puts back. -/
def TimerEvent.next (event : TimerEvent Callback) : TimerEvent Callback :=
  let event := { event with clock := (event.clock + event.interval) % 2 ^ 64 }
  if 0 < event.count then
    { event with
      count := event.count - 1
      interval := if event.count - 1 = 0 then 0 else event.interval }
  else event

def eventReEnqueue (timer : HeapTimer Callback) (ev : Nat) : Except Fault (HeapTimer Callback) :=
  match timer.events[ev]? with
  | none => .error .outside
  | some event =>
    if event.enable = true ∧ 0 < event.interval then
      eventHeapPush { timer with events := timer.events.set ev event.next } ev
    else .ok timer

/-- The arguments of `timer_event_register`, the clock it reads and whether it gets memory. -/
structure Registration (Callback : Type) where
  now : Nat
  cb : Option Callback
  delay : Nat
  interval : Nat
  count : Nat
  allocated : Bool

def Registration.event (registration : Registration Callback) : TimerEvent Callback where
  clock := (registration.now + registration.delay) % 2 ^ 64
  cb := registration.cb
  delay := registration.delay
  interval := registration.interval
  count := registration.count
  enable := true

/-- `timer_event_register`; a return of `NULL` leaves everything as it was. -/
def timerEventRegister (timer : HeapTimer Callback) (registration : Registration Callback) :
    Except Fault (HeapTimer Callback) :=
  if timer.maxEvts ≤ timer.heap.length ∨ registration.allocated = false then .ok timer
  else
    eventHeapPush { timer with events := timer.events ++ [registration.event] } timer.events.length

def TimerEvent.disabled (event : TimerEvent Callback) : TimerEvent Callback :=
  { event with enable := false }

def timerEventCancel (timer : HeapTimer Callback) (ev : Nat) : HeapTimer Callback :=
  { timer with events := timer.events.modify ev TimerEvent.disabled }

def heapTimerCreate (maxEvts : Nat) : HeapTimer Callback := ⟨maxEvts, [], []⟩

/-! ## Steps -/

/-- Where the program is. -/
inductive Mode
  | outside
  | looping
  | taken (ev : Nat) (called : Bool)
  deriving DecidableEq, Repr

/-- The timer, and the calls of callbacks so far: the event of each and the clock that it had. -/
structure System (Callback : Type) where
  timer : HeapTimer Callback
  mode : Mode
  log : List (Nat × Nat)

/-- What a thread can do with the timer. -/
inductive Action (Callback : Type)
  | register (registration : Registration Callback)
  | cancel (ev : Nat)
  | run
  | test (now : Nat)
  | finish

def System.nevts (system : System Callback) : Nat := system.timer.heap.length

/-- The program outside of `heap_timer_run`, or a callback, can call the timer. -/
def Mode.calls : Mode → Bool
  | .outside => true
  | .looping => false
  | .taken _ called => called

def HeapTimer.enabled (timer : HeapTimer Callback) (ev : Nat) : Bool :=
  (timer.events[ev]?.map TimerEvent.enable).getD false

def HeapTimer.hasCallback (timer : HeapTimer Callback) (ev : Nat) : Bool :=
  (timer.events[ev]?.bind TimerEvent.cb).isSome

/-- Whether `heap_timer_run` calls the callback of an event that it has taken out. -/
def HeapTimer.calls (timer : HeapTimer Callback) (ev : Nat) : Bool :=
  timer.enabled ev && timer.hasCallback ev

def testLoop (system : System Callback) (now : Nat) : Except Fault (System Callback) :=
  if (system.timer.heap.head?.any fun ev => system.timer.clock ev ≤ now) = true then do
    let (ev, timer) ← eventHeapPop system.timer
    .ok ⟨timer, .taken ev (timer.calls ev),
      if timer.calls ev then system.log ++ [(ev, timer.clock ev)] else system.log⟩
  else .ok { system with mode := .outside }

def step (system : System Callback) : Action Callback → Option (Except Fault (System Callback))
  | .register registration =>
    if system.mode.calls then
      some ((timerEventRegister system.timer registration).map fun timer =>
        { system with timer := timer })
    else none
  | .cancel ev =>
    if system.mode.calls ∧ ev < system.timer.events.length then
      some (.ok { system with timer := timerEventCancel system.timer ev })
    else none
  | .run => if system.mode = .outside then some (.ok { system with mode := .looping }) else none
  | .test now => if system.mode = .looping then some (testLoop system now) else none
  | .finish =>
    match system.mode with
    | .taken ev _ =>
      some ((eventReEnqueue system.timer ev).map fun timer => ⟨timer, .looping, system.log⟩)
    | _ => none

def Steps (system : System Callback) (action : Action Callback) (next : System Callback) : Prop :=
  step system action = some (.ok next)

def created (maxEvts : Nat) : System Callback := ⟨heapTimerCreate maxEvts, .outside, []⟩

end CLibs.HeapTimers
