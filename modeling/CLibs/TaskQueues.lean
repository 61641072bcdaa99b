import CLibs.FaultingPrograms
import CLibs.GuardedRuns
import CLibs.ThreadTallies

/-!
# The task queue of `task-queue.c`

Any number of threads call `task_queue_post`; a scheduler takes a request and then a
worker, pops a task and hands it to a thread pool, whose threads run `task_action`.  A
step is a locked section, a semaphore operation, or the call of the pool.  A node is its
address; `params` is what the nodes hold.  The pool runs what it was handed in any order,
and a thread that it has taken for a task runs it once.  The lists `posted` and `handed`
are not part of the source.
-/

namespace CLibs.TaskQueues

variable {Request : Type}

structure TaskQueue where
  ref : Nat
  tasks : List Nat
  tasksRecycle : List Nat
  tasksCount : Nat
  tasksRecycleCount : Nat

def semValueMax : Nat := 2 ^ 31 - 1

/-- `sema_post` fails at the largest value. -/
def semaPost (permits : Nat) : Nat := if permits < semValueMax then permits + 1 else permits

/-! ## Locked sections -/

/-- `task_alloc`: a recycled node, or the one `malloc` gives if there is none. -/
def taskAlloc (queue : TaskQueue) (malloc : Option Nat) : Except Fault (Option Nat × TaskQueue) :=
  match queue.tasksRecycle with
  | [] => .ok (malloc, queue)
  | task :: rest => do
      check (queue.tasksRecycleCount > 0)
      .ok (some task, { queue with
        tasksRecycle := rest
        tasksRecycleCount := queue.tasksRecycleCount - 1 })

def taskRecycle (queue : TaskQueue) (task : Nat) : TaskQueue :=
  if queue.tasksRecycleCount > 500 then queue
  else { queue with
    tasksRecycle := queue.tasksRecycle ++ [task]
    tasksRecycleCount := (queue.tasksRecycleCount + 1) % 2 ^ 64 }

def taskPush (queue : TaskQueue) (task : Nat) : TaskQueue :=
  { queue with
    tasks := queue.tasks ++ [task]
    tasksCount := (queue.tasksCount + 1) % 2 ^ 64 }

def taskPop (queue : TaskQueue) : Except Fault (Option Nat × TaskQueue) :=
  match queue.tasks with
  | [] => .ok (none, queue)
  | task :: rest => do
      check (queue.tasksCount > 0)
      .ok (some task, { queue with tasks := rest, tasksCount := queue.tasksCount - 1 })

/-- `task_queue_release` of a reference that is not the last one. -/
def taskQueueRelease (queue : TaskQueue) : Except Fault TaskQueue :=
  if queue.ref - 1 = 0 then .error .outside else .ok { queue with ref := queue.ref - 1 }

/-! ## Threads -/

/-- Where a thread is in `task_queue_post`: outside of it, before the first locked section,
before the second one, or before its post. -/
inductive Poster (Request : Type)
  | idle
  | called (request : Request)
  | allocated (request : Request) (task : Nat)
  | pushed

/-- Where `task_queue_scheduler` is: before one of its waits, before its locked section, or
before `thread_pool_push`. -/
inductive Scheduler
  | atRequest
  | atWorker
  | popping
  | popped (task : Nat)

/-- Where a thread of the pool is: without a task, in its procedure, before its post, or
before the release of the queue. -/
inductive Worker
  | idle
  | running (task : Nat)
  | recycled
  | posted

/-- The queue with its two semaphores, where each thread is, and the requests so far. -/
structure System (Request : Type) where
  queue : TaskQueue
  params : Nat → Option Request
  semaRequest : Nat
  semaWorker : Nat
  posters : List (Poster Request)
  scheduler : Scheduler
  pool : List Nat
  workers : List Worker
  posted : List (Option Request)
  handed : List (Option Request)

/-- What a thread can do next. -/
inductive Action (Request : Type)
  | call (thread : Nat) (request : Request)
  | alloc (thread : Nat) (malloc : Option Nat)
  | push (thread : Nat)
  | signal (thread : Nat)
  | waitRequest
  | waitWorker
  | pop
  | hand (accepted : Bool)
  | take (thread : Nat) (task : Nat)
  | recycle (thread : Nat)
  | release (thread : Nat)
  | unref (thread : Nat)

/-! ## Where the nodes are -/

def Poster.holds (task : Nat) : Poster Request → Nat
  | .allocated _ node => [node].count task
  | _ => 0

def Scheduler.tasks : Scheduler → List Nat
  | .popped task => [task]
  | _ => []

def Worker.holds (task : Nat) : Worker → Nat
  | .running node => [node].count task
  | _ => 0

/-- In how many places a node is: on a list, held by a thread or in the pool. -/
def System.places (system : System Request) (task : Nat) : Nat :=
  system.queue.tasks.count task + system.queue.tasksRecycle.count task +
    tally (Poster.holds task) system.posters + system.scheduler.tasks.count task +
    system.pool.count task + tally (Worker.holds task) system.workers

/-- `malloc` gives a block that is not in use, or `NULL`. -/
def System.mallocGives (system : System Request) (malloc : Option Nat) : Prop :=
  ∀ task ∈ malloc, 0 < task ∧ task < 2 ^ 64 ∧ system.places task = 0

instance (system : System Request) (malloc : Option Nat) :
    Decidable (system.mallocGives malloc) :=
  match malloc with
  | none => .isTrue nofun
  | some task =>
    decidable_of_iff (0 < task ∧ task < 2 ^ 64 ∧ system.places task = 0)
      ⟨fun fresh _ same => Option.some.inj same ▸ fresh, fun fresh => fresh task rfl⟩

/-! ## Steps -/

def System.placePoster (system : System Request) (thread : Nat) (phase : Poster Request) :
    System Request :=
  { system with posters := system.posters.set thread phase }

def System.placeWorker (system : System Request) (thread : Nat) (phase : Worker) : System Request :=
  { system with workers := system.workers.set thread phase }

/-- The first locked section of `task_queue_post`; without memory the call returns. -/
def alloc (system : System Request) (thread : Nat) (request : Request) (malloc : Option Nat) :
    Except Fault (System Request) := do
  let (task, queue) ← taskAlloc system.queue malloc
  match task with
  | none => .ok ({ system with queue := queue }.placePoster thread .idle)
  | some task => .ok ({ system with queue := queue }.placePoster thread (.allocated request task))

def push (system : System Request) (thread : Nat) (request : Request) (task : Nat) : System Request :=
  { system with
    params := fun node => if node = task then some request else system.params node
    queue := taskPush system.queue task
    posted := system.posted ++ [some request] }.placePoster thread .pushed

def pop (system : System Request) : Except Fault (System Request) := do
  let (task, queue) ← taskPop system.queue
  match task with
  | none => .error .assertion
  | some task => .ok { system with queue := queue, scheduler := .popped task }

/-- The call of `thread_pool_push`, which may find no memory. -/
def hand (system : System Request) (task : Nat) (accepted : Bool) : System Request :=
  { system with
    queue := { system.queue with ref := system.queue.ref + 1 }
    scheduler := .atRequest
    pool := if accepted then task :: system.pool else system.pool
    handed := system.handed ++ [system.params task] }

def step (system : System Request) : Action Request → Option (Except Fault (System Request))
  | .call thread request =>
    match system.posters[thread]? with
    | some .idle => some (.ok (system.placePoster thread (.called request)))
    | _ => none
  | .alloc thread malloc =>
    match system.posters[thread]? with
    | some (.called request) =>
      if system.mallocGives malloc then some (alloc system thread request malloc) else none
    | _ => none
  | .push thread =>
    match system.posters[thread]? with
    | some (.allocated request task) => some (.ok (push system thread request task))
    | _ => none
  | .signal thread =>
    match system.posters[thread]? with
    | some .pushed =>
      some (.ok ({ system with semaRequest := semaPost system.semaRequest }.placePoster thread
        .idle))
    | _ => none
  | .waitRequest =>
    match system.scheduler with
    | .atRequest =>
      if 0 < system.semaRequest then
        some (.ok { system with semaRequest := system.semaRequest - 1, scheduler := .atWorker })
      else none
    | _ => none
  | .waitWorker =>
    match system.scheduler with
    | .atWorker =>
      if 0 < system.semaWorker then
        some (.ok { system with semaWorker := system.semaWorker - 1, scheduler := .popping })
      else none
    | _ => none
  | .pop =>
    match system.scheduler with
    | .popping => some (pop system)
    | _ => none
  | .hand accepted =>
    match system.scheduler with
    | .popped task => some (.ok (hand system task accepted))
    | _ => none
  | .take thread task =>
    match system.workers[thread]? with
    | some .idle =>
      if task ∈ system.pool then
        some (.ok ({ system with pool := system.pool.erase task }.placeWorker thread
          (.running task)))
      else none
    | _ => none
  | .recycle thread =>
    match system.workers[thread]? with
    | some (.running task) =>
      some (.ok ({ system with queue := taskRecycle system.queue task }.placeWorker thread
        .recycled))
    | _ => none
  | .release thread =>
    match system.workers[thread]? with
    | some .recycled =>
      some (.ok ({ system with semaWorker := semaPost system.semaWorker }.placeWorker thread
        .posted))
    | _ => none
  | .unref thread =>
    match system.workers[thread]? with
    | some .posted =>
      some ((taskQueueRelease system.queue).map fun queue =>
        { system with queue := queue }.placeWorker thread .idle)
    | _ => none

def Steps (system : System Request) (action : Action Request) (next : System Request) : Prop :=
  step system action = some (.ok next)

/-- The state behind `task_queue_create`.  It does not set `tasks_count`, which keeps what
`malloc` left there. -/
def created (maxWorker garbage posters workers : Nat) : System Request where
  queue := ⟨1, [], [], garbage, 0⟩
  params := fun _ => none
  semaRequest := 0
  semaWorker := maxWorker
  posters := List.replicate posters .idle
  scheduler := .atRequest
  pool := []
  workers := List.replicate workers .idle
  posted := []
  handed := []

end CLibs.TaskQueues
