import CLibs.ChannelFifo

/-!
# The thread pool of `thread-pool.c`

Any number of threads call `thread_pool_push`, and the threads of the pool run
`thread_pool_worker`; a step is a locked section, or the end of a wait, which may come at
any time.  A task is its node: `content` is what `proc` and `param` of a node hold, and the
numbers of the pushes and the log of the tasks that ran are not part of the source.  The
pool is not destroyed, so that `run` stays set.
-/

namespace CLibs.ThreadPools

open Channels (int32)

variable {Task : Type}

structure ThreadPool where
  idleMax : Int
  threadCount : Int
  threadCountMax : Int
  threadCountIdle : Int
  taskCount : Int
  tasks : List Nat
  recycleTasks : List Nat
  taskThreads : List Nat

/-- Where a thread of the pool is: before the lock, in `event_timewait`, in a procedure, or behind
the loop. -/
inductive Worker
  | locking
  | waiting
  | running (task : Nat)
  | left

/-- The pool, where each worker is, and the tasks so far. -/
structure System (Task : Type) where
  pool : ThreadPool
  content : Nat → Option Task
  workers : List Worker
  pushed : List Task
  number : Nat → Nat
  ran : List (Nat × Option Task)

/-- What a thread can do next. -/
inductive Action (Task : Type)
  | push (task : Task) (malloc : Option Nat) (starts : Bool)
  | enter (thread : Nat)
  | wake (thread : Nat)
  | finish (thread : Nat)

/-! ## Where the nodes are -/

def Worker.holds (task : Nat) : Worker → Nat
  | .running node => [node].count task
  | _ => 0

/-- In how many places a node is: on a list or in the hands of a thread. -/
def System.places (system : System Task) (task : Nat) : Nat :=
  system.pool.tasks.count task + system.pool.recycleTasks.count task +
    tally (Worker.holds task) system.workers

/-- `malloc` gives a block that is not in use, or `NULL`. -/
def System.mallocGives (system : System Task) (malloc : Option Nat) : Prop :=
  ∀ task ∈ malloc, system.places task = 0

instance (system : System Task) (malloc : Option Nat) : Decidable (system.mallocGives malloc) :=
  match malloc with
  | none => .isTrue nofun
  | some task =>
    decidable_of_iff (system.places task = 0)
      ⟨fun fresh _ same => Option.some.inj same ▸ fresh, fun fresh => fresh task rfl⟩

/-! ## Locked sections -/

/-- `thread_pool_create_threads`; `starts` says which calls of `thread_create` succeed, and the
first that fails ends the loop. -/
def createThreads (system : System Task) (num : Int) (starts : List Bool) : System Task :=
  let started := ((starts.take num.toNat).takeWhile id).length
  { system with
    pool := { system.pool with
      threadCount := int32 (system.pool.threadCount + started)
      threadCountIdle := int32 (system.pool.threadCountIdle + started)
      taskThreads :=
        (List.range' system.workers.length started).reverse ++ system.pool.taskThreads }
    workers := system.workers ++ List.replicate started .locking }

/-- `thread_pool_create_task` without the fields: a recycled node, or the one that `malloc` gives if
there is none. -/
def createTask (pool : ThreadPool) (malloc : Option Nat) : Option Nat × ThreadPool :=
  match pool.recycleTasks with
  | task :: rest => (some task, { pool with recycleTasks := rest })
  | [] => (malloc, pool)

/-- The node is filled in and put on the list. -/
def addTask (system : System Task) (task : Task) (node : Nat) (pool : ThreadPool) : System Task :=
  { system with
    pool := { pool with
      tasks := node :: pool.tasks
      taskCount := int32 (pool.taskCount + 1) }
    content := fun other => if other = node then some task else system.content other
    pushed := system.pushed ++ [task]
    number := fun other => if other = node then system.pushed.length else system.number other }

def threadPoolPush (system : System Task) (task : Task) (malloc : Option Nat) (starts : Bool) :
    System Task :=
  match createTask system.pool malloc with
  | (none, pool) => { system with pool := pool }
  | (some node, pool) =>
    let added := addTask system task node pool
    if added.pool.threadCountIdle < 1 ∧ added.pool.threadCount < added.pool.threadCountMax then
      createThreads added 1 [starts]
    else added

def System.placeWorker (system : System Task) (thread : Nat) (phase : Worker) : System Task :=
  { system with workers := system.workers.set thread phase }

/-- The worker with the lock: it takes a task, or leaves if too many threads are idle, or waits. -/
def serve (system : System Task) (thread : Nat) : System Task :=
  match system.pool.tasks with
  | task :: rest =>
    { system with pool := { system.pool with
        tasks := rest
        taskCount := int32 (system.pool.taskCount - 1)
        threadCountIdle := int32 (system.pool.threadCountIdle - 1) } }.placeWorker thread
      (.running task)
  | [] =>
    if system.pool.threadCountIdle > system.pool.idleMax then
      { system with pool := { system.pool with
          threadCount := int32 (system.pool.threadCount - 1)
          threadCountIdle := int32 (system.pool.threadCountIdle - 1)
          taskThreads := system.pool.taskThreads.erase thread } }.placeWorker thread .left
    else system.placeWorker thread .waiting

/-- The worker has its lock again: the node goes to the recycled ones. -/
def recycle (system : System Task) (thread task : Nat) : System Task :=
  { system with
    pool := { system.pool with
      threadCountIdle := int32 (system.pool.threadCountIdle + 1)
      recycleTasks := task :: system.pool.recycleTasks }
    ran := system.ran ++ [(system.number task, system.content task)] }.placeWorker thread .locking

/-! ## Steps -/

def step (system : System Task) : Action Task → Option (System Task)
  | .push task malloc starts =>
    if system.mallocGives malloc then some (threadPoolPush system task malloc starts) else none
  | .enter thread =>
    match system.workers[thread]? with
    | some .locking => some (serve system thread)
    | _ => none
  | .wake thread =>
    match system.workers[thread]? with
    | some .waiting => some (system.placeWorker thread .locking)
    | _ => none
  | .finish thread =>
    match system.workers[thread]? with
    | some (.running task) => some (serve (recycle system thread task) thread)
    | _ => none

def Steps (system : System Task) (action : Action Task) (next : System Task) : Prop :=
  step system action = some next

def threadPoolCreate (num max : Int) (starts : List Bool) : System Task :=
  createThreads ⟨⟨num, 0, max, 0, 0, [], [], []⟩, fun _ => none, [], [], fun _ => 0, []⟩ num starts

end CLibs.ThreadPools
