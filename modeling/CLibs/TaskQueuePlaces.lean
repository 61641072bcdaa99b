import CLibs.TaskQueues
import Mathlib.Data.List.Nodup
import Mathlib.Data.List.Perm.Subperm
import Mathlib.Data.List.Range

/-!
# Places of the nodes of the task queue

A node is in one place at a time.  The permits of `sema_request`, with the one that the
scheduler holds, stand for tasks on the list; the permits of `sema_worker` stand for
tasks that may be between the list and the post of their worker.  The threads that post
keep all of this.
-/

namespace CLibs.TaskQueues

open List

variable {Request : Type} {system next : System Request} {maxWorker thread task : Nat}
  {action : Action Request}

/-! ## Permits -/

def Poster.signals : Poster Request → Nat
  | .pushed => 1
  | _ => 0

def Scheduler.requests : Scheduler → Nat
  | .atWorker => 1
  | .popping => 1
  | _ => 0

/-- The scheduler has taken a worker and not handed over its task yet. -/
def Scheduler.taken : Scheduler → Nat
  | .popping => 1
  | .popped _ => 1
  | _ => 0

/-- A thread of the pool before its post. -/
def Worker.between : Worker → Nat
  | .running _ => 1
  | .recycled => 1
  | _ => 0

/-- A thread of the pool that refers to the queue. -/
def Worker.refers : Worker → Nat
  | .idle => 0
  | _ => 1

structure Sound (maxWorker : Nat) (system : System Request) : Prop where
  count : system.queue.tasksCount = system.queue.tasks.length
  recycleCount : system.queue.tasksRecycleCount = system.queue.tasksRecycle.length
  recycleFew : system.queue.tasksRecycleCount ≤ 501
  once : ∀ task, system.places task ≤ 1
  valid : ∀ task, 0 < system.places task → 0 < task ∧ task < 2 ^ 64
  requests : system.semaRequest + system.scheduler.requests +
    tally Poster.signals system.posters ≤ system.queue.tasks.length
  workers : system.semaWorker + system.scheduler.taken + system.pool.length +
    tally Worker.between system.workers ≤ maxWorker
  refs : 1 + system.pool.length + tally Worker.refers system.workers ≤ system.queue.ref
  order : system.posted =
    system.handed ++ (system.scheduler.tasks ++ system.queue.tasks).map system.params

theorem length_lt_of_places {tasks : List Nat} (once : ∀ task, tasks.count task ≤ 1)
    (valid : ∀ task ∈ tasks, 0 < task ∧ task < 2 ^ 64) : tasks.length < 2 ^ 64 := by
  have nodup : tasks.Nodup := nodup_iff_count_le_one.mpr once
  have inside : tasks ⊆ List.range' 1 (2 ^ 64 - 1) := by
    intro task listed
    have bounds := valid task listed
    rw [List.mem_range'_1]
    omega
  have le := (nodup.subperm inside).length_le
  rw [length_range'] at le
  omega

theorem count_le_places (system : System Request) (task : Nat) :
    system.queue.tasks.count task ≤ system.places task := by
  unfold System.places
  omega

theorem tasks_lt_of_places (once : ∀ task, system.places task ≤ 1)
    (valid : ∀ task, 0 < system.places task → 0 < task ∧ task < 2 ^ 64) :
    system.queue.tasks.length < 2 ^ 64 := by
  apply length_lt_of_places
  · exact fun task => (count_le_places system task).trans (once task)
  · intro task listed
    exact valid task ((count_pos_iff.mpr listed).trans_le (count_le_places system task))

/-! ## Places -/

def NoMore (system next : System Request) : Prop := ∀ task, next.places task ≤ system.places task

theorem Sound.once_of (sound : Sound maxWorker system) (noMore : NoMore system next) (task : Nat) :
    next.places task ≤ 1 := (noMore task).trans (sound.once task)

theorem Sound.valid_of (sound : Sound maxWorker system) (noMore : NoMore system next) (task : Nat)
    (placed : 0 < next.places task) : 0 < task ∧ task < 2 ^ 64 :=
  sound.valid task (placed.trans_le (noMore task))

theorem places_queue (system : System Request) (queue : TaskQueue) (task : Nat) :
    { system with queue := queue }.places task + system.queue.tasks.count task +
        system.queue.tasksRecycle.count task =
      system.places task + queue.tasks.count task + queue.tasksRecycle.count task := by
  unfold System.places
  dsimp only
  omega

theorem places_placePoster {old : Poster Request} (here : system.posters[thread]? = some old)
    (new : Poster Request) (task : Nat) :
    (system.placePoster thread new).places task + old.holds task =
      system.places task + new.holds task := by
  have moved := @tally_set _ (Poster.holds task) _ _ _ here new
  unfold System.places System.placePoster
  dsimp only
  omega

theorem places_placeWorker {old : Worker} (here : system.workers[thread]? = some old)
    (new : Worker) (task : Nat) :
    (system.placeWorker thread new).places task + old.holds task =
      system.places task + new.holds task := by
  have moved := @tally_set _ (Worker.holds task) _ _ _ here new
  unfold System.places System.placeWorker
  dsimp only
  omega

/-! ## Threads that post -/

theorem Sound.call (sound : Sound maxWorker system) (here : system.posters[thread]? = some .idle)
    (request : Request) : Sound maxWorker (system.placePoster thread (.called request)) := by
  have noMore : NoMore system (system.placePoster thread (.called request)) := by
    intro task
    exact (places_placePoster here (.called request) task).le
  have signals := @tally_set _ Poster.signals _ _ _ here (.called request)
  exact { sound with
    once := sound.once_of noMore
    valid := sound.valid_of noMore
    requests := by
      have requests := sound.requests
      unfold System.placePoster
      dsimp only [Poster.signals] at signals ⊢
      omega }

theorem Sound.returned {old : Poster Request} (sound : Sound maxWorker system)
    (here : system.posters[thread]? = some old) :
    Sound maxWorker (system.placePoster thread .idle) := by
  have noMore : NoMore system (system.placePoster thread .idle) := by
    intro task
    have moved := places_placePoster here .idle task
    change _ = _ + 0 at moved
    omega
  have signals := @tally_set _ Poster.signals _ _ _ here .idle
  exact { sound with
    once := sound.once_of noMore
    valid := sound.valid_of noMore
    requests := by
      have requests := sound.requests
      unfold System.placePoster
      dsimp only [Poster.signals] at signals ⊢
      omega }

variable {request : Request}

theorem Sound.gets (sound : Sound maxWorker system)
    (here : system.posters[thread]? = some (.called request)) (queue : TaskQueue)
    (listed : queue.tasks = system.queue.tasks ∧ queue.tasksCount = system.queue.tasksCount ∧
      queue.ref = system.queue.ref)
    (recycle : queue.tasksRecycleCount = queue.tasksRecycle.length)
    (few : queue.tasksRecycleCount ≤ 501)
    (fewer : ∀ node, queue.tasksRecycle.count node ≤ system.queue.tasksRecycle.count node)
    (free : queue.tasksRecycle.count task + system.places task =
      system.queue.tasksRecycle.count task)
    (valid : 0 < task ∧ task < 2 ^ 64) :
    Sound maxWorker ({ system with queue := queue }.placePoster thread (.allocated request task)) := by
  obtain ⟨tasks, count, ref⟩ := listed
  have places : ∀ node,
      ({ system with queue := queue }.placePoster thread (.allocated request task)).places node +
          system.queue.tasksRecycle.count node =
        system.places node + queue.tasksRecycle.count node + [task].count node := by
    intro node
    have moved := @places_placePoster _ { system with queue := queue } _ _ here
      (.allocated request task) node
    have queued := places_queue system queue node
    rw [tasks] at queued
    change _ + 0 = _ + [task].count node at moved
    omega
  have other : ∀ node, node ≠ task →
      ({ system with queue := queue }.placePoster thread (.allocated request task)).places node ≤
        system.places node := by
    intro node ne
    have moved := places node
    rw [count_cons_of_ne ne.symm, count_nil] at moved
    have less := fewer node
    omega
  have signals := @tally_set _ Poster.signals _ _ _ here (.allocated request task)
  exact {
    count := by
      change queue.tasksCount = queue.tasks.length
      rw [count, tasks, sound.count]
    recycleCount := recycle
    recycleFew := few
    once := by
      intro node
      by_cases same : node = task
      · have moved := places node
        rw [same, count_singleton_self] at moved
        rw [same]
        omega
      · exact (other node same).trans (sound.once node)
    valid := by
      intro node placed
      by_cases same : node = task
      · rw [same]
        exact valid
      · exact sound.valid node (placed.trans_le (other node same))
    requests := by
      have requests := sound.requests
      unfold System.placePoster
      dsimp only [Poster.signals] at signals ⊢
      rw [tasks]
      omega
    workers := sound.workers
    refs := by
      have refs := sound.refs
      change _ ≤ queue.ref
      rw [ref]
      exact refs
    order := by
      change system.posted = system.handed ++ (system.scheduler.tasks ++ queue.tasks).map system.params
      rw [tasks]
      exact sound.order }

theorem Sound.alloc (sound : Sound maxWorker system)
    (here : system.posters[thread]? = some (.called request)) {malloc : Option Nat}
    (gives : system.mallocGives malloc) :
    Yields (alloc system thread request malloc) (Sound maxWorker) := by
  unfold TaskQueues.alloc taskAlloc
  cases recycled : system.queue.tasksRecycle with
  | nil =>
    cases malloc with
    | none => exact ⟨_, rfl, sound.returned here⟩
    | some task =>
      obtain ⟨positive, small, absent⟩ := gives task rfl
      refine ⟨_, rfl, sound.gets here _ ⟨rfl, rfl, rfl⟩ sound.recycleCount sound.recycleFew
        (fun node => le_rfl) ?_ ⟨positive, small⟩⟩
      rw [absent, Nat.add_zero]
  | cons task rest =>
    have count := sound.recycleCount
    have few := sound.recycleFew
    have once := sound.once task
    have inside : system.queue.tasksRecycle.count task ≤ system.places task := by
      unfold System.places
      omega
    rw [recycled, count_cons_self] at inside
    rw [recycled, length_cons] at count
    have some : system.queue.tasksRecycleCount > 0 := by omega
    dsimp only
    rw [check_eq some]
    refine ⟨_, rfl, sound.gets here _ ⟨rfl, rfl, rfl⟩ ?_ ?_ ?_ ?_ ?_⟩
    · dsimp only
      omega
    · dsimp only
      omega
    · intro node
      rw [recycled]
      exact count_le_count_cons
    · rw [recycled, count_cons_self]
      dsimp only
      omega
    · apply sound.valid task
      omega

/-- The push of a task keeps the invariant. -/
theorem Sound.push (sound : Sound maxWorker system)
    (here : system.posters[thread]? = some (.allocated request task)) :
    Sound maxWorker (push system thread request task) := by
  have noMore : NoMore system (TaskQueues.push system thread request task) := by
    intro node
    have moved := @places_placePoster _ { system with queue := taskPush system.queue task } _ _ here
      .pushed node
    have queued := places_queue system (taskPush system.queue task) node
    have pushed : (taskPush system.queue task).tasks.count node =
        system.queue.tasks.count node + [task].count node := count_append
    change _ + [task].count node = _ + 0 at moved
    change ({ system with queue := taskPush system.queue task }.placePoster thread
      .pushed).places node ≤ _
    dsimp only [taskPush] at moved queued pushed ⊢
    omega
  have once := sound.once_of noMore
  have valid := sound.valid_of noMore
  have few := tasks_lt_of_places once valid
  have unlisted : task ∉ system.scheduler.tasks ++ system.queue.tasks := by
    intro listed
    have held := @le_tally _ (Poster.holds task) _ _ _ here
    have most := sound.once task
    change [task].count task ≤ _ at held
    rw [count_singleton_self] at held
    have positive := count_pos_iff.mpr listed
    rw [count_append] at positive
    unfold System.places at most
    omega
  have signals := @tally_set _ Poster.signals _ _ _ here .pushed
  change (system.queue.tasks ++ [task]).length < _ at few
  rw [length_append, length_singleton] at few
  exact {
    count := by
      change (system.queue.tasksCount + 1) % 2 ^ 64 = (system.queue.tasks ++ [task]).length
      rw [length_append, length_singleton, sound.count, Nat.mod_eq_of_lt few]
    recycleCount := sound.recycleCount
    recycleFew := sound.recycleFew
    once := once
    valid := valid
    requests := by
      have requests := sound.requests
      change _ + tally Poster.signals (system.posters.set thread .pushed) ≤
        (system.queue.tasks ++ [task]).length
      rw [length_append, length_singleton]
      dsimp only [Poster.signals, TaskQueues.push, System.placePoster] at signals ⊢
      omega
    workers := sound.workers
    refs := sound.refs
    order := by
      change system.posted ++ [some request] = system.handed ++
        (system.scheduler.tasks ++ (system.queue.tasks ++ [task])).map
          fun node => if node = task then some request else system.params node
      rw [← append_assoc, map_append, ← append_assoc, sound.order, map_singleton,
        if_pos rfl]
      congr 2
      apply map_congr_left
      intro node listed
      rw [if_neg]
      exact ne_of_mem_of_not_mem listed unlisted }

theorem semaPost_le (permits : Nat) : semaPost permits ≤ permits + 1 := by
  unfold semaPost
  split
  · exact le_rfl
  · exact Nat.le_succ _

theorem Sound.signal (sound : Sound maxWorker system)
    (here : system.posters[thread]? = some .pushed) :
    Sound maxWorker ({ system with semaRequest := semaPost system.semaRequest }.placePoster thread
      .idle) := by
  have noMore : NoMore system (system.placePoster thread .idle) := by
    intro task
    exact (places_placePoster here .idle task).le
  have signals := @tally_set _ Poster.signals _ _ _ here .idle
  have posted := semaPost_le system.semaRequest
  exact { sound with
    once := sound.once_of noMore
    valid := sound.valid_of noMore
    requests := by
      have requests := sound.requests
      unfold System.placePoster
      dsimp only [Poster.signals] at signals ⊢
      omega }

end CLibs.TaskQueues
