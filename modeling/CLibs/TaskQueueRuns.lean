import CLibs.TaskQueuePlaces

/-!
# Steps of the task queue

The scheduler and the threads of the pool keep the permits and the places of the nodes.
-/

namespace CLibs.TaskQueues

open List

variable {Request : Type} {system : System Request} {maxWorker thread task : Nat}

/-! ## The scheduler -/

/-- The scheduler goes on and takes a permit, while it holds what it held. -/
theorem Sound.permit (sound : Sound maxWorker system) {scheduler : Scheduler}
    {semaRequest semaWorker : Nat} (tasks : scheduler.tasks = system.scheduler.tasks)
    (requests : semaRequest + scheduler.requests = system.semaRequest + system.scheduler.requests)
    (workers : semaWorker + scheduler.taken = system.semaWorker + system.scheduler.taken) :
    Sound maxWorker { system with
      semaRequest := semaRequest
      semaWorker := semaWorker
      scheduler := scheduler } := by
  have places : ∀ task, System.places { system with
      semaRequest := semaRequest
      semaWorker := semaWorker
      scheduler := scheduler } task = system.places task := by
    intro task
    unfold System.places
    dsimp only
    rw [tasks]
  exact { sound with
    once := fun task => (places task).trans_le (sound.once task)
    valid := fun task placed => sound.valid task (placed.trans_eq (places task))
    requests := by
      dsimp only
      rw [requests]
      exact sound.requests
    workers := by
      dsimp only
      rw [workers]
      exact sound.workers
    order := by
      dsimp only
      rw [tasks]
      exact sound.order }

theorem Sound.waitRequest (sound : Sound maxWorker system) (here : system.scheduler = .atRequest)
    (available : 0 < system.semaRequest) :
    Sound maxWorker { system with
      semaRequest := system.semaRequest - 1
      scheduler := .atWorker } := by
  refine sound.permit (by rw [here]; rfl) ?_ (by rw [here]; rfl)
  rw [here]
  dsimp only [Scheduler.requests]
  omega

theorem Sound.waitWorker (sound : Sound maxWorker system) (here : system.scheduler = .atWorker)
    (available : 0 < system.semaWorker) :
    Sound maxWorker { system with
      semaWorker := system.semaWorker - 1
      scheduler := .popping } := by
  refine sound.permit (by rw [here]; rfl) (by rw [here]; rfl) ?_
  rw [here]
  dsimp only [Scheduler.taken]
  omega

theorem Sound.pop (sound : Sound maxWorker system) (here : system.scheduler = .popping) :
    Yields (pop system) (Sound maxWorker) := by
  have requests := sound.requests
  have workers := sound.workers
  have order := sound.order
  have count := sound.count
  rw [here] at requests workers order
  cases tasks : system.queue.tasks with
  | nil =>
    rw [tasks, length_nil] at requests
    dsimp only [Scheduler.requests] at requests
    omega
  | cons task rest =>
    rw [tasks, length_cons] at requests count
    rw [tasks] at order
    have positive : system.queue.tasksCount > 0 := by omega
    have popped : TaskQueues.pop system = .ok { system with
        queue := { system.queue with tasks := rest, tasksCount := system.queue.tasksCount - 1 }
        scheduler := .popped task } := by
      unfold TaskQueues.pop taskPop
      rw [tasks]
      dsimp only
      rw [check_eq positive]
      rfl
    have places : ∀ node, System.places
        { system with
          queue := { system.queue with tasks := rest, tasksCount := system.queue.tasksCount - 1 }
          scheduler := .popped task } node = system.places node := by
      intro node
      unfold System.places
      rw [here, tasks, count_cons]
      dsimp only [Scheduler.tasks]
      rw [count_nil, count_singleton]
      omega
    refine ⟨_, popped, { sound with
      count := ?_
      once := fun node => (places node).trans_le (sound.once node)
      valid := fun node placed => sound.valid node (placed.trans_eq (places node))
      requests := ?_
      workers := workers
      order := order }⟩
    · dsimp only
      omega
    · dsimp only [Scheduler.requests] at requests ⊢
      omega

theorem Sound.hand (sound : Sound maxWorker system) (here : system.scheduler = .popped task)
    (accepted : Bool) : Sound maxWorker (hand system task accepted) := by
  have requests := sound.requests
  have workers := sound.workers
  have refs := sound.refs
  have order := sound.order
  rw [here] at requests workers order
  dsimp only [Scheduler.requests, Scheduler.taken, Scheduler.tasks] at requests workers order
  have few : (TaskQueues.hand system task accepted).pool.length ≤ system.pool.length + 1 := by
    cases accepted with
    | false => exact Nat.le_succ _
    | true => exact le_rfl
  have noMore : NoMore system (TaskQueues.hand system task accepted) := by
    intro node
    have listed : (TaskQueues.hand system task accepted).pool.count node ≤
        system.pool.count node + [task].count node := by
      cases accepted with
      | false => exact Nat.le_add_right _ _
      | true =>
        change (task :: system.pool).count node ≤ _
        rw [count_cons, count_singleton]
    unfold System.places
    rw [here]
    dsimp only [Scheduler.tasks]
    change _ + 0 + _ + _ ≤ _
    dsimp only [TaskQueues.hand] at listed ⊢
    omega
  exact { sound with
    once := sound.once_of noMore
    valid := sound.valid_of noMore
    requests := requests
    workers := by
      change system.semaWorker + 0 + (TaskQueues.hand system task accepted).pool.length +
        tally Worker.between system.workers ≤ maxWorker
      omega
    refs := by
      change 1 + (TaskQueues.hand system task accepted).pool.length +
        tally Worker.refers system.workers ≤ system.queue.ref + 1
      omega
    order := by
      rw [map_append, ← append_assoc] at order
      exact order }

/-! ## Threads of the pool -/

theorem Sound.take (sound : Sound maxWorker system) (here : system.workers[thread]? = some .idle)
    (waiting : task ∈ system.pool) :
    Sound maxWorker ({ system with pool := system.pool.erase task }.placeWorker thread
      (.running task)) := by
  have fewer : (system.pool.erase task).length + 1 = system.pool.length :=
    length_erase_add_one waiting
  have places : ∀ node, ({ system with pool := system.pool.erase task }.placeWorker thread
      (.running task)).places node = system.places node := by
    intro node
    have moved := @places_placeWorker _ { system with pool := system.pool.erase task } _ _ here
      (.running task) node
    have erased := (perm_cons_erase waiting).count_eq node
    change _ + 0 = _ + [task].count node at moved
    rw [count_cons] at erased
    rw [count_singleton] at moved
    unfold System.places at moved ⊢
    dsimp only at moved ⊢
    omega
  have between := @tally_set _ Worker.between _ _ _ here (.running task)
  have refers := @tally_set _ Worker.refers _ _ _ here (.running task)
  have workers := sound.workers
  have refs := sound.refs
  exact { sound with
    once := fun node => (places node).trans_le (sound.once node)
    valid := fun node placed => sound.valid node (placed.trans_eq (places node))
    workers := by
      dsimp only [Worker.between, System.placeWorker] at between ⊢
      omega
    refs := by
      dsimp only [Worker.refers, System.placeWorker] at refers ⊢
      omega }

theorem taskRecycle_eq (queue : TaskQueue) (task : Nat) :
    taskRecycle queue task = queue ∨ queue.tasksRecycleCount ≤ 500 ∧
      taskRecycle queue task = { queue with
        tasksRecycle := queue.tasksRecycle ++ [task]
        tasksRecycleCount := queue.tasksRecycleCount + 1 } := by
  unfold taskRecycle
  split
  · exact .inl rfl
  · next few =>
      rw [Nat.mod_eq_of_lt (by omega)]
      exact .inr ⟨by omega, rfl⟩

theorem Sound.recycle (sound : Sound maxWorker system)
    (here : system.workers[thread]? = some (.running task)) :
    Sound maxWorker ({ system with queue := taskRecycle system.queue task }.placeWorker thread
      .recycled) := by
  have between := @tally_set _ Worker.between _ _ _ here .recycled
  have refers := @tally_set _ Worker.refers _ _ _ here .recycled
  have workers := sound.workers
  have refs := sound.refs
  have noMore : NoMore system ({ system with
      queue := taskRecycle system.queue task }.placeWorker thread .recycled) := by
    intro node
    have moved := @places_placeWorker _ { system with queue := taskRecycle system.queue task } _ _
      here .recycled node
    have queued := places_queue system (taskRecycle system.queue task) node
    have listed : (taskRecycle system.queue task).tasks = system.queue.tasks ∧
        (taskRecycle system.queue task).tasksRecycle.count node ≤
          system.queue.tasksRecycle.count node + [task].count node := by
      rcases taskRecycle_eq system.queue task with freed | ⟨-, kept⟩
      · rw [freed]
        exact ⟨rfl, Nat.le_add_right _ _⟩
      · rw [kept]
        exact ⟨rfl, count_append.le⟩
    rw [listed.1] at queued
    change _ + [task].count node = _ + 0 at moved
    omega
  have once := sound.once_of noMore
  have valid := sound.valid_of noMore
  have between : system.semaWorker + system.scheduler.taken + system.pool.length +
      tally Worker.between (system.workers.set thread .recycled) ≤ maxWorker := by
    dsimp only [Worker.between] at between
    omega
  have refers : 1 + system.pool.length + tally Worker.refers (system.workers.set thread .recycled) ≤
      system.queue.ref := by
    dsimp only [Worker.refers] at refers
    omega
  rcases taskRecycle_eq system.queue task with freed | ⟨few, kept⟩
  · rw [freed] at once valid ⊢
    exact { sound with once := once, valid := valid, workers := between, refs := refers }
  · rw [kept] at once valid ⊢
    exact { sound with
      recycleCount := by
        change system.queue.tasksRecycleCount + 1 = (system.queue.tasksRecycle ++ [task]).length
        rw [length_append, length_singleton, sound.recycleCount]
      recycleFew := Nat.succ_le_succ few
      once := once
      valid := valid
      workers := between
      refs := refers }

theorem Sound.release (sound : Sound maxWorker system)
    (here : system.workers[thread]? = some .recycled) :
    Sound maxWorker ({ system with semaWorker := semaPost system.semaWorker }.placeWorker thread
      .posted) := by
  have noMore : NoMore system (system.placeWorker thread .posted) := by
    intro task
    exact (places_placeWorker here .posted task).le
  have between := @tally_set _ Worker.between _ _ _ here .posted
  have refers := @tally_set _ Worker.refers _ _ _ here .posted
  have posted := semaPost_le system.semaWorker
  have workers := sound.workers
  have refs := sound.refs
  exact { sound with
    once := sound.once_of noMore
    valid := sound.valid_of noMore
    workers := by
      dsimp only [Worker.between, System.placeWorker] at between ⊢
      omega
    refs := by
      dsimp only [Worker.refers, System.placeWorker] at refers ⊢
      omega }

theorem Sound.unref (sound : Sound maxWorker system)
    (here : system.workers[thread]? = some .posted) :
    Yields ((taskQueueRelease system.queue).map fun queue =>
      { system with queue := queue }.placeWorker thread .idle) (Sound maxWorker) := by
  have between := @tally_set _ Worker.between _ _ _ here .idle
  have refers := @tally_set _ Worker.refers _ _ _ here .idle
  have workers := sound.workers
  have refs := sound.refs
  have noMore : NoMore system (system.placeWorker thread .idle) := by
    intro task
    exact (places_placeWorker here .idle task).le
  dsimp only [Worker.between, Worker.refers] at between refers
  have more : ¬system.queue.ref - 1 = 0 := by omega
  have released : taskQueueRelease system.queue =
      .ok { system.queue with ref := system.queue.ref - 1 } := if_neg more
  rw [released]
  refine ⟨_, rfl, { sound with
    once := sound.once_of noMore
    valid := sound.valid_of noMore
    workers := ?_
    refs := ?_ }⟩
  · dsimp only [System.placeWorker]
    omega
  · dsimp only [System.placeWorker]
    omega

end CLibs.TaskQueues

/-!
## Runs of the task queue

Every step keeps the invariant, and the state of `task_queue_create` has it as long as
`tasks_count` is right there.
-/

namespace CLibs.TaskQueues

open List

variable {Request : Type} {system next : System Request} {maxWorker thread task : Nat}
  {action : Action Request}

/-! ## Runs -/

theorem Sound.step (sound : Sound maxWorker system) {result : Except Fault (System Request)}
    (stepped : step system action = some result) : Yields result (Sound maxWorker) := by
  cases action with
  | call thread request =>
    simp only [TaskQueues.step] at stepped
    split at stepped
    · next here =>
        rw [← Option.some.inj stepped]
        exact ⟨_, rfl, sound.call here request⟩
    · cases stepped
  | alloc thread malloc =>
    simp only [TaskQueues.step] at stepped
    split at stepped
    · next here =>
        split at stepped
        · next gives =>
            rw [← Option.some.inj stepped]
            exact sound.alloc here gives
        · cases stepped
    · cases stepped
  | push thread =>
    simp only [TaskQueues.step] at stepped
    split at stepped
    · next here =>
        rw [← Option.some.inj stepped]
        exact ⟨_, rfl, sound.push here⟩
    · cases stepped
  | signal thread =>
    simp only [TaskQueues.step] at stepped
    split at stepped
    · next here =>
        rw [← Option.some.inj stepped]
        exact ⟨_, rfl, sound.signal here⟩
    · cases stepped
  | waitRequest =>
    simp only [TaskQueues.step] at stepped
    split at stepped
    · next here =>
        split at stepped
        · next available =>
            rw [← Option.some.inj stepped]
            exact ⟨_, rfl, sound.waitRequest here available⟩
        · cases stepped
    · cases stepped
  | waitWorker =>
    simp only [TaskQueues.step] at stepped
    split at stepped
    · next here =>
        split at stepped
        · next available =>
            rw [← Option.some.inj stepped]
            exact ⟨_, rfl, sound.waitWorker here available⟩
        · cases stepped
    · cases stepped
  | pop =>
    simp only [TaskQueues.step] at stepped
    split at stepped
    · next here =>
        rw [← Option.some.inj stepped]
        exact sound.pop here
    · cases stepped
  | hand accepted =>
    simp only [TaskQueues.step] at stepped
    split at stepped
    · next here =>
        rw [← Option.some.inj stepped]
        exact ⟨_, rfl, sound.hand here accepted⟩
    · cases stepped
  | take thread task =>
    simp only [TaskQueues.step] at stepped
    split at stepped
    · next here =>
        split at stepped
        · next waiting =>
            rw [← Option.some.inj stepped]
            exact ⟨_, rfl, sound.take here waiting⟩
        · cases stepped
    · cases stepped
  | recycle thread =>
    simp only [TaskQueues.step] at stepped
    split at stepped
    · next here =>
        rw [← Option.some.inj stepped]
        exact ⟨_, rfl, sound.recycle here⟩
    · cases stepped
  | release thread =>
    simp only [TaskQueues.step] at stepped
    split at stepped
    · next here =>
        rw [← Option.some.inj stepped]
        exact ⟨_, rfl, sound.release here⟩
    · cases stepped
  | unref thread =>
    simp only [TaskQueues.step] at stepped
    split at stepped
    · next here =>
        rw [← Option.some.inj stepped]
        exact sound.unref here
    · cases stepped

theorem created_places (garbage posters workers task : Nat) :
    (created maxWorker garbage posters workers : System Request).places task = 0 := by
  have posting : tally (Poster.holds task)
      (List.replicate posters (.idle : Poster Request)) = 0 := by
    apply tally_eq_zero
    intro phase member
    rw [eq_of_mem_replicate member]
    rfl
  have working : tally (Worker.holds task) (List.replicate workers .idle) = 0 := by
    apply tally_eq_zero
    intro phase member
    rw [eq_of_mem_replicate member]
    rfl
  change 0 + 0 + tally (Poster.holds task) (List.replicate posters .idle) + 0 + 0 +
    tally (Worker.holds task) (List.replicate workers .idle) = 0
  omega

theorem created_sound (maxWorker posters workers : Nat) :
    Sound maxWorker (created maxWorker 0 posters workers : System Request) where
  count := rfl
  recycleCount := rfl
  recycleFew := Nat.zero_le _
  once task := by
    rw [created_places]
    exact Nat.zero_le _
  valid task placed := by
    rw [created_places] at placed
    exact absurd placed (Nat.lt_irrefl _)
  requests := by
    change 0 + 0 + tally Poster.signals (List.replicate posters .idle) ≤ 0
    rw [tally_eq_zero]
    intro phase member
    rw [eq_of_mem_replicate member]
    rfl
  workers := by
    change maxWorker + 0 + 0 + tally Worker.between (List.replicate workers .idle) ≤ maxWorker
    rw [tally_eq_zero]
    · exact le_rfl
    · intro phase member
      rw [eq_of_mem_replicate member]
      rfl
  refs := by
    change 1 + 0 + tally Worker.refers (List.replicate workers .idle) ≤ 1
    rw [tally_eq_zero]
    intro phase member
    rw [eq_of_mem_replicate member]
    rfl
  order := rfl

theorem runs_sound {first last : System Request} {actions : List (Action Request)}
    (run : Runs (fun _ _ => True) Steps first actions last) (sound : Sound maxWorker first) :
    Sound maxWorker last := by
  refine run.invariant ?_ sound
  intro state action after kept _ stepped
  obtain ⟨result, returned, sound⟩ := kept.step stepped
  rw [Except.ok.inj returned]
  exact sound

/-- What the queue promises in a state: the counter is the length of the list, no assertion
fails, the tasks are handed over in the order of the posts, a task that runs is nowhere
else, and at most `maxWorker` tasks are between the list and the post of their worker. -/
structure Dispatches (maxWorker : Nat) (system : System Request) : Prop where
  count : system.queue.tasksCount = system.queue.tasks.length
  asserted : ∀ action fault, step system action ≠ some (.error fault)
  order : system.handed <+: system.posted
  running : ∀ (thread : Nat) task, system.workers[thread]? = some (.running task) →
    task ∉ system.queue.tasks ∧ task ∉ system.queue.tasksRecycle ∧ task ∉ system.pool ∧
      ∀ other : Nat, system.workers[other]? = some (.running task) → other = thread
  between : system.scheduler.tasks.length + system.pool.length +
    tally Worker.between system.workers ≤ maxWorker

theorem Sound.dispatches (sound : Sound maxWorker system) : Dispatches maxWorker system := by
  constructor
  · exact sound.count
  · intro action fault stepped
    obtain ⟨next, returned, -⟩ := sound.step stepped
    cases returned
  · rw [sound.order]
    exact prefix_append _ _
  · intro thread task here
    have most := sound.once task
    have held := @le_tally _ (Worker.holds task) _ _ _ here
    change [task].count task ≤ _ at held
    rw [count_singleton_self] at held
    unfold System.places at most
    refine ⟨?_, ?_, ?_, ?_⟩
    · exact count_eq_zero.mp (by omega)
    · exact count_eq_zero.mp (by omega)
    · exact count_eq_zero.mp (by omega)
    · intro other elsewhere
      by_contra ne
      -- without this thread the other one still runs the task
      have left := @tally_set _ (Worker.holds task) _ _ _ here .idle
      have still : (system.workers.set thread .idle)[other]? = some (.running task) := by
        rw [List.getElem?_set_ne (Ne.symm ne)]
        exact elsewhere
      have more := @le_tally _ (Worker.holds task) _ _ _ still
      change [task].count task ≤ _ at more
      change _ + [task].count task = _ + 0 at left
      rw [count_singleton_self] at more left
      omega
  · have workers := sound.workers
    have tasks : system.scheduler.tasks.length ≤ system.scheduler.taken := by
      cases system.scheduler with
      | atRequest => exact le_rfl
      | atWorker => exact le_rfl
      | popping => exact Nat.zero_le _
      | popped task => exact le_rfl
    omega

/-- The promise holds in every run if and only if the block that `malloc` gives has no tasks
in the place of `tasks_count`. -/
theorem taskQueue_dispatches_iff (maxWorker garbage : Nat) :
    (∀ posters workers actions last,
      Runs (fun _ _ => True) Steps
        (created maxWorker garbage posters workers : System Request) actions last →
      Dispatches maxWorker last) ↔ garbage = 0 := by
  constructor
  · intro promised
    exact (promised 0 0 [] _ (.nil _)).count
  · rintro rfl posters workers actions last run
    exact (runs_sound run (created_sound maxWorker posters workers)).dispatches

/-- The counter wraps around at the first post, and the assertion of `task_pop` fails. -/
theorem taskQueue_asserts :
    ¬∀ (maxWorker garbage posters workers : Nat) (actions : List (Action Unit)) last,
      garbage < 2 ^ 64 → Runs (fun _ _ => True) Steps
        (created maxWorker garbage posters workers) actions last → Dispatches maxWorker last := by
  intro promised
  refine (promised 1 (2 ^ 64 - 1) 1 1
    [.call 0 (), .alloc 0 (some 1), .push 0, .signal 0, .waitRequest, .waitWorker] _ (by decide)
    (.cons trivial rfl (.cons trivial rfl (.cons trivial rfl (.cons trivial rfl
      (.cons trivial rfl (.cons trivial rfl (.nil _)))))))).asserted .pop .assertion rfl

end CLibs.TaskQueues
