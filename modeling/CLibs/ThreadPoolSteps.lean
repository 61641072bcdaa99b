import CLibs.ThreadPools

/-!
# Locked sections of the thread pool

Each push is in one place: on the list, with a thread, or in the log.  The counters follow
the list and the phases of the threads.  Every locked section keeps this, as long as
`task_count` does not overflow.
-/

namespace CLibs.ThreadPools

open List

open Channels (int32 int32_eq)

variable {Task : Type} {system : System Task} {max : Int} {thread node : Nat}

/-! ## Phases -/

/-- The thread counts as a thread of the pool. -/
def Worker.alive : Worker → Nat
  | .left => 0
  | _ => 1

def Worker.executing : Worker → Nat
  | .running _ => 1
  | _ => 0

def Worker.runs (number : Nat → Nat) (serial : Nat) : Worker → Nat
  | .running task => [number task].count serial
  | _ => 0

theorem executing_le_alive (phase : Worker) : phase.executing ≤ phase.alive := by
  cases phase with
  | locking => exact Nat.zero_le _
  | waiting => exact Nat.zero_le _
  | running task => exact Nat.le_refl _
  | left => exact Nat.le_refl _

/-- How often a push is on the list, with a thread, or in the log. -/
def System.standing (system : System Task) (serial : Nat) : Nat :=
  (system.pool.tasks.map system.number).count serial +
    tally (Worker.runs system.number serial) system.workers +
    (system.ran.map Prod.fst).count serial

/-- In how many places a node waits for its procedure or is in it. -/
def System.active (system : System Task) (node : Nat) : Nat :=
  system.pool.tasks.count node + tally (Worker.holds node) system.workers

structure Sound (max : Int) (system : System Task) : Prop where
  most : system.pool.threadCountMax = max
  nodes : ∀ node, system.places node ≤ 1
  standing : ∀ serial, system.standing serial = if serial < system.pushed.length then 1 else 0
  content : ∀ node, 0 < system.active node →
    system.content node = system.pushed[system.number node]?
  ran : ∀ entry ∈ system.ran, entry.2 = system.pushed[entry.1]?
  taskCount : system.pool.taskCount = system.pool.tasks.length
  few : system.pool.tasks.length < 2 ^ 31
  threadCount : system.pool.threadCount = (tally Worker.alive system.workers : Int)
  threads : system.pool.threadCount ≤ max
  idle : system.pool.threadCountIdle + (tally Worker.executing system.workers : Int) =
    system.pool.threadCount

theorem Sound.executing_le (sound : Sound max system) :
    (tally Worker.executing system.workers : Int) ≤ system.pool.threadCount := by
  rw [sound.threadCount]
  exact Int.ofNat_le.mpr (tally_le executing_le_alive _)

/-! ## New threads -/

theorem Sound.createThreads (sound : Sound max system) (int : max < 2 ^ 31) {num : Int}
    {starts : List Bool} (room : system.pool.threadCount + num.toNat ≤ max) :
    Sound max (createThreads system num starts) := by
  unfold ThreadPools.createThreads
  generalize counted : ((starts.take num.toNat).takeWhile id).length = started
  have bound : started ≤ num.toNat := by
    rw [← counted]
    have front : (starts.take num.toNat).takeWhile id <+: starts.take num.toNat := takeWhile_prefix id
    exact front.length_le.trans (length_take_le _ _)
  have fewer := sound.executing_le
  have idle := sound.idle
  have count := sound.threadCount
  have tallied (weight : Worker → Nat) : tally weight
      (system.workers ++ List.replicate started .locking) =
        tally weight system.workers + started * weight .locking := by
    rw [tally_append, tally_replicate]
  have threads : int32 (system.pool.threadCount + started) = system.pool.threadCount + started :=
    int32_eq (by omega) (by omega)
  have resting : int32 (system.pool.threadCountIdle + started) =
      system.pool.threadCountIdle + started := int32_eq (by omega) (by omega)
  exact { sound with
    nodes := by
      intro node
      have before := sound.nodes node
      unfold System.places at before ⊢
      rw [tallied]
      exact before
    standing := by
      intro serial
      have before := sound.standing serial
      unfold System.standing at before ⊢
      rw [tallied]
      exact before
    content := by
      intro node active
      apply sound.content node
      unfold System.active at active ⊢
      rw [tallied] at active
      exact active
    threadCount := by
      dsimp only
      rw [threads, tallied, count]
      push_cast [Worker.alive]
      omega
    threads := by
      dsimp only
      omega
    idle := by
      dsimp only
      rw [threads, resting, tallied]
      push_cast [Worker.executing]
      omega }

/-! ## New tasks -/

theorem tally_runs_congr {number other : Nat → Nat} {serial : Nat} {workers : List Worker}
    (same : ∀ node, 0 < tally (Worker.holds node) workers → other node = number node) :
    tally (Worker.runs other serial) workers = tally (Worker.runs number serial) workers := by
  apply tally_congr
  intro phase member
  cases phase with
  | locking => rfl
  | waiting => rfl
  | left => rfl
  | running task =>
    obtain ⟨thread, here⟩ := mem_iff_getElem?.mp member
    have held := @le_tally _ (Worker.holds task) _ _ _ here
    change [task].count task ≤ _ at held
    rw [count_singleton_self] at held
    change [other task].count serial = [number task].count serial
    rw [same task held]

theorem tally_holds_le {number : Nat → Nat} (node : Nat) (workers : List Worker) :
    tally (Worker.holds node) workers ≤ tally (Worker.runs number (number node)) workers := by
  apply tally_le
  intro phase
  cases phase with
  | locking => exact Nat.le_refl _
  | waiting => exact Nat.le_refl _
  | left => exact Nat.le_refl _
  | running task =>
    change [task].count node ≤ [number task].count (number node)
    exact count_le_count_map

theorem active_le_standing (system : System Task) (node : Nat) :
    system.active node ≤ system.standing (system.number node) := by
  have listed : system.pool.tasks.count node ≤
      (system.pool.tasks.map system.number).count (system.number node) := count_le_count_map
  have held := @tally_holds_le system.number node system.workers
  unfold System.active System.standing
  omega

theorem Sound.standing_lt (sound : Sound max system) {serial : Nat}
    (stands : 0 < system.standing serial) : serial < system.pushed.length := by
  rw [sound.standing] at stands
  by_contra outside
  rw [if_neg outside] at stands
  exact Nat.lt_irrefl _ stands

theorem Sound.ran_lt (sound : Sound max system) {entry : Nat × Option Task}
    (logged : entry ∈ system.ran) : entry.1 < system.pushed.length := by
  apply sound.standing_lt
  have counted := count_pos_iff.mpr (mem_map_of_mem logged : entry.1 ∈ _)
  unfold System.standing
  omega

theorem Sound.addTask (sound : Sound max system) (task : Task) {recycled : List Nat}
    (nodes : ∀ other, recycled.count other ≤ system.pool.recycleTasks.count other)
    (free : recycled.count node + system.places node ≤ system.pool.recycleTasks.count node)
    (few : system.pool.tasks.length < 2 ^ 31 - 1) :
    Sound max (addTask system task node { system.pool with recycleTasks := recycled }) := by
  have inactive : system.active node = 0 := by
    unfold System.active
    unfold System.places at free
    omega
  have different : ∀ other, 0 < system.active other → other ≠ node := by
    rintro other active rfl
    omega
  have numbers : ∀ other, 0 < system.active other →
      (if other = node then system.pushed.length else system.number other) = system.number other :=
    fun other active => if_neg (different other active)
  have places (other : Nat) : (ThreadPools.addTask system task node
      { system.pool with recycleTasks := recycled }).places other =
        [node].count other + recycled.count other + system.active other := by
    change (node :: system.pool.tasks).count other + recycled.count other +
      tally (Worker.holds other) system.workers = _
    unfold System.active
    rw [count_cons, count_singleton]
    omega
  exact {
    most := sound.most
    nodes := by
      intro other
      rw [places]
      by_cases same : other = node
      · rw [same, inactive, count_singleton_self]
        unfold System.places at free
        unfold System.active at inactive
        omega
      · rw [count_cons_of_ne (Ne.symm same), count_nil]
        have before := sound.nodes other
        have less := nodes other
        unfold System.places at before
        unfold System.active
        omega
    standing := by
      intro serial
      have before := sound.standing serial
      have listed : (system.pool.tasks.map fun other =>
          if other = node then system.pushed.length else system.number other) =
            system.pool.tasks.map system.number := by
        apply map_congr_left
        intro other listed
        apply numbers
        have counted := count_pos_iff.mpr listed
        unfold System.active
        omega
      have held := @tally_runs_congr system.number (fun other =>
        if other = node then system.pushed.length else system.number other) serial system.workers
        fun other holds => numbers other (by unfold System.active; omega)
      change ((node :: system.pool.tasks).map fun other =>
          if other = node then system.pushed.length else system.number other).count serial +
        tally (Worker.runs (fun other =>
          if other = node then system.pushed.length else system.number other) serial)
            system.workers + (system.ran.map Prod.fst).count serial =
          if serial < (system.pushed ++ [task]).length then 1 else 0
      unfold System.standing at before
      rw [map_cons, listed, held, if_pos rfl, count_cons, length_append,
        length_singleton]
      by_cases last : system.pushed.length = serial
      · rw [last, if_neg (Nat.lt_irrefl _)] at before
        rw [last, beq_self_eq_true, if_pos rfl, if_pos (Nat.lt_succ_self _)]
        omega
      · rw [if_neg (by simpa using last)]
        split at before
        · rw [if_pos (by omega)]
          exact before
        · rw [if_neg (by omega)]
          exact before
    content := by
      intro other active
      change (if other = node then some task else system.content other) =
        (system.pushed ++ [task])[if other = node then system.pushed.length
          else system.number other]?
      by_cases same : other = node
      · rw [if_pos same, if_pos same, List.getElem?_concat_length]
      · have before : 0 < system.active other := by
          change 0 < (node :: system.pool.tasks).count other + _ at active
          rw [count_cons_of_ne (Ne.symm same)] at active
          exact active
        rw [if_neg same, if_neg same, List.getElem?_append_left, sound.content other before]
        exact sound.standing_lt (before.trans_le (active_le_standing system other))
    ran := by
      intro entry logged
      change entry.2 = (system.pushed ++ [task])[entry.1]?
      rw [List.getElem?_append_left (sound.ran_lt logged)]
      exact sound.ran entry logged
    taskCount := by
      change int32 (system.pool.taskCount + 1) = (node :: system.pool.tasks).length
      rw [sound.taskCount, length_cons, int32_eq (by omega) (by omega)]
      rfl
    few := by
      change (node :: system.pool.tasks).length < 2 ^ 31
      rw [length_cons]
      omega
    threadCount := sound.threadCount
    threads := sound.threads
    idle := sound.idle }

theorem Sound.push (sound : Sound max system) (int : max < 2 ^ 31) (task : Task)
    {malloc : Option Nat} (gives : system.mallocGives malloc) (starts : Bool)
    (few : system.pool.tasks.length < 2 ^ 31 - 1) :
    Sound max (threadPoolPush system task malloc starts) := by
  have grows {added : System Task} (sound : Sound max added) : Sound max
      (if added.pool.threadCountIdle < 1 ∧ added.pool.threadCount < added.pool.threadCountMax then
        ThreadPools.createThreads added 1 [starts] else added) := by
    split
    · next low =>
        apply sound.createThreads int
        have most := sound.most
        change added.pool.threadCount + (1 : Nat) ≤ max
        omega
    · exact sound
  unfold threadPoolPush createTask
  cases recycled : system.pool.recycleTasks with
  | nil =>
    cases malloc with
    | none => exact sound
    | some node =>
      refine grows (sound.addTask task (fun other => le_rfl) ?_ few)
      rw [gives node rfl]
      exact Nat.le_refl _
  | cons node rest =>
    refine grows (sound.addTask task ?_ ?_ few)
    · intro other
      rw [recycled]
      exact count_le_count_cons
    · have once := sound.nodes node
      unfold System.places at once ⊢
      rw [recycled, count_cons_self] at once ⊢
      omega

/-! ## Threads of the pool -/

theorem free_weights {phase : Worker} (free : ∀ task, phase ≠ .running task) :
    (∀ node, phase.holds node = 0) ∧ (∀ number serial, phase.runs number serial = 0) ∧
      phase.executing = 0 := by
  cases phase with
  | running task => exact absurd rfl (free task)
  | locking => exact ⟨fun node => rfl, fun number serial => rfl, rfl⟩
  | waiting => exact ⟨fun node => rfl, fun number serial => rfl, rfl⟩
  | left => exact ⟨fun node => rfl, fun number serial => rfl, rfl⟩

theorem Sound.rests (sound : Sound max system) {old new : Worker}
    (here : system.workers[thread]? = some old) (oldFree : ∀ task, old ≠ .running task)
    (newFree : ∀ task, new ≠ .running task) {threadCount threadCountIdle : Int}
    {taskThreads : List Nat} (threads : threadCount + old.alive = system.pool.threadCount + new.alive)
    (idle : threadCountIdle + old.alive = system.pool.threadCountIdle + new.alive)
    (most : threadCount ≤ max) :
    Sound max ({ system with pool := { system.pool with
      threadCount := threadCount
      threadCountIdle := threadCountIdle
      taskThreads := taskThreads } }.placeWorker thread new) := by
  obtain ⟨oldHolds, oldRuns, oldExecuting⟩ := free_weights oldFree
  obtain ⟨newHolds, newRuns, newExecuting⟩ := free_weights newFree
  have count := @tally_set _ Worker.alive _ _ _ here new
  have running := @tally_set _ Worker.executing _ _ _ here new
  have held (node : Nat) : tally (Worker.holds node) (system.workers.set thread new) =
      tally (Worker.holds node) system.workers := by
    have moved := @tally_set _ (Worker.holds node) _ _ _ here new
    rw [oldHolds, newHolds] at moved
    exact moved
  have tasks (serial : Nat) : tally (Worker.runs system.number serial)
      (system.workers.set thread new) = tally (Worker.runs system.number serial) system.workers := by
    have moved := @tally_set _ (Worker.runs system.number serial) _ _ _ here new
    rw [oldRuns, newRuns] at moved
    exact moved
  rw [oldExecuting, newExecuting] at running
  exact { sound with
    nodes := by
      intro node
      have before := sound.nodes node
      rw [System.places, ← held] at before
      exact before
    standing := by
      intro serial
      have before := sound.standing serial
      rw [System.standing, ← tasks] at before
      exact before
    content := by
      intro node active
      apply sound.content node
      rw [System.active, ← held]
      exact active
    threadCount := by
      have before := sound.threadCount
      change threadCount = (tally Worker.alive (system.workers.set thread new) : Int)
      omega
    threads := most
    idle := by
      have before := sound.idle
      change threadCountIdle +
        (tally Worker.executing (system.workers.set thread new) : Int) = threadCount
      omega }

theorem Sound.wake (sound : Sound max system) (here : system.workers[thread]? = some .waiting) :
    Sound max (system.placeWorker thread .locking) := by
  refine sound.rests here ?_ ?_ rfl rfl sound.threads
  · exact fun _ => nofun
  · exact fun _ => nofun

theorem Sound.serve (sound : Sound max system) (int : max < 2 ^ 31)
    (here : system.workers[thread]? = some .locking) : Sound max (serve system thread) := by
  have idle := sound.idle
  have count := sound.threadCount
  have most := sound.threads
  unfold ThreadPools.serve
  cases tasks : system.pool.tasks with
  | cons task rest =>
    have alive := @tally_set _ Worker.alive _ _ _ here (.running task)
    have executing := @tally_set _ Worker.executing _ _ _ here (.running task)
    have fewer := tally_le executing_le_alive (system.workers.set thread (.running task))
    have length := sound.taskCount
    have few := sound.few
    rw [tasks, length_cons] at length few
    dsimp only [Worker.alive, Worker.executing] at alive executing
    have resting : int32 (system.pool.threadCountIdle - 1) = system.pool.threadCountIdle - 1 :=
      int32_eq (by omega) (by omega)
    have places (node : Nat) : rest.count node + tally (Worker.holds node)
        (system.workers.set thread (.running task)) = system.active node := by
      have moved := @tally_set _ (Worker.holds node) _ _ _ here (.running task)
      change _ + 0 = _ + [task].count node at moved
      unfold System.active
      rw [tasks, count_cons]
      rw [count_singleton] at moved
      omega
    exact {
      most := sound.most
      nodes := by
        intro node
        have before := sound.nodes node
        have moved := places node
        unfold System.places at before
        unfold System.active at moved
        change rest.count node + system.pool.recycleTasks.count node + tally (Worker.holds node)
          (system.workers.set thread (.running task)) ≤ 1
        omega
      standing := by
        intro serial
        have before := sound.standing serial
        have moved := @tally_set _ (Worker.runs system.number serial) _ _ _ here (.running task)
        change _ + 0 = _ + [system.number task].count serial at moved
        change (rest.map system.number).count serial + tally (Worker.runs system.number serial)
          (system.workers.set thread (.running task)) + (system.ran.map Prod.fst).count serial =
            if serial < system.pushed.length then 1 else 0
        rw [System.standing, tasks, map_cons, count_cons] at before
        rw [count_singleton] at moved
        omega
      content := by
        intro node active
        apply sound.content node
        rw [← places]
        exact active
      ran := sound.ran
      taskCount := by
        change int32 (system.pool.taskCount - 1) = rest.length
        rw [length, int32_eq (by omega) (by omega)]
        omega
      few := by
        change rest.length < 2 ^ 31
        omega
      threadCount := by
        change system.pool.threadCount =
          (tally Worker.alive (system.workers.set thread (.running task)) : Int)
        omega
      threads := most
      idle := by
        change int32 (system.pool.threadCountIdle - 1) +
          (tally Worker.executing (system.workers.set thread (.running task)) : Int) =
            system.pool.threadCount
        omega }
  | nil =>
    dsimp only
    split
    · have alive := @tally_set _ Worker.alive _ _ _ here .left
      have executing := @tally_set _ Worker.executing _ _ _ here .left
      have fewer := tally_le executing_le_alive (system.workers.set thread .left)
      dsimp only [Worker.alive, Worker.executing] at alive executing
      have resting : int32 (system.pool.threadCountIdle - 1) =
          system.pool.threadCountIdle - 1 := int32_eq (by omega) (by omega)
      have staying : int32 (system.pool.threadCount - 1) = system.pool.threadCount - 1 :=
        int32_eq (by omega) (by omega)
      rw [resting, staying]
      apply sound.rests here
      · exact fun _ => nofun
      · exact fun _ => nofun
      · dsimp only [Worker.alive]
        omega
      · dsimp only [Worker.alive]
        omega
      · omega
    · refine sound.rests here ?_ ?_ rfl rfl sound.threads
      · exact fun _ => nofun
      · exact fun _ => nofun

theorem Sound.recycle (sound : Sound max system) (int : max < 2 ^ 31)
    (here : system.workers[thread]? = some (.running node)) :
    Sound max (recycle system thread node) := by
  have idle := sound.idle
  have count := sound.threadCount
  have most := sound.threads
  have alive := @tally_set _ Worker.alive _ _ _ here .locking
  have executing := @tally_set _ Worker.executing _ _ _ here .locking
  have fewer := tally_le executing_le_alive system.workers
  dsimp only [Worker.alive, Worker.executing] at alive executing
  have resting : int32 (system.pool.threadCountIdle + 1) = system.pool.threadCountIdle + 1 :=
    int32_eq (by omega) (by omega)
  have held (task : Nat) : tally (Worker.holds task) (system.workers.set thread .locking) +
      [node].count task = tally (Worker.holds task) system.workers :=
    @tally_set _ (Worker.holds task) _ _ _ here .locking
  have runs (serial : Nat) : tally (Worker.runs system.number serial)
      (system.workers.set thread .locking) + [system.number node].count serial =
        tally (Worker.runs system.number serial) system.workers :=
    @tally_set _ (Worker.runs system.number serial) _ _ _ here .locking
  exact { sound with
    nodes := by
      intro task
      have before := sound.nodes task
      have moved := held task
      unfold System.places at before
      change system.pool.tasks.count task + (node :: system.pool.recycleTasks).count task +
        tally (Worker.holds task) (system.workers.set thread .locking) ≤ 1
      rw [count_cons]
      rw [count_singleton] at moved
      omega
    standing := by
      intro serial
      have before := sound.standing serial
      have moved := runs serial
      unfold System.standing at before
      change (system.pool.tasks.map system.number).count serial +
        tally (Worker.runs system.number serial) (system.workers.set thread .locking) +
          ((system.ran ++ [(system.number node, system.content node)]).map Prod.fst).count serial =
            if serial < system.pushed.length then 1 else 0
      rw [map_append, map_singleton, count_append]
      dsimp only
      omega
    content := by
      intro task active
      apply sound.content task
      have moved := held task
      change 0 < system.pool.tasks.count task +
        tally (Worker.holds task) (system.workers.set thread .locking) at active
      unfold System.active
      omega
    ran := by
      intro entry logged
      rcases mem_append.mp logged with earlier | last
      · exact sound.ran entry earlier
      · rw [mem_singleton.mp last]
        apply sound.content node
        have moved := held node
        rw [count_singleton_self] at moved
        unfold System.active
        omega
    threadCount := by
      change system.pool.threadCount =
        (tally Worker.alive (system.workers.set thread .locking) : Int)
      omega
    threads := most
    idle := by
      change int32 (system.pool.threadCountIdle + 1) +
        (tally Worker.executing (system.workers.set thread .locking) : Int) = system.pool.threadCount
      omega }

end CLibs.ThreadPools
