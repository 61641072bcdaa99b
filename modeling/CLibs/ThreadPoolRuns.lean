import CLibs.ThreadPoolSteps

/-!
# Runs of the thread pool

In every run each push is executed at most once, and the counters are right, as long as
no push finds 2 ^ 31 - 1 tasks on the list.
-/

namespace CLibs.ThreadPools

open Channels (int32)

variable {Task : Type} {system next : System Task} {max : Int} {action : Action Task}

/-! ## Runs -/

/-- A push finds room in `task_count`. -/
def Few (system : System Task) : Action Task → Prop
  | .push _ _ _ => system.pool.tasks.length < 2 ^ 31 - 1
  | _ => True

instance (system : System Task) (action : Action Task) : Decidable (Few system action) :=
  match action with
  | .push _ _ _ => inferInstanceAs (Decidable (system.pool.tasks.length < 2 ^ 31 - 1))
  | .enter _ => .isTrue trivial
  | .wake _ => .isTrue trivial
  | .finish _ => .isTrue trivial

theorem Sound.step (sound : Sound max system) (int : max < 2 ^ 31) (few : Few system action)
    (stepped : step system action = some next) : Sound max next := by
  cases action with
  | push task malloc starts =>
    simp only [ThreadPools.step] at stepped
    split at stepped
    · next gives =>
        rw [← Option.some.inj stepped]
        exact sound.push int task gives starts few
    · cases stepped
  | enter thread =>
    simp only [ThreadPools.step] at stepped
    split at stepped
    · next here =>
        rw [← Option.some.inj stepped]
        exact sound.serve int here
    · cases stepped
  | wake thread =>
    simp only [ThreadPools.step] at stepped
    split at stepped
    · next here =>
        rw [← Option.some.inj stepped]
        exact sound.wake here
    · cases stepped
  | finish thread =>
    simp only [ThreadPools.step] at stepped
    split at stepped
    · next task here =>
        rw [← Option.some.inj stepped]
        obtain ⟨inside, -⟩ := List.getElem?_eq_some_iff.mp here
        exact (sound.recycle int here).serve int (List.getElem?_set_self inside)
    · cases stepped

theorem threadPoolCreate_sound {num : Int} (le : num ≤ max) (nonneg : 0 ≤ max)
    (int : max < 2 ^ 31) (starts : List Bool) :
    Sound max (threadPoolCreate num max starts : System Task) := by
  apply Sound.createThreads _ int
  · change 0 + (num.toNat : Int) ≤ max
    omega
  · exact {
      most := rfl
      nodes := fun node => Nat.zero_le _
      standing := fun serial => rfl
      content := fun node active => absurd active (Nat.lt_irrefl _)
      ran := nofun
      taskCount := rfl
      few := Nat.two_pow_pos 31
      threadCount := rfl
      threads := nonneg
      idle := rfl }

/-- What the pool promises in a state: each push is on the list, with one thread or in the log, once
in all, with what was pushed; a node is in one place; and the counters are right. -/
structure Serves (max : Int) (system : System Task) : Prop where
  once : ∀ serial < system.pushed.length, system.standing serial = 1
  content : ∀ node, 0 < system.active node →
    system.content node = system.pushed[system.number node]?
  ran : ∀ entry ∈ system.ran, entry.2 = system.pushed[entry.1]?
  nodes : ∀ node, system.places node ≤ 1
  taskCount : system.pool.taskCount = system.pool.tasks.length
  threads : system.pool.threadCount ≤ max
  idle : system.pool.threadCountIdle =
    system.pool.threadCount - tally Worker.executing system.workers
  nonneg : 0 ≤ system.pool.threadCountIdle

theorem Sound.serves (sound : Sound max system) : Serves max system where
  once serial small := by rw [sound.standing, if_pos small]
  content := sound.content
  ran := sound.ran
  nodes := sound.nodes
  taskCount := sound.taskCount
  threads := sound.threads
  idle := eq_sub_of_add_eq sound.idle
  nonneg := by
    have idle := sound.idle
    have fewer := sound.executing_le
    omega

/-- A run whose pushes find room in the counter keeps the promise. -/
theorem threadPool_serves {num : Int} (le : num ≤ max) (nonneg : 0 ≤ max) (int : max < 2 ^ 31)
    {starts : List Bool} {actions : List (Action Task)} {last : System Task}
    (run : Runs Few Steps (threadPoolCreate num max starts) actions last) : Serves max last := by
  refine (run.invariant ?_ (threadPoolCreate_sound le nonneg int starts)).serves
  intro state action after sound few stepped
  exact sound.step int few stepped

/-- A thread waits, is woken up by a push, runs its task and waits again. -/
theorem threadPool_serves_one : ∃ last : System Nat,
    Runs Few Steps (threadPoolCreate 1 2 [true])
      [.enter 0, .push 7 (some 1) true, .wake 0, .enter 0, .finish 0] last ∧
      Serves 2 last ∧ last.ran = [(0, some 7)] := by
  have run : Runs Few Steps (threadPoolCreate 1 2 [true] : System Nat)
      [.enter 0, .push 7 (some 1) true, .wake 0, .enter 0, .finish 0] _ := Runs.of_foldlM rfl
  exact ⟨_, run, threadPool_serves (by decide) (by decide) (by decide) run, rfl⟩

/-! ## Too many tasks -/

structure Filled (count : Nat) (system : System Unit) : Prop where
  workers : system.workers = []
  recycled : system.pool.recycleTasks = []
  full : system.pool.threadCountMax ≤ system.pool.threadCount
  small : ∀ node ∈ system.pool.tasks, node < count
  length : system.pool.tasks.length = count
  taskCount : system.pool.taskCount = int32 count

theorem Filled.push {count : Nat} {system : System Unit} (filled : Filled count system) :
    ∃ next, Steps system (.push () (some count) false) next ∧ Filled (count + 1) next := by
  have absent : system.pool.tasks.count count = 0 := by
    rw [List.count_eq_zero]
    intro listed
    exact Nat.lt_irrefl _ (filled.small count listed)
  have gives : system.mallocGives (some count) := by
    rintro node ⟨⟩
    unfold System.places
    rw [absent, filled.recycled, filled.workers]
    rfl
  have pushed : threadPoolPush system () (some count) false =
      addTask system () count system.pool := by
    unfold threadPoolPush createTask
    rw [filled.recycled]
    dsimp only
    rw [if_neg]
    rintro ⟨-, room⟩
    exact Int.not_lt.mpr filled.full room
  refine ⟨_, if_pos gives, ?_⟩
  rw [pushed]
  exact {
    workers := filled.workers
    recycled := filled.recycled
    full := filled.full
    small := by
      intro node listed
      rcases List.mem_cons.mp listed with rfl | earlier
      · exact Nat.lt_succ_self _
      · exact Nat.lt_succ_of_lt (filled.small node earlier)
    length := by
      change (count :: system.pool.tasks).length = count + 1
      rw [List.length_cons, filled.length]
    taskCount := by
      change int32 (system.pool.taskCount + 1) = int32 ((count + 1 : Nat) : Int)
      rw [filled.taskCount, int32, int32, int32, Int.bmod_add_bmod]
      rfl }

theorem pushes_fill (count : Nat) : ∃ actions last,
    Runs (fun _ _ => True) Steps (threadPoolCreate 0 0 [] : System Unit) actions last ∧
      Filled count last := by
  induction count with
  | zero =>
    exact ⟨[], _, .nil _, ⟨rfl, rfl, le_rfl, nofun, rfl, rfl⟩⟩
  | succ count ih =>
    obtain ⟨actions, last, run, filled⟩ := ih
    obtain ⟨next, stepped, more⟩ := filled.push
    exact ⟨_, next, run.append (.cons trivial stepped (.nil _)), more⟩

/-- With 2 ^ 31 tasks on the list the counter is negative. -/
theorem threadPool_overflows :
    ¬∀ (num max : Int) (starts : List Bool) (actions : List (Action Unit)) last, num ≤ max →
      0 ≤ max → max < 2 ^ 31 →
      Runs (fun _ _ => True) Steps (threadPoolCreate num max starts) actions last →
      Serves max last := by
  intro promised
  obtain ⟨actions, last, run, filled⟩ := pushes_fill (2 ^ 31)
  have count := (promised 0 0 [] actions last le_rfl le_rfl (by decide) run).taskCount
  rw [filled.taskCount, filled.length] at count
  exact absurd count (by decide)

end CLibs.ThreadPools
