import CLibs.FuelledLoops
import CLibs.GuardedRuns
import CLibs.IntrusiveListOperations
import Mathlib.Data.Finset.Card
import Mathlib.Tactic.Ring

/-!
# The timing wheel

Model of `time_wheel/twtimer.c` with its `TIME_RESOLUTION` of 0.  A `struct time_bucket` is a list
head; besides the buckets of the five levels there are two heads on the stack, the local `bucket` of
`twtimer_process` and the variable `next` of `twtimer_cascade`.

Callbacks run with the lock released, so `twtimer_process` is cut at its callbacks: it runs to the
next callback or to its end, and goes on when the callback returns.  Whatever is called in between,
by the callback or by another thread, is a call of its own.
-/

namespace CLibs.Twtimer

def tvrIndex (clock : Nat) : Fin 256 := Fin.ofNat 256 clock

def tvnIndex (clock : Nat) (level : Fin 4) : Fin 64 :=
  Fin.ofNat 64 (clock / 2 ^ (8 + level.val * 6))

/-- The heads of lists of timers: the buckets of `tv1` and of `tv2` to `tv5`,
which are the levels 0 to 3 here, and the two on the stack. -/
inductive Slot
  | tv1 (index : Fin 256)
  | tvn (level : Fin 4) (index : Fin 64)
  | bucket
  | next
deriving DecidableEq

inductive Fault
  | assertion
  | fuel
  | notRunning

/-- `struct time_wheel` with the fields of all timers.  The counter is an integer: no memory holds
`2 ^ 64` timers. -/
structure TimeWheel (Timer : Type) where
  count : Int
  clock : Nat
  links : Links Slot Timer
  expire : Timer → Nat
  ontimeout : Timer → Bool

section Code

variable {Timer : Type} [DecidableEq Timer]

/-- The bucket that `twtimer_add` chooses, unless the timeout is too long. -/
def slotFor (clock expire : Nat) : Option Slot :=
  let diff := (expire + 2 ^ 64 - clock) % 2 ^ 64
  if expire < clock then some (.tv1 (tvrIndex clock))
  else if diff < 2 ^ 8 then some (.tv1 (tvrIndex expire))
  else if diff < 2 ^ (8 + 6) then some (.tvn 0 (tvnIndex expire 0))
  else if diff < 2 ^ (8 + 2 * 6) then some (.tvn 1 (tvnIndex expire 1))
  else if diff < 2 ^ (8 + 3 * 6) then some (.tvn 2 (tvnIndex expire 2))
  else if diff < 2 ^ (8 + 4 * 6) then some (.tvn 3 (tvnIndex expire 3))
  else none

def twtimerAdd (tm : TimeWheel Timer) (timer : Timer) : Except Fault (TimeWheel Timer) :=
  if tm.ontimeout timer = false then .error .assertion
  else if (tm.links.pprev timer).isSome then .error .assertion
  else
    match slotFor tm.clock (tm.expire timer) with
    | none => .error .assertion
    | some slot =>
      .ok { tm with links := tm.links.push slot timer, count := tm.count + 1 }

def twtimerStart (tm : TimeWheel Timer) (timer : Timer) : Except Fault (TimeWheel Timer) :=
  if tm.ontimeout timer = false then .error .assertion else twtimerAdd tm timer

/-- The result is the return value with the wheel. -/
def twtimerStop (tm : TimeWheel Timer) (timer : Timer) : Int × TimeWheel Timer :=
  match tm.links.pprev timer with
  | some _ => (0, { tm with links := tm.links.unlink timer, count := tm.count - 1 })
  | none => (-1, { tm with links := tm.links.unlink timer })

def cascadeLoop : Nat → TimeWheel Timer → Except Fault (TimeWheel Timer)
  | 0, _ => .error .fuel
  | fuel + 1, tm =>
    match tm.links.first .next with
    | none => .ok tm
    | some timer =>
      let tm := { tm with links := tm.links.drop .next timer, count := tm.count - 1 }
      twtimerAdd tm timer >>= cascadeLoop fuel

def twtimerCascade (fuel : Nat) (tm : TimeWheel Timer) (level : Fin 4) (index : Fin 64) :
    Except Fault (Fin 64 × TimeWheel Timer) := do
  let tm ← cascadeLoop fuel { tm with links := tm.links.move (.tvn level index) .next }
  return (index, tm)

/-- The chain of `0 == twtimer_cascade(...)` conditions. -/
def cascadeLevels (fuel : Nat) : List (Fin 4) → TimeWheel Timer → Except Fault (TimeWheel Timer)
  | [], tm => .ok tm
  | level :: levels, tm =>
    twtimerCascade fuel tm level (tvnIndex tm.clock level) >>= fun (index, tm) =>
      if index = 0 then cascadeLevels fuel levels tm else .ok tm

/-- An iteration of the outer loop of `twtimer_process` up to the firing loop. -/
def processTick (fuel : Nat) (tm : TimeWheel Timer) : Except Fault (TimeWheel Timer) :=
  let index := tvrIndex tm.clock
  (if index = 0 then cascadeLevels fuel [0, 1, 2, 3] tm else .ok tm) >>= fun tm =>
    .ok { tm with links := tm.links.move (.tv1 index) .bucket
                  clock := (tm.clock + 1) % 2 ^ 64 }

/-- What a running `twtimer_process` keeps while a callback runs. -/
structure Running where
  clock : Nat
  tick : Nat
deriving DecidableEq

inductive Outcome (Timer : Type)
  | callback (timer : Timer) (running : Running)
  | returned (value : Int)

def processLoop : Nat → TimeWheel Timer → Running →
    Except Fault (Outcome Timer × TimeWheel Timer)
  | 0, _, _ => .error .fuel
  | fuel + 1, tm, running =>
    match tm.links.first .bucket with
    | some timer =>
      let tm := { tm with links := tm.links.pop .bucket timer, count := tm.count - 1 }
      if tm.ontimeout timer then .ok (.callback timer running, tm)
      else processLoop fuel tm running
    | none =>
      if tm.clock < running.clock then
        processTick fuel tm >>= fun next =>
          processLoop fuel next { running with tick := tm.clock }
      else
        .ok (.returned (Int.bmod ((tm.clock : Int) - running.clock) (2 ^ 32)), tm)

/-- No callback waits when `twtimer_process` is called, so its local bucket is
empty and the loop goes on to the test of the clocks. -/
def twtimerProcess (fuel : Nat) (tm : TimeWheel Timer) (clock : Nat) :
    Except Fault (Outcome Timer × TimeWheel Timer) :=
  processLoop fuel tm ⟨clock, tm.clock⟩

end Code

/-! ## Callers -/

/-- The wheel, the call of `twtimer_process` that waits for a callback, and the
callbacks made so far with the clock of their iteration. -/
structure System (Timer : Type) where
  tm : TimeWheel Timer
  running : Option Running
  fired : List (Timer × Nat)

/-- A wheel from `time_wheel_create` and zeroed timers. -/
def timeWheelCreate {Timer : Type} (clock : Nat) (ontimeout : Timer → Bool) : System Timer where
  tm :=
    { count := 0
      clock := clock
      links := ⟨fun _ => none, fun _ => none, fun _ => none⟩
      expire := fun _ => 0
      ontimeout := ontimeout }
  running := none
  fired := []

/-- `start` sets `expire` before `twtimer_start`; `resume` is the return of the
callback that is running. -/
inductive Call (Timer : Type)
  | start (timer : Timer) (expire : Nat)
  | stop (timer : Timer)
  | process (clock : Nat)
  | resume

section System

variable {Timer : Type} [DecidableEq Timer]

def System.after (system : System Timer) : Outcome Timer × TimeWheel Timer → Int × System Timer
  | (.callback timer running, tm) =>
    (0, ⟨tm, some running, system.fired ++ [(timer, running.tick)]⟩)
  | (.returned value, tm) => (value, ⟨tm, none, system.fired⟩)

/-- The clock up to which the call lets `twtimer_process` run. -/
def System.target (system : System Timer) : Call Timer → Option Nat
  | .process clock => some clock
  | .resume => system.running.map Running.clock
  | _ => none

def exec (fuel : Nat) (system : System Timer) : Call Timer → Except Fault (Int × System Timer)
  | .start timer expire =>
    let tm := { system.tm with expire := Function.update system.tm.expire timer expire }
    (twtimerStart tm timer).map fun tm => (0, { system with tm := tm })
  | .stop timer =>
    let (value, tm) := twtimerStop system.tm timer
    .ok (value, { system with tm := tm })
  | .process clock => (twtimerProcess fuel system.tm clock).map system.after
  | .resume =>
    match system.running with
    | none => .error .notRunning
    | some running => (processLoop fuel system.tm running).map system.after

def Step (system : System Timer) (call : Call Timer) (next : System Timer) : Prop :=
  ∃ value, Returns (fun fuel => exec fuel system call) (value, next)

/-- The arguments are 64-bit numbers, and `twtimer_process` is not called while
it runs. -/
def Allowed (system : System Timer) : Call Timer → Prop
  | .start _ expire => expire < 2 ^ 64
  | .stop _ => True
  | .process clock => clock < 2 ^ 64 ∧ system.running = none
  | .resume => system.running ≠ none

/-- Besides, no assertion of `twtimer_start` fails. -/
def Accepted (system : System Timer) : Call Timer → Prop
  | .start timer expire =>
    expire < 2 ^ 64 ∧ system.tm.ontimeout timer ∧ system.tm.links.pprev timer = none ∧
      expire < system.tm.clock + 2 ^ 32
  | call => Allowed system call

end System

end CLibs.Twtimer

/-!
## Where a timer waits

A timer is due at some tick.  `Waits` says in which bucket it can be found
before: in `tv1` when fewer than 256 ticks remain, and otherwise in a bucket of
a higher level that is cascaded before the timer is due.  During a tick the
levels below `done` have been cascaded already.
-/

namespace CLibs.Twtimer

/-- The number of ticks that share a bucket of a level. -/
def width (level : Fin 4) : Nat := 2 ^ (8 + level.val * 6)

/-- The tick at which the bucket of `due` is cascaded. -/
def base (level : Fin 4) (due : Nat) : Nat := due / width level * width level

def Waits (done clock tick expire due : Nat) : Slot → Prop
  | .tv1 index => clock ≤ due ∧ due < clock + 256 ∧ index = tvrIndex due
  | .tvn level index =>
    due = expire ∧ index = tvnIndex due level ∧ base level due < clock + 64 * width level ∧
      clock ≤ base level due ∧ (level.val < done → clock < base level due)
  | .bucket => due = tick
  | .next => due = expire ∧ clock ≤ due ∧ due < clock + 2 ^ 32

/-! ## Arithmetic of the buckets -/

theorem width_pos (level : Fin 4) : 0 < width level :=
  Nat.pos_of_ne_zero (by simp [width])

theorem width_le (level : Fin 4) : width level ≤ 2 ^ 32 :=
  Nat.pow_le_pow_right (by decide) (by omega)

theorem base_le (level : Fin 4) (due : Nat) : base level due ≤ due :=
  Nat.div_mul_le_self _ _

theorem lt_base_add_width (level : Fin 4) (due : Nat) : due < base level due + width level := by
  have split := Nat.div_add_mod' due (width level)
  have remainder := Nat.mod_lt due (width_pos level)
  rw [base]
  omega

theorem tvrIndex_eq_iff (first second : Nat) :
    tvrIndex first = tvrIndex second ↔ first % 256 = second % 256 := by
  simp [tvrIndex, Fin.ext_iff]

theorem tvnIndex_eq_iff (first second : Nat) (level : Fin 4) :
    tvnIndex first level = tvnIndex second level ↔
      first / width level % 64 = second / width level % 64 := by
  simp [tvnIndex, width, Fin.ext_iff]

variable {level : Fin 4} {clock : Nat}

theorem base_eq_iff {due : Nat} (aligned : clock % width level = 0)
    (from_clock : clock ≤ base level due) (before : base level due < clock + 64 * width level) :
    base level due = clock ↔ tvnIndex due level = tvnIndex clock level := by
  have clockEq : clock / width level * width level = clock := by
    have split := Nat.div_add_mod' clock (width level)
    omega
  rw [tvnIndex_eq_iff]
  rw [base] at *
  generalize due / width level = rounds at *
  generalize clock / width level = now at *
  rw [← clockEq] at from_clock before ⊢
  have lower : now ≤ rounds := Nat.le_of_mul_le_mul_right from_clock (width_pos level)
  have upper : rounds < now + 64 := by
    rw [← Nat.add_mul] at before
    exact Nat.lt_of_mul_lt_mul_right before
  rw [Nat.mul_left_inj (width_pos level).ne']
  omega

theorem base_ne (unaligned : clock % width level ≠ 0) (due : Nat) :
    base level due ≠ clock := by
  rintro rfl
  exact unaligned (by rw [base, Nat.mul_mod_left])

variable {upper : Fin 4}

theorem width_succ (successor : upper.val = level.val + 1) :
    width upper = width level * 64 := by
  rw [width, width, successor, show 8 + (level.val + 1) * 6 = 8 + level.val * 6 + 6 by ring,
    Nat.pow_add]

theorem aligned_of_width_le {lower : Fin 4} (le : lower ≤ upper)
    (aligned : clock % width upper = 0) : clock % width lower = 0 := by
  apply Nat.mod_eq_zero_of_dvd
  apply Nat.dvd_trans _ (Nat.dvd_of_mod_eq_zero aligned)
  apply Nat.pow_dvd_pow
  omega

theorem index_zero_of_aligned (lt : level < upper) (aligned : clock % width upper = 0) :
    tvnIndex clock level = 0 := by
  have next : width level * 64 ∣ width upper := by
    rw [show (64 : Nat) = 2 ^ 6 by rfl, width, width, ← Nat.pow_add]
    apply Nat.pow_dvd_pow
    omega
  obtain ⟨times, rfl⟩ := Nat.dvd_trans next (Nat.dvd_of_mod_eq_zero aligned)
  have rounds : width level * 64 * times / width level = 64 * times := by
    rw [Nat.mul_assoc, Nat.mul_div_cancel_left _ (width_pos level)]
  change Fin.ofNat 64 (width level * 64 * times / width level) = 0
  rw [rounds]
  simp [Fin.ext_iff]

theorem aligned_of_index_zero (successor : upper.val = level.val + 1)
    (aligned : clock % width level = 0) (zero : tvnIndex clock level = 0) :
    clock % width upper = 0 := by
  have rounds : clock / width level % 64 = 0 := by
    simpa [tvnIndex, Fin.ext_iff, width] using zero
  rw [width_succ successor, Nat.mod_mul, aligned, rounds]
  simp

theorem index_zero_of_level_aligned (aligned : clock % width level = 0) : tvrIndex clock = 0 := by
  have lowest : clock % width 0 = 0 := aligned_of_width_le (Fin.zero_le level) aligned
  have small : clock % 256 = 0 := lowest
  simpa [tvrIndex, Fin.ext_iff] using small

/-! ## The bucket that `twtimer_add` chooses -/

theorem slotFor_waits {expire : Nat} (near : expire < clock + 2 ^ 32) (done tick : Nat) :
    ∃ slot, slotFor clock expire = some slot ∧ slot ≠ .bucket ∧ slot ≠ .next ∧
      Waits done clock tick expire (max expire clock) slot := by
  by_cases late : expire < clock
  · refine ⟨.tv1 (tvrIndex clock), by simp [slotFor, late], by simp, by simp, ?_⟩
    rw [max_eq_right (by omega)]
    exact ⟨le_refl _, by omega, rfl⟩
  · have diff : (expire + 2 ^ 64 - clock) % 2 ^ 64 = expire - clock := by omega
    rw [max_eq_left (by omega)]
    have higher : ∀ level : Fin 4, width level ≤ expire - clock →
        expire - clock < 64 * width level →
        Waits done clock tick expire expire (.tvn level (tvnIndex expire level)) := by
      intro level atLeast below
      have upper := base_le level expire
      have lower := lt_base_add_width level expire
      exact ⟨rfl, rfl, by omega, by omega, fun _ => by omega⟩
    simp only [slotFor, diff, late, if_false]
    split
    · exact ⟨_, rfl, by simp, by simp, by omega, by omega, rfl⟩
    split
    · refine ⟨_, rfl, by simp, by simp, higher 0 ?_ ?_⟩
      · change 2 ^ 8 ≤ expire - clock
        omega
      · change expire - clock < 64 * 2 ^ 8
        omega
    split
    · refine ⟨_, rfl, by simp, by simp, higher 1 ?_ ?_⟩
      · change 2 ^ 14 ≤ expire - clock
        omega
      · change expire - clock < 64 * 2 ^ 14
        omega
    split
    · refine ⟨_, rfl, by simp, by simp, higher 2 ?_ ?_⟩
      · change 2 ^ 20 ≤ expire - clock
        omega
      · change expire - clock < 64 * 2 ^ 20
        omega
    split
    · refine ⟨_, rfl, by simp, by simp, higher 3 ?_ ?_⟩
      · change 2 ^ 26 ≤ expire - clock
        omega
      · change expire - clock < 64 * 2 ^ 26
        omega
    · omega

theorem near_of_slotFor {expire : Nat} {slot : Slot} (expireFits : expire < 2 ^ 64)
    (chosen : slotFor clock expire = some slot) : expire < clock + 2 ^ 32 := by
  by_contra far
  have late : ¬ expire < clock := by omega
  have diff : (expire + 2 ^ 64 - clock) % 2 ^ 64 = expire - clock := by omega
  simp only [slotFor, diff, late, if_false] at chosen
  repeat rw [if_neg (by omega)] at chosen
  cases chosen

/-! ## Placement of all timers -/

section Placement

variable {Timer : Type} [DecidableEq Timer]

structure Placement (done : Nat) (tm : TimeWheel Timer) (tick : Nat) (due : Timer → Nat)
    (lists : Slot → List Timer) (loose : Option Slot) (members : Finset Timer) : Prop where
  linked : tm.links.Linked lists loose members
  count : tm.count = members.card
  ontimeout : ∀ timer ∈ members, tm.ontimeout timer = true
  waits : ∀ slot, ∀ timer ∈ lists slot,
    Waits done tm.clock tick (tm.expire timer) (due timer) slot

variable {done tick : Nat} {tm : TimeWheel Timer} {due : Timer → Nat}
variable {lists : Slot → List Timer} {loose : Option Slot} {members : Finset Timer}

omit [DecidableEq Timer] in
theorem Placement.mem_members (placement : Placement done tm tick due lists loose members)
    {slot : Slot} {timer : Timer} (member : timer ∈ lists slot) : timer ∈ members :=
  (placement.linked.mem_members timer).mpr ⟨slot, member⟩

theorem Placement.add (placement : Placement done tm tick due lists loose members)
    {timer : Timer} (outside : timer ∉ members) (callback : tm.ontimeout timer = true)
    (near : tm.expire timer < tm.clock + 2 ^ 32) (dueTick : due timer = max (tm.expire timer) tm.clock)
    (onStack : loose = none ∨ loose = some .next) :
    ∃ slot, slot ≠ .bucket ∧ slot ≠ .next ∧
      twtimerAdd tm timer =
        .ok { tm with links := tm.links.push slot timer, count := tm.count + 1 } ∧
      Placement done { tm with links := tm.links.push slot timer, count := tm.count + 1 } tick due
        (Function.update lists slot (timer :: lists slot)) loose (insert timer members) := by
  obtain ⟨slot, chosen, notBucket, notNext, waits⟩ := slotFor_waits near done tick
  have idle : tm.links.pprev timer = none := (placement.linked.unlinked timer outside).1
  have tight : loose ≠ some slot := by
    rcases onStack with rfl | rfl
    · simp
    · simpa using notNext.symm
  refine ⟨slot, notBucket, notNext, ?_, placement.linked.push outside tight, ?_, ?_, ?_⟩
  · simp [twtimerAdd, callback, idle, chosen]
  · rw [Finset.card_insert_of_notMem outside, placement.count]
    push_cast
    rfl
  · intro other member
    rcases Finset.mem_insert.mp member with rfl | old
    · exact callback
    · exact placement.ontimeout other old
  · intro place other member
    by_cases same : place = slot
    · subst same
      rw [Function.update_self] at member
      rcases List.mem_cons.mp member with rfl | old
      · rw [dueTick]
        exact waits
      · exact placement.waits place other old
    · rw [Function.update_of_ne same] at member
      exact placement.waits place other member

end Placement

end CLibs.Twtimer
