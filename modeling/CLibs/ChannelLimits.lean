import CLibs.ChannelFifo

/-!
# Runs of a channel

Without `channel_clear` a channel is a bounded queue in every interleaving, as long
as the sum of two places of the ring is an `int`.  A clear of a channel that has
elements leaves their permits behind.
-/

namespace CLibs.Channels

variable {Element : Type} {size thread : Nat} {system next : System Element}
  {action : Action Element}

/-! ## Runs without a clear -/

/-- The channel is not cleared. -/
def NoClear (_ : System Element) (event : Nat × Action Element) : Prop :=
  ∀ operation, event.2 = .call operation → operation ≠ .clear

structure Plain (system : System Element) : Prop where
  threads : ∀ thread : Nat, system.threads[thread]? ≠ some (.taken .clear)
  log : Record.cleared ∉ system.log

structure Effect (system : System Element) (thread : Nat) (action : Action Element)
    (next : System Element) : Prop where
  threads : ∃ phase, next.threads = system.threads.set thread phase ∧
    (phase = .taken .clear → action = .call .clear)
  log : next.log = system.log ∨ ∃ record, next.log = system.log ++ [record] ∧
    (record = .cleared → system.threads[thread]? = some (.taken .clear))

theorem takePermit_effect {operation : Operation Element}
    (taken : takePermit system thread operation = some next) :
    Effect system thread action next := by
  cases operation with
  | push element timed =>
    by_cases available : 0 < system.writer
    · rw [takePermit, if_pos available] at taken
      rw [← Option.some.inj taken]
      exact ⟨⟨_, rfl, fun same => by cases same⟩, .inl rfl⟩
    · rw [takePermit, if_neg available] at taken
      cases taken
  | pop timed =>
    by_cases available : 0 < system.reader
    · rw [takePermit, if_pos available] at taken
      rw [← Option.some.inj taken]
      exact ⟨⟨_, rfl, fun same => by cases same⟩, .inl rfl⟩
    · rw [takePermit, if_neg available] at taken
      cases taken
  | clear => cases taken

theorem enter_effect {operation : Operation Element}
    (here : system.threads[thread]? = some (.taken operation))
    (entered : enter system thread operation = .ok next) :
    Effect system thread action next := by
  cases operation with
  | push element timed =>
    obtain ⟨channel, -, returned⟩ := ok_of_bind entered
    rw [← Except.ok.inj returned]
    exact ⟨⟨_, rfl, nofun⟩, .inr ⟨_, rfl, nofun⟩⟩
  | pop timed =>
    obtain ⟨popped, -, returned⟩ := ok_of_bind entered
    rw [← Except.ok.inj returned]
    exact ⟨⟨_, rfl, nofun⟩, .inr ⟨_, rfl, nofun⟩⟩
  | clear =>
    rw [← Except.ok.inj entered]
    exact ⟨⟨_, rfl, nofun⟩, .inr ⟨_, rfl, fun _ => here⟩⟩

theorem step_effect (stepped : step system thread action = some (.ok next)) :
    Effect system thread action next := by
  unfold step at stepped
  split at stepped
  · next operation here =>
      rw [← Except.ok.inj (Option.some.inj stepped)]
      refine ⟨⟨_, rfl, ?_⟩, .inl rfl⟩
      cases operation with
      | push element timed => exact nofun
      | pop timed => exact nofun
      | clear => exact fun _ => rfl
  · next operation here =>
      obtain ⟨other, taken, same⟩ := Option.map_eq_some_iff.mp stepped
      rw [← Except.ok.inj same]
      exact takePermit_effect taken
  · next operation here =>
      obtain ⟨other, expired, same⟩ := Option.map_eq_some_iff.mp stepped
      rw [← Except.ok.inj same, expire_eq expired]
      exact ⟨⟨_, rfl, nofun⟩, .inl rfl⟩
  · next operation here => exact enter_effect here (Option.some.inj stepped)
  · next operation here =>
      rw [← Except.ok.inj (Option.some.inj stepped)]
      cases operation with
      | push element timed => exact ⟨⟨_, rfl, nofun⟩, .inl rfl⟩
      | pop timed => exact ⟨⟨_, rfl, nofun⟩, .inl rfl⟩
      | clear => exact ⟨⟨_, rfl, nofun⟩, .inl rfl⟩
  · cases stepped

theorem Plain.step (plain : Plain system) (kept : NoClear system (thread, action))
    (stepped : Channels.step system thread action = some (.ok next)) : Plain next := by
  obtain ⟨⟨phase, threads, clears⟩, log⟩ := step_effect stepped
  constructor
  · intro other here
    rw [threads] at here
    by_cases same : thread = other
    · obtain ⟨inside, -⟩ := List.getElem?_eq_some_iff.mp here
      rw [List.length_set] at inside
      rw [same, List.getElem?_set_self inside] at here
      exact kept .clear (clears (Option.some.inj here)) rfl
    · rw [List.getElem?_set_ne same] at here
      exact plain.threads other here
  · rcases log with unchanged | ⟨record, grown, clearing⟩
    · rw [unchanged]
      exact plain.log
    · rw [grown]
      intro member
      rcases List.mem_append.mp member with earlier | last
      · exact plain.log earlier
      · exact plain.threads thread (clearing (List.mem_singleton.mp last).symm)

theorem Plain.clearsEmpty (plain : Plain system) (event : Nat × Action Element) :
    ClearsEmpty system event :=
  fun _ here => absurd here (plain.threads event.1)

theorem created_plain (threads : Nat) (slots : List Element) :
    Plain (created size threads slots) where
  threads thread here := by
    have member := List.mem_of_getElem? here
    cases List.eq_of_mem_replicate member
  log := List.not_mem_nil

/-- The channel is a queue of at most `size` elements: no assertion fails, the elements of the ring
are those that were pushed and not popped, a call that times out changes nothing, and every permit
is somewhere. -/
structure IsQueue (size : Nat) (system : System Element) : Prop where
  asserted : ∀ thread action fault, NoClear system (thread, action) →
    step system thread action ≠ some (.error fault)
  count : 0 ≤ system.channel.count ∧ system.channel.count ≤ size
  order : ∃ start items, Holds system.channel start items ∧
    system.log.filterMap Record.pushedElement =
      system.log.filterMap Record.poppedElement ++ items
  expired : ∀ thread next, step system thread .expire = some (.ok next) →
    next = system.place thread .idle
  permits : system.writer + system.reader + tally between system.threads = size

theorem Sound.isQueue (sound : Sound size system) (plain : Plain system) (int : size ≤ 2 ^ 30) :
    IsQueue size system where
  asserted thread action fault _ faulted := by
    obtain ⟨next, same, -⟩ := sound.step int (plain.clearsEmpty _) faulted
    cases same
  count := by
    obtain ⟨start, items, holds, -, -, places⟩ := sound.holds
    rw [holds.count]
    omega
  order := by
    obtain ⟨start, items, holds, replays, -, -⟩ := sound.holds
    exact ⟨start, items, holds, replays.order plain.log⟩
  expired thread next stepped := by
    unfold Channels.step at stepped
    split at stepped
    all_goals first | contradiction | skip
    · next operation here _ =>
        obtain ⟨other, expired, same⟩ := Option.map_eq_some_iff.mp stepped
        rw [← Except.ok.inj same]
        exact expire_eq expired
  permits := sound.permits

theorem reaches_isQueue {slots : List Element} (positive : 0 < size) (int : size ≤ 2 ^ 30)
    (allocated : slots.length = size) {threads : Nat} {events : List (Nat × Action Element)}
    {last : System Element} (run : Reaches NoClear (created size threads slots) events last) :
    IsQueue size last := by
  have kept : Sound size last ∧ Plain last := by
    apply @Runs.invariant _ _ _ _ (fun system => Sound size system ∧ Plain system) _ _ _ _ run
    · exact ⟨created_sound positive allocated threads, created_plain threads slots⟩
    · rintro system event next ⟨sound, plain⟩ guarded stepped
      obtain ⟨other, same, after⟩ := sound.step int (plain.clearsEmpty event) stepped
      rw [Except.ok.inj same]
      exact ⟨after, by rw [← Except.ok.inj same]; exact plain.step guarded stepped⟩
  exact kept.1.isQueue kept.2 int

end CLibs.Channels

/-!
## How far a channel goes

A single thread that pushes and pops moves the elements around a ring of more than
`2 ^ 30` places until the place behind the last element is no `int` any more; the
push there leaves the ring.  A clear of a channel with elements makes the next pop
fail.
-/

namespace CLibs.Channels

variable {Element : Type} {size thread offset count number : Nat} {system next : System Element}
  {guard : System Element → Nat × Action Element → Prop}

/-! ## Single steps -/

theorem step_call (here : system.threads[thread]? = some .idle) (operation : Operation Element) :
    step system thread (.call operation) = some (.ok (system.place thread (callPhase operation))) := by
  unfold step
  rw [here]

variable {operation : Operation Element}

theorem step_take (here : system.threads[thread]? = some (.waiting operation))
    (taken : takePermit system thread operation = some next) :
    step system thread .take = some (.ok next) := by
  unfold step
  rw [here]
  exact congrArg (Option.map Except.ok) taken

theorem step_enter (here : system.threads[thread]? = some (.taken operation)) :
    step system thread .enter = some (enter system thread operation) := by
  unfold step
  rw [here]

theorem step_post (here : system.threads[thread]? = some (.left operation)) :
    step system thread .post = some (.ok (post system thread operation)) := by
  unfold step
  rw [here]

variable {channel : Channel Element}

theorem enter_push {element : Element} {timed : Bool}
    (pushed : pushLocked system.channel element = .ok channel) :
    enter system thread (.push element timed) = .ok
      ((system.locked channel (.pushed element)).place thread (.left (.push element timed))) := by
  rw [enter, pushed, ok_bind]

theorem enter_pop {element : Element} {timed : Bool}
    (popped : popLocked system.channel = .ok (element, channel)) :
    enter system thread (.pop timed) = .ok
      ((system.locked channel (.popped element)).place thread (.left (.pop timed))) := by
  rw [enter, popped, ok_bind]

theorem finishes (here : system.threads[thread]? = some (.taken operation))
    (entered : enter system thread operation = .ok next)
    (left : next.threads[thread]? = some (.left operation)) :
    Runs NoClear Steps system [(thread, .enter), (thread, .post)] (post next thread operation) := by
  have enters : Steps system (thread, .enter) next :=
    (step_enter here).trans (congrArg some entered)
  have posts : Steps next (thread, .post) (post next thread operation) := step_post left
  exact .cons (fun _ call => absurd call nofun) enters
    (.cons (fun _ call => absurd call nofun) posts (.nil _))

/-! ## One thread -/

/-- A single thread between two calls, with `count` elements from `offset` on. -/
structure Rests (size offset count : Nat) (system : System Element) : Prop where
  threads : system.threads = [.idle]
  writer : system.writer = size - count
  reader : system.reader = count
  capacity : system.channel.capacity = size
  holds : ∃ items, Holds system.channel offset items ∧ items.length = count

/-- The state of the thread before its locked section. -/
def taking (system : System Element) (operation : Operation Element) (writer reader : Nat) :
    System Element :=
  { system with writer := writer, reader := reader, threads := [.taken operation] }

theorem Rests.takes (rests : Rests size offset count system) {operation : Operation Element}
    (other : operation ≠ .clear) {next : System Element}
    (taken : takePermit (system.place 0 (.waiting operation)) 0 operation = some next) :
    Runs NoClear Steps system [(0, .call operation), (0, .take)] next := by
  have waits : (system.place 0 (.waiting operation)).threads[0]? = some (.waiting operation) := by
    unfold System.place
    rw [rests.threads]
    rfl
  have phase : callPhase operation = .waiting operation := by
    cases operation with
    | push element timed => rfl
    | pop timed => rfl
    | clear => exact absurd rfl other
  have called := step_call (by rw [rests.threads]; rfl : system.threads[0]? = some .idle) operation
  rw [phase] at called
  exact .cons (by rintro _ ⟨⟩; exact other) called (.cons nofun (step_take waits taken) (.nil _))

theorem Rests.takes_push (rests : Rests size offset count system) (room : count < size)
    (element : Element) :
    Runs NoClear Steps system [(0, .call (.push element false)), (0, .take)]
      (taking system (.push element false) (system.writer - 1) system.reader) := by
  have available : 0 < system.writer := by
    rw [rests.writer]
    omega
  refine rests.takes (by nofun) ((if_pos available).trans (congrArg some ?_))
  unfold System.place taking
  rw [rests.threads]
  rfl

theorem Rests.takes_pop (rests : Rests size offset count system) (filled : 0 < count) :
    Runs NoClear Steps system [(0, .call (.pop false)), (0, .take)]
      (taking system (.pop false) system.writer (system.reader - 1)) := by
  have available : 0 < system.reader := by
    rw [rests.reader]
    exact filled
  refine rests.takes (by nofun) ((if_pos available).trans (congrArg some ?_))
  unfold System.place taking
  rw [rests.threads]
  rfl

theorem Rests.pushes (rests : Rests size offset count system) (room : count < size)
    (int : size < 2 ^ 31) (small : offset + count < 2 ^ 31) (element : Element) :
    ∃ events next, Reaches NoClear system events next ∧ Rests size offset (count + 1) next := by
  obtain ⟨items, holds, length⟩ := rests.holds
  have capacity := rests.capacity
  have fits : items.length < system.channel.capacity := by omega
  have entered := @enter_push _ 0
    (taking system (.push element false) (system.writer - 1) system.reader) _ element false
    (pushLocked_eq holds fits (by omega) (by omega) element)
  refine ⟨_, _, (rests.takes_push room element).append (finishes rfl entered rfl), ?_⟩
  exact
    { threads := rfl
      writer := by
        change system.writer - 1 = size - (count + 1)
        rw [rests.writer]
        omega
      reader := congrArg (· + 1) rests.reader
      capacity := capacity
      holds := ⟨items ++ [element], pushLocked_holds holds fits element, by
        rw [List.length_append, length]
        rfl⟩ }

theorem Rests.pops (rests : Rests size offset (count + 1) system) (room : count < size)
    (int : size < 2 ^ 31) :
    ∃ events next, Reaches NoClear system events next ∧
      Rests size ((offset + 1) % size) count next := by
  obtain ⟨items, holds, length⟩ := rests.holds
  have capacity := rests.capacity
  cases items with
  | nil => cases length
  | cons item items =>
    rw [List.length_cons, Nat.succ.injEq] at length
    have popped := popLocked_eq holds (by omega) (by omega)
    have entered := @enter_pop _ 0
      (taking system (.pop false) system.writer (system.reader - 1)) _ item false popped
    refine ⟨_, _, (rests.takes_pop (Nat.succ_pos count)).append (finishes rfl entered rfl), ?_⟩
    exact
      { threads := rfl
        writer := by
          change system.writer + 1 = size - count
          rw [rests.writer]
          omega
        reader := by
          change system.reader - 1 = count
          rw [rests.reader]
          rfl
        capacity := capacity
        holds := by
          rw [← capacity]
          exact ⟨items, popLocked_holds holds, length⟩ }

theorem Rests.pushes_many (rests : Rests size offset count system) (room : count + number ≤ size)
    (int : size < 2 ^ 31) (small : offset + count + number ≤ 2 ^ 31) (element : Element) :
    ∃ events next, Reaches NoClear system events next ∧
      Rests size offset (count + number) next := by
  induction number with
  | zero => exact ⟨[], system, .nil _, rests⟩
  | succ number ih =>
    obtain ⟨events, middle, run, after⟩ := ih (by omega) (by omega)
    obtain ⟨more, next, last, ends⟩ := after.pushes (by omega) int (by omega) element
    exact ⟨events ++ more, next, run.append last, ends⟩

theorem Rests.pops_many (rests : Rests size offset (count + number) system)
    (room : count + number ≤ size) (int : size < 2 ^ 31) (straight : offset + number < size) :
    ∃ events next, Reaches NoClear system events next ∧
      Rests size (offset + number) count next := by
  induction number generalizing offset system with
  | zero => exact ⟨[], system, .nil _, rests⟩
  | succ number ih =>
    have filled : Rests size offset (count + number + 1) system := rests
    obtain ⟨events, middle, run, after⟩ := filled.pops (by omega) int
    rw [Nat.mod_eq_of_lt (by omega)] at after
    obtain ⟨more, next, last, ends⟩ := ih after (by omega) (by omega)
    rw [Nat.add_assoc, Nat.add_comm 1] at ends
    exact ⟨events ++ more, next, run.append last, ends⟩

variable {slots : List Element}

theorem created_rests (positive : 0 < size)
    (allocated : slots.length = size) : Rests size 0 0 (created size 1 slots) where
  threads := rfl
  writer := rfl
  reader := rfl
  capacity := rfl
  holds := ⟨[], ⟨positive, allocated, rfl, rfl, fun index item here => absurd here (by simp)⟩, rfl⟩

/-! ## A ring that is too large -/

theorem pushLocked_outside {items : List Element}
    (holds : Holds channel offset items) (room : items.length < channel.capacity)
    (int : channel.capacity < 2 ^ 31) (large : 2 ^ 30 < channel.capacity)
    (wraps : offset + items.length = 2 ^ 31) (element : Element) :
    pushLocked channel element = .error .outside := by
  have index : Int.tmod (int32 (channel.offset + channel.count)) channel.capacity < 0 := by
    have sum : channel.offset + channel.count = 2 ^ 31 := by
      rw [holds.offset, holds.count]
      omega
    have wrapped : int32 (2 ^ 31) = -2 ^ 31 := by decide
    rw [sum, wrapped, Int.neg_tmod, Int.tmod_eq_emod_of_nonneg (by decide)]
    have once : (2 ^ 31 : Int) % channel.capacity = 2 ^ 31 - channel.capacity := by
      rw [← Int.sub_emod_right, Int.emod_eq_of_lt (by omega) (by omega)]
    rw [once]
    omega
  unfold pushLocked
  rw [check_eq (by rw [holds.count]; exact Int.ofNat_lt.mpr room), ok_bind]
  have missing : ∀ slots : List Element, storeAt slots
      (Int.tmod (int32 (channel.offset + channel.count)) channel.capacity) element =
        .error .outside :=
    fun slots => if_neg fun inside => absurd inside.1 (by omega)
  dsimp only
  rw [missing]
  rfl

theorem large_leaves (element : Element) (large : 2 ^ 30 < size)
    (int : size < 2 ^ 31) (allocated : slots.length = size) :
    ∃ events last, Reaches NoClear (created size 1 slots) events last ∧
      step last 0 .enter = some (.error .outside) := by
  have start := created_rests (by omega) allocated
  obtain ⟨first, filled, firstRun, full⟩ :=
    @Rests.pushes_many _ _ _ _ (2 ^ 30) _ start (by omega) int (by omega) element
  obtain ⟨second, emptied, secondRun, empty⟩ :=
    @Rests.pops_many _ _ _ 0 (2 ^ 30) _ full (by omega) int (by omega)
  obtain ⟨third, refilled, thirdRun, again⟩ :=
    @Rests.pushes_many _ _ _ _ (2 ^ 30) _ empty (by omega) int (by omega) element
  obtain ⟨items, holds, length⟩ := again.holds
  have capacity := again.capacity
  have lost := pushLocked_outside holds (by omega) (by omega) (by omega) (by omega) element
  refine ⟨_, _, ((firstRun.append secondRun).append thirdRun).append
    (again.takes_push (by omega) element), ?_⟩
  rw [step_enter rfl]
  change some (pushLocked refilled.channel element >>= _) = _
  rw [lost]
  rfl

/-- Every interleaving keeps the channel a queue exactly if the sum of two places is an `int`. -/
theorem channel_isQueue_iff (positive : 0 < size) (int : size < 2 ^ 31)
    (allocated : slots.length = size) :
    (∀ threads events last, Reaches NoClear (created size threads slots) events last →
      IsQueue size last) ↔ size ≤ 2 ^ 30 := by
  constructor
  · intro queue
    by_contra large
    obtain ⟨element, -⟩ := List.exists_mem_of_length_pos (by omega : 0 < slots.length)
    obtain ⟨events, last, run, faulted⟩ := large_leaves element (by omega) int allocated
    exact (queue 1 events last run).asserted 0 .enter .outside (fun _ call => absurd call nofun)
      faulted
  · intro small threads events last run
    exact reaches_isQueue positive small allocated run

/-- Two threads and two elements. -/
theorem small_channel_isQueue_iff :
    (∀ threads events last, Reaches NoClear (created 2 threads [false, false]) events last →
      IsQueue 2 last) ↔ 2 ≤ 2 ^ 30 :=
  channel_isQueue_iff (by decide) (by decide) rfl

/-- Threads that push leave the ring behind `2 ^ 30` elements. -/
theorem large_channel_not_isQueue : ∃ events last,
    Reaches NoClear (created (2 ^ 30 + 1) 1 (List.replicate (2 ^ 30 + 1) false)) events last ∧
      ¬IsQueue (2 ^ 30 + 1) last := by
  obtain ⟨events, last, run, faulted⟩ := large_leaves false (Nat.lt_succ_self (2 ^ 30)) (by decide)
    List.length_replicate
  exact ⟨events, last, run, fun queue =>
    queue.asserted 0 .enter .outside (fun _ call => absurd call nofun) faulted⟩

/-! ## Clears -/

/-- The channel can be used: no assertion fails, the ring is not overfull, a pop gave what was
pushed first since the last clear, and between the calls the permits tell the number of elements. -/
structure Usable (system : System Element) : Prop where
  asserted : ∀ thread action fault, step system thread action ≠ some (.error fault)
  count : 0 ≤ system.channel.count ∧ system.channel.count ≤ system.channel.capacity
  fresh : ∃ items, Replays system.log items
  permits : (∀ phase ∈ system.threads, phase = .idle) →
    (system.reader : Int) = system.channel.count ∧
      (system.writer : Int) = system.channel.capacity - system.channel.count

theorem Sound.asserted (sound : Sound size system) (int : size ≤ 2 ^ 30) (thread : Nat)
    (action : Action Element) (fault : Fault) :
    Channels.step system thread action ≠ some (.error fault) := by
  intro faulted
  by_cases clears : action = .enter ∧ system.threads[thread]? = some (.taken .clear)
  · rw [clears.1, step_enter clears.2] at faulted
    cases faulted
  · obtain ⟨next, same, -⟩ := sound.step int
      (fun enters here => absurd ⟨enters, here⟩ clears) faulted
    cases same

theorem Sound.usable (sound : Sound size system) (int : size ≤ 2 ^ 30) : Usable system where
  asserted := sound.asserted int
  count := by
    obtain ⟨start, items, holds, -, -, places⟩ := sound.holds
    have capacity := sound.capacity
    rw [holds.count]
    omega
  fresh := by
    obtain ⟨start, items, -, replays, -, -⟩ := sound.holds
    exact ⟨items, replays⟩
  permits idle := by
    obtain ⟨start, items, holds, -, elements, places⟩ := sound.holds
    have capacity := sound.capacity
    have noElement := @tally_eq_zero _ holdsElement system.threads fun phase member => by
      rw [idle phase member]
      rfl
    have noPlace := @tally_eq_zero _ holdsPlace system.threads fun phase member => by
      rw [idle phase member]
      rfl
    rw [holds.count]
    omega

/-- In every interleaving whose clears find no elements the channel stays usable. -/
theorem clears_keep_usable (positive : 0 < size) (int : size ≤ 2 ^ 30)
    (allocated : slots.length = size) {threads : Nat} {events : List (Nat × Action Element)}
    {last : System Element} (run : Reaches ClearsEmpty (created size threads slots) events last) :
    Usable last :=
  (Reaches.sound (fun _ _ empty => empty) int run (created_sound positive allocated threads)).usable
    int

/-- A push, a pop and a clear of the channel that is empty again; then another push and pop. -/
theorem empty_clear_keeps_usable : ∃ last,
    Reaches ClearsEmpty (created 1 1 [false]) [(0, .call (.push true false)), (0, .take), (0, .enter),
      (0, .post), (0, .call (.pop false)), (0, .take), (0, .enter), (0, .post), (0, .call .clear),
      (0, .enter), (0, .call (.push true false)), (0, .take), (0, .enter), (0, .post),
      (0, .call (.pop false)), (0, .take), (0, .enter), (0, .post)] last ∧ Usable last := by
  have run : Reaches ClearsEmpty (created 1 1 [false]) [(0, .call (.push true false)), (0, .take),
      (0, .enter), (0, .post), (0, .call (.pop false)), (0, .take), (0, .enter), (0, .post),
      (0, .call .clear), (0, .enter), (0, .call (.push true false)), (0, .take), (0, .enter),
      (0, .post), (0, .call (.pop false)), (0, .take), (0, .enter), (0, .post)] _ :=
    .cons nofun rfl (.cons nofun rfl (.cons nofun rfl (.cons nofun rfl (.cons nofun rfl
      (.cons nofun rfl (.cons nofun rfl (.cons nofun rfl (.cons nofun rfl
      (.cons (fun _ _ => rfl) rfl (.cons nofun rfl (.cons nofun rfl (.cons nofun rfl
      (.cons nofun rfl (.cons nofun rfl (.cons nofun rfl (.cons nofun rfl (.cons nofun rfl
      (.nil _))))))))))))))))))
  exact ⟨_, run, @clears_keep_usable Bool 1 [false] (by decide) (by decide) rfl 1 _ _ run⟩

/-- The element is cleared, but its permit is not. -/
theorem clear_breaks_pop : ∃ last,
    Reaches (fun _ _ => True) (created 1 1 [false])
      [(0, .call (.push true false)), (0, .take), (0, .enter), (0, .post), (0, .call .clear),
        (0, .enter), (0, .call (.pop false)), (0, .take)] last ∧ ¬Usable last := by
  refine ⟨_, .cons trivial rfl (.cons trivial rfl (.cons trivial rfl (.cons trivial rfl
    (.cons trivial rfl (.cons trivial rfl (.cons trivial rfl (.cons trivial rfl (.nil _)))))))), ?_⟩
  intro usable
  exact usable.asserted 0 .enter .assertion rfl

end CLibs.Channels
