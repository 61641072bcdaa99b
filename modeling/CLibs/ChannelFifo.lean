import CLibs.Channels
import CLibs.RingCounters

/-!
# The channel is a bounded queue

Every permit of a semaphore stands for a place of the ring, also while a thread
holds it between its wait and its post.  The locked sections then find room for
what they push and an element to pop.
-/

namespace CLibs.Channels

open List

variable {Element : Type} {channel : Channel Element} {items : List Element} {start : Nat}

/-! ## Locked sections -/

/-- The elements stand in the ring from the place `start` on. -/
structure Holds (channel : Channel Element) (start : Nat) (items : List Element) : Prop where
  inside : start < channel.capacity
  slots : channel.slots.length = channel.capacity
  count : channel.count = items.length
  offset : channel.offset = start
  stored : ∀ (index : Nat) (item : Element), items[index]? = some item →
    channel.slots[(start + index) % channel.capacity]? = some item

theorem int32_eq {value : Int} (low : 0 ≤ value) (high : value < 2 ^ 31) : int32 value = value := by
  unfold int32
  apply Int.bmod_eq_of_le
  · omega
  · omega

theorem tmod_int32 {value capacity : Nat} (small : value < 2 ^ 31) :
    Int.tmod (int32 value) capacity = ((value % capacity : Nat) : Int) := by
  rw [int32_eq (Int.natCast_nonneg value) (by omega), Int.tmod_eq_emod_of_nonneg
    (Int.natCast_nonneg value), Int.natCast_emod]

variable {slots : List Element}

theorem storeAt_inside {index : Nat} (inside : index < slots.length)
    (element : Element) : storeAt slots index element = .ok (slots.set index element) :=
  if_pos ⟨Int.natCast_nonneg index, Int.ofNat_lt.mpr inside⟩

theorem loadAt_inside {index : Nat} {element : Element}
    (here : slots[index]? = some element) : loadAt slots index = .ok element := by
  unfold loadAt
  rw [if_pos (Int.natCast_nonneg index), Int.toNat_natCast, here]

theorem pushLocked_eq (holds : Holds channel start items) (room : items.length < channel.capacity)
    (int : channel.capacity < 2 ^ 31) (small : start + items.length < 2 ^ 31)
    (element : Element) :
    pushLocked channel element = .ok { channel with
      slots := channel.slots.set ((start + items.length) % channel.capacity) element
      count := (items.length : Int) + 1 } := by
  have positive := Nat.lt_of_le_of_lt (Nat.zero_le start) holds.inside
  have index : Int.tmod (int32 (channel.offset + channel.count)) channel.capacity =
      (((start + items.length) % channel.capacity : Nat) : Int) := by
    rw [holds.offset, holds.count, ← Int.natCast_add, tmod_int32 small]
  have inside : (start + items.length) % channel.capacity < channel.slots.length := by
    rw [holds.slots]
    exact Nat.mod_lt _ positive
  have count : int32 (channel.count + 1) = (items.length : Int) + 1 := by
    rw [holds.count, int32_eq (by omega) (by omega)]
  unfold pushLocked
  rw [check_eq (by rw [holds.count]; exact Int.ofNat_lt.mpr room), ok_bind]
  dsimp only
  rw [index, storeAt_inside inside, ok_bind, count]

theorem pushLocked_holds (holds : Holds channel start items)
    (room : items.length < channel.capacity) (element : Element) :
    Holds { channel with
      slots := channel.slots.set ((start + items.length) % channel.capacity) element
      count := (items.length : Int) + 1 } start (items ++ [element]) where
  inside := holds.inside
  slots := by rw [length_set, holds.slots]
  count := by
    rw [length_append]
    rfl
  offset := holds.offset
  stored index item here := by
    dsimp only
    by_cases last : index = items.length
    · rw [last, List.getElem?_append_right (Nat.le_refl _), Nat.sub_self] at here
      rw [last, List.getElem?_set_self, ← Option.some.inj here]
      rw [holds.slots]
      exact Nat.mod_lt _ (Nat.lt_of_le_of_lt (Nat.zero_le start) holds.inside)
    · obtain ⟨bound, -⟩ := List.getElem?_eq_some_iff.mp here
      rw [length_append, length_singleton] at bound
      have earlier : index < items.length := by omega
      rw [List.getElem?_append_left earlier] at here
      have differ := mod_ne_of_lt_of_sub_lt (Nat.add_lt_add_left earlier start)
        (by omega : start + items.length < start + index + channel.capacity)
      rw [List.getElem?_set_ne differ.symm]
      exact holds.stored index item here

theorem popLocked_eq {item : Element} (holds : Holds channel start (item :: items))
    (small : channel.capacity < 2 ^ 31) (full : items.length < channel.capacity) :
    popLocked channel = .ok (item, { channel with
      count := (items.length : Int)
      offset := ((start + 1) % channel.capacity : Nat) }) := by
  have inside := holds.inside
  have first := holds.stored 0 item rfl
  rw [Nat.add_zero, Nat.mod_eq_of_lt holds.inside] at first
  have count : int32 (channel.count - 1) = (items.length : Int) := by
    rw [holds.count, length_cons, int32_eq (by omega) (by omega)]
    omega
  have offset : Int.tmod (int32 (channel.offset + 1)) channel.capacity =
      (((start + 1) % channel.capacity : Nat) : Int) := by
    rw [holds.offset, show (start : Int) + 1 = ((start + 1 : Nat) : Int) from rfl,
      tmod_int32 (by omega)]
  unfold popLocked
  rw [holds.offset, loadAt_inside first, ok_bind]
  dsimp only
  rw [← holds.offset, count, offset, check_eq (Int.natCast_nonneg _), ok_bind]

theorem popLocked_holds {item : Element} (holds : Holds channel start (item :: items)) :
    Holds { channel with
      count := (items.length : Int)
      offset := ((start + 1) % channel.capacity : Nat) } ((start + 1) % channel.capacity) items where
  inside := Nat.mod_lt _ (Nat.lt_of_le_of_lt (Nat.zero_le start) holds.inside)
  slots := holds.slots
  count := rfl
  offset := rfl
  stored index other here := by
    have later := holds.stored (index + 1) other here
    dsimp only
    rw [Nat.mod_add_mod, Nat.add_assoc, Nat.add_comm 1]
    exact later

/-! ## Permits -/

/-- A thread that holds a permit of an element: it has popped nothing yet, or has not posted
what it pushed. -/
def holdsElement : Phase Element → Nat
  | .taken (.pop _) => 1
  | .left (.push _ _) => 1
  | _ => 0

def holdsPlace : Phase Element → Nat
  | .taken (.push _ _) => 1
  | .left (.pop _) => 1
  | _ => 0

/-- A thread between its wait and its post. -/
def between (phase : Phase Element) : Nat := holdsElement phase + holdsPlace phase

/-- The permits and the ring tell the same. -/
structure Sound (size : Nat) (system : System Element) : Prop where
  capacity : system.channel.capacity = size
  holds : ∃ start items, Holds system.channel start items ∧ Replays system.log items ∧
    items.length = system.reader + tally holdsElement system.threads ∧
    items.length + (system.writer + tally holdsPlace system.threads) = size

variable {size thread : Nat} {system next : System Element} {operation : Operation Element}
  {action : Action Element}

theorem Sound.moves (sound : Sound size system) {phase : Phase Element}
    (here : system.threads[thread]? = some phase) {writer reader : Nat} (later : Phase Element)
    (readers : reader + holdsElement later = system.reader + holdsElement phase)
    (writers : writer + holdsPlace later = system.writer + holdsPlace phase) :
    Sound size ({ system with writer := writer, reader := reader }.place thread later) where
  capacity := sound.capacity
  holds := by
    obtain ⟨start, items, holds, replays, elements, places⟩ := sound.holds
    have moved := @tally_set _ holdsElement _ _ _ here later
    have movedPlace := @tally_set _ holdsPlace _ _ _ here later
    refine ⟨start, items, holds, replays, ?_, ?_⟩
    · change items.length = reader + tally holdsElement (system.threads.set thread later)
      omega
    · change items.length + (writer + tally holdsPlace (system.threads.set thread later)) = size
      omega

theorem Sound.calls (sound : Sound size system) (here : system.threads[thread]? = some .idle)
    (operation : Operation Element) : Sound size (system.place thread (callPhase operation)) := by
  apply sound.moves here
  · cases operation <;> rfl
  · cases operation <;> rfl

theorem Sound.takes (sound : Sound size system)
    (here : system.threads[thread]? = some (.waiting operation))
    (taken : takePermit system thread operation = some next) : Sound size next := by
  cases operation with
  | push element timed =>
    by_cases available : 0 < system.writer
    · rw [takePermit, if_pos available] at taken
      rw [← Option.some.inj taken]
      exact sound.moves here _ rfl (Nat.sub_add_cancel available)
    · rw [takePermit, if_neg available] at taken
      cases taken
  | pop timed =>
    by_cases available : 0 < system.reader
    · rw [takePermit, if_pos available] at taken
      rw [← Option.some.inj taken]
      exact sound.moves here _ (Nat.sub_add_cancel available) rfl
    · rw [takePermit, if_neg available] at taken
      cases taken
  | clear => cases taken

theorem expire_eq (expired : expire system thread operation = some next) :
    next = system.place thread .idle := by
  unfold expire at expired
  split at expired
  · exact (Option.some.inj expired).symm
  · exact (Option.some.inj expired).symm
  · cases expired

theorem Sound.expires (sound : Sound size system)
    (here : system.threads[thread]? = some (.waiting operation))
    (expired : expire system thread operation = some next) : Sound size next := by
  rw [expire_eq expired]
  exact sound.moves here _ rfl rfl

theorem Sound.posts (sound : Sound size system)
    (here : system.threads[thread]? = some (.left operation)) :
    Sound size (post system thread operation) := by
  cases operation with
  | push element timed => exact sound.moves here _ rfl rfl
  | pop timed => exact sound.moves here _ rfl rfl
  | clear => exact sound.moves here _ rfl rfl

theorem Sound.pushes {element : Element} {timed : Bool} (sound : Sound size system)
    (int : size ≤ 2 ^ 30)
    (here : system.threads[thread]? = some (.taken (.push element timed))) :
    ∃ next, enter system thread (.push element timed) = .ok next ∧ Sound size next := by
  obtain ⟨start, items, holds, replays, elements, places⟩ := sound.holds
  have capacity := sound.capacity
  have inside := holds.inside
  have one := @le_tally _ holdsPlace _ _ _ here
  change 1 ≤ _ at one
  have room : items.length < system.channel.capacity := by omega
  have moved := @tally_set _ holdsElement _ _ _ here (.left (.push element timed))
  have movedPlace := @tally_set _ holdsPlace _ _ _ here (.left (.push element timed))
  change _ + 0 = _ + 1 at moved
  change _ + 1 = _ + 0 at movedPlace
  rw [enter, pushLocked_eq holds room (by omega) (by omega), ok_bind]
  refine ⟨_, rfl, capacity, start, items ++ [element], pushLocked_holds holds room element,
    replays.pushed element, ?_, ?_⟩
  · change (items ++ [element]).length = system.reader +
      tally holdsElement (system.threads.set thread (.left (.push element timed)))
    rw [length_append, length_singleton]
    omega
  · change (items ++ [element]).length + (system.writer +
      tally holdsPlace (system.threads.set thread (.left (.push element timed)))) = size
    rw [length_append, length_singleton]
    omega

theorem Sound.pops {timed : Bool} (sound : Sound size system) (int : size ≤ 2 ^ 30)
    (here : system.threads[thread]? = some (.taken (.pop timed))) :
    ∃ next, enter system thread (.pop timed) = .ok next ∧ Sound size next := by
  obtain ⟨start, items, holds, replays, elements, places⟩ := sound.holds
  have capacity := sound.capacity
  have one := @le_tally _ holdsElement _ _ _ here
  change 1 ≤ _ at one
  cases items with
  | nil =>
    rw [length_nil] at elements
    omega
  | cons item items =>
    rw [length_cons] at elements places
    have moved := @tally_set _ holdsElement _ _ _ here (.left (.pop timed))
    have movedPlace := @tally_set _ holdsPlace _ _ _ here (.left (.pop timed))
    change _ + 1 = _ + 0 at moved
    change _ + 0 = _ + 1 at movedPlace
    rw [enter, popLocked_eq holds (by omega) (by omega), ok_bind]
    refine ⟨_, rfl, capacity, _, items, popLocked_holds holds, replays.popped, ?_, ?_⟩
    · change items.length = system.reader +
        tally holdsElement (system.threads.set thread (.left (.pop timed)))
      omega
    · change items.length + (system.writer +
        tally holdsPlace (system.threads.set thread (.left (.pop timed)))) = size
      omega

theorem Sound.clears (sound : Sound size system) (empty : system.channel.count = 0)
    (here : system.threads[thread]? = some (.taken .clear)) :
    ∃ next, enter system thread .clear = .ok next ∧ Sound size next := by
  obtain ⟨start, items, holds, replays, elements, places⟩ := sound.holds
  have none : items = [] := by
    have count := holds.count
    rw [empty] at count
    exact length_eq_zero_iff.mp (Int.ofNat_eq_zero.mp count.symm)
  rw [none, length_nil] at elements places
  have moved := @tally_set _ holdsElement _ _ _ here .idle
  have movedPlace := @tally_set _ holdsPlace _ _ _ here .idle
  change _ + 0 = _ + 0 at moved
  change _ + 0 = _ + 0 at movedPlace
  refine ⟨_, rfl, sound.capacity, 0, [], ?_, replays.cleared, ?_, ?_⟩
  · exact ⟨Nat.lt_of_le_of_lt (Nat.zero_le start) holds.inside, holds.slots, rfl, rfl,
      fun index item here => absurd here (by simp)⟩
  · change 0 = system.reader + tally holdsElement (system.threads.set thread .idle)
    omega
  · change 0 + (system.writer + tally holdsPlace (system.threads.set thread .idle)) = size
    omega

/-! ## Steps -/

/-- `channel_clear` finds no elements. -/
def ClearsEmpty (system : System Element) (event : Nat × Action Element) : Prop :=
  event.2 = .enter → system.threads[event.1]? = some (.taken .clear) → system.channel.count = 0

theorem Sound.enters (sound : Sound size system) (int : size ≤ 2 ^ 30)
    (empty : operation = .clear → system.channel.count = 0)
    (here : system.threads[thread]? = some (.taken operation)) :
    ∃ next, enter system thread operation = .ok next ∧ Sound size next := by
  cases operation with
  | push element timed => exact sound.pushes int here
  | pop timed => exact sound.pops int here
  | clear => exact sound.clears (empty rfl) here

/-- Every step keeps the invariant. -/
theorem Sound.step (sound : Sound size system) (int : size ≤ 2 ^ 30)
    (empty : ClearsEmpty system (thread, action)) {result : Except Fault (System Element)}
    (stepped : Channels.step system thread action = some result) :
    ∃ next, result = .ok next ∧ Sound size next := by
  unfold Channels.step at stepped
  split at stepped
  · next operation here =>
      exact ⟨_, (Option.some.inj stepped).symm, sound.calls here operation⟩
  · next operation here =>
      obtain ⟨next, taken, rfl⟩ := Option.map_eq_some_iff.mp stepped
      exact ⟨next, rfl, sound.takes here taken⟩
  · next operation here =>
      obtain ⟨next, expired, rfl⟩ := Option.map_eq_some_iff.mp stepped
      exact ⟨next, rfl, sound.expires here expired⟩
  · next operation here =>
      obtain ⟨next, entered, after⟩ := sound.enters int
        (fun clears => empty rfl (here.trans (by rw [clears]))) here
      exact ⟨next, by rw [← Option.some.inj stepped, entered], after⟩
  · next operation here =>
      exact ⟨_, (Option.some.inj stepped).symm, sound.posts here⟩
  · cases stepped

theorem created_sound (positive : 0 < size) (allocated : slots.length = size)
    (threads : Nat) : Sound size (created size threads slots) where
  capacity := rfl
  holds := by
    have idle : ∀ phase ∈ List.replicate threads (Phase.idle : Phase Element),
        holdsElement phase = 0 ∧ holdsPlace phase = 0 := by
      intro phase member
      rw [eq_of_mem_replicate member]
      exact ⟨rfl, rfl⟩
    have elements := tally_eq_zero fun phase member => (idle phase member).1
    have places := tally_eq_zero fun phase member => (idle phase member).2
    refine ⟨0, [], ⟨positive, allocated, rfl, rfl, ?_⟩, .nil, ?_, ?_⟩
    · intro index item here
      exact absurd here (by simp)
    · change 0 = 0 + tally holdsElement (List.replicate threads Phase.idle)
      rw [elements]
    · change 0 + (size + tally holdsPlace (List.replicate threads Phase.idle)) = size
      rw [places]
      omega

theorem Reaches.sound {guard : System Element → Nat × Action Element → Prop}
    (guards : ∀ system event, guard system event → ClearsEmpty system event) (int : size ≤ 2 ^ 30)
    {first last : System Element} {events : List (Nat × Action Element)}
    (run : Reaches guard first events last) (sound : Sound size first) : Sound size last := by
  apply Runs.invariant _ run sound
  intro system event next before guarded stepped
  obtain ⟨other, same, after⟩ := before.step int (guards system event guarded) stepped
  rw [Except.ok.inj same]
  exact after

theorem Sound.permits (sound : Sound size system) :
    system.writer + system.reader + tally between system.threads = size := by
  obtain ⟨start, items, holds, replays, elements, places⟩ := sound.holds
  have parts := tally_add holdsElement holdsPlace system.threads
  unfold between
  omega

end CLibs.Channels
