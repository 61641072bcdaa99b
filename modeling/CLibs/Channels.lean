import CLibs.FaultingPrograms
import CLibs.GuardedRuns
import CLibs.ThreadTallies

/-!
# The channel of `channel.c`

A ring of elements under a lock, with one semaphore for the free places and one
for the elements.  Threads run `channel_push`, `channel_pop`, their versions with
a timeout, and `channel_clear`; a step is a semaphore operation or a locked
section.  An element is copied as a whole, and the product of the capacity and
the size of an element fits an `int`, so that the allocation has a place for
every element.  The log of the locked sections is not part of the source.
-/

namespace CLibs.Channels

variable {Element : Type}

/-- A value of type `int`; sums wrap around. -/
def int32 (value : Int) : Int := Int.bmod value (2 ^ 32)

/-- The ring of a channel. -/
structure Channel (Element : Type) where
  capacity : Nat
  count : Int
  offset : Int
  slots : List Element

/-- `channel_create`; the memory of the elements is not written. -/
def channelCreate (capacity : Nat) (slots : List Element) : Channel Element :=
  ⟨capacity, 0, 0, slots⟩

/-! ## Locked sections -/

/-- A store to the place with the given number. -/
def storeAt (slots : List Element) (index : Int) (element : Element) :
    Except Fault (List Element) :=
  if 0 ≤ index ∧ index < slots.length then .ok (slots.set index.toNat element)
  else .error .outside

def loadAt (slots : List Element) (index : Int) : Except Fault Element :=
  if 0 ≤ index then
    match slots[index.toNat]? with
    | some element => .ok element
    | none => .error .outside
  else .error .outside

/-- The locked section of `channel_push`. -/
def pushLocked (channel : Channel Element) (element : Element) :
    Except Fault (Channel Element) := do
  check (channel.count < channel.capacity)
  let index := Int.tmod (int32 (channel.offset + channel.count)) channel.capacity
  let slots ← storeAt channel.slots index element
  .ok { channel with slots := slots, count := int32 (channel.count + 1) }

/-- The locked section of `channel_pop`. -/
def popLocked (channel : Channel Element) : Except Fault (Element × Channel Element) := do
  let element ← loadAt channel.slots channel.offset
  let count := int32 (channel.count - 1)
  let offset := Int.tmod (int32 (channel.offset + 1)) channel.capacity
  check (count ≥ 0)
  .ok (element, { channel with count := count, offset := offset })

def clearLocked (channel : Channel Element) : Channel Element :=
  { channel with count := 0, offset := 0 }

/-! ## Threads -/

/-- The calls that a thread can make; `timed` calls may give up waiting. -/
inductive Operation (Element : Type)
  | push (element : Element) (timed : Bool)
  | pop (timed : Bool)
  | clear

/-- Where a thread is: before the wait of a call, before its locked section or
before its post. -/
inductive Phase (Element : Type)
  | idle
  | waiting (operation : Operation Element)
  | taken (operation : Operation Element)
  | left (operation : Operation Element)

/-- What a locked section did. -/
inductive Record (Element : Type)
  | pushed (element : Element)
  | popped (element : Element)
  | cleared

/-- The channel with its two semaphores, where each thread is, and what has been done so far. -/
structure System (Element : Type) where
  channel : Channel Element
  writer : Nat
  reader : Nat
  threads : List (Phase Element)
  log : List (Record Element)

/-- A step of one thread: it begins a call, takes a permit or gives up waiting, goes through the
locked section, and gives a permit back. -/
inductive Action (Element : Type)
  | call (operation : Operation Element)
  | take
  | expire
  | enter
  | post

def System.place (system : System Element) (thread : Nat) (phase : Phase Element) :
    System Element :=
  { system with threads := system.threads.set thread phase }

def System.locked (system : System Element) (channel : Channel Element)
    (record : Record Element) : System Element :=
  { system with channel := channel, log := system.log ++ [record] }

/-- `channel_clear` waits for no semaphore. -/
def callPhase : Operation Element → Phase Element
  | .clear => .taken .clear
  | operation => .waiting operation

/-- `sema_wait` and `sema_timewait` that get a permit. -/
def takePermit (system : System Element) (thread : Nat) : Operation Element → Option (System Element)
  | .push element timed =>
    if 0 < system.writer then
      some ({ system with writer := system.writer - 1 }.place thread (.taken (.push element timed)))
    else none
  | .pop timed =>
    if 0 < system.reader then
      some ({ system with reader := system.reader - 1 }.place thread (.taken (.pop timed)))
    else none
  | .clear => none

/-- `sema_timewait` that times out: the call returns. -/
def expire (system : System Element) (thread : Nat) : Operation Element → Option (System Element)
  | .push _ true => some (system.place thread .idle)
  | .pop true => some (system.place thread .idle)
  | _ => none

def enter (system : System Element) (thread : Nat) :
    Operation Element → Except Fault (System Element)
  | .push element timed => do
      let channel ← pushLocked system.channel element
      .ok ((system.locked channel (.pushed element)).place thread (.left (.push element timed)))
  | .pop timed => do
      let popped ← popLocked system.channel
      .ok ((system.locked popped.2 (.popped popped.1)).place thread (.left (.pop timed)))
  | .clear =>
    .ok ((system.locked (clearLocked system.channel) .cleared).place thread .idle)

/-- `sema_post`, behind which the call returns. -/
def post (system : System Element) (thread : Nat) : Operation Element → System Element
  | .push _ _ => { system with reader := system.reader + 1 }.place thread .idle
  | .pop _ => { system with writer := system.writer + 1 }.place thread .idle
  | .clear => system.place thread .idle

def step (system : System Element) (thread : Nat) (action : Action Element) :
    Option (Except Fault (System Element)) :=
  match action, system.threads[thread]? with
  | .call operation, some .idle => some (.ok (system.place thread (callPhase operation)))
  | .take, some (.waiting operation) => (takePermit system thread operation).map .ok
  | .expire, some (.waiting operation) => (expire system thread operation).map .ok
  | .enter, some (.taken operation) => some (enter system thread operation)
  | .post, some (.left operation) => some (.ok (post system thread operation))
  | _, _ => none

/-- A step that does not fault. -/
def Steps (system : System Element) (event : Nat × Action Element) (next : System Element) : Prop :=
  step system event.1 event.2 = some (.ok next)

/-- A channel that was just made, and threads that have not called yet. -/
def created (capacity threads : Nat) (slots : List Element) : System Element :=
  ⟨channelCreate capacity slots, capacity, 0, List.replicate threads .idle, []⟩

/-- Any interleaving of calls, under a condition on its steps. -/
def Reaches (guard : System Element → Nat × Action Element → Prop) (first : System Element)
    (events : List (Nat × Action Element)) (last : System Element) : Prop :=
  Runs guard Steps first events last

/-! ## What the channel is for -/

/-- The elements left in a queue behind these calls. -/
inductive Replays : List (Record Element) → List Element → Prop
  | nil : Replays [] []
  | pushed {log : List (Record Element)} {items : List Element} (earlier : Replays log items)
      (element : Element) : Replays (log ++ [.pushed element]) (items ++ [element])
  | popped {log : List (Record Element)} {items : List Element} {element : Element}
      (earlier : Replays log (element :: items)) : Replays (log ++ [.popped element]) items
  | cleared {log : List (Record Element)} {items : List Element} (earlier : Replays log items) :
      Replays (log ++ [.cleared]) []

def Record.pushedElement : Record Element → Option Element
  | .pushed element => some element
  | _ => none

def Record.poppedElement : Record Element → Option Element
  | .popped element => some element
  | _ => none

theorem Replays.order {log : List (Record Element)} {items : List Element}
    (replays : Replays log items) (kept : Record.cleared ∉ log) :
    log.filterMap Record.pushedElement = log.filterMap Record.poppedElement ++ items := by
  induction replays with
  | nil => rfl
  | pushed earlier element ih =>
    have before := ih fun cleared => kept (List.mem_append_left _ cleared)
    rw [List.filterMap_append, List.filterMap_append, before]
    simp [Record.pushedElement, Record.poppedElement]
  | popped earlier ih =>
    have before := ih fun cleared => kept (List.mem_append_left _ cleared)
    rw [List.filterMap_append, List.filterMap_append, before]
    simp [Record.pushedElement, Record.poppedElement]
  | cleared earlier ih => exact absurd (List.mem_append_right _ List.mem_cons_self) kept

end CLibs.Channels
