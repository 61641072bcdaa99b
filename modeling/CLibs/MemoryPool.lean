import CLibs.GuardedRuns
import CLibs.RingCounters
import Mathlib.Data.Finset.Card

/-!
# The fixed-size memory pool

Model of `mpool/mpool.c` and `mpool/include/mpool.h`, built with `MPOOL_DBG`
as the header does.  The slots of the pool are numbered `0, …, max - 1`, so a
`mpool_item_t *` is a number.  The location lists of the debug build and the
bytes of the members are not modelled: nothing here reads them.

Calls are made one at a time, so every compare-and-swap that expects a value
read just before succeeds and the retry loops run once.
-/

namespace CLibs.MemoryPool

/-- Range of the `uint32_t` counters. -/
def word : Nat := 2 ^ 32

/-- Value of a 32-bit machine integer read as `int32_t`. -/
def int32 (value : Int) : Int := Int.bmod value (2 ^ 32)

/-- The fields of `mpool_item_t` that the pool reads: whether `ctx` names the
pool yet, and the reference counter. -/
structure MpoolItem where
  ctx : Bool
  ref : Int

/-- `mpool_ctx_t`, with the memory of the items. -/
structure MpoolCtx where
  max : Nat
  head : Nat
  tail : Nat
  queue : Nat → Nat
  items : Nat → MpoolItem

/-- The context `mpool_init` leaves for zeroed memory that has room for `max`
items. -/
def mpoolInit (max : Nat) : MpoolCtx where
  max := max
  head := 0
  tail := max
  queue := fun cell => cell
  items := fun _ => ⟨false, 0⟩

def mpoolEmpty (ctx : MpoolCtx) : Bool :=
  decide (ctx.max ≤ ringDistance word ctx.head ctx.tail)

def mpoolFull (ctx : MpoolCtx) : Bool :=
  decide (ctx.tail = ctx.head)

def mpoolCount (ctx : MpoolCtx) : Int :=
  int32 ((ctx.max : Int) + ctx.head - ctx.tail)

def mpoolEnqueue (ctx : MpoolCtx) (ptr : Nat) : MpoolCtx :=
  -- the debug build drops the item instead of overfilling the ring
  if mpoolEmpty ctx then ctx
  else
    { ctx with
      tail := (ctx.tail + 1) % word
      queue := Function.update ctx.queue (ctx.tail % ctx.max) ptr }

def mpoolDequeue (ctx : MpoolCtx) : Option Nat × MpoolCtx :=
  if mpoolFull ctx then (none, ctx)
  else
    (some (ctx.queue (ctx.head % ctx.max)), { ctx with head := (ctx.head + 1) % word })

def MpoolCtx.setItem (ctx : MpoolCtx) (ptr : Nat) (item : MpoolItem) : MpoolCtx :=
  { ctx with items := Function.update ctx.items ptr item }

def mpoolGet (ctx : MpoolCtx) : Option Nat × MpoolCtx :=
  match mpoolDequeue ctx with
  | (none, ctx) => (none, ctx)
  | (some ptr, ctx) =>
    if (ctx.items ptr).ref = 0 then (some ptr, ctx.setItem ptr ⟨true, 1⟩)
    -- "Un-expected package in queue": the dequeued item is dropped
    else (none, ctx)

def mpoolRefInc (ctx : MpoolCtx) (ptr : Nat) : MpoolCtx :=
  ctx.setItem ptr { ctx.items ptr with ref := int32 ((ctx.items ptr).ref + 1) }

/-- `none` stands for the null dereference of an item that never left the
pool: its `ctx` field is still zero. -/
def mpoolRefDec (ctx : MpoolCtx) (ptr : Nat) : Option MpoolCtx :=
  let item := { ctx.items ptr with ref := int32 ((ctx.items ptr).ref - 1) }
  if item.ref = 0 then
    if item.ctx then some (mpoolEnqueue (ctx.setItem ptr item) ptr) else none
  else some (ctx.setItem ptr item)

def mpoolPut (ctx : MpoolCtx) (ptr : Nat) : Option MpoolCtx :=
  mpoolRefDec ctx ptr

/-! ## Clients -/

/-- The pool together with the number of references the clients hold to each slot. -/
structure PoolState where
  ctx : MpoolCtx
  held : Nat → Nat

def startPool (max : Nat) : PoolState :=
  ⟨mpoolInit max, fun _ => 0⟩

/-- The calls of a user of the pool. -/
inductive PoolCall
  | get
  | put (ptr : Nat)
  | refInc (ptr : Nat)
  | refDec (ptr : Nat)

def PoolState.acquire (state : PoolState) (ctx : MpoolCtx) (ptr : Nat) : PoolState :=
  ⟨ctx, Function.update state.held ptr (state.held ptr + 1)⟩

def PoolState.release (state : PoolState) (ctx : MpoolCtx) (ptr : Nat) : PoolState :=
  ⟨ctx, Function.update state.held ptr (state.held ptr - 1)⟩

/-- One call; the result is the item `mpool_get` returns. -/
def poolCall (state : PoolState) : PoolCall → Option (Option Nat × PoolState)
  | .get =>
    match mpoolGet state.ctx with
    | (none, ctx) => some (none, { state with ctx := ctx })
    | (some ptr, ctx) => some (some ptr, state.acquire ctx ptr)
  | .put ptr => (mpoolPut state.ctx ptr).map fun ctx => (none, state.release ctx ptr)
  | .refInc ptr => some (none, state.acquire (mpoolRefInc state.ctx ptr) ptr)
  | .refDec ptr => (mpoolRefDec state.ctx ptr).map fun ctx => (none, state.release ctx ptr)

def PoolStep (state : PoolState) (call : PoolCall) (next : PoolState) : Prop :=
  ∃ result, poolCall state call = some (result, next)

/-- The caller gives back only what it holds. -/
def Matched (state : PoolState) : PoolCall → Prop
  | .get => True
  | .refInc ptr => ptr < state.ctx.max
  | .put ptr | .refDec ptr => ptr < state.ctx.max ∧ 0 < state.held ptr

instance (state : PoolState) : (call : PoolCall) → Decidable (Matched state call)
  | .get => inferInstanceAs (Decidable True)
  | .refInc ptr => inferInstanceAs (Decidable (ptr < state.ctx.max))
  | .put ptr | .refDec ptr =>
    inferInstanceAs (Decidable (ptr < state.ctx.max ∧ 0 < state.held ptr))

/-- An item is outstanding while its reference counter is positive. -/
def Outstanding (ctx : MpoolCtx) (ptr : Nat) : Prop :=
  0 < (ctx.items ptr).ref

instance (ctx : MpoolCtx) (ptr : Nat) : Decidable (Outstanding ctx ptr) :=
  inferInstanceAs (Decidable (0 < (ctx.items ptr).ref))

def outstandingSlots (ctx : MpoolCtx) : Finset Nat :=
  (Finset.range ctx.max).filter fun ptr => Outstanding ctx ptr

def liveCells (ctx : MpoolCtx) : List Nat :=
  ringWindow word ctx.max ctx.head (ringDistance word ctx.head ctx.tail)

def freeRing (ctx : MpoolCtx) : List Nat :=
  (liveCells ctx).map ctx.queue

/-- What the pool promises in a state: the free ring holds exactly the items
that are not outstanding, once each; the counter is the number of outstanding
items; and `mpool_get` fails exactly when every item is outstanding, and
otherwise hands out a slot of the pool that was not. -/
structure Accounting (ctx : MpoolCtx) : Prop where
  ring_nodup : (freeRing ctx).Nodup
  mem_ring : ∀ ptr, ptr ∈ freeRing ctx ↔ ptr < ctx.max ∧ ¬ Outstanding ctx ptr
  count_eq : mpoolCount ctx = (outstandingSlots ctx).card
  get_none : (mpoolGet ctx).1 = none ↔ ∀ ptr < ctx.max, Outstanding ctx ptr
  get_some : ∀ ptr, (mpoolGet ctx).1 = some ptr → ptr < ctx.max ∧ ¬ Outstanding ctx ptr

/-- The state condition under which a call keeps the accounts.  A get leaves
fewer than `2 ^ 31` items outstanding, an increment is made by a holder and
does not overflow the counter, and the last decrement finds the ring cell
that `tail` names not in use. -/
def Accountable (state : PoolState) : PoolCall → Prop
  | .get => (outstandingSlots state.ctx).card + 1 < 2 ^ 31
  | .refInc ptr => 0 < state.held ptr ∧ state.held ptr + 1 < 2 ^ 31
  | .put ptr | .refDec ptr =>
    state.held ptr = 1 → state.ctx.tail % state.ctx.max ∉ liveCells state.ctx

instance (state : PoolState) : (call : PoolCall) → Decidable (Accountable state call)
  | .get => inferInstanceAs (Decidable ((outstandingSlots state.ctx).card + 1 < 2 ^ 31))
  | .refInc ptr =>
    inferInstanceAs (Decidable (0 < state.held ptr ∧ state.held ptr + 1 < 2 ^ 31))
  | .put ptr | .refDec ptr =>
    inferInstanceAs (Decidable (state.held ptr = 1 →
      state.ctx.tail % state.ctx.max ∉ liveCells state.ctx))

end CLibs.MemoryPool
