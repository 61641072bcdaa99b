import CLibs.MemoryPool

/-!
# Accounts of the memory pool

The ring of free items is a queue: a get takes its first element, the last
decrement appends one, provided the cell at `tail` is not in use.  That
proviso is what fails when the 32-bit counters wrap and the capacity does not
divide `2 ^ 32`.  Every run that keeps it has exact accounts.
-/

namespace CLibs.MemoryPool

open List

theorem word_pos : 0 < word :=
  Nat.two_pow_pos 32

theorem int32_of_bounds {value : Int} (low : -2 ^ 31 ≤ value) (high : value < 2 ^ 31) :
    int32 value = value := by
  unfold int32
  rw [Int.bmod_eq_of_le] <;> omega

@[simp]
theorem setItem_items_self (ctx : MpoolCtx) (ptr : Nat) (item : MpoolItem) :
    (ctx.setItem ptr item).items ptr = item := by
  simp [MpoolCtx.setItem]

variable {ptr : Nat}

theorem setItem_items_of_ne (ctx : MpoolCtx) {other : Nat} (item : MpoolItem)
    (different : other ≠ ptr) : (ctx.setItem ptr item).items other = ctx.items other := by
  simp [MpoolCtx.setItem, Function.update_of_ne different]

@[simp]
theorem freeRing_setItem (ctx : MpoolCtx) (ptr : Nat) (item : MpoolItem) :
    freeRing (ctx.setItem ptr item) = freeRing ctx :=
  rfl

/-- The ranges of the machine integers of a context. -/
structure Fits (ctx : MpoolCtx) : Prop where
  max_pos : 0 < ctx.max
  max_lt : ctx.max < word
  head_lt : ctx.head < word
  tail_lt : ctx.tail < word
  live_le : ringDistance word ctx.head ctx.tail ≤ ctx.max

variable {ctx : MpoolCtx}

theorem Fits.setItem (fits : Fits ctx) (ptr : Nat) (item : MpoolItem) :
    Fits (ctx.setItem ptr item) :=
  ⟨fits.max_pos, fits.max_lt, fits.head_lt, fits.tail_lt, fits.live_le⟩

variable {max : Nat}

theorem fits_mpoolInit (positive : 0 < max) (bounded : max < word) :
    Fits (mpoolInit max) where
  max_pos := positive
  max_lt := bounded
  head_lt := word_pos
  tail_lt := bounded
  live_le := by
    simp [mpoolInit, ringDistance, Nat.mod_eq_of_lt bounded]

@[simp]
theorem freeRing_length (ctx : MpoolCtx) :
    (freeRing ctx).length = ringDistance word ctx.head ctx.tail := by
  simp [freeRing, liveCells]

theorem freeRing_mpoolInit (bounded : max < word) :
    freeRing (mpoolInit max) = List.range max := by
  have distance : ringDistance word 0 max = max := by
    simp [ringDistance, Nat.mod_eq_of_lt bounded]
  apply ext_getElem
  · simp [mpoolInit, distance]
  · intro cell inside _
    have cellLt : cell < max := by simpa [mpoolInit, distance] using inside
    have cellWord : cell < word := cellLt.trans bounded
    simp [freeRing, liveCells, mpoolInit, ringWindow, Nat.mod_eq_of_lt cellWord,
      Nat.mod_eq_of_lt cellLt]

/-! ## The free ring as a queue -/

theorem mpoolFull_iff (fits : Fits ctx) :
    mpoolFull ctx = true ↔ freeRing ctx = [] := by
  rw [mpoolFull, decide_eq_true_eq, ← length_eq_zero_iff, freeRing_length,
    ringDistance_eq_zero_iff fits.head_lt fits.tail_lt]

theorem freeRing_dequeue (fits : Fits ctx) {rest : List Nat} (ring : freeRing ctx = ptr :: rest) :
    mpoolDequeue ctx = (some ptr, { ctx with head := (ctx.head + 1) % word }) ∧
      freeRing { ctx with head := (ctx.head + 1) % word } = rest ∧
      Fits { ctx with head := (ctx.head + 1) % word } := by
  have notFull : ¬ mpoolFull ctx = true := by
    rw [mpoolFull_iff fits, ring]
    simp
  have distance : ringDistance word ctx.head ctx.tail = rest.length + 1 := by
    rw [← freeRing_length, ring, length_cons]
  have window : freeRing ctx =
      ctx.queue (ctx.head % ctx.max) ::
        (ringWindow word ctx.max (ctx.head + 1) rest.length).map ctx.queue := by
    rw [freeRing, liveCells, distance, ringWindow_eq_cons, map_cons,
      Nat.mod_eq_of_lt fits.head_lt]
  have shorter : ringDistance word ((ctx.head + 1) % word) ctx.tail = rest.length := by
    rw [ringDistance_head_succ fits.head_lt fits.tail_lt (by omega), distance,
      Nat.add_sub_cancel]
  rw [ring, List.cons.injEq] at window
  refine ⟨by simp [mpoolDequeue, notFull, window.1], ?_, ?_⟩
  · rw [window.2, freeRing, liveCells]
    simp only [shorter, ringWindow_mod]
  · have live := fits.live_le
    exact ⟨fits.max_pos, fits.max_lt, Nat.mod_lt _ word_pos, fits.tail_lt,
      by simp only [shorter]; omega⟩

theorem freeRing_enqueue (fits : Fits ctx) (ptr : Nat) (room : (freeRing ctx).length < ctx.max)
    (fresh : ctx.tail % ctx.max ∉ liveCells ctx) :
    freeRing (mpoolEnqueue ctx ptr) = freeRing ctx ++ [ptr] ∧
      Fits (mpoolEnqueue ctx ptr) := by
  rw [freeRing_length] at room
  have notEmpty : ¬ mpoolEmpty ctx = true := by
    rw [mpoolEmpty, decide_eq_true_eq]
    omega
  have maxLt := fits.max_lt
  have longer := ringDistance_tail_succ fits.head_lt fits.tail_lt (by omega)
  rw [mpoolEnqueue, if_neg notEmpty]
  constructor
  · have reached := add_ringDistance_mod fits.head_lt fits.tail_lt
    rw [freeRing, liveCells]
    simp only [longer, ringWindow_succ, reached, map_append, map_cons, map_nil,
      Function.update_self]
    congr 1
    apply map_congr_left
    intro cell member
    have different : cell ≠ ctx.tail % ctx.max := by
      rintro rfl
      exact fresh member
    exact Function.update_of_ne different _ _
  · exact ⟨fits.max_pos, fits.max_lt, fits.head_lt, Nat.mod_lt _ word_pos,
      by simp only [longer]; omega⟩

/-! ## The invariant of guarded runs -/

/-- The accounts in terms of the references the clients hold. -/
structure Balanced (state : PoolState) : Prop where
  fits : Fits state.ctx
  ref_eq : ∀ ptr < state.ctx.max, (state.ctx.items ptr).ref = state.held ptr
  held_lt : ∀ ptr < state.ctx.max, state.held ptr < 2 ^ 31
  held_ctx : ∀ ptr < state.ctx.max, 0 < state.held ptr → (state.ctx.items ptr).ctx = true
  ring_nodup : (freeRing state.ctx).Nodup
  mem_ring : ∀ ptr, ptr ∈ freeRing state.ctx ↔ ptr < state.ctx.max ∧ state.held ptr = 0
  out_lt : (outstandingSlots state.ctx).card < 2 ^ 31

variable {state : PoolState}

theorem Balanced.outstanding_iff (balanced : Balanced state) (inside : ptr < state.ctx.max) :
    Outstanding state.ctx ptr ↔ 0 < state.held ptr := by
  rw [Outstanding, balanced.ref_eq ptr inside]
  exact Int.natCast_pos

theorem Balanced.card_add_length (balanced : Balanced state) :
    (outstandingSlots state.ctx).card + (freeRing state.ctx).length = state.ctx.max := by
  have free : (freeRing state.ctx).toFinset =
      (Finset.range state.ctx.max).filter fun ptr => ¬ Outstanding state.ctx ptr := by
    ext ptr
    rw [mem_toFinset, balanced.mem_ring, Finset.mem_filter, Finset.mem_range]
    refine and_congr_right fun inside => ?_
    rw [balanced.outstanding_iff inside]
    omega
  have lengthEq := toFinset_card_of_nodup balanced.ring_nodup
  rw [← lengthEq, free, outstandingSlots,
    Finset.card_filter_add_card_filter_not, Finset.card_range]

theorem balanced_startPool (positive : 0 < max) (bounded : max < word) :
    Balanced (startPool max) where
  fits := fits_mpoolInit positive bounded
  ref_eq := by simp [startPool, mpoolInit]
  held_lt := by simp [startPool]
  held_ctx := by simp [startPool]
  ring_nodup := by
    rw [startPool, freeRing_mpoolInit bounded]
    exact nodup_range
  mem_ring := by
    intro ptr
    rw [startPool, freeRing_mpoolInit bounded]
    simp [mpoolInit]
  out_lt := by
    simp [outstandingSlots, startPool, mpoolInit, Outstanding]

theorem mpoolGet_cons (balanced : Balanced state) {rest : List Nat}
    (ring : freeRing state.ctx = ptr :: rest) :
    mpoolGet state.ctx =
      (some ptr, MpoolCtx.setItem { state.ctx with head := (state.ctx.head + 1) % word }
        ptr ⟨true, 1⟩) := by
  obtain ⟨dequeued, -, -⟩ := freeRing_dequeue balanced.fits ring
  have free := (balanced.mem_ring ptr).mp (ring ▸ mem_cons_self)
  have unreferenced := balanced.ref_eq ptr free.1
  rw [free.2] at unreferenced
  rw [mpoolGet, dequeued]
  simp [unreferenced]

theorem mpoolGet_nil (fits : Fits ctx) (ring : freeRing ctx = []) :
    mpoolGet ctx = (none, ctx) := by
  have full := (mpoolFull_iff fits).mpr ring
  simp [mpoolGet, mpoolDequeue, full]

theorem Balanced.accounting (balanced : Balanced state) :
    Accounting state.ctx := by
  have fits := balanced.fits
  have mem_ring : ∀ ptr, ptr ∈ freeRing state.ctx ↔
      ptr < state.ctx.max ∧ ¬ Outstanding state.ctx ptr := by
    intro ptr
    rw [balanced.mem_ring]
    refine and_congr_right fun inside => ?_
    rw [balanced.outstanding_iff inside]
    omega
  refine ⟨balanced.ring_nodup, mem_ring, ?_, ?_, ?_⟩
  · have total := balanced.card_add_length
    have bound := balanced.out_lt
    rw [freeRing_length] at total
    have distance : ringDistance word state.ctx.head state.ctx.tail =
        (state.ctx.tail + word - state.ctx.head) % word := rfl
    have headLt := fits.head_lt
    have tailLt := fits.tail_lt
    rw [mpoolCount, int32]
    -- the counter difference is the number of free items up to one wrap
    have congruent : (((state.ctx.max : Int) + state.ctx.head - state.ctx.tail).bmod (2 ^ 32)) =
        ((outstandingSlots state.ctx).card : Int).bmod (2 ^ 32) := by
      rw [Int.bmod_eq_bmod_iff_bmod_sub_eq_zero]
      apply Int.bmod_eq_zero_of_dvd
      rw [Int.dvd_iff_emod_eq_zero]
      simp only [word] at *
      omega
    rw [congruent]
    exact int32_of_bounds (by omega) (by exact_mod_cast bound)
  · constructor
    · intro failed ptr inside
      rcases ring : freeRing state.ctx with _ | ⟨first, rest⟩
      · by_contra free
        have member := (mem_ring ptr).mpr ⟨inside, free⟩
        simp [ring] at member
      · rw [mpoolGet_cons balanced ring] at failed
        simp at failed
    · intro allOut
      rcases ring : freeRing state.ctx with _ | ⟨first, rest⟩
      · rw [mpoolGet_nil fits ring]
      · have free := (mem_ring first).mp (ring ▸ mem_cons_self)
        exact absurd (allOut first free.1) free.2
  · intro ptr got
    rcases ring : freeRing state.ctx with _ | ⟨first, rest⟩
    · rw [mpoolGet_nil fits ring] at got
      simp at got
    · rw [mpoolGet_cons balanced ring] at got
      obtain rfl : first = ptr := by simpa using got
      exact (mem_ring first).mp (ring ▸ mem_cons_self)

/-! ## Calls keep the balance -/

theorem outstandingSlots_subset_insert (ctx : MpoolCtx) {next : MpoolCtx} (ptr : Nat)
    (sameMax : next.max = ctx.max)
    (sameItems : ∀ other ≠ ptr, next.items other = ctx.items other) :
    outstandingSlots next ⊆ insert ptr (outstandingSlots ctx) := by
  intro other member
  rw [outstandingSlots, Finset.mem_filter, sameMax] at member
  rw [Finset.mem_insert]
  by_cases same : other = ptr
  · exact .inl same
  · refine .inr ?_
    rw [outstandingSlots, Finset.mem_filter]
    exact ⟨member.1, by simpa [Outstanding, sameItems other same] using member.2⟩

theorem outstandingSlots_card_le (ctx : MpoolCtx) {next : MpoolCtx} (ptr : Nat)
    (sameMax : next.max = ctx.max)
    (sameItems : ∀ other ≠ ptr, next.items other = ctx.items other)
    (member : ptr ∈ outstandingSlots ctx) :
    (outstandingSlots next).card ≤ (outstandingSlots ctx).card := by
  have included := outstandingSlots_subset_insert ctx ptr sameMax sameItems
  rw [Finset.insert_eq_of_mem member] at included
  exact Finset.card_le_card included

theorem Balanced.mem_outstandingSlots (balanced : Balanced state) (inside : ptr < state.ctx.max)
    (referenced : 0 < state.held ptr) :
    ptr ∈ outstandingSlots state.ctx := by
  rw [outstandingSlots, Finset.mem_filter, Finset.mem_range]
  exact ⟨inside, (balanced.outstanding_iff inside).mpr referenced⟩

variable {next : PoolState}

/-- One slot gets a new count of holders, and the other items stay. -/
theorem Balanced.recount (balanced : Balanced state) {ctx : MpoolCtx} {count : Nat}
    (sameMax : ctx.max = state.ctx.max)
    (sameItems : ∀ other ≠ ptr, ctx.items other = state.ctx.items other)
    (counted : (ctx.items ptr).ref = count) (bounded : count < 2 ^ 31)
    (owned : 0 < count → (ctx.items ptr).ctx = true) (fits : Fits ctx)
    (nodup : (freeRing ctx).Nodup)
    (ring : ∀ other, other ∈ freeRing ctx ↔
      other < ctx.max ∧ Function.update state.held ptr count other = 0)
    (few : (outstandingSlots ctx).card < 2 ^ 31) :
    Balanced ⟨ctx, Function.update state.held ptr count⟩ := by
  refine ⟨fits, ?_, ?_, ?_, nodup, ring, few⟩ <;> dsimp only <;> rw [sameMax] <;>
    intro other inside <;> by_cases same : other = ptr
  · rwa [same, Function.update_self]
  · rw [Function.update_of_ne same, sameItems other same]
    exact balanced.ref_eq other inside
  · rwa [same, Function.update_self]
  · rw [Function.update_of_ne same]
    exact balanced.held_lt other inside
  · rwa [same, Function.update_self]
  · rw [Function.update_of_ne same, sameItems other same]
    exact balanced.held_ctx other inside

theorem Balanced.get {result : Option Nat} (balanced : Balanced state)
    (few : (outstandingSlots state.ctx).card + 1 < 2 ^ 31)
    (called : poolCall state .get = some (result, next)) : Balanced next := by
  rcases ring : freeRing state.ctx with _ | ⟨ptr, rest⟩
  · rw [poolCall, mpoolGet_nil balanced.fits ring] at called
    obtain ⟨rfl, rfl⟩ : none = result ∧ state = next := by simpa using called
    exact balanced
  · rw [poolCall, mpoolGet_cons balanced ring] at called
    obtain ⟨-, rfl⟩ := Prod.mk.inj (Option.some.inj called)
    obtain ⟨-, shorter, fits⟩ := freeRing_dequeue balanced.fits ring
    have free := (balanced.mem_ring ptr).mp (ring ▸ mem_cons_self)
    have nodup := balanced.ring_nodup
    rw [ring, nodup_cons] at nodup
    -- the slot handed out is the only one whose item and holders change
    refine balanced.recount rfl (fun other different => setItem_items_of_ne _ _ different)
      (by simp [free.2]) (by simp [free.2]) (by simp) (fits.setItem ptr _) ?_ ?_ ?_
    · rw [freeRing_setItem, shorter]
      exact nodup.2
    · intro other
      rw [freeRing_setItem, shorter]
      by_cases same : other = ptr
      · subst same
        simp [nodup.1]
      · have before := balanced.mem_ring other
        rw [ring, mem_cons] at before
        simpa [same, Function.update_of_ne same, MpoolCtx.setItem] using before
    · refine lt_of_le_of_lt (Finset.card_le_card
        (outstandingSlots_subset_insert state.ctx ptr rfl ?_)) ?_
      · intro other different
        exact setItem_items_of_ne _ _ different
      · exact lt_of_le_of_lt (Finset.card_insert_le _ _) few

theorem Balanced.setRef (balanced : Balanced state) {count : Nat} (inside : ptr < state.ctx.max)
    (referenced : 0 < state.held ptr) (positive : 0 < count) (bounded : count < 2 ^ 31) :
    Balanced
      ⟨state.ctx.setItem ptr { state.ctx.items ptr with ref := count },
        Function.update state.held ptr count⟩ := by
  refine balanced.recount rfl (fun other different => setItem_items_of_ne _ _ different)
    (by simp) bounded (fun _ => by simpa using balanced.held_ctx ptr inside referenced)
    (balanced.fits.setItem ptr _) balanced.ring_nodup ?_ ?_
  · intro other
    rw [freeRing_setItem, balanced.mem_ring other]
    refine and_congr_right fun _ => ?_
    by_cases same : other = ptr
    · subst same
      simp only [Function.update_self]
      omega
    · simp only [Function.update_of_ne same]
  · refine lt_of_le_of_lt (outstandingSlots_card_le state.ctx ptr rfl ?_
      (balanced.mem_outstandingSlots inside referenced)) balanced.out_lt
    intro other different
    exact setItem_items_of_ne _ _ different

theorem Balanced.refInc {result : Option Nat} (balanced : Balanced state)
    (inside : ptr < state.ctx.max) (referenced : 0 < state.held ptr)
    (room : state.held ptr + 1 < 2 ^ 31)
    (called : poolCall state (.refInc ptr) = some (result, next)) : Balanced next := by
  obtain ⟨-, rfl⟩ := Prod.mk.inj (Option.some.inj called)
  have counted : int32 ((state.ctx.items ptr).ref + 1) = ((state.held ptr + 1 : Nat) : Int) := by
    rw [balanced.ref_eq ptr inside, int32_of_bounds] <;> push_cast <;> omega
  simp only [PoolState.acquire, mpoolRefInc, counted]
  exact balanced.setRef inside referenced (Nat.succ_pos _) room

theorem Balanced.enqueue (balanced : Balanced state) (inside : ptr < state.ctx.max)
    (referenced : 0 < state.held ptr)
    (fresh : state.ctx.tail % state.ctx.max ∉ liveCells state.ctx) :
    Balanced
      ⟨mpoolEnqueue (state.ctx.setItem ptr { state.ctx.items ptr with ref := 0 }) ptr,
        Function.update state.held ptr 0⟩ := by
  have outside : ptr ∉ freeRing state.ctx := fun member =>
    absurd ((balanced.mem_ring ptr).mp member).2 (by omega)
  have room : (freeRing state.ctx).length < state.ctx.max := by
    have total := balanced.card_add_length
    have positive := Finset.card_pos.mpr
      ⟨ptr, balanced.mem_outstandingSlots inside referenced⟩
    omega
  obtain ⟨appended, fits⟩ := freeRing_enqueue
    (balanced.fits.setItem ptr { state.ctx.items ptr with ref := 0 }) ptr room fresh
  have sameItems : (mpoolEnqueue
      (state.ctx.setItem ptr { state.ctx.items ptr with ref := 0 }) ptr).items =
      (state.ctx.setItem ptr { state.ctx.items ptr with ref := 0 }).items := by
    unfold mpoolEnqueue
    split <;> rfl
  have sameMax : (mpoolEnqueue
      (state.ctx.setItem ptr { state.ctx.items ptr with ref := 0 }) ptr).max = state.ctx.max := by
    unfold mpoolEnqueue
    split <;> rfl
  refine balanced.recount sameMax
    (fun other different => by rw [sameItems]; exact setItem_items_of_ne _ _ different)
    (by rw [sameItems]; simp) (by decide) nofun fits ?_ ?_ ?_ <;>
    simp only [sameMax, appended, freeRing_setItem]
  · exact balanced.ring_nodup.append (nodup_singleton ptr) (by simpa using outside)
  · intro other
    rw [mem_append, mem_singleton, balanced.mem_ring other]
    by_cases same : other = ptr
    · subst same
      simp [inside]
    · simp [same]
  · refine lt_of_le_of_lt (outstandingSlots_card_le state.ctx ptr sameMax ?_
      (balanced.mem_outstandingSlots inside referenced)) balanced.out_lt
    intro other different
    rw [sameItems]
    exact setItem_items_of_ne _ _ different

theorem Balanced.refDec (balanced : Balanced state) (inside : ptr < state.ctx.max)
    (referenced : 0 < state.held ptr)
    (fresh : state.held ptr = 1 → state.ctx.tail % state.ctx.max ∉ liveCells state.ctx) :
    ∃ ctx, mpoolRefDec state.ctx ptr = some ctx ∧ Balanced (state.release ctx ptr) := by
  have bound := balanced.held_lt ptr inside
  have counted : int32 ((state.ctx.items ptr).ref - 1) = ((state.held ptr - 1 : Nat) : Int) := by
    rw [balanced.ref_eq ptr inside, int32_of_bounds] <;> omega
  have ctxSet := balanced.held_ctx ptr inside referenced
  by_cases last : state.held ptr = 1
  · refine ⟨mpoolEnqueue (state.ctx.setItem ptr { state.ctx.items ptr with ref := 0 }) ptr,
      ?_, ?_⟩
    · simp [mpoolRefDec, counted, last, ctxSet]
    · simpa [PoolState.release, last] using balanced.enqueue inside referenced (fresh last)
  · have remaining : ((state.held ptr - 1 : Nat) : Int) ≠ 0 := by omega
    refine ⟨state.ctx.setItem ptr
      { state.ctx.items ptr with ref := ((state.held ptr - 1 : Nat) : Int) }, ?_, ?_⟩
    · simp only [mpoolRefDec, counted, if_neg remaining]
    · exact balanced.setRef inside referenced (by omega) (by omega)

theorem Balanced.poolStep {call : PoolCall} (balanced : Balanced state)
    (matched : Matched state call) (accountable : Accountable state call)
    (stepped : PoolStep state call next) :
    Balanced next := by
  obtain ⟨result, called⟩ := stepped
  cases call with
  | get => exact balanced.get accountable called
  | refInc ptr => exact balanced.refInc matched accountable.1 accountable.2 called
  | put ptr =>
    obtain ⟨ctx, decremented, kept⟩ := balanced.refDec matched.1 matched.2 accountable
    simp only [poolCall, mpoolPut, decremented, Option.map_some, Option.some.injEq,
      Prod.mk.injEq] at called
    exact called.2 ▸ kept
  | refDec ptr =>
    obtain ⟨ctx, decremented, kept⟩ := balanced.refDec matched.1 matched.2 accountable
    simp only [poolCall, decremented, Option.map_some, Option.some.injEq,
      Prod.mk.injEq] at called
    exact called.2 ▸ kept

theorem Balanced.poolStep_exists {call : PoolCall} (balanced : Balanced state)
    (matched : Matched state call) (accountable : Accountable state call) :
    ∃ next, PoolStep state call next := by
  cases call with
  | get =>
    unfold PoolStep poolCall
    rcases mpoolGet state.ctx with ⟨_ | ptr, ctx⟩ <;> simp
  | refInc ptr => exact ⟨_, _, rfl⟩
  | put ptr =>
    obtain ⟨ctx, decremented, -⟩ := balanced.refDec matched.1 matched.2 accountable
    exact ⟨_, none, by simp only [poolCall, mpoolPut, decremented, Option.map_some]; rfl⟩
  | refDec ptr =>
    obtain ⟨ctx, decremented, -⟩ := balanced.refDec matched.1 matched.2 accountable
    exact ⟨_, none, by simp only [poolCall, decremented, Option.map_some]; rfl⟩

/-- Get an item and put it back, `rounds` times over. -/
def getPutRounds (max rounds : Nat) : List PoolCall :=
  (List.range rounds).flatMap fun round => [.get, .put (round % max)]

/-- The pool between two rounds: nothing is outstanding. -/
structure Between (max head tail : Nat) (queue : Nat → Nat) (state : PoolState) : Prop where
  max_eq : state.ctx.max = max
  head_eq : state.ctx.head = head
  tail_eq : state.ctx.tail = tail
  queue_eq : state.ctx.queue = queue
  ref_eq : ∀ ptr, (state.ctx.items ptr).ref = 0
  held_eq : ∀ ptr, state.held ptr = 0

theorem Between.round {head tail : Nat} {queue : Nat → Nat}
    (between : Between max head tail queue state) (headFits : head < word) (tailFits : tail < word)
    (maxFits : ringDistance word head tail = max) (positive : 0 < max)
    (inside : queue (head % max) < max) :
    ∃ next, Runs Matched PoolStep state [.get, .put (queue (head % max))] next ∧
      Between max ((head + 1) % word) ((tail + 1) % word)
        (Function.update queue (tail % max) (queue (head % max))) next := by
  obtain ⟨rfl, rfl, rfl, rfl, refs, held⟩ := between
  set ptr := state.ctx.queue (state.ctx.head % state.ctx.max) with ptrDef
  have notFull : mpoolFull state.ctx = false := by
    have distance := ringDistance_eq_zero_iff headFits tailFits
    rw [mpoolFull, decide_eq_false_iff_not, ← distance]
    omega
  have got : mpoolGet state.ctx =
      (some ptr, MpoolCtx.setItem { state.ctx with head := (state.ctx.head + 1) % word }
        ptr ⟨true, 1⟩) := by
    simp [mpoolGet, mpoolDequeue, notFull, refs, ← ptrDef]
  have notEmpty : ¬ state.ctx.max ≤
      ringDistance word ((state.ctx.head + 1) % word) state.ctx.tail := by
    rw [ringDistance_head_succ headFits tailFits (by omega)]
    omega
  let taken := MpoolCtx.setItem { state.ctx with head := (state.ctx.head + 1) % word }
    ptr ⟨true, 1⟩
  have put : mpoolPut taken ptr = some (mpoolEnqueue (taken.setItem ptr ⟨true, 0⟩) ptr) := by
    have one : int32 ((1 : Int) - 1) = 0 := by decide
    simp only [mpoolPut, mpoolRefDec, taken, setItem_items_self, one, if_true]
  have middle : PoolStep state .get (state.acquire taken ptr) := ⟨some ptr, by rw [poolCall, got]⟩
  have back : PoolStep (state.acquire taken ptr) (.put ptr)
      ((state.acquire taken ptr).release (mpoolEnqueue (taken.setItem ptr ⟨true, 0⟩) ptr) ptr) :=
    ⟨none, by simp only [poolCall, PoolState.acquire, put, Option.map_some]⟩
  have allowed : Matched (state.acquire taken ptr) (.put ptr) :=
    ⟨inside, by simp [PoolState.acquire]⟩
  refine ⟨_, .cons trivial middle (.cons allowed back (.nil _)), ?_⟩
  constructor <;>
    simp [PoolState.release, PoolState.acquire, mpoolEnqueue, mpoolEmpty, MpoolCtx.setItem, taken,
      notEmpty]
  · intro other
    by_cases same : other = ptr
    · simp [same]
    · simp [Function.update_of_ne same, refs]
  · intro other
    by_cases same : other = ptr
    · simp [same, held]
    · simp [held]

theorem getPutRounds_between (max : Nat) (positive : 0 < max) (rounds : Nat)
    (early : rounds + max < word) :
    ∃ state, Runs Matched PoolStep (startPool max) (getPutRounds max rounds) state ∧
      Between max rounds (rounds + max) (fun cell => cell) state := by
  induction rounds with
  | zero =>
    refine ⟨startPool max, .nil _, ?_⟩
    constructor <;> simp [startPool, mpoolInit]
  | succ rounds ih =>
    obtain ⟨state, run, between⟩ := ih (by omega)
    have distance : ringDistance word rounds (rounds + max) = max := by
      rw [ringDistance, show rounds + max + word - rounds = max + word by omega,
        Nat.add_mod_right, Nat.mod_eq_of_lt (by omega)]
    obtain ⟨next, round, after⟩ := between.round (by omega) (by omega) distance positive
      (Nat.mod_lt _ positive)
    refine ⟨next, ?_, ?_⟩
    · rw [getPutRounds, range_succ, flatMap_append]
      exact run.append (by simpa using round)
    · rw [Nat.mod_eq_of_lt (by omega), Nat.mod_eq_of_lt (by omega), Nat.add_mod_right,
        Function.update_eq_self] at after
      rwa [show rounds + 1 + max = rounds + max + 1 by omega]

end CLibs.MemoryPool
