import CLibs.Fifo

/-!
# The fifo refines a bounded queue

`Represents` relates a fifo to the elements it holds, oldest first.  The slots
are taken from the free-running indices modulo the capacity, which divides
`2 ^ 32`, so it does not matter when an index wraps.
-/

namespace CLibs.Fifos

open List

/-- A fifo of `2 ^ order` elements of `esize` bytes, with the shape that
`fifo_init` and `fifo_alloc` give it. -/
structure Shaped (order esize : Nat) (fifo : Fifo) : Prop where
  mask : fifo.mask.toNat + 1 = 2 ^ order
  element : fifo.esize.toNat = esize
  small : 2 ^ order * esize < 2 ^ 32
  short : 2 ^ order < 2 ^ 32
  size : 2 ^ order * esize ≤ fifo.data.size

structure Represents (order esize : Nat) (fifo : Fifo) (queue : List (List UInt8)) : Prop where
  shaped : Shaped order esize fifo
  sized : ∀ item ∈ queue, item.length = esize
  bounded : queue.length ≤ 2 ^ order
  length : (fifo.inIndex - fifo.outIndex).toNat = queue.length
  holds : fifo.data.RingHolds esize (2 ^ order) fifo.outIndex.toNat queue

section Shape

variable {order esize : Nat} {fifo : Fifo}

theorem Shaped.capacity (shaped : Shaped order esize fifo) :
    (fifo.mask + 1).toNat = 2 ^ order := by
  have mask := shaped.mask
  have short := shaped.short
  rw [UInt32.toNat_add, UInt32.toNat_one, mask]
  exact Nat.mod_eq_of_lt short

theorem Shaped.slot (shaped : Shaped order esize fifo) (off : UInt32) :
    (off &&& fifo.mask).toNat = off.toNat % 2 ^ order := by
  have mask : fifo.mask.toNat = 2 ^ order - 1 := by
    have plus := shaped.mask
    omega
  rw [UInt32.toNat_and, mask, Nat.and_two_pow_sub_one_eq_mod]

variable {count : UInt32}

theorem Shaped.scaled (shaped : Shaped order esize fifo) (bounded : count.toNat ≤ 2 ^ order) :
    (scaled fifo count).toNat = count.toNat * esize := by
  have product : count.toNat * esize ≤ 2 ^ order * esize := Nat.mul_le_mul_right esize bounded
  have small := shaped.small
  unfold Fifos.scaled
  split
  · rw [UInt32.toNat_mul, shaped.element]
    exact Nat.mod_eq_of_lt (by omega)
  · rename_i one
    have unit : fifo.esize = 1 := not_not.mp one
    rw [← shaped.element, unit, UInt32.toNat_one, Nat.mul_one]

theorem toNat_min (first second : UInt32) :
    (min first second).toNat = min first.toNat second.toNat := by
  rw [Nat.min_def]
  change (if first ≤ second then first else second).toNat = _
  simp only [UInt32.le_iff_toNat_le]
  split <;> rfl

theorem Shaped.piece (shaped : Shaped order esize fifo) (off : UInt32)
    (bounded : count.toNat ≤ 2 ^ order) :
    (min (Fifos.scaled fifo count) (Fifos.scaled fifo (fifo.mask + 1) -
        Fifos.scaled fifo (off &&& fifo.mask))).toNat =
      Buffer.ringPiece (2 ^ order) (off.toNat % 2 ^ order) count.toNat * esize ∧
    (Fifos.scaled fifo count - min (Fifos.scaled fifo count)
        (Fifos.scaled fifo (fifo.mask + 1) - Fifos.scaled fifo (off &&& fifo.mask))).toNat =
      (count.toNat - Buffer.ringPiece (2 ^ order) (off.toNat % 2 ^ order) count.toNat) * esize := by
  have inside : off.toNat % 2 ^ order < 2 ^ order := Nat.mod_lt _ (Nat.two_pow_pos order)
  have slot : (Fifos.scaled fifo (off &&& fifo.mask)).toNat = off.toNat % 2 ^ order * esize := by
    rw [shaped.scaled (by rw [shaped.slot]; omega), shaped.slot]
  have whole : (Fifos.scaled fifo (fifo.mask + 1)).toNat = 2 ^ order * esize := by
    rw [shaped.scaled (Nat.le_of_eq shaped.capacity), shaped.capacity]
  have copied := shaped.scaled bounded
  have remaining : (Fifos.scaled fifo (fifo.mask + 1) -
      Fifos.scaled fifo (off &&& fifo.mask)).toNat =
        (2 ^ order - off.toNat % 2 ^ order) * esize := by
    rw [UInt32.toNat_sub_of_le _ _ (by
      rw [UInt32.le_iff_toNat_le, slot, whole]
      exact Nat.mul_le_mul_right esize (Nat.le_of_lt inside)), slot, whole, Nat.sub_mul]
  have piece : (min (Fifos.scaled fifo count) (Fifos.scaled fifo (fifo.mask + 1) -
      Fifos.scaled fifo (off &&& fifo.mask))).toNat =
        Buffer.ringPiece (2 ^ order) (off.toNat % 2 ^ order) count.toNat * esize := by
    rw [toNat_min, copied, remaining, Buffer.ringPiece, Nat.mul_min_mul_right]
  refine ⟨piece, ?_⟩
  rw [UInt32.toNat_sub_of_le _ _ (by
    rw [UInt32.le_iff_toNat_le, toNat_min]
    exact Nat.min_le_left _ _), piece, copied, Nat.sub_mul]

theorem Shaped.offset (shaped : Shaped order esize fifo) (off : UInt32) :
    (Fifos.scaled fifo (off &&& fifo.mask)).toNat = off.toNat % 2 ^ order * esize := by
  have inside : off.toNat % 2 ^ order < 2 ^ order := Nat.mod_lt _ (Nat.two_pow_pos order)
  rw [shaped.scaled (by rw [shaped.slot]; omega), shaped.slot]

theorem fifoCopyIn_eq (shaped : Shaped order esize fifo) (off : UInt32) {items : List (List UInt8)}
    (rest : List UInt8) (sized : ∀ item ∈ items, item.length = esize)
    (counted : items.length = count.toNat) (bounded : items.length ≤ 2 ^ order) :
    fifoCopyIn fifo (items.flatten ++ rest) count off =
      .ok { fifo with
        data := fifo.data.ringWritten esize (2 ^ order) (off.toNat % 2 ^ order) items } := by
  have inside : off.toNat % 2 ^ order < 2 ^ order := Nat.mod_lt _ (Nat.two_pow_pos order)
  obtain ⟨firstFits, secondFits⟩ := Buffer.ringPiece_fits sized inside bounded shaped.size
  obtain ⟨piece, remainder⟩ := shaped.piece off (counted ▸ bounded)
  have length := Buffer.flatten_length sized
  unfold fifoCopyIn Buffer.ringWritten
  dsimp only
  rw [remainder, piece, shaped.offset, ← counted]
  have shortPiece : Buffer.ringPiece (2 ^ order) (off.toNat % 2 ^ order) items.length ≤
      items.length := Nat.min_le_left _ _
  generalize Buffer.ringPiece (2 ^ order) (off.toNat % 2 ^ order) items.length = cut at *
  have shortBytes := Nat.mul_le_mul_right esize shortPiece
  have behindLength : (items.drop cut).flatten.length = items.length * esize - cut * esize := by
    rw [Buffer.flatten_length (Buffer.drop_sized sized _), length_drop, Nat.sub_mul]
  have first : sourceBytes (items.flatten ++ rest) 0 (cut * esize) =
      .ok (items.take cut).flatten := by
    rw [sourceBytes, if_pos (by rw [length_append]; omega), drop_zero,
      take_append_of_le_length (by omega), Buffer.flatten_take sized]
  have second : sourceBytes (items.flatten ++ rest) (cut * esize)
      ((items.length - cut) * esize) = .ok (items.drop cut).flatten := by
    rw [Nat.sub_mul, sourceBytes, if_pos (by rw [length_append]; omega),
      drop_append_of_le_length (by omega), Buffer.flatten_drop sized,
      take_append_of_le_length (by omega), take_of_length_le (by omega)]
  rw [first, second]
  simp only [bind, Except.bind, Buffer.store_eq firstFits]
  rw [Buffer.store_eq (by exact secondFits)]
  rfl

theorem fifoCopyOut_eq (shaped : Shaped order esize fifo) (off : UInt32) {items : List (List UInt8)}
    (holds : fifo.data.RingHolds esize (2 ^ order) off.toNat items)
    (sized : ∀ item ∈ items, item.length = esize) (counted : items.length = count.toNat)
    (bounded : items.length ≤ 2 ^ order) :
    fifoCopyOut fifo count off = .ok items.flatten := by
  have inside : off.toNat % 2 ^ order < 2 ^ order := Nat.mod_lt _ (Nat.two_pow_pos order)
  obtain ⟨piece, remainder⟩ := shaped.piece off (counted ▸ bounded)
  have atSlot := holds.congr (Nat.mod_mod off.toNat (2 ^ order)).symm
  obtain ⟨first, second⟩ := atSlot.pieces sized inside bounded shaped.size
  have shortPiece : Buffer.ringPiece (2 ^ order) (off.toNat % 2 ^ order) items.length ≤
      items.length := Nat.min_le_left _ _
  unfold fifoCopyOut
  dsimp only
  rw [remainder, piece, shaped.offset, ← counted, first.read_eq, second.read_eq]
  · simp only [bind, Except.bind, pure, Except.pure]
    rw [← flatten_append, take_append_drop]
  · rw [Buffer.flatten_length (Buffer.drop_sized sized _), length_drop]
  · rw [Buffer.flatten_length (Buffer.take_sized sized _), length_take,
      Nat.min_eq_left shortPiece]

end Shape

/-! ## Single calls -/

section Calls

variable {order esize : Nat} {fifo : Fifo} {queue : List (List UInt8)}

theorem elements_sized {count : Nat} {buf : List UInt8} (provided : count * esize ≤ buf.length) :
    ∀ item ∈ elements esize count buf, item.length = esize := by
  intro item member
  obtain ⟨index, bound, rfl⟩ := mem_map.mp member
  have inside := Nat.mul_le_mul_right esize (mem_range.mp bound)
  rw [Nat.succ_mul] at inside
  rw [length_take, length_drop]
  omega

theorem elements_length (count : Nat) (buf : List UInt8) :
    (elements esize count buf).length = count := by
  rw [elements, length_map, length_range]

theorem elements_flatten (count : Nat) (buf : List UInt8) :
    (elements esize count buf).flatten = buf.take (count * esize) := by
  induction count with
  | zero => rw [Nat.zero_mul, take_zero]; rfl
  | succ count ih =>
    have last : elements esize (count + 1) buf =
        elements esize count buf ++ [(buf.drop (count * esize)).take esize] := by
      rw [elements, range_succ, map_append]
      rfl
    rw [last, flatten_append, ih, flatten_singleton, Nat.succ_mul, take_add]

theorem Represents.dvd (represents : Represents order esize fifo queue) : 2 ^ order ∣ 2 ^ 32 := by
  have short := represents.shaped.short
  exact Nat.pow_dvd_pow 2 (Nat.le_of_lt ((Nat.pow_lt_pow_iff_right (by omega)).mp short))

theorem Represents.tail (represents : Represents order esize fifo queue) :
    (fifo.outIndex.toNat + queue.length) % 2 ^ order = fifo.inIndex.toNat % 2 ^ order := by
  have length := represents.length
  have inFits := fifo.inIndex.toNat_lt
  have outFits := fifo.outIndex.toNat_lt
  rw [UInt32.toNat_sub] at length
  have wrapped : (fifo.outIndex.toNat + queue.length) % 2 ^ 32 = fifo.inIndex.toNat := by omega
  rw [← wrapped, Nat.mod_mod_of_dvd _ represents.dvd]

theorem Represents.unused (represents : Represents order esize fifo queue) :
    (fifoUnused fifo).toNat = 2 ^ order - queue.length := by
  have capacity := represents.shaped.capacity
  have bounded := represents.bounded
  have length := represents.length
  unfold fifoUnused
  rw [UInt32.toNat_sub_of_le, capacity, length]
  rw [UInt32.le_iff_toNat_le, capacity, length]
  exact bounded

theorem fifoIn_simulates (represents : Represents order esize fifo queue) {buf : List UInt8}
    {nelem : UInt32} (provided : nelem.toNat * esize ≤ buf.length) :
    Simulates (Represents order esize) ((Call.input buf nelem).run fifo)
      ((Call.input buf nelem).queue (2 ^ order) esize queue) := by
  have shaped := represents.shaped
  have bounded := represents.bounded
  have length := represents.length
  have sized := Buffer.take_sized (elements_sized provided) (2 ^ order - queue.length)
  have counted : ((elements esize nelem.toNat buf).take (2 ^ order - queue.length)).length =
      (min nelem (fifoUnused fifo)).toNat := by
    rw [length_take, elements_length, toNat_min, represents.unused, Nat.min_comm]
  have source : ((elements esize nelem.toNat buf).take (2 ^ order - queue.length)).flatten ++
      buf.drop (min ((2 ^ order - queue.length) * esize) (nelem.toNat * esize)) = buf := by
    rw [← Buffer.flatten_take (elements_sized provided), elements_flatten, take_take,
      take_append_drop]
  simp only [Call.queue]
  generalize (elements esize nelem.toNat buf).take (2 ^ order - queue.length) = accepted
    at sized counted source ⊢
  have room : accepted.length ≤ 2 ^ order - queue.length := by
    rw [counted, toNat_min, represents.unused]
    exact Nat.min_le_right _ _
  have copied := fifoCopyIn_eq shaped fifo.inIndex
    (buf.drop (min ((2 ^ order - queue.length) * esize) (nelem.toNat * esize))) sized counted
    (by omega)
  rw [source] at copied
  have inside : fifo.inIndex.toNat % 2 ^ order < 2 ^ order := Nat.mod_lt _ (Nat.two_pow_pos order)
  have stored := Buffer.ringWritten_holds sized inside (by omega) shaped.size
  have kept := represents.holds.ringWritten sized represents.sized inside (by omega)
    represents.tail
  simp only [Call.run, fifoIn, copied, bind, Except.bind, pure, Except.pure]
  refine .pure ⟨?_, ⟨shaped.mask, shaped.element, shaped.small, shaped.short, shaped.size⟩,
    ?_, ?_, ?_, ?_⟩
  · rw [counted]
  · exact forall_mem_append.mpr ⟨represents.sized, sized⟩
  · rw [length_append]
    omega
  · have short := shaped.short
    dsimp only
    rw [UInt32.toNat_sub] at length
    rw [length_append, UInt32.toNat_sub, UInt32.toNat_add, ← counted]
    omega
  · rw [Buffer.ringHolds_append]
    refine ⟨kept, stored.congr ?_⟩
    rw [Nat.mod_mod, represents.tail]

theorem fifoPeek_eq (represents : Represents order esize fifo queue) (nelem : UInt32) :
    ∃ count : UInt32, count.toNat = (queue.take nelem.toNat).length ∧
      fifoPeek fifo nelem = .ok (count, (queue.take nelem.toNat).flatten) := by
  have counted : (queue.take nelem.toNat).length =
      (min nelem (fifo.inIndex - fifo.outIndex)).toNat := by
    rw [length_take, toNat_min, represents.length]
  have oldest := represents.holds
  rw [← take_append_drop nelem.toNat queue, Buffer.ringHolds_append] at oldest
  have short : (queue.take nelem.toNat).length ≤ 2 ^ order :=
    Nat.le_trans (length_take_le' _ _) represents.bounded
  have copied := fifoCopyOut_eq represents.shaped fifo.outIndex oldest.1
    (Buffer.take_sized represents.sized _) counted short
  refine ⟨_, counted.symm, ?_⟩
  simp only [fifoPeek, copied, bind, Except.bind, pure, Except.pure]

theorem fifoOut_simulates (represents : Represents order esize fifo queue) (nelem : UInt32) :
    Simulates (Represents order esize) ((Call.output nelem).run fifo)
      ((Call.output nelem).queue (2 ^ order) esize queue) := by
  have shaped := represents.shaped
  obtain ⟨count, counted, peeked⟩ := fifoPeek_eq represents nelem
  have holds := represents.holds
  rw [← take_append_drop nelem.toNat queue, Buffer.ringHolds_append] at holds
  simp only [Call.run, Call.queue, fifoOut, peeked, bind, Except.bind, pure, Except.pure]
  refine .pure ⟨?_, ⟨shaped.mask, shaped.element, shaped.small, shaped.short, shaped.size⟩,
    Buffer.drop_sized represents.sized _, ?_, ?_, ?_⟩
  · rw [counted]
  · have bounded := represents.bounded
    rw [length_drop]
    omega
  · have length := represents.length
    dsimp only
    rw [UInt32.toNat_sub] at length
    rw [UInt32.toNat_sub, UInt32.toNat_add, length_drop, counted, length_take]
    have outFits := fifo.outIndex.toNat_lt
    omega
  · apply holds.2.congr
    rw [UInt32.toNat_add, Nat.mod_mod_of_dvd _ represents.dvd, counted]

theorem fifoPeek_simulates (represents : Represents order esize fifo queue) (nelem : UInt32) :
    Simulates (Represents order esize) ((Call.peek nelem).run fifo)
      ((Call.peek nelem).queue (2 ^ order) esize queue) := by
  obtain ⟨count, counted, peeked⟩ := fifoPeek_eq represents nelem
  simp only [Call.run, Call.queue, peeked, bind, Except.bind, pure, Except.pure]
  refine .pure ⟨?_, represents⟩
  rw [counted]

theorem Call.run_simulates (call : Call) (provided : call.Provides esize)
    (represents : Represents order esize fifo queue) :
    Simulates (Represents order esize) (call.run fifo) (call.queue (2 ^ order) esize queue) := by
  cases call with
  | input buf nelem => exact fifoIn_simulates represents provided
  | output nelem => exact fifoOut_simulates represents nelem
  | peek nelem => exact fifoPeek_simulates represents nelem

end Calls

/-! ## Whole runs -/

theorem isPowerOf2_of_eq {nelem : UInt32} {order : Nat} (power : nelem.toNat = 2 ^ order) :
    isPowerOf2 nelem = true := by
  have positive := Nat.two_pow_pos order
  have nonzero : nelem ≠ 0 := by
    rintro rfl
    rw [UInt32.toNat_zero] at power
    omega
  have minusOne : (nelem - 1).toNat = 2 ^ order - 1 := by
    rw [UInt32.toNat_sub_of_le, power, UInt32.toNat_one]
    rw [UInt32.le_iff_toNat_le, UInt32.toNat_one]
    omega
  have masked : nelem &&& (nelem - 1) = 0 := by
    apply UInt32.toNat_inj.mp
    rw [UInt32.toNat_and, minusOne, power, Nat.and_two_pow_sub_one_eq_mod, Nat.mod_self]
    rfl
  exact decide_eq_true ⟨nonzero, masked⟩

section Created

variable {nelem esize : UInt32} {order : Nat}

theorem represents_nil (power : nelem.toNat = 2 ^ order)
    (small : nelem.toNat * esize.toNat < 2 ^ 32) {fifo : Fifo} (mask : fifo.mask = nelem - 1)
    (element : fifo.esize = esize) (inIndex : fifo.inIndex = 0) (outIndex : fifo.outIndex = 0)
    (size : nelem.toNat * esize.toNat ≤ fifo.data.size) :
    Represents order esize.toNat fifo [] := by
  have positive := Nat.two_pow_pos order
  have fits := nelem.toNat_lt
  rw [power] at small size fits
  refine ⟨⟨?_, ?_, small, fits, size⟩, ?_, Nat.zero_le _, ?_, ?_⟩
  · rw [mask, UInt32.toNat_sub_of_le, power, UInt32.toNat_one]
    · omega
    · rw [UInt32.le_iff_toNat_le, UInt32.toNat_one]
      omega
  · rw [element]
  · exact fun item member => absurd member not_mem_nil
  · rw [inIndex, outIndex]
    rfl
  · exact fun index item found => nomatch found

theorem fifoInit_represents (fifo : Fifo) {buf : Buffer UInt8} (power : nelem.toNat = 2 ^ order)
    (large : 2 ≤ nelem.toNat) (small : nelem.toNat * esize.toNat < 2 ^ 32)
    (size : nelem.toNat * esize.toNat ≤ buf.size) :
    (fifoInit fifo buf nelem esize).1 = 0 ∧
      Represents order esize.toNat (fifoInit fifo buf nelem esize).2 [] := by
  have enough : ¬ nelem < 2 := by
    rw [UInt32.lt_iff_toNat_lt]
    exact Nat.not_lt.mpr large
  unfold fifoInit
  rw [if_neg (not_not.mpr (isPowerOf2_of_eq power))]
  dsimp only
  rw [if_neg enough]
  exact ⟨rfl, represents_nil power small rfl rfl rfl rfl size⟩

theorem fifoAlloc_represents (fifo : Fifo) (power : nelem.toNat = 2 ^ order)
    (large : 2 ≤ nelem.toNat) (small : nelem.toNat * esize.toNat < 2 ^ 32) :
    (fifoAlloc fifo true nelem esize).1 = 0 ∧
      Represents order esize.toNat (fifoAlloc fifo true nelem esize).2 [] := by
  have enough : ¬ nelem < 2 := by
    rw [UInt32.lt_iff_toNat_lt]
    exact Nat.not_lt.mpr large
  have product : (nelem * esize).toNat = nelem.toNat * esize.toNat := by
    rw [UInt32.toNat_mul]
    exact Nat.mod_eq_of_lt small
  unfold fifoAlloc
  rw [if_neg (not_not.mpr (isPowerOf2_of_eq power))]
  dsimp only
  rw [if_neg enough, if_neg (not_not.mpr rfl)]
  exact ⟨rfl, represents_nil power small rfl rfl rfl rfl (Nat.le_of_eq product.symm)⟩

/-- Every sequence of calls on a fresh fifo, whichever way it was set up, gets
the answers of a queue of at most `nelem` elements, and leaves `in - out` at
the number of queued elements. -/
theorem fifo_refines_queue (fifo : Fifo) (buf : Buffer UInt8) (power : nelem.toNat = 2 ^ order)
    (large : 2 ≤ nelem.toNat) (small : nelem.toNat * esize.toNat < 2 ^ 32)
    (size : nelem.toNat * esize.toNat ≤ buf.size) (calls : List Call)
    (provided : ∀ call ∈ calls, call.Provides esize.toNat)
    (created : Int × Fifo)
    (setUp : created = fifoInit fifo buf nelem esize ∨ created = fifoAlloc fifo true nelem esize) :
    created.1 = 0 ∧
    Yields (runCalls Call.run calls created.2) fun (answers, last) =>
      let expected := modelCalls (Call.queue nelem.toNat esize.toNat) calls []
      answers = expected.1 ∧ expected.2.length ≤ nelem.toNat ∧
        (last.inIndex - last.outIndex).toNat = expected.2.length := by
  have initial : created.1 = 0 ∧ Represents order esize.toNat created.2 [] := by
    rcases setUp with rfl | rfl
    · exact fifoInit_represents fifo power large small size
    · exact fifoAlloc_represents fifo power large small
  refine ⟨initial.1, ?_⟩
  have run := runCalls_simulates (fun call fifo queue provided represents =>
    call.run_simulates provided represents) calls provided initial.2
  rw [power]
  apply run.mono
  rintro ⟨answers, last⟩ ⟨same, represents⟩
  exact ⟨same, represents.bounded, represents.length⟩

end Created

/-- Three elements of two bytes go through a fifo of two elements. -/
theorem fifo_refines_queue_pairs :
    let fifo : Fifo := ⟨0, 0, 0, 0, .alloc 0⟩
    let calls : List Call := [.input [1, 2, 3, 4, 5, 6] 3, .output 1, .input [5, 6] 1, .output 9]
    (modelCalls (Call.queue 2 2) calls []).1 = [⟨2, []⟩, ⟨1, [1, 2]⟩, ⟨1, []⟩, ⟨2, [3, 4, 5, 6]⟩] ∧
      Yields (runCalls Call.run calls (fifoAlloc fifo true 2 2).2) fun (answers, _) =>
        answers = (modelCalls (Call.queue 2 2) calls []).1 := by
  intro fifo calls
  refine ⟨by decide, ?_⟩
  have power : (2 : UInt32).toNat = 2 ^ 1 := rfl
  have run := fifo_refines_queue fifo (.alloc 4) power (by decide) (by decide) (by decide)
    calls (by decide) (fifoAlloc fifo true 2 2) (.inr rfl)
  exact run.2.mono fun _ holds => holds.1

end CLibs.Fifos
