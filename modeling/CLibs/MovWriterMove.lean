import CLibs.ByteFiles
import CLibs.CheckedBuffers

/-!
# The rotation of a block to the front

`mov_writer_move` moves the last block of a region to its beginning, in the file.  Two buffers of
the size of the block take turns: what one of them has read is written a round later, a block
further on.  The last round writes only what is left of the region.
-/

namespace CLibs.Mov

open List

/-- `mov_buffer_read` into a buffer: a read beyond the end stores the bytes that there are, and
fails. -/
def movBufferRead (file : ByteFile) (buffer : Buffer UInt8) (bytes : Nat) :
    Except Fault (Buffer UInt8 × ByteFile) :=
  if file.error then .ok (buffer, file)
  else do
    let found := (file.bytes.drop file.position).take bytes
    let buffer ← buffer.store 0 found
    .ok (buffer, { file with
      position := file.position + found.length
      error := decide (found.length < bytes) })

/-- `mov_buffer_write` of the first bytes of a buffer. -/
def movBufferWrite (file : ByteFile) (buffer : Buffer UInt8) (bytes : Nat) :
    Except Fault ByteFile :=
  if file.error then .ok file
  else do
    let data ← buffer.read 0 bytes
    .ok (file.write data)

/-- The loop up to `source`, which is `from` in the program: where it ends. -/
def moveLoop (source bytes : Nat) :
    (fuel : Nat) → (i : Nat) → (j : Bool) → (buffer : Bool → Buffer UInt8) → ByteFile →
      Except Fault (Nat × Bool × (Bool → Buffer UInt8) × ByteFile)
  | 0, _, _, _, _ => .error .fuel
  | fuel + 1, i, j, buffer, file =>
    if i < source then do
      let file ← movBufferWrite (file.seek i) (buffer j) bytes
      let (filled, file) ← movBufferRead (file.seek (i + bytes)) (buffer j) bytes
      moveLoop source bytes fuel (i + bytes) (!j) (Function.update buffer j filled) file
    else .ok (i, j, buffer, file)

/-- `mov_writer_move`, with `target` for `to`; there is memory. -/
def movWriterMove (file : ByteFile) (target source bytes : Nat) :
    Except Fault (Int × ByteFile) := do
  check (bytes < 2 ^ 31 - 1)
  let (first, file) ← movBufferRead (file.seek source) (.alloc bytes) bytes
  let (second, file) ← movBufferRead (file.seek target) (.alloc bytes) bytes
  let (i, j, buffer, file) ← moveLoop source bytes (source - target + 1) target false
    (fun half => if half then second else first) file
  let file ← movBufferWrite (file.seek i) (buffer j) (bytes - (i - source))
  .ok (if file.error then -1 else 0, file)

/-! ## Reads and writes at a position -/

variable {file : ByteFile} {block : Buffer UInt8} {bytes position : Nat} {data : List UInt8}

theorem movBufferRead_eq (file : ByteFile) (position : Nat) (size : block.size = bytes) :
    ∃ filled after, movBufferRead (file.seek position) block bytes = .ok (filled, after) ∧
      after.bytes = file.bytes ∧ filled.size = bytes ∧
      (position + bytes ≤ file.bytes.length →
        filled.Holds 0 ((file.bytes.drop position).take bytes)) := by
  have fits : 0 + ((file.bytes.drop position).take bytes).length ≤ block.size := by
    rw [size, Nat.zero_add]
    exact length_take_le _ _
  have stored := Buffer.store_eq fits
  refine ⟨block.written 0 ((file.bytes.drop position).take bytes),
    { file with
      position := position + ((file.bytes.drop position).take bytes).length
      error := decide (((file.bytes.drop position).take bytes).length < bytes) }, ?_, rfl, size,
    fun _ => block.written_holds _ fits⟩
  rw [movBufferRead, if_neg (by exact Bool.false_ne_true)]
  change block.store 0 ((file.bytes.drop position).take bytes) >>= _ = _
  rw [stored, ok_bind]
  rfl

theorem movBufferWrite_eq {more : List UInt8} (holds : block.Holds 0 (data ++ more))
    (inside : position ≤ file.bytes.length) :
    ∃ after, movBufferWrite (file.seek position) block data.length = .ok after ∧
      after.error = false ∧
      after.bytes = file.bytes.take position ++ (data ++ file.bytes.drop (position + data.length)) := by
  have read := (Buffer.holds_append.mp holds).1.read_eq rfl
  have written := @ByteFile.write_of_inside (file.seek position) inside rfl data
  refine ⟨(file.seek position).write data, ?_, ?_, ?_⟩
  · rw [movBufferWrite, if_neg (by exact Bool.false_ne_true), read, ok_bind]
  · rw [written]
    rfl
  · rw [written]
    rfl

/-! ## The rounds -/

/-- What stands at the places of the region in the end, and what was there behind it. -/
def rotated (contents : List UInt8) (target source bytes : Nat) : List UInt8 :=
  contents.take target ++ ((contents.drop source).take bytes ++ contents.drop target)

section Rounds

variable {contents : List UInt8} {target source i fuel : Nat} {j : Bool}
  {buffer : Bool → Buffer UInt8}

variable (whole : source + bytes ≤ contents.length) (order : target ≤ source)

include whole order in
theorem length_rotated :
    (rotated contents target source bytes).length = contents.length + bytes := by
  simp only [rotated, length_append, length_take, length_drop]
  omega

include whole order in
theorem drop_rotated (behind : target ≤ i) :
    (rotated contents target source bytes).drop (i + bytes) = contents.drop i := by
  obtain ⟨more, rfl⟩ := Nat.exists_eq_add_of_le behind
  have place : target + more + bytes =
      (contents.take target ++ (contents.drop source).take bytes).length + more := by
    simp only [length_append, length_take, length_drop]
    omega
  rw [rotated, ← append_assoc, place, ← drop_drop, drop_left, drop_drop]

/-- The beginning of a round: everything in front of `i` is in its place, and the next block is in
the buffer. -/
structure Round (contents : List UInt8) (target source bytes i : Nat) (j : Bool)
    (buffer : Bool → Buffer UInt8) (file : ByteFile) : Prop where
  start : target ≤ i
  inside : i < source + bytes
  file : file.bytes = (rotated contents target source bytes).take i ++ contents.drop i
  next : (buffer j).Holds 0 (((rotated contents target source bytes).drop i).take bytes)
  sizes : ∀ half, (buffer half).size = bytes
  other : i + bytes ≤ contents.length → (buffer !j).Holds 0 ((contents.drop i).take bytes)

include whole order

theorem Round.write (round : Round contents target source bytes i j buffer file) {count : Nat}
    (part : count ≤ bytes) (inside : i + count ≤ contents.length) :
    ∃ after, movBufferWrite (file.seek i) (buffer j) count = .ok after ∧ after.error = false ∧
      after.bytes = (rotated contents target source bytes).take (i + count) ++
        contents.drop (i + count) := by
  have length := length_rotated whole order
  have front : ((rotated contents target source bytes).take i).length = i := by
    rw [length_take]
    omega
  have size : (((rotated contents target source bytes).drop i).take count).length = count := by
    rw [length_take, length_drop]
    omega
  have split : ((rotated contents target source bytes).drop i).take bytes =
      ((rotated contents target source bytes).drop i).take count ++
        (((rotated contents target source bytes).drop i).drop count).take (bytes - count) := by
    rw [← take_add, Nat.add_sub_cancel' part]
  have next := round.next
  rw [split] at next
  have fits : i ≤ file.bytes.length := by
    rw [round.file, length_append, front]
    exact Nat.le_add_right _ _
  obtain ⟨after, written, error, result⟩ := movBufferWrite_eq next fits
  rw [size] at written result
  refine ⟨after, written, error, ?_⟩
  have kept : (contents.drop i).drop count = contents.drop (i + count) := drop_drop
  rw [result, round.file, ← drop_drop, take_left' front, drop_left' front, kept,
    ← append_assoc, ← take_add]

theorem Round.step (round : Round contents target source bytes i j buffer file)
    (more : i < source) :
    ∃ buffer' file', moveLoop source bytes (fuel + 1) i j buffer file =
        moveLoop source bytes fuel (i + bytes) (!j) buffer' file' ∧
      Round contents target source bytes (i + bytes) (!j) buffer' file' := by
  obtain ⟨written, wrote, -, result⟩ := round.write whole order (Nat.le_refl bytes) (by omega)
  obtain ⟨filled, read, stored, same, size, holds⟩ :=
    movBufferRead_eq written (i + bytes) (round.sizes j)
  refine ⟨Function.update buffer j filled, read, ?_, ?_⟩
  · rw [moveLoop, if_pos more, wrote, ok_bind, stored, ok_bind]
  · have front : ((rotated contents target source bytes).take (i + bytes)).length = i + bytes := by
      rw [length_take, length_rotated whole order]
      omega
    have behind : written.bytes.drop (i + bytes) = contents.drop (i + bytes) := by
      rw [result, drop_left' front]
    have turned : (!j) ≠ j := by cases j <;> decide
    refine ⟨Nat.le_trans round.start (Nat.le_add_right _ _), by omega, ?_, ?_, ?_, ?_⟩
    · rw [same, result]
    · rw [Function.update_of_ne turned, drop_rotated whole order round.start]
      exact round.other (by omega)
    · intro half
      by_cases this : half = j
      · rw [this, Function.update_self, size]
      · rw [Function.update_of_ne this]
        exact round.sizes half
    · intro fits
      rw [Bool.not_not, Function.update_self, ← behind]
      apply holds
      rw [result, length_append, front, length_drop]
      omega

theorem Round.loop (round : Round contents target source bytes i j buffer file) (some : 1 ≤ bytes)
    (enough : source - i < fuel) :
    ∃ i' j' buffer' file', moveLoop source bytes fuel i j buffer file = .ok (i', j', buffer', file') ∧
      source ≤ i' ∧ Round contents target source bytes i' j' buffer' file' := by
  induction fuel generalizing i j buffer file with
  | zero => exact absurd enough (Nat.not_lt_zero _)
  | succ fuel ih =>
    by_cases more : i < source
    · obtain ⟨buffer', file', stepped, next⟩ := @Round.step _ _ _ _ _ _ fuel _ _ whole order round more
      obtain ⟨end', half, last, result, looped, ends⟩ := ih next (by omega)
      exact ⟨end', half, last, result, stepped.trans looped, ends⟩
    · exact ⟨i, j, buffer, file, if_neg more, Nat.le_of_not_lt more, round⟩

end Rounds

/-! ## The whole move -/

theorem take_rotated {contents : List UInt8} {target source : Nat}
    (whole : source + bytes ≤ contents.length) (order : target ≤ source) :
    (rotated contents target source bytes).take (source + bytes) =
      contents.take target ++ (contents.drop source).take bytes ++
        (contents.drop target).take (source - target) := by
  have front : (contents.take target ++ (contents.drop source).take bytes).length =
      target + bytes := by
    simp only [length_append, length_take, length_drop]
    omega
  have place : source + bytes =
      (contents.take target ++ (contents.drop source).take bytes).length + (source - target) := by
    omega
  rw [rotated, ← append_assoc, place, take_length_add_append]

/-- The block comes to stand in front of what was before it, and everything else stays. -/
theorem mov_writer_move_rotates (file : ByteFile) (target source bytes : Nat)
    (order : target ≤ source) (some : 1 ≤ bytes) (small : bytes < 2 ^ 31 - 1)
    (whole : source + bytes ≤ file.bytes.length) :
    ∃ after, movWriterMove file target source bytes = .ok (0, after) ∧
      after.bytes = file.bytes.take target ++ (file.bytes.drop source).take bytes ++
        (file.bytes.drop target).take (source - target) ++ file.bytes.drop (source + bytes) := by
  obtain ⟨first, file', readFirst, same, size, block⟩ :=
    movBufferRead_eq file source (Buffer.alloc_size bytes)
  obtain ⟨second, file'', readSecond, same', size', gap⟩ :=
    movBufferRead_eq file' target (Buffer.alloc_size bytes)
  rw [same] at same' gap
  have front : (file.bytes.take target).length = target := by
    rw [length_take]
    omega
  have start : Round file.bytes target source bytes target false
      (fun half => if half then second else first) file'' := by
    refine ⟨Nat.le_refl _, by omega, ?_, ?_, ?_, gap⟩
    · rw [same', rotated, take_left' front, take_append_drop]
    · have length : ((file.bytes.drop source).take bytes).length = bytes := by
        rw [length_take, length_drop]
        omega
      rw [rotated, drop_left' front, take_left' length]
      exact block whole
    · intro half
      cases half
      · exact size
      · exact size'
  obtain ⟨i, j, buffer, last, looped, ends, round⟩ :=
    start.loop whole order some (Nat.lt_succ_self _)
  have inside := round.inside
  obtain ⟨after, written, error, result⟩ :=
    round.write whole order (Nat.sub_le bytes (i - source)) (by omega)
  refine ⟨after, ?_, ?_⟩
  · rw [movWriterMove, check_eq small, ok_bind, readFirst, ok_bind]
    dsimp only
    rw [readSecond, ok_bind]
    dsimp only
    rw [looped, ok_bind]
    dsimp only
    rw [written, ok_bind, error]
    rfl
  · have place : i + (bytes - (i - source)) = source + bytes := by omega
    rw [result, place, take_rotated whole order]

/-- Two bytes of five, with a last round of one byte and a read beyond the end. -/
theorem mov_writer_move_rotates_five :
    ∃ after, movWriterMove ⟨[1, 2, 3, 4, 5], 0, false⟩ 0 3 2 = .ok (0, after) ∧
      after.bytes = [4, 5, 1, 2, 3] :=
  mov_writer_move_rotates ⟨[1, 2, 3, 4, 5], 0, false⟩ 0 3 2 (by decide) (by decide) (by decide)
    (by decide)

end CLibs.Mov
