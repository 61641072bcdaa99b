import CLibs.BitStreams

/-!
# Reading Exp-Golomb codes

`bits_read_ue` counts zeros until it reads a one.  At the end of the buffer `bits_read` gives zeros
for ever, so the loop ends only if a one is left, and the rest of the function bears at most thirty
zeros in front of it.
-/

namespace CLibs.BitStreams

open BitStrings List

variable {stream : Bits} {leading fuel : Nat} {rest : List Bool}

/-! ## Counting zeros -/

theorem leadingZeros_done (fuel : Nat) (stream : Bits) (count : Int) :
    leadingZeros fuel stream 1 count = .ok (stream, count) := by
  unfold leadingZeros
  rw [if_neg (by decide)]

theorem leadingZeros_turn (fuel : Nat) (stream : Bits) (count : Int) :
    leadingZeros (fuel + 1) stream 0 count = (do
      let (stream, bit) ← bitsRead stream
      check (bit = 0 ∨ bit = 1)
      let count ← intAdd count 1
      leadingZeros fuel stream bit count) := by
  rw [leadingZeros]
  rw [if_pos (by decide)]

theorem leadingZeros_eq (sound : stream.error = 0) {count : Int}
    (next : remaining stream = List.replicate leading false ++ true :: rest)
    (low : -2 ^ 31 ≤ count) (high : count + leading + 1 < 2 ^ 31) (enough : leading < fuel) :
    leadingZeros fuel stream 0 count =
      .ok ({ stream with bits := stream.bits + (leading + 1) }, count + leading + 1) := by
  obtain ⟨fuel, rfl⟩ : ∃ less, fuel = less + 1 := ⟨fuel - 1, by omega⟩
  induction leading generalizing stream count fuel with
  | zero =>
    rw [leadingZeros_turn, bitsRead_eq sound next, ok_bind]
    dsimp only
    rw [check_eq (by decide), ok_bind, intAdd, if_pos (by omega), ok_bind]
    simp [leadingZeros_done]
  | succ leading ih =>
    obtain ⟨fuel, rfl⟩ : ∃ less, fuel = less + 1 := ⟨fuel - 1, by omega⟩
    have first : remaining stream = false :: (List.replicate leading false ++ true :: rest) := next
    have later := @ih { stream with bits := stream.bits + 1 } sound (count + 1)
      (remaining_next first) (by omega) (by push_cast at high; omega) fuel (by omega)
    rw [leadingZeros_turn, bitsRead_eq sound first, ok_bind]
    dsimp only
    rw [check_eq (by decide), ok_bind, intAdd, if_pos (by omega), ok_bind]
    simp only [Bool.toNat_false, Nat.cast_zero]
    rw [later]
    simp only [Nat.add_assoc, Nat.add_comm 1]
    push_cast
    ring_nf

theorem bitsRead_zero (nonempty : 0 < stream.size) (zeros : ∀ bit ∈ remaining stream, bit = false) :
    ∃ after, bitsRead stream = .ok (after, 0) ∧ after.size = stream.size ∧
      ∀ bit ∈ remaining after, bit = false := by
  cases next : remaining stream with
  | nil => exact ⟨_, bitsRead_end nonempty next, rfl, zeros⟩
  | cons bit rest =>
    rw [next] at zeros
    obtain rfl := zeros bit mem_cons_self
    by_cases sound : stream.error = 0
    · refine ⟨_, bitsRead_eq sound next, rfl, fun bit listed => ?_⟩
      rw [remaining_next next] at listed
      exact zeros bit (mem_cons_of_mem _ listed)
    · refine ⟨stream, ?_, rfl, by rw [next]; exact zeros⟩
      rw [bitsRead, bitsNext_eq next, ok_bind]
      dsimp only
      rw [if_neg sound]
      rfl

theorem leadingZeros_hangs (nonempty : 0 < stream.size)
    (zeros : ∀ bit ∈ remaining stream, bit = false) (count : Int) :
    ∃ fault, leadingZeros fuel stream 0 count = .error fault := by
  induction fuel generalizing stream count with
  | zero => exact ⟨.fuel, by unfold leadingZeros; rw [if_pos (by decide)]⟩
  | succ fuel ih =>
    obtain ⟨after, returned, size, zeros⟩ := bitsRead_zero nonempty zeros
    rw [leadingZeros_turn, returned, ok_bind]
    dsimp only
    rw [check_eq (by decide), ok_bind, intAdd]
    split
    · rw [ok_bind]
      exact ih (by omega) zeros (count + 1)
    · exact ⟨.outside, rfl⟩

theorem leadingZeros_overflows (sound : stream.error = 0) {count : Int}
    (next : remaining stream = List.replicate leading false ++ true :: rest)
    (bound : count < 2 ^ 31) (many : 2 ^ 31 ≤ count + leading + 1) :
    ∃ fault, leadingZeros fuel stream 0 count = .error fault := by
  induction leading generalizing stream count fuel with
  | zero =>
    cases fuel with
    | zero => exact ⟨.fuel, by unfold leadingZeros; rw [if_pos (by decide)]⟩
    | succ fuel =>
      rw [leadingZeros_turn, bitsRead_eq sound next, ok_bind]
      dsimp only
      rw [check_eq (by decide), ok_bind, intAdd, if_neg (by omega)]
      exact ⟨.outside, rfl⟩
  | succ leading ih =>
    cases fuel with
    | zero => exact ⟨.fuel, by unfold leadingZeros; rw [if_pos (by decide)]⟩
    | succ fuel =>
      have first : remaining stream = false :: (List.replicate leading false ++ true :: rest) :=
        next
      rw [leadingZeros_turn, bitsRead_eq sound first, ok_bind]
      dsimp only
      rw [check_eq (by decide), ok_bind, intAdd]
      split
      case isTrue inside =>
        rw [ok_bind]
        exact @ih { stream with bits := stream.bits + 1 } fuel sound (count + 1)
          (remaining_next first) inside.2 (by push_cast at many; omega)
      case isFalse => exact ⟨.outside, rfl⟩

/-! ## The codes -/

/-- At most thirty zeros and a one stand in front. -/
structure Opened (stream : Bits) (leading : Nat) (rest : List Bool) : Prop where
  sound : stream.error = 0
  next : remaining stream = List.replicate leading false ++ true :: rest
  small : leading ≤ 30

theorem Opened.leadingZeros_eq (opened : Opened stream leading rest) (enough : leading < fuel) :
    leadingZeros fuel stream 0 (-1) =
      .ok ({ stream with bits := stream.bits + (leading + 1) }, leading) := by
  have small := opened.small
  rw [BitStreams.leadingZeros_eq opened.sound opened.next (by omega) (by omega) enough]
  congr 2
  omega

theorem Opened.remaining_eq (opened : Opened stream leading rest) :
    remaining { stream with bits := stream.bits + (leading + 1) } = rest := by
  have length : leading + 1 = (List.replicate leading false ++ [true]).length := by simp
  have split : List.replicate leading false ++ true :: rest =
      (List.replicate leading false ++ [true]) ++ rest := by simp
  rw [remaining_advance, opened.next, split, length, drop_left]

theorem Opened.length_rest (opened : Opened stream leading rest) :
    8 * stream.size = stream.bits + (leading + 1) + rest.length := by
  have length := congrArg List.length opened.next
  rw [length_remaining] at length
  simp at length
  omega

theorem intShift_eq (opened : Opened stream leading rest) :
    intShift leading = .ok (2 ^ leading) := by
  have small := opened.small
  rw [intShift, if_pos (by omega), Int.toNat_natCast]

theorem two_pow_le (opened : Opened stream leading rest) : (2 : Int) ^ leading ≤ 2 ^ 30 :=
  pow_le_pow_right₀ (by decide) opened.small

theorem ue_value {value : Nat} (opened : Opened stream leading rest) (after : Bits)
    (small : value < 2 ^ leading) :
    (do
      let shifted ← intShift leading
      let value ← intAdd (shifted - 1) value
      return (after, value)) = Except.ok (ε := Fault) (after, 2 ^ leading - 1 + (value : Int)) := by
  have high := two_pow_le opened
  have low : (value : Int) < 2 ^ leading := by exact_mod_cast small
  rw [intShift_eq opened, ok_bind, intAdd, if_pos (by omega), ok_bind]
  rfl

theorem int_of_word {value : UInt64} {width : Nat} (small : value.toNat < 2 ^ width)
    (inside : width ≤ 30) : Int.bmod value.toNat (2 ^ 32) = value.toNat := by
  have power : 2 ^ width ≤ 2 ^ 30 := Nat.pow_le_pow_right (by decide) inside
  have bound : value.toNat < 2 ^ 30 := lt_of_lt_of_le small power
  exact Int.bmod_eq_of_le (by omega) (by omega)

theorem bitsReadUe_code {suffix tail : List Bool} (opened : Opened stream leading (suffix ++ tail))
    (length : suffix.length = leading) (enough : leading < fuel) :
    bitsReadUe fuel stream = .ok ({ stream with bits := stream.bits + (2 * leading + 1) },
      2 ^ leading - 1 + (number suffix : Int)) := by
  have bound := opened.small
  have small := number_lt suffix
  rw [length] at small
  rw [bitsReadUe, opened.leadingZeros_eq enough, ok_bind]
  dsimp only
  rcases Nat.eq_zero_or_pos leading with rfl | positive
  · obtain rfl := eq_nil_of_length_eq_zero length
    have value := ue_value opened { stream with bits := stream.bits + 1 }
      (show 0 < 2 ^ 0 by decide)
    rw [if_neg (by decide)]
    simpa using value
  · have size := opened.length_rest
    rw [length_append, length] at size
    obtain ⟨value, returned, result⟩ := @bitsReadN_eq
      { stream with bits := stream.bits + (leading + 1) } leading opened.sound ⟨positive, by omega⟩
      (show stream.bits + (leading + 1) + leading ≤ 8 * stream.size by omega)
    rw [opened.remaining_eq, take_left' length] at result
    rw [if_pos (by omega), check_eq (by omega), ok_bind, Int.toNat_natCast, returned, ok_bind]
    dsimp only
    rw [int_of_word (by rw [result]; exact small) bound, result]
    have place : stream.bits + (leading + 1) + leading = stream.bits + (2 * leading + 1) := by omega
    rw [place]
    exact ue_value opened _ small

theorem bitsReadUe_cut (opened : Opened stream leading rest) (short : rest.length < leading)
    (enough : leading < fuel) :
    bitsReadUe fuel stream = .ok ({ stream with bits := stream.bits + (leading + 1), error := -1 },
      2 ^ leading - 1) := by
  have bound := opened.small
  have size := opened.length_rest
  have returned := @bitsReadN_end { stream with bits := stream.bits + (leading + 1) } leading
    (show 0 < stream.size by omega) ⟨by omega, by omega⟩
    (show 8 * stream.size < stream.bits + (leading + 1) + leading by omega)
  rw [bitsReadUe, opened.leadingZeros_eq enough, ok_bind]
  dsimp only
  rw [if_pos (by omega), check_eq (by omega), ok_bind, Int.toNat_natCast, returned, ok_bind]
  have zero : Int.bmod (UInt64.toNat 0) (2 ^ 32) = ((0 : Nat) : Int) := by decide
  have value := ue_value opened { stream with bits := stream.bits + (leading + 1), error := -1 }
    (show 0 < 2 ^ leading by positivity)
  dsimp only
  rw [zero]
  simpa using value

theorem zeros_or_one (sequence : List Bool) :
    (∀ bit ∈ sequence, bit = false) ∨
      ∃ leading rest, sequence = List.replicate leading false ++ true :: rest := by
  induction sequence with
  | nil => exact .inl (by simp)
  | cons bit sequence ih =>
    cases bit with
    | true => exact .inr ⟨0, sequence, rfl⟩
    | false =>
      rcases ih with zeros | ⟨leading, rest, split⟩
      · exact .inl (by simpa using zeros)
      · exact .inr ⟨leading + 1, rest, by rw [split]; rfl⟩

theorem first_one_unique {other : Nat} {more : List Bool}
    (same : List.replicate leading false ++ true :: rest = List.replicate other false ++ true :: more) :
    leading = other ∧ rest = more := by
  induction leading generalizing other with
  | zero =>
    cases other with
    | zero => simpa using same
    | succ other => simp [replicate_succ] at same
  | succ leading ih =>
    cases other with
    | zero => simp [replicate_succ] at same
    | succ other =>
      obtain ⟨zeros, tails⟩ := ih (by simpa [replicate_succ] using same)
      exact ⟨congrArg (· + 1) zeros, tails⟩

theorem bitsReadUe_faults (sound : stream.error = 0)
    (next : remaining stream = List.replicate leading false ++ true :: rest) (many : 31 ≤ leading)
    (enough : leading < fuel) : ∃ fault, bitsReadUe fuel stream = .error fault := by
  rcases Nat.lt_or_ge leading (2 ^ 31) with small | large
  · have count : (-1 : Int) + leading + 1 = leading := by omega
    rw [bitsReadUe, BitStreams.leadingZeros_eq sound next (by omega) (by omega) enough, ok_bind]
    dsimp only
    rw [count, if_pos (by omega)]
    by_cases last : (leading : Int) < 32
    · -- with 31 zeros the shift fails, whatever has been read
      rw [check_eq last, ok_bind, Int.toNat_natCast]
      have nonempty : 0 < stream.size := by
        have length := congrArg List.length next
        rw [length_remaining] at length
        simp at length
        omega
      obtain ⟨after, value, returned⟩ := @bitsReadN_returns
        { stream with bits := stream.bits + (leading + 1) } leading sound nonempty
        ⟨by omega, by omega⟩
      have shift : intShift leading = .error .outside := if_neg (by omega)
      rw [returned, ok_bind]
      dsimp only
      rw [shift]
      exact ⟨.outside, rfl⟩
    · exact ⟨.assertion, by rw [check_error last]; rfl⟩
  · obtain ⟨fault, failed⟩ := @leadingZeros_overflows stream leading fuel rest sound (-1) next
      (by omega) (by omega)
    exact ⟨fault, by rw [bitsReadUe, failed]; rfl⟩

/-! ## Signed codes -/

theorem bitsReadSe_eq {after : Bits} {value : Nat}
    (returned : bitsReadUe fuel stream = .ok (after, value)) (small : value + 1 < 2 ^ 31) :
    bitsReadSe fuel stream = .ok (after, (-1) ^ (value + 1) * ((value + 1) / 2 : Nat)) := by
  have next : intAdd value 1 = .ok ((value + 1 : Nat) : Int) := by
    rw [intAdd, if_pos (by omega)]
    rfl
  have half : Int.tdiv ((value + 1 : Nat) : Int) 2 = ((value + 1) / 2 : Nat) := rfl
  have parity : Int.tmod (value : Int) 2 = (value % 2 : Nat) := rfl
  rw [bitsReadSe, returned, ok_bind]
  dsimp only
  rw [next, ok_bind, half, parity]
  rcases Nat.even_or_odd value with even | odd
  · rw [if_pos (by rw [Nat.even_iff.mp even]; rfl), Odd.neg_one_pow even.add_one]
    rfl
  · rw [if_neg (by rw [Nat.odd_iff.mp odd]; decide), Even.neg_one_pow odd.add_one]
    rfl

/-! ## Every buffer and every offset -/

/-- What is expected of a read: it takes at most the bits that are left, it gives the value of a
complete code with at most thirty zeros in front and goes behind it, and it notes an error where no
complete code stands. -/
def ReadsUe (stream : Bits) : Prop :=
  ∃ after value, (∀ fuel ≥ (remaining stream).length, bitsReadUe fuel stream = .ok (after, value)) ∧
    after.bits ≤ stream.bits + (remaining stream).length ∧
    (∀ leading suffix tail, leading ≤ 30 → suffix.length = leading →
      remaining stream = List.replicate leading false ++ true :: (suffix ++ tail) →
      value = 2 ^ leading - 1 + (number suffix : Int) ∧
        after = { stream with bits := stream.bits + (2 * leading + 1) } ∧
        ∀ fuel ≥ (remaining stream).length, bitsReadSe fuel stream =
          .ok (after, (-1) ^ (value.toNat + 1) * ((value.toNat + 1) / 2 : Nat))) ∧
    ((¬∃ leading suffix tail, suffix.length = leading ∧
        remaining stream = List.replicate leading false ++ true :: (suffix ++ tail)) →
      after.error ≠ 0)

theorem one_in_front_iff {sequence : List Bool} :
    true ∈ sequence.take 31 ↔
      ∃ leading rest, leading ≤ 30 ∧ sequence = List.replicate leading false ++ true :: rest := by
  constructor
  · intro listed
    rcases zeros_or_one sequence with zeros | ⟨leading, rest, split⟩
    · exact absurd (zeros true (mem_of_mem_take listed)) (by decide)
    · refine ⟨leading, rest, ?_, split⟩
      by_contra many
      rw [split, take_append_of_le_length (by simp; omega), take_replicate,
        mem_replicate] at listed
      exact absurd listed.2 (by decide)
  · rintro ⟨leading, rest, small, rfl⟩
    have split : List.replicate leading false ++ true :: rest =
        (List.replicate leading false ++ [true]) ++ rest := by simp
    rw [split, take_append]
    refine mem_append_left _ ?_
    rw [take_of_length_le (by simp; omega)]
    simp

theorem Opened.reads (opened : Opened stream leading rest) : ReadsUe stream := by
  have small := opened.small
  have length : (remaining stream).length = leading + 1 + rest.length := by
    rw [opened.next]
    simp
    omega
  rcases Nat.lt_or_ge rest.length leading with short | long
  · refine ⟨_, _, fun fuel enough => bitsReadUe_cut opened short (by omega), ?_, ?_, ?_⟩
    · dsimp only
      omega
    · intro other suffix tail _ width next
      obtain ⟨rfl, rfl⟩ := first_one_unique (opened.next.symm.trans next)
      rw [length_append] at short
      omega
    · intro _
      exact (by decide : (-1 : Int) ≠ 0)
  · have width : (rest.take leading).length = leading := length_take_of_le long
    have complete : Opened stream leading (rest.take leading ++ rest.drop leading) := by
      rw [take_append_drop]
      exact opened
    have value (fuel : Nat) (enough : (remaining stream).length ≤ fuel) :=
      @bitsReadUe_code stream leading fuel _ _ complete width (by omega)
    refine ⟨_, _, value, ?_, ?_, ?_⟩
    · dsimp only
      omega
    · intro other suffix tail _ otherWidth next
      obtain ⟨rfl, rfl⟩ := first_one_unique (opened.next.symm.trans next)
      rw [take_left' otherWidth] at value ⊢
      have bound := number_lt suffix
      rw [otherWidth] at bound
      have power : 2 ^ leading ≤ 2 ^ 30 := Nat.pow_le_pow_right (by decide) small
      have natural : (2 : Int) ^ leading - 1 + (number suffix : Int) =
          ((2 ^ leading - 1 + number suffix : Nat) : Int) := by
        rw [Nat.cast_add, Nat.cast_sub Nat.one_le_two_pow]
        push_cast
        ring
      refine ⟨rfl, rfl, fun fuel enough => ?_⟩
      rw [natural, Int.toNat_natCast]
      exact bitsReadSe_eq ((value fuel enough).trans (by rw [natural])) (by omega)
    · intro none
      exact absurd ⟨leading, _, _, width, complete.next⟩ none

theorem not_reads_of_zeros (nonempty : 0 < stream.size)
    (zeros : ∀ bit ∈ remaining stream, bit = false) : ¬ReadsUe stream := by
  rintro ⟨after, value, returns, -⟩
  have returned := returns _ (Nat.le_refl _)
  obtain ⟨fault, failed⟩ := @leadingZeros_hangs stream (remaining stream).length nonempty zeros (-1)
  rw [bitsReadUe, failed] at returned
  cases returned

theorem not_reads_of_many (sound : stream.error = 0)
    (next : remaining stream = List.replicate leading false ++ true :: rest) (many : 31 ≤ leading) :
    ¬ReadsUe stream := by
  rintro ⟨after, value, returns, -⟩
  have returned := returns _ (Nat.le_refl _)
  have length := congrArg List.length next
  simp at length
  obtain ⟨fault, failed⟩ := @bitsReadUe_faults stream leading (remaining stream).length rest sound
    next many (by omega)
  rw [failed] at returned
  cases returned

/-- A read is right if and only if one of the next 31 bits is set. -/
theorem bitsReadUe_iff {data : List UInt8} (nonempty : data ≠ []) (offset : Nat) :
    ReadsUe ⟨data, offset, 0⟩ ↔ true ∈ (remaining ⟨data, offset, 0⟩).take 31 := by
  rw [one_in_front_iff]
  constructor
  · intro reads
    have size : 0 < Bits.size ⟨data, offset, 0⟩ := length_pos_of_ne_nil nonempty
    rcases zeros_or_one (remaining ⟨data, offset, 0⟩) with zeros | ⟨leading, rest, next⟩
    · exact absurd reads (not_reads_of_zeros size zeros)
    · refine ⟨leading, rest, ?_, next⟩
      by_contra many
      exact not_reads_of_many rfl next (by omega) reads
  · rintro ⟨leading, rest, small, next⟩
    exact Opened.reads ⟨rfl, next, small⟩

/-- The three bits `010` are the code of one. -/
theorem bitsReadUe_iff_one :
    ReadsUe ⟨[0xA6], 1, 0⟩ ↔ true ∈ (remaining ⟨[0xA6], 1, 0⟩).take 31 :=
  bitsReadUe_iff (by decide) 1

/-- In a buffer of zeros the read does not return. -/
theorem bitsReadUe_hangs : ¬ReadsUe ⟨[0], 0, 0⟩ :=
  not_reads_of_zeros (by decide) (by decide)

end CLibs.BitStreams
