import Mathlib.Data.BitVec

/-!
# Shift registers with feedback

A cyclic redundancy check shifts a message into a register, bit by bit.  The polynomial is added
whenever the bit that leaves the register at the top differs from the bit of the message.  Shifting
is linear in register and message together, and a register that meets its own top bits is only
moved; both facts give the method that takes several bits at once from a table.
-/

namespace CLibs.ShiftRegisters

variable {width : Nat} {poly : BitVec width}

/-! ## Shifting -/

/-- What comes back into the register for the bit that leaves it. -/
def feedback (poly : BitVec width) (bit : Bool) : BitVec width := if bit then poly else 0

@[simp]
theorem feedback_false : feedback poly false = 0 := rfl

@[simp]
theorem feedback_true : feedback poly true = poly := rfl

def shiftIn (poly register : BitVec width) (bit : Bool) : BitVec width :=
  register <<< 1 ^^^ feedback poly (register.msb ^^ bit)

def shiftBits (poly register : BitVec width) (message : List Bool) : BitVec width :=
  message.foldl (shiftIn poly) register

@[simp]
theorem shiftBits_nil (register : BitVec width) : shiftBits poly register [] = register := rfl

@[simp]
theorem shiftBits_cons (register : BitVec width) (bit : Bool) (message : List Bool) :
    shiftBits poly register (bit :: message) =
      shiftBits poly (shiftIn poly register bit) message := rfl

theorem shiftBits_append (register : BitVec width) (first second : List Bool) :
    shiftBits poly register (first ++ second) =
      shiftBits poly (shiftBits poly register first) second :=
  List.foldl_append

/-! ## Linearity -/

theorem feedback_xor (bit other : Bool) :
    feedback poly (bit ^^ other) = feedback poly bit ^^^ feedback poly other := by
  cases bit <;> cases other <;> simp

theorem shiftIn_xor (register other : BitVec width) (bit otherBit : Bool) :
    shiftIn poly (register ^^^ other) (bit ^^ otherBit) =
      shiftIn poly register bit ^^^ shiftIn poly other otherBit := by
  have leaving : ((register.msb ^^ other.msb) ^^ (bit ^^ otherBit)) =
      ((register.msb ^^ bit) ^^ (other.msb ^^ otherBit)) := by
    cases register.msb <;> cases other.msb <;> cases bit <;> cases otherBit <;> rfl
  simp only [shiftIn, BitVec.msb_xor, BitVec.shiftLeft_xor_distrib]
  rw [leaving, feedback_xor]
  ac_rfl

theorem shiftBits_xor (register other : BitVec width) {message more : List Bool}
    (sameLength : message.length = more.length) :
    shiftBits poly (register ^^^ other) (List.zipWith xor message more) =
      shiftBits poly register message ^^^ shiftBits poly other more := by
  induction message generalizing register other more with
  | nil =>
    obtain rfl : more = [] := List.eq_nil_of_length_eq_zero sameLength.symm
    rfl
  | cons bit message ih =>
    cases more with
    | nil => simp at sameLength
    | cons otherBit more =>
      have shorter : message.length = more.length := by simpa using sameLength
      rw [List.zipWith_cons_cons, shiftBits_cons, shiftIn_xor, ih _ _ shorter]
      simp

/-! ## The top bits -/

def topBits (register : BitVec width) (count : Nat) : List Bool :=
  (List.range count).map register.getMsbD

@[simp]
theorem length_topBits (register : BitVec width) (count : Nat) :
    (topBits register count).length = count := by
  simp [topBits]

theorem topBits_succ (register : BitVec width) (count : Nat) :
    topBits register (count + 1) = register.msb :: topBits (register <<< 1) count := by
  simp [topBits, List.range_succ_eq_map, BitVec.msb, Function.comp_def, BitVec.getMsbD_shiftLeft]

theorem shiftBits_topBits (register : BitVec width) (count : Nat) :
    shiftBits poly register (topBits register count) = register <<< count := by
  induction count generalizing register with
  | zero => simp [topBits]
  | succ count ih =>
    have moved : shiftIn poly register register.msb = register <<< 1 := by simp [shiftIn]
    rw [topBits_succ, shiftBits_cons, moved, ih, ← BitVec.shiftLeft_add, Nat.add_comm]

theorem zipWith_xor_cancel {first second : List Bool} (sameLength : first.length = second.length) :
    List.zipWith xor first (List.zipWith xor first second) = second := by
  induction first generalizing second with
  | nil => simpa using sameLength.symm
  | cons bit first ih =>
    cases second with
    | nil => simp at sameLength
    | cons other second =>
      have shorter : first.length = second.length := by simpa using sameLength
      simp [ih shorter]

theorem shiftBits_eq_lookup (register : BitVec width) (message : List Bool) :
    shiftBits poly register message = register <<< message.length ^^^
      shiftBits poly 0 (List.zipWith xor (topBits register message.length) message) := by
  have length : (topBits register message.length).length =
      (List.zipWith xor (topBits register message.length) message).length := by
    simp
  have both := @shiftBits_xor _ poly register 0 _ _ length
  rw [zipWith_xor_cancel (length_topBits _ _), shiftBits_topBits] at both
  simpa using both

/-! ## Bursts -/

theorem getLsbD_shiftIn (odd : poly.getLsbD 0 = true) (register : BitVec width) (bit : Bool) :
    (shiftIn poly register bit).getLsbD 0 = (register.msb ^^ bit) := by
  cases leaving : (register.msb ^^ bit) <;> simp only [shiftIn, leaving] <;> simp [odd]

/-- What is fed back for a bit that differs is still in the register at the end. -/
theorem eq_topBits (odd : poly.getLsbD 0 = true) {message : List Bool} {register : BitVec width}
    (short : message.length ≤ width) (clears : shiftBits poly register message = 0) :
    message = topBits register message.length := by
  induction message generalizing register with
  | nil => rfl
  | cons bit message ih =>
    have rest := ih (Nat.le_of_succ_le short) clears
    have fed : (shiftIn poly register bit).getLsbD 0 = false := by
      rw [shiftBits_cons, rest, shiftBits_topBits] at clears
      have last := congrArg (fun word => word.getLsbD message.length) clears
      have inside : message.length < width := short
      simpa only [BitVec.getLsbD_shiftLeft, inside, Nat.sub_self, Nat.lt_irrefl, decide_true,
        decide_false, Bool.not_false, Bool.true_and] using last.trans BitVec.getLsbD_zero
    rw [getLsbD_shiftIn odd, bne_eq_false_iff_eq] at fed
    have moved : shiftIn poly register bit = register <<< 1 := by simp [shiftIn, fed]
    rw [List.length_cons, topBits_succ, fed, ← moved, ← rest]

theorem shiftBits_injective (odd : poly.getLsbD 0 = true) {register other : BitVec width}
    {message : List Bool} (same : shiftBits poly register message = shiftBits poly other message) :
    register = other := by
  induction message generalizing register other with
  | nil => exact same
  | cons bit message ih =>
    have next : shiftIn poly register bit = shiftIn poly other bit := ih same
    have top := getLsbD_shiftIn odd register bit
    rw [next, getLsbD_shiftIn odd, Bool.xor_left_inj] at top
    simp only [shiftIn, top, BitVec.xor_left_inj] at next
    refine BitVec.eq_of_getMsbD_eq fun place _ => ?_
    cases place with
    | zero => exact top.symm
    | succ place =>
      have moved := congrArg (fun word => word.getMsbD place) next
      simpa only [BitVec.getMsbD_shiftLeft, Nat.add_comm] using moved

theorem burst_injective (odd : poly.getLsbD 0 = true) {first second back : List Bool}
    {register : BitVec width} (short : first.length ≤ width)
    (sameLength : first.length = second.length)
    (same : shiftBits poly register (first ++ back) = shiftBits poly register (second ++ back)) :
    first = second := by
  have difference : ∀ other, first.length = other.length →
      shiftBits poly register first = shiftBits poly register other →
      List.zipWith xor first other = topBits (0 : BitVec width) first.length := by
    intro other length equal
    have cleared := @shiftBits_xor _ poly register register _ _ length
    rw [equal, BitVec.xor_self, BitVec.xor_self] at cleared
    have joined : (List.zipWith xor first other).length = first.length := by simp [length]
    rw [← joined]
    exact eq_topBits odd (joined.trans_le short) cleared
  rw [shiftBits_append, shiftBits_append] at same
  rw [← zipWith_xor_cancel sameLength, difference second sameLength (shiftBits_injective odd same),
    ← difference first rfl rfl, zipWith_xor_cancel rfl]

end CLibs.ShiftRegisters
