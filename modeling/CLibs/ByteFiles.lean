import Mathlib.Algebra.Group.Int.Defs
import Mathlib.Algebra.GroupWithZero.Nat
import Mathlib.Data.List.Basic

/-!
# Seekable files of bytes

A file is its bytes, a position and the error of the last call.  Numbers are
written and read big-endian.  A write at the end appends, a write before it
replaces; a read of what stands ahead returns it and leaves what stands behind.
-/

namespace CLibs

open List

/-! ## Big-endian numbers -/

/-- The low bytes of a number, the most significant first. -/
def bigEndian : Nat → Nat → List UInt8
  | 0, _ => []
  | width + 1, value => bigEndian width (value / 256) ++ [UInt8.ofNat value]

def bigValue (bytes : List UInt8) : Nat :=
  bytes.foldl (fun value byte => value * 256 + byte.toNat) 0

@[simp]
theorem bigEndian_length (width value : Nat) : (bigEndian width value).length = width := by
  induction width generalizing value with
  | zero => rfl
  | succ width ih => rw [bigEndian, length_append, ih, length_singleton]

theorem bigValue_bigEndian (width value : Nat) :
    bigValue (bigEndian width value) = value % 256 ^ width := by
  induction width generalizing value with
  | zero => simp [bigEndian, bigValue, Nat.mod_one]
  | succ width ih =>
    have byte : (UInt8.ofNat value).toNat = value % 256 := by simp
    have split := ih (value / 256)
    unfold bigValue at split ⊢
    rw [bigEndian, foldl_append, split, foldl_cons, foldl_nil, byte,
      Nat.pow_succ, Nat.mul_comm (256 ^ width) 256, Nat.mod_mul]
    omega

theorem bigValue_of_lt {width value : Nat} (bound : value < 256 ^ width) :
    bigValue (bigEndian width value) = value := by
  rw [bigValue_bigEndian, Nat.mod_eq_of_lt bound]

theorem bigEndian_add (high low value : Nat) :
    bigEndian (high + low) value = bigEndian high (value / 256 ^ low) ++ bigEndian low value := by
  induction low generalizing value with
  | zero => simp [bigEndian]
  | succ low ih =>
    rw [Nat.add_succ, bigEndian, ih, bigEndian, append_assoc, Nat.div_div_eq_div_mul,
      Nat.pow_succ, Nat.mul_comm 256]

theorem bigEndian_mod (width value : Nat) :
    bigEndian width (value % 256 ^ width) = bigEndian width value := by
  induction width generalizing value with
  | zero => rfl
  | succ width ih =>
    have quotient : value % 256 ^ (width + 1) / 256 = value / 256 % 256 ^ width := by
      rw [Nat.pow_succ, Nat.mul_comm, Nat.mod_mul_right_div_self]
    have remainder : UInt8.ofNat (value % 256 ^ (width + 1)) = UInt8.ofNat value := by
      apply UInt8.toNat_inj.mp
      simp only [UInt8.toNat_ofNat']
      exact Nat.mod_mod_of_dvd value (Nat.dvd_mul_left 256 (256 ^ width))
    rw [bigEndian, quotient, remainder, ih, bigEndian]

theorem foldl_bigValue (bytes : List UInt8) (high : Nat) :
    bytes.foldl (fun value byte => value * 256 + byte.toNat) high =
      high * 256 ^ bytes.length + bigValue bytes := by
  induction bytes generalizing high with
  | nil => simp [bigValue]
  | cons byte bytes ih =>
    unfold bigValue
    rw [foldl_cons, foldl_cons, ih, ih (0 * 256 + byte.toNat), length_cons,
      Nat.pow_succ]
    simp only [Nat.add_mul, Nat.zero_mul, Nat.zero_add, Nat.mul_assoc, Nat.mul_comm 256]
    omega

theorem bigValue_append (first second : List UInt8) :
    bigValue (first ++ second) = bigValue first * 256 ^ second.length + bigValue second := by
  unfold bigValue
  rw [foldl_append]
  exact foldl_bigValue second _

theorem bigValue_lt (bytes : List UInt8) : bigValue bytes < 256 ^ bytes.length := by
  induction bytes with
  | nil => decide
  | cons byte bytes ih =>
    have small := byte.toNat_lt
    have split := foldl_bigValue bytes byte.toNat
    have value : bigValue (byte :: bytes) = byte.toNat * 256 ^ bytes.length + bigValue bytes := by
      rw [← split]
      simp [bigValue]
    rw [value, length_cons, Nat.pow_succ, Nat.mul_comm _ 256]
    calc
      byte.toNat * 256 ^ bytes.length + bigValue bytes
          < byte.toNat * 256 ^ bytes.length + 256 ^ bytes.length := Nat.add_lt_add_left ih _
      _ = (byte.toNat + 1) * 256 ^ bytes.length := (Nat.succ_mul _ _).symm
      _ ≤ 256 * 256 ^ bytes.length := Nat.mul_le_mul_right _ small

/-! ## Files -/

/-- A file in memory, with the position in it and the error that sticks. -/
structure ByteFile where
  bytes : List UInt8
  position : Nat
  error : Bool
  deriving DecidableEq

namespace ByteFile

open List

/-- A write replaces what stands ahead; a gap before the position is filled with zeros. -/
def write (file : ByteFile) (data : List UInt8) : ByteFile :=
  if file.error then file
  else
    { file with
      bytes := file.bytes.take file.position ++
        (List.replicate (file.position - file.bytes.length) 0 ++
          (data ++ file.bytes.drop (file.position + data.length)))
      position := file.position + data.length }

/-- A read that finds too few bytes fails; a failed file reads nothing. -/
def read (file : ByteFile) (size : Nat) : Option (List UInt8) × ByteFile :=
  if file.error then (none, file)
  else if file.position + size ≤ file.bytes.length then
    (some ((file.bytes.drop file.position).take size), { file with position := file.position + size })
  else (none, { file with error := true })

/-- The file with another position. -/
def seek (file : ByteFile) (position : Nat) : ByteFile :=
  { file with position := position, error := false }

/-! ### Writing at the end -/

/-- Everything has been written without an error. -/
structure AtEnd (file : ByteFile) : Prop where
  position : file.position = file.bytes.length
  error : file.error = false

theorem AtEnd.inside {file : ByteFile} (atEnd : file.AtEnd) :
    file.position ≤ file.bytes.length :=
  Nat.le_of_eq atEnd.position

def append (file : ByteFile) (data : List UInt8) : ByteFile :=
  { file with bytes := file.bytes ++ data, position := (file.bytes ++ data).length }

variable {file : ByteFile} {data more : List UInt8}

theorem AtEnd.write_eq (atEnd : file.AtEnd) : file.write data = file.append data := by
  unfold write append
  rw [if_neg (by simp [atEnd.error]), atEnd.position, take_length, Nat.sub_self,
    drop_of_length_le (Nat.le_add_right _ _), List.append_nil, length_append]
  rfl

theorem AtEnd.append (atEnd : file.AtEnd) : (file.append data).AtEnd where
  position := rfl
  error := atEnd.error

@[simp]
theorem append_append : (file.append data).append more = file.append (data ++ more) := by
  simp only [ByteFile.append, append_assoc]

theorem append_nil (atEnd : file.AtEnd) : file.append [] = file := by
  have same := atEnd.position
  unfold ByteFile.append
  rw [List.append_nil, ← same]

theorem write_back {before old behind : List UInt8} (bytes : file.bytes = before ++ (old ++ behind))
    (position : file.position = before.length) (error : file.error = false)
    (length : data.length = old.length) :
    file.write data =
      { file with
        bytes := before ++ (data ++ behind)
        position := before.length + data.length } := by
  unfold write
  have gap : before.length - (before ++ (old ++ behind)).length = 0 := by
    rw [length_append]
    omega
  rw [if_neg (by simp [error]), bytes, position, gap, take_left, length,
    ← drop_drop, drop_left, drop_left]
  rfl

theorem fill_seek {before old behind : List UInt8} (length : data.length = old.length)
    (position : Nat) :
    (((file.append (before ++ (old ++ behind))).seek
        (file.bytes.length + before.length)).write data).seek position =
      (file.append (before ++ (data ++ behind))).seek position := by
  have bytes : ((file.append (before ++ (old ++ behind))).seek
      (file.bytes.length + before.length)).bytes = (file.bytes ++ before) ++ (old ++ behind) :=
    (append_assoc _ _ _).symm
  have place : ((file.append (before ++ (old ++ behind))).seek
      (file.bytes.length + before.length)).position = (file.bytes ++ before).length :=
    length_append.symm
  rw [write_back bytes place rfl length, append_assoc]
  rfl

theorem write_of_inside (inside : file.position ≤ file.bytes.length) (error : file.error = false)
    (data : List UInt8) :
    file.write data =
      { file with
        bytes := file.bytes.take file.position ++
          (data ++ file.bytes.drop (file.position + data.length))
        position := file.position + data.length } := by
  unfold write
  rw [if_neg (by simp [error]), Nat.sub_eq_zero_of_le inside]
  rfl

theorem write_inside (inside : file.position ≤ file.bytes.length) :
    (file.write data).position ≤ (file.write data).bytes.length := by
  unfold write
  split
  · exact inside
  · simp only [length_append, length_take, length_drop, length_replicate]
    omega

theorem write_nil (inside : file.position ≤ file.bytes.length) : file.write [] = file := by
  unfold write
  split
  · rfl
  · rw [Nat.sub_eq_zero_of_le inside, length_nil, Nat.add_zero, replicate_zero,
      nil_append, nil_append, take_append_drop]

theorem write_write (inside : file.position ≤ file.bytes.length) :
    (file.write data).write more = file.write (data ++ more) := by
  cases error : file.error with
  | true =>
    have kept (data : List UInt8) : file.write data = file := by
      unfold write
      rw [if_pos error]
    rw [kept, kept, kept]
  | false =>
    have written := write_of_inside inside error
    have length : (file.bytes.take file.position ++ data).length =
        file.position + data.length := by
      rw [length_append, length_take]
      omega
    have again := write_of_inside (write_inside inside) (by rw [written data, error]) more
    rw [again, written (data ++ more), written data]
    dsimp only
    rw [← append_assoc (file.bytes.take file.position) data, ← length, take_left,
      drop_append, drop_of_length_le (Nat.le_add_right _ _), Nat.add_sub_cancel_left, drop_drop,
      length, length_append]
    simp only [nil_append, append_assoc, Nat.add_assoc]

/-! ### Reading what stands ahead -/

structure Ahead (file : ByteFile) (text : List UInt8) : Prop where
  inside : file.position ≤ file.bytes.length
  text : file.bytes.drop file.position = text
  error : file.error = false

def skip (file : ByteFile) (size : Nat) : ByteFile :=
  { file with position := file.position + size }

theorem skip_skip (file : ByteFile) (size more : Nat) :
    (file.skip size).skip more = file.skip (size + more) := by
  unfold ByteFile.skip
  rw [← Nat.add_assoc]

theorem Ahead.read_eq (ahead : file.Ahead (data ++ more)) :
    file.read data.length = (some data, file.skip data.length) := by
  have inside := ahead.inside
  have fits : file.position + data.length ≤ file.bytes.length := by
    have length := congrArg List.length ahead.text
    rw [length_drop, length_append] at length
    omega
  unfold read
  rw [if_neg (by simp [ahead.error]), if_pos fits, ahead.text, take_left]
  rfl

theorem Ahead.skip (ahead : file.Ahead (data ++ more)) : (file.skip data.length).Ahead more where
  inside := by
    have inside := ahead.inside
    have length := congrArg List.length ahead.text
    rw [length_drop, length_append] at length
    change file.position + data.length ≤ file.bytes.length
    omega
  text := by
    change file.bytes.drop (file.position + data.length) = more
    rw [← drop_drop, ahead.text, drop_left]
  error := ahead.error

theorem append_seek_end (atEnd : file.AtEnd) :
    (file.append data).seek (file.append data).position = file.append data := by
  unfold seek ByteFile.append
  rw [atEnd.error]

theorem seek_append (file : ByteFile) (data : List UInt8) :
    ((file.append data).seek file.bytes.length).Ahead data where
  inside := by
    change file.bytes.length ≤ (file.bytes ++ data).length
    rw [length_append]
    exact Nat.le_add_right _ _
  text := drop_left
  error := rfl

/-- A reader that returns the number in the next bytes. -/
def ReadsBig (width : Nat) (reader : ByteFile → Nat × ByteFile) : Prop :=
  ∀ file data more, data.length = width → Ahead file (data ++ more) →
    reader file = (bigValue data, file.skip width)

def readBoth (low : Nat) (first second : ByteFile → Nat × ByteFile) (file : ByteFile) :
    Nat × ByteFile :=
  let high := first file
  let rest := second high.2
  (high.1 * 256 ^ low + rest.1, rest.2)

theorem ReadsBig.both {high low : Nat} {first second : ByteFile → Nat × ByteFile}
    (reads : ReadsBig high first) (readsLow : ReadsBig low second) :
    ReadsBig (high + low) (readBoth low first second) := by
  intro file data more length ahead
  have split : data = data.take high ++ data.drop high := (take_append_drop high data).symm
  have highLength : (data.take high).length = high := by
    rw [length_take]
    omega
  have lowLength : (data.drop high).length = low := by
    rw [length_drop]
    omega
  rw [split, append_assoc] at ahead
  have behind := ahead.skip
  rw [highLength] at behind
  unfold readBoth
  rw [reads file _ _ highLength ahead]
  dsimp only
  rw [readsLow _ _ _ lowLength behind, split, bigValue_append, lowLength, take_append_drop]
  unfold ByteFile.skip
  dsimp only
  rw [Nat.add_assoc]

theorem ReadsBig.bigEndian {width value : Nat} {reader : ByteFile → Nat × ByteFile}
    (reads : ReadsBig width reader) (bound : value < 256 ^ width)
    (ahead : file.Ahead (bigEndian width value ++ more)) :
    reader file = (value, file.skip width) ∧ (file.skip width).Ahead more := by
  constructor
  · rw [reads file _ more (bigEndian_length width value) ahead, bigValue_of_lt bound]
  · have behind := ahead.skip
    rwa [bigEndian_length] at behind

end ByteFile

end CLibs
