import CLibs.BitSyntax

/-!
# The bit streams of the AAC configurations

`mpeg4_bits_t` is the bit stream of `bits.h`, but a read behind the end is only noted: later reads go
on from the same offset.  `mpeg4_bits_copy` reads from one stream what it writes to the other.
-/

namespace CLibs.Aac

open BitStrings BitStreams BitSyntax List

/-! ## The functions -/

def mpeg4BitsInit (data : List UInt8) : Bits := bitsInit data

def mpeg4BitsError (bits : Bits) : Int := bits.error

def mpeg4BitsAligment (bits : Bits) (n : Nat) : Bits :=
  { bits with bits := (bits.bits + n - 1) / n * n }

def mpeg4BitsRemain (bits : Bits) : Nat :=
  if bits.error ≠ 0 then 0 else bits.size * 8 - bits.bits

def mpeg4BitsRead (bits : Bits) : Except Fault (Int × Bits) := do
  check (0 < bits.size)
  if bits.bits ≥ bits.size * 8 then return (0, { bits with error := -1 })
  let byte ← byteAt bits.data (bits.bits / 8)
  let bit := byte &&& ((0x80 : UInt8) >>> UInt8.ofNat (bits.bits % 8))
  return (if bit ≠ 0 then 1 else 0, { bits with bits := bits.bits + 1 })

def mpeg4BitsReadN (n : Nat) (bits : Bits) : Except Fault (UInt64 × Bits) := do
  check (n > 0 ∧ n ≤ 64)
  check (0 < bits.size)
  if bits.bits + n > bits.size * 8 then return (0, { bits with error := -1 })
  let byte ← byteAt bits.data (bits.bits / 8)
  let v := (byte &&& ((0xFF : UInt8) >>> UInt8.ofNat (bits.bits % 8))).toUInt64
  if n ≤ 8 - bits.bits % 8 then
    return (v >>> UInt64.ofNat (8 - bits.bits % 8 - n), { bits with bits := bits.bits + n })
  let v ← bitsNextTail (bits.data.drop (bits.bits / 8 + 1)) (n - (8 - bits.bits % 8)) v
  return (v, { bits with bits := bits.bits + n })

def mpeg4BitsWriteN (bits : Bits) (v : UInt64) (n : Nat) : Except Fault (Bits × Int) :=
  bitsWriteN bits v n

structure Streams where
  src : Bits
  dst : Bits

abbrev Copying := StateT Streams (Except Fault)

def mpeg4BitsCopy (n : Nat) : Copying Nat := fun streams => do
  let (v, src) ← mpeg4BitsReadN n streams.src
  let (dst, _) ← mpeg4BitsWriteN streams.dst v n
  return (v.toNat, ⟨src, dst⟩)

/-! ## Reading -/

section Reading

variable {stream : Bits} {n : Nat}

theorem mpeg4BitsReadN_fits (width : 0 < n ∧ n ≤ 64) (fits : stream.bits + n ≤ 8 * stream.size) :
    ∃ value, mpeg4BitsReadN n stream = .ok (value, { stream with bits := stream.bits + n }) ∧
      value.toNat = number ((remaining stream).take n) := by
  obtain ⟨value, next, result⟩ := bitsNextN_eq width fits
  refine ⟨value, ?_, result⟩
  rw [bitsNextN, check_eq width, ok_bind, check_eq (by omega), ok_bind, if_neg (by omega)] at next
  rw [mpeg4BitsReadN, check_eq width, ok_bind, check_eq (by omega), ok_bind, if_neg (by omega)]
  cases found : byteAt stream.data (stream.bits / 8) with
  | error fault =>
    rw [found] at next
    cases next
  | ok byte =>
    rw [found, ok_bind] at next
    rw [ok_bind]
    dsimp only at next ⊢
    split at next
    case isTrue inside =>
      rw [if_pos inside]
      cases next
      rfl
    case isFalse beyond =>
      rw [if_neg beyond]
      cases walked : bitsNextTail (stream.data.drop (stream.bits / 8 + 1))
          (n - (8 - stream.bits % 8))
          (byte &&& ((0xFF : UInt8) >>> UInt8.ofNat (stream.bits % 8))).toUInt64 with
      | error fault =>
        rw [walked] at next
        cases next
      | ok result =>
        rw [walked] at next
        cases next
        rfl

theorem mpeg4BitsReadN_end (nonempty : 0 < stream.size) (width : 0 < n ∧ n ≤ 64)
    (beyond : 8 * stream.size < stream.bits + n) :
    mpeg4BitsReadN n stream = .ok (0, { stream with error := -1 }) := by
  rw [mpeg4BitsReadN, check_eq width, ok_bind, check_eq nonempty, ok_bind, if_pos (by omega)]
  rfl

theorem mpeg4BitsRead_one (nonempty : 0 < stream.size) :
    (∃ value, mpeg4BitsReadN 1 stream = .ok (value, { stream with bits := stream.bits + 1 }) ∧
        mpeg4BitsRead stream = .ok (value.toNat, { stream with bits := stream.bits + 1 })) ∨
      (mpeg4BitsReadN 1 stream = .ok (0, { stream with error := -1 }) ∧
        mpeg4BitsRead stream = .ok (0, { stream with error := -1 })) := by
  rcases Nat.lt_or_ge stream.bits (8 * stream.size) with inside | ended
  · left
    obtain ⟨value, read, result⟩ := @mpeg4BitsReadN_fits stream 1 (by decide) (by omega)
    refine ⟨value, read, ?_⟩
    cases left : remaining stream with
    | nil =>
      have none := congrArg List.length left
      rw [length_remaining, length_nil] at none
      omega
    | cons bit rest =>
      have next := bitsNext_eq left
      rw [bitsNext, check_eq nonempty, ok_bind, if_neg (by omega)] at next
      rw [mpeg4BitsRead, check_eq nonempty, ok_bind, if_neg (by omega)]
      rw [left] at result
      cases found : byteAt stream.data (stream.bits / 8) with
      | error fault =>
        rw [found] at next
        cases next
      | ok byte =>
        rw [found, ok_bind] at next
        rw [ok_bind]
        dsimp only at next ⊢
        have same := congrArg Prod.snd (Except.ok.inj next)
        dsimp only at same
        have single : number [bit] = bit.toNat := by cases bit <;> rfl
        rw [same, result]
        simp [single]
        rfl
  · right
    refine ⟨mpeg4BitsReadN_end nonempty (by decide) (by omega), ?_⟩
    rw [mpeg4BitsRead, check_eq nonempty, ok_bind, if_pos (by omega)]
    rfl

theorem field_remaining (width : 0 < n) :
    (stream.bits + n ≤ 8 * stream.size ∧ field n (remaining stream) =
        some (number ((remaining stream).take n), (remaining stream).drop n)) ∨
      (8 * stream.size < stream.bits + n ∧ field n (remaining stream) = none) := by
  have length := length_remaining stream
  rcases Nat.lt_or_ge (8 * stream.size) (stream.bits + n) with beyond | fits
  · exact .inr ⟨beyond, field_none (by omega)⟩
  · exact .inl ⟨fits, field_some (by omega)⟩

end Reading

/-! ## Writing over old contents -/

section Writing

variable {stream : Bits} {n : Nat}

theorem bitsWriteTail_total {rest : List UInt8} {v : UInt64} (room : n ≤ 8 * rest.length) :
    ∃ after, bitsWriteTail rest n v = .ok after ∧ after.length = rest.length := by
  induction rest generalizing n v with
  | nil =>
    obtain rfl : n = 0 := by simpa using room
    exact ⟨[], rfl, rfl⟩
  | cons byte rest ih =>
    rw [bitsWriteTail]
    split
    case isTrue more =>
      rw [length_cons] at room
      obtain ⟨after, returned, length⟩ := @ih (n - 8) (v <<< 8) (by omega)
      exact ⟨_ :: after, by rw [returned]; rfl, by simp [length]⟩
    case isFalse => exact ⟨byte :: rest, rfl, rfl⟩

theorem mpeg4BitsWriteN_fits (value : UInt64) (width : 0 < n ∧ n ≤ 64)
    (fits : stream.bits + n ≤ 8 * stream.size) :
    ∃ after result, mpeg4BitsWriteN stream value n = .ok (after, result) ∧
      after.size = stream.size ∧ after.bits = stream.bits + n ∧ after.error = stream.error := by
  have place : stream.bits / 8 < stream.data.length := by
    unfold Bits.size at fits
    omega
  have found : byteAt stream.data (stream.bits / 8) = .ok stream.data[stream.bits / 8] := by
    rw [byteAt, List.getElem?_eq_getElem place]
    rfl
  have room : n - (8 - stream.bits % 8) ≤
      8 * (stream.data.drop (stream.bits / 8 + 1)).length := by
    rw [length_drop]
    unfold Bits.size at fits
    omega
  obtain ⟨tail, returned, length⟩ := @bitsWriteTail_total _ _
    (value <<< UInt64.ofNat (64 - n) <<< UInt64.ofNat (8 - stream.bits % 8)) room
  rw [mpeg4BitsWriteN, bitsWriteN, check_eq width, ok_bind, check_eq (by omega), ok_bind,
    if_neg (by omega)]
  dsimp only
  rw [found, ok_bind, returned, ok_bind]
  refine ⟨_, _, rfl, ?_, rfl, rfl⟩
  simp only [Bits.size, length_append, length_cons, length, length_drop,
    length_take_of_le (Nat.le_of_lt place)]
  omega

theorem mpeg4BitsWriteN_full (nonempty : 0 < stream.size) (value : UInt64)
    (width : 0 < n ∧ n ≤ 64) (beyond : 8 * stream.size < stream.bits + n) :
    mpeg4BitsWriteN stream value n = .ok ({ stream with error := -1 }, -1) :=
  bitsWriteN_full nonempty value width beyond

end Writing

/-! ## Copying -/

structure Ready (streams : Streams) : Prop where
  src : 0 < streams.src.size
  dst : 0 < streams.dst.size

structure Copied {Value : Type} (reader : Reader Value) (streams : Streams) (value : Value)
    (after : Streams) : Prop where
  ready : Ready after
  data : after.src.data = streams.src.data
  size : after.dst.size = streams.dst.size
  sticky : streams.src.error ≠ 0 → after.src.error ≠ 0
  cut : reader (remaining streams.src) = none → after.src.error ≠ 0
  taken : ∀ expected rest, reader (remaining streams.src) = some (expected, rest) →
    value = expected ∧ after.src.error = streams.src.error ∧ ∃ used,
      remaining streams.src = used ++ rest ∧ after.src.bits = streams.src.bits + used.length ∧
      (streams.dst.bits + used.length ≤ 8 * streams.dst.size →
        after.dst.bits = streams.dst.bits + used.length) ∧
      ∀ written, Holding streams.dst.size streams.dst written →
        written.length + used.length ≤ 8 * streams.dst.size →
        Holding streams.dst.size after.dst (written ++ used)

def Copies {Value : Type} (program : Copying Value) (reader : Reader Value) : Prop :=
  ∀ streams, Ready streams → ∃ value after, program streams = .ok (value, after) ∧
    Copied reader streams value after

theorem Copied.remaining_eq {Value : Type} {reader : Reader Value} {streams after : Streams}
    {value : Value} (copied : Copied reader streams value after) {expected : Value}
    {rest : List Bool} (taken : reader (remaining streams.src) = some (expected, rest)) :
    remaining after.src = rest := by
  obtain ⟨-, -, used, split, moved, -⟩ := copied.taken expected rest taken
  have advanced := remaining_advance streams.src used.length
  rw [split, drop_left] at advanced
  rw [← advanced, remaining, remaining, copied.data, moved]

theorem copies_pure {Value : Type} (value : Value) :
    Copies (pure value : Copying Value) (pure value) := by
  intro streams ready
  refine ⟨value, streams, rfl, ready, rfl, rfl, id, nofun, fun expected rest taken => ?_⟩
  cases taken
  exact ⟨rfl, rfl, [], rfl, rfl, fun _ => rfl, fun written holding _ => by
    rw [append_nil]
    exact holding⟩

theorem Copies.bind {Value Result : Type} {first : Copying Value} {second : Reader Value}
    {next : Value → Copying Result} {after : Value → Reader Result}
    (begins : Copies first second) (goes : ∀ value, Copies (next value) (after value)) :
    Copies (first >>= next) (second >>= after) := by
  intro streams ready
  obtain ⟨value, middle, ran, copied⟩ := begins streams ready
  obtain ⟨result, last, went, later⟩ := goes value middle copied.ready
  have whole : (first >>= next) streams = .ok (result, last) := by
    change (first streams >>= fun pair => next pair.1 pair.2) = _
    rw [ran]
    exact went
  refine ⟨result, last, whole, later.ready, later.data.trans copied.data,
    later.size.trans copied.size, fun failed => later.sticky (copied.sticky failed), ?_, ?_⟩
  · intro none
    change (second (remaining streams.src)).bind (fun pair => after pair.1 pair.2) = _ at none
    cases taken : second (remaining streams.src) with
    | none => exact later.sticky (copied.cut taken)
    | some pair =>
      obtain ⟨expected, rest⟩ := pair
      rw [taken] at none
      obtain ⟨rfl, -, -⟩ := copied.taken expected rest taken
      apply later.cut
      rw [copied.remaining_eq taken]
      exact none
  · intro expected rest both
    change (second (remaining streams.src)).bind (fun pair => after pair.1 pair.2) = _ at both
    cases taken : second (remaining streams.src) with
    | none =>
      rw [taken] at both
      cases both
    | some pair =>
      obtain ⟨found, behind⟩ := pair
      rw [taken] at both
      have left := copied.remaining_eq taken
      obtain ⟨rfl, calm, used, split, moved, offset, wrote⟩ := copied.taken found behind taken
      rw [← left] at both
      obtain ⟨same, still, more, tail, advanced, further, appended⟩ :=
        later.taken expected rest both
      refine ⟨same, still.trans calm, used ++ more, ?_, ?_, ?_, ?_⟩
      · rw [split, ← left, tail, append_assoc]
      · rw [advanced, moved, length_append, Nat.add_assoc]
      · intro fits
        rw [length_append] at fits ⊢
        rw [further (by rw [offset (by omega), copied.size]; omega), offset (by omega),
          Nat.add_assoc]
      · intro written holding fits
        rw [length_append] at fits
        have held := wrote written holding (by omega)
        rw [← append_assoc, ← copied.size]
        rw [← copied.size] at held
        exact appended (written ++ used) held (by
          rw [length_append, copied.size]
          omega)

theorem copies_field {n : Nat} (width : 0 < n ∧ n ≤ 64) : Copies (mpeg4BitsCopy n) (field n) := by
  intro streams ready
  have wrote (v : UInt64) : ∃ after result, mpeg4BitsWriteN streams.dst v n = .ok (after, result) ∧
      after.size = streams.dst.size ∧
      (streams.dst.bits + n ≤ 8 * streams.dst.size → after.bits = streams.dst.bits + n) ∧
      ∀ written, Holding streams.dst.size streams.dst written →
        written.length + n ≤ 8 * streams.dst.size →
        Holding streams.dst.size after (written ++ numberBits n v.toNat) := by
    rcases Nat.lt_or_ge (8 * streams.dst.size) (streams.dst.bits + n) with beyond | fits
    · refine ⟨_, _, mpeg4BitsWriteN_full ready.dst v width beyond, rfl, fun fits => ?_, ?_⟩
      · omega
      · intro written holding fits
        have offset := holding.offset
        omega
    · obtain ⟨after, result, returned, size, moved, -⟩ := mpeg4BitsWriteN_fits v width fits
      refine ⟨after, result, returned, size, fun _ => moved, fun written holding room => ?_⟩
      obtain ⟨same, again, -, held⟩ := bitsWriteN_eq holding v width room
      rw [mpeg4BitsWriteN, again] at returned
      cases returned
      exact held
  rcases @field_remaining streams.src n width.1 with ⟨fits, found⟩ | ⟨beyond, none⟩
  · obtain ⟨v, read, value⟩ := mpeg4BitsReadN_fits width fits
    obtain ⟨after, result, returned, size, moved, held⟩ := wrote v
    have long : n ≤ (remaining streams.src).length := by
      rw [length_remaining]
      omega
    have ran : mpeg4BitsCopy n streams =
        .ok (v.toNat, ⟨{ streams.src with bits := streams.src.bits + n }, after⟩) := by
      unfold mpeg4BitsCopy
      rw [read, ok_bind]
      dsimp only
      rw [returned]
      rfl
    refine ⟨_, _, ran, ⟨ready.src, by rw [size]; exact ready.dst⟩, rfl, size, id, ?_, ?_⟩
    · intro none
      rw [found] at none
      cases none
    · intro expected rest taken
      rw [found] at taken
      cases taken
      have count := length_take_of_le long
      refine ⟨value, rfl, (remaining streams.src).take n, (take_append_drop _ _).symm, ?_⟩
      rw [count]
      refine ⟨rfl, moved, fun written holding room => ?_⟩
      have own := numberBits_number ((remaining streams.src).take n)
      rw [count, ← value] at own
      rw [← own]
      exact held written holding room
  · obtain ⟨after, result, returned, size, -, -⟩ := wrote 0
    have ran : mpeg4BitsCopy n streams = .ok (0, ⟨{ streams.src with error := -1 }, after⟩) := by
      unfold mpeg4BitsCopy
      rw [mpeg4BitsReadN_end ready.src width beyond, ok_bind]
      dsimp only
      rw [returned]
      rfl
    refine ⟨_, _, ran, ⟨ready.src, by rw [size]; exact ready.dst⟩, rfl, size, fun _ => (by decide : (-1 : Int) ≠ 0),
      fun _ => (by decide : (-1 : Int) ≠ 0), fun expected rest taken => ?_⟩
    rw [none] at taken
    cases taken

/-- `Copies` as a relation between programs and readers. -/
def copies : Relating Copying Reader where
  Rel := Copies
  pure := copies_pure
  bind := Copies.bind

end CLibs.Aac
