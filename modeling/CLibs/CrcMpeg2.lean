import CLibs.BitStrings
import CLibs.FuelledLoops
import CLibs.ShiftRegisters
import CLibs.TsRecords
import Mathlib.Tactic.IntervalCases

/-!
# The two checksums of MPEG-2

`CRC32MPEG2` of `crc.c` goes bit by bit with half of the polynomial, and counts the bytes in an
`unsigned char`.  `mpeg_crc32` of `mpeg-crc32.c` goes byte by byte with a table, and keeps the bytes
of the register in the opposite order.
-/

namespace CLibs.Crc

open BitStrings MpegTs ShiftRegisters List

/-! ## The function of `crc.c` -/

def upoly : UInt32 := 0x02608edb

/-- The body of the inner loop. -/
def crc32Mpeg2Bit (byte : UInt8) (uVal j : UInt32) : UInt32 :=
  let bit := ((byte.toUInt32 <<< j) &&& 0x80) >>> 7
  let utemp := ((uVal &&& 0x80000000) >>> 31) ^^^ bit
  let uVal := if utemp = 1 then uVal ^^^ upoly else uVal
  (uVal <<< 1) ||| utemp

/-- The inner loop. -/
def crc32Mpeg2Byte (byte : UInt8) (uVal : UInt32) : UInt32 :=
  [0, 1, 2, 3, 4, 5, 6, 7].foldl (crc32Mpeg2Bit byte) uVal

/-- The outer loop, whose counter is one byte wide. -/
def crc32Mpeg2Loop (data : List UInt8) (length : Int) :
    (fuel : Nat) → (i : UInt8) → (uVal : UInt32) → Except Fault UInt32
  | 0, _, _ => .error .fuel
  | fuel + 1, i, uVal =>
    if (i.toNat : Int) < length then do
      let byte ← data[i.toNat]?.elim (.error .outside) .ok
      crc32Mpeg2Loop data length fuel (i + 1) (crc32Mpeg2Byte byte uVal)
    else .ok uVal

def crc32Mpeg2 (data : List UInt8) (length : Int) (fuel : Nat) : Except Fault UInt32 :=
  crc32Mpeg2Loop data length fuel 0 0xffffffff

/-! ## The checksum bit by bit -/

def polynomial : BitVec 32 := 0x04C11DB7

/-- The checksum over the bits of the bytes, the highest first; nothing is added at the end. -/
def bitwiseCrc (data : List UInt8) : BitVec 32 :=
  shiftBits polynomial 0xFFFFFFFF (bits data)

def swapBytes (word : BitVec 32) : BitVec 32 :=
  word <<< 24 ||| (word <<< 8 &&& 0xff0000) ||| (word >>> 8 &&& 0xff00) ||| word >>> 24

/-! ## One byte, bit by bit -/

variable {place : Nat}

theorem pickedBit (word : BitVec 32) (inside : place < 32) :
    (word &&& BitVec.twoPow 32 place) >>> place = if word.getLsbD place then 1 else 0 := by
  rw [BitVec.and_twoPow]
  cases word.getLsbD place with
  | false => simp
  | true => interval_cases place <;> rfl

theorem messageBit (byte : UInt8) (inside : place < 8) :
    ((byte.toUInt32 <<< UInt32.ofNat place) &&& 0x80) >>> 7 =
      if byte.toNat.testBit (7 - place) then 1 else 0 := by
  apply UInt32.toBitVec_inj.mp
  have moved : (byte.toUInt32 <<< UInt32.ofNat place).toBitVec = byte.toUInt32.toBitVec <<< place := by
    interval_cases place <;> rfl
  have bit : (byte.toUInt32.toBitVec <<< place).getLsbD 7 = byte.toNat.testBit (7 - place) := by
    rw [BitVec.getLsbD_shiftLeft]
    simp [show ¬7 < place by omega, show 7 - place < 32 by omega]
    rfl
  have picked := pickedBit (byte.toUInt32.toBitVec <<< place) (show 7 < 32 by decide)
  rw [bit] at picked
  change ((byte.toUInt32 <<< UInt32.ofNat place).toBitVec &&& BitVec.twoPow 32 7) >>> 7 = _
  rw [moved, picked]
  split <;> rfl

theorem topBit (uVal : UInt32) :
    (uVal &&& 0x80000000) >>> 31 = if uVal.toBitVec.msb then 1 else 0 := by
  apply UInt32.toBitVec_inj.mp
  have top : uVal.toBitVec.msb = uVal.toBitVec.getLsbD 31 := by simp [BitVec.msb, BitVec.getMsbD]
  have picked := pickedBit uVal.toBitVec (show 31 < 32 by decide)
  rw [top]
  change (uVal.toBitVec &&& BitVec.twoPow 32 31) >>> 31 = _
  rw [picked]
  split <;> rfl

theorem half_polynomial (register half : BitVec 32) :
    (register ^^^ half) <<< 1 ||| 1 = register <<< 1 ^^^ (half <<< 1 ||| 1) := by
  ext place inside
  cases place <;> simp

theorem crc32Mpeg2Bit_eq (byte : UInt8) (uVal : UInt32) (inside : place < 8) :
    (crc32Mpeg2Bit byte uVal (UInt32.ofNat place)).toBitVec =
      shiftIn polynomial uVal.toBitVec (byte.toNat.testBit (7 - place)) := by
  have whole : polynomial = upoly.toBitVec <<< 1 ||| 1 := by decide
  have added : ((uVal ^^^ upoly) <<< 1 ||| 1).toBitVec = uVal.toBitVec <<< 1 ^^^ polynomial := by
    rw [whole]
    exact half_polynomial uVal.toBitVec upoly.toBitVec
  simp only [crc32Mpeg2Bit, messageBit byte inside, topBit, shiftIn]
  cases uVal.toBitVec.msb <;> cases byte.toNat.testBit (7 - place)
  · simp
  · simpa using added
  · simpa using added
  · simp

theorem crc32Mpeg2Byte_eq (byte : UInt8) (uVal : UInt32) :
    (crc32Mpeg2Byte byte uVal).toBitVec = shiftBits polynomial uVal.toBitVec (byteBits byte) := by
  have places : ∀ (places : List Nat) (uVal : UInt32), (∀ place ∈ places, place < 8) →
      ((places.map UInt32.ofNat).foldl (crc32Mpeg2Bit byte) uVal).toBitVec =
        shiftBits polynomial uVal.toBitVec
          (places.map fun place => byte.toNat.testBit (7 - place)) := by
    intro places
    induction places with
    | nil => intro uVal _; rfl
    | cons place places ih =>
      intro uVal inside
      rw [map_cons, foldl_cons, map_cons, shiftBits_cons,
        ih _ (forall_mem_cons.mp inside).2,
        crc32Mpeg2Bit_eq byte uVal (inside place mem_cons_self)]
  exact places (List.range 8) uVal fun place listed => mem_range.mp listed

/-! ## One byte, from the table -/

theorem getLsbD_swapBytes (word : BitVec 32) (inside : place < 32) :
    (swapBytes word).getLsbD place = word.getLsbD (place % 8 + 8 * (3 - place / 8)) := by
  interval_cases place <;> simp [swapBytes]

theorem swapBytes_xor (first second : BitVec 32) :
    swapBytes (first ^^^ second) = swapBytes first ^^^ swapBytes second := by
  apply BitVec.eq_of_getLsbD_eq
  intro place inside
  simp [getLsbD_swapBytes _ inside]

theorem swapBytes_shift (word : BitVec 32) : swapBytes (word <<< 8) = swapBytes word >>> 8 := by
  apply BitVec.eq_of_getLsbD_eq
  intro place inside
  rw [getLsbD_swapBytes _ inside, BitVec.getLsbD_ushiftRight, BitVec.getLsbD_shiftLeft]
  rcases Nat.lt_or_ge (8 + place) 32 with within | beyond
  · rw [getLsbD_swapBytes _ within]
    have later : place % 8 + 8 * (3 - place / 8) = (8 + place) % 8 + 8 * (3 - (8 + place) / 8) + 8 := by
      omega
    rw [later]
    simp
    omega
  · have lowest : place % 8 + 8 * (3 - place / 8) < 8 := by omega
    simp [lowest, BitVec.getLsbD_of_ge _ _ beyond]

theorem crc32table_entry : ∀ index < 256, (crc32table.getD index 0).toBitVec =
    swapBytes (shiftBits polynomial 0 (byteBits (UInt8.ofNat index))) := by
  have entries : crc32table.map UInt32.toBitVec = (List.range 256).map fun index =>
      swapBytes (shiftBits polynomial 0 (byteBits (UInt8.ofNat index))) := by
    decide +kernel
  intro index bound
  have entry := congrArg (·[index]?) entries
  simp only [List.getElem?_map, List.getElem?_range bound, Option.map_some] at entry
  obtain ⟨value, found, same⟩ := Option.map_eq_some_iff.mp entry
  rw [getD_eq_getElem?_getD, found]
  exact same

variable {crc : UInt32} {register : BitVec 32}

theorem index_bits (swapped : crc.toBitVec = swapBytes register) (byte : UInt8) :
    byteBits (UInt8.ofNat ((crc ^^^ byte.toUInt32) &&& 0xff).toNat) =
      List.zipWith xor (topBits register 8) (byteBits byte) := by
  have bound : ((crc ^^^ byte.toUInt32) &&& 0xff).toNat < 2 ^ 8 := by
    rw [UInt32.toNat_and]
    exact Nat.lt_succ_of_le Nat.and_le_right
  rw [byteBits, UInt8.toNat_ofNat', Nat.mod_eq_of_lt bound, topBits, byteBits,
    zipWith_map, zipWith_self]
  refine map_congr_left fun place listed => ?_
  have inside : place < 8 := mem_range.mp listed
  have position : (7 - place) % 8 + 8 * (3 - (7 - place) / 8) = 31 - place := by omega
  have mask : (255#32).getLsbD (7 - place) = true := by
    interval_cases place <;> rfl
  have swappedBit := congrArg (fun word => word.getLsbD (7 - place)) swapped
  simp only [getLsbD_swapBytes register (show 7 - place < 32 by omega), position] at swappedBit
  have low : (((crc ^^^ byte.toUInt32) &&& 0xff).toBitVec).getLsbD (7 - place) =
      (crc.toBitVec.getLsbD (7 - place) ^^ byte.toUInt32.toBitVec.getLsbD (7 - place)) := by
    change (((crc ^^^ byte.toUInt32).toBitVec &&& 255#32)).getLsbD (7 - place) = _
    rw [BitVec.getLsbD_and, mask, Bool.and_true, UInt32.toBitVec_xor, BitVec.getLsbD_xor]
  have highest : register.getMsbD place = register.getLsbD (31 - place) := by
    simp [BitVec.getMsbD, show place < 32 by omega]
  rw [highest, ← swappedBit]
  exact low

theorem tableStep_eq (swapped : crc.toBitVec = swapBytes register) (byte : UInt8) :
    (crc32table.getD ((crc ^^^ byte.toUInt32) &&& 0xff).toNat 0 ^^^ (crc >>> 8)).toBitVec =
      swapBytes (shiftBits polynomial register (byteBits byte)) := by
  have bound : ((crc ^^^ byte.toUInt32) &&& 0xff).toNat < 256 := by
    rw [UInt32.toNat_and]
    exact Nat.lt_succ_of_le Nat.and_le_right
  rw [UInt32.toBitVec_xor, crc32table_entry _ bound, index_bits swapped, shiftBits_eq_lookup register,
    swapBytes_xor, length_byteBits, swapBytes_shift, ← swapped, BitVec.xor_comm]
  rfl

/-! ## The whole message -/

theorem mpegCrc32_eq (data : List UInt8) (swapped : crc.toBitVec = swapBytes register) :
    (mpegCrc32 crc data).toBitVec = swapBytes (shiftBits polynomial register (bits data)) := by
  induction data generalizing crc register with
  | nil => exact swapped
  | cons byte data ih =>
    rw [bits_cons, shiftBits_append]
    exact ih (tableStep_eq swapped byte)

theorem mpegCrc32_own_byte (crc : UInt32) (rest : List UInt8) :
    mpegCrc32 crc (UInt8.ofNat crc.toNat :: rest) = mpegCrc32 (crc >>> 8) rest := by
  have nothing : (crc ^^^ (UInt8.ofNat crc.toNat).toUInt32) &&& 0xff = 0 := by
    apply UInt32.toBitVec_inj.mp
    apply BitVec.eq_of_getLsbD_eq
    intro place inside
    have zero : (UInt32.toBitVec 0).getLsbD place = false := by simp
    have mask : (255#32).getLsbD place = decide (place < 8) := by
      interval_cases place <;> rfl
    rw [zero]
    change ((crc.toBitVec ^^^ (UInt8.ofNat crc.toNat).toUInt32.toBitVec) &&& 255#32).getLsbD place =
      false
    rw [BitVec.getLsbD_and, mask, BitVec.getLsbD_xor]
    rcases Nat.lt_or_ge place 8 with low | high
    · have own : (UInt8.ofNat crc.toNat).toUInt32.toBitVec.getLsbD place =
          crc.toBitVec.getLsbD place := by
        change (UInt8.ofNat crc.toNat).toUInt32.toNat.testBit place = crc.toNat.testBit place
        rw [UInt8.toNat_toUInt32, UInt8.toNat_ofNat', Nat.testBit_mod_two_pow]
        simp [low]
      rw [own, Bool.xor_self, Bool.false_and]
    · simp [Nat.not_lt.mpr high]
  have first : crc32table.getD (0 : UInt32).toNat 0 = 0 := rfl
  simp only [mpegCrc32, foldl_cons, nothing, first]
  simp

theorem mpegCrc32_withCrc32 (data : List UInt8) : mpegCrc32 0xffffffff (withCrc32 data) = 0 := by
  have own (crc : UInt32) : mpegCrc32 crc [UInt8.ofNat crc.toNat, UInt8.ofNat (crc.toNat >>> 8),
      UInt8.ofNat (crc.toNat >>> 16), UInt8.ofNat (crc.toNat >>> 24)] = 0 := by
    have first : crc.toNat >>> 8 = (crc >>> 8).toNat := by simp
    have second : crc.toNat >>> 16 = (crc >>> 8 >>> 8).toNat := by
      simp [← Nat.shiftRight_add]
    have third : crc.toNat >>> 24 = (crc >>> 8 >>> 8 >>> 8).toNat := by
      simp [← Nat.shiftRight_add]
    rw [first, second, third, mpegCrc32_own_byte, mpegCrc32_own_byte, mpegCrc32_own_byte,
      mpegCrc32_own_byte]
    apply UInt32.toBitVec_inj.mp
    apply BitVec.eq_of_getLsbD_eq
    intro place inside
    simp [mpegCrc32, BitVec.getLsbD_of_ge]
  exact foldl_append.trans (own _)

theorem crc32Mpeg2Loop_returns {data : List UInt8} (short : data.length ≤ 255) :
    ∀ (left : Nat) (i : UInt8) (uVal : UInt32), i.toNat + left = data.length →
      ∃ crc, Returns (fun fuel => crc32Mpeg2Loop data data.length fuel i uVal) crc ∧
        crc.toBitVec = shiftBits polynomial uVal.toBitVec (bits (data.drop i.toNat)) := by
  intro left
  induction left with
  | zero =>
    intro i uVal here
    have beyond : data.drop i.toNat = [] := drop_eq_nil_of_le (by omega)
    refine ⟨uVal, .iterate (fun fuel => ?_) (.pure uVal), by rw [beyond]; rfl⟩
    rw [crc32Mpeg2Loop, if_neg (by omega)]
  | succ left ih =>
    intro i uVal here
    have inside : i.toNat < data.length := by omega
    have next : (i + 1).toNat = i.toNat + 1 := by
      rw [UInt8.toNat_add]
      exact Nat.mod_eq_of_lt (by simp; omega)
    obtain ⟨crc, returns, value⟩ := ih (i + 1) (crc32Mpeg2Byte data[i.toNat] uVal) (by omega)
    refine ⟨crc, .iterate (fun fuel => ?_) returns, ?_⟩
    · rw [crc32Mpeg2Loop, if_pos (by omega), List.getElem?_eq_getElem inside]
      rfl
    · rw [value, next, crc32Mpeg2Byte_eq, drop_eq_getElem_cons inside, bits_cons,
        shiftBits_append]

theorem crc32Mpeg2Loop_hangs {data : List UInt8} (long : 256 ≤ data.length) (fuel : Nat) :
    ∀ (i : UInt8) (uVal : UInt32), crc32Mpeg2Loop data data.length fuel i uVal = .error .fuel := by
  induction fuel with
  | zero => intro i uVal; rfl
  | succ fuel ih =>
    intro i uVal
    have inside : i.toNat < data.length := Nat.lt_of_lt_of_le i.toNat_lt long
    simp only [crc32Mpeg2Loop, if_pos (Int.ofNat_lt.mpr inside), List.getElem?_eq_getElem inside]
    exact ih _ _

/-- Both functions return the checksum, and a section with its checksum leaves nothing. -/
def Agree (data : List UInt8) : Prop :=
  ∃ crc, Returns (crc32Mpeg2 data data.length) crc ∧ crc.toBitVec = bitwiseCrc data ∧
    (mpegCrc32 0xffffffff data).toBitVec = swapBytes crc.toBitVec ∧
    mpegCrc32 0xffffffff (withCrc32 data) = 0

/-- The function and the standard checksum agree exactly on data of at most 255 bytes. -/
theorem crc32Mpeg2_agrees_iff (data : List UInt8) : Agree data ↔ data.length ≤ 255 := by
  constructor
  · rintro ⟨crc, ⟨enough, returns⟩, -⟩
    by_contra long
    have hangs := crc32Mpeg2Loop_hangs (Nat.lt_of_not_le long) enough 0 0xffffffff
    have returned := returns enough (Nat.le_refl enough)
    rw [crc32Mpeg2, hangs] at returned
    cases returned
  · intro short
    obtain ⟨crc, returns, value⟩ :=
      crc32Mpeg2Loop_returns short data.length 0 0xffffffff (Nat.zero_add _)
    have start : (0xffffffff : UInt32).toBitVec = swapBytes 0xffffffff := by decide
    exact ⟨crc, returns, value, by rw [value]; exact mpegCrc32_eq data start,
      mpegCrc32_withCrc32 data⟩

/-- With 256 bytes the function does not return. -/
theorem crc32Mpeg2_hangs : ¬Agree (List.replicate 256 0) := by
  rintro ⟨crc, ⟨enough, returns⟩, -⟩
  have hangs := @crc32Mpeg2Loop_hangs (List.replicate 256 0) (by rw [length_replicate]) enough 0 0xffffffff
  have returned := returns enough (Nat.le_refl enough)
  rw [crc32Mpeg2, hangs] at returned
  cases returned

/-! ## Sections received with errors -/

theorem swapBytes_swapBytes (word : BitVec 32) : swapBytes (swapBytes word) = word := by
  apply BitVec.eq_of_getLsbD_eq
  intro place inside
  rw [getLsbD_swapBytes _ inside, getLsbD_swapBytes _ (by omega)]
  congr 1
  omega

/-- A section in which up to 32 bits in a row may have changed passes its check just when they have
not. -/
theorem mpegCrc32_detects_burst {data received : List UInt8} {front first second back : List Bool}
    (sent : bits (withCrc32 data) = front ++ (first ++ back))
    (got : bits received = front ++ (second ++ back)) (short : first.length ≤ 32)
    (sameLength : first.length = second.length) :
    mpegCrc32 0xffffffff received = 0 ↔ first = second := by
  have start : (0xffffffff : UInt32).toBitVec = swapBytes 0xffffffff := by decide
  have passes : mpegCrc32 0xffffffff received = 0 ↔
      bitwiseCrc (withCrc32 data) = bitwiseCrc received := by
    rw [← mpegCrc32_withCrc32 data, ← UInt32.toBitVec_inj, mpegCrc32_eq _ start,
      mpegCrc32_eq _ start]
    exact (Function.LeftInverse.injective swapBytes_swapBytes).eq_iff.trans eq_comm
  rw [passes, bitwiseCrc, bitwiseCrc, sent, got, shiftBits_append, shiftBits_append _ front]
  have odd : polynomial.getLsbD 0 = true := by decide
  exact ⟨burst_injective odd short sameLength, fun same => by rw [same]⟩

/-- A byte and its checksum with one bit of it wrong. -/
theorem mpegCrc32_detects_burst_byte :
    mpegCrc32 0xffffffff [0, 0, 0, 0, 0xb4] = 0 ↔
      (bits (withCrc32 [0])).take 32 = List.replicate 32 false :=
  @mpegCrc32_detects_burst [0] _ [] _ _ ((bits (withCrc32 [0])).drop 32)
    (take_append_drop 32 _).symm (by decide +kernel) (by decide +kernel) (by decide +kernel)

end CLibs.Crc
