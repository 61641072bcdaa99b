import CLibs.FaultingPrograms
import Mathlib.Tactic.IntervalCases

/-!
# The CRC-32 of aligned words

`CRC32` of `crc.c` takes the bytes in front of the first aligned address one by one, then blocks of
sixteen bytes a word at a time, and the bytes behind the last block one by one.  On a machine of
either byte order this is the checksum that takes every byte by itself.
-/

namespace CLibs.Crc

open List

def rhashCrc32Table : List UInt32 :=
  [0x00000000, 0x77073096, 0xee0e612c, 0x990951ba, 0x076dc419, 0x706af48f, 0xe963a535, 0x9e6495a3,
   0x0edb8832, 0x79dcb8a4, 0xe0d5e91e, 0x97d2d988, 0x09b64c2b, 0x7eb17cbd, 0xe7b82d07, 0x90bf1d91,
   0x1db71064, 0x6ab020f2, 0xf3b97148, 0x84be41de, 0x1adad47d, 0x6ddde4eb, 0xf4d4b551, 0x83d385c7,
   0x136c9856, 0x646ba8c0, 0xfd62f97a, 0x8a65c9ec, 0x14015c4f, 0x63066cd9, 0xfa0f3d63, 0x8d080df5,
   0x3b6e20c8, 0x4c69105e, 0xd56041e4, 0xa2677172, 0x3c03e4d1, 0x4b04d447, 0xd20d85fd, 0xa50ab56b,
   0x35b5a8fa, 0x42b2986c, 0xdbbbc9d6, 0xacbcf940, 0x32d86ce3, 0x45df5c75, 0xdcd60dcf, 0xabd13d59,
   0x26d930ac, 0x51de003a, 0xc8d75180, 0xbfd06116, 0x21b4f4b5, 0x56b3c423, 0xcfba9599, 0xb8bda50f,
   0x2802b89e, 0x5f058808, 0xc60cd9b2, 0xb10be924, 0x2f6f7c87, 0x58684c11, 0xc1611dab, 0xb6662d3d,
   0x76dc4190, 0x01db7106, 0x98d220bc, 0xefd5102a, 0x71b18589, 0x06b6b51f, 0x9fbfe4a5, 0xe8b8d433,
   0x7807c9a2, 0x0f00f934, 0x9609a88e, 0xe10e9818, 0x7f6a0dbb, 0x086d3d2d, 0x91646c97, 0xe6635c01,
   0x6b6b51f4, 0x1c6c6162, 0x856530d8, 0xf262004e, 0x6c0695ed, 0x1b01a57b, 0x8208f4c1, 0xf50fc457,
   0x65b0d9c6, 0x12b7e950, 0x8bbeb8ea, 0xfcb9887c, 0x62dd1ddf, 0x15da2d49, 0x8cd37cf3, 0xfbd44c65,
   0x4db26158, 0x3ab551ce, 0xa3bc0074, 0xd4bb30e2, 0x4adfa541, 0x3dd895d7, 0xa4d1c46d, 0xd3d6f4fb,
   0x4369e96a, 0x346ed9fc, 0xad678846, 0xda60b8d0, 0x44042d73, 0x33031de5, 0xaa0a4c5f, 0xdd0d7cc9,
   0x5005713c, 0x270241aa, 0xbe0b1010, 0xc90c2086, 0x5768b525, 0x206f85b3, 0xb966d409, 0xce61e49f,
   0x5edef90e, 0x29d9c998, 0xb0d09822, 0xc7d7a8b4, 0x59b33d17, 0x2eb40d81, 0xb7bd5c3b, 0xc0ba6cad,
   0xedb88320, 0x9abfb3b6, 0x03b6e20c, 0x74b1d29a, 0xead54739, 0x9dd277af, 0x04db2615, 0x73dc1683,
   0xe3630b12, 0x94643b84, 0x0d6d6a3e, 0x7a6a5aa8, 0xe40ecf0b, 0x9309ff9d, 0x0a00ae27, 0x7d079eb1,
   0xf00f9344, 0x8708a3d2, 0x1e01f268, 0x6906c2fe, 0xf762575d, 0x806567cb, 0x196c3671, 0x6e6b06e7,
   0xfed41b76, 0x89d32be0, 0x10da7a5a, 0x67dd4acc, 0xf9b9df6f, 0x8ebeeff9, 0x17b7be43, 0x60b08ed5,
   0xd6d6a3e8, 0xa1d1937e, 0x38d8c2c4, 0x4fdff252, 0xd1bb67f1, 0xa6bc5767, 0x3fb506dd, 0x48b2364b,
   0xd80d2bda, 0xaf0a1b4c, 0x36034af6, 0x41047a60, 0xdf60efc3, 0xa867df55, 0x316e8eef, 0x4669be79,
   0xcb61b38c, 0xbc66831a, 0x256fd2a0, 0x5268e236, 0xcc0c7795, 0xbb0b4703, 0x220216b9, 0x5505262f,
   0xc5ba3bbe, 0xb2bd0b28, 0x2bb45a92, 0x5cb36a04, 0xc2d7ffa7, 0xb5d0cf31, 0x2cd99e8b, 0x5bdeae1d,
   0x9b64c2b0, 0xec63f226, 0x756aa39c, 0x026d930a, 0x9c0906a9, 0xeb0e363f, 0x72076785, 0x05005713,
   0x95bf4a82, 0xe2b87a14, 0x7bb12bae, 0x0cb61b38, 0x92d28e9b, 0xe5d5be0d, 0x7cdcefb7, 0x0bdbdf21,
   0x86d3d2d4, 0xf1d4e242, 0x68ddb3f8, 0x1fda836e, 0x81be16cd, 0xf6b9265b, 0x6fb077e1, 0x18b74777,
   0x88085ae6, 0xff0f6a70, 0x66063bca, 0x11010b5c, 0x8f659eff, 0xf862ae69, 0x616bffd3, 0x166ccf45,
   0xa00ae278, 0xd70dd2ee, 0x4e048354, 0x3903b3c2, 0xa7672661, 0xd06016f7, 0x4969474d, 0x3e6e77db,
   0xaed16a4a, 0xd9d65adc, 0x40df0b66, 0x37d83bf0, 0xa9bcae53, 0xdebb9ec5, 0x47b2cf7f, 0x30b5ffe9,
   0xbdbdf21c, 0xcabac28a, 0x53b39330, 0x24b4a3a6, 0xbad03605, 0xcdd70693, 0x54de5729, 0x23d967bf,
   0xb3667a2e, 0xc4614ab8, 0x5d681b02, 0x2a6f2b94, 0xb40bbe37, 0xc30c8ea1, 0x5a05df1b, 0x2d02ef8d]

/-! ## Words -/

inductive ByteOrder
  | little
  | big
  deriving DecidableEq, Repr

/-- Four bytes, the first one the lowest. -/
def littleWord (first second third fourth : UInt8) : UInt32 :=
  first.toUInt32 ||| (second.toUInt32 <<< 8) ||| (third.toUInt32 <<< 16) |||
    (fourth.toUInt32 <<< 24)

def machineWord (order : ByteOrder) (first second third fourth : UInt8) : UInt32 :=
  match order with
  | .little => littleWord first second third fourth
  | .big => littleWord fourth third second first

def bswap32 (x : UInt32) : UInt32 :=
  let pairs : UInt32 :=
    ((x <<< 8) &&& (0xFF00FF00 : UInt32)) ||| ((x >>> 8) &&& (0x00FF00FF : UInt32))
  (pairs >>> 16) ||| (pairs <<< 16)

def le2me32 (order : ByteOrder) (x : UInt32) : UInt32 :=
  match order with
  | .little => x
  | .big => bswap32 x

/-! ## The three loops -/

/-- A byte that has been added to the register leaves it. -/
def crc32Shift (crc : UInt32) : UInt32 :=
  rhashCrc32Table.getD (crc &&& 0xFF).toNat 0 ^^^ (crc >>> 8)

def crc32Byte (crc : UInt32) (byte : UInt8) : UInt32 :=
  rhashCrc32Table.getD ((crc ^^^ byte.toUInt32) &&& 0xFF).toNat 0 ^^^ (crc >>> 8)

def crc32Word (order : ByteOrder) (crc word : UInt32) : UInt32 :=
  crc32Shift (crc32Shift (crc32Shift (crc32Shift (crc ^^^ le2me32 order word))))

/-- A message in memory: the address of its first byte, and its bytes. -/
structure Placed where
  address : Nat
  bytes : List UInt8

def Placed.byte (message : Placed) (msg : Nat) : Except Fault UInt8 :=
  message.bytes[msg]?.elim (.error .outside) .ok

/-- A load of a word: it has to be aligned, and inside. -/
def Placed.word (message : Placed) (order : ByteOrder) (msg : Nat) : Except Fault UInt32 := do
  check ((message.address + msg) % 4 = 0)
  let first ← message.byte msg
  let second ← message.byte (msg + 1)
  let third ← message.byte (msg + 2)
  let fourth ← message.byte (msg + 3)
  .ok (machineWord order first second third fourth)

def crc32Head (message : Placed) :
    (fuel : Nat) → (msg : Nat) → (size : Int) → (crc : UInt32) → Except Fault (Nat × Int × UInt32)
  | 0, _, _, _ => .error .fuel
  | fuel + 1, msg, size, crc =>
    if (message.address + msg) % 4 ≠ 0 ∧ 0 < size then do
      let byte ← message.byte msg
      crc32Head message fuel (msg + 1) (size - 1) (crc32Byte crc byte)
    else .ok (msg, size, crc)

/-- The blocks in front of the pointer `e`. -/
def crc32Blocks (order : ByteOrder) (message : Placed) (e : Int) :
    (fuel : Nat) → (msg : Nat) → (crc : UInt32) → Except Fault (Nat × UInt32)
  | 0, _, _ => .error .fuel
  | fuel + 1, msg, crc =>
    if msg < e then do
      let crc := crc32Word order crc (← message.word order msg)
      let crc := crc32Word order crc (← message.word order (msg + 4))
      let crc := crc32Word order crc (← message.word order (msg + 8))
      let crc := crc32Word order crc (← message.word order (msg + 12))
      crc32Blocks order message e fuel (msg + 16) crc
    else .ok (msg, crc)

/-- The message tail in front of the pointer `e`. -/
def crc32Tail (message : Placed) (e : Int) :
    (fuel : Nat) → (msg : Nat) → (crc : UInt32) → Except Fault UInt32
  | 0, _, _ => .error .fuel
  | fuel + 1, msg, crc =>
    if msg < e then do
      let byte ← message.byte msg
      crc32Tail message e fuel (msg + 1) (crc32Byte crc byte)
    else .ok crc

/-- `CRC32`; `size & ~15` and `size & 15` are the multiple of sixteen and the rest. -/
def crc32 (order : ByteOrder) (crcinit : UInt32) (message : Placed) (size : Int) :
    Except Fault UInt32 := do
  let (msg, size, crc) ← crc32Head message 4 0 size (crcinit ^^^ 0xFFFFFFFF)
  let (msg, crc) ← crc32Blocks order message (msg + size / 16 * 16) (size.toNat + 1) msg crc
  let crc ← crc32Tail message (msg + size % 16) 16 msg crc
  .ok (crc ^^^ 0xFFFFFFFF)

/-- The checksum that takes every byte by itself. -/
def bytewiseCrc32 (crcinit : UInt32) (bytes : List UInt8) : UInt32 :=
  bytes.foldl crc32Byte (crcinit ^^^ 0xFFFFFFFF) ^^^ 0xFFFFFFFF

/-! ## A word is four bytes -/

section Words

variable (first second third fourth : UInt8) (order : ByteOrder) (crc : UInt32)

theorem bswap32_littleWord :
    bswap32 (littleWord first second third fourth) = littleWord fourth third second first := by
  apply UInt32.toBitVec_inj.mp
  ext place inside
  simp only [bswap32, littleWord]
  interval_cases place <;> simp

theorem le2me32_machineWord :
    le2me32 order (machineWord order first second third fourth) =
      littleWord first second third fourth := by
  cases order with
  | little => rfl
  | big => exact bswap32_littleWord fourth third second first

theorem littleWord_low :
    (crc ^^^ littleWord first second third fourth) &&& 0xFF = (crc ^^^ first.toUInt32) &&& 0xFF := by
  apply UInt32.toBitVec_inj.mp
  ext place inside
  simp only [littleWord]
  interval_cases place <;> simp

theorem littleWord_high :
    (crc ^^^ littleWord first second third fourth) >>> 8 =
      (crc >>> 8) ^^^ littleWord second third fourth 0 := by
  apply UInt32.toBitVec_inj.mp
  ext place inside
  simp only [littleWord]
  interval_cases place <;> simp

theorem crc32Shift_littleWord :
    crc32Shift (crc ^^^ littleWord first second third fourth) =
      crc32Byte crc first ^^^ littleWord second third fourth 0 := by
  rw [crc32Shift, littleWord_low, littleWord_high, crc32Byte, UInt32.xor_assoc]

theorem crc32Word_eq :
    crc32Word order crc (machineWord order first second third fourth) =
      [first, second, third, fourth].foldl crc32Byte crc := by
  have none : littleWord 0 0 0 0 = 0 := rfl
  rw [crc32Word, le2me32_machineWord, crc32Shift_littleWord, crc32Shift_littleWord,
    crc32Shift_littleWord, crc32Shift_littleWord, none, UInt32.xor_zero]
  rfl

end Words

/-! ## The loops -/

variable {order : ByteOrder} {message : Placed} {msg fuel : Nat} {crc : UInt32}
  {rest : List UInt8}

theorem Placed.byte_eq {byte : UInt8} (here : message.bytes.drop msg = byte :: rest) :
    message.byte msg = .ok byte := by
  have found : message.bytes[msg]? = some byte := by
    rw [← Nat.add_zero msg, ← List.getElem?_drop, here]
    rfl
  rw [Placed.byte, found]
  rfl

theorem drop_next {byte : UInt8} (here : message.bytes.drop msg = byte :: rest) :
    message.bytes.drop (msg + 1) = rest := by
  rw [← drop_drop, here]
  rfl

theorem crc32Head_eq (here : message.bytes.drop msg = rest)
    (enough : 5 ≤ (message.address + msg) % 4 + fuel ∨ (message.address + msg) % 4 = 0 ∧ 0 < fuel) :
    ∃ head tail, rest = head ++ tail ∧
      (tail = [] ∨ (message.address + (msg + head.length)) % 4 = 0) ∧
      crc32Head message fuel msg rest.length crc =
        .ok (msg + head.length, tail.length, head.foldl crc32Byte crc) := by
  induction rest generalizing msg fuel crc with
  | nil =>
    obtain ⟨fuel, rfl⟩ : ∃ less, fuel = less + 1 := ⟨fuel - 1, by omega⟩
    exact ⟨[], [], rfl, .inl rfl, if_neg fun both => Int.lt_irrefl 0 both.2⟩
  | cons byte rest ih =>
    obtain ⟨fuel, rfl⟩ : ∃ less, fuel = less + 1 := ⟨fuel - 1, by omega⟩
    by_cases aligned : (message.address + msg) % 4 = 0
    · exact ⟨[], byte :: rest, rfl, .inr aligned, if_neg fun both => both.1 aligned⟩
    · obtain ⟨head, tail, rfl, ends, loops⟩ := @ih (msg + 1) fuel (crc32Byte crc byte)
        (drop_next here) (by omega)
      refine ⟨byte :: head, tail, rfl, ?_, ?_⟩
      · rwa [length_cons, Nat.add_comm head.length, ← Nat.add_assoc msg]
      · have positive : (0 : Int) < (byte :: (head ++ tail)).length := by
          rw [length_cons]
          omega
        have size : ((byte :: (head ++ tail)).length : Int) - 1 = (head ++ tail).length := by
          rw [length_cons]
          omega
        rw [crc32Head, if_pos ⟨aligned, positive⟩, message.byte_eq here, ok_bind, size, loops,
          length_cons, Nat.add_comm head.length, Nat.add_assoc]
        rfl

theorem Placed.word_eq {first second third fourth : UInt8}
    (here : message.bytes.drop msg = first :: second :: third :: fourth :: rest)
    (aligned : (message.address + msg) % 4 = 0) :
    message.word order msg = .ok (machineWord order first second third fourth) := by
  have behindFirst := drop_next here
  have behindSecond := drop_next behindFirst
  have behindThird := drop_next behindSecond
  rw [Placed.word, check_eq aligned, ok_bind, message.byte_eq here, ok_bind,
    message.byte_eq behindFirst, ok_bind, message.byte_eq behindSecond, ok_bind,
    message.byte_eq behindThird, ok_bind]

variable {bytes : List UInt8}

theorem word_step (four : bytes.length = 4)
    (here : message.bytes.drop msg = bytes ++ rest) (aligned : (message.address + msg) % 4 = 0) :
    ∃ word, message.word order msg = .ok word ∧
      crc32Word order crc word = bytes.foldl crc32Byte crc ∧
      message.bytes.drop (msg + 4) = rest ∧ (message.address + (msg + 4)) % 4 = 0 := by
  match bytes, four with
  | [first, second, third, fourth], _ =>
    refine ⟨_, Placed.word_eq here aligned, crc32Word_eq first second third fourth order crc, ?_,
      by omega⟩
    rw [← drop_drop, here]
    rfl

theorem front_split {count : Nat} (enough : count ≤ bytes.length) :
    ∃ front others, bytes = front ++ others ∧ front.length = count :=
  ⟨bytes.take count, bytes.drop count, (take_append_drop count bytes).symm,
    length_take_of_le enough⟩

theorem block_step (sixteen : bytes.length = 16)
    (here : message.bytes.drop msg = bytes ++ rest) (aligned : (message.address + msg) % 4 = 0)
    {e : Int} (before : msg < e) :
    crc32Blocks order message e (fuel + 1) msg crc =
      crc32Blocks order message e fuel (msg + 16) (bytes.foldl crc32Byte crc) := by
  obtain ⟨first, bytes, rfl, firstFour⟩ := @front_split bytes 4 (by omega)
  rw [length_append] at sixteen
  obtain ⟨second, bytes, rfl, secondFour⟩ := @front_split bytes 4 (by omega)
  rw [length_append] at sixteen
  obtain ⟨third, fourth, rfl, thirdFour⟩ := @front_split bytes 4 (by omega)
  rw [length_append] at sixteen
  simp only [append_assoc] at here
  obtain ⟨word, load, step, here, aligned⟩ := @word_step order message msg crc _ _ firstFour here
    aligned
  obtain ⟨secondWord, secondLoad, secondStep, here, aligned⟩ := @word_step order message _
    (first.foldl crc32Byte crc) _ _ secondFour here aligned
  obtain ⟨thirdWord, thirdLoad, thirdStep, here, aligned⟩ := @word_step order message _
    (second.foldl crc32Byte (first.foldl crc32Byte crc)) _ _ thirdFour here aligned
  obtain ⟨fourthWord, fourthLoad, fourthStep, -, -⟩ := @word_step order message _
    (third.foldl crc32Byte (second.foldl crc32Byte (first.foldl crc32Byte crc))) rest fourth
    (by omega) here aligned
  rw [crc32Blocks, if_pos before, load, ok_bind, step]
  dsimp only
  rw [secondLoad, ok_bind, secondStep, thirdLoad, ok_bind, thirdStep, fourthLoad, ok_bind,
    fourthStep, foldl_append, foldl_append, foldl_append]

theorem crc32Blocks_eq (blocks : Nat) (size : bytes.length = 16 * blocks)
    (here : message.bytes.drop msg = bytes ++ rest)
    (aligned : blocks = 0 ∨ (message.address + msg) % 4 = 0) (enough : blocks < fuel) :
    crc32Blocks order message ((msg : Int) + (16 * blocks : Nat)) fuel msg crc =
      .ok (msg + 16 * blocks, bytes.foldl crc32Byte crc) := by
  induction blocks generalizing bytes msg fuel crc with
  | zero =>
    obtain ⟨fuel, rfl⟩ := Nat.exists_eq_succ_of_ne_zero (Nat.ne_of_gt enough)
    obtain rfl := eq_nil_of_length_eq_zero size
    rw [crc32Blocks, if_neg (by omega)]
    rfl
  | succ blocks ih =>
    obtain ⟨fuel, rfl⟩ := Nat.exists_eq_succ_of_ne_zero (Nat.ne_of_gt (Nat.zero_lt_of_lt enough))
    have aligned := aligned.resolve_left (Nat.succ_ne_zero blocks)
    obtain ⟨block, bytes, rfl, sixteen⟩ := @front_split bytes 16 (by omega)
    rw [length_append] at size
    rw [append_assoc] at here
    have behind : message.bytes.drop (msg + 16) = bytes ++ rest := by
      rw [← drop_drop, here, ← sixteen, drop_left]
    have further := @ih (msg + 16) fuel (block.foldl crc32Byte crc) bytes (by omega) behind
      (.inr (by omega)) (Nat.lt_of_succ_lt_succ enough)
    have pointer : ((msg : Int) + (16 * (blocks + 1) : Nat)) =
        ((msg + 16 : Nat) : Int) + (16 * blocks : Nat) := by
      omega
    rw [block_step sixteen here aligned (by omega), pointer, further, foldl_append,
      Nat.mul_succ, Nat.add_assoc, Nat.add_comm 16]

theorem crc32Tail_eq (here : message.bytes.drop msg = rest) (enough : rest.length < fuel) :
    crc32Tail message ((msg : Int) + rest.length) fuel msg crc = .ok (rest.foldl crc32Byte crc) := by
  induction rest generalizing msg fuel crc with
  | nil =>
    obtain ⟨fuel, rfl⟩ := Nat.exists_eq_succ_of_ne_zero (Nat.ne_of_gt enough)
    rw [crc32Tail, if_neg (by simp)]
    rfl
  | cons byte rest ih =>
    obtain ⟨fuel, rfl⟩ := Nat.exists_eq_succ_of_ne_zero (Nat.ne_of_gt (Nat.zero_lt_of_lt enough))
    have further := @ih (msg + 1) fuel (crc32Byte crc byte) (drop_next here)
      (Nat.lt_of_succ_lt_succ enough)
    have pointer : (msg : Int) + (byte :: rest).length = ((msg + 1 : Nat) : Int) + rest.length := by
      rw [length_cons]
      omega
    have before : (msg : Int) < msg + (byte :: rest).length := by
      rw [length_cons]
      omega
    rw [crc32Tail, if_pos before, message.byte_eq here, ok_bind, pointer, further]
    rfl

/-! ## The whole message -/

theorem crc32_eq (order : ByteOrder) (crcinit : UInt32) (message : Placed) :
    crc32 order crcinit message message.bytes.length =
      .ok (bytewiseCrc32 crcinit message.bytes) := by
  obtain ⟨head, tail, split, ends, headLoop⟩ := @crc32Head_eq message 0 4
    (crcinit ^^^ 0xFFFFFFFF) message.bytes rfl (by omega)
  have behindHead : message.bytes.drop (0 + head.length) = tail := by
    rw [split, Nat.zero_add, drop_left]
  obtain ⟨blocks, rest, rfl, length⟩ :=
    @front_split tail (16 * (tail.length / 16)) (Nat.mul_div_le _ _)
  have few : rest.length = (blocks ++ rest).length % 16 := by
    rw [length_append] at length ⊢
    omega
  have blockLoop := @crc32Blocks_eq order message (0 + head.length)
    ((blocks ++ rest).length + 1) (head.foldl crc32Byte (crcinit ^^^ 0xFFFFFFFF)) rest blocks
    ((blocks ++ rest).length / 16) length behindHead
    (ends.imp (fun none => by rw [none]; rfl) id) (by omega)
  have behindBlocks : message.bytes.drop (0 + head.length + 16 * ((blocks ++ rest).length / 16)) =
      rest := by
    rw [← drop_drop, behindHead, ← length, drop_left]
  have tailLoop := @crc32Tail_eq message _ 16
    (blocks.foldl crc32Byte (head.foldl crc32Byte (crcinit ^^^ 0xFFFFFFFF))) rest behindBlocks
    (by omega)
  have e : ((0 + head.length : Nat) : Int) + ((blocks ++ rest).length : Int) / 16 * 16 =
      ((0 + head.length : Nat) : Int) + (16 * ((blocks ++ rest).length / 16) : Nat) := by
    omega
  have tailEnd : ((0 + head.length + 16 * ((blocks ++ rest).length / 16) : Nat) : Int) +
      ((blocks ++ rest).length : Int) % 16 =
      ((0 + head.length + 16 * ((blocks ++ rest).length / 16) : Nat) : Int) + rest.length := by
    omega
  rw [crc32, headLoop, ok_bind]
  dsimp only
  rw [e, Int.toNat_natCast, blockLoop, ok_bind]
  dsimp only
  rw [tailEnd, tailLoop, ok_bind, bytewiseCrc32, split, foldl_append, foldl_append]

/-- On a machine of either byte order and at every address `CRC32` is the checksum of the bytes one
by one, and the checksum of a message in two parts is that of the whole. -/
theorem crc32_bytewise (order : ByteOrder) (crcinit : UInt32) :
    (∀ message : Placed, crc32 order crcinit message message.bytes.length =
      .ok (bytewiseCrc32 crcinit message.bytes)) ∧
    ∀ (first second : Placed) (address : Nat),
      (crc32 order crcinit first first.bytes.length >>= fun crc =>
        crc32 order crc second second.bytes.length) =
      crc32 order crcinit ⟨address, first.bytes ++ second.bytes⟩
        (first.bytes ++ second.bytes).length := by
  refine ⟨crc32_eq order crcinit, fun first second address => ?_⟩
  have cancel : ∀ crc : UInt32, crc ^^^ 0xFFFFFFFF ^^^ 0xFFFFFFFF = crc := by
    intro crc
    rw [UInt32.xor_assoc, UInt32.xor_self, UInt32.xor_zero]
  have whole := crc32_eq order crcinit ⟨address, first.bytes ++ second.bytes⟩
  dsimp only at whole
  rw [crc32_eq, ok_bind, crc32_eq, whole, bytewiseCrc32, bytewiseCrc32, bytewiseCrc32, cancel,
    foldl_append]

end CLibs.Crc
