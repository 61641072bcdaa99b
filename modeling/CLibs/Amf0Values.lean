import CLibs.Amf0
import Mathlib.Algebra.Group.Int.Defs
import Mathlib.Algebra.GroupWithZero.Nat
import Mathlib.Data.List.GetD

/-!
# The values of AMF0

The reader has no answer to a marker that it does not know, and writes the time zone of every date,
described or not.  Where values end is the grammar of AMF0; whether the walk comes to such a value
is told along it.  Scalars are read as the grammar says, into their slots.
-/

namespace CLibs.Amf

open List

/-! ## The grammar -/

section Grammar

variable (bytes : List UInt8)

def u16At (place : Nat) : Nat :=
  (bytes.getD place 0).toNat * 256 + (bytes.getD (place + 1) 0).toNat

def u32At (place : Nat) : Nat := u16At bytes place * 65536 + u16At bytes (place + 2)

/-- The values of so many bytes. -/
def fixedSizes : List (UInt8 × Nat) :=
  [(amfNumber, 8), (amfBoolean, 1), (amfNull, 0), (amfUndefined, 0), (amfDate, 10)]

structure MemberAt (place : Nat) (name : List UInt8) (type : UInt8) (next : Nat) : Prop where
  named : 0 < u16At bytes place
  fits : place + 2 + u16At bytes place + 1 ≤ bytes.length
  nameText : name = (bytes.drop (place + 2)).take (u16At bytes place)
  marker : type = bytes.getD (place + 2 + u16At bytes place) 0
  next : next = place + 2 + u16At bytes place + 1

/-- The members of an object end here: with an empty name, or with a single byte. -/
def ClosesAt (place next : Nat) : Prop :=
  ∃ mark, (place + 2 ≤ bytes.length ∧ u16At bytes place = 0 ∧ mark = place + 2 ∨
      bytes.length < place + 2 ∧ mark = place) ∧
    mark < bytes.length ∧ bytes.getD mark 0 = amfObjectEnd ∧ next = mark + 1

mutual

/-- A complete value of this type, from its place to the next. -/
inductive Value : UInt8 → Nat → Nat → Prop
  | fixed {type : UInt8} {size place : Nat} (listed : (type, size) ∈ fixedSizes)
      (fits : place + size ≤ bytes.length) : Value type place (place + size)
  | string {place : Nat} (fits : place + 2 + u16At bytes place ≤ bytes.length) :
      Value amfString place (place + 2 + u16At bytes place)
  | longString {place : Nat} (fits : place + 4 + u32At bytes place ≤ bytes.length) :
      Value amfLongString place (place + 4 + u32At bytes place)
  | object {place next : Nat} (members : Members place next) : Value amfObject place next
  | ecmaArray {place next : Nat} (fits : place + 4 ≤ bytes.length)
      (members : Members (place + 4) next) : Value amfEcmaArray place next
  | strictArray {place next : Nat} (fits : place + 4 ≤ bytes.length)
      (elements : Elements (u32At bytes place) (place + 4) next) : Value amfStrictArray place next

/-- The members of an object, and its end. -/
inductive Members : Nat → Nat → Prop
  | nil {place next : Nat} (closes : ClosesAt bytes place next) : Members place next
  | cons {place next middle last : Nat} {name : List UInt8} {type : UInt8}
      (member : MemberAt bytes place name type next) (value : Value type next middle)
      (members : Members middle last) : Members place last

/-- So many elements of an array, or those up to the end of the input. -/
inductive Elements : Nat → Nat → Nat → Prop
  | nil {count place : Nat} (ended : count = 0 ∨ bytes.length ≤ place) : Elements count place place
  | cons {count place middle last : Nat} (inside : place < bytes.length)
      (value : Value (bytes.getD place 0) (place + 1) middle)
      (elements : Elements count middle last) : Elements (count + 1) place last

end

/-- The types that `amf_read_item` knows. -/
def knownTypes : List UInt8 :=
  [amfBoolean, amfNumber, amfString, amfLongString, amfDate, amfObject, amfNull, amfUndefined,
    amfEcmaArray, amfStrictArray]

mutual

/-- The reader meets something in the value that it gets wrong. -/
inductive MeetsValue : UInt8 → Option AmfItem → Nat → Prop
  | unknown {type : UInt8} {item : Option AmfItem} {place : Nat} (unknown : type ∉ knownTypes) :
      MeetsValue type item place
  | date {item : Option AmfItem} {place : Nat} (number : place + 8 ≤ bytes.length)
      (slotless : valueOf item = none) : MeetsValue amfDate item place
  | object {item : Option AmfItem} {place : Nat} (members : MeetsMembers (itemsOf item) place) :
      MeetsValue amfObject item place
  | ecmaArray {item : Option AmfItem} {place : Nat} (fits : place + 4 ≤ bytes.length)
      (members : MeetsMembers (itemsOf item) (place + 4)) : MeetsValue amfEcmaArray item place
  | strictArray {item : Option AmfItem} {place : Nat} (fits : place + 4 ≤ bytes.length)
      (elements : MeetsElements (itemsOf item) (u32At bytes place) (place + 4)) :
      MeetsValue amfStrictArray item place

inductive MeetsMembers : List AmfItem → Nat → Prop
  | here {items : List AmfItem} {place next : Nat} {name : List UInt8} {type : UInt8}
      (member : MemberAt bytes place name type next)
      (value : MeetsValue type (describing items name type) next) : MeetsMembers items place
  | later {items : List AmfItem} {place next middle : Nat} {name : List UInt8} {type : UInt8}
      (member : MemberAt bytes place name type next) (value : Value bytes type next middle)
      (members : MeetsMembers items middle) : MeetsMembers items place

inductive MeetsElements : List AmfItem → Nat → Nat → Prop
  | here {items : List AmfItem} {count place : Nat} (inside : place < bytes.length)
      (value : MeetsValue (bytes.getD place 0) (items.head?.filter fun item =>
        amfReadItemTypeCheck (bytes.getD place 0) item.type) (place + 1)) :
      MeetsElements items (count + 1) place
  | later {items : List AmfItem} {count place middle : Nat} (inside : place < bytes.length)
      (value : Value bytes (bytes.getD place 0) (place + 1) middle)
      (elements : MeetsElements items.tail count middle) : MeetsElements items (count + 1) place

end

/-- The walk through described values comes to such a value. -/
inductive MeetsItems : List AmfItem → Nat → Prop
  | here {item : AmfItem} {items : List AmfItem} {place : Nat} (inside : place < bytes.length)
      (same : amfReadItemTypeCheck (bytes.getD place 0) item.type = true)
      (value : MeetsValue bytes (bytes.getD place 0) (some item) (place + 1)) :
      MeetsItems (item :: items) place
  | later {item : AmfItem} {items : List AmfItem} {place middle : Nat}
      (inside : place < bytes.length)
      (same : amfReadItemTypeCheck (bytes.getD place 0) item.type = true)
      (value : Value bytes (bytes.getD place 0) (place + 1) middle)
      (rest : MeetsItems items middle) : MeetsItems (item :: items) place

end Grammar

/-! ## Slots -/

def slotSize (type : UInt8) (size : Nat) : Nat :=
  if type = amfNumber then 8
  else if type = amfBoolean then 1
  else if type = amfDate then 10
  else if type = amfString ∨ type = amfLongString then size
  else 0

inductive Owns : AmfItem → Nat → Prop
  | slot {type : { type : UInt8 // type ∉ groupTypes }} {name : List UInt8} {value size place : Nat}
      (inside : value ≤ place ∧ place < value + slotSize type size) :
      Owns (.slot type name (some value) size) place
  | group {type : { type : UInt8 // type ∈ groupTypes }} {name : List UInt8} {items : List AmfItem}
      {item : AmfItem} {place : Nat} (listed : item ∈ items) (owns : Owns item place) :
      Owns (.group type name items) place

/-- Only slots of these items have changed. -/
def Frame (items : List AmfItem) (before after : Memory) : Prop :=
  ∀ place, (∀ item ∈ items, ¬Owns item place) → after place = before place

theorem Frame.refl (items : List AmfItem) (memory : Memory) : Frame items memory memory :=
  fun _ _ => rfl

theorem Frame.trans {items : List AmfItem} {first second third : Memory}
    (one : Frame items first second) (two : Frame items second third) : Frame items first third :=
  fun place free => (two place free).trans (one place free)

theorem Frame.mono {few many : List AmfItem} {before after : Memory} (frame : Frame few before after)
    (listed : ∀ item ∈ few, item ∈ many) : Frame many before after :=
  fun place free => frame place fun item found => free item (listed item found)

theorem Frame.group {item : Option AmfItem} {before after : Memory}
    (frame : Frame (itemsOf item) before after) : Frame item.toList before after := by
  intro place free
  refine frame place fun inner listed owns => ?_
  cases item with
  | none => cases listed
  | some item =>
    cases item with
    | slot => cases listed
    | group type name items => exact free (.group type name items) (by simp) (.group listed owns)

theorem write_other {memory : Memory} {address place : Nat} {bytes : List UInt8}
    (outside : ¬(address ≤ place ∧ place < address + bytes.length)) :
    memory.write address bytes place = memory place := if_neg outside

/-! ## Inversion -/

section Inversion

variable {bytes : List UInt8} {type : UInt8} {item : Option AmfItem} {place next : Nat}

theorem value_iff : Value bytes type place next ↔
    (∃ size, (type, size) ∈ fixedSizes ∧ place + size ≤ bytes.length ∧ next = place + size) ∨
    (type = amfString ∧ place + 2 + u16At bytes place ≤ bytes.length ∧
      next = place + 2 + u16At bytes place) ∨
    (type = amfLongString ∧ place + 4 + u32At bytes place ≤ bytes.length ∧
      next = place + 4 + u32At bytes place) ∨
    (type = amfObject ∧ Members bytes place next) ∨
    (type = amfEcmaArray ∧ place + 4 ≤ bytes.length ∧ Members bytes (place + 4) next) ∨
    (type = amfStrictArray ∧ place + 4 ≤ bytes.length ∧
      Elements bytes (u32At bytes place) (place + 4) next) := by
  constructor
  · intro value
    cases value with
    | fixed listed fits => exact .inl ⟨_, listed, fits, rfl⟩
    | string fits => exact .inr (.inl ⟨rfl, fits, rfl⟩)
    | longString fits => exact .inr (.inr (.inl ⟨rfl, fits, rfl⟩))
    | object members => exact .inr (.inr (.inr (.inl ⟨rfl, members⟩)))
    | ecmaArray fits members => exact .inr (.inr (.inr (.inr (.inl ⟨rfl, fits, members⟩))))
    | strictArray fits elements => exact .inr (.inr (.inr (.inr (.inr ⟨rfl, fits, elements⟩))))
  · rintro (⟨size, listed, fits, rfl⟩ | ⟨rfl, fits, rfl⟩ | ⟨rfl, fits, rfl⟩ | ⟨rfl, members⟩ |
      ⟨rfl, fits, members⟩ | ⟨rfl, fits, elements⟩)
    · exact .fixed listed fits
    · exact .string fits
    · exact .longString fits
    · exact .object members
    · exact .ecmaArray fits members
    · exact .strictArray fits elements

theorem meetsValue_iff : MeetsValue bytes type item place ↔
    type ∉ knownTypes ∨
    (type = amfDate ∧ place + 8 ≤ bytes.length ∧ valueOf item = none) ∨
    (type = amfObject ∧ MeetsMembers bytes (itemsOf item) place) ∨
    (type = amfEcmaArray ∧ place + 4 ≤ bytes.length ∧
      MeetsMembers bytes (itemsOf item) (place + 4)) ∨
    (type = amfStrictArray ∧ place + 4 ≤ bytes.length ∧
      MeetsElements bytes (itemsOf item) (u32At bytes place) (place + 4)) := by
  constructor
  · intro meets
    cases meets with
    | unknown unknown => exact .inl unknown
    | date number slotless => exact .inr (.inl ⟨rfl, number, slotless⟩)
    | object members => exact .inr (.inr (.inl ⟨rfl, members⟩))
    | ecmaArray fits members => exact .inr (.inr (.inr (.inl ⟨rfl, fits, members⟩)))
    | strictArray fits elements => exact .inr (.inr (.inr (.inr ⟨rfl, fits, elements⟩)))
  · rintro (unknown | ⟨rfl, number, slotless⟩ | ⟨rfl, members⟩ | ⟨rfl, fits, members⟩ |
      ⟨rfl, fits, elements⟩)
    · exact .unknown unknown
    · exact .date number slotless
    · exact .object members
    · exact .ecmaArray fits members
    · exact .strictArray fits elements

theorem value_fixed {size : Nat} (listed : (type, size) ∈ fixedSizes) :
    Value bytes type place next ↔ place + size ≤ bytes.length ∧ next = place + size := by
  have unique : ∀ other, (type, other) ∈ fixedSizes → other = size := by
    intro other found
    simp only [fixedSizes, mem_cons, Prod.mk.injEq, not_mem_nil, or_false] at listed found
    rcases listed with ⟨rfl, rfl⟩ | ⟨rfl, rfl⟩ | ⟨rfl, rfl⟩ | ⟨rfl, rfl⟩ | ⟨rfl, rfl⟩ <;>
      simpa [amfNumber, amfBoolean, amfNull, amfUndefined, amfDate] using found
  have others : type ≠ amfString ∧ type ≠ amfLongString ∧ type ≠ amfObject ∧ type ≠ amfEcmaArray ∧
      type ≠ amfStrictArray := by
    simp only [fixedSizes, mem_cons, Prod.mk.injEq, not_mem_nil, or_false] at listed
    rcases listed with ⟨rfl, -⟩ | ⟨rfl, -⟩ | ⟨rfl, -⟩ | ⟨rfl, -⟩ | ⟨rfl, -⟩ <;> decide
  obtain ⟨string, longString, object, ecmaArray, strictArray⟩ := others
  rw [value_iff]
  simp only [string, longString, object, ecmaArray, strictArray, false_and, or_false]
  constructor
  · rintro ⟨other, found, fits, rfl⟩
    rw [unique other found] at fits ⊢
    exact ⟨fits, rfl⟩
  · rintro ⟨fits, rfl⟩
    exact ⟨size, listed, fits, rfl⟩

theorem value_string : Value bytes amfString place next ↔
    place + 2 + u16At bytes place ≤ bytes.length ∧ next = place + 2 + u16At bytes place := by
  rw [value_iff]
  simp [fixedSizes, amfNumber, amfBoolean, amfString, amfNull, amfUndefined, amfDate, amfLongString,
    amfObject, amfEcmaArray, amfStrictArray]

theorem value_longString : Value bytes amfLongString place next ↔
    place + 4 + u32At bytes place ≤ bytes.length ∧ next = place + 4 + u32At bytes place := by
  rw [value_iff]
  simp [fixedSizes, amfNumber, amfBoolean, amfString, amfNull, amfUndefined, amfDate, amfLongString,
    amfObject, amfEcmaArray, amfStrictArray]

theorem value_object : Value bytes amfObject place next ↔ Members bytes place next := by
  rw [value_iff]
  simp [fixedSizes, amfNumber, amfBoolean, amfString, amfNull, amfUndefined, amfDate, amfLongString,
    amfObject, amfEcmaArray, amfStrictArray]

theorem value_ecmaArray : Value bytes amfEcmaArray place next ↔
    place + 4 ≤ bytes.length ∧ Members bytes (place + 4) next := by
  rw [value_iff]
  simp [fixedSizes, amfNumber, amfBoolean, amfString, amfNull, amfUndefined, amfDate, amfLongString,
    amfObject, amfEcmaArray, amfStrictArray]

theorem value_strictArray : Value bytes amfStrictArray place next ↔
    place + 4 ≤ bytes.length ∧ Elements bytes (u32At bytes place) (place + 4) next := by
  rw [value_iff]
  simp [fixedSizes, amfNumber, amfBoolean, amfString, amfNull, amfUndefined, amfDate, amfLongString,
    amfObject, amfEcmaArray, amfStrictArray]

theorem scalar_safe (known : type ∈ knownTypes) (scalar : type ∉ groupTypes)
    (noDate : type ≠ amfDate) : ¬MeetsValue bytes type item place := by
  rw [meetsValue_iff]
  simp only [groupTypes, mem_cons, not_mem_nil, or_false, not_or] at scalar
  simp [known, noDate, scalar.1, scalar.2.1, scalar.2.2]

theorem meets_date : MeetsValue bytes amfDate item place ↔
    place + 8 ≤ bytes.length ∧ valueOf item = none := by
  rw [meetsValue_iff]
  simp [knownTypes, amfNumber, amfBoolean, amfString, amfNull, amfUndefined, amfDate, amfLongString,
    amfObject, amfEcmaArray, amfStrictArray]

theorem meets_object : MeetsValue bytes amfObject item place ↔
    MeetsMembers bytes (itemsOf item) place := by
  rw [meetsValue_iff]
  simp [knownTypes, amfNumber, amfBoolean, amfString, amfNull, amfUndefined, amfDate, amfLongString,
    amfObject, amfEcmaArray, amfStrictArray]

theorem meets_ecmaArray : MeetsValue bytes amfEcmaArray item place ↔
    place + 4 ≤ bytes.length ∧ MeetsMembers bytes (itemsOf item) (place + 4) := by
  rw [meetsValue_iff]
  simp [knownTypes, amfNumber, amfBoolean, amfString, amfNull, amfUndefined, amfDate, amfLongString,
    amfObject, amfEcmaArray, amfStrictArray]

theorem meets_strictArray : MeetsValue bytes amfStrictArray item place ↔
    place + 4 ≤ bytes.length ∧
      MeetsElements bytes (itemsOf item) (u32At bytes place) (place + 4) := by
  rw [meetsValue_iff]
  simp [knownTypes, amfNumber, amfBoolean, amfString, amfNull, amfUndefined, amfDate, amfLongString,
    amfObject, amfEcmaArray, amfStrictArray]

end Inversion

/-! ## Outcomes -/

inductive Outcome (bytes : List UInt8) (value : Nat → Prop) (meets : Prop) (items : List AmfItem)
    (place : Nat) (memory : Memory) (result : Reading) : Prop
  | faults (met : meets) (failed : result = .error .assertion ∨ result = .error .null)
  | returns (free : ¬meets) (ptr : Option Nat) (after : Memory) (returned : result = .ok (ptr, after))
      (ends : ∀ next, value next ↔ ptr = some next)
      (inside : ∀ next, ptr = some next → place ≤ next ∧ next ≤ bytes.length)
      (frame : Frame items memory after)

section Scalars

variable {input : Input} {place : Nat}

theorem byteAt_eq (inside : place < input.end) :
    byteAt input place = .ok (input.bytes.getD place 0) := by
  unfold Input.end at inside
  rw [byteAt, List.getElem?_eq_getElem inside, getD_eq_getElem _ _ inside]
  rfl

theorem ok_bind {Value Result : Type} (value : Value) (next : Value → Except Fault Result) :
    (Except.ok value >>= next) = next value := rfl

theorem bytesAt_eq {count : Nat} (inside : place + count ≤ input.end) :
    bytesAt input place count = .ok ((input.bytes.drop place).take count) := by
  induction count generalizing place with
  | zero => rfl
  | succ count ih =>
    have here : place < input.bytes.length := by
      unfold Input.end at inside
      omega
    rw [bytesAt, byteAt_eq here, ok_bind, ih (by omega), ok_bind, drop_eq_getElem_cons here,
      take_succ_cons, getD_eq_getElem _ _ here]
    rfl

theorem shifted_byte (byte : UInt8) {count : Nat} (small : count ≤ 24) :
    (byte.toUInt32 <<< UInt32.ofNat count).toNat = byte.toNat * 2 ^ count := by
  have bound : byte.toNat * 2 ^ count < 2 ^ 32 := by
    calc byte.toNat * 2 ^ count
      _ ≤ byte.toNat * 2 ^ 24 := Nat.mul_le_mul_left _ (Nat.pow_le_pow_right (by decide) small)
      _ < 2 ^ 8 * 2 ^ 24 := Nat.mul_lt_mul_of_pos_right byte.toNat_lt (by decide)
      _ = 2 ^ 32 := by decide
  have shift : (UInt32.ofNat count).toNat % 32 = count := by
    rw [UInt32.toNat_ofNat']
    omega
  rw [UInt32.toNat_shiftLeft, shift, Nat.shiftLeft_eq, UInt8.toNat_toUInt32, Nat.mod_eq_of_lt bound]

theorem or_add {high low count : Nat} (small : low < 2 ^ count) :
    high * 2 ^ count ||| low = high * 2 ^ count + low := by
  rw [← Nat.shiftLeft_eq, Nat.shiftLeft_add_eq_or_of_lt small]

theorem u16At_eq (input : Input) (place : Nat) :
    (((input.bytes.getD place 0).toUInt32 <<< 8) |||
      (input.bytes.getD (place + 1) 0).toUInt32).toNat = u16At input.bytes place := by
  have high := shifted_byte (input.bytes.getD place 0) (show 8 ≤ 24 by decide)
  have low := (input.bytes.getD (place + 1) 0).toNat_lt
  rw [UInt32.toNat_or]
  change ((input.bytes.getD place 0).toUInt32 <<< UInt32.ofNat 8).toNat ||| _ = _
  rw [high, UInt8.toNat_toUInt32, or_add low]
  rfl

theorem u32At_eq (input : Input) (place : Nat) :
    (((input.bytes.getD place 0).toUInt32 <<< 24) |||
      ((input.bytes.getD (place + 1) 0).toUInt32 <<< 16) |||
      ((input.bytes.getD (place + 2) 0).toUInt32 <<< 8) |||
      (input.bytes.getD (place + 3) 0).toUInt32).toNat = u32At input.bytes place := by
  have first := shifted_byte (input.bytes.getD place 0) (show 24 ≤ 24 by decide)
  have second := shifted_byte (input.bytes.getD (place + 1) 0) (show 16 ≤ 24 by decide)
  have third := shifted_byte (input.bytes.getD (place + 2) 0) (show 8 ≤ 24 by decide)
  have secondBound := (input.bytes.getD (place + 1) 0).toNat_lt
  have thirdBound := (input.bytes.getD (place + 2) 0).toNat_lt
  have fourthBound := (input.bytes.getD (place + 3) 0).toNat_lt
  rw [UInt32.toNat_or, UInt32.toNat_or, UInt32.toNat_or]
  change ((input.bytes.getD place 0).toUInt32 <<< UInt32.ofNat 24).toNat |||
    ((input.bytes.getD (place + 1) 0).toUInt32 <<< UInt32.ofNat 16).toNat |||
    ((input.bytes.getD (place + 2) 0).toUInt32 <<< UInt32.ofNat 8).toNat ||| _ = _
  rw [first, second, third, UInt8.toNat_toUInt32, u32At, u16At, u16At]
  generalize (input.bytes.getD place 0).toNat = one
  generalize (input.bytes.getD (place + 1) 0).toNat = two at *
  generalize (input.bytes.getD (place + 2) 0).toNat = three at *
  generalize (input.bytes.getD (place + 3) 0).toNat = four at *
  have top : one * 2 ^ 24 ||| two * 2 ^ 16 = (one * 256 + two) * 2 ^ 16 := by
    rw [or_add (show two * 2 ^ 16 < 2 ^ 24 by omega)]
    omega
  have middle : (one * 256 + two) * 2 ^ 16 ||| three * 2 ^ 8 =
      (one * 65536 + two * 256 + three) * 2 ^ 8 := by
    rw [or_add (show three * 2 ^ 8 < 2 ^ 16 by omega)]
    omega
  rw [top, middle, or_add (show four < 2 ^ 8 by omega)]
  omega

/-! ## Scalars -/

theorem amfReadInt16_short (short : input.end < place + 2) :
    amfReadInt16 input (some place) = .ok none := if_pos short

theorem amfReadInt16_fits (fits : place + 2 ≤ input.end) :
    ∃ value, amfReadInt16 input (some place) = .ok (some (place + 2, value)) ∧
      value.toNat = u16At input.bytes place := by
  refine ⟨_, ?_, u16At_eq input place⟩
  unfold amfReadInt16
  dsimp only
  rw [if_neg (by omega), byteAt_eq (by omega), byteAt_eq (by omega)]
  rfl

theorem amfReadInt32_short (short : input.end < place + 4) :
    amfReadInt32 input (some place) = .ok none := if_pos short

theorem amfReadInt32_fits (fits : place + 4 ≤ input.end) :
    ∃ value, amfReadInt32 input (some place) = .ok (some (place + 4, value)) ∧
      value.toNat = u32At input.bytes place := by
  refine ⟨_, ?_, u32At_eq input place⟩
  unfold amfReadInt32
  dsimp only
  rw [if_neg (by omega), byteAt_eq (by omega), byteAt_eq (by omega), byteAt_eq (by omega),
    byteAt_eq (by omega)]
  rfl

variable {item : Option AmfItem} {memory : Memory}

theorem frame_slot {type : UInt8} {address : Nat} {bytes : List UInt8} {offset : Nat}
    (slot : valueOf item = some address)
    (same : ∀ described, item = some described → described.type = type)
    (room : offset + bytes.length ≤ slotSize type (sizeOf item)) :
    Frame item.toList memory (memory.write (address + offset) bytes) := by
  intro place free
  refine write_other fun inside => ?_
  cases item with
  | none => cases slot
  | some described =>
    cases described with
    | group => cases slot
    | slot marker name value size =>
      obtain rfl : value = some address := slot
      have known : marker.val = type := same _ rfl
      change offset + bytes.length ≤ slotSize type size at room
      rw [← known] at room
      refine free (.slot marker name (some address) size) (by simp) (.slot ?_)
      omega

theorem frame_writeIf {type : UInt8} {bytes : List UInt8}
    (same : ∀ described, item = some described → described.type = type)
    (room : bytes.length ≤ slotSize type (sizeOf item)) :
    Frame item.toList memory (memory.writeIf (valueOf item) bytes) := by
  cases slot : valueOf item with
  | none => exact Frame.refl _ _
  | some address => exact @frame_slot _ _ _ _ _ 0 slot same (by omega)

theorem fixed_outcome {type : UInt8} {result : Reading} (size : Nat) (after : Memory)
    (listed : (type, size) ∈ fixedSizes) (safe : ¬MeetsValue input.bytes type item place)
    (short : input.end < place + size → ∃ kept, result = .ok (none, kept) ∧
      Frame item.toList memory kept)
    (fits : place + size ≤ input.end → result = .ok (some (place + size), after))
    (frame : place + size ≤ input.end → Frame item.toList memory after) :
    Outcome input.bytes (Value input.bytes type place) (MeetsValue input.bytes type item place)
      item.toList place memory result := by
  rcases Nat.lt_or_ge input.end (place + size) with beyond | room
  · obtain ⟨kept, returned, framed⟩ := short beyond
    refine .returns safe none kept returned (fun next => ?_) nofun framed
    rw [value_fixed listed]
    unfold Input.end at beyond
    constructor
    · rintro ⟨inside, -⟩
      omega
    · exact nofun
  · refine .returns safe (some (place + size)) after (fits room) (fun next => ?_) ?_ (frame room)
    · rw [value_fixed listed]
      unfold Input.end at room
      constructor
      · rintro ⟨-, rfl⟩
        rfl
      · rintro ⟨⟩
        exact ⟨room, rfl⟩
    · rintro next ⟨⟩
      exact ⟨Nat.le_add_right _ _, room⟩

theorem boolean_outcome
    (same : ∀ described, item = some described → described.type = amfBoolean) :
    Outcome input.bytes (Value input.bytes amfBoolean place)
      (MeetsValue input.bytes amfBoolean item place) item.toList place memory
      (amfReadBoolean input place (valueOf item) memory) := by
  refine fixed_outcome 1 (memory.writeIf (valueOf item) [input.bytes.getD place 0]) (by decide)
    (scalar_safe (by decide) (by decide) (by decide))
    (fun short => ⟨memory, if_pos short, Frame.refl _ _⟩) (fun fits => ?_) fun fits => ?_
  · unfold amfReadBoolean
    rw [if_neg (by omega), byteAt_eq (by omega)]
    rfl
  · exact frame_writeIf same (by simp [slotSize, amfBoolean, amfNumber])

theorem amfReadDouble_cases :
    (input.end < place + 8 ∧
        amfReadDouble input place (valueOf item) memory = .ok (none, memory)) ∨
      place + 8 ≤ input.end ∧ ∃ bytes : List UInt8, bytes.length = 8 ∧
        amfReadDouble input place (valueOf item) memory =
          .ok (some (place + 8), memory.writeIf (valueOf item) bytes) := by
  rcases Nat.lt_or_ge input.end (place + 8) with short | fits
  · exact .inl ⟨short, if_pos short⟩
  · refine .inr ⟨fits, ((input.bytes.drop place).take 8).reverse, ?_, ?_⟩
    · rw [length_reverse, length_take_of_le]
      rw [length_drop]
      unfold Input.end at fits
      omega
    · unfold amfReadDouble
      rw [if_neg (by omega), bytesAt_eq fits]
      rfl

theorem number_outcome
    (same : ∀ described, item = some described → described.type = amfNumber) :
    Outcome input.bytes (Value input.bytes amfNumber place)
      (MeetsValue input.bytes amfNumber item place) item.toList place memory
      (amfReadDouble input place (valueOf item) memory) := by
  have safe : ¬MeetsValue input.bytes amfNumber item place :=
    scalar_safe (by decide) (by decide) (by decide)
  rcases @amfReadDouble_cases input place item memory with
    ⟨short, returned⟩ | ⟨fits, bytes, length, returned⟩
  · exact fixed_outcome 8 memory (by decide) safe
      (fun _ => ⟨memory, returned, Frame.refl _ _⟩) (fun fits => by omega) fun fits => by omega
  · exact fixed_outcome 8 _ (by decide) safe (fun short => by omega) (fun _ => returned)
      fun _ => frame_writeIf same (by rw [length]; simp [slotSize])

theorem string_outcome {long : Bool} {type : UInt8}
    (kind : type = if long then amfLongString else amfString)
    (same : ∀ described, item = some described → described.type = type) :
    Outcome input.bytes (Value input.bytes type place)
      (MeetsValue input.bytes type item place) item.toList place memory
      (amfReadString input place long (valueOf item) (sizeOf item) memory) := by
  have safe : ¬MeetsValue input.bytes type item place := by
    cases long <;> subst kind <;> exact scalar_safe (by decide) (by decide) (by decide)
  -- the length is read, and the text is behind it
  obtain ⟨width, count, ends, read⟩ : ∃ width count,
      (∀ next, Value input.bytes type place next ↔
        place + width + count ≤ input.end ∧ next = place + width + count) ∧
      ((input.end < place + width ∧ amfReadLength input place long = .ok none) ∨
        ∃ value, value.toNat = count ∧
          amfReadLength input place long = .ok (some (place + width, value))) := by
    cases long with
    | false =>
      subst kind
      refine ⟨2, _, fun next => value_string, ?_⟩
      rcases Nat.lt_or_ge input.end (place + 2) with short | fits
      · exact .inl ⟨short, amfReadInt16_short short⟩
      · obtain ⟨value, returned, same⟩ := amfReadInt16_fits fits
        exact .inr ⟨value, same, returned⟩
    | true =>
      subst kind
      refine ⟨4, _, fun next => value_longString, ?_⟩
      rcases Nat.lt_or_ge input.end (place + 4) with short | fits
      · exact .inl ⟨short, amfReadInt32_short short⟩
      · obtain ⟨value, returned, same⟩ := amfReadInt32_fits fits
        exact .inr ⟨value, same, returned⟩
  have refused (returned : amfReadString input place long (valueOf item) (sizeOf item) memory =
      .ok (none, memory)) (short : input.end < place + width + count) :
      Outcome input.bytes (Value input.bytes type place)
        (MeetsValue input.bytes type item place) item.toList place memory
        (amfReadString input place long (valueOf item) (sizeOf item) memory) := by
    refine .returns safe none memory returned (fun next => ?_) nofun (Frame.refl _ _)
    rw [ends]
    constructor
    · rintro ⟨fits, -⟩
      omega
    · exact nofun
  have taken (after : Memory) (returned : amfReadString input place long (valueOf item)
      (sizeOf item) memory = .ok (some (place + width + count), after))
      (fits : place + width + count ≤ input.end) (frame : Frame item.toList memory after) :
      Outcome input.bytes (Value input.bytes type place)
        (MeetsValue input.bytes type item place) item.toList place memory
        (amfReadString input place long (valueOf item) (sizeOf item) memory) := by
    refine .returns safe (some (place + width + count)) after returned (fun next => ?_) ?_ frame
    · rw [ends]
      constructor
      · rintro ⟨-, rfl⟩
        rfl
      · rintro ⟨⟩
        exact ⟨fits, rfl⟩
    · rintro next ⟨⟩
      exact ⟨by omega, fits⟩
  rcases read with ⟨short, read⟩ | ⟨value, rfl, read⟩
  · refine refused ?_ (by omega)
    unfold amfReadString
    rw [read]
    rfl
  · by_cases fits : place + width + value.toNat ≤ input.end
    · by_cases room : valueOf item ≠ none ∧ sizeOf item > value.toNat
      · refine taken (memory.writeIf (valueOf item)
          ((input.bytes.drop (place + width)).take value.toNat ++ [0])) ?_ fits ?_
        · unfold amfReadString
          rw [read, ok_bind]
          dsimp only
          rw [if_neg (by omega), if_pos room, bytesAt_eq fits]
          rfl
        · refine frame_writeIf same ?_
          have width' : slotSize type (sizeOf item) = sizeOf item := by
            cases long <;> subst kind <;>
              simp [slotSize, amfNumber, amfBoolean, amfDate, amfString, amfLongString]
          rw [width', length_append, length_take, length_singleton]
          omega
      · refine taken memory ?_ fits (Frame.refl _ memory)
        unfold amfReadString
        rw [read, ok_bind]
        dsimp only
        rw [if_neg (by omega), if_neg room]
        rfl
    · refine refused ?_ (by omega)
      unfold amfReadString
      rw [read, ok_bind]
      dsimp only
      rw [if_pos (by omega)]

theorem date_outcome
    (same : ∀ described, item = some described → described.type = amfDate) :
    Outcome input.bytes (Value input.bytes amfDate place)
      (MeetsValue input.bytes amfDate item place) item.toList place memory
      (amfReadDate input place item memory) := by
  rcases @amfReadDouble_cases input place item memory with
    ⟨short, returned⟩ | ⟨fits, bytes, length, returned⟩
  · have safe : ¬MeetsValue input.bytes amfDate item place := by
      rw [meets_date]
      rintro ⟨number, -⟩
      unfold Input.end at short
      omega
    refine fixed_outcome 10 memory (by decide) safe
      (fun _ => ⟨memory, ?_, Frame.refl _ _⟩) (fun fits => by omega) fun fits => by omega
    unfold amfReadDate
    rw [returned]
    rfl
  · cases slot : valueOf item with
    | none =>
      refine .faults (meets_date.mpr ⟨fits, slot⟩) (.inr ?_)
      unfold amfReadDate
      rw [returned, ok_bind]
      dsimp only
      rcases Nat.lt_or_ge input.end (place + 8 + 2) with short | room
      · rw [amfReadInt16_short short, ok_bind, timezoneOf, slot]
        rfl
      · obtain ⟨value, read, -⟩ := amfReadInt16_fits room
        rw [read, ok_bind, timezoneOf, slot]
        rfl
    | some address =>
      have safe : ¬MeetsValue input.bytes amfDate item place := by
        rw [meets_date, slot]
        exact fun both => nomatch both.2
      have number : Frame item.toList memory (memory.writeIf (valueOf item) bytes) :=
        frame_writeIf same (by rw [length]; simp [slotSize, amfNumber, amfBoolean, amfDate])
      have zone (before : Memory) (low high : UInt8) :
          Frame item.toList before (before.write (address + 8) [low, high]) :=
        frame_slot slot same (by simp [slotSize, amfNumber, amfBoolean, amfDate])
      rcases Nat.lt_or_ge input.end (place + 8 + 2) with short | room
      · refine fixed_outcome 10 memory (by decide) safe
          (fun _ => ⟨_, ?_, number.trans (zone _ input.stale.toUInt8 (input.stale >>> 8).toUInt8)⟩)
          (fun fits => by omega) fun fits => by omega
        unfold amfReadDate
        rw [returned, ok_bind]
        dsimp only
        rw [amfReadInt16_short short, ok_bind, timezoneOf, slot]
        rfl
      · obtain ⟨value, read, -⟩ := amfReadInt16_fits room
        refine fixed_outcome 10 _ (by decide) safe (fun short => by omega) (fun _ => ?_)
          fun _ => number.trans (zone _ value.toUInt8 (value >>> 8).toUInt8)
        unfold amfReadDate
        rw [returned, ok_bind]
        dsimp only
        rw [read, ok_bind, timezoneOf, slot]
        rfl

end Scalars

end CLibs.Amf
