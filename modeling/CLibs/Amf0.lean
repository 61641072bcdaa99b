import Mathlib.Data.List.Basic

/-!
# The AMF0 reader

The reader walks through a byte string, from marker to marker.  A value is read into the slot of the
item that describes it, or skipped by the same functions with null pointers; objects and arrays call
each other for the values inside them.  A pointer is an offset, and the null pointer `none`.
-/

namespace CLibs.Amf

/-- How the reader can fail to return. -/
inductive Fault
  | assertion
  | outside
  | null
  | fuel
  deriving DecidableEq, Repr

/-! ## Items -/

def amfNumber : UInt8 := 0x00

def amfBoolean : UInt8 := 0x01

def amfString : UInt8 := 0x02

def amfObject : UInt8 := 0x03

def amfNull : UInt8 := 0x05

def amfUndefined : UInt8 := 0x06

def amfEcmaArray : UInt8 := 0x08

def amfObjectEnd : UInt8 := 0x09

def amfStrictArray : UInt8 := 0x0A

def amfDate : UInt8 := 0x0B

def amfLongString : UInt8 := 0x0C

def groupTypes : List UInt8 := [amfObject, amfEcmaArray, amfStrictArray]

/-- `amf_object_item_t`: a slot of memory, perhaps at the null pointer, or a group of items. -/
inductive AmfItem
  | slot (type : { type : UInt8 // type ∉ groupTypes }) (name : List UInt8) (value : Option Nat)
      (size : Nat)
  | group (type : { type : UInt8 // type ∈ groupTypes }) (name : List UInt8) (items : List AmfItem)

namespace AmfItem

def type : AmfItem → UInt8
  | slot type _ _ _ => type
  | group type _ _ => type

def name : AmfItem → List UInt8
  | slot _ name _ _ => name
  | group _ name _ => name

/-- The pointer that a value is written to. -/
def value : AmfItem → Option Nat
  | slot _ _ value _ => value
  | group _ _ _ => none

def size : AmfItem → Nat
  | slot _ _ _ size => size
  | group _ _ items => items.length

def items : AmfItem → List AmfItem
  | slot _ _ _ _ => []
  | group _ _ items => items

end AmfItem

def valueOf (item : Option AmfItem) : Option Nat := item.bind AmfItem.value

def sizeOf (item : Option AmfItem) : Nat := (item.map AmfItem.size).getD 0

def itemsOf (item : Option AmfItem) : List AmfItem := (item.map AmfItem.items).getD []

/-! ## Memory -/

abbrev Memory := Nat → UInt8

def Memory.write (memory : Memory) (address : Nat) (bytes : List UInt8) : Memory := fun place =>
  if address ≤ place ∧ place < address + bytes.length then bytes.getD (place - address) 0
  else memory place

/-- A write that a null pointer suppresses. -/
def Memory.writeIf (memory : Memory) (address : Option Nat) (bytes : List UInt8) : Memory :=
  match address with
  | some address => memory.write address bytes
  | none => memory

/-! ## Scalars -/

/-- The bytes up to `end`, and what a variable holds that was never set. -/
structure Input where
  bytes : List UInt8
  stale : UInt32

def Input.end (input : Input) : Nat := input.bytes.length

def byteAt (input : Input) (ptr : Nat) : Except Fault UInt8 :=
  input.bytes[ptr]?.elim (.error .outside) .ok

/-- So many bytes from a pointer on. -/
def bytesAt (input : Input) (ptr : Nat) : (count : Nat) → Except Fault (List UInt8)
  | 0 => .ok []
  | count + 1 => do
      let byte ← byteAt input ptr
      let rest ← bytesAt input (ptr + 1) count
      return byte :: rest

abbrev Reading := Except Fault (Option Nat × Memory)

def amfReadInt16 (input : Input) (ptr : Option Nat) : Except Fault (Option (Nat × UInt32)) :=
  match ptr with
  | none => .ok none
  | some ptr =>
    if ptr + 2 > input.end then .ok none
    else do
      let high ← byteAt input ptr
      let low ← byteAt input (ptr + 1)
      return some (ptr + 2, (high.toUInt32 <<< 8) ||| low.toUInt32)

def amfReadInt32 (input : Input) (ptr : Option Nat) : Except Fault (Option (Nat × UInt32)) :=
  match ptr with
  | none => .ok none
  | some ptr =>
    if ptr + 4 > input.end then .ok none
    else do
      let first ← byteAt input ptr
      let second ← byteAt input (ptr + 1)
      let third ← byteAt input (ptr + 2)
      let fourth ← byteAt input (ptr + 3)
      return some (ptr + 4, (first.toUInt32 <<< 24) ||| (second.toUInt32 <<< 16) |||
        (third.toUInt32 <<< 8) ||| fourth.toUInt32)

def amfReadBoolean (input : Input) (ptr : Nat) (value : Option Nat) (memory : Memory) : Reading :=
  if ptr + 1 > input.end then .ok (none, memory)
  else do
    let byte ← byteAt input ptr
    return (some (ptr + 1), memory.writeIf value [byte])

/-- `AMFReadDouble` on a machine whose lowest byte comes first. -/
def amfReadDouble (input : Input) (ptr : Nat) (value : Option Nat) (memory : Memory) : Reading :=
  if ptr + 8 > input.end then .ok (none, memory)
  else do
    let bytes ← bytesAt input ptr 8
    return (some (ptr + 8), memory.writeIf value bytes.reverse)

def amfReadLength (input : Input) (ptr : Nat) (isLongString : Bool) :
    Except Fault (Option (Nat × UInt32)) :=
  if isLongString then amfReadInt32 input (some ptr) else amfReadInt16 input (some ptr)

def amfReadString (input : Input) (ptr : Nat) (isLongString : Bool) (string : Option Nat)
    (length : Nat) (memory : Memory) : Reading := do
  let found ← amfReadLength input ptr isLongString
  match found with
  | none => .ok (none, memory)
  | some (ptr, len) =>
    if ptr + len.toNat > input.end then .ok (none, memory)
    else if string ≠ none ∧ length > len.toNat then do
      let bytes ← bytesAt input ptr len.toNat
      return (some (ptr + len.toNat), memory.writeIf string (bytes ++ [0]))
    else return (some (ptr + len.toNat), memory)

/-- `(char*)item->value + 8`, which must be a pointer to be written through. -/
def timezoneOf (item : Option AmfItem) : Except Fault Nat :=
  match valueOf item with
  | some value => .ok (value + 8)
  | none => .error .null

/-- `AMFReadDate`: behind a number the time zone is written, also if it could not be read. -/
def amfReadDate (input : Input) (ptr : Nat) (item : Option AmfItem) (memory : Memory) : Reading := do
  let (ptr, memory) ← amfReadDouble input ptr (valueOf item) memory
  match ptr with
  | none => .ok (none, memory)
  | some ptr => do
      let found ← amfReadInt16 input (some ptr)
      let v := (found.map Prod.snd).getD input.stale
      let timezone ← timezoneOf item
      return (found.map Prod.fst, memory.write timezone [v.toUInt8, (v >>> 8).toUInt8])

/-! ## Objects and arrays -/

/-- `amf_read_item` from a pointer on, for a type and an item or a null pointer. -/
abbrev ReadItem := Nat → UInt8 → Option AmfItem → Memory → Reading

def amfReadItemTypeCheck (type itemType : UInt8) : Bool :=
  type = itemType ∨ (amfObject = itemType ∧ (amfEcmaArray = type ∨ amfNull = type))

/-- The loop of `amf_read_strict_array`, with the items that are left. -/
def strictLoop (input : Input) (readItem : ReadItem) :
    (fuel count : Nat) → List AmfItem → Nat → Memory → Reading
  | 0, _, _, _, _ => .error .fuel
  | fuel + 1, count, items, ptr, memory =>
    if count ≠ 0 ∧ ptr < input.end then do
      let type ← byteAt input ptr
      let item := items.head?.filter fun item => amfReadItemTypeCheck type item.type
      let (ptr, memory) ← readItem (ptr + 1) type item memory
      match ptr with
      | none => .ok (none, memory)
      | some ptr => strictLoop input readItem fuel (count - 1) items.tail ptr memory
    else .ok (some ptr, memory)

def amfReadStrictArray (input : Input) (readItem : ReadItem) (items : List AmfItem) (ptr : Nat)
    (memory : Memory) : Reading :=
  if ptr + 4 > input.end then .ok (none, memory)
  else do
    let found ← amfReadInt32 input (some ptr)
    match found with
    | none => .ok (none, memory)
    | some (ptr, count) =>
      strictLoop input readItem (input.end + 1) count.toNat items ptr memory

def describing (items : List AmfItem) (name : List UInt8) (type : UInt8) : Option AmfItem :=
  items.find? fun item => item.name = name ∧ amfReadItemTypeCheck type item.type = true

def objectLoop (input : Input) (readItem : ReadItem) (items : List AmfItem) :
    (fuel : Nat) → Nat → Memory → Reading
  | 0, _, _ => .error .fuel
  | fuel + 1, ptr, memory =>
    if ptr + 2 ≤ input.end then do
      let high ← byteAt input ptr
      let low ← byteAt input (ptr + 1)
      let len := high.toNat * 256 + low.toNat
      if len = 0 then .ok (some (ptr + 2), memory)
      else if ptr + 2 + len + 1 > input.end then .ok (none, memory)
      else do
        let name ← bytesAt input (ptr + 2) len
        let type ← byteAt input (ptr + 2 + len)
        let (ptr, memory) ←
          readItem (ptr + 2 + len + 1) type (describing items name type) memory
        match ptr with
        | none => .ok (none, memory)
        | some ptr => objectLoop input readItem items fuel ptr memory
    else .ok (some ptr, memory)

def amfReadObject (input : Input) (readItem : ReadItem) (items : List AmfItem) (ptr : Nat)
    (memory : Memory) : Reading := do
  let (ptr, memory) ← objectLoop input readItem items (input.end + 1) ptr memory
  match ptr with
  | none => .ok (none, memory)
  | some ptr =>
    if ptr < input.end then do
      let byte ← byteAt input ptr
      return (if amfObjectEnd = byte then some (ptr + 1) else none, memory)
    else .ok (none, memory)

def amfReadEcmaArray (input : Input) (readItem : ReadItem) (items : List AmfItem) (ptr : Nat)
    (memory : Memory) : Reading :=
  if ptr + 4 > input.end then .ok (none, memory)
  else amfReadObject input readItem items (ptr + 4) memory

/-- `amf_read_item`, with fuel for values inside values. -/
def amfReadItem (input : Input) : (fuel : Nat) → ReadItem
  | 0, _, _, _, _ => .error .fuel
  | fuel + 1, ptr, type, item, memory =>
    if type = amfBoolean then amfReadBoolean input ptr (valueOf item) memory
    else if type = amfNumber then amfReadDouble input ptr (valueOf item) memory
    else if type = amfString then
      amfReadString input ptr false (valueOf item) (sizeOf item) memory
    else if type = amfLongString then
      amfReadString input ptr true (valueOf item) (sizeOf item) memory
    else if type = amfDate then amfReadDate input ptr item memory
    else if type = amfObject then
      amfReadObject input (amfReadItem input fuel) (itemsOf item) ptr memory
    else if type = amfNull then .ok (some ptr, memory)
    else if type = amfUndefined then .ok (some ptr, memory)
    else if type = amfEcmaArray then
      amfReadEcmaArray input (amfReadItem input fuel) (itemsOf item) ptr memory
    else if type = amfStrictArray then
      amfReadStrictArray input (amfReadItem input fuel) (itemsOf item) ptr memory
    else .error .assertion

/-- The loop of `amf_read_items`, with the items that are left. -/
def itemsLoop (input : Input) (readItem : ReadItem) : List AmfItem → Nat → Memory → Reading
  | [], ptr, memory => .ok (some ptr, memory)
  | item :: items, ptr, memory =>
    if ptr < input.end then do
      let type ← byteAt input ptr
      if amfReadItemTypeCheck type item.type = false then .ok (none, memory)
      else do
        let (ptr, memory) ← readItem (ptr + 1) type (some item) memory
        match ptr with
        | none => .ok (none, memory)
        | some ptr => itemsLoop input readItem items ptr memory
    else .ok (some ptr, memory)

def amfReadItems (input : Input) (items : List AmfItem) (memory : Memory) : Reading :=
  itemsLoop input (amfReadItem input (input.end + 1)) items 0 memory

end CLibs.Amf
