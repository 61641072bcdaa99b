import CLibs.CallRefinement
import CLibs.ElementRings

/-!
# The element queue of `fifo.c`

Model of `fifo.h` and `fifo.c`.  The indices `in` and `out` run freely on 32
bits; a bit mask takes them to a slot of the buffer.  A null `data` pointer is
a buffer without bytes.  `fifo_free` and the unused `rounddown_pow_of_two` are
left out.
-/

namespace CLibs.Fifos

def einval : Int := 22
def enomem : Int := 12

/-- The FIFO with its counters, which wrap at `2 ^ 32`. -/
structure Fifo where
  inIndex : UInt32
  outIndex : UInt32
  mask : UInt32
  esize : UInt32
  data : Buffer UInt8

def isPowerOf2 (x : UInt32) : Bool := decide (x ≠ 0 ∧ x &&& (x - 1) = 0)

def fifoUnused (fifo : Fifo) : UInt32 := (fifo.mask + 1) - (fifo.inIndex - fifo.outIndex)

def fifoAlloc (fifo : Fifo) (malloc : Bool) (nelem esize : UInt32) : Int × Fifo :=
  if ¬ isPowerOf2 nelem then (-einval, { fifo with data := .alloc 0, mask := 0 })
  else
    let fifo := { fifo with inIndex := 0, outIndex := 0, esize := esize }
    if nelem < 2 then (-einval, { fifo with data := .alloc 0, mask := 0 })
    else if ¬ malloc then (-enomem, { fifo with data := .alloc 0, mask := 0 })
    else (0, { fifo with data := .alloc (nelem * esize).toNat, mask := nelem - 1 })

def fifoInit (fifo : Fifo) (buf : Buffer UInt8) (nelem esize : UInt32) : Int × Fifo :=
  if ¬ isPowerOf2 nelem then (-einval, { fifo with mask := 0 })
  else
    let fifo := { fifo with inIndex := 0, outIndex := 0, esize := esize, data := buf }
    if nelem < 2 then (-einval, { fifo with mask := 0 })
    else (0, { fifo with mask := nelem - 1 })

/-- A number of elements as a number of bytes: what the copies do when
`esize != 1`. -/
def scaled (fifo : Fifo) (count : UInt32) : UInt32 :=
  if fifo.esize ≠ 1 then count * fifo.esize else count

/-- The bytes `memcpy` takes from the caller's buffer. -/
def sourceBytes (src : List UInt8) (position length : Nat) : Except Fault (List UInt8) :=
  if position + length ≤ src.length then .ok ((src.drop position).take length)
  else .error .outside

def fifoCopyIn (fifo : Fifo) (src : List UInt8) (nelem off : UInt32) : Except Fault Fifo := do
  let size := scaled fifo (fifo.mask + 1)
  let off := scaled fifo (off &&& fifo.mask)
  let nelem := scaled fifo nelem
  let l := min nelem (size - off)
  let first ← sourceBytes src 0 l.toNat
  let data ← fifo.data.store off.toNat first
  let second ← sourceBytes src l.toNat (nelem - l).toNat
  let data ← data.store 0 second
  pure { fifo with data := data }

def fifoIn (fifo : Fifo) (buf : List UInt8) (nelem : UInt32) : Except Fault (UInt32 × Fifo) := do
  let nelem := min nelem (fifoUnused fifo)
  let fifo ← fifoCopyIn fifo buf nelem fifo.inIndex
  pure (nelem, { fifo with inIndex := fifo.inIndex + nelem })

/-- The bytes that `fifo_copy_out` stores from the beginning of `dst` on. -/
def fifoCopyOut (fifo : Fifo) (nelem off : UInt32) : Except Fault (List UInt8) := do
  let size := scaled fifo (fifo.mask + 1)
  let off := scaled fifo (off &&& fifo.mask)
  let nelem := scaled fifo nelem
  let l := min nelem (size - off)
  let first ← fifo.data.read off.toNat l.toNat
  let second ← fifo.data.read 0 (nelem - l).toNat
  pure (first ++ second)

def fifoPeek (fifo : Fifo) (nelem : UInt32) : Except Fault (UInt32 × List UInt8) := do
  let nelem := min nelem (fifo.inIndex - fifo.outIndex)
  let bytes ← fifoCopyOut fifo nelem fifo.outIndex
  pure (nelem, bytes)

def fifoOut (fifo : Fifo) (nelem : UInt32) : Except Fault (UInt32 × List UInt8 × Fifo) := do
  let (nelem, bytes) ← fifoPeek fifo nelem
  pure (nelem, bytes, { fifo with outIndex := fifo.outIndex + nelem })

/-- The calls of producer and consumer. -/
inductive Call
  | input (buf : List UInt8) (nelem : UInt32)
  | output (nelem : UInt32)
  | peek (nelem : UInt32)

/-- What a call returns, and the bytes it stores in the caller's buffer. -/
structure Answer where
  count : Nat
  bytes : List UInt8
  deriving DecidableEq

def Call.run : Call → Fifo → Except Fault (Answer × Fifo)
  | .input buf nelem, fifo => do
      let (count, fifo) ← fifoIn fifo buf nelem
      pure (⟨count.toNat, []⟩, fifo)
  | .output nelem, fifo => do
      let (count, bytes, fifo) ← fifoOut fifo nelem
      pure (⟨count.toNat, bytes⟩, fifo)
  | .peek nelem, fifo => do
      let (count, bytes) ← fifoPeek fifo nelem
      pure (⟨count.toNat, bytes⟩, fifo)

/-! ## The queue it implements -/

/-- The elements in the first `count * esize` bytes of a buffer. -/
def elements (esize count : Nat) (buf : List UInt8) : List (List UInt8) :=
  (List.range count).map fun index => (buf.drop (index * esize)).take esize

/-- A queue of at most `capacity` elements, oldest first. -/
def Call.queue (capacity esize : Nat) : Call → List (List UInt8) → Answer × List (List UInt8)
  | .input buf nelem, queue =>
    let accepted := (elements esize nelem.toNat buf).take (capacity - queue.length)
    (⟨accepted.length, []⟩, queue ++ accepted)
  | .output nelem, queue =>
    let oldest := queue.take nelem.toNat
    (⟨oldest.length, oldest.flatten⟩, queue.drop nelem.toNat)
  | .peek nelem, queue =>
    let oldest := queue.take nelem.toNat
    (⟨oldest.length, oldest.flatten⟩, queue)

/-- The caller's buffer has the elements it passes. -/
def Call.Provides (esize : Nat) : Call → Prop
  | .input buf nelem => nelem.toNat * esize ≤ buf.length
  | .output _ => True
  | .peek _ => True

instance (esize : Nat) (call : Call) : Decidable (call.Provides esize) :=
  match call with
  | .input buf nelem => inferInstanceAs (Decidable (nelem.toNat * esize ≤ buf.length))
  | .output _ => isTrue trivial
  | .peek _ => isTrue trivial

end CLibs.Fifos
