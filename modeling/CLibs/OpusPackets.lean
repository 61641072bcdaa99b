import Mathlib.Algebra.Group.Int.Defs
import Mathlib.Algebra.GroupWithZero.Nat
import Mathlib.Data.List.Basic

/-!
# Opus packets

`opus_packet_getframes` walks over the access units of a transport stream, or takes the whole
input as one packet if it does not begin with a control header, and `opus_parse_frames` hands the
frames of a packet to a callback.  A call of the callback is a range of the input: where the frame
begins and its size, both of which may be wrong.  `opus_head_load` reads an identification header.

Positions are the rest of the input behind them.  `int` arithmetic wraps, and the assertion of
`opus_packet_getframes` is checked.
-/

namespace CLibs.Opus

/-- What must not happen: a division by zero, an access outside, an assertion, a loop. -/
inductive OpusFault
  | division
  | outside
  | assertion
  | fuel
  deriving DecidableEq, Repr

def int32 (value : Int) : Int := Int.bmod value (2 ^ 32)

/-! ## Frames -/

/-- A call `onframe(toc, frame, size)`, the frame as its place in the input. -/
structure FrameCall where
  toc : UInt8
  frame : Nat
  size : Int
  deriving DecidableEq, Repr

/-- The callback, which may look at the calls before. -/
abbrev OnFrame := List FrameCall → FrameCall → Int

/-- The frames are handed over, until the callback returns something else than `0`. -/
def deliver (onframe : OnFrame) : (calls frames : List FrameCall) → Int × List FrameCall
  | calls, [] => (0, calls)
  | calls, frame :: frames =>
    if onframe calls frame ≠ 0 then (onframe calls frame, calls ++ [frame])
    else deliver onframe (calls ++ [frame]) frames

/-- The size that is read, and what stands behind it. -/
def opusParseSize : List UInt8 → Option (Nat × List UInt8)
  | [] => none
  | first :: rest =>
    if first.toNat < 252 then some (first.toNat, rest)
    else
      match rest with
      | [] => none
      | second :: rest => some (4 * second.toNat + first.toNat, rest)

/-- What stands behind the padding sizes, while `len` bytes are left beside the padding. -/
def opusParsePadding : (len : Int) → List UInt8 → Except OpusFault (Option (List UInt8))
  | len, data =>
    if len ≤ 0 then .ok none
    else
      match data with
      | [] => .error .outside
      | n :: data =>
        if n = 255 then opusParsePadding (len - 1 - 254) data
        else .ok (some data)

/-- The `remaining` explicit sizes: those before are in `n[]`, which has `48` entries. -/
def opusParseSizes : (remaining : Nat) → (n : List Nat) → List UInt8 →
    Except OpusFault (Option (List Nat × List UInt8))
  | 0, n, p => .ok (some (n, p))
  | remaining + 1, n, p =>
    match opusParseSize p with
    | none => .ok none
    | some (size, p) =>
      if 48 ≤ n.length then .error .outside
      else if p.length < size then .ok none
      else opusParseSizes remaining (n ++ [size]) p

def framesFrom (toc : UInt8) : (frame : Nat) → (sizes : List Nat) → List FrameCall
  | _, [] => []
  | frame, size :: sizes => ⟨toc, frame, size⟩ :: framesFrom toc (frame + size) sizes

/-- The frames of a packet of code `3` behind its frame count and its padding sizes. -/
def opusCountedFrames (toc : UInt8) (count : Nat) (vbr : Bool) (start : Nat) (p : List UInt8) :
    Except OpusFault (Option (List FrameCall)) :=
  if vbr then
    match opusParseSizes (count - 1) [] p with
    | .error fault => .error fault
    | .ok none => .ok none
    | .ok (some (n, rest)) =>
      if rest.length > 1275 then .ok none
      else if 48 ≤ n.length then .error .outside
      else
        .ok (some (framesFrom toc (start + (p.length - rest.length))
          ((n ++ [rest.length]).take count)))
  else if count = 0 then .error .division
  else if p.length / count * count ≠ p.length then .ok none
  else .ok (some (framesFrom toc start (List.replicate count (p.length / count))))

def oneFrame (toc : UInt8) : UInt8 := toc &&& 0xFC

/-- What stands behind the frame count and the padding sizes of a packet of code `3`. -/
def opusSkipPadding (header : UInt8) (p : List UInt8) : Except OpusFault (Option (List UInt8)) :=
  if header.toNat / 64 % 2 = 1 then opusParsePadding p.length p else .ok (some p)

/-- The calls that `opus_parse_frames` makes if the callback agrees to all of them, or nothing if it
returns `-1`; `start` is where the packet begins. -/
def opusFrames (start : Nat) : List UInt8 → Except OpusFault (Option (List FrameCall))
  | [] => .ok none
  | toc :: p =>
    match toc.toNat % 4 with
    | 0 => .ok (some [⟨toc, start + 1, (p.length : Int) - 1⟩])
    | 1 =>
      if p.length % 2 = 1 then .ok none
      else
        -- `p` stays where it is between the two calls
        .ok (some [⟨oneFrame toc, start + 1, (p.length / 2 : Nat)⟩,
          ⟨oneFrame toc, start + 1, (p.length / 2 : Nat)⟩])
    | 2 =>
      match opusParseSize p with
      | none => .ok none
      | some (size, rest) =>
        if rest.length < size then .ok none
        else
          .ok (some (framesFrom (oneFrame toc) (start + 1 + (p.length - rest.length))
            [size, rest.length - size]))
    | _ =>
      match p with
      | [] => .ok none
      | header :: p =>
        match opusSkipPadding header p with
        | .error fault => .error fault
        | .ok none => .ok none
        | .ok (some rest) =>
          opusCountedFrames (oneFrame toc) (header.toNat % 64) (128 ≤ header.toNat)
            (start + 2 + (p.length - rest.length)) rest

def opusParseFrames (onframe : OnFrame) (start : Nat) (data : List UInt8) (calls : List FrameCall) :
    Except OpusFault (Int × List FrameCall) :=
  match opusFrames start data with
  | .error fault => .error fault
  | .ok none => .ok (-1, calls)
  | .ok (some frames) => .ok (deliver onframe calls frames)

/-! ## Access units -/

/-- `au_size` and the position behind it: a byte counts while the one before it is `0xff`. -/
def auSizeFrom (data : List UInt8) : (remaining i : Nat) → (auSize : Int) → Nat × Int
  | 0, i, auSize => (i, auSize)
  | remaining + 1, i, auSize =>
    if data.getD (i - 1) 0 = 0xff then
      auSizeFrom data remaining (i + 1) (int32 (auSize + (data.getD i 0).toNat))
    else (i, auSize)

def controlPrefix (data : List UInt8) : Bool :=
  ((data.getD 0 0).toNat * 256 + (data.getD 1 0).toNat) / 32 == 0x3FF

def byteAt (data : List UInt8) (i : Int) : Except OpusFault Nat :=
  if 0 ≤ i ∧ i < data.length then .ok (data.getD i.toNat 0).toNat else .error .outside

def skipExtension (data : List UInt8) (control : Bool) (i : Int) :
    Except OpusFault (Option Int) :=
  if control then do
    let length ← byteAt data i
    if int32 (i + 1 + length) > data.length then .ok none
    else .ok (some (int32 (i + (1 + length))))
  else .ok (some i)

/-- Where the payload begins and its size. -/
def opusTsHeader (data : List UInt8) : Except OpusFault (Option (Nat × Int)) :=
  if data.length < 3 then .ok none
  else if controlPrefix data then
    let flags := (data.getD 1 0).toNat
    let startTrim : Int := if flags / 16 % 2 = 1 then 2 else 0
    let endTrim : Int := if flags / 8 % 2 = 1 then 2 else 0
    let control := decide (flags / 4 % 2 = 1)
    let size := auSizeFrom data (data.length - 3) 3 (data.getD 2 0).toNat
    if int32 (size.1 + startTrim + endTrim + if control then 1 else 0) > data.length then .ok none
    else do
      match ← skipExtension data control (int32 (size.1 + startTrim + endTrim)) with
      | none => .ok none
      | some i =>
        if int32 (i + size.2) > data.length then .ok none
        else if i < 0 then .error .outside
        else .ok (some (i.toNat, size.2))
  else .ok (some (0, data.length))

/-- The loop over the access units. -/
def opusUnitFrames (onframe : OnFrame) : (fuel start : Nat) → (data : List UInt8) →
    (calls : List FrameCall) → Except OpusFault (Int × List FrameCall)
  | 0, _, _, _ => .error .fuel
  | fuel + 1, start, data, calls =>
    if data = [] then .ok (0, calls)
    else
      match opusTsHeader data with
      | .error fault => .error fault
      | .ok none => .ok (-1, calls)
      | .ok (some (i, payload)) =>
        if (data.length : Int) < i + payload then .error .assertion
        else
          match opusParseFrames onframe (start + i) ((data.drop i).take payload.toNat) calls with
          | .error fault => .error fault
          | .ok (r, calls) =>
            if r < 0 then .ok (r, calls)
            else
              opusUnitFrames onframe fuel (start + (i + payload.toNat))
                (data.drop (i + payload.toNat)) calls

def opusPacketGetframes (onframe : OnFrame) (data : List UInt8) :
    Except OpusFault (Int × List FrameCall) :=
  opusUnitFrames onframe (data.length + 1) 0 data []

/-! ## Identification headers -/

structure OpusHead where
  version : UInt8
  channels : UInt8
  preSkip : Nat
  inputSampleRate : Nat
  outputGain : Int
  channelMappingFamily : UInt8
  streamCount : UInt8
  coupledCount : UInt8
  channelMapping : List UInt8
  deriving DecidableEq, Repr

def opusCoupledStreamCnt : List UInt8 := [1, 0, 1, 1, 2, 2, 2, 3, 3]

def opusStreamCnt : List UInt8 := [1, 1, 1, 2, 2, 3, 4, 4, 5]

def opusChannelMap : List (List UInt8) :=
  [[0, 0, 0, 0, 0, 0, 0, 0], [0, 1, 0, 0, 0, 0, 0, 0], [0, 2, 1, 0, 0, 0, 0, 0],
    [0, 1, 2, 3, 0, 0, 0, 0], [0, 4, 1, 2, 3, 0, 0, 0], [0, 4, 1, 2, 3, 5, 0, 0],
    [0, 4, 1, 2, 3, 5, 6, 0], [0, 6, 1, 2, 3, 4, 5, 7]]

def entry {Value : Type} (table : List Value) (index : Nat) : Except OpusFault Value :=
  match table[index]? with
  | some value => .ok value
  | none => .error .outside

def opusHeadChannels (channels : UInt8) : Nat := if channels = 0 then 2 else channels.toNat

def opusMagic : List UInt8 := [0x4f, 0x70, 0x75, 0x73, 0x48, 0x65, 0x61, 0x64]

/-- A number of `count` bytes, the low byte first. -/
def littleAt (data : List UInt8) (position : Nat) : (count : Nat) → Nat
  | 0 => 0
  | count + 1 => (data.getD position 0).toNat + 256 * littleAt data (position + 1) count

def opusHeadLoad (data : List UInt8) : Except OpusFault (Int × Option OpusHead) :=
  if data.length < 19 ∨ data.take 8 ≠ opusMagic then .ok (-1, none)
  else do
    let channels := data.getD 9 0
    let family := data.getD 18 0
    let opus := fun streamCount coupledCount channelMapping =>
      { version := data.getD 8 0
        channels := channels
        preSkip := littleAt data 10 2
        inputSampleRate := littleAt data 12 4
        outputGain := Int.bmod (littleAt data 16 2) (2 ^ 16)
        channelMappingFamily := family
        streamCount := streamCount
        coupledCount := coupledCount
        channelMapping := channelMapping : OpusHead }
    if family ≠ 0 ∧ 29 ≤ data.length then
      return (29, some (opus (data.getD 19 0) (data.getD 20 0) ((data.drop 21).take 8)))
    let streamCount ← entry opusStreamCnt channels.toNat
    let coupledCount ← entry opusCoupledStreamCnt channels.toNat
    let channelMapping ← entry opusChannelMap (opusHeadChannels channels - 1)
    return (19, some (opus streamCount coupledCount channelMapping))

end CLibs.Opus
