import CLibs.TsPesLayout

/-!
# Program tables

Model of `pat_write` of `mpeg-pat.c`, of `pmt_write` of `mpeg-pmt.c` and of the
packet that `mpeg_ts_write_section_header` of `mpeg-ts-enc.c` makes of such a
section.  Sections are built in the 1024 bytes of `payload`.
-/

namespace CLibs.MpegTs

open List

variable {Cell : Type}

def opusExtensionDescriptorTag : UInt8 := 0x80

def sectionCapacity : Nat := 1024

def patEntry (pmt : Pmt Cell) : List UInt8 :=
  nboW16 pmt.pn ++ nboW16 (0xE000 ||| pmt.pid)

/-- `pat_write`: the section with its checksum. -/
def patWrite (pat : Pat Cell) : Except Fault (List UInt8) := do
  let len := pat.pmts.count * 4 + 5 + 4
  check (len ≤ 1021)
  check (len ≤ tsPacketSize - 7)
  return withCrc32 ([(0x00 : UInt8)] ++ nboW16 (0xb000 ||| len) ++ nboW16 pat.tsid ++
    [UInt8.ofNat (0xC1 ||| (pat.ver <<< 1)), 0x00, 0x00] ++ pat.pmts.live.flatMap patEntry)

/-- The channel count of an Opus stream: the tenth byte of its description,
which the source reads as soon as there are nine. -/
def opusChannels (stream : Pes Cell) : Except Fault UInt8 :=
  if stream.esinfoLen > 8 then
    ((stream.esinfo.getD [])[9]?).elim (.error .outside) .ok
  else .ok 2

/-- `pmt_write_descriptor`, with `bytes` bytes of room. -/
def pmtWriteDescriptor (stream : Pes Cell) (bytes : Nat) : Except Fault (List UInt8) := do
  if stream.codecid = psiStreamAudioOpus ∧ bytes > 2 + 4 + 4 then
    let channels ← opusChannels stream
    return [0x05, 4, 0x4F, 0x70, 0x75, 0x73, 0x7f, 2, opusExtensionDescriptorTag, channels]
  else return []

def pmtEntry (stream : Pes Cell) (descriptor : List UInt8) : List UInt8 :=
  [if stream.codecid = psiStreamAudioOpus then psiStreamPrivateData else stream.codecid] ++
    nboW16 (0xE000 ||| stream.pid) ++ nboW16 (0xF000 ||| descriptor.length) ++ descriptor

/-- The loop of `pmt_write` over the streams, from position `p` of the section
on.  It ends early when the section has no room for a stream's description. -/
def pmtWriteStreams : List (Pes Cell) → Nat → Except Fault (List UInt8)
  | [], _ => .ok []
  | stream :: streams, p =>
    if p + stream.esinfoLen < 1021 - 4 - 5 then do
      let descriptor ← pmtWriteDescriptor stream (1021 - (p + 5))
      let rest ← pmtWriteStreams streams (p + 5 + descriptor.length)
      return pmtEntry stream descriptor ++ rest
    else .ok []

/-- The program description, copied behind the fixed part of the section. -/
def pmtWriteInfo (pmt : Pmt Cell) : Except Fault (List UInt8) := do
  if pmt.pminfoLen > 0 then
    check (pmt.pminfo.isSome = true)
    if 12 + pmt.pminfoLen ≤ sectionCapacity ∧ pmt.pminfoLen ≤ (pmt.pminfo.getD []).length then
      return (pmt.pminfo.getD []).take pmt.pminfoLen
    else throw .outside
  else return []

/-- `pmt_write`: the section with its checksum. -/
def pmtWrite (pmt : Pmt Cell) : Except Fault (List UInt8) := do
  check (pmt.pminfoLen < 0x400)
  let info ← pmtWriteInfo pmt
  let streams ← pmtWriteStreams pmt.streams.live (12 + pmt.pminfoLen)
  let len := 12 + pmt.pminfoLen + streams.length + 4 - 3
  check (len ≤ 1021)
  check (len ≤ tsPacketSize - 7)
  return withCrc32 ([(0x02 : UInt8)] ++ nboW16 (0xb000 ||| len) ++ nboW16 pmt.pn ++
    [UInt8.ofNat (0xC1 ||| (pmt.ver <<< 1)), 0x00, 0x00] ++ nboW16 (0xE000 ||| pmt.pcrPid) ++
    nboW16 (0xF000 ||| pmt.pminfoLen) ++ info ++ streams)

def tsSectionPacket (pid cc : Nat) (payload : List UInt8) : Except Fault (List UInt8) := do
  check (payload.length < tsPacketSize - 5)
  let data ← (Buffer.alloc tsPacketSize).store 0
    [(0x47 : UInt8), UInt8.ofNat ((pid >>> 8) &&& 0x1F) ||| 0x40, UInt8.ofNat (pid &&& 0xFF),
      UInt8.ofNat (0x10 ||| (cc &&& 0x0F)), 0x00]
  let data ← data.store 5 payload
  let data ← data.store (5 + payload.length)
    (List.replicate (tsPacketSize - payload.length - 5) 0xff)
  data.contents

def sectionBody (payload : List UInt8) : List UInt8 :=
  [0x00] ++ payload ++ List.replicate (tsPacketSize - payload.length - 5) 0xff

variable {payload : List UInt8}

theorem tsSectionPacket_eq (pid cc : Nat) (fits : payload.length < tsPacketSize - 5) :
    tsSectionPacket pid cc payload = .ok (tsPacket pid cc true none (sectionBody payload)) := by
  have packet : tsPacketSize = 188 := rfl
  have opened : ((Buffer.alloc tsPacketSize).written 0
      [(0x47 : UInt8), UInt8.ofNat ((pid >>> 8) &&& 0x1F) ||| 0x40, UInt8.ofNat (pid &&& 0xFF),
        UInt8.ofNat (0x10 ||| (cc &&& 0x0F)), 0x00]).Holds 0
      (tsHeaderBytes pid cc true false ++ [0x00]) := by
    simp only [tsHeaderBytes, startByte, controlByte, Bool.false_eq_true, if_false, if_true,
      UInt8.or_zero]
    exact Buffer.written_holds _ _ (by simp [packet])
  have room : 5 + payload.length ≤ tsPacketSize := by omega
  have fillRoom : 5 + payload.length +
      (List.replicate (tsPacketSize - payload.length - 5) (0xff : UInt8)).length ≤
        tsPacketSize := by
    rw [length_replicate]
    omega
  have held := (opened.extend payload (show 5 = _ from rfl) room).extend
    (List.replicate (tsPacketSize - payload.length - 5) 0xff)
    (show 5 + payload.length = _ by simp [tsHeaderBytes]; omega) fillRoom
  have yields : Yields (tsSectionPacket pid cc payload)
      (· = tsPacket pid cc true none (sectionBody payload)) := by
    apply Yields.step (check_eq fits)
    apply Yields.step (Buffer.store_eq (by simp [packet]))
    apply Yields.step (Buffer.store_eq (by exact room))
    apply Yields.step (Buffer.store_eq (by exact fillRoom))
    refine ⟨_, held.contents_eq ?_, ?_⟩
    · simp only [length_append, length_replicate, tsHeaderBytes, length_cons,
        length_nil, Buffer.written_size, Buffer.alloc_size]
      omega
    · simp only [tsPacket, sectionBody, fieldBytes_none, Option.isSome_none, append_nil,
        append_assoc]
  obtain ⟨value, returned, rfl⟩ := yields
  exact returned

theorem tsSectionPacket_error (pid cc : Nat) (long : ¬payload.length < tsPacketSize - 5) :
    tsSectionPacket pid cc payload = .error .assertion :=
  error_bind (check_error long) _

theorem sectionPacket_length (pid cc : Nat) (fits : payload.length < tsPacketSize - 5) :
    (tsPacket pid cc true none (sectionBody payload)).length = tsPacketSize := by
  have packet : tsPacketSize = 188 := rfl
  simp only [tsPacket, sectionBody, tsHeaderBytes, fieldBytes_none, length_append,
    length_cons, length_nil, length_replicate]
  omega

end CLibs.MpegTs

/-!
## Sizes of the program tables

A section holds all programs, or all streams of a program, and fits its packet
exactly if their number and the length of the program's description are small
enough.  The description of a stream is not written, but the loop of `pmt_write`
leaves room for it.
-/

namespace CLibs.MpegTs

open List

variable {Cell : Type}

/-! ## The entries of a program map -/

/-- The tenth byte of the description is there when it is read. -/
def ChannelsHeld (stream : Pes Cell) : Prop :=
  stream.codecid = psiStreamAudioOpus → stream.esinfoLen > 8 →
    9 < (stream.esinfo.getD []).length

instance (stream : Pes Cell) : Decidable (ChannelsHeld stream) :=
  inferInstanceAs (Decidable (_ → _))

def writtenChannels (stream : Pes Cell) : UInt8 :=
  if stream.esinfoLen > 8 then (stream.esinfo.getD []).getD 9 0 else 2

def streamDescriptor (stream : Pes Cell) : List UInt8 :=
  if stream.codecid = psiStreamAudioOpus then
    [0x05, 4, 0x4F, 0x70, 0x75, 0x73, 0x7f, 2, opusExtensionDescriptorTag, writtenChannels stream]
  else []

def entrySize (stream : Pes Cell) : Nat := if stream.codecid = psiStreamAudioOpus then 15 else 5

def mapEntries (streams : List (Pes Cell)) : List UInt8 :=
  streams.flatMap fun stream => pmtEntry stream (streamDescriptor stream)

theorem pmtEntry_length (stream : Pes Cell) :
    (pmtEntry stream (streamDescriptor stream)).length = entrySize stream := by
  unfold pmtEntry streamDescriptor entrySize
  split <;> rfl

theorem mapEntries_cons (stream : Pes Cell) (streams : List (Pes Cell)) :
    mapEntries (stream :: streams) =
      pmtEntry stream (streamDescriptor stream) ++ mapEntries streams := rfl

theorem mapEntries_length (streams : List (Pes Cell)) :
    (mapEntries streams).length = (streams.map entrySize).sum := by
  induction streams with
  | nil => rfl
  | cons stream streams ih =>
    rw [mapEntries_cons, length_append, pmtEntry_length, ih, map_cons, sum_cons]

variable {stream : Pes Cell}

theorem opusChannels_eq (opus : stream.codecid = psiStreamAudioOpus) (held : ChannelsHeld stream) :
    opusChannels stream = .ok (writtenChannels stream) := by
  unfold opusChannels writtenChannels
  by_cases described : stream.esinfoLen > 8
  · have inside := held opus described
    rw [if_pos described, if_pos described, List.getElem?_eq_getElem inside,
      getD_eq_getElem?_getD, List.getElem?_eq_getElem inside]
    rfl
  · rw [if_neg described, if_neg described]

theorem opusChannels_held {channels : UInt8} (returned : opusChannels stream = .ok channels) :
    ChannelsHeld stream := by
  intro opus described
  unfold opusChannels at returned
  rw [if_pos described] at returned
  by_contra outside
  rw [List.getElem?_eq_none (Nat.not_lt.mp outside)] at returned
  exact absurd returned nofun

theorem pmtWriteDescriptor_iff {bytes : Nat} (room : bytes > 2 + 4 + 4) :
    pmtWriteDescriptor stream bytes = .ok (streamDescriptor stream) ↔ ChannelsHeld stream := by
  unfold pmtWriteDescriptor streamDescriptor
  by_cases opus : stream.codecid = psiStreamAudioOpus
  · rw [if_pos ⟨opus, room⟩, if_pos opus]
    constructor
    · intro written
      obtain ⟨channels, returned, -⟩ := ok_of_bind written
      exact opusChannels_held returned
    · intro held
      rw [opusChannels_eq opus held]
      rfl
  · rw [if_neg fun both => opus both.1, if_neg opus]
    exact ⟨fun _ is => absurd is opus, fun _ => rfl⟩

theorem pmtWriteDescriptor_returned {bytes : Nat} {descriptor : List UInt8}
    (room : bytes > 2 + 4 + 4) (returned : pmtWriteDescriptor stream bytes = .ok descriptor) :
    ChannelsHeld stream := by
  by_cases opus : stream.codecid = psiStreamAudioOpus
  · unfold pmtWriteDescriptor at returned
    rw [if_pos ⟨opus, room⟩] at returned
    obtain ⟨channels, found, -⟩ := ok_of_bind returned
    exact opusChannels_held found
  · exact fun is => absurd is opus

/-- The streams that are written from position `p` on leave room for the
description of the next one. -/
def StreamsFit : List (Pes Cell) → Nat → Prop
  | [], _ => True
  | stream :: streams, p =>
    p + stream.esinfoLen < 1021 - 4 - 5 ∧ ChannelsHeld stream ∧
      StreamsFit streams (p + entrySize stream)

theorem pmtWriteStreams_iff {streams : List (Pes Cell)} {p : Nat}
    (small : p + (mapEntries streams).length ≤ 1000) :
    pmtWriteStreams streams p = .ok (mapEntries streams) ↔ StreamsFit streams p := by
  induction streams generalizing p with
  | nil => exact ⟨fun _ => trivial, fun _ => rfl⟩
  | cons stream streams ih =>
    have length := pmtEntry_length stream
    have size : 5 + (streamDescriptor stream).length = entrySize stream := by
      unfold streamDescriptor entrySize
      split <;> rfl
    rw [mapEntries_cons, length_append, length] at small
    have room : 1021 - (p + 5) > 2 + 4 + 4 := by
      unfold entrySize at small
      split at small <;> omega
    have others := ih (p := p + entrySize stream) (by omega)
    rw [pmtWriteStreams, StreamsFit, mapEntries_cons]
    by_cases enough : p + stream.esinfoLen < 1021 - 4 - 5
    · rw [if_pos enough]
      constructor
      · intro written
        obtain ⟨descriptor, first, written⟩ := ok_of_bind written
        have held := pmtWriteDescriptor_returned room first
        have same : streamDescriptor stream = descriptor :=
          Except.ok.inj (((pmtWriteDescriptor_iff room).mpr held).symm.trans first)
        obtain ⟨rest, second, written⟩ := ok_of_bind written
        rw [← same, Nat.add_assoc, size] at second
        rw [← same] at written
        have equal := append_cancel_left (Except.ok.inj written)
        rw [equal] at second
        exact ⟨enough, held, others.mp second⟩
      · rintro ⟨-, held, fit⟩
        rw [(pmtWriteDescriptor_iff room).mpr held, ok_bind, Nat.add_assoc, size,
          others.mpr fit]
        rfl
    · rw [if_neg enough]
      constructor
      · intro written
        have empty := congrArg List.length (Except.ok.inj written)
        rw [length_append, length] at empty
        unfold entrySize at empty
        split at empty
        · simp at empty
          omega
        · simp at empty
          omega
      · exact fun fit => absurd fit.1 enough

/-! ## Whole sections -/

theorem withCrc32_injective {first second : List UInt8} (same : withCrc32 first = withCrc32 second) :
    first = second := by
  have length := congrArg List.length same
  rw [withCrc32_length, withCrc32_length] at length
  exact (append_inj same (by omega)).1

/-- What stands before the streams in a map of so many bytes. -/
def pmtHead (pmt : Pmt Cell) (len : Nat) : List UInt8 :=
  [(0x02 : UInt8)] ++ nboW16 (0xb000 ||| len) ++ nboW16 pmt.pn ++
    [UInt8.ofNat (0xC1 ||| (pmt.ver <<< 1)), 0x00, 0x00] ++ nboW16 (0xE000 ||| pmt.pcrPid) ++
    nboW16 (0xF000 ||| pmt.pminfoLen) ++ pmt.pminfo.getD []

def pmtLength (pmt : Pmt Cell) : Nat :=
  12 + pmt.pminfoLen + (mapEntries pmt.streams.live).length + 4 - 3

def pmtSection (pmt : Pmt Cell) : List UInt8 :=
  withCrc32 (pmtHead pmt (pmtLength pmt) ++ mapEntries pmt.streams.live)

/-- The copy of the program's description is as long as the context says. -/
def InfoHeld (pmt : Pmt Cell) : Prop := pmt.pminfoLen = (pmt.pminfo.getD []).length

/-- The section of the program fits in one packet. -/
structure ProgramFits (pmt : Pmt Cell) : Prop where
  size : 16 + pmt.pminfoLen + (pmt.streams.live.map entrySize).sum < tsPacketSize - 5
  streams : StreamsFit pmt.streams.live (12 + pmt.pminfoLen)

variable {pmt : Pmt Cell}

theorem pmtHead_length (held : InfoHeld pmt) (len : Nat) :
    (pmtHead pmt len).length = 12 + pmt.pminfoLen := by
  unfold pmtHead
  rw [length_append, ← held]
  rfl

theorem pmtSection_length (held : InfoHeld pmt) :
    (pmtSection pmt).length = 16 + pmt.pminfoLen + (pmt.streams.live.map entrySize).sum := by
  unfold pmtSection
  rw [withCrc32_length, length_append, pmtHead_length held, mapEntries_length]
  omega

theorem pmtWriteInfo_eq (held : InfoHeld pmt) (room : 12 + pmt.pminfoLen ≤ sectionCapacity) :
    pmtWriteInfo pmt = .ok (pmt.pminfo.getD []) := by
  unfold InfoHeld at held
  unfold pmtWriteInfo
  by_cases some : pmt.pminfoLen > 0
  · have present : pmt.pminfo.isSome = true := by
      cases given : pmt.pminfo with
      | none =>
        rw [held, given] at some
        exact absurd some (Nat.lt_irrefl 0)
      | some info => rfl
    rw [if_pos some, check_eq present, ok_bind, if_pos ⟨room, Nat.le_of_eq held⟩, held,
      take_length]
    rfl
  · have empty : pmt.pminfo.getD [] = [] := length_eq_zero_iff.mp (by omega)
    rw [if_neg some, empty]
    rfl

theorem pmtWrite_eq (held : InfoHeld pmt) (room : 12 + pmt.pminfoLen ≤ sectionCapacity)
    (short : pmt.pminfoLen < 0x400) :
    pmtWrite pmt = (do
      let streams ← pmtWriteStreams pmt.streams.live (12 + pmt.pminfoLen)
      check (12 + pmt.pminfoLen + streams.length + 4 - 3 ≤ 1021)
      check (12 + pmt.pminfoLen + streams.length + 4 - 3 ≤ tsPacketSize - 7)
      pure (withCrc32 (pmtHead pmt (12 + pmt.pminfoLen + streams.length + 4 - 3) ++ streams))) := by
  unfold pmtWrite
  rw [check_eq short, ok_bind, pmtWriteInfo_eq held room, ok_bind]
  rfl

theorem pmtWrite_iff (held : InfoHeld pmt) :
    Yields (pmtWrite pmt) (fun payload =>
      payload = pmtSection pmt ∧ payload.length < tsPacketSize - 5) ↔ ProgramFits pmt := by
  have packet : tsPacketSize = 188 := rfl
  have capacity : sectionCapacity = 1024 := rfl
  have length := pmtSection_length held
  have entries := mapEntries_length pmt.streams.live
  constructor
  · rintro ⟨payload, written, rfl, fits⟩
    have size : 16 + pmt.pminfoLen + (pmt.streams.live.map entrySize).sum < tsPacketSize - 5 := by
      rwa [← length]
    refine ⟨size, ?_⟩
    rw [pmtWrite_eq held (by omega) (by omega)] at written
    obtain ⟨streams, first, written⟩ := ok_of_bind written
    obtain ⟨-, -, written⟩ := ok_of_bind written
    obtain ⟨-, -, written⟩ := ok_of_bind written
    have same := withCrc32_injective (Except.ok.inj written)
    have heads : (pmtHead pmt (12 + pmt.pminfoLen + streams.length + 4 - 3)).length =
        (pmtHead pmt (pmtLength pmt)).length := by
      rw [pmtHead_length held, pmtHead_length held]
    rw [(append_inj same heads).2] at first
    exact (pmtWriteStreams_iff (by omega)).mp first
  · intro fits
    have size := fits.size
    have streams := (pmtWriteStreams_iff (by omega)).mpr fits.streams
    refine ⟨pmtSection pmt, ?_, rfl, by rwa [length]⟩
    rw [pmtWrite_eq held (by omega) (by omega), streams, ok_bind, check_eq (by omega), ok_bind,
      check_eq (by omega), ok_bind]
    rfl

/-- The table with all programs. -/
def patSection (pat : Pat Cell) : List UInt8 :=
  withCrc32 ([(0x00 : UInt8)] ++ nboW16 (0xb000 ||| (pat.pmts.count * 4 + 5 + 4)) ++
    nboW16 pat.tsid ++ [UInt8.ofNat (0xC1 ||| (pat.ver <<< 1)), 0x00, 0x00] ++
    pat.pmts.live.flatMap patEntry)

theorem patEntries_length (pmts : List (Pmt Cell)) :
    (pmts.flatMap patEntry).length = 4 * pmts.length := by
  induction pmts with
  | nil => rfl
  | cons pmt pmts ih =>
    rw [flatMap_cons, length_append, ih, length_cons]
    change 4 + _ = _
    omega

theorem patSection_length (pat : Pat Cell) :
    (patSection pat).length = 12 + 4 * pat.pmts.count := by
  unfold patSection
  rw [withCrc32_length, length_append, patEntries_length, SlotArray.live_length]
  change 8 + _ + 4 = _
  omega

/-- The PAT is written exactly if it fits into a packet. -/
theorem patWrite_iff (pat : Pat Cell) :
    Yields (patWrite pat) (fun payload =>
      payload = patSection pat ∧ payload.length < tsPacketSize - 5) ↔
        12 + 4 * pat.pmts.count < tsPacketSize - 5 := by
  have packet : tsPacketSize = 188 := rfl
  have length := patSection_length pat
  constructor
  · rintro ⟨payload, -, rfl, fits⟩
    rwa [← length]
  · intro fits
    refine ⟨patSection pat, ?_, rfl, by rwa [length]⟩
    unfold patWrite
    dsimp only
    rw [check_eq (by omega), ok_bind, check_eq (by omega), ok_bind]
    rfl

end CLibs.MpegTs
