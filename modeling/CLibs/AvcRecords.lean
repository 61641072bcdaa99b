import CLibs.AvcStore
import CLibs.ByteFiles
import Mathlib.Data.List.GetD

/-!
# AVC decoder configuration records

`mpeg4_avc_decoder_configuration_record_save` writes the parameter sets of a store
behind their lengths; `mpeg4_avc_decoder_configuration_record_load` fills a store
from such a record.  The loops of both stop on the count as well as on the end of the
input; the loop over the SPS keeps a byte for the number of PPS behind it.
-/

namespace CLibs.Avc

open List

/-! ## Loading -/

def byteAt (input : List UInt8) (position : Nat) : Except Fault UInt8 :=
  input[position]?.elim (.error .outside) .ok

/-- Where a loop over the parameter sets is: in the input, in `data` and in its array. -/
structure Loading where
  j : Nat
  p : Nat
  sets : Buffer Segment
  data : Buffer UInt8

/-- One turn of a loop; `beyond` tells that a set which ends there is too long. -/
def loadSet (beyond : Nat → Bool) (input : List UInt8) (i : Nat) (state : Loading) :
    Except Fault (Option Loading) := do
  let high ← byteAt input state.j
  let low ← byteAt input (state.j + 1)
  let len := high.toNat * 256 + low.toNat
  if beyond (state.j + 2 + len) ∨ state.p + len > dataSize then return none
  let data ← state.data.store state.p ((input.drop (state.j + 2)).take len)
  let sets ← state.sets.store i [⟨len, state.p⟩]
  return some ⟨state.j + (len + 2), state.p + len, sets, data⟩

/-- A loop over the parameter sets, and whether it has got through. -/
def loadSets (beyond : Nat → Bool) (input : List UInt8) :
    (remaining i : Nat) → Loading → Except Fault (Bool × Loading)
  | 0, _, state => return (true, state)
  | remaining + 1, i, state => do
      if state.j + 2 < input.length then
        match ← loadSet beyond input i state with
        | some next => loadSets beyond input remaining (i + 1) next
        | none => return (false, state)
      else return (true, state)

def loadPps (input : List UInt8) (avc : Mpeg4Avc) (loaded : Loading) :
    Except Fault (Option Nat × Mpeg4Avc) := do
  if loaded.j ≥ input.length then return (none, avc)
  let count ← byteAt input loaded.j
  if count.toNat > SetKind.pps.entries then return (none, avc)
  let (through, loaded) ← loadSets (fun finish => finish > input.length) input count.toNat 0
    ⟨loaded.j + 1, loaded.p, avc.pps, avc.data⟩
  let avc := { avc with nbPps := count, pps := loaded.sets, data := loaded.data }
  if through then return (some loaded.j, { avc with off := loaded.p })
  return (none, avc)

/-- How many bytes of the record were loaded, or `none` for a return of `-1`. -/
def mpeg4AvcDecoderConfigurationRecordLoad (input : List UInt8) (avc : Mpeg4Avc) :
    Except Fault (Option Nat × Mpeg4Avc) := do
  if input.length < 7 then return (none, avc)
  let profile ← byteAt input 1
  let compatibility ← byteAt input 2
  let level ← byteAt input 3
  let nalu ← byteAt input 4
  let count ← byteAt input 5
  let avc := { avc with
    profile := profile
    compatibility := compatibility
    level := level
    nalu := (nalu &&& 0x03) + 1
    nbSps := count &&& 0x1F }
  if avc.nbSps.toNat > SetKind.sps.entries then return (none, avc)
  let (through, loaded) ← loadSets (fun finish => finish ≥ input.length) input avc.nbSps.toNat 0
    ⟨6, 0, avc.sps, avc.data⟩
  let avc := { avc with sps := loaded.sets, data := loaded.data }
  if through then loadPps input avc loaded else return (none, avc)

/-! ## Saving -/

/-- A loop of `save` over an array: the room that is left and the bytes written. -/
def saveSets (sets : Buffer Segment) (data : Buffer UInt8) :
    (remaining i bytes : Nat) → Except Fault (Option (Nat × List UInt8))
  | 0, _, bytes => return some (bytes, [])
  | remaining + 1, i, bytes => do
      let set ← sets.load i
      if bytes ≥ set.bytes + 2 then
        let stored ← data.read set.data set.bytes
        match ← saveSets sets data remaining (i + 1) (bytes - (set.bytes + 2)) with
        | some (left, rest) => return some (left, bigEndian 2 set.bytes ++ stored ++ rest)
        | none => return none
      else return none

/-- The profiles with the extension of the record. -/
def highProfiles : List UInt8 := [100, 110, 122, 244, 44, 83, 86, 118, 128, 138, 139, 134]

/-- What `save` writes behind the PPS, in the room that is left. -/
def extension (avc : Mpeg4Avc) (left : Nat) : List UInt8 :=
  if left ≥ 4 ∧ avc.profile ∈ highProfiles then
    [0xFC ||| avc.chromaFormatIdc, 0xF8 ||| avc.bitDepthLumaMinus8,
      0xF8 ||| avc.bitDepthChromaMinus8, 0]
  else []

def recordHeader (avc : Mpeg4Avc) : List UInt8 :=
  [1, avc.profile, avc.compatibility, avc.level, 0xFC ||| (avc.nalu - 1), 0xE0 ||| avc.nbSps]

/-- The record that is written to a buffer of `bytes` bytes, or `none` for a return of
`-1`. -/
def mpeg4AvcDecoderConfigurationRecordSave (avc : Mpeg4Avc) (bytes : Nat) :
    Except Fault (Option (List UInt8)) := do
  if bytes < 7 ∨ avc.nbSps > 32 then return none
  match ← saveSets avc.sps avc.data avc.nbSps.toNat 0 (bytes - 7) with
  | none => return none
  | some (bytes, sps) =>
    match ← saveSets avc.pps avc.data avc.nbPps.toNat 0 bytes with
    | none => return none
    | some (bytes, pps) =>
      return some (recordHeader avc ++ sps ++ avc.nbPps :: pps ++ extension avc bytes)

end CLibs.Avc

/-!
## What a configuration record is read as

The loops of `load` take sets off the input as long as there are more than two bytes
left.  `Loads` says which sets a stretch of the loop has taken: their text stands in
the input, their bytes stand behind each other in `data`, and the entries point to
them.
-/

namespace CLibs.Avc

open List

variable {input rest : List UInt8} {i remaining : Nat} {state middle next : Loading}
  {string : List UInt8} {strings more : List (List UInt8)} {beyond : Nat → Bool}
  {sets : Buffer Segment} {data : Buffer UInt8}

/-! ## The text of parameter sets -/

def setText (string : List UInt8) : List UInt8 := bigEndian 2 string.length ++ string

def setsText (strings : List (List UInt8)) : List UInt8 := strings.flatMap setText

theorem setText_length (string : List UInt8) : (setText string).length = string.length + 2 := by
  rw [setText, length_append, bigEndian_length, Nat.add_comm]

@[simp] theorem setsText_nil : setsText [] = [] := rfl

theorem setsText_cons (string : List UInt8) (strings : List (List UInt8)) :
    setsText (string :: strings) = setText string ++ setsText strings := rfl

theorem setsText_inj {others : List (List UInt8)} {left right : List UInt8}
    (short : ∀ string ∈ strings, string.length < 2 ^ 16)
    (shorts : ∀ string ∈ others, string.length < 2 ^ 16) (count : strings.length = others.length)
    (same : setsText strings ++ left = setsText others ++ right) :
    strings = others ∧ left = right := by
  induction strings generalizing others with
  | nil =>
    obtain rfl := eq_nil_of_length_eq_zero count.symm
    exact ⟨rfl, same⟩
  | cons string strings ih =>
    cases others with
    | nil => exact absurd count (Nat.succ_ne_zero _)
    | cons other others =>
      rw [setsText_cons, setsText_cons, append_assoc, append_assoc, setText, setText,
        append_assoc, append_assoc] at same
      have widths : (bigEndian 2 string.length).length = (bigEndian 2 other.length).length := by
        rw [bigEndian_length, bigEndian_length]
      obtain ⟨lengths, behind⟩ := append_inj same widths
      have first : bigValue (bigEndian 2 string.length) = string.length :=
        bigValue_of_lt (short string mem_cons_self)
      have second : bigValue (bigEndian 2 other.length) = other.length :=
        bigValue_of_lt (shorts other mem_cons_self)
      have equal : string.length = other.length := by rw [← first, lengths, second]
      obtain ⟨rfl, rests⟩ := append_inj behind equal
      obtain ⟨rfl, rfl⟩ := ih (forall_mem_cons.mp short).2
        (forall_mem_cons.mp shorts).2 (Nat.succ.inj count)
        rests
      exact ⟨rfl, rfl⟩

/-! ## One turn of a loop -/

/-- The entries from `i` on point to these strings. -/
def Points (sets : Buffer Segment) (data : Buffer UInt8) (i : Nat) (strings : List (List UInt8)) :
    Prop :=
  ∀ k string, strings[k]? = some string → ∃ segment, sets.cells (i + k) = some segment ∧
    segment.bytes = string.length ∧ data.Holds segment.data string

structure Loads (input : List UInt8) (i : Nat) (strings : List (List UInt8))
    (state next : Loading) : Prop where
  text : input.drop state.j = setsText strings ++ input.drop next.j
  j : next.j = state.j + (setsText strings).length
  p : next.p = state.p + strings.flatten.length
  setsSize : next.sets.size = state.sets.size
  dataSize : next.data.size = state.data.size
  short : ∀ string ∈ strings, string.length < 2 ^ 16
  ends : strings.getLast? = some [] → next.j < input.length
  points : ∀ k string, strings[k]? = some string → ∃ segment,
    next.sets.cells (i + k) = some segment ∧ segment.bytes = string.length ∧
      segment.data + segment.bytes ≤ next.p ∧ next.data.Holds segment.data string
  others : ∀ k, k < i ∨ i + strings.length ≤ k → next.sets.cells k = state.sets.cells k
  kept : ∀ position bytes, position + bytes.length ≤ state.p → state.data.Holds position bytes →
    next.data.Holds position bytes

theorem Loads.refl (input : List UInt8) (i : Nat) (state : Loading) :
    Loads input i [] state state where
  text := rfl
  j := rfl
  p := rfl
  setsSize := rfl
  dataSize := rfl
  short := by simp
  ends := by simp
  points := fun k string found => absurd found (by simp)
  others := fun _ _ => rfl
  kept := fun _ _ _ holds => holds

theorem Loads.cons (first : Loads input i [string] state middle)
    (later : Loads input (i + 1) strings middle next) :
    Loads input i (string :: strings) state next where
  text := by
    rw [first.text, later.text, setsText_cons, setsText_cons, setsText_nil, append_nil,
      append_assoc]
  j := by
    rw [later.j, first.j, setsText_cons, setsText_cons, setsText_nil, append_nil,
      length_append, Nat.add_assoc]
  p := by
    rw [later.p, first.p, flatten_cons, flatten_cons, flatten_nil, append_nil,
      length_append, Nat.add_assoc]
  setsSize := later.setsSize.trans first.setsSize
  dataSize := later.dataSize.trans first.dataSize
  short := by
    intro set listed
    rcases mem_cons.mp listed with rfl | listed
    · exact first.short set mem_cons_self
    · exact later.short set listed
  ends := by
    intro last
    cases strings with
    | nil =>
      have reached := first.ends last
      have stays := later.j
      rw [setsText_nil, length_nil, Nat.add_zero] at stays
      omega
    | cons another strings =>
      rw [List.getLast?_cons_cons] at last
      exact later.ends last
  points := by
    intro k set found
    cases k with
    | zero =>
      rw [List.getElem?_cons_zero] at found
      obtain ⟨segment, cell, bytes, inside, holds⟩ := first.points 0 set found
      have forward := later.p
      refine ⟨segment, ?_, bytes, by omega, later.kept _ _ (by omega) holds⟩
      rw [later.others _ (.inl (by omega))]
      exact cell
    | succ k =>
      rw [List.getElem?_cons_succ] at found
      obtain ⟨segment, cell, rest⟩ := later.points k set found
      exact ⟨segment, by rw [← cell]; congr 1; omega, rest⟩
  others := by
    intro k outside
    rw [length_cons] at outside
    rw [later.others k (by omega), first.others k (by rw [length_singleton]; omega)]
  kept := by
    intro position bytes fits holds
    refine later.kept _ _ ?_ (first.kept _ _ fits holds)
    rw [first.p]
    omega

theorem Loads.stored (loads : Loads input i strings state next) :
    Points next.sets next.data i strings := by
  intro k set found
  obtain ⟨segment, cell, bytes, -, holds⟩ := loads.points k set found
  exact ⟨segment, cell, bytes, holds⟩

theorem byteAt_eq {position : Nat} {byte : UInt8} (found : input[position]? = some byte) :
    byteAt input position = .ok byte := by
  rw [byteAt, found]
  rfl

theorem loadSet_loads (text : input.drop state.j = setText string ++ rest)
    (short : string.length < 2 ^ 16) (clear : beyond (state.j + 2 + string.length) = false)
    (fits : state.p + string.length ≤ dataSize) (size : state.data.size = dataSize)
    (free : i < state.sets.size) (ends : string = [] → rest ≠ []) :
    ∃ next, loadSet beyond input i state = .ok (some next) ∧
      Loads input i [string] state next := by
  have start : state.j < input.length := by
    by_contra outside
    rw [drop_eq_nil_of_le (Nat.not_lt.mp outside)] at text
    have lengths := congrArg List.length text
    rw [length_append, setText_length] at lengths
    exact absurd lengths (by rw [length_nil]; omega)
  have lengths := congrArg List.length text
  rw [length_drop, length_append, setText_length] at lengths
  have bytes : setText string = UInt8.ofNat (string.length / 256) :: UInt8.ofNat string.length ::
      string := rfl
  rw [bytes] at text
  have high : input[state.j]? = some (UInt8.ofNat (string.length / 256)) := by
    rw [← Nat.add_zero state.j, ← List.getElem?_drop, text]
    rfl
  have low : input[state.j + 1]? = some (UInt8.ofNat string.length) := by
    rw [← List.getElem?_drop, text]
    rfl
  have len : (UInt8.ofNat (string.length / 256)).toNat * 256 + (UInt8.ofNat string.length).toNat =
      string.length := by
    rw [UInt8.toNat_ofNat', UInt8.toNat_ofNat']
    omega
  have after : input.drop (state.j + 2) = string ++ rest := by
    rw [← drop_drop, text]
    rfl
  have behind : input.drop (state.j + (string.length + 2)) = rest := by
    rw [Nat.add_comm string.length, ← Nat.add_assoc, ← drop_drop, after,
      drop_left' rfl]
  refine ⟨⟨state.j + (string.length + 2), state.p + string.length,
    state.sets.written i [⟨string.length, state.p⟩], state.data.written state.p string⟩, ?_, ?_⟩
  · unfold loadSet
    rw [byteAt_eq high, ok_bind, byteAt_eq low, ok_bind]
    dsimp only
    rw [len, clear, if_neg (by simp; omega), after, take_left' rfl,
      Buffer.store_eq (by omega), ok_bind, Buffer.store_eq free, ok_bind]
    rfl
  · refine ⟨?_, ?_, ?_, rfl, rfl, ?_, ?_, ?_, ?_, ?_⟩
    · rw [text, behind, setsText_cons, setsText_nil, append_nil]
      rfl
    · rw [setsText_cons, setsText_nil, append_nil, setText_length]
    · rw [flatten_cons, flatten_nil, append_nil]
    · intro set listed
      rw [mem_singleton.mp listed]
      exact short
    · intro last
      have empty : string = [] := Option.some.inj last
      have more := length_pos_iff.mpr (ends empty)
      dsimp only
      omega
    · intro k set found
      cases k with
      | zero =>
        obtain rfl : string = set := Option.some.inj found
        refine ⟨⟨string.length, state.p⟩, ?_, rfl, Nat.le_refl _,
          Buffer.written_holds _ _ (by omega)⟩
        dsimp only [Buffer.written]
        rw [if_pos ⟨Nat.le_refl _, by rw [length_singleton]; omega⟩, Nat.add_zero,
          Nat.sub_self, List.getElem?_cons_zero]
      | succ k => exact absurd found nofun
    · intro k outside
      dsimp only [Buffer.written]
      rw [length_singleton] at outside
      rw [if_neg (by rw [length_singleton]; omega)]
    · intro position bytes inside holds
      exact holds.written (.inl inside)

theorem exists_set (ahead : state.j + 2 < input.length) :
    ∃ high low, input[state.j]? = some high ∧ input[state.j + 1]? = some low ∧
      (state.j + 2 + (high.toNat * 256 + low.toNat) ≤ input.length →
        ∃ string rest, input.drop state.j = setText string ++ rest ∧
          string.length = high.toNat * 256 + low.toNat) := by
  refine ⟨input[state.j], input[state.j + 1], List.getElem?_eq_getElem _,
    List.getElem?_eq_getElem _, fun inside => ?_⟩
  generalize lengthEq : input[state.j].toNat * 256 + input[state.j + 1].toNat = len at inside
  have width : ((input.drop (state.j + 2)).take len).length = len := by
    rw [length_take, length_drop]
    omega
  refine ⟨(input.drop (state.j + 2)).take len, (input.drop (state.j + 2)).drop len, ?_, width⟩
  have high := (input[state.j]).toNat_lt
  have low := (input[state.j + 1]).toNat_lt
  have first : UInt8.ofNat (len / 256) = input[state.j] := by
    rw [← UInt8.toNat_inj, UInt8.toNat_ofNat']
    omega
  have second : UInt8.ofNat len = input[state.j + 1] := by
    rw [← UInt8.toNat_inj, UInt8.toNat_ofNat']
    omega
  have bytes : setText ((input.drop (state.j + 2)).take len) = UInt8.ofNat (len / 256) ::
      UInt8.ofNat len :: (input.drop (state.j + 2)).take len := by
    unfold setText
    rw [width]
    rfl
  rw [bytes, first, second, cons_append, cons_append, take_append_drop,
    drop_eq_getElem_cons (by omega), drop_eq_getElem_cons (by omega)]

/-! ## Whole loops -/

theorem loadSets_spec (bounded : ∀ finish, beyond finish = false → finish ≤ input.length)
    (size : state.data.size = dataSize) (room : state.p ≤ dataSize)
    (free : i + remaining ≤ state.sets.size) :
    ∃ through next strings, loadSets beyond input remaining i state = .ok (through, next) ∧
      strings.length ≤ remaining ∧ Loads input i strings state next ∧ next.p ≤ dataSize ∧
      (through = true → strings.length < remaining → input.length ≤ next.j + 2) := by
  induction remaining generalizing i state with
  | zero => exact ⟨true, state, [], rfl, Nat.le_refl 0, .refl input i state, room, nofun⟩
  | succ remaining ih =>
    by_cases ahead : state.j + 2 < input.length
    · obtain ⟨high, low, foundHigh, foundLow, split⟩ := exists_set ahead
      by_cases stops : beyond (state.j + 2 + (high.toNat * 256 + low.toNat)) ∨
          state.p + (high.toNat * 256 + low.toNat) > dataSize
      · refine ⟨false, state, [], ?_, Nat.zero_le _, .refl input i state, room, nofun⟩
        unfold loadSets loadSet
        rw [if_pos ahead, byteAt_eq foundHigh, ok_bind, byteAt_eq foundLow, ok_bind]
        dsimp only
        rw [if_pos stops]
        rfl
      · rw [not_or, Bool.not_eq_true, Nat.not_lt] at stops
        obtain ⟨string, rest, text, length⟩ := split (bounded _ stops.1)
        rw [← length] at stops
        have short : string.length < 2 ^ 16 := by
          have first := high.toNat_lt
          have second := low.toNat_lt
          omega
        have lengths := congrArg List.length text
        rw [length_drop, length_append, setText_length] at lengths
        have goesOn : string = [] → rest ≠ [] := by
          rintro rfl rfl
          rw [length_nil] at lengths
          omega
        have turn : ∃ next, loadSet beyond input i state = .ok (some next) ∧
            Loads input i [string] state next :=
          loadSet_loads text short stops.1 stops.2 size (by omega) goesOn
        obtain ⟨middle, loaded, first⟩ := turn
        have reached := first.p
        rw [flatten_cons, flatten_nil, append_nil] at reached
        obtain ⟨through, next, strings, returned, count, later, fits, short⟩ :=
          @ih (i + 1) middle (first.dataSize.trans size) (by omega)
            (by rw [first.setsSize]; omega)
        refine ⟨through, next, string :: strings, ?_, Nat.succ_le_succ count,
          first.cons later, fits, ?_⟩
        · unfold loadSets
          rw [if_pos ahead, loaded, ok_bind]
          exact returned
        · intro done fewer
          rw [length_cons] at fewer
          exact short done (by omega)
    · refine ⟨true, state, [], ?_, Nat.zero_le _, .refl input i state, room, fun _ _ => by omega⟩
      unfold loadSets
      rw [if_neg ahead]
      rfl

/-- All sets of a text are loaded, one behind the other. -/
theorem loadSets_loads (text : input.drop state.j = setsText strings ++ rest)
    (start : state.j ≤ input.length) (short : ∀ string ∈ strings, string.length < 2 ^ 16)
    (clear : ∀ finish, finish + rest.length ≤ input.length → beyond finish = false)
    (fits : state.p + strings.flatten.length ≤ dataSize) (size : state.data.size = dataSize)
    (free : i + strings.length ≤ state.sets.size) (ends : strings.getLast? = some [] → rest ≠ []) :
    ∃ next, loadSets beyond input strings.length i state = .ok (true, next) ∧
      Loads input i strings state next ∧ input.drop next.j = rest := by
  induction strings generalizing i state with
  | nil => exact ⟨state, rfl, .refl input i state, text⟩
  | cons string strings ih =>
    rw [setsText_cons, append_assoc] at text
    rw [flatten_cons, length_append] at fits
    rw [length_cons] at free
    have lengths := congrArg List.length text
    rw [length_drop, length_append, length_append, setText_length] at lengths
    have goesOn : string = [] → setsText strings ++ rest ≠ [] := by
      rintro rfl
      cases strings with
      | nil =>
        rw [setsText_nil, nil_append]
        exact ends rfl
      | cons another strings =>
        rw [setsText_cons, setText]
        exact fun empty => absurd (congrArg List.length empty) (by
          simp only [length_append, bigEndian_length, length_nil]
          omega)
    have ahead : state.j + 2 < input.length := by
      cases string with
      | nil =>
        have more := length_pos_iff.mpr (goesOn rfl)
        rw [length_append] at more
        omega
      | cons byte string =>
        rw [length_cons] at lengths
        omega
    have turn : ∃ next, loadSet beyond input i state = .ok (some next) ∧
        Loads input i [string] state next :=
      loadSet_loads text (short string mem_cons_self) (clear _ (by omega)) (by omega) size
        (by omega) goesOn
    obtain ⟨middle, loaded, first⟩ := turn
    have place := first.j
    have reached := first.p
    rw [setsText_cons, setsText_nil, append_nil, setText_length] at place
    rw [flatten_cons, flatten_nil, append_nil] at reached
    have behind : input.drop middle.j = setsText strings ++ rest := by
      have both := text.symm.trans first.text
      rw [setsText_cons, setsText_nil, append_nil] at both
      exact (append_cancel_left both).symm
    obtain ⟨next, returned, later, rests⟩ := @ih (i + 1) middle behind (by omega)
      (forall_mem_cons.mp short).2 (by omega)
      (first.dataSize.trans size) (by rw [first.setsSize]; omega) (by
        intro last
        cases strings with
        | nil => exact absurd last nofun
        | cons another strings => exact ends (by rw [List.getLast?_cons_cons]; exact last))
    refine ⟨next, ?_, first.cons later, rests⟩
    rw [length_cons]
    unfold loadSets
    rw [if_pos ahead, loaded, ok_bind]
    exact returned

end CLibs.Avc
