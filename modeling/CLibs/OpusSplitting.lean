import CLibs.OpusSafety

/-!
# Opus packets taken apart

`rfcFrames` says which frames a packet consists of, and which packets are malformed, after the
requirements R1 to R7 for the framing of Opus packets.  `opus_packet_getframes` hands over these
frames, and refuses these packets, only under narrow conditions: it takes the two frames of code
`1` from one place, cuts a byte off the frame of code `0`, counts the padding as part of the
frames, and gives the last of several frames all that stands behind the explicit sizes.
-/

namespace CLibs.Opus

open List

variable {onframe : OnFrame} {calls frames : List FrameCall} {p rest unit data front : List UInt8}
  {toc : UInt8} {start count size total fuel i : Nat} {payload : Int} {sizes : List Nat}

/-! ## Well-formed packets -/

/-- How long a frame lasts, in units of `2.5` ms. -/
def frameDuration (toc : UInt8) : Nat :=
  let config := toc.toNat / 8
  if config < 12 then [4, 8, 16, 24].getD (config % 4) 1
  else if config < 16 then [4, 8].getD (config % 2) 1
  else [1, 2, 4, 8].getD (config % 4) 1

/-- A frame length: one byte up to `251`, or two. -/
def rfcSize : List UInt8 → Option (Nat × List UInt8)
  | [] => none
  | [first] => if first.toNat ≤ 251 then some (first.toNat, []) else none
  | first :: second :: rest =>
    if first.toNat ≤ 251 then some (first.toNat, second :: rest)
    else some (second.toNat * 4 + first.toNat, rest)

def rfcSizes : (count : Nat) → List UInt8 → Option (List Nat × List UInt8)
  | 0, p => some ([], p)
  | count + 1, p =>
    match rfcSize p with
    | none => none
    | some (size, p) => (rfcSizes count p).map fun read => (size :: read.1, read.2)

def pieces : (sizes : List Nat) → List UInt8 → List (List UInt8)
  | [], _ => []
  | size :: sizes, p => p.take size :: pieces sizes (p.drop size)

/-- The frames of a packet with several of them, behind its headers and without its padding. -/
def rfcCounted (count : Nat) (vbr : Bool) (body : List UInt8) : Option (List (List UInt8)) :=
  if vbr then
    match rfcSizes (count - 1) body with
    | none => none
    | some (sizes, rest) =>
      if sizes.sum ≤ rest.length ∧ rest.length - sizes.sum ≤ 1275 then
        some (pieces (sizes ++ [rest.length - sizes.sum]) rest)
      else none
  else if count ∣ body.length ∧ body.length / count ≤ 1275 then
    some (pieces (List.replicate count (body.length / count)) body)
  else none

/-- The frames of a packet, if it is well-formed. -/
def rfcFrames : List UInt8 → Option (List (List UInt8))
  | [] => none
  | toc :: p =>
    match toc.toNat % 4 with
    | 0 => if p.length ≤ 1275 then some [p] else none
    | 1 =>
      if p.length % 2 = 0 ∧ p.length / 2 ≤ 1275 then
        some (pieces [p.length / 2, p.length / 2] p)
      else none
    | 2 =>
      match rfcSize p with
      | none => none
      | some (size, rest) =>
        if size ≤ rest.length ∧ rest.length - size ≤ 1275 then
          some (pieces [size, rest.length - size] rest)
        else none
    | _ =>
      match p with
      | [] => none
      | header :: p =>
        if 1 ≤ header.toNat % 64 ∧ header.toNat % 64 * frameDuration toc ≤ 48 then
          match announcedPadding header p with
          | none => none
          | some (pad, rest) =>
            if pad ≤ rest.length then
              rfcCounted (header.toNat % 64) (128 ≤ header.toNat)
                (rest.take (rest.length - pad))
            else none
        else none

theorem rfcSize_eq (p : List UInt8) : rfcSize p = opusParseSize p := by
  match p with
  | [] => rfl
  | [first] =>
    unfold rfcSize opusParseSize
    dsimp only
    by_cases short : first.toNat < 252
    · rw [if_pos (Nat.le_of_lt_succ short), if_pos short]
    · rw [if_neg (by omega), if_neg short]
  | first :: second :: rest =>
    unfold rfcSize opusParseSize
    dsimp only
    by_cases short : first.toNat < 252
    · rw [if_pos (Nat.le_of_lt_succ short), if_pos short]
    · rw [if_neg (by omega), if_neg short, Nat.mul_comm]

theorem opusParseSize_append (more : List UInt8) (read : opusParseSize p = some (size, rest)) :
    opusParseSize (p ++ more) = some (size, rest ++ more) := by
  match p, read with
  | [first], read =>
    unfold opusParseSize at read ⊢
    dsimp only at read
    split at read
    · next short =>
        cases read
        exact if_pos short
    · cases read
  | first :: second :: others, read =>
    unfold opusParseSize at read ⊢
    dsimp only at read
    split at read
    · next short =>
        cases read
        exact if_pos short
    · next long =>
        cases read
        exact if_neg long

theorem readSizes_of_rfc (more : List UInt8) (read : rfcSizes count p = some (sizes, rest))
    (fits : sizes.sum ≤ rest.length) :
    rest.length ≤ p.length ∧ readSizes count (p ++ more) = some (sizes, rest ++ more) := by
  induction count generalizing p sizes with
  | zero =>
    cases read
    exact ⟨Nat.le_refl _, rfl⟩
  | succ count ih =>
    unfold rfcSizes at read
    rw [rfcSize_eq] at read
    cases first : opusParseSize p with
    | none =>
      rw [first] at read
      cases read
    | some found =>
      rw [first] at read
      obtain ⟨later, here, same⟩ := Option.map_eq_some_iff.mp read
      cases same
      rw [sum_cons] at fits
      obtain ⟨shorter, rest'⟩ := ih here (by omega)
      obtain ⟨code, -, whole⟩ := opusParseSize_suffix first
      have split := congrArg List.length whole
      rw [length_append] at split
      refine ⟨by omega, ?_⟩
      unfold readSizes
      rw [opusParseSize_append more first]
      dsimp only
      rw [if_neg (by rw [length_append]; omega), rest']
      rfl

/-! ## What the callback is given -/

/-- The bytes of a frame, if it is a range of the input. -/
def content (data : List UInt8) (call : FrameCall) : Option (List UInt8) :=
  if 0 ≤ call.size ∧ call.frame + call.size ≤ data.length then
    some ((data.drop call.frame).take call.size.toNat)
  else none

theorem pieces_length (sizes : List Nat) (p : List UInt8) (fits : sizes.sum ≤ p.length) :
    (pieces sizes p).map List.length = sizes := by
  induction sizes generalizing p with
  | nil => rfl
  | cons size sizes ih =>
    rw [sum_cons] at fits
    rw [pieces, map_cons, length_take, ih _ (by rw [length_drop]; omega),
      Nat.min_eq_left (by omega)]

theorem framesFrom_content (toc : UInt8) (sizes : List Nat) (front p : List UInt8)
    (fits : sizes.sum ≤ p.length) :
    (framesFrom toc front.length sizes).map (content (front ++ p)) =
      (pieces sizes p).map some := by
  induction sizes generalizing front p with
  | nil => rfl
  | cons size sizes ih =>
    rw [sum_cons] at fits
    have rest := ih (front ++ p.take size) (p.drop size) (by rw [length_drop]; omega)
    rw [append_assoc, take_append_drop, length_append, length_take,
      Nat.min_eq_left (by omega)] at rest
    rw [framesFrom, pieces, map_cons, map_cons, rest]
    refine congrArg (· :: _) ?_
    unfold content
    rw [if_pos ⟨by dsimp only; omega, by rw [length_append]; push_cast; omega⟩]
    dsimp only
    rw [drop_left, Int.toNat_natCast]

variable {bytes : List (List UInt8)}

theorem framesFrom_lengths (toc : UInt8) (start : Nat) (sizes : List Nat)
    (same : (framesFrom toc start sizes).map (content data) = bytes.map some) :
    bytes.map List.length = sizes := by
  induction sizes generalizing start bytes with
  | nil =>
    rw [framesFrom, map_nil, eq_comm, map_eq_nil_iff] at same
    rw [same]
    rfl
  | cons size sizes ih =>
    cases bytes with
    | nil => cases same
    | cons first bytes =>
      rw [framesFrom, map_cons, map_cons] at same
      obtain ⟨here, rest⟩ := List.cons.inj same
      rw [map_cons, ih _ rest]
      unfold content at here
      split at here
      · next inside =>
          rw [← Option.some.inj here, length_take, length_drop]
          dsimp only at inside ⊢
          refine congrArg (· :: sizes) ?_
          omega
      · cases here

/-! ## When the frames are right -/

/-- A well-formed packet whose frames are handed over: three bytes at least, and no frame, no
padding and no explicit size that goes wrong. -/
def Agrees : List UInt8 → Prop
  | [] => False
  | toc :: p =>
    2 ≤ p.length ∧
      match toc.toNat % 4 with
      | 0 => False
      | 1 => p.take (p.length / 2) = p.drop (p.length / 2)
      | 2 => True
      | _ => ∃ header others rest, p = header :: others ∧
          announcedPadding header others = some (0, rest) ∧
          (128 ≤ header.toNat → ∀ sizes last,
            rfcSizes (header.toNat % 64 - 1) rest = some (sizes, last) → sizes.sum = 0)

/-- The frames of a packet are those that `opus_parse_frames` hands over. -/
def SameFrames (data : List UInt8) (bytes : List (List UInt8)) : Prop :=
  ∃ calls, opusFrames 0 data = .ok (some calls) ∧ calls.map (content data) = bytes.map some

theorem sameFrames_one (code : toc.toNat % 4 = 0) : ¬SameFrames (toc :: p) [p] := by
  rintro ⟨calls, returned, same⟩
  rw [opusFrames_one code] at returned
  cases returned
  rw [map_singleton, map_singleton] at same
  have here := (List.cons.inj same).1
  unfold content at here
  dsimp only at here
  split at here
  · next inside =>
      have length := congrArg List.length (Option.some.inj here)
      rw [length_take, length_drop, length_cons] at length
      omega
  · cases here

theorem sameFrames_equal (code : toc.toNat % 4 = 1) (even : p.length % 2 = 0) :
    SameFrames (toc :: p) (pieces [p.length / 2, p.length / 2] p) ↔
      p.take (p.length / 2) = p.drop (p.length / 2) := by
  have first := framesFrom_content (oneFrame toc) [p.length / 2] [toc] p (by simp; omega)
  have last : (p.drop (p.length / 2)).take (p.length / 2) = p.drop (p.length / 2) :=
    take_of_length_le (by rw [length_drop]; omega)
  have half : content (toc :: p) ⟨oneFrame toc, 1, (p.length / 2 : Nat)⟩ =
      some (p.take (p.length / 2)) := (List.cons.inj first).1
  have both : ([⟨oneFrame toc, 0 + 1, (p.length / 2 : Nat)⟩,
      ⟨oneFrame toc, 0 + 1, (p.length / 2 : Nat)⟩] : List FrameCall).map (content (toc :: p)) =
        [some (p.take (p.length / 2)), some (p.take (p.length / 2))] := by
    rw [Nat.zero_add, map_cons, map_singleton, half]
  have wanted : (pieces [p.length / 2, p.length / 2] p).map some =
      [some (p.take (p.length / 2)), some (p.drop (p.length / 2))] := by
    simp only [pieces, map_cons, map_nil, last]
  unfold SameFrames
  rw [opusFrames_equal code (by omega), wanted]
  constructor
  · rintro ⟨calls, returned, same⟩
    cases returned
    rw [both] at same
    exact Option.some.inj (List.cons.inj (List.cons.inj same).2).1
  · intro same
    exact ⟨_, rfl, by rw [both, same]⟩

theorem sameFrames_two (code : toc.toNat % 4 = 2) (read : opusParseSize p = some (size, rest))
    (fits : size ≤ rest.length) :
    SameFrames (toc :: p) (pieces [size, rest.length - size] rest) := by
  obtain ⟨used, -, rfl⟩ := opusParseSize_suffix read
  refine ⟨_, opusFrames_two code read fits, ?_⟩
  have same := framesFrom_content (oneFrame toc) [size, rest.length - size] (toc :: used) rest
    (by simp; omega)
  have place : 0 + 1 + ((used ++ rest).length - rest.length) = (toc :: used).length := by
    rw [length_append, length_cons]
    omega
  rw [place]
  exact same

theorem sameFrames_cbr {pad : Nat} (positive : 1 ≤ count) (padded : pad ≤ rest.length)
    (divides : count ∣ rest.length - pad) (whole : data = front ++ rest) :
    (∃ calls, opusCountedFrames toc count false front.length rest = .ok (some calls) ∧
        calls.map (content data) = (pieces (List.replicate count ((rest.length - pad) / count))
          (rest.take (rest.length - pad))).map some) ↔ pad = 0 := by
  have lengths := pieces_length (List.replicate count ((rest.length - pad) / count))
    (rest.take (rest.length - pad)) (by
      rw [sum_replicate_nat, Nat.mul_div_cancel' divides, length_take]
      omega)
  constructor
  · rintro ⟨calls, returned, same⟩
    unfold opusCountedFrames at returned
    rw [if_neg (by decide), if_neg (by omega)] at returned
    split at returned
    · cases returned
    · next even =>
        cases returned
        have sizes := framesFrom_lengths _ _ _ same
        rw [lengths] at sizes
        have each : (rest.length - pad) / count = rest.length / count := by
          have first := congrArg (fun list => list.head?) sizes
          obtain ⟨less, rfl⟩ : ∃ less, count = less + 1 := ⟨count - 1, by omega⟩
          simpa [replicate_succ] using first
        have total := Nat.div_mul_cancel divides
        rw [each] at total
        omega
  · rintro rfl
    rw [Nat.sub_zero] at divides
    rw [Nat.sub_zero, take_length]
    refine ⟨_, cbr_accepted divides (by omega), ?_⟩
    rw [whole]
    exact framesFrom_content toc _ front rest (by
      rw [sum_replicate_nat, Nat.mul_div_cancel' divides])

theorem sameFrames_vbr {pad : Nat} {last : List UInt8} (positive : 1 ≤ count) (few : count ≤ 48)
    (padded : pad ≤ rest.length)
    (read : rfcSizes (count - 1) (rest.take (rest.length - pad)) = some (sizes, last))
    (fits : sizes.sum ≤ last.length) (short : last.length - sizes.sum ≤ 1275)
    (whole : data = front ++ rest) :
    (∃ calls, opusCountedFrames toc count true front.length rest = .ok (some calls) ∧
        calls.map (content data) =
          (pieces (sizes ++ [last.length - sizes.sum]) last).map some) ↔
      pad = 0 ∧ sizes.sum = 0 := by
  obtain ⟨-, found⟩ := readSizes_of_rfc (rest.drop (rest.length - pad)) read fits
  rw [take_append_drop] at found
  have padding : (rest.drop (rest.length - pad)).length = pad := by
    rw [length_drop]
    omega
  have number := readSizes_length found
  obtain ⟨codes, split⟩ := readSizes_suffix found
  generalize rest.drop (rest.length - pad) = more at found padding split
  have taken : (sizes ++ [(last ++ more).length]).take count = sizes ++ [(last ++ more).length] :=
    take_of_length_le (by rw [length_append, length_singleton]; omega)
  have lengths := pieces_length (sizes ++ [last.length - sizes.sum]) last (by
    rw [sum_append, sum_singleton]
    omega)
  have place : front.length + (rest.length - (last ++ more).length) = (front ++ codes).length := by
    have total := congrArg List.length split
    simp only [length_append] at total ⊢
    omega
  constructor
  · rintro ⟨calls, returned, same⟩
    have accepted : ¬VbrRejected count rest := by
      intro rejected
      rw [vbr_rejected rejected] at returned
      cases returned
    obtain ⟨others, behind, again, -, frames⟩ := vbr_accepted toc front.length accepted few
    rw [found] at again
    cases again
    rw [frames] at returned
    cases returned
    rw [taken] at same
    have ends := framesFrom_lengths _ _ _ same
    rw [lengths] at ends
    have final := congrArg List.getLast? ends
    rw [List.getLast?_concat, List.getLast?_concat] at final
    have equal := Option.some.inj final
    rw [length_append] at equal
    omega
  · rintro ⟨rfl, none⟩
    obtain rfl := eq_nil_of_length_eq_zero padding
    rw [append_nil] at found taken place split
    have accepted : ¬VbrRejected count rest := by
      unfold VbrRejected
      rw [Nat.min_eq_left (by omega), found]
      dsimp only
      rw [if_neg (by omega)]
      omega
    obtain ⟨others, behind, again, -, frames⟩ := vbr_accepted toc front.length accepted few
    rw [found] at again
    cases again
    refine ⟨_, frames, ?_⟩
    rw [taken, place, none, Nat.sub_zero, whole, split, ← append_assoc]
    exact framesFrom_content toc _ (front ++ codes) last (by
      rw [sum_append, sum_singleton, none]
      omega)

theorem frameDuration_pos (toc : UInt8) : 1 ≤ frameDuration toc := by
  have one : ∀ config < 32, 1 ≤
      (if config < 12 then [4, 8, 16, 24].getD (config % 4) 1
        else if config < 16 then [4, 8].getD (config % 2) 1
        else [1, 2, 4, 8].getD (config % 4) 1) := by decide
  have bound := toc.toNat_lt
  exact one (toc.toNat / 8) (by omega)

theorem rfcFrames_counted (code : toc.toNat % 4 = 3) (formed : rfcFrames (toc :: p) = some bytes) :
    ∃ header others pad rest, p = header :: others ∧ 1 ≤ header.toNat % 64 ∧
      header.toNat % 64 ≤ 48 ∧ announcedPadding header others = some (pad, rest) ∧
      pad ≤ rest.length ∧ rfcCounted (header.toNat % 64) (128 ≤ header.toNat)
        (rest.take (rest.length - pad)) = some bytes := by
  unfold rfcFrames at formed
  simp only [code] at formed
  cases p with
  | nil => cases formed
  | cons header others =>
    dsimp only at formed
    split at formed
    · next counted =>
        have few : header.toNat % 64 ≤ 48 :=
          Nat.le_trans (Nat.le_mul_of_pos_right _ (frameDuration_pos toc)) counted.2
        cases padding : announcedPadding header others with
        | none =>
          rw [padding] at formed
          cases formed
        | some found =>
          rw [padding] at formed
          dsimp only at formed
          split at formed
          · next fits =>
              exact ⟨header, others, found.1, found.2, rfl, counted.1, few, padding, fits, formed⟩
          · cases formed
    · cases formed

theorem sameFrames_counted (code : toc.toNat % 4 = 3) (formed : rfcFrames (toc :: p) = some bytes) :
    SameFrames (toc :: p) bytes ↔ ∃ header others rest, p = header :: others ∧
      announcedPadding header others = some (0, rest) ∧
      (128 ≤ header.toNat → ∀ sizes last,
        rfcSizes (header.toNat % 64 - 1) rest = some (sizes, last) → sizes.sum = 0) := by
  obtain ⟨header, others, pad, rest, rfl, positive, few, padding, fits, counted⟩ :=
    rfcFrames_counted code formed
  obtain ⟨codes, whole⟩ := announcedPadding_suffix padding
  have skipped : opusSkipPadding header others = .ok (some rest) := by
    rcases opusSkipPadding_cases header others with ⟨_, _, same, found⟩ | ⟨-, short⟩
    · rw [padding] at same
      cases same
      exact found
    · exact absurd (short pad rest padding) (by omega)
  have split := congrArg List.length whole
  rw [length_append] at split
  have place : 0 + 2 + (others.length - rest.length) = (toc :: header :: codes).length := by
    rw [length_cons, length_cons]
    omega
  have data : toc :: header :: others = (toc :: header :: codes) ++ rest := by
    rw [whole]
    rfl
  have only : (∃ header' others' rest', header :: others = header' :: others' ∧
      announcedPadding header' others' = some (0, rest') ∧
      (128 ≤ header'.toNat → ∀ sizes last,
        rfcSizes (header'.toNat % 64 - 1) rest' = some (sizes, last) → sizes.sum = 0)) ↔
      pad = 0 ∧ (128 ≤ header.toNat → ∀ sizes last,
        rfcSizes (header.toNat % 64 - 1) rest = some (sizes, last) → sizes.sum = 0) := by
    constructor
    · rintro ⟨header', others', rest', same, none, zero⟩
      cases same
      rw [padding] at none
      cases none
      exact ⟨rfl, zero⟩
    · rintro ⟨rfl, zero⟩
      exact ⟨header, others, rest, rfl, padding, zero⟩
  rw [only]
  unfold SameFrames
  rw [opusFrames_counted code skipped, place]
  unfold rfcCounted at counted
  by_cases vbr : 128 ≤ header.toNat
  · rw [decide_eq_true vbr] at counted ⊢
    rw [if_pos rfl] at counted
    cases read : rfcSizes (header.toNat % 64 - 1) (rest.take (rest.length - pad)) with
    | none =>
      rw [read] at counted
      cases counted
    | some found =>
      rw [read] at counted
      dsimp only at counted
      split at counted
      · next within =>
          cases counted
          rw [sameFrames_vbr positive few fits read within.1 within.2 data]
          constructor
          · rintro ⟨rfl, zero⟩
            rw [Nat.sub_zero, take_length] at read
            refine ⟨rfl, fun _ sizes last same => ?_⟩
            rw [read] at same
            cases same
            exact zero
          · rintro ⟨rfl, zero⟩
            rw [Nat.sub_zero, take_length] at read
            exact ⟨rfl, zero vbr _ _ read⟩
      · cases counted
  · rw [decide_eq_false vbr] at counted ⊢
    rw [if_neg (by decide)] at counted
    split at counted
    · next within =>
        cases counted
        have length : (rest.take (rest.length - pad)).length = rest.length - pad := by
          rw [length_take]
          omega
        rw [length] at within ⊢
        rw [sameFrames_cbr positive fits within.1 data]
        exact ⟨fun none => ⟨none, fun wide => absurd wide vbr⟩, And.left⟩
    · cases counted

theorem agrees_iff (formed : rfcFrames data = some bytes) :
    Agrees data ↔ 3 ≤ data.length ∧ SameFrames data bytes := by
  cases data with
  | nil => cases formed
  | cons toc p =>
    unfold Agrees
    rw [length_cons]
    refine and_congr (by omega) ?_
    rcases code_cases toc with code | code | code | code
    · unfold rfcFrames at formed
      simp only [code] at formed ⊢
      split at formed
      · cases formed
        exact iff_of_false not_false (sameFrames_one code)
      · cases formed
    · unfold rfcFrames at formed
      simp only [code] at formed ⊢
      split at formed
      · next even =>
          cases formed
          exact (sameFrames_equal code even.1).symm
      · cases formed
    · unfold rfcFrames at formed
      simp only [code] at formed ⊢
      rw [rfcSize_eq] at formed
      cases read : opusParseSize p with
      | none =>
        rw [read] at formed
        cases formed
      | some found =>
        rw [read] at formed
        dsimp only at formed
        split at formed
        · next fits =>
            cases formed
            exact iff_of_true trivial (sameFrames_two code read fits.1)
        · cases formed
    · simp only [code]
      exact (sameFrames_counted code formed).symm

/-! ## Malformed packets -/

def WalkRejected : (fuel : Nat) → List UInt8 → Prop
  | 0, _ => False
  | fuel + 1, data =>
    data ≠ [] ∧ (opusTsHeader data = .ok none ∨
      ∃ i payload, opusTsHeader data = .ok (some (i, payload)) ∧
        (i : Int) + payload ≤ data.length ∧ (UnitRejected (unitOf data i payload) ∨
          (¬UnitFaults (unitOf data i payload) ∧
            WalkRejected fuel (data.drop (i + payload.toNat)))))

theorem WalkRejected.runs (rejected : WalkRejected fuel data) (onframe : OnFrame) :
    ∃ r last, opusUnitFrames onframe fuel start data calls = .ok (r, last) ∧ r < 0 := by
  induction fuel generalizing start data calls with
  | zero => cases rejected
  | succ fuel ih =>
    obtain ⟨nonempty, refused | ⟨i, payload, header, fits, unit⟩⟩ := rejected
    · refine ⟨-1, calls, ?_, by decide⟩
      rw [opusUnitFrames, if_neg nonempty, refused]
    · rw [opusUnitFrames_turn onframe fuel start calls nonempty header fits]
      rcases opusFrames_cases (start + i) (unitOf data i payload) with ⟨-, none⟩ |
        ⟨faults, accepted, -⟩ | ⟨accepted, -, frames, some⟩
      · rw [none]
        exact ⟨-1, calls, rfl, by decide⟩
      · rcases unit with refused | ⟨sound, -⟩
        · exact absurd refused accepted
        · exact absurd faults sound
      · rcases unit with refused | ⟨-, later⟩
        · exact absurd refused accepted
        · rw [some]
          dsimp only
          split
          · next negative => exact ⟨_, _, rfl, negative⟩
          · exact ih later

theorem WalkRejected.of_runs {r : Int} {last : List FrameCall}
    (returned : opusUnitFrames accepting fuel start data calls = .ok (r, last)) (negative : r < 0) :
    WalkRejected fuel data := by
  induction fuel generalizing start data calls with
  | zero => cases returned
  | succ fuel ih =>
    rcases opusUnitFrames_cases returned with ⟨-, rfl, -⟩ | ⟨nonempty, ⟨none, -⟩ | ⟨i, payload,
      header, fits, ⟨rejected, -⟩ | ⟨frames, -, sound, -, turn⟩⟩⟩
    · exact absurd negative (Int.lt_irrefl 0)
    · exact ⟨nonempty, .inl none⟩
    · exact ⟨nonempty, .inr ⟨i, payload, header, fits, .inl rejected⟩⟩
    · rw [deliver_accepting, if_neg (Int.lt_irrefl 0)] at turn
      exact ⟨nonempty, .inr ⟨i, payload, header, fits, .inr ⟨sound, ih turn⟩⟩⟩

/-! ## Every input -/

theorem rfcFrames_control (control : controlPrefix data = true) : rfcFrames data = none := by
  have prefixed := beq_iff_eq.mp control
  cases data with
  | nil => rfl
  | cons toc p =>
    have bound := toc.toNat_lt
    have small := (p.getD 0 0).toNat_lt
    rw [getD_cons_zero, getD_cons_succ] at prefixed
    have first : toc.toNat = 127 := by omega
    have code : toc.toNat % 4 = 3 := by omega
    have long : frameDuration toc = 8 := by
      unfold frameDuration
      rw [first]
      rfl
    unfold rfcFrames
    simp only [code]
    cases p with
    | nil => rfl
    | cons header p =>
      rw [getD_cons_zero] at prefixed
      dsimp only
      rw [long, if_neg (by omega)]

theorem opusPacketGetframes_plain (onframe : OnFrame) (long : 3 ≤ data.length)
    (plain : controlPrefix data = false) :
    opusPacketGetframes onframe data =
      match opusFrames 0 data with
      | .error fault => .error fault
      | .ok none => .ok (-1, [])
      | .ok (some frames) =>
        if (deliver onframe [] frames).1 < 0 then .ok (deliver onframe [] frames)
        else .ok (0, (deliver onframe [] frames).2) := by
  have nonempty : data ≠ [] := by
    rintro rfl
    simp at long
  have header : opusTsHeader data = .ok (some (0, data.length)) := by
    unfold opusTsHeader
    rw [if_neg (by omega), plain, if_neg (by decide)]
  have unit : unitOf data 0 (data.length : Int) = data := by
    unfold unitOf
    rw [drop_zero, Int.toNat_natCast, take_length]
  obtain ⟨more, length⟩ : ∃ more, data.length = more + 1 := ⟨data.length - 1, by omega⟩
  unfold opusPacketGetframes
  rw [opusUnitFrames_turn onframe data.length 0 [] nonempty header (by omega), unit]
  have behind : data.drop (0 + (data.length : Int).toNat) = [] := by
    rw [Int.toNat_natCast, Nat.zero_add, drop_length]
  have ended : ∀ start calls, opusUnitFrames onframe data.length start [] calls = .ok (0, calls) := by
    intro start calls
    rw [length, opusUnitFrames, if_pos rfl]
  rw [behind, Nat.add_zero]
  cases opusFrames 0 data with
  | error fault => rfl
  | ok found =>
    cases found with
    | none => rfl
    | some frames =>
      dsimp only
      rw [ended]

/-- Every frame of a well-formed packet is given to the callback, in order and with exactly its
bytes, unless the callback stops it; every other packet is refused. -/
def SplitsAsRfc (data : List UInt8) : Prop :=
  match rfcFrames data with
  | some bytes => ∀ onframe, ∃ r calls, opusPacketGetframes onframe data = .ok (r, calls) ∧
      calls.map (content data) <+: bytes.map some ∧
      ((∀ before call after, calls = before ++ call :: after → onframe before call = 0) →
        calls.map (content data) = bytes.map some)
  | none => ∀ onframe, ∃ r calls, opusPacketGetframes onframe data = .ok (r, calls) ∧ r < 0

/-- A well-formed packet that agrees, or another one of which a part is rejected. -/
def FollowsRfc (data : List UInt8) : Prop :=
  match rfcFrames data with
  | some _ => Agrees data
  | none => WalkRejected (data.length + 1) data

theorem rfcCounted_nonempty {vbr : Bool} (positive : 1 ≤ count)
    (formed : rfcCounted count vbr p = some bytes) : bytes ≠ [] := by
  unfold rfcCounted at formed
  split at formed
  · split at formed
    · cases formed
    split at formed
    · cases formed
      next sizes rest _ _ =>
        cases sizes with
        | nil => simp [pieces]
        | cons size sizes => simp [pieces]
    · cases formed
  · split at formed
    · cases formed
      obtain ⟨less, rfl⟩ : ∃ less, count = less + 1 := ⟨count - 1, by omega⟩
      simp [replicate_succ, pieces]
    · cases formed

theorem rfcFrames_nonempty (formed : rfcFrames data = some bytes) :
    bytes ≠ [] := by
  cases data with
  | nil => cases formed
  | cons toc p =>
    rcases code_cases toc with code | code | code | code
    · unfold rfcFrames at formed
      simp only [code] at formed
      split at formed
      · cases formed
        simp
      · cases formed
    · unfold rfcFrames at formed
      simp only [code] at formed
      split at formed
      · cases formed
        simp [pieces]
      · cases formed
    · unfold rfcFrames at formed
      simp only [code] at formed
      split at formed
      · cases formed
      split at formed
      · cases formed
        simp [pieces]
      · cases formed
    · obtain ⟨header, others, pad, rest, -, positive, -, -, -, counted⟩ :=
        rfcFrames_counted code formed
      exact rfcCounted_nonempty positive counted

/-- `opus_packet_getframes` follows the framing of Opus packets exactly on these inputs. -/
theorem opus_packet_splits_iff (data : List UInt8) : SplitsAsRfc data ↔ FollowsRfc data := by
  unfold SplitsAsRfc FollowsRfc
  cases formed : rfcFrames data with
  | none =>
    dsimp only
    constructor
    · intro refuses
      obtain ⟨r, calls, returned, negative⟩ := refuses accepting
      exact .of_runs returned negative
    · intro rejected onframe
      exact rejected.runs onframe
  | some bytes =>
    dsimp only
    rw [agrees_iff formed]
    have plain : controlPrefix data = false := by
      rw [← Bool.not_eq_true]
      intro control
      rw [rfcFrames_control control] at formed
      cases formed
    have nonempty : bytes.map some ≠ [] := fun none =>
      rfcFrames_nonempty formed (map_eq_nil_iff.mp none)
    constructor
    · intro splits
      obtain ⟨r, calls, returned, -, all⟩ := splits accepting
      have same := all fun _ _ _ _ => rfl
      have long : 3 ≤ data.length := by
        by_contra short
        have header : opusTsHeader data = .ok none := if_pos (Nat.lt_of_not_le short)
        have some : data ≠ [] := by
          rintro rfl
          cases formed
        unfold opusPacketGetframes at returned
        rw [opusUnitFrames, if_neg some, header] at returned
        cases returned
        exact nonempty same.symm
      refine ⟨long, ?_⟩
      rw [opusPacketGetframes_plain accepting long plain] at returned
      cases frames : opusFrames 0 data with
      | error fault =>
        rw [frames] at returned
        cases returned
      | ok found =>
        rw [frames] at returned
        cases found with
        | none =>
          cases returned
          exact absurd same.symm nonempty
        | some frames' =>
          dsimp only at returned
          rw [deliver_accepting, if_neg (Int.lt_irrefl 0)] at returned
          cases returned
          exact ⟨frames', frames, same⟩
    · rintro ⟨long, calls, returned, same⟩ onframe
      obtain ⟨handed, first, delivered, all⟩ := deliver_prefix onframe [] calls
      rw [nil_append] at delivered
      have ran : ∃ r, opusPacketGetframes onframe data = .ok (r, handed) := by
        rw [opusPacketGetframes_plain onframe long plain, returned]
        dsimp only
        split
        · exact ⟨(deliver onframe [] calls).1, by rw [← delivered]⟩
        · exact ⟨0, by rw [delivered]⟩
      obtain ⟨r, ran⟩ := ran
      refine ⟨r, handed, ran, ?_, fun accepted => ?_⟩
      · rw [← same]
        exact first.map _
      · rw [all accepted, same]

/-- Two frames of one byte each: the callback is given the first one twice. -/
theorem opus_packet_repeats_frame : ¬∀ data, SplitsAsRfc data := by
  intro splits
  obtain ⟨r, calls, returned, -, all⟩ := splits [0x01, 0xaa, 0xbb] accepting
  have ran : opusPacketGetframes accepting [0x01, 0xaa, 0xbb] =
      .ok (0, [⟨0x00, 1, 1⟩, ⟨0x00, 1, 1⟩]) := by
    decide +kernel
  rw [ran] at returned
  cases returned
  exact absurd (all fun _ _ _ _ => rfl) (by decide)

end CLibs.Opus
