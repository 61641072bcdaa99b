import CLibs.OpusPackets
import Mathlib.Tactic.IntervalCases

/-!
# What happens to one Opus packet

A packet is rejected before any of its frames is handed over, or it makes
`opus_parse_frames` fault, or all of its frames are offered to the callback.  Which of the three
happens is decided by the packet alone.
-/

namespace CLibs.Opus

open List

variable {onframe : OnFrame} {calls frames : List FrameCall} {p rest unit : List UInt8} {toc : UInt8}
  {start count size : Nat}

/-! ## The callback -/

/-- A callback that agrees to every frame. -/
def accepting : OnFrame := fun _ _ => 0

theorem deliver_accepting (calls frames : List FrameCall) :
    deliver accepting calls frames = (0, calls ++ frames) := by
  induction frames generalizing calls with
  | nil => rw [deliver, append_nil]
  | cons frame frames ih =>
    have agrees : ¬accepting calls frame ≠ 0 := not_not_intro rfl
    rw [deliver, if_neg agrees, ih, append_assoc]
    rfl

theorem deliver_prefix (onframe : OnFrame) (calls frames : List FrameCall) :
    ∃ handed, handed <+: frames ∧ (deliver onframe calls frames).2 = calls ++ handed ∧
      ((∀ before call after, handed = before ++ call :: after →
        onframe (calls ++ before) call = 0) → handed = frames) := by
  induction frames generalizing calls with
  | nil => exact ⟨[], prefix_rfl, by rw [deliver, append_nil], fun _ => rfl⟩
  | cons frame frames ih =>
    rw [deliver]
    by_cases stops : onframe calls frame ≠ 0
    · rw [if_pos stops]
      refine ⟨[frame], ?_, rfl, ?_⟩
      · exact prefix_append [frame] frames
      · intro accepted
        have here := accepted [] frame [] rfl
        rw [append_nil] at here
        exact absurd here stops
    · rw [if_neg stops]
      obtain ⟨handed, first, returned, all⟩ := ih (calls ++ [frame])
      refine ⟨frame :: handed, ?_, ?_, ?_⟩
      · exact prefix_cons_inj frame |>.mpr first
      · rw [returned, append_assoc]
        rfl
      · intro accepted
        rw [all fun before call after split => ?_]
        have later := accepted (frame :: before) call after (by rw [split]; rfl)
        rwa [append_assoc]

/-! ## Sizes -/

theorem opusParseSize_suffix (read : opusParseSize p = some (size, rest)) :
    ∃ code, code ≠ [] ∧ p = code ++ rest := by
  unfold opusParseSize at read
  cases p with
  | nil => cases read
  | cons first more =>
    dsimp only at read
    split at read
    · cases read
      exact ⟨[first], by simp, rfl⟩
    · cases more with
      | nil => cases read
      | cons second more =>
        cases read
        exact ⟨[first, second], by simp, rfl⟩

/-- The explicit sizes, each of which is no larger than what stands behind it. -/
def readSizes : (remaining : Nat) → List UInt8 → Option (List Nat × List UInt8)
  | 0, p => some ([], p)
  | remaining + 1, p =>
    match opusParseSize p with
    | none => none
    | some (size, p) =>
      if p.length < size then none
      else (readSizes remaining p).map fun read => (size :: read.1, read.2)

theorem opusParseSizes_eq (remaining : Nat) (n : List Nat) (p : List UInt8)
    (room : n.length + remaining ≤ 48) :
    opusParseSizes remaining n p =
      .ok ((readSizes remaining p).map fun read => (n ++ read.1, read.2)) := by
  induction remaining generalizing n p with
  | zero => simp [opusParseSizes, readSizes]
  | succ remaining ih =>
    unfold opusParseSizes readSizes
    cases opusParseSize p with
    | none => rfl
    | some read =>
      dsimp only
      rw [if_neg (by omega)]
      split
      · rfl
      · rw [ih _ _ (by rw [length_append, length_singleton]; omega), Option.map_map]
        simp only [Function.comp_def, append_assoc, singleton_append]

theorem readSizes_length {remaining : Nat} {sizes : List Nat}
    (read : readSizes remaining p = some (sizes, rest)) : sizes.length = remaining := by
  induction remaining generalizing p sizes with
  | zero =>
    cases read
    rfl
  | succ remaining ih =>
    unfold readSizes at read
    split at read
    · cases read
    split at read
    · cases read
    · obtain ⟨later, here, same⟩ := Option.map_eq_some_iff.mp read
      cases same
      rw [length_cons, ih here]

theorem readSizes_suffix {remaining : Nat} {sizes : List Nat}
    (read : readSizes remaining p = some (sizes, rest)) : ∃ codes, p = codes ++ rest := by
  induction remaining generalizing p sizes with
  | zero =>
    cases read
    exact ⟨[], rfl⟩
  | succ remaining ih =>
    unfold readSizes at read
    cases first : opusParseSize p with
    | none =>
      rw [first] at read
      cases read
    | some found =>
      rw [first] at read
      dsimp only at read
      split at read
      · cases read
      · obtain ⟨later, here, same⟩ := Option.map_eq_some_iff.mp read
        cases same
        obtain ⟨code, -, whole⟩ := opusParseSize_suffix first
        obtain ⟨codes, more⟩ := ih here
        exact ⟨code ++ codes, by rw [whole, more, append_assoc]⟩

theorem opusParseSizes_outside (remaining : Nat) (n : List Nat) (p : List UInt8)
    (room : n.length ≤ 48) (many : 48 < n.length + remaining) :
    opusParseSizes remaining n p =
      match readSizes (48 - n.length) p with
      | none => .ok none
      | some (_, rest) =>
        match opusParseSize rest with
        | none => .ok none
        | some _ => .error .outside := by
  induction remaining generalizing n p with
  | zero => omega
  | succ remaining ih =>
    unfold opusParseSizes
    by_cases full : n.length = 48
    · rw [full, Nat.sub_self, readSizes]
      dsimp only
      cases opusParseSize p with
      | none => rfl
      | some read => rfl
    · obtain ⟨left, more⟩ : ∃ left, 48 - n.length = left + 1 := ⟨47 - n.length, by omega⟩
      rw [more, readSizes]
      cases opusParseSize p with
      | none => rfl
      | some read =>
        dsimp only
        rw [if_neg (by omega)]
        split
        · rfl
        · have length : (n ++ [read.1]).length = n.length + 1 := by simp
          rw [ih _ _ (by omega) (by omega), length, show 48 - (n.length + 1) = left by omega]
          cases readSizes left read.2 with
          | none => rfl
          | some later => rfl

/-! ## Padding -/

/-- How many bytes of padding are announced, and what stands behind their sizes. -/
def paddingSize : List UInt8 → Option (Nat × List UInt8)
  | [] => none
  | n :: data =>
    if n = 255 then (paddingSize data).map fun read => (254 + read.1, read.2)
    else some (n.toNat, data)

theorem paddingSize_shorter {pad : Nat} (read : paddingSize p = some (pad, rest)) :
    ∃ code, code ≠ [] ∧ p = code ++ rest := by
  induction p generalizing pad with
  | nil => cases read
  | cons n data ih =>
    unfold paddingSize at read
    split at read
    · obtain ⟨later, here, same⟩ := Option.map_eq_some_iff.mp read
      cases same
      obtain ⟨code, -, whole⟩ := ih here
      exact ⟨n :: code, by simp, by rw [whole]; rfl⟩
    · cases read
      exact ⟨[n], by simp, rfl⟩

theorem opusParsePadding_cases (len : Int) (data : List UInt8) (inside : len ≤ data.length) :
    (∃ pad rest, paddingSize data = some (pad, rest) ∧
        opusParsePadding len data = .ok (some rest)) ∨
      (opusParsePadding len data = .ok none ∧ ∀ pad rest, paddingSize data = some (pad, rest) →
        (rest.length : Int) < data.length - len + pad) := by
  induction data generalizing len with
  | nil =>
    right
    have none : len ≤ 0 := inside
    unfold opusParsePadding
    rw [if_pos none]
    exact ⟨rfl, nofun⟩
  | cons n data ih =>
    unfold opusParsePadding
    by_cases none : len ≤ 0
    · right
      rw [if_pos none]
      refine ⟨rfl, fun pad rest read => ?_⟩
      obtain ⟨code, some, whole⟩ := paddingSize_shorter read
      have shorter := congrArg List.length whole
      rw [length_append] at shorter
      have positive := length_pos_of_ne_nil some
      omega
    · rw [if_neg none]
      dsimp only
      unfold paddingSize
      by_cases more : n = 255
      · rw [if_pos more, if_pos more]
        rw [length_cons] at inside ⊢
        rcases ih (len - 1 - 254) (by omega) with ⟨pad, rest, read, parsed⟩ | ⟨failed, short⟩
        · left
          exact ⟨254 + pad, rest, by rw [read]; rfl, parsed⟩
        · right
          refine ⟨failed, fun pad rest read => ?_⟩
          obtain ⟨later, here, same⟩ := Option.map_eq_some_iff.mp read
          cases same
          have below := short _ _ here
          push_cast
          omega
      · rw [if_neg more, if_neg more]
        exact .inl ⟨n.toNat, data, rfl, rfl⟩

/-- What the padding sizes of a packet announce: nothing if there are none. -/
def announcedPadding (header : UInt8) (p : List UInt8) : Option (Nat × List UInt8) :=
  if header.toNat / 64 % 2 = 1 then paddingSize p else some (0, p)

theorem opusSkipPadding_cases (header : UInt8) (p : List UInt8) :
    (∃ pad rest, announcedPadding header p = some (pad, rest) ∧
        opusSkipPadding header p = .ok (some rest)) ∨
      (opusSkipPadding header p = .ok none ∧ ∀ pad rest,
        announcedPadding header p = some (pad, rest) → rest.length < pad) := by
  unfold opusSkipPadding announcedPadding
  split
  · rcases opusParsePadding_cases p.length p (Int.le_refl _) with found | ⟨failed, short⟩
    · exact .inl found
    · right
      refine ⟨failed, fun pad rest read => ?_⟩
      have below := short pad rest read
      omega
  · exact .inl ⟨0, p, rfl, rfl⟩

variable {header : UInt8}

theorem announcedPadding_suffix {pad : Nat} (read : announcedPadding header p = some (pad, rest)) :
    ∃ codes, p = codes ++ rest := by
  unfold announcedPadding at read
  split at read
  · obtain ⟨codes, -, whole⟩ := paddingSize_shorter read
    exact ⟨codes, whole⟩
  · cases read
    exact ⟨[], rfl⟩

theorem opusSkipPadding_suffix (skipped : opusSkipPadding header p = .ok (some rest)) :
    ∃ codes, p = codes ++ rest := by
  rcases opusSkipPadding_cases header p with ⟨pad, other, read, found⟩ | ⟨failed, -⟩
  · rw [found] at skipped
    cases skipped
    exact announcedPadding_suffix read
  · rw [failed] at skipped
    cases skipped

/-! ## Packets -/

/-- The explicit sizes of a variable packet do not fit, or more than `1275` bytes are left for
its last frame. -/
def VbrRejected (count : Nat) (p : List UInt8) : Prop :=
  match readSizes (min (count - 1) 48) p with
  | none => True
  | some (_, rest) => if 50 ≤ count then opusParseSize rest = none else 1275 < rest.length

def CountedRejected (count : Nat) (vbr : Bool) (p : List UInt8) : Prop :=
  if vbr then VbrRejected count p else count ≠ 0 ∧ ¬count ∣ p.length

/-- A constant packet without frames, or a variable one with more than `48` whose sizes are all
there. -/
def CountedFaults (count : Nat) (vbr : Bool) (p : List UInt8) : Prop :=
  if vbr then 49 ≤ count ∧ ¬VbrRejected count p else count = 0

/-- Some part of the code-`3` packet behind its headers has a property. -/
def CountedPart (part : Nat → Bool → List UInt8 → Prop) : List UInt8 → Prop
  | [] => False
  | header :: p =>
    ∃ rest, opusSkipPadding header p = .ok (some rest) ∧
      part (header.toNat % 64) (128 ≤ header.toNat) rest

/-- `opus_parse_frames` returns `-1` without a call. -/
def UnitRejected : List UInt8 → Prop
  | [] => True
  | toc :: p =>
    match toc.toNat % 4 with
    | 0 => False
    | 1 => p.length % 2 = 1
    | 2 => ∀ size rest, opusParseSize p = some (size, rest) → rest.length < size
    | _ => ¬CountedPart (fun count vbr rest => ¬CountedRejected count vbr rest) p

/-- `opus_parse_frames` divides by zero or writes behind `n[]`. -/
def UnitFaults : List UInt8 → Prop
  | [] => False
  | toc :: p => toc.toNat % 4 = 3 ∧ CountedPart CountedFaults p

theorem countedPart_iff {part : Nat → Bool → List UInt8 → Prop}
    (skipped : opusSkipPadding header p = .ok (some rest)) :
    CountedPart part (header :: p) ↔ part (header.toNat % 64) (128 ≤ header.toNat) rest := by
  constructor
  · rintro ⟨other, same, holds⟩
    rw [skipped] at same
    cases same
    exact holds
  · exact fun holds => ⟨rest, skipped, holds⟩

theorem countedPart_none {part : Nat → Bool → List UInt8 → Prop}
    (failed : opusSkipPadding header p = .ok none) : ¬CountedPart part (header :: p) := by
  rintro ⟨rest, same, -⟩
  rw [failed] at same
  cases same

theorem vbr_rejected (rejected : VbrRejected count p) :
    opusCountedFrames toc count true start p = .ok none := by
  unfold VbrRejected at rejected
  unfold opusCountedFrames
  rw [if_pos rfl]
  rcases Nat.lt_or_ge count 50 with few | many
  · have small : min (count - 1) 48 = count - 1 := by omega
    rw [small] at rejected
    rw [opusParseSizes_eq _ _ _ (by simp; omega)]
    cases sizes : readSizes (count - 1) p with
    | none => rfl
    | some read =>
      rw [sizes] at rejected
      dsimp only at rejected
      rw [if_neg (by omega)] at rejected
      dsimp only [Option.map_some]
      rw [if_pos rejected]
  · have large : min (count - 1) 48 = 48 := by omega
    rw [large] at rejected
    rw [opusParseSizes_outside _ _ _ (by simp) (by simp; omega), length_nil, Nat.sub_zero]
    cases sizes : readSizes 48 p with
    | none => rfl
    | some read =>
      rw [sizes] at rejected
      dsimp only at rejected
      rw [if_pos many] at rejected
      dsimp only
      rw [rejected]

theorem vbr_faults (accepted : ¬VbrRejected count p) (many : 49 ≤ count) :
    opusCountedFrames toc count true start p = .error .outside := by
  unfold VbrRejected at accepted
  unfold opusCountedFrames
  rw [if_pos rfl]
  have large : min (count - 1) 48 = 48 := by omega
  rw [large] at accepted
  rcases Nat.lt_or_ge count 50 with few | more
  · obtain rfl : count = 49 := by omega
    rw [opusParseSizes_eq _ _ _ (by simp)]
    cases sizes : readSizes (49 - 1) p with
    | none =>
      rw [sizes] at accepted
      exact absurd trivial accepted
    | some read =>
      rw [sizes] at accepted
      dsimp only at accepted
      rw [if_neg (by omega)] at accepted
      have full := readSizes_length sizes
      dsimp only [Option.map_some]
      rw [if_neg accepted, nil_append, if_pos (by omega)]
  · rw [opusParseSizes_outside _ _ _ (by simp) (by simp; omega), length_nil, Nat.sub_zero]
    cases sizes : readSizes 48 p with
    | none =>
      rw [sizes] at accepted
      exact absurd trivial accepted
    | some read =>
      rw [sizes] at accepted
      dsimp only at accepted
      rw [if_pos more] at accepted
      dsimp only
      cases next : opusParseSize read.2 with
      | none => exact absurd next accepted
      | some size => rfl

theorem vbr_accepted (toc : UInt8) (start : Nat) (accepted : ¬VbrRejected count p) (few : count ≤ 48) :
    ∃ sizes rest, readSizes (count - 1) p = some (sizes, rest) ∧ rest.length ≤ 1275 ∧
      opusCountedFrames toc count true start p =
        .ok (some (framesFrom toc (start + (p.length - rest.length))
          ((sizes ++ [rest.length]).take count))) := by
  unfold VbrRejected at accepted
  unfold opusCountedFrames
  rw [if_pos rfl, opusParseSizes_eq _ _ _ (by simp; omega)]
  have small : min (count - 1) 48 = count - 1 := by omega
  rw [small] at accepted
  cases sizes : readSizes (count - 1) p with
  | none =>
    rw [sizes] at accepted
    exact absurd trivial accepted
  | some read =>
    rw [sizes] at accepted
    dsimp only at accepted
    rw [if_neg (by omega)] at accepted
    have length := readSizes_length sizes
    refine ⟨read.1, read.2, rfl, by omega, ?_⟩
    dsimp only [Option.map_some]
    rw [if_neg accepted, nil_append, if_neg (by omega)]

theorem cbr_accepted (divides : count ∣ p.length) (some : count ≠ 0) :
    opusCountedFrames toc count false start p =
      .ok (Option.some (framesFrom toc start (List.replicate count (p.length / count)))) := by
  unfold opusCountedFrames
  rw [if_neg (by decide), if_neg some, if_neg (not_not_intro (Nat.div_mul_cancel divides))]

theorem opusCountedFrames_cases (toc : UInt8) (count : Nat) (vbr : Bool) (start : Nat)
    (p : List UInt8) :
    (CountedRejected count vbr p ∧ opusCountedFrames toc count vbr start p = .ok none) ∨
      (CountedFaults count vbr p ∧ ¬CountedRejected count vbr p ∧
        ∃ fault, opusCountedFrames toc count vbr start p = .error fault) ∨
      (¬CountedRejected count vbr p ∧ ¬CountedFaults count vbr p ∧
        ∃ frames, opusCountedFrames toc count vbr start p = .ok (some frames)) := by
  unfold CountedRejected CountedFaults
  cases vbr with
  | true =>
    simp only [if_true]
    by_cases rejected : VbrRejected count p
    · exact .inl ⟨rejected, vbr_rejected rejected⟩
    right
    rcases Nat.lt_or_ge count 49 with few | many
    · right
      obtain ⟨sizes, rest, -, -, returned⟩ := vbr_accepted toc start rejected (by omega)
      exact ⟨rejected, by omega, _, returned⟩
    · exact .inl ⟨⟨many, rejected⟩, rejected, _, vbr_faults rejected many⟩
  | false =>
    simp only [Bool.false_eq_true, if_false]
    by_cases none : count = 0
    · right
      left
      refine ⟨none, fun rejected => rejected.1 none, .division, ?_⟩
      unfold opusCountedFrames
      rw [if_neg (by decide), if_pos none]
    by_cases divides : count ∣ p.length
    · right
      right
      exact ⟨fun rejected => rejected.2 divides, none, _, cbr_accepted divides none⟩
    · left
      refine ⟨⟨none, divides⟩, ?_⟩
      unfold opusCountedFrames
      have uneven : p.length / count * count ≠ p.length := by
        rintro whole
        exact divides (Dvd.intro_left _ whole)
      rw [if_neg (by decide), if_neg none, if_pos uneven]

/-! ## Packets by their codes -/

theorem code_cases (toc : UInt8) : toc.toNat % 4 = 0 ∨ toc.toNat % 4 = 1 ∨ toc.toNat % 4 = 2 ∨
    toc.toNat % 4 = 3 := by omega

theorem opusFrames_one (code : toc.toNat % 4 = 0) :
    opusFrames start (toc :: p) = .ok (some [⟨toc, start + 1, (p.length : Int) - 1⟩]) := by
  unfold opusFrames
  simp only [code]

theorem opusFrames_equal (code : toc.toNat % 4 = 1) (even : ¬p.length % 2 = 1) :
    opusFrames start (toc :: p) = .ok (some [⟨oneFrame toc, start + 1, (p.length / 2 : Nat)⟩,
      ⟨oneFrame toc, start + 1, (p.length / 2 : Nat)⟩]) := by
  unfold opusFrames
  simp only [code]
  rw [if_neg even]

theorem opusFrames_two (code : toc.toNat % 4 = 2) (read : opusParseSize p = some (size, rest))
    (fits : size ≤ rest.length) :
    opusFrames start (toc :: p) =
      .ok (some (framesFrom (oneFrame toc) (start + 1 + (p.length - rest.length))
        [size, rest.length - size])) := by
  unfold opusFrames
  simp only [code]
  rw [read]
  dsimp only
  rw [if_neg (by omega)]

theorem opusFrames_counted (code : toc.toNat % 4 = 3)
    (skipped : opusSkipPadding header p = .ok (some rest)) :
    opusFrames start (toc :: header :: p) =
      opusCountedFrames (oneFrame toc) (header.toNat % 64) (128 ≤ header.toNat)
        (start + 2 + (p.length - rest.length)) rest := by
  unfold opusFrames
  simp only [code]
  rw [skipped]

/-- A unit is rejected, or goes wrong, or gives frames. -/
theorem opusFrames_cases (start : Nat) (unit : List UInt8) :
    (UnitRejected unit ∧ opusFrames start unit = .ok none) ∨
      (UnitFaults unit ∧ ¬UnitRejected unit ∧ ∃ fault, opusFrames start unit = .error fault) ∨
      (¬UnitRejected unit ∧ ¬UnitFaults unit ∧
        ∃ frames, opusFrames start unit = .ok (some frames)) := by
  cases unit with
  | nil => exact .inl ⟨trivial, rfl⟩
  | cons toc p =>
    unfold UnitRejected UnitFaults
    rcases code_cases toc with code | code | code | code
    · simp only [code]
      exact .inr (.inr ⟨not_false, by omega, _, opusFrames_one code⟩)
    · simp only [code]
      by_cases odd : p.length % 2 = 1
      · left
        refine ⟨odd, ?_⟩
        unfold opusFrames
        simp only [code]
        rw [if_pos odd]
      · exact .inr (.inr ⟨odd, by omega, _, opusFrames_equal code odd⟩)
    · simp only [code]
      cases read : opusParseSize p with
      | none =>
        left
        refine ⟨fun size rest same => (by cases same), ?_⟩
        unfold opusFrames
        simp only [code]
        rw [read]
      | some found =>
        by_cases fits : found.2.length < found.1
        · left
          refine ⟨?_, ?_⟩
          · rintro size rest same
            cases same
            exact fits
          · unfold opusFrames
            simp only [code]
            rw [read]
            dsimp only
            rw [if_pos fits]
        · right
          right
          refine ⟨fun small => fits (small _ _ rfl), by omega, _,
            opusFrames_two code read (by omega)⟩
    · simp only [code, true_and]
      cases p with
      | nil =>
        left
        refine ⟨not_false, ?_⟩
        unfold opusFrames
        simp only [code]
      | cons header p =>
        rcases opusSkipPadding_cases header p with ⟨pad, rest, -, here⟩ | ⟨here, -⟩
        · rw [countedPart_iff here, countedPart_iff here, not_not,
            opusFrames_counted code here]
          exact opusCountedFrames_cases _ _ _ _ _
        · left
          refine ⟨countedPart_none here, ?_⟩
          unfold opusFrames
          simp only [code]
          rw [here]

end CLibs.Opus
