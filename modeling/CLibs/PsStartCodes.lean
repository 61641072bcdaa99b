import Mathlib.Data.List.Basic

/-!
# The start codes of a program stream

`ps_demuxer_input` looks for `00 00 01` with `ps_demuxer_find_startcode`, which goes on by one,
two or three bytes, depending on what it has seen.  What is left at the end of the input is given
again, with more behind it.
-/

namespace CLibs.MpegTs

/-- The start code that `ps_demuxer_find_startcode` looks for. -/
def startCode : List UInt8 := [0x00, 0x00, 0x01]

/-- `p - data` where the loop ends: at a start code, or with fewer than three bytes left. -/
def psDemuxerFindStartcode : List UInt8 → Nat
  | [] => 0
  | [_] => 0
  | [_, _] => 0
  | p0 :: p1 :: p2 :: rest =>
    if p0 ≠ 0x00 then psDemuxerFindStartcode (p1 :: p2 :: rest) + 1
    else if p1 ≠ 0x00 then psDemuxerFindStartcode (p2 :: rest) + 2
    else if p2 = 0x01 then 0
    else if p2 ≠ 0x00 then psDemuxerFindStartcode rest + 3
    else psDemuxerFindStartcode (p1 :: p2 :: rest) + 1

def ClearBefore (text : List UInt8) (place : Nat) : Prop :=
  ∀ more : List UInt8, ∀ i < place, ¬startCode <+: (text ++ more).drop i

theorem ClearBefore.cons {text : List UInt8} {place : Nat} (clear : ClearBefore text place)
    {byte : UInt8} (head : ∀ more, ¬startCode <+: byte :: (text ++ more)) :
    ClearBefore (byte :: text) (place + 1) := by
  intro more i before
  cases i with
  | zero => exact head more
  | succ i => exact clear more i (by omega)

variable {text : List UInt8}

theorem head_of_startCode {byte : UInt8} (code : startCode <+: byte :: text) :
    byte = 0 ∧ [0, 1] <+: text := by
  have parts := List.cons_prefix_cons.mp code
  exact ⟨parts.1.symm, parts.2⟩

theorem second_of_startCode {first second : UInt8} (code : startCode <+: first :: second :: text) :
    second = 0 ∧ [1] <+: text := by
  have parts := List.cons_prefix_cons.mp (head_of_startCode code).2
  exact ⟨parts.1.symm, parts.2⟩

theorem third_of_startCode {first second third : UInt8}
    (code : startCode <+: first :: second :: third :: text) : third = 1 :=
  (List.cons_prefix_cons.mp (second_of_startCode code).2).1.symm

theorem psDemuxerFindStartcode_clear (text : List UInt8) :
    ClearBefore text (psDemuxerFindStartcode text) := by
  induction text using psDemuxerFindStartcode.induct with
  | case1 => exact fun _ _ before => absurd before (Nat.not_lt_zero _)
  | case2 => exact fun _ _ before => absurd before (Nat.not_lt_zero _)
  | case3 => exact fun _ _ before => absurd before (Nat.not_lt_zero _)
  | case4 p0 p1 p2 rest nonzero clear =>
    rw [psDemuxerFindStartcode, if_pos nonzero]
    exact clear.cons fun _ code => nonzero (head_of_startCode code).1
  | case5 p0 p1 p2 rest zero nonzero clear =>
    rw [psDemuxerFindStartcode, if_neg zero, if_pos nonzero]
    have behind : ClearBefore (p1 :: p2 :: rest) (psDemuxerFindStartcode (p2 :: rest) + 1) :=
      clear.cons fun _ code => nonzero (head_of_startCode code).1
    exact behind.cons fun _ code => nonzero (second_of_startCode code).1
  | case6 p0 p1 rest zero zeros =>
    rw [psDemuxerFindStartcode, if_neg zero, if_neg zeros, if_pos rfl]
    exact fun _ _ before => absurd before (Nat.not_lt_zero _)
  | case7 p0 p1 p2 rest zero zeros other nonzero clear =>
    rw [psDemuxerFindStartcode, if_neg zero, if_neg zeros, if_neg other, if_pos nonzero]
    have third : ClearBefore (p2 :: rest) (psDemuxerFindStartcode rest + 1) :=
      clear.cons fun _ code => nonzero (head_of_startCode code).1
    have second : ClearBefore (p1 :: p2 :: rest) (psDemuxerFindStartcode rest + 2) :=
      third.cons fun _ code => nonzero (second_of_startCode code).1
    exact second.cons fun _ code => other (third_of_startCode code)
  | case8 p0 p1 p2 rest zero zeros other last clear =>
    rw [psDemuxerFindStartcode, if_neg zero, if_neg zeros, if_neg other, if_neg last]
    exact clear.cons fun _ code => other (third_of_startCode code)

theorem psDemuxerFindStartcode_le (text : List UInt8) :
    psDemuxerFindStartcode text ≤ text.length := by
  fun_induction psDemuxerFindStartcode text
  all_goals
    simp only [List.length_cons, List.length_nil] at *
    omega

theorem psDemuxerFindStartcode_stops (text : List UInt8)
    (inside : psDemuxerFindStartcode text + 2 < text.length) :
    startCode <+: text.drop (psDemuxerFindStartcode text) := by
  induction text using psDemuxerFindStartcode.induct with
  | case1 => exact absurd inside (by decide)
  | case2 => exact absurd inside (by simp [psDemuxerFindStartcode])
  | case3 => exact absurd inside (by simp [psDemuxerFindStartcode])
  | case4 p0 p1 p2 rest nonzero stops =>
    rw [psDemuxerFindStartcode, if_pos nonzero] at inside ⊢
    exact stops (by simpa using inside)
  | case5 p0 p1 p2 rest zero nonzero stops =>
    rw [psDemuxerFindStartcode, if_neg zero, if_pos nonzero] at inside ⊢
    exact stops (by simpa using inside)
  | case6 p0 p1 rest zero zeros =>
    rw [psDemuxerFindStartcode, if_neg zero, if_neg zeros, if_pos rfl]
    rw [not_not.mp zero, not_not.mp zeros]
    exact List.prefix_append startCode rest
  | case7 p0 p1 p2 rest zero zeros other nonzero stops =>
    rw [psDemuxerFindStartcode, if_neg zero, if_neg zeros, if_neg other, if_pos nonzero]
      at inside ⊢
    simp only [List.length_cons] at inside
    exact stops (by omega)
  | case8 p0 p1 p2 rest zero zeros other last stops =>
    rw [psDemuxerFindStartcode, if_neg zero, if_neg zeros, if_neg other, if_neg last]
      at inside ⊢
    exact stops (by simpa using inside)

theorem room_of_startCode {place : Nat} (code : startCode <+: text.drop place) :
    place + 2 < text.length := by
  have length := code.length_le
  rw [List.length_drop] at length
  change 3 ≤ _ at length
  omega

/-- The position of the first start code, if there is one, and otherwise one that keeps
everything that may become the beginning of one. -/
theorem find_startcode_skips_nothing (text : List UInt8) :
    ((∃ place, startCode <+: text.drop place) →
        startCode <+: text.drop (psDemuxerFindStartcode text) ∧
          ∀ place < psDemuxerFindStartcode text, ¬startCode <+: text.drop place) ∧
      ((¬∃ place, startCode <+: text.drop place) →
        psDemuxerFindStartcode text ≤ text.length ∧
          ∀ more : List UInt8, ∀ place < psDemuxerFindStartcode text,
            ¬startCode <+: (text ++ more).drop place) := by
  have clear := psDemuxerFindStartcode_clear text
  constructor
  · rintro ⟨place, code⟩
    have first : ∀ before < psDemuxerFindStartcode text, ¬startCode <+: text.drop before := by
      intro before earlier
      simpa using clear [] before earlier
    have reached : psDemuxerFindStartcode text ≤ place :=
      Nat.le_of_not_lt fun earlier => first place earlier code
    have room := room_of_startCode code
    exact ⟨psDemuxerFindStartcode_stops text (by omega), first⟩
  · intro _
    exact ⟨psDemuxerFindStartcode_le text, clear⟩

end CLibs.MpegTs
