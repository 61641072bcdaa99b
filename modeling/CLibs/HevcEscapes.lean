import Mathlib.Data.List.Basic
import Mathlib.Tactic.IntervalCases

/-!
# Emulation prevention in HEVC NAL units

No `00 00 00` to `00 00 03` may stand inside of a NAL unit: an encoder puts a `03` behind two
zeros where such a byte follows.  `hevc_rbsp_decode` copies a NAL unit without these bytes, for
`hevc_vps_id`, `hevc_sps_id` and `hevc_pps_id`.
-/

namespace CLibs.Hevc

/-! ## The two directions -/

/-- What the loop of `hevc_rbsp_decode` writes for the bytes from `nalu[i]` on. -/
def rbspFrom : List UInt8 → List UInt8
  | [] => []
  | [first] => [first]
  | [first, second] => [first, second]
  | first :: second :: third :: rest =>
    if first = 0 ∧ second = 0 ∧ third = 3 then first :: second :: rbspFrom rest
    else first :: rbspFrom (second :: third :: rest)

/-- What stands in `sodb` afterwards, and the result `j`, which counts the writes. -/
def hevcRbspDecode (nalu : List UInt8) : List UInt8 × Nat :=
  (rbspFrom nalu, (rbspFrom nalu).length)

/-- Escaping as the standard has it, behind `zeros` zero bytes: a `03` goes before a byte of at most
`03` that follows two of them. -/
def escapeFrom : (zeros : Nat) → List UInt8 → List UInt8
  | _, [] => []
  | zeros, byte :: payload =>
    if zeros = 2 ∧ byte ≤ 3 then 3 :: byte :: escapeFrom (if byte = 0 then 1 else 0) payload
    else byte :: escapeFrom (if byte = 0 then zeros + 1 else 0) payload

def escape (payload : List UInt8) : List UInt8 := escapeFrom 0 payload

example : escape [0, 0, 0, 0, 0, 3, 7] = [0, 0, 3, 0, 0, 3, 0, 3, 7] := by decide

/-! ## Decoding -/

theorem rbspFrom_cons {byte : UInt8} (nonzero : byte ≠ 0) (rest : List UInt8) :
    rbspFrom (byte :: rest) = byte :: rbspFrom rest := by
  match rest with
  | [] => rfl
  | [_] => rfl
  | _ :: _ :: _ => rw [rbspFrom, if_neg fun zeros => nonzero zeros.1]

theorem rbspFrom_zero_cons {byte : UInt8} (nonzero : byte ≠ 0) (rest : List UInt8) :
    rbspFrom (0 :: byte :: rest) = 0 :: byte :: rbspFrom rest := by
  match rest with
  | [] => rfl
  | third :: rest =>
    rw [rbspFrom, if_neg fun zeros => nonzero zeros.2.1, rbspFrom_cons nonzero]

theorem rbspFrom_zeros_cons {byte : UInt8} (large : 3 < byte) (rest : List UInt8) :
    rbspFrom (0 :: 0 :: byte :: rest) = 0 :: 0 :: byte :: rbspFrom rest := by
  have nonzero : byte ≠ 0 := by rintro rfl; exact absurd large (by decide)
  have other : byte ≠ 3 := by rintro rfl; exact absurd large (by decide)
  rw [rbspFrom, if_neg fun escaped => other escaped.2.2, rbspFrom_zero_cons nonzero]

theorem rbspFrom_escaped (rest : List UInt8) :
    rbspFrom (0 :: 0 :: 3 :: rest) = 0 :: 0 :: rbspFrom rest := by
  rw [rbspFrom, if_pos ⟨rfl, rfl, rfl⟩]

theorem rbspFrom_escapeFrom (payload : List UInt8) (zeros : Nat) (few : zeros ≤ 2) :
    rbspFrom (List.replicate zeros 0 ++ escapeFrom zeros payload) =
      List.replicate zeros 0 ++ payload := by
  induction payload generalizing zeros with
  | nil =>
    interval_cases zeros <;> rfl
  | cons byte payload later =>
    unfold escapeFrom
    split
    case isTrue escaped =>
      obtain ⟨rfl, _⟩ := escaped
      change rbspFrom (0 :: 0 :: 3 :: byte :: escapeFrom _ payload) = 0 :: 0 :: byte :: payload
      rw [rbspFrom_escaped]
      by_cases zero : byte = 0
      · subst zero
        exact congrArg (0 :: 0 :: ·) (later 1 (by decide))
      · rw [if_neg zero, rbspFrom_cons zero]
        exact congrArg (0 :: 0 :: byte :: ·) (later 0 (by decide))
    case isFalse plain =>
      by_cases zero : byte = 0
      · subst zero
        have fewer : zeros + 1 ≤ 2 := by
          have two : zeros ≠ 2 := fun two => plain ⟨two, by decide⟩
          omega
        have turn := later (zeros + 1) fewer
        rw [List.replicate_succ', List.append_assoc, List.append_assoc] at turn
        exact turn
      · have rest := later 0 (by decide)
        rw [List.replicate_zero, List.nil_append, List.nil_append] at rest
        rw [if_neg zero]
        interval_cases zeros
        · exact (rbspFrom_cons zero _).trans (congrArg (byte :: ·) rest)
        · exact (rbspFrom_zero_cons zero _).trans (congrArg (0 :: byte :: ·) rest)
        · have large : 3 < byte := UInt8.not_le.mp fun small => plain ⟨rfl, small⟩
          exact (rbspFrom_zeros_cons large _).trans (congrArg (0 :: 0 :: byte :: ·) rest)

theorem rbspFrom_length_le (nalu : List UInt8) : (rbspFrom nalu).length ≤ nalu.length := by
  induction nalu using rbspFrom.induct with
  | case1 => exact Nat.le_refl _
  | case2 => exact Nat.le_refl _
  | case3 => exact Nat.le_refl _
  | case4 first second third rest escaped shorter =>
    rw [rbspFrom, if_pos escaped]
    simp only [List.length_cons]
    omega
  | case5 first second third rest plain shorter =>
    rw [rbspFrom, if_neg plain]
    simp only [List.length_cons] at shorter ⊢
    omega

/-- Decoding takes back the escaping of every payload, and never writes more than it reads. -/
theorem rbsp_decode_inverts_escaping :
    (∀ payload : List UInt8, hevcRbspDecode (escape payload) = (payload, payload.length)) ∧
      ∀ nalu : List UInt8, (hevcRbspDecode nalu).2 = (hevcRbspDecode nalu).1.length ∧
        (hevcRbspDecode nalu).2 ≤ nalu.length := by
  constructor
  · intro payload
    have decoded : rbspFrom (escape payload) = payload :=
      rbspFrom_escapeFrom payload 0 (by decide)
    rw [hevcRbspDecode, decoded]
  · intro nalu
    exact ⟨rfl, rbspFrom_length_le nalu⟩

end CLibs.Hevc
