import CLibs.AvcStoreRuns
import CLibs.ByteFiles
import Mathlib.Data.List.DropRight

/-!
# H.264 byte streams and length-prefixed NAL units

`h264_annexbtomp4` looks for the start codes of a byte stream and writes each NAL unit
behind its four-byte length; `h264_mp4toannexb` walks over the lengths and writes
start codes, with the stored parameter sets in front of everything when an IDR picture
comes before any of them.  Both keep the assertions of the source, also those of the
update of the store, which are compiled out where the store is studied on its own.
-/

namespace CLibs.Avc

open List

/-! ## From start codes to lengths -/

/-- `h264_startcode`: what stands behind the first start code that something follows. -/
def h264Startcode : List UInt8 → Option (List UInt8)
  | a :: b :: c :: d :: rest =>
    if c = 0x01 ∧ b = 0x00 ∧ a = 0x00 then some (d :: rest)
    else h264Startcode (b :: c :: d :: rest)
  | _ => none

section

variable {State : Type}

/-- The loop of `mpeg4_h264_annexb_nalu`; the handler gets a NAL unit and what follows
it in the buffer. -/
def annexbLoop (handler : State → List UInt8 → List UInt8 → Except Fault State) :
    (fuel : Nat) → Option (List UInt8) → State → Except Fault State
  | 0, _, _ => .error .fuel
  | _ + 1, none, state => .ok state
  | fuel + 1, some p, state => do
      let next := h264Startcode p
      let n := next.elim p.length fun next => p.length - next.length - 3
      -- filter tailing zero
      let nalu := (p.take n).rdropWhile (· = 0)
      check (0 < nalu.length)
      let state ← handler state nalu (p.drop nalu.length)
      annexbLoop handler fuel next state

def mpeg4H264AnnexbNalu (h264 : List UInt8)
    (handler : State → List UInt8 → List UInt8 → Except Fault State) (param : State) :
    Except Fault State :=
  annexbLoop handler (h264.length + 1) (h264Startcode h264) param

end

structure H264AnnexbToMp4Handle where
  avc : Mpeg4Avc
  errcode : Int
  update : Nat
  vcl : Nat
  out : Buffer UInt8
  bytes : Nat

def h264Handler (mp4 : H264AnnexbToMp4Handle) (nalu behind : List UInt8) :
    Except Fault H264AnnexbToMp4Handle := do
  check (1 ≤ nalu.length)
  let nalutype := nalType nalu
  let (r, avc) ← mpeg4AvcUpdate mp4.avc nalu behind
  -- `assert(0)` stands in front of every return of `-1`
  check (0 ≤ r)
  let mp4 := { mp4 with
    avc := avc
    update := if r = 1 then 1 else mp4.update
    errcode := if r < 0 then r else mp4.errcode
    -- IDR-1, B/P-2, other-0
    vcl := if 1 ≤ nalutype ∧ nalutype ≤ 5 then (if nalutype = 5 then 1 else 2) else mp4.vcl }
  if mp4.out.size ≥ mp4.bytes + nalu.length + 4 then
    let out ← mp4.out.store mp4.bytes (bigEndian 4 nalu.length ++ nalu)
    .ok { mp4 with out := out, bytes := mp4.bytes + (nalu.length + 4) }
  else .ok { mp4 with errcode := -1 }

/-- `h264_annexbtomp4` into a buffer of its size: what it returns, and what it leaves. -/
def h264AnnexbToMp4 (avc : Mpeg4Avc) (data : List UInt8) (out : Buffer UInt8) :
    Except Fault (Nat × H264AnnexbToMp4Handle) := do
  let h ← mpeg4H264AnnexbNalu data h264Handler ⟨avc, 0, 0, 0, out, 0⟩
  .ok (if h.errcode = 0 then h.bytes else 0, { h with avc := { h.avc with nalu := 4 } })

/-! ## From lengths to start codes -/

def h264StartCode : List UInt8 := [0x00, 0x00, 0x00, 0x01]

def isStartcode (p : List UInt8) : Prop :=
  p.getD 0 0 = 0 ∧ p.getD 1 0 = 0 ∧ (p.getD 2 0 = 1 ∨ p.getD 2 0 = 0 ∧ p.getD 3 0 = 1)

instance (p : List UInt8) : Decidable (isStartcode p) :=
  inferInstanceAs (Decidable (_ ∧ _ ∧ (_ ∨ _ ∧ _)))

def setsSize (sets : Buffer Segment) : (remaining i : Nat) → Except Fault Nat
  | 0, _ => .ok 0
  | remaining + 1, i => do
      let set ← sets.load i
      let rest ← setsSize sets remaining (i + 1)
      .ok (set.bytes + 4 + rest)

def h264SpsPpsSize (avc : Mpeg4Avc) : Except Fault Nat := do
  let sps ← setsSize avc.sps avc.nbSps.toNat 0
  let pps ← setsSize avc.pps avc.nbPps.toNat 0
  .ok (sps + pps)

/-- A loop of `mpeg4_avc_to_nalu` over an array, which asks for `reserve` more bytes
than a set has: whether it gets through, how many bytes are written and the buffer. -/
def setsToNalu (reserve : Nat) (sets : Buffer Segment) (data : Buffer UInt8) :
    (remaining i k : Nat) → Buffer UInt8 → Except Fault (Bool × Nat × Buffer UInt8)
  | 0, _, k, out => .ok (true, k, out)
  | remaining + 1, i, k, out => do
      let set ← sets.load i
      if out.size ≥ k + set.bytes + reserve then
        let stored ← data.read set.data set.bytes
        let text := if set.bytes < 4 ∨ ¬isStartcode stored then h264StartCode ++ stored else stored
        let out ← out.store k text
        setsToNalu reserve sets data remaining (i + 1) (k + text.length) out
      else .ok (false, k, out)

/-- `mpeg4_avc_to_nalu`, which returns `-1` as `none`. -/
def mpeg4AvcToNalu (avc : Mpeg4Avc) (out : Buffer UInt8) :
    Except Fault (Option Nat × Buffer UInt8) := do
  let (through, k, out) ← setsToNalu 4 avc.sps avc.data avc.nbSps.toNat 0 0 out
  if ¬through then return (none, out)
  let (through, k, out) ← setsToNalu 2 avc.pps avc.data avc.nbPps.toNat 0 k out
  if ¬through then return (none, out)
  check (k < 0x7FFF)
  return (some k, out)

/-- Where `h264_mp4toannexb` is in its output. -/
structure Mp4ToAnnexb where
  dst : Nat
  out : Buffer UInt8
  spsPpsFlag : Bool

/-- What has been written makes room for `size` bytes in front of it. -/
def makeRoom (state : Mp4ToAnnexb) (size : Nat) : Except Fault (Buffer UInt8) :=
  if state.dst ≠ 0 then state.out.move size 0 state.dst else .ok state.out

def insertSets (avc : Mpeg4Avc) (unit : List UInt8) (state : Mp4ToAnnexb) :
    Except Fault (Bool × Mp4ToAnnexb) := do
  if nalType unit = 7 ∨ nalType unit = 8 then
    return (true, { state with spsPpsFlag := true })
  if nalType unit = 5 ∧ state.spsPpsFlag = false then
    let size ← h264SpsPpsSize avc
    let out ← makeRoom state size
    let (i, out) ← mpeg4AvcToNalu avc out
    match i with
    | some (i + 1) => return (true, ⟨state.dst + (i + 1), out, true⟩)
    | _ => return (false, ⟨state.dst, out, true⟩)
  return (true, state)

/-- The loop of `h264_mp4toannexb` over what is left of the input. -/
def mp4Loop (avc : Mpeg4Avc) :
    (fuel : Nat) → List UInt8 → Mp4ToAnnexb → Except Fault (Nat × Buffer UInt8)
  | 0, _, _ => .error .fuel
  | fuel + 1, src, state =>
    if avc.nalu.toNat + 1 < src.length then do
      let n := bigValue (src.take avc.nalu.toNat)
      -- `n` is an `int`: from `2 ^ 31` on it is negative
      check (0 < n ∧ n < 2 ^ 31 ∧ n + avc.nalu.toNat ≤ src.length)
      let unit := (src.drop avc.nalu.toNat).take n
      let (goes, state) ← insertSets avc unit state
      if ¬goes then return (0, state.out)
      if state.dst + n + 4 > state.out.size then return (0, state.out)
      let out ← state.out.store state.dst (h264StartCode ++ unit)
      mp4Loop avc fuel (src.drop (n + avc.nalu.toNat))
        { state with dst := state.dst + (4 + n), out := out }
    else do
      check (src.length = 0)
      return (state.dst, state.out)

/-- `h264_mp4toannexb` into a buffer of its size: what it returns, and the buffer. -/
def h264Mp4ToAnnexb (avc : Mpeg4Avc) (data : List UInt8) (out : Buffer UInt8) :
    Except Fault (Nat × Buffer UInt8) :=
  mp4Loop avc (data.length + 1) data ⟨0, out, false⟩

end CLibs.Avc

/-!
## NAL units in a byte stream

A NAL unit does not end in a zero byte and has neither `00 00 00` nor `00 00 01`
inside, so the first start code in a stream that begins with one is the start code of
the next unit, and cutting trailing zeros gives the unit back.
-/

namespace CLibs.Avc

open List

variable {State : Type} {nal before after rest : List UInt8}

/-- What stands between two start codes. -/
structure IsUnit (nal : List UInt8) : Prop where
  nonempty : nal ≠ []
  last : nal.getLast? ≠ some 0
  zeros : ¬[0, 0, 0] <:+: nal
  startcode : ¬[0, 0, 1] <:+: nal

/-- A start code of four bytes, or of three. -/
def code (long : Bool) : List UInt8 := if long then [0, 0, 0, 1] else [0, 0, 1]

/-- The byte stream of NAL units, each with a long or a short start code. -/
def annexbText (units : List (Bool × List UInt8)) : List UInt8 :=
  units.flatMap fun unit => code unit.1 ++ unit.2

theorem annexbText_cons (unit : Bool × List UInt8) (units : List (Bool × List UInt8)) :
    annexbText (unit :: units) = code unit.1 ++ (unit.2 ++ annexbText units) := by
  rw [annexbText, flatMap_cons, append_assoc]
  rfl

/-! ## Start codes -/

theorem h264Startcode_none (clear : ¬[0, 0, 1] <:+: nal) : h264Startcode nal = none := by
  induction nal with
  | nil => rfl
  | cons a nal ih =>
    have later := ih fun inside => clear (inside.trans (suffix_cons a nal).isInfix)
    match nal with
    | [] => rfl
    | [b] => rfl
    | [b, c] => rfl
    | b :: c :: d :: more =>
      rw [h264Startcode, if_neg, later]
      rintro ⟨rfl, rfl, rfl⟩
      exact clear ⟨[], d :: more, rfl⟩

theorem h264Startcode_found (clear : ¬[0, 0, 1] <:+: before ++ [0, 0]) (more : rest ≠ []) :
    h264Startcode (before ++ 0 :: 0 :: 1 :: rest) = some rest := by
  induction before with
  | nil =>
    obtain ⟨d, more, rfl⟩ := exists_cons_of_ne_nil more
    rfl
  | cons a before ih =>
    have later := ih fun inside => clear (inside.trans (suffix_cons a _).isInfix)
    match before with
    | [] =>
      rw [nil_append] at later
      rw [singleton_append, h264Startcode, if_neg, later]
      rintro ⟨impossible, -⟩
      exact absurd impossible (by decide)
    | [b] =>
      rw [singleton_append] at later
      rw [cons_append, singleton_append, h264Startcode, if_neg, later]
      rintro ⟨impossible, -⟩
      exact absurd impossible (by decide)
    | b :: c :: before =>
      have four : ∃ d tail, before ++ 0 :: 0 :: 1 :: rest = d :: tail :=
        exists_cons_of_ne_nil (by simp)
      obtain ⟨d, tail, split⟩ := four
      rw [cons_append, cons_append, split] at later
      rw [cons_append, cons_append, cons_append, split, h264Startcode, if_neg,
        later]
      rintro ⟨rfl, rfl, rfl⟩
      exact clear ⟨[], before ++ [0, 0], rfl⟩

theorem clear_append_zeros (clear : ¬[0, 0, 1] <:+: nal) (count : Nat) :
    ¬[0, 0, 1] <:+: nal ++ List.replicate count 0 := by
  induction count with
  | zero =>
    rw [replicate_zero, append_nil]
    exact clear
  | succ count ih =>
    rw [replicate_succ', ← append_assoc, infix_concat_iff]
    rintro (⟨before, split⟩ | inside)
    · have last := congrArg List.getLast? split
      rw [List.getLast?_append, List.getLast?_append] at last
      have impossible : (1 : UInt8) = 0 := Option.some.inj last
      exact absurd impossible (by decide)
    · exact ih inside

theorem IsUnit.next (unit : IsUnit nal) (long : Bool) (more : rest ≠ []) :
    h264Startcode (nal ++ (code long ++ rest)) = some rest := by
  cases long with
  | true =>
    have clear := clear_append_zeros unit.startcode 3
    have found := @h264Startcode_found (nal ++ [0]) rest (by
      rw [append_assoc]
      exact clear) more
    rw [append_assoc] at found
    exact found
  | false => exact h264Startcode_found (clear_append_zeros unit.startcode 2) more

theorem IsUnit.trim (unit : IsUnit nal) (count : Nat) :
    (nal ++ List.replicate count 0).rdropWhile (· = 0) = nal := by
  induction count with
  | zero =>
    rw [replicate_zero, append_nil, rdropWhile_eq_self_iff]
    intro nonempty zero
    refine unit.last ?_
    rw [List.getLast?_eq_some_getLast nonempty]
    exact congrArg some (of_decide_eq_true zero)
  | succ count ih =>
    rw [replicate_succ', ← append_assoc, rdropWhile_concat_pos _ _ _ (by decide), ih]

/-! ## The loop over the units -/

def handleUnits (handler : State → List UInt8 → List UInt8 → Except Fault State) :
    List (Bool × List UInt8) → State → Except Fault State
  | [], state => .ok state
  | unit :: units, state => do
      let state ← handler state unit.2 (annexbText units)
      handleUnits handler units state

theorem startcode_annexbText {unit : Bool × List UInt8} {units : List (Bool × List UInt8)}
    (valid : IsUnit unit.2) :
    h264Startcode (annexbText (unit :: units)) = some (unit.2 ++ annexbText units) := by
  have more : unit.2 ++ annexbText units ≠ [] := append_ne_nil_of_left_ne_nil valid.nonempty _
  rw [annexbText_cons]
  cases unit.1 with
  | true => exact @h264Startcode_found [0] _ (by decide) more
  | false => exact @h264Startcode_found [] _ (by decide) more

theorem IsUnit.startcode_eq (unit : IsUnit nal) (units : List (Bool × List UInt8))
    (valid : ∀ unit ∈ units, IsUnit unit.2) :
    h264Startcode (nal ++ annexbText units) = h264Startcode (annexbText units) := by
  cases units with
  | nil =>
    change h264Startcode (nal ++ []) = none
    rw [append_nil, h264Startcode_none unit.startcode]
  | cons next units =>
    have nextValid := valid next mem_cons_self
    rw [startcode_annexbText nextValid, annexbText_cons]
    exact unit.next _ (append_ne_nil_of_left_ne_nil nextValid.nonempty _)

theorem IsUnit.cut (unit : IsUnit nal) (units : List (Bool × List UInt8))
    (valid : ∀ unit ∈ units, IsUnit unit.2) :
    ((nal ++ annexbText units).take ((h264Startcode (annexbText units)).elim
      (nal ++ annexbText units).length fun next =>
        (nal ++ annexbText units).length - next.length - 3)).rdropWhile (· = 0) = nal := by
  cases units with
  | nil =>
    change ((nal ++ []).take (nal ++ []).length).rdropWhile _ = nal
    rw [take_length]
    exact unit.trim 0
  | cons next units =>
    have nextValid := valid next mem_cons_self
    rw [startcode_annexbText nextValid, Option.elim_some, annexbText_cons]
    have zeros : code next.1 = List.replicate ((code next.1).length - 3) 0 ++ [0, 0, 1] := by
      cases next.1 with
      | true => rfl
      | false => rfl
    generalize next.2 ++ annexbText units = rest
    have length : (nal ++ (code next.1 ++ rest)).length - rest.length - 3 =
        (nal ++ List.replicate ((code next.1).length - 3) 0).length := by
      have three : 3 ≤ (code next.1).length := by
        cases next.1 with
        | true => decide
        | false => decide
      rw [length_append, length_append, length_append, length_replicate]
      omega
    have split : nal ++ (code next.1 ++ rest) =
        (nal ++ List.replicate ((code next.1).length - 3) 0) ++ ([0, 0, 1] ++ rest) := by
      rw [append_assoc nal, ← append_assoc (List.replicate _ 0), ← zeros]
    rw [length, split, take_left' rfl]
    exact unit.trim _

/-- The loop hands every unit to the handler once. -/
theorem annexbLoop_eq (handler : State → List UInt8 → List UInt8 → Except Fault State)
    (units : List (Bool × List UInt8)) (valid : ∀ unit ∈ units, IsUnit unit.2) (state : State)
    {fuel : Nat} (enough : units.length < fuel) :
    annexbLoop handler fuel (h264Startcode (annexbText units)) state =
      handleUnits handler units state := by
  induction units generalizing state fuel with
  | nil =>
    obtain ⟨fuel, rfl⟩ := Nat.exists_eq_succ_of_ne_zero (Nat.ne_of_gt enough)
    rfl
  | cons unit units ih =>
    obtain ⟨fuel, rfl⟩ := Nat.exists_eq_succ_of_ne_zero (Nat.ne_of_gt (Nat.zero_lt_of_lt enough))
    have first := valid unit mem_cons_self
    have others := (forall_mem_cons.mp valid).2
    rw [startcode_annexbText first, annexbLoop, first.startcode_eq units others]
    have cut := first.cut units others
    generalize (h264Startcode (annexbText units)).elim _ _ = n at cut
    rw [cut, check_eq (length_pos_iff.mpr first.nonempty), ok_bind, drop_left' rfl]
    unfold handleUnits
    exact congrArg _ (funext fun state => ih others state (Nat.lt_of_succ_lt_succ enough))

end CLibs.Avc
