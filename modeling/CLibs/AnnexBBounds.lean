import CLibs.AnnexBRoundTrip

/-!
# The bounds of the output

`mpeg4_avc_to_nalu` asks for two bytes beside a PPS where its start code takes four, and
`h264_mp4toannexb` moves what it has written before any test of the room for the sets.  These
are the only ways out of the output buffer.
-/

namespace CLibs.Avc

open List

variable {whole : Prop} {avc : Mpeg4Avc} {entries : SetKind → List Entry}
  {set unit src rest : List UInt8} {strings units sps pps : List (List UInt8)}
  {sets : Buffer Segment} {data out : Buffer UInt8} {i k reserve size fuel dst : Nat}

/-! ## The sets in a byte stream -/

/-- Whether a set is put behind a start code: it has none of its own. -/
def Coded (set : List UInt8) : Prop := set.length < 4 ∨ ¬isStartcode set

instance (set : List UInt8) : Decidable (Coded set) := inferInstanceAs (Decidable (_ ∨ _))

def naluText (set : List UInt8) : List UInt8 := if Coded set then h264StartCode ++ set else set

/-- The byte stream of parameter sets. -/
def naluTexts (sets : List (List UInt8)) : List UInt8 := sets.flatMap naluText

theorem naluTexts_cons (set : List UInt8) (strings : List (List UInt8)) :
    (naluTexts (set :: strings)).length = (naluText set).length + (naluTexts strings).length := by
  rw [naluTexts, flatMap_cons, length_append]
  rfl

theorem naluTexts_append (first second : List (List UInt8)) :
    (naluTexts (first ++ second)).length = (naluTexts first).length + (naluTexts second).length := by
  rw [naluTexts, flatMap_append, length_append]
  rfl

theorem naluText_length (set : List UInt8) :
    (naluText set).length = if Coded set then set.length + 4 else set.length := by
  unfold naluText
  split
  · rw [length_append, Nat.add_comm]
    rfl
  · rfl

/-- The loop of `mpeg4_avc_to_nalu` over sets, by their lengths: whether it gets through and how
far, unless it leaves the buffer. -/
def setsRun (reserve size : Nat) : (k : Nat) → List (List UInt8) → Option (Bool × Nat)
  | k, [] => some (true, k)
  | k, set :: strings =>
    if k + set.length + reserve ≤ size then
      if k + (naluText set).length ≤ size then
        setsRun reserve size (k + (naluText set).length) strings
      else none
    else some (false, k)

def Ends (result : Except Fault (Bool × Nat × Buffer UInt8)) (size : Nat) :
    Option (Bool × Nat) → Prop
  | none => result = .error .outside
  | some (through, last) => ∃ next, result = .ok (through, last, next) ∧ next.size = size

theorem setsToNalu_ends (points : Points sets data i strings)
    (few : i + strings.length ≤ sets.size) :
    Ends (setsToNalu reserve sets data strings.length i k out) out.size
      (setsRun reserve out.size k strings) := by
  induction strings generalizing i k out with
  | nil => exact ⟨out, rfl, rfl⟩
  | cons set strings ih =>
    rw [length_cons] at few ⊢
    obtain ⟨segment, loaded, width, holds⟩ := points_load points (by omega)
    rw [setsRun, setsToNalu, loaded, ok_bind, width]
    by_cases enough : k + set.length + reserve ≤ out.size
    · rw [if_pos enough, if_pos enough, holds.read_eq rfl, ok_bind]
      change Ends (out.store k (naluText set) >>= _) _ _
      by_cases fits : k + (naluText set).length ≤ out.size
      · rw [if_pos fits, Buffer.store_eq fits, ok_bind]
        exact ih points.tail (by omega)
      · rw [if_neg fits]
        unfold Buffer.store
        rw [if_neg fits]
        rfl
    · rw [if_neg enough, if_neg enough]
      exact ⟨out, rfl, rfl⟩

theorem setsRun_through {last : Nat} (inside : k ≤ size)
    (ended : setsRun reserve size k strings = some (true, last)) :
    last = k + (naluTexts strings).length ∧ last ≤ size := by
  induction strings generalizing k with
  | nil =>
    cases ended
    exact ⟨rfl, inside⟩
  | cons set strings ih =>
    rw [setsRun] at ended
    split at ended
    · split at ended
      · next fits =>
          obtain ⟨same, bound⟩ := ih fits ended
          rw [naluTexts_cons]
          exact ⟨by omega, bound⟩
      · cases ended
    · cases ended

theorem setsRun_four (size k : Nat) (strings : List (List UInt8)) :
    (∃ last, setsRun 4 size k strings = some (false, last) ∧ ¬∀ before set after,
        strings = before ++ set :: after →
          k + (naluTexts before).length + set.length + 4 ≤ size) ∨
      (setsRun 4 size k strings = some (true, k + (naluTexts strings).length) ∧
        ∀ before set after, strings = before ++ set :: after →
          k + (naluTexts before).length + set.length + 4 ≤ size) := by
  induction strings generalizing k with
  | nil => exact .inr ⟨rfl, fun before set after split => by simp at split⟩
  | cons set strings ih =>
    have length := naluText_length set
    rw [setsRun]
    by_cases enough : k + set.length + 4 ≤ size
    · have fits : k + (naluText set).length ≤ size := by
        split at length
        · omega
        · omega
      rw [if_pos enough, if_pos fits]
      have shift : ∀ before, k + (naluTexts (set :: before)).length =
          k + (naluText set).length + (naluTexts before).length := by
        intro before
        rw [naluTexts_cons, Nat.add_assoc]
      rcases ih (k + (naluText set).length) with ⟨last, ended, short⟩ | ⟨ended, all⟩
      · left
        refine ⟨last, ended, fun all => short fun before other after split => ?_⟩
        have here := all (set :: before) other after (by rw [split]; rfl)
        rwa [shift] at here
      · right
        refine ⟨by rw [ended, shift], fun before other after split => ?_⟩
        cases before with
        | nil =>
          cases split
          exact enough
        | cons first before =>
          obtain ⟨rfl, tail⟩ := List.cons.inj split
          rw [shift]
          exact all before other after tail
    · left
      rw [if_neg enough]
      exact ⟨k, rfl, fun all => enough (all [] set strings rfl)⟩

theorem setsRun_two (size k : Nat) (strings : List (List UInt8)) :
    setsRun 2 size k strings = none ↔ ∃ before set after, strings = before ++ set :: after ∧
      Coded set ∧ k + (naluTexts before).length + set.length + 2 ≤ size ∧
      size < k + (naluTexts before).length + set.length + 4 := by
  induction strings generalizing k with
  | nil => exact iff_of_false nofun (by rintro ⟨before, set, after, split, -⟩; simp at split)
  | cons set strings ih =>
    have length := naluText_length set
    have shift : ∀ before, k + (naluTexts (set :: before)).length =
        k + (naluText set).length + (naluTexts before).length := by
      intro before
      rw [naluTexts_cons, Nat.add_assoc]
    rw [setsRun]
    constructor
    · intro left
      split at left
      · next enough =>
          split at left
          · obtain ⟨before, other, after, rfl, coded, low, high⟩ := (ih _).mp left
            refine ⟨set :: before, other, after, rfl, coded, ?_, ?_⟩
            · rw [shift]
              exact low
            · rw [shift]
              exact high
          · next tight =>
              have coded : Coded set := by
                by_contra plain
                rw [if_neg plain] at length
                omega
              rw [if_pos coded] at length
              exact ⟨[], set, strings, rfl, coded, enough, by simp [naluTexts]; omega⟩
      · cases left
    · rintro ⟨before, other, after, split, coded, low, high⟩
      cases before with
      | nil =>
        cases split
        rw [if_pos coded] at length
        simp only [naluTexts, flatMap_nil, length_nil] at low high
        rw [if_pos (by omega), if_neg (by omega)]
      | cons first before =>
        obtain ⟨rfl, tail⟩ := List.cons.inj split
        rw [shift] at low high
        have mine : set.length ≤ (naluText set).length := by
          split at length
          · omega
          · omega
        rw [if_pos (by omega), if_pos (by omega)]
        exact (ih _).mpr ⟨before, other, after, tail, coded, low, high⟩

/-! ## `mpeg4_avc_to_nalu` -/

/-- The entries of both arrays point to these sets. -/
structure Keeps (avc : Mpeg4Avc) (sps pps : List (List UInt8)) : Prop where
  spsCount : avc.nbSps.toNat = sps.length
  ppsCount : avc.nbPps.toNat = pps.length
  spsRoom : sps.length ≤ avc.sps.size
  ppsRoom : pps.length ≤ avc.pps.size
  spsPoints : Points avc.sps avc.data 0 sps
  ppsPoints : Points avc.pps avc.data 0 pps

/-- Every SPS has four spare bytes, and some PPS is put behind a start code with two or three
bytes of room for it. -/
def NaluOverruns (size : Nat) (sps pps : List (List UInt8)) : Prop :=
  (∀ before set after, sps = before ++ set :: after →
      (naluTexts before).length + set.length + 4 ≤ size) ∧
    ∃ before set after, pps = before ++ set :: after ∧ Coded set ∧
      (naluTexts (sps ++ before)).length + set.length + 2 ≤ size ∧
      size < (naluTexts (sps ++ before)).length + set.length + 4

/-- `mpeg4_avc_to_nalu` leaves the buffer alone behind its end, and returns `-1` if the sets do
not fit. -/
structure ToNaluInside (avc : Mpeg4Avc) (out : Buffer UInt8) (sps pps : List (List UInt8)) :
    Prop where
  inside : mpeg4AvcToNalu avc out ≠ .error .outside
  short : out.size < (naluTexts (sps ++ pps)).length →
    ∃ next, mpeg4AvcToNalu avc out = .ok (none, next)

theorem Keeps.toNalu_cases (keeps : Keeps avc sps pps) (out : Buffer UInt8) :
    (NaluOverruns out.size sps pps ∧ mpeg4AvcToNalu avc out = .error .outside) ∨
      (¬NaluOverruns out.size sps pps ∧
        ((∃ next, mpeg4AvcToNalu avc out = .ok (none, next) ∧ next.size = out.size) ∨
          ((naluTexts (sps ++ pps)).length ≤ out.size ∧
            (mpeg4AvcToNalu avc out = .error .assertion ∨
              ∃ next, mpeg4AvcToNalu avc out = .ok (some (naluTexts (sps ++ pps)).length, next) ∧
                next.size = out.size)))) := by
  have first : Ends (setsToNalu 4 avc.sps avc.data avc.nbSps.toNat 0 0 out) out.size
      (setsRun 4 out.size 0 sps) := by
    rw [keeps.spsCount]
    exact setsToNalu_ends keeps.spsPoints (by rw [Nat.zero_add]; exact keeps.spsRoom)
  unfold mpeg4AvcToNalu
  rcases setsRun_four out.size 0 sps with ⟨last, ended, some⟩ | ⟨ended, all⟩
  · right
    rw [ended] at first
    obtain ⟨middle, ran, sizes⟩ := first
    refine ⟨fun overruns => some fun before set after split => ?_, .inl ⟨middle, ?_, sizes⟩⟩
    · rw [Nat.zero_add]
      exact overruns.1 before set after split
    · rw [ran]
      rfl
  · have enough := all
    simp only [Nat.zero_add] at enough
    rw [ended] at first
    obtain ⟨middle, ran, sizes⟩ := first
    obtain ⟨-, bound⟩ := setsRun_through (Nat.zero_le _) ended
    rw [ran, ok_bind]
    dsimp only
    rw [if_neg (by decide), Nat.zero_add]
    rw [Nat.zero_add] at bound
    have second : Ends (setsToNalu 2 avc.pps avc.data avc.nbPps.toNat 0 (naluTexts sps).length
        middle) middle.size (setsRun 2 middle.size (naluTexts sps).length pps) := by
      rw [keeps.ppsCount]
      exact setsToNalu_ends keeps.ppsPoints (by rw [Nat.zero_add]; exact keeps.ppsRoom)
    rw [sizes] at second
    have overruns : NaluOverruns out.size sps pps ↔
        setsRun 2 out.size (naluTexts sps).length pps = none := by
      rw [setsRun_two]
      unfold NaluOverruns
      simp only [naluTexts_append]
      exact and_iff_right enough
    rw [overruns]
    cases run : setsRun 2 out.size (naluTexts sps).length pps with
    | none =>
      left
      rw [run] at second
      refine ⟨rfl, ?_⟩
      rw [show setsToNalu 2 avc.pps avc.data avc.nbPps.toNat 0 (naluTexts sps).length middle = _
        from second]
      rfl
    | some result =>
      right
      rw [run] at second
      obtain ⟨through, last⟩ := result
      obtain ⟨next, wrote, same⟩ := second
      refine ⟨nofun, ?_⟩
      rw [wrote, ok_bind]
      dsimp only
      cases through with
      | false => exact .inl ⟨next, rfl, same⟩
      | true =>
        right
        obtain ⟨length, within⟩ := setsRun_through bound run
        rw [← naluTexts_append] at length
        subst length
        refine ⟨within, ?_⟩
        rw [if_neg (by decide)]
        by_cases small : (naluTexts (sps ++ pps)).length < 0x7FFF
        · right
          rw [check_eq small]
          exact ⟨next, rfl, same⟩
        · left
          rw [check_error small]
          rfl

theorem Keeps.toNalu_inside_iff (keeps : Keeps avc sps pps) (out : Buffer UInt8) :
    ToNaluInside avc out sps pps ↔ ¬NaluOverruns out.size sps pps := by
  rcases keeps.toNalu_cases out with ⟨overruns, faults⟩ | ⟨calm, outcome⟩
  · exact iff_of_false (fun safe => safe.inside faults) (not_not_intro overruns)
  · refine iff_of_true ?_ calm
    rcases outcome with ⟨next, returned, -⟩ | ⟨fits, failed | ⟨next, returned, -⟩⟩
    · exact ⟨by rw [returned]; nofun, fun _ => ⟨next, returned⟩⟩
    · exact ⟨by rw [failed]; nofun, fun small => absurd fits (by omega)⟩
    · exact ⟨by rw [returned]; nofun, fun small => absurd fits (by omega)⟩

/-! ## `h264_mp4toannexb` -/

/-- The next NAL unit of the input and what stands behind it, as long as the walk takes one. -/
def nextUnit (nalu : Nat) (src : List UInt8) : Option (List UInt8 × List UInt8) :=
  let n := bigValue (src.take nalu)
  if nalu + 1 < src.length ∧ 0 < n ∧ n < 2 ^ 31 ∧ n + nalu ≤ src.length then
    some ((src.drop nalu).take n, src.drop (n + nalu))
  else none

/-- The walk takes these NAL units, and this is left. -/
inductive Cuts (nalu : Nat) : List UInt8 → List (List UInt8) → List UInt8 → Prop
  | nil (src : List UInt8) : Cuts nalu src [] src
  | cons {src unit behind rest : List UInt8} {units : List (List UInt8)}
      (next : nextUnit nalu src = some (unit, behind)) (more : Cuts nalu behind units rest) :
      Cuts nalu src (unit :: units) rest

variable {nalu : Nat} {behind : List UInt8}

theorem nextUnit_some (next : nextUnit nalu src = some (unit, behind)) :
    let n := bigValue (src.take nalu)
    nalu + 1 < src.length ∧ (0 < n ∧ n < 2 ^ 31 ∧ n + nalu ≤ src.length) ∧ unit.length = n ∧
      unit = (src.drop nalu).take n ∧ behind = src.drop (n + nalu) ∧
      behind.length < src.length := by
  unfold nextUnit at next
  dsimp only at next ⊢
  split at next
  · next taken =>
      cases next
      refine ⟨taken.1, taken.2, ?_, rfl, rfl, ?_⟩
      · rw [length_take, length_drop]
        omega
      · rw [length_drop]
        omega
  · cases next

theorem mp4Loop_turn (fuel : Nat) (state : Mp4ToAnnexb)
    (next : nextUnit avc.nalu.toNat src = some (unit, behind)) :
    mp4Loop avc (fuel + 1) src state = (insertSets avc unit state).bind fun result =>
      if ¬result.1 then .ok (0, result.2.out)
      else if result.2.dst + unit.length + 4 > result.2.out.size then .ok (0, result.2.out)
      else mp4Loop avc fuel behind { result.2 with
        dst := result.2.dst + (4 + unit.length)
        out := result.2.out.written result.2.dst (h264StartCode ++ unit) } := by
  obtain ⟨more, taken, length, rfl, rfl, -⟩ := nextUnit_some next
  rw [mp4Loop, if_pos more]
  dsimp only
  rw [check_eq taken, ok_bind]
  unfold Except.bind
  cases insertSets avc ((src.drop avc.nalu.toNat).take (bigValue (src.take avc.nalu.toNat)))
      state with
  | error fault => rfl
  | ok result =>
    rw [ok_bind]
    dsimp only
    split
    · rfl
    · rw [length]
      split
      · rfl
      · next fits =>
          rw [Buffer.store_eq (by
            rw [length_append, length]
            change _ + (4 + _) ≤ _
            omega), ok_bind]

theorem mp4Loop_stop (fuel : Nat) (state : Mp4ToAnnexb)
    (none : nextUnit avc.nalu.toNat src = none) :
    mp4Loop avc (fuel + 1) src state = .error .assertion ∨
      mp4Loop avc (fuel + 1) src state = .ok (state.dst, state.out) := by
  rw [mp4Loop]
  by_cases more : avc.nalu.toNat + 1 < src.length
  · left
    rw [if_pos more]
    dsimp only
    rw [check_error]
    · rfl
    · intro taken
      unfold nextUnit at none
      dsimp only at none
      rw [if_pos ⟨more, taken⟩] at none
      cases none
  · rw [if_neg more]
    by_cases ended : src.length = 0
    · right
      rw [check_eq ended]
      rfl
    · left
      rw [check_error ended]
      rfl

variable {state : Mp4ToAnnexb}

theorem insertSets_flagged (flagged : state.spsPpsFlag = true) :
    insertSets avc unit state = .ok (true, state) := by
  by_cases set : nalType unit = 7 ∨ nalType unit = 8
  · rw [insertSets_set set, ← flagged]
  · rw [insertSets_other set (by rw [flagged]; simp)]

theorem mp4Loop_flagged (flagged : state.spsPpsFlag = true) :
    mp4Loop avc fuel src state ≠ .error .outside := by
  induction fuel generalizing src state with
  | zero => nofun
  | succ fuel ih =>
    cases next : nextUnit avc.nalu.toNat src with
    | none =>
      rcases mp4Loop_stop fuel state next with stopped | stopped
      · rw [stopped]
        nofun
      · rw [stopped]
        nofun
    | some found =>
      rw [mp4Loop_turn fuel state next, insertSets_flagged flagged]
      dsimp only [Except.bind]
      rw [if_neg (by decide)]
      split
      · nofun
      · exact ih flagged

theorem Keeps.insertSets_cases (keeps : Keeps avc sps pps) (idr : nalType unit = 5)
    (waiting : state.spsPpsFlag = false) (inside : state.dst ≤ state.out.size) :
    (((state.dst ≠ 0 ∧ state.out.size < (codes (sps ++ pps)).length + state.dst) ∨
        NaluOverruns state.out.size sps pps) ∧
      insertSets avc unit state = .error .outside) ∨
    (¬((state.dst ≠ 0 ∧ state.out.size < (codes (sps ++ pps)).length + state.dst) ∨
        NaluOverruns state.out.size sps pps) ∧
      (insertSets avc unit state = .error .assertion ∨
        (∃ after, insertSets avc unit state = .ok (false, after)) ∨
        ∃ next, insertSets avc unit state =
            .ok (true, ⟨state.dst + (naluTexts (sps ++ pps)).length, next, true⟩) ∧
          next.size = state.out.size)) := by
  have size : h264SpsPpsSize avc = .ok (codes (sps ++ pps)).length := by
    have spsSize := setsSize_eq keeps.spsPoints (by rw [Nat.zero_add]; exact keeps.spsRoom)
    have ppsSize := setsSize_eq keeps.ppsPoints (by rw [Nat.zero_add]; exact keeps.ppsRoom)
    unfold h264SpsPpsSize
    rw [keeps.spsCount, spsSize, ok_bind, keeps.ppsCount, ppsSize, ok_bind, codes_append,
      length_append]
  unfold insertSets
  rw [if_neg (not_set_of_idr idr), if_pos ⟨idr, waiting⟩, size, ok_bind]
  by_cases tight : state.dst ≠ 0 ∧ state.out.size < (codes (sps ++ pps)).length + state.dst
  · left
    refine ⟨.inl tight, ?_⟩
    unfold makeRoom Buffer.move
    rw [if_pos tight.1, if_neg (by omega)]
    rfl
  · have moved : ∃ middle, makeRoom state (codes (sps ++ pps)).length = .ok middle ∧
        middle.size = state.out.size := by
      unfold makeRoom
      split
      · next written =>
          rw [Buffer.move_eq (by omega) (by omega)]
          exact ⟨_, rfl, rfl⟩
      · exact ⟨state.out, rfl, rfl⟩
    obtain ⟨middle, moves, same⟩ := moved
    rw [moves, ok_bind, ← same]
    rcases keeps.toNalu_cases middle with ⟨overruns, faults⟩ | ⟨calm, outcome⟩
    · left
      refine ⟨.inr overruns, ?_⟩
      rw [faults]
      rfl
    · right
      rw [same] at calm ⊢
      refine ⟨not_or.mpr ⟨tight, calm⟩, ?_⟩
      rcases outcome with ⟨next, returned, -⟩ | ⟨-, failed | ⟨next, returned, sizes⟩⟩
      · right
        left
        rw [returned]
        exact ⟨_, rfl⟩
      · left
        rw [failed]
        rfl
      · right
        rw [returned, ok_bind]
        cases length : (naluTexts (sps ++ pps)).length with
        | zero => exact .inl ⟨_, rfl⟩
        | succ i => exact .inr ⟨next, rfl, sizes.trans same⟩

/-- The first IDR picture comes before any parameter set, everything before it fits, and either
something is written already and the moved output ends behind the buffer, or the sets leave it. -/
def InsertOverruns (nalu size dst : Nat) (sps pps : List (List UInt8)) (src : List UInt8) : Prop :=
  ∃ done idr rest, Cuts nalu src (done ++ [idr]) rest ∧
    (∀ unit ∈ done, nalType unit ≠ 5 ∧ nalType unit ≠ 7 ∧ nalType unit ≠ 8) ∧ nalType idr = 5 ∧
    dst + (codes done).length ≤ size ∧
    ((dst + (codes done).length ≠ 0 ∧
        size < (codes (sps ++ pps)).length + (dst + (codes done).length)) ∨
      NaluOverruns size sps pps)

theorem insertOverruns_none (none : nextUnit nalu src = none) :
    ¬InsertOverruns nalu size dst sps pps src := by
  rintro ⟨done, idr, rest, cuts, -⟩
  cases done with
  | nil =>
    cases cuts with
    | cons next more =>
      rw [none] at next
      cases next
  | cons first done =>
    cases cuts with
    | cons next more =>
      rw [none] at next
      cases next

theorem insertOverruns_step (next : nextUnit nalu src = some (unit, behind)) :
    InsertOverruns nalu size dst sps pps src ↔
      (nalType unit = 5 ∧ dst ≤ size ∧
        ((dst ≠ 0 ∧ size < (codes (sps ++ pps)).length + dst) ∨ NaluOverruns size sps pps)) ∨
      ((nalType unit ≠ 5 ∧ nalType unit ≠ 7 ∧ nalType unit ≠ 8) ∧
        InsertOverruns nalu size (dst + (4 + unit.length)) sps pps behind) := by
  have none : (codes []).length = 0 := rfl
  constructor
  · rintro ⟨done, idr, rest, cuts, others, here, fits, leaves⟩
    cases done with
    | nil =>
      rw [none, Nat.add_zero] at fits leaves
      cases cuts with
      | cons found more =>
        rw [next] at found
        cases found
        exact .inl ⟨here, fits, leaves⟩
    | cons first done =>
      cases cuts with
      | cons found more =>
        rw [next] at found
        cases found
        have length : dst + (codes (unit :: done)).length =
            dst + (4 + unit.length) + (codes done).length := by
          rw [codes_cons_length]
          omega
        rw [length] at fits leaves
        exact .inr ⟨others _ mem_cons_self, done, idr, rest, more,
          (forall_mem_cons.mp others).2, here, fits, leaves⟩
  · rintro (⟨idr, fits, leaves⟩ | ⟨other, done, idr, rest, more, others, here, fits, leaves⟩)
    · exact ⟨[], unit, behind, .cons next (.nil behind), by simp, idr, fits, leaves⟩
    · have length : dst + (codes (unit :: done)).length =
          dst + (4 + unit.length) + (codes done).length := by
        rw [codes_cons_length]
        omega
      refine ⟨unit :: done, idr, rest, .cons next more, ?_, here, ?_, ?_⟩
      · intro unit' listed
        rcases mem_cons.mp listed with rfl | listed
        · exact other
        · exact others unit' listed
      · rw [length]
        exact fits
      · rw [length]
        exact leaves

theorem Keeps.mp4Loop_outside_iff (keeps : Keeps avc sps pps) (waiting : state.spsPpsFlag = false)
    (inside : state.dst ≤ state.out.size) (enough : src.length < fuel) :
    mp4Loop avc fuel src state = .error .outside ↔
      InsertOverruns avc.nalu.toNat state.out.size state.dst sps pps src := by
  induction fuel generalizing src state with
  | zero => omega
  | succ fuel ih =>
    cases next : nextUnit avc.nalu.toNat src with
    | none =>
      refine iff_of_false ?_ (insertOverruns_none next)
      rcases mp4Loop_stop fuel state next with stopped | stopped
      · rw [stopped]
        nofun
      · rw [stopped]
        nofun
    | some found =>
      obtain ⟨unit, behind⟩ := found
      obtain ⟨-, -, -, -, -, shorter⟩ := nextUnit_some next
      rw [mp4Loop_turn fuel state next, insertOverruns_step next]
      by_cases idr : nalType unit = 5
      · rcases keeps.insertSets_cases idr waiting inside with ⟨leaves, faults⟩ |
          ⟨calm, outcome⟩
        · rw [faults]
          exact iff_of_true rfl (.inl ⟨idr, inside, leaves⟩)
        · refine iff_of_false ?_ ?_
          · rcases outcome with failed | ⟨after, stopped⟩ | ⟨out, went, -⟩
            · rw [failed]
              nofun
            · rw [stopped]
              nofun
            · rw [went]
              dsimp only [Except.bind]
              rw [if_neg (by decide)]
              split
              · nofun
              · exact mp4Loop_flagged rfl
          · rintro (⟨-, -, leaves⟩ | ⟨other, -⟩)
            · exact calm leaves
            · exact other.1 idr
      · by_cases set : nalType unit = 7 ∨ nalType unit = 8
        · refine iff_of_false ?_ ?_
          · rw [insertSets_set set]
            dsimp only [Except.bind]
            rw [if_neg (by decide)]
            split
            · nofun
            · exact mp4Loop_flagged rfl
          · rintro (⟨five, -⟩ | ⟨other, -⟩)
            · exact idr five
            · rcases set with seven | eight
              · exact other.2.1 seven
              · exact other.2.2 eight
        · rw [insertSets_other set (fun both => idr both.1)]
          dsimp only [Except.bind]
          rw [if_neg (by decide)]
          split
          · next full =>
              refine iff_of_false nofun ?_
              rintro (⟨five, -⟩ | ⟨-, done, idr', rest, -, -, -, fits, -⟩)
              · exact idr five
              · omega
          · next room =>
              let moved : Mp4ToAnnexb := { state with
                dst := state.dst + (4 + unit.length)
                out := state.out.written state.dst (h264StartCode ++ unit) }
              have waits : moved.spsPpsFlag = false := waiting
              rw [ih waits (by dsimp only [moved, Buffer.written_size]; omega) (by omega)]
              constructor
              · exact fun later => .inr ⟨⟨idr, fun seven => set (.inl seven),
                  fun eight => set (.inr eight)⟩, later⟩
              · rintro (⟨five, -⟩ | ⟨-, later⟩)
                · exact absurd five idr
                · exact later

/-! ## What is returned -/

/-- How long the output of these NAL units is, with the sets in front if the first IDR picture
comes before any parameter set. -/
def annexbLength (flag : Bool) (sps pps units : List (List UInt8)) : Nat :=
  (codes units).length +
    if flag = false ∧ idrFirst units = true then (naluTexts (sps ++ pps)).length else 0

theorem mp4Loop_end {n : Nat} {next : Buffer UInt8}
    (returned : mp4Loop avc fuel [] state = .ok (n, next)) : n = state.dst := by
  cases fuel with
  | zero => cases returned
  | succ fuel =>
    have none : nextUnit avc.nalu.toNat [] = none := by
      unfold nextUnit
      exact if_neg (by simp)
    rcases mp4Loop_stop fuel state none with stopped | stopped
    · rw [stopped] at returned
      cases returned
    · rw [stopped] at returned
      cases returned
      rfl

theorem Keeps.mp4Loop_returns (keeps : Keeps avc sps pps) {n : Nat} {next : Buffer UInt8}
    (inside : state.dst ≤ state.out.size) (cuts : Cuts avc.nalu.toNat src units [])
    (returned : mp4Loop avc fuel src state = .ok (n, next)) (some : n ≠ 0) :
    n = state.dst + annexbLength state.spsPpsFlag sps pps units ∧ n ≤ state.out.size := by
  induction units generalizing fuel src state with
  | nil =>
    cases cuts
    rw [mp4Loop_end returned]
    exact ⟨by simp [annexbLength, codes, idrFirst], inside⟩
  | cons unit units ih =>
    cases cuts with
    | @cons _ _ behind _ _ found more =>
    cases fuel with
    | zero => cases returned
    | succ fuel =>
      rw [mp4Loop_turn fuel state found] at returned
      -- behind the switch: the unit is appended, and the rest is walked over
      have appended : ∀ middle : Mp4ToAnnexb, middle.out.size = state.out.size →
          (if middle.dst + unit.length + 4 > middle.out.size then .ok (0, middle.out)
            else mp4Loop avc fuel behind { middle with
              dst := middle.dst + (4 + unit.length)
              out := middle.out.written middle.dst (h264StartCode ++ unit) }) =
              (.ok (n, next) : Except Fault (Nat × Buffer UInt8)) →
          n = middle.dst + (4 + unit.length) + annexbLength middle.spsPpsFlag sps pps units ∧
            n ≤ state.out.size := by
        intro middle same went
        split at went
        · cases went
          exact absurd rfl some
        · next room =>
            rw [← same]
            have rest := ih (by dsimp only [Buffer.written_size]; omega) more went
            exact rest
      have length := codes_cons_length unit units
      by_cases set : nalType unit = 7 ∨ nalType unit = 8
      · rw [insertSets_set set] at returned
        dsimp only [Except.bind] at returned
        rw [if_neg (by decide)] at returned
        obtain ⟨total, bound⟩ := appended { state with spsPpsFlag := true } rfl returned
        refine ⟨?_, bound⟩
        have first : idrFirst (unit :: units) = false := by
          have other : nalType unit ≠ 5 := fun five => not_set_of_idr five set
          rw [idrFirst, if_neg other, if_pos set]
        unfold annexbLength at total ⊢
        rw [first]
        simp at total ⊢
        omega
      · by_cases idr : nalType unit = 5 ∧ state.spsPpsFlag = false
        · have first : idrFirst (unit :: units) = true := if_pos idr.1
          rcases keeps.insertSets_cases idr.1 idr.2 inside with ⟨-, faults⟩ |
            ⟨-, failed | ⟨after, stopped⟩ | ⟨out, went, same⟩⟩
          · rw [faults] at returned
            cases returned
          · rw [failed] at returned
            cases returned
          · rw [stopped] at returned
            dsimp only [Except.bind] at returned
            rw [if_pos (by decide)] at returned
            cases returned
            exact absurd rfl some
          · rw [went] at returned
            dsimp only [Except.bind] at returned
            rw [if_neg (by decide)] at returned
            obtain ⟨total, bound⟩ := appended
              ⟨state.dst + (naluTexts (sps ++ pps)).length, out, true⟩ same returned
            refine ⟨?_, bound⟩
            unfold annexbLength at total ⊢
            rw [first, idr.2]
            simp at total ⊢
            omega
        · rw [insertSets_other set idr] at returned
          dsimp only [Except.bind] at returned
          rw [if_neg (by decide)] at returned
          obtain ⟨total, bound⟩ := appended state rfl returned
          refine ⟨?_, bound⟩
          have later : (state.spsPpsFlag = false ∧ idrFirst (unit :: units) = true) ↔
              (state.spsPpsFlag = false ∧ idrFirst units = true) := by
            refine and_congr_right fun waiting => ?_
            rw [idrFirst, if_neg (fun five => idr ⟨five, waiting⟩), if_neg set]
          unfold annexbLength at total ⊢
          rw [if_congr later rfl rfl]
          omega

/-! ## Both functions -/

/-- `h264_mp4toannexb` leaves the buffer alone behind its end, and returns `0` if the output
does not fit. -/
structure Mp4ToAnnexbInside (avc : Mpeg4Avc) (data : List UInt8) (out : Buffer UInt8)
    (sps pps : List (List UInt8)) : Prop where
  inside : h264Mp4ToAnnexb avc data out ≠ .error .outside
  short : ∀ units n next, Cuts avc.nalu.toNat data units [] →
    h264Mp4ToAnnexb avc data out = .ok (n, next) →
      out.size < annexbLength false sps pps units → n = 0

/-- Both functions stay inside their output exactly if no PPS is short of the bytes of its start
code, and the output written before the sets leaves room for them. -/
theorem mp4_to_annexb_inside_iff (keeps : Keeps avc sps pps) (src : List UInt8)
    (out : Buffer UInt8) :
    (ToNaluInside avc out sps pps ↔ ¬NaluOverruns out.size sps pps) ∧
      (Mp4ToAnnexbInside avc src out sps pps ↔
        ¬InsertOverruns avc.nalu.toNat out.size 0 sps pps src) := by
  refine ⟨keeps.toNalu_inside_iff out, ?_⟩
  have leaves : h264Mp4ToAnnexb avc src out = .error .outside ↔
      InsertOverruns avc.nalu.toNat out.size 0 sps pps src :=
    keeps.mp4Loop_outside_iff rfl (Nat.zero_le _) (Nat.lt_succ_self _)
  rw [← leaves]
  constructor
  · exact fun safe => safe.inside
  · refine fun calm => ⟨calm, fun units n next cuts returned small => ?_⟩
    by_contra some
    obtain ⟨total, bound⟩ := keeps.mp4Loop_returns (Nat.zero_le _) cuts returned some
    dsimp only at total bound
    omega

theorem Packed.keeps (packed : Packed whole avc entries) :
    Keeps avc (nalus entries .sps) (nalus entries .pps) where
  spsCount := by
    rw [nalus, length_map]
    exact packed.count .sps
  ppsCount := by
    rw [nalus, length_map]
    exact packed.count .pps
  spsRoom := by
    have held := (packed.held .sps).fits
    rw [nalus, length_map]
    rw [length_map, Nat.zero_add] at held
    exact held
  ppsRoom := by
    have held := (packed.held .pps).fits
    rw [nalus, length_map]
    rw [length_map, Nat.zero_add] at held
    exact held
  spsPoints := packed.points .sps
  ppsPoints := packed.points .pps

def shortPps : List UInt8 := [0x68, 0xce, 0x3c, 0x80]

theorem shortPps_keeps : Keeps (Avc.added .empty .pps shortPps) [] [shortPps] := by
  have adds : Adds .empty .pps shortPps := ⟨by decide, by decide, by decide, rfl⟩
  exact (empty_current.packed.added adds (by decide)).keeps

theorem shortPps_fits {size : Nat} (fits : 8 ≤ size) : ¬NaluOverruns size [] [shortPps] := by
  rintro ⟨-, before, set, after, split, -, low, high⟩
  cases before with
  | nil =>
    cases split
    change size < 0 + 4 + 4 at high
    omega
  | cons first before =>
    have tail := (List.cons.inj split).2
    simp at tail

/-- A slice and an IDR picture, before which the one set is inserted. -/
theorem mp4_to_annexb_inside_short :
    ∃ avc, Keeps avc [] [shortPps] ∧ ToNaluInside avc (.alloc 8) [] [shortPps] ∧
      Mp4ToAnnexbInside avc [0, 0, 0, 1, 0x41, 0, 0, 0, 2, 0x65, 0x88] (.alloc 20) [] [shortPps] := by
  have keeps : Keeps { Avc.added .empty .pps shortPps with nalu := 4 } [] [shortPps] :=
    { shortPps_keeps with }
  refine ⟨_, keeps, (mp4_to_annexb_inside_iff keeps [] (.alloc 8)).1.mpr (shortPps_fits (by decide)),
    (mp4_to_annexb_inside_iff keeps _ (.alloc 20)).2.mpr ?_⟩
  have first : nextUnit 4 [0, 0, 0, 1, 0x41, 0, 0, 0, 2, 0x65, 0x88] =
      some ([0x41], [0, 0, 0, 2, 0x65, 0x88]) := by decide
  have second : nextUnit 4 [0, 0, 0, 2, 0x65, 0x88] = some ([0x65, 0x88], []) := by decide
  change ¬InsertOverruns 4 20 0 _ _ _
  rw [insertOverruns_step first, insertOverruns_step second]
  rintro (⟨idr, -⟩ | ⟨-, ⟨-, -, ⟨-, tight⟩ | leaves⟩ | ⟨-, more⟩⟩)
  · exact absurd idr (by decide)
  · change 20 < 8 + 5 at tight
    omega
  · exact shortPps_fits (by decide) leaves
  · exact insertOverruns_none rfl more

/-- A PPS of four bytes and a buffer of six: eight bytes are written. -/
theorem mp4_to_annexb_overruns :
    ¬∀ avc sps pps, Keeps avc sps pps → ∀ out, ToNaluInside avc out sps pps := by
  intro safe
  have inside := (safe _ _ _ shortPps_keeps (.alloc 6)).inside
  exact inside rfl

end CLibs.Avc
