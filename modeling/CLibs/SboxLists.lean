import CLibs.CallRefinement
import CLibs.FuelledLoops

/-!
# The lists of `sbox.c`

A list is the boxes of its nodes, in their order.  The calls are made with a list and with
boxes, none of which is `NULL`, and memory is available.  What a call releases is part of its
answer.  `sequenceStep` is what the calls do with an abstract sequence; it is not part of the
source.
-/

namespace CLibs.Sbox

open List

variable {Box : Type} [DecidableEq Box]

/-! ## Calls -/

/-- `sbox_list_append`, which walks to the last node. -/
def sboxListAppend (data : Box) : List Box → List Box
  | [] => [data]
  | p :: next => p :: sboxListAppend data next

def sboxListGetFrom (idx : Nat) : List Box → (i : Nat) → Option Box
  | [], _ => none
  | data :: next, i =>
    if i ≤ idx then if i = idx then some data else sboxListGetFrom idx next (i + 1) else none

def sboxListGet (list : List Box) (idx : Nat) : Option Box := sboxListGetFrom idx list 0

/-- The loop of `sbox_list_del` over the nodes behind the first one, with the box of `q`; `p` stays
where it is. -/
def sboxListUnlink (target : Box) : (fuel : Nat) → List Box → (q : Option Box) →
    Except Fault (List Box × Option Box)
  | 0, _, _ => .error .fuel
  | _ + 1, [], q => .ok ([], q)
  | fuel + 1, data :: next, q =>
    if data = target then sboxListUnlink target fuel next (some data)
    else sboxListUnlink target fuel (data :: next) q

/-- `sbox_list_del`: the boxes that are released and the list behind it. -/
def sboxListDel (fuel : Nat) (target : Box) : List Box → Except Fault (List Box × List Box)
  | [] => .error .outside
  | data :: next =>
    if data = target then .ok ([data], next)
    else do
      let (next, q) ← sboxListUnlink target fuel next none
      .ok (q.toList, data :: next)

/-- The calls of a user of the list. -/
inductive ListCall (Box : Type)
  | append (data : Box)
  | get (idx : Nat)
  | del (target : Box)

/-- What a call returns. -/
inductive ListAnswer (Box : Type)
  | appended
  | got (box : Option Box)
  | deleted (released : List Box)

def listStep (fuel : Nat) : ListCall Box → List Box → Except Fault (ListAnswer Box × List Box)
  | .append data, list => .ok (.appended, sboxListAppend data list)
  | .get idx, list => .ok (.got (sboxListGet list idx), list)
  | .del target, list => do
      let (released, list) ← sboxListDel fuel target list
      .ok (.deleted released, list)

/-! ## Sequences -/

def sequenceStep : ListCall Box → List Box → ListAnswer Box × List Box
  | .append data, sequence => (.appended, sequence ++ [data])
  | .get idx, sequence => (.got sequence[idx]?, sequence)
  | .del target, sequence =>
    (.deleted (if target ∈ sequence then [target] else []), sequence.erase target)

omit [DecidableEq Box] in
theorem sboxListAppend_eq (data : Box) (list : List Box) : sboxListAppend data list = list ++ [data] := by
  induction list with
  | nil => rfl
  | cons p next ih => rw [sboxListAppend, ih, cons_append]

omit [DecidableEq Box] in
theorem sboxListGetFrom_eq {idx i : Nat} (list : List Box) (before : i ≤ idx) :
    sboxListGetFrom idx list i = list[idx - i]? := by
  induction list generalizing i with
  | nil => rfl
  | cons data next ih =>
    rw [sboxListGetFrom, if_pos before]
    by_cases here : i = idx
    · rw [if_pos here, here, Nat.sub_self]
      rfl
    · have place : idx - i = idx - (i + 1) + 1 := by omega
      rw [if_neg here, ih (by omega), place, List.getElem?_cons_succ]

omit [DecidableEq Box] in
theorem sboxListGet_eq (list : List Box) (idx : Nat) : sboxListGet list idx = list[idx]? :=
  sboxListGetFrom_eq list (Nat.zero_le idx)

/-! ## The loop of `sbox_list_del` -/

variable {target : Box} {list : List Box}

theorem sboxListUnlink_stuck {data : Box} (other : data ≠ target) (next : List Box) (fuel : Nat)
    (q : Option Box) : sboxListUnlink target fuel (data :: next) q = .error .fuel := by
  induction fuel with
  | zero => rfl
  | succ fuel ih => rw [sboxListUnlink, if_neg other, ih]

theorem sboxListUnlink_left {fuel : Nat} {q last : Option Box} {next : List Box}
    (returned : sboxListUnlink target fuel list q = .ok (next, last)) : next = [] := by
  induction fuel generalizing list q with
  | zero => cases returned
  | succ fuel ih =>
    cases list with
    | nil => exact (Prod.mk.inj (Except.ok.inj returned)).1.symm
    | cons data rest =>
      rw [sboxListUnlink] at returned
      by_cases same : data = target
      · rw [if_pos same] at returned
        exact ih returned
      · rw [if_neg same, sboxListUnlink_stuck same] at returned
        cases returned

/-- The target is the head, or the search for it comes to the end of the list. -/
def Fits : ListCall Box → List Box → Prop
  | .append _, _ => True
  | .get _, _ => True
  | .del target, list => list.head? = some target ∨ list.length = 1 ∨
      list.length = 2 ∧ list.getLast? = some target

theorem sboxListDel_returns_iff {data : Box} {next : List Box} (first : data ≠ target) :
    Returns (fun fuel => sboxListDel fuel target (data :: next))
      (if target ∈ data :: next then [target] else [], (data :: next).erase target) ↔
    Fits (.del target) (data :: next) := by
  constructor
  · rintro ⟨enough, returns⟩
    have deleted := returns enough (Nat.le_refl _)
    dsimp only at deleted
    rw [sboxListDel, if_neg first] at deleted
    obtain ⟨⟨left, q⟩, unlinked, same⟩ := ok_of_bind deleted
    rw [sboxListUnlink_left unlinked] at same
    have states := (Prod.mk.inj (Except.ok.inj same)).2
    rw [erase_cons_tail (by simpa using first)] at states
    have none : next.erase target = [] := (List.cons.inj states).2.symm
    cases next with
    | nil => exact .inr (.inl rfl)
    | cons second rest =>
      by_cases found : second = target
      · rw [found, erase_cons_head] at none
        rw [found, none]
        exact .inr (.inr ⟨rfl, rfl⟩)
      · rw [erase_cons_tail (by simpa using found)] at none
        cases none
  · intro fits
    rcases fits with head | one | ⟨two, last⟩
    · exact absurd (Option.some.inj head) first
    · obtain rfl : next = [] := eq_nil_of_length_eq_zero (Nat.succ.inj one)
      refine ⟨1, fun fuel sufficient => ?_⟩
      obtain ⟨less, rfl⟩ : ∃ less, fuel = less + 1 := ⟨fuel - 1, by omega⟩
      dsimp only
      rw [sboxListDel, if_neg first, if_neg (by simpa using Ne.symm first),
        erase_of_not_mem (by simpa using Ne.symm first)]
      rfl
    · match next, two with
      | [second], _ =>
        obtain rfl : second = target := Option.some.inj last
        refine ⟨2, fun fuel sufficient => ?_⟩
        obtain ⟨less, rfl⟩ : ∃ less, fuel = less + 2 := ⟨fuel - 2, by omega⟩
        dsimp only
        rw [sboxListDel, if_neg first, sboxListUnlink, if_pos rfl, if_pos (by simp),
          erase_cons_tail (by simpa using first), erase_cons_head]
        rfl

theorem listStep_returns_iff (call : ListCall Box) (list : List Box) :
    Returns (fun fuel => listStep fuel call list) (sequenceStep call list) ↔ Fits call list := by
  cases call with
  | append data =>
    rw [sequenceStep, ← sboxListAppend_eq]
    exact iff_of_true (.pure _) trivial
  | get idx =>
    rw [sequenceStep, ← sboxListGet_eq]
    exact iff_of_true (.pure _) trivial
  | del target =>
    cases list with
    | nil =>
      apply iff_of_false
      · rintro ⟨enough, returns⟩
        exact absurd (returns enough (Nat.le_refl _)) nofun
      · simp [Fits]
    | cons data next =>
      by_cases first : data = target
      · apply iff_of_true
        · refine ⟨0, fun fuel _ => ?_⟩
          dsimp only
          rw [listStep, sboxListDel, if_pos first, sequenceStep, if_pos (by simp [first]), first,
            erase_cons_head]
          rfl
        · exact .inl (congrArg some first)
      · rw [← sboxListDel_returns_iff first]
        constructor
        · rintro ⟨enough, returns⟩
          refine ⟨enough, fun fuel sufficient => ?_⟩
          obtain ⟨⟨released, left⟩, deleted, same⟩ := ok_of_bind (returns fuel sufficient)
          obtain ⟨answer, rfl⟩ := Prod.mk.inj (Except.ok.inj same)
          dsimp only
          rw [deleted, ListAnswer.deleted.inj answer]
        · rintro ⟨enough, returns⟩
          refine ⟨enough, fun fuel sufficient => ?_⟩
          have deleted := returns fuel sufficient
          dsimp only at deleted ⊢
          rw [listStep, deleted]
          rfl

/-! ## Runs -/

/-- Every call fits the list that it finds. -/
def AllFit : List (ListCall Box) → List Box → Prop
  | [], _ => True
  | call :: calls, list => Fits call list ∧ AllFit calls (sequenceStep call list).2

theorem runCalls_cons (call : ListCall Box) (calls : List (ListCall Box)) (list : List Box)
    (fits : Fits call list) :
    Returns (fun fuel => runCalls (listStep fuel) (call :: calls) list)
      (modelCalls sequenceStep (call :: calls) list) ↔
    Returns (fun fuel => runCalls (listStep fuel) calls (sequenceStep call list).2)
      (modelCalls sequenceStep calls (sequenceStep call list).2) := by
  have step := (listStep_returns_iff call list).mpr fits
  rw [modelCalls]
  generalize sequenceStep call list = stepped at step
  obtain ⟨answer, next⟩ := stepped
  obtain ⟨enough, step⟩ := step
  dsimp only at step ⊢
  constructor
  · rintro ⟨more, returns⟩
    refine ⟨max enough more, fun fuel sufficient => ?_⟩
    have whole := returns fuel (by omega)
    dsimp only at whole ⊢
    rw [runCalls, step fuel (by omega), ok_bind] at whole
    obtain ⟨⟨answers, last⟩, rest, same⟩ := ok_of_bind whole
    obtain ⟨heads, lasts⟩ := Prod.mk.inj (Except.ok.inj same)
    rw [rest, (List.cons.inj heads).2, lasts]
  · rintro ⟨more, returns⟩
    refine ⟨max enough more, fun fuel sufficient => ?_⟩
    have rest := returns fuel (by omega)
    dsimp only at rest ⊢
    rw [runCalls, step fuel (by omega), ok_bind]
    dsimp only
    rw [rest, ok_bind]
    rfl

/-- After every call of a run the list is the sequence, and the answers are those of the sequence, if
and only if all calls fit. -/
theorem sboxList_refines_iff (calls : List (ListCall Box)) (list : List Box) :
    (∀ n, Returns (fun fuel => runCalls (listStep fuel) (calls.take n) list)
      (modelCalls sequenceStep (calls.take n) list)) ↔ AllFit calls list := by
  induction calls generalizing list with
  | nil =>
    refine iff_of_true (fun n => ?_) trivial
    rw [take_nil]
    exact .pure _
  | cons call calls ih =>
    constructor
    · intro refines
      have fits : Fits call list := by
        rw [← listStep_returns_iff]
        obtain ⟨enough, returns⟩ := refines 1
        refine ⟨enough, fun fuel sufficient => ?_⟩
        obtain ⟨⟨answer, next⟩, stepped, rest⟩ := ok_of_bind (returns fuel sufficient)
        obtain ⟨heads, states⟩ := Prod.mk.inj (Except.ok.inj rest)
        have answers : answer = (sequenceStep call list).1 := (List.cons.inj heads).1
        dsimp only
        rw [stepped, answers]
        exact congrArg (fun last => Except.ok ((sequenceStep call list).1, last)) states
      refine ⟨fits, (ih _).mp fun n => ?_⟩
      exact (runCalls_cons call _ list fits).mp (refines (n + 1))
    · rintro ⟨fits, rest⟩ n
      cases n with
      | zero => exact .pure _
      | succ n => exact (runCalls_cons call _ list fits).mpr ((ih _).mpr rest n)

/-- In a list of two boxes the loop never gets past the second one. -/
theorem sboxList_hangs : ¬∀ calls : List (ListCall Nat), ∀ n,
    Returns (fun fuel => runCalls (listStep fuel) (calls.take n) [])
      (modelCalls sequenceStep (calls.take n) []) := by
  intro always
  obtain ⟨enough, returns⟩ := always [.append 1, .append 2, .del 3] 3
  have stuck : runCalls (listStep enough) [.append 1, .append 2, .del 3] [] = .error .fuel := by
    change (runCalls (listStep enough) [.del 3] [1, 2] >>= _) >>= _ = _
    rw [runCalls, listStep, sboxListDel, if_neg (by decide), sboxListUnlink_stuck (by decide)]
    rfl
  exact absurd (stuck.symm.trans (returns enough (Nat.le_refl _))) nofun

end CLibs.Sbox
