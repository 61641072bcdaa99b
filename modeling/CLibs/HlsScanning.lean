import CLibs.FaultingPrograms
import CLibs.HlsParser

/-!
# Scanning a playlist in place

The parser goes over its copy of the text with pointers, and its handlers cut strings by writing
NULs into it.  Here the copy is a function of the position, a pointer is a position, and the two
loops over lines and attributes take what the rest of their bodies does as a parameter.
-/

namespace CLibs.Hls

/-- The bytes of the copy. -/
abbrev TextMemory := Nat → UInt8

/-! ## Splitting -/

/-- The loop of `hls_strsplit` inside the quotes `q`, or outside of any if it is `0`, with so many
bytes left: where it stops. -/
def scanAt (memory : TextMemory) (delimiters quotes : List UInt8) :
    (left : Nat) → (q : UInt8) → (p : Nat) → Nat
  | 0, _, p => p
  | left + 1, q, p =>
    if memory p = 0 then p
    else if q ≠ 0 then scanAt memory delimiters quotes left (if q = memory p then 0 else q) (p + 1)
    else if delimiters.contains (memory p) then p
    else
      scanAt memory delimiters quotes left
        (if quotes.contains (memory p) then memory p else 0) (p + 1)

/-- The loop over the delimiters, among which `strchr` also finds a NUL. -/
def skipAt (memory : TextMemory) (delimiters : List UInt8) : (left : Nat) → (p : Nat) → Nat
  | 0, p => p
  | left + 1, p =>
    if found delimiters (memory p) then skipAt memory delimiters left (p + 1) else p

structure Split where
  n : Nat
  next : Nat

def strsplitAt (memory : TextMemory) (ptr last : Nat) (delimiters quotes : List UInt8) : Split :=
  let p := scanAt memory delimiters quotes (last - ptr) 0 ptr
  ⟨p - ptr, skipAt memory delimiters (last - p) p⟩

section

variable (memory : TextMemory) (delimiters quotes : List UInt8)

theorem scanAt_bounds (left : Nat) (q : UInt8) (p : Nat) :
    p ≤ scanAt memory delimiters quotes left q p ∧
      scanAt memory delimiters quotes left q p ≤ p + left := by
  induction left generalizing q p with
  | zero => simp [scanAt]
  | succ left later =>
    unfold scanAt
    split
    · omega
    split
    · have bounds := later (if q = memory p then 0 else q) (p + 1)
      omega
    split
    · omega
    · have bounds := later (if quotes.contains (memory p) then memory p else 0) (p + 1)
      omega

theorem scanAt_stops (left : Nat) (q : UInt8) (p : Nat)
    (early : scanAt memory delimiters quotes left q p < p + left) :
    found delimiters (memory (scanAt memory delimiters quotes left q p)) = true := by
  induction left generalizing q p with
  | zero => exact absurd early (by simp [scanAt])
  | succ left later =>
    unfold scanAt at early ⊢
    split
    · simp [found, *]
    split
    · rw [if_neg ‹_›, if_pos ‹_›] at early
      exact later _ _ (by omega)
    split
    · simp_all [found]
    · rw [if_neg ‹_›, if_neg ‹_›, if_neg ‹_›] at early
      exact later _ _ (by omega)

theorem skipAt_bounds (left p : Nat) :
    p ≤ skipAt memory delimiters left p ∧ skipAt memory delimiters left p ≤ p + left := by
  induction left generalizing p with
  | zero => simp [skipAt]
  | succ left later =>
    unfold skipAt
    have bounds := later (p + 1)
    split <;> omega

theorem strsplitAt_bounds {ptr last : Nat} (inside : ptr ≤ last) :
    ptr + (strsplitAt memory ptr last delimiters quotes).n ≤
        (strsplitAt memory ptr last delimiters quotes).next ∧
      (strsplitAt memory ptr last delimiters quotes).next ≤ last := by
  have scanned := scanAt_bounds memory delimiters quotes (last - ptr) 0 ptr
  unfold strsplitAt
  dsimp only
  generalize scanAt memory delimiters quotes (last - ptr) 0 ptr = p at scanned ⊢
  have skipped := skipAt_bounds memory delimiters (last - p) p
  omega

theorem strsplitAt_moves {ptr last : Nat} (inside : ptr < last) :
    ptr < (strsplitAt memory ptr last delimiters quotes).next := by
  have scanned := scanAt_bounds memory delimiters quotes (last - ptr) 0 ptr
  have stops := scanAt_stops memory delimiters quotes (last - ptr) 0 ptr
  unfold strsplitAt
  dsimp only
  generalize scanAt memory delimiters quotes (last - ptr) 0 ptr = p at scanned stops ⊢
  have skipped := skipAt_bounds memory delimiters (last - p) p
  by_cases still : p = ptr
  · subst still
    obtain ⟨left, some⟩ : ∃ left, last - p = left + 1 := ⟨last - p - 1, by omega⟩
    have further := skipAt_bounds memory delimiters left (p + 1)
    rw [some, skipAt, if_pos (stops (by omega))]
    omega
  · omega

end

/-! ## The loops -/

section

variable {State : Type}

/-- A loop over the pieces of a text, as long as it goes on; `body` is what is done with a piece,
and its effect on the text. -/
def scanLoop (memory : State → TextMemory) (goesOn : State → Bool) (delimiters quotes : List UInt8)
    (body : (ptr : Nat) → Split → State → Except Fault State) (last : Nat) :
    (fuel : Nat) → (ptr : Nat) → State → Except Fault State
  | 0, _, _ => .error .fuel
  | fuel + 1, ptr, state =>
    if ptr < last ∧ goesOn state = true then do
      let split := strsplitAt (memory state) ptr last delimiters quotes
      let state ← body ptr split state
      scanLoop memory goesOn delimiters quotes body last fuel split.next state
    else .ok state

def lineEnds : List UInt8 := ascii "\r\n"

def hlsParserInputLoop (memory : State → TextMemory) :
    (body : (ptr : Nat) → Split → State → Except Fault State) → (last fuel ptr : Nat) → State →
      Except Fault State :=
  scanLoop memory (fun _ => true) lineEnds []

/-- The loop of `hls_parse_attrs`, whose state comes with `r`. -/
def hlsParseAttrsLoop (memory : State → TextMemory) :
    (body : (ptr : Nat) → Split → Int × State → Except Fault (Int × State)) →
      (last fuel ptr : Nat) → Int × State → Except Fault (Int × State) :=
  scanLoop (fun state => memory state.2) (fun state => state.1 == 0) (ascii ",") (ascii "\"")

theorem scanLoop_yields {memory : State → TextMemory} {goesOn : State → Bool}
    {delimiters quotes : List UInt8} {body : Nat → Split → State → Except Fault State}
    {start last : Nat} {invariant : State → Prop}
    (step : ∀ ptr state, start ≤ ptr → ptr < last → invariant state →
      Yields (body ptr (strsplitAt (memory state) ptr last delimiters quotes) state) invariant)
    {fuel ptr : Nat} (enough : last - ptr < fuel) (reached : start ≤ ptr) {state : State}
    (holds : invariant state) :
    Yields (scanLoop memory goesOn delimiters quotes body last fuel ptr state) invariant := by
  induction fuel generalizing ptr state with
  | zero => omega
  | succ fuel later =>
    unfold scanLoop
    apply Yields.ite
    · rintro ⟨inside, _⟩
      have moves := strsplitAt_moves (memory state) delimiters quotes inside
      apply (step ptr state reached inside holds).bind
      intro next kept
      exact later (by omega) (by omega) kept
    · exact fun _ => Yields.pure holds

theorem scanLoop_returns (memory : State → TextMemory) (goesOn : State → Bool)
    (delimiters quotes : List UInt8) (body : Nat → Split → State → State) (last ptr : Nat)
    (state : State) :
    ∃ final, scanLoop memory goesOn delimiters quotes
      (fun ptr split state => .ok (body ptr split state)) last (last - ptr + 1) ptr state =
        .ok final := by
  obtain ⟨final, returned, _⟩ := @scanLoop_yields State memory goesOn delimiters quotes
    (fun ptr split state => .ok (body ptr split state)) 0 last (fun _ => True)
    (fun _ _ _ _ _ => Yields.pure trivial) _ ptr (Nat.lt_succ_self _) (Nat.zero_le _) state trivial
  exact ⟨final, returned⟩

/-- Whatever their bodies do to the text and to the rest of the state, both loops end, and each of
their turns moves on within the text. -/
theorem hls_scanning_moves_on (memory : State → TextMemory) (last : Nat)
    (line : Nat → Split → State → State) (attr : Nat → Split → Int × State → Int × State) :
    (∀ (state : State) (ptr : Nat), ptr < last →
      ptr < (strsplitAt (memory state) ptr last lineEnds []).next ∧
        (strsplitAt (memory state) ptr last lineEnds []).next ≤ last) ∧
    (∀ (state : State) (ptr : Nat), ptr < last →
      ptr < (strsplitAt (memory state) ptr last (ascii ",") (ascii "\"")).next ∧
        (strsplitAt (memory state) ptr last (ascii ",") (ascii "\"")).next ≤ last) ∧
    (∀ (ptr : Nat) (state : State), ∃ final, hlsParserInputLoop memory
      (fun ptr split state => .ok (line ptr split state)) last (last - ptr + 1) ptr state =
        .ok final) ∧
    ∀ (ptr : Nat) (state : Int × State), ∃ final, hlsParseAttrsLoop memory
      (fun ptr split state => .ok (attr ptr split state)) last (last - ptr + 1) ptr state =
        .ok final := by
  refine ⟨?_, ?_, ?_, ?_⟩
  · intro state ptr inside
    exact ⟨strsplitAt_moves _ _ _ inside, (strsplitAt_bounds _ _ _ inside.le).2⟩
  · intro state ptr inside
    exact ⟨strsplitAt_moves _ _ _ inside, (strsplitAt_bounds _ _ _ inside.le).2⟩
  · intro ptr state
    exact scanLoop_returns _ _ _ _ line last ptr state
  · intro ptr state
    exact scanLoop_returns _ _ _ _ attr last ptr state

end

end CLibs.Hls
