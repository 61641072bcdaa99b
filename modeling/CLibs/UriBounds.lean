import CLibs.UriRoundTrip

/-!
# The second pass stays inside its block

Every component is copied with a terminating zero, so a component that is skipped together with a
delimiter takes no more bytes of the block than it takes of the text.  A scheme or a userinfo whose
delimiter is missing takes one byte more, but then nothing is left and the assertion in front of the
host fails.
-/

namespace CLibs.Uris

open List

/-! ## The second pass with a byte behind the text that may be unreadable -/

/-- The loop of the fragment behind the `#`: it increments before it reads. -/
def fragmentFrom (readAfter : Except Fault UInt8) : List UInt8 → Except Fault (List UInt8)
  | [] => readAfter.map fun c => if c = 0 then [] else [c]
  | c :: rest => if c = 0 then .ok [] else (fragmentFrom readAfter rest).map (c :: ·)

def parseFragmentReading (size used : Nat) (readAfter : Except Fault UInt8) (text : List UInt8) :
    Except Fault (Option (List UInt8)) :=
  if text.head? = some number then do
    let value ← fragmentFrom readAfter (text.drop 1)
    let _ ← keep size used value
    pure (some value)
  else .ok none

/-- `uriParseItems` with an explicit read of the byte behind the text. -/
def uriParseItemsReading (items : Items) (text : List UInt8) (readAfter : Except Fault UInt8) :
    Except Fault (Option Uri) := do
  let size := text.length + 5
  let scheme ← parseScheme items size 0 text
  let userinfo ← parseUserinfo items size scheme.used scheme.rest
  match ← parseHost items size userinfo.used userinfo.rest with
  | none => pure none
  | some host =>
    match parsePort items host.rest with
    | none => pure none
    | some (port, rest) => do
        let path ← parsePath size host.used rest
        let query ← parseQuery size path.used path.rest
        let fragment ← parseFragmentReading size query.used readAfter query.rest
        pure (some ⟨scheme.value, userinfo.value, host.value, port, path.value, query.value,
          fragment⟩)

theorem fragmentFrom_ok (after : UInt8) (text : List UInt8) :
    fragmentFrom (.ok after) text = .ok ((text ++ [after]).takeWhile fun c => decide (c ≠ 0)) := by
  induction text with
  | nil => by_cases zero : after = 0 <;> simp [fragmentFrom, Except.map, zero]
  | cons c rest ih => by_cases zero : c = 0 <;> simp [fragmentFrom, ih, Except.map, zero]

theorem parseFragmentReading_ok (size used : Nat) (after : UInt8) (text : List UInt8) :
    parseFragmentReading size used (.ok after) text = parseFragment size used after text := by
  unfold parseFragmentReading parseFragment
  rw [fragmentFrom_ok]
  rfl

theorem uriParseItemsReading_ok (items : Items) (text : List UInt8) (after : UInt8) :
    uriParseItemsReading items text (.ok after) = uriParseItems items text after := by
  simp only [uriParseItemsReading, parseFragmentReading_ok]
  rfl

theorem fragmentFrom_zero {text : List UInt8} (zero : 0 ∈ text) (readAfter : Except Fault UInt8) :
    fragmentFrom readAfter text = .ok (text.takeWhile fun c => decide (c ≠ 0)) := by
  induction text with
  | nil => exact absurd zero not_mem_nil
  | cons c rest ih =>
    by_cases here : c = 0
    · simp [fragmentFrom, here]
    · have later := (mem_cons.mp zero).resolve_left fun same => here same.symm
      simp [fragmentFrom, ih later, here, Except.map]

theorem fragmentFrom_unread {text : List UInt8} (free : 0 ∉ text)
    (readAfter : Except Fault UInt8) :
    fragmentFrom readAfter text =
      readAfter.map fun c => text ++ if c = 0 then [] else [c] := by
  induction text with
  | nil => simp [fragmentFrom]
  | cons c rest ih =>
    rw [mem_cons, not_or] at free
    rw [fragmentFrom, if_neg (Ne.symm free.1), ih free.2]
    cases readAfter <;> rfl

/-! ## Where the components end -/

def behindScheme (items : Items) (text : List UInt8) : List UInt8 :=
  if items.hasScheme then (text.dropWhile fun c => decide (c ≠ colon)).drop 3 else text

def behindUserinfo (items : Items) (text : List UInt8) : List UInt8 :=
  if items.hasUserinfo then (text.dropWhile fun c => decide (c ≠ atSign)).drop 1 else text

/-- Where the assertion in front of the host stands. -/
def hostStart (items : Items) (text : List UInt8) : List UInt8 :=
  behindUserinfo items (behindScheme items text)

def behindHost (items : Items) (text : List UInt8) : Option (List UInt8) :=
  if items.hasHost then
    if text.head? = some openBracket then
      let rest := ((text.drop 1).dropWhile fun c => decide (c ≠ closeBracket)).drop 1
      if badEnd rest then none else some rest
    else some (text.dropWhile fun c => decide (c ≠ 0) && !endsHost c)
  else some text

def behindPort (items : Items) (text : List UInt8) : Option (List UInt8) :=
  if items.hasPort then
    let rest := (text.drop 1).dropWhile isDigit
    if badEnd rest then none else some rest
  else some text

def behindPath (text : List UInt8) : List UInt8 :=
  if text.head? = some slash then
    text.dropWhile fun c => decide (c ≠ 0 ∧ c ≠ question ∧ c ≠ number)
  else text

def behindQuery (text : List UInt8) : List UInt8 :=
  if text.head? = some question then
    (text.drop 1).dropWhile fun c => decide (c ≠ 0 ∧ c ≠ number)
  else text

/-- Where the test for a fragment stands, if the second pass comes to it. -/
def fragmentStart (items : Items) (text : List UInt8) : Option (List UInt8) :=
  (behindHost items (hostStart items text)).bind fun rest =>
    (behindPort items rest).map fun rest => behindQuery (behindPath rest)

/-! ## Room for each component -/

section Room

variable {items : Items} {size used : Nat} {text : List UInt8}

/-- A component that is skipped with its delimiter; without one, nothing is left. -/
def Passes (used : Nat) (text : List UInt8) (taken : Nat) (rest : List UInt8) : Prop :=
  taken + rest.length ≤ used + text.length ∨ rest = [] ∧ taken ≤ used + text.length + 1

theorem drop_takeWhile (inside : UInt8 → Bool) (text : List UInt8) :
    text.drop (text.takeWhile inside).length = text.dropWhile inside := by
  induction text with
  | nil => rfl
  | cons c rest ih => cases stays : inside c <;> simp [stays, ih]

theorem length_takeWhile (inside : UInt8 → Bool) (text : List UInt8) :
    (text.takeWhile inside).length + (text.dropWhile inside).length = text.length := by
  rw [← length_append, takeWhile_append_dropWhile]

theorem length_takeWhile_drop (inside : UInt8 → Bool) (text : List UInt8) (count : Nat) :
    ((text.drop count).takeWhile inside).length + ((text.drop count).dropWhile inside).length =
      text.length - count := by
  rw [length_takeWhile, length_drop]

theorem parseUpTo_passes {delimiter : UInt8} {skip : Nat} (fits : used + text.length + 1 ≤ size) :
    ∃ value taken, parseUpTo delimiter (skip + 1) size used text =
        .ok ⟨value, (text.dropWhile fun c => decide (c ≠ delimiter)).drop (skip + 1), taken⟩ ∧
      Passes used text taken ((text.dropWhile fun c => decide (c ≠ delimiter)).drop (skip + 1)) := by
  have both := length_takeWhile (fun c => decide (c ≠ delimiter)) text
  refine ⟨some (text.takeWhile fun c => decide (c ≠ delimiter)),
    used + ((text.takeWhile fun c => decide (c ≠ delimiter)).length + 1), ?_, ?_⟩
  · unfold parseUpTo
    simp only [drop_takeWhile]
    rw [keep_eq (by omega)]
    rfl
  · cases left : text.dropWhile fun c => decide (c ≠ delimiter) with
    | nil => 
        refine .inr ⟨rfl, ?_⟩
        omega
    | cons c rest =>
      rw [left] at both
      refine .inl ?_
      simp only [drop_succ_cons, length_drop, length_cons] at both ⊢
      omega

theorem parseScheme_passes (fits : used + text.length + 1 ≤ size) :
    ∃ value taken, parseScheme items size used text =
        .ok ⟨value, behindScheme items text, taken⟩ ∧
      Passes used text taken (behindScheme items text) := by
  unfold parseScheme behindScheme
  split
  · exact parseUpTo_passes fits
  · exact ⟨none, used, rfl, .inl (Nat.le_refl _)⟩

theorem parseUserinfo_passes (fits : used + text.length + 1 ≤ size) :
    ∃ value taken, parseUserinfo items size used text =
        .ok ⟨value, behindUserinfo items text, taken⟩ ∧
      Passes used text taken (behindUserinfo items text) := by
  unfold parseUserinfo behindUserinfo
  split
  · exact parseUpTo_passes fits
  · exact ⟨none, used, rfl, .inl (Nat.le_refl _)⟩

theorem parseHost_none (missing : items.hasHost = false) :
    parseHost items size used text = .ok (some ⟨none, text, used⟩) := by
  simp [parseHost, missing]

theorem parseHost_asserts (host : items.hasHost = true) :
    parseHost items size used [] = .error .assertion := by
  simp [parseHost, host]

theorem parseHost_passes (host : items.hasHost = true) (nonempty : text ≠ [])
    (fits : used + text.length + 1 ≤ size) :
    behindHost items text = none ∧ parseHost items size used text = .ok none ∨
      ∃ value rest taken, behindHost items text = some rest ∧
        parseHost items size used text = .ok (some ⟨value, rest, taken⟩) ∧
        taken + rest.length ≤ used + text.length + 1 := by
  cases text with
  | nil => exact absurd rfl nonempty
  | cons c behind =>
    by_cases bracket : c = openBracket
    · subst bracket
      have both := length_takeWhile (fun c => decide (c ≠ closeBracket)) behind
      rw [length_cons] at fits
      simp only [behindHost, parseHost, host, if_true, List.head?_cons, drop_takeWhile,
        drop_one, tail_cons]
      rw [keep_eq (by omega), ok_bind]
      split
      · exact .inl ⟨rfl, rfl⟩
      · refine .inr ⟨_, _, _, rfl, rfl, ?_⟩
        rw [length_tail, length_cons]
        omega
    · have both := length_takeWhile (fun c => decide (c ≠ 0) && !endsHost c) (c :: behind)
      have other : ¬(some c = some openBracket) := fun same => bracket (Option.some.inj same)
      refine .inr ⟨some ((c :: behind).takeWhile fun c => decide (c ≠ 0) && !endsHost c),
        (c :: behind).dropWhile fun c => decide (c ≠ 0) && !endsHost c,
        used + (((c :: behind).takeWhile fun c => decide (c ≠ 0) && !endsHost c).length + 1),
        ?_, ?_, by omega⟩
      · simp only [behindHost, host, if_true]
        exact if_neg other
      · simp only [parseHost, host, if_true, drop_takeWhile]
        rw [if_neg bracket, keep_eq (by omega)]
        rfl

theorem parsePort_eq (items : Items) (text : List UInt8) :
    behindPort items text = none ∧ parsePort items text = none ∨
      ∃ value rest, behindPort items text = some rest ∧ parsePort items text = some (value, rest) ∧
        rest.length ≤ text.length := by
  have both := length_takeWhile_drop isDigit text 1
  unfold behindPort parsePort
  split
  · simp only [drop_takeWhile]
    split
    · exact .inl ⟨rfl, rfl⟩
    · exact .inr ⟨_, _, rfl, rfl, by omega⟩
  · exact .inr ⟨_, _, rfl, rfl, Nat.le_refl _⟩

theorem parsePath_passes (fits : used + text.length + 2 ≤ size) :
    ∃ value taken, parsePath size used text = .ok ⟨value, behindPath text, taken⟩ ∧
      taken + (behindPath text).length ≤ used + text.length + 2 := by
  have both := length_takeWhile (fun c => decide (c ≠ 0 ∧ c ≠ question ∧ c ≠ number)) text
  unfold parsePath behindPath
  split
  · simp only [drop_takeWhile]
    rw [keep_eq (by omega)]
    exact ⟨_, _, rfl, by omega⟩
  · rw [keep_eq (by rw [length_singleton]; omega)]
    exact ⟨_, _, rfl, by rw [length_singleton]; omega⟩

theorem parseQuery_passes (fits : used + text.length ≤ size) :
    ∃ value taken, parseQuery size used text = .ok ⟨value, behindQuery text, taken⟩ ∧
      taken + (behindQuery text).length ≤ used + text.length := by
  have both := length_takeWhile_drop (fun c => decide (c ≠ 0 ∧ c ≠ number)) text 1
  unfold parseQuery behindQuery
  split
  · next starts =>
      have positive : 0 < text.length := by
        cases text with
        | nil => cases starts
        | cons c rest => exact Nat.succ_pos _
      simp only [drop_takeWhile]
      rw [keep_eq (by omega)]
      exact ⟨_, _, rfl, by omega⟩
  · exact ⟨_, _, rfl, Nat.le_refl _⟩

end Room

/-! ## The second pass as a whole -/

section Pass

variable {items : Items} {text : List UInt8}

theorem hostStart_passes (items : Items) (text : List UInt8) :
    ∃ scheme userinfo first taken,
      parseScheme items (text.length + 5) 0 text =
        .ok ⟨scheme, behindScheme items text, first⟩ ∧
      parseUserinfo items (text.length + 5) first (behindScheme items text) =
        .ok ⟨userinfo, hostStart items text, taken⟩ ∧
      (taken + (hostStart items text).length ≤ text.length ∨
        hostStart items text = [] ∧ taken ≤ text.length + 2) := by
  obtain ⟨scheme, first, schemed, before⟩ :=
    @parseScheme_passes items (text.length + 5) 0 text (by omega)
  have room : first + (behindScheme items text).length ≤ text.length + 1 := by
    rcases before with less | ⟨none, less⟩
    · omega
    · rw [none, length_nil]
      omega
  obtain ⟨userinfo, taken, informed, behind⟩ :=
    @parseUserinfo_passes items (text.length + 5) first (behindScheme items text) (by omega)
  refine ⟨scheme, userinfo, first, taken, schemed, informed, ?_⟩
  rcases behind with less | ⟨none, less⟩
  · rcases before with shorter | ⟨none, shorter⟩
    · exact .inl (by unfold hostStart; omega)
    · have nothing : hostStart items text = [] := by
        unfold hostStart behindUserinfo
        rw [none]
        split <;> rfl
      rw [none, length_nil] at less
      exact .inr ⟨nothing, by omega⟩
  · exact .inr ⟨none, by omega⟩

theorem uriParseItems_asserts (host : items.hasHost = true) (nothing : hostStart items text = [])
    (readAfter : Except Fault UInt8) :
    uriParseItemsReading items text readAfter = .error .assertion := by
  obtain ⟨scheme, userinfo, first, taken, schemed, informed, -⟩ := hostStart_passes items text
  unfold uriParseItemsReading
  simp only [schemed, ok_bind, informed, nothing, parseHost_asserts host]
  rfl

theorem uriParseItems_cases (something : ¬(items.hasHost = true ∧ hostStart items text = [])) :
    fragmentStart items text = none ∧
        (∀ readAfter, uriParseItemsReading items text readAfter = .ok none) ∨
      ∃ (rest : List UInt8) (uri : Option (List UInt8) → Uri) (used : Nat),
        fragmentStart items text = some rest ∧ used + rest.length + 1 ≤ text.length + 5 ∧
        (∀ fragment, (uri fragment).fragment = fragment) ∧
        ∀ readAfter, uriParseItemsReading items text readAfter =
          (parseFragmentReading (text.length + 5) used readAfter rest).map fun fragment =>
            some (uri fragment) := by
  obtain ⟨scheme, userinfo, first, taken, schemed, informed, room⟩ := hostStart_passes items text
  have hosted : behindHost items (hostStart items text) = none ∧
        parseHost items (text.length + 5) taken (hostStart items text) = .ok none ∨
      ∃ value rest used, behindHost items (hostStart items text) = some rest ∧
        parseHost items (text.length + 5) taken (hostStart items text) =
          .ok (some ⟨value, rest, used⟩) ∧ used + rest.length ≤ text.length + 2 := by
    cases host : items.hasHost with
    | false =>
      refine .inr ⟨none, hostStart items text, taken, by simp [behindHost, host],
        parseHost_none host, ?_⟩
      rcases room with less | ⟨none, less⟩
      · omega
      · rw [none, length_nil]
        omega
    | true =>
      have nonempty : hostStart items text ≠ [] := fun none => something ⟨host, none⟩
      have fits := room.resolve_right fun none => nonempty none.1
      refine (@parseHost_passes items (text.length + 5) taken (hostStart items text) host nonempty
        (by omega)).imp id ?_
      rintro ⟨value, rest, used, found, parsed, less⟩
      exact ⟨value, rest, used, found, parsed, by omega⟩
  unfold fragmentStart uriParseItemsReading
  simp only [schemed, ok_bind, informed]
  rcases hosted with ⟨refused, parsed⟩ | ⟨host, rest, used, found, parsed, less⟩
  · simp only [refused, parsed]
    exact .inl ⟨rfl, fun _ => rfl⟩
  simp only [found, parsed, ok_bind, Option.bind_some]
  rcases parsePort_eq items rest with ⟨refused, ported⟩ | ⟨port, rest, found, ported, shorter⟩
  · simp only [refused, ported]
    exact .inl ⟨rfl, fun _ => rfl⟩
  obtain ⟨path, pathed, way, fits⟩ :=
    @parsePath_passes (text.length + 5) used rest (by omega)
  obtain ⟨query, queried, asked, short⟩ :=
    @parseQuery_passes (text.length + 5) pathed (behindPath rest) (by omega)
  simp only [found, ported, way, asked, ok_bind, Option.map_some]
  refine .inr ⟨_, fun fragment => ⟨scheme, userinfo, host, port, path, query, fragment⟩, queried,
    rfl, by omega, fun _ => rfl, fun readAfter => ?_⟩
  cases parseFragmentReading (text.length + 5) queried readAfter (behindQuery (behindPath rest)) <;>
    rfl

theorem parseFragment_fits {size used : Nat} {rest : List UInt8}
    (fits : used + rest.length + 1 ≤ size) (after : UInt8) :
    ∃ value, parseFragment size used after rest = .ok value := by
  unfold parseFragment
  split
  · have short := length_takeWhile (fun c => decide (c ≠ 0)) (rest.drop 1 ++ [after])
    next starts =>
      have positive : 0 < rest.length := by
        cases rest with
        | nil => cases starts
        | cons c rest => exact Nat.succ_pos _
      rw [length_append, length_singleton, length_drop] at short
      simp only
      rw [keep_eq (by omega)]
      exact ⟨_, rfl⟩
  · exact ⟨none, rfl⟩

/-- The parser returns unless the host is empty. -/
theorem uriParseItems_returns (items : Items) (text : List UInt8) (after : UInt8) :
    uriParseItems items text after = .error .assertion ∧ items.hasHost = true ∧
        hostStart items text = [] ∨
      (∃ result, uriParseItems items text after = .ok result) ∧
        ¬(items.hasHost = true ∧ hostStart items text = []) := by
  by_cases something : items.hasHost = true ∧ hostStart items text = []
  · refine .inl ⟨?_, something⟩
    rw [← uriParseItemsReading_ok]
    exact uriParseItems_asserts something.1 something.2 _
  · refine .inr ⟨?_, something⟩
    rw [← uriParseItemsReading_ok]
    rcases uriParseItems_cases something with ⟨-, refused⟩ | ⟨rest, uri, used, -, fits, -, parsed⟩
    · exact ⟨none, refused _⟩
    · obtain ⟨value, fragment⟩ := parseFragment_fits fits after
      rw [parsed, parseFragmentReading_ok, fragment]
      exact ⟨_, rfl⟩

end Pass

end CLibs.Uris
