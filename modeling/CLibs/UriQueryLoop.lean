import CLibs.UriQuery

/-!
# The items that the query loop makes

The loop reads one part of the query after the other and makes exactly the items of `scan`, as long
as their number does not overflow the capacity.
-/

namespace CLibs.Uris

open List

/-! ## The loop makes these items -/

def LoopEnds (done : List QueryItem) (made : List QueryItem × Bool)
    (outcome : Except Fault QueryEnd) : Prop :=
  (done.length + made.1.length ≤ itemLimit →
    if made.2 then outcome = .ok (.returns (-1) none)
    else ∃ store, outcome = .ok (.breaks store) ∧ Stored store (done ++ made.1)) ∧
  (itemLimit < done.length + made.1.length → outcome = .error .assertion)

section Loop

variable {available : Nat → Bool} {text : List UInt8} {finish p q fuel : Nat} {store : QueryStore}
  {done : List QueryItem}

theorem LoopEnds.breaks (stored : Stored store done) (within : done.length ≤ itemLimit) :
    LoopEnds done ([], false) (.ok (.breaks store)) :=
  ⟨fun _ => ⟨store, rfl, by rwa [append_nil]⟩, fun past => absurd past (Nat.not_lt.mpr within)⟩

theorem LoopEnds.returns (within : done.length ≤ itemLimit) :
    LoopEnds done ([], true) (.ok (.returns (-1) none)) :=
  ⟨fun _ => rfl, fun past => absurd past (Nat.not_lt.mpr within)⟩

theorem uriQueryLoop_over (past : finish ≤ p) :
    uriQueryLoop available text finish fuel p q store = .ok (.breaks store) := by
  cases fuel with
  | zero => exact if_neg (Nat.not_lt.mpr past)
  | succ fuel => exact if_neg (Nat.not_lt.mpr past)

theorem LoopEnds.item {item : QueryItem} {made : List QueryItem} {early : Bool} {next : Nat}
    (memory : ∀ size, available size = true) (stored : Stored store done)
    (within : done.length ≤ itemLimit)
    (rest : ∀ store', Stored store' (done ++ [item]) → (done ++ [item]).length ≤ itemLimit →
      LoopEnds (done ++ [item]) (made, early)
        (uriQueryLoop available text finish fuel next (next + 1) store')) :
    LoopEnds done (item :: made, early)
      (do match ← nextItem available store item with
          | none => .ok (.returns (-enomem) store.items)
          | some store => uriQueryLoop available text finish fuel next (next + 1) store) := by
  have length : (item :: made).length = made.length + 1 := rfl
  rcases Nat.lt_or_eq_of_le within with fewer | full
  · obtain ⟨store', kept, stored'⟩ := @nextItem_stored available store done item memory stored fewer
    have short : (done ++ [item]).length ≤ itemLimit := by
      rw [length_append, length_singleton]
      exact fewer
    have ends := rest store' stored' short
    rw [kept, ok_bind]
    unfold LoopEnds at ends ⊢
    rw [length_append, length_singleton, append_assoc, singleton_append] at ends
    simp only [length]
    rwa [show done.length + (made.length + 1) = done.length + 1 + made.length by omega]
  · refine ⟨fun less => ?_, fun _ => ?_⟩
    · simp only [length] at less
      omega
    · rw [nextItem_overflows stored full]
      rfl

theorem uriQueryLoop_item {separator : Nat} (inside : p < finish)
    (search : strpbrk text [ampersand, equals] q = some separator) (before : separator ≤ finish)
    (named : separator ≠ q) :
    uriQueryLoop available text finish (fuel + 1) p q store =
      (do match ← nextItem available store (queryItem text finish q separator).1 with
          | none => .ok (.returns (-enomem) store.items)
          | some store =>
            uriQueryLoop available text finish fuel (queryItem text finish q separator).2
              ((queryItem text finish q separator).2 + 1) store) := by
  rw [uriQueryLoop, if_pos inside]
  simp only [search]
  exact (if_neg (Nat.not_lt.mpr before)).trans (if_neg named)

theorem uriQueryLoop_end (inside : p < finish)
    (search : strpbrk text [ampersand, equals] q = none ∨
      ∃ found, strpbrk text [ampersand, equals] q = some found ∧ finish < found) :
    uriQueryLoop available text finish (fuel + 1) p q store = .ok (.breaks store) := by
  rw [uriQueryLoop, if_pos inside]
  rcases search with none | ⟨found, some, behind⟩
  · simp only [none]
  · simp only [some]
    exact if_pos behind

theorem strpbrk_here {c : UInt8} (here : (text.drop q).head? = some c)
    (accepted : c ∈ [ampersand, equals]) :
    strpbrk text [ampersand, equals] q = some q ∧ text[q]? = some c := by
  obtain ⟨rest, split⟩ : ∃ rest, text.drop q = [] ++ c :: rest := by
    cases left : text.drop q with
    | nil => simp [left] at here
    | cons first rest =>
      rw [left] at here
      exact ⟨rest, by rw [Option.some.inj here]; rfl⟩
  exact ⟨strpbrk_eq split (fun _ => nofun) accepted, getElem?_of_drop split⟩

theorem uriQueryLoop_skip (inside : p < finish) (within : q ≤ finish)
    (here : (text.drop q).head? = some ampersand) :
    uriQueryLoop available text finish (fuel + 1) p q store =
      uriQueryLoop available text finish fuel q (q + 1) store := by
  obtain ⟨search, head⟩ := strpbrk_here here mem_cons_self
  rw [uriQueryLoop, if_pos inside]
  simp only [search]
  rw [if_neg (Nat.not_lt.mpr within), if_pos trivial, if_pos head]

theorem uriQueryLoop_nameless (inside : p < finish) (within : q ≤ finish)
    (here : (text.drop q).head? = some equals) :
    uriQueryLoop available text finish (fuel + 1) p q store = .ok (.returns (-1) none) := by
  obtain ⟨search, head⟩ := strpbrk_here here (by simp)
  rw [uriQueryLoop, if_pos inside]
  simp only [search]
  rw [if_neg (Nat.not_lt.mpr within), if_pos trivial, if_neg (by rw [head]; decide)]

theorem name_free {name : List UInt8} (noEquals : equals ∉ name) (noAmpersand : ampersand ∉ name) :
    ∀ x ∈ name, x ∉ [ampersand, equals] := by
  intro x inside accepted
  simp only [mem_cons, not_mem_nil, or_false] at accepted
  rcases accepted with rfl | rfl
  · exact noAmpersand inside
  · exact noEquals inside

/-- A name with a delimiter behind it makes an item. -/
theorem uriQueryLoop_named {name rest : List UInt8} {c : UInt8} (inside : p < finish)
    (whole : text.drop q = name ++ c :: rest) (accepted : c ∈ [ampersand, equals])
    (within : q + name.length ≤ finish) (nonempty : name ≠ []) (noEquals : equals ∉ name)
    (noAmpersand : ampersand ∉ name) :
    uriQueryLoop available text finish (fuel + 1) p q store =
      (do match ← nextItem available store (queryItem text finish q (q + name.length)).1 with
          | none => .ok (.returns (-enomem) store.items)
          | some store =>
            uriQueryLoop available text finish fuel
              (queryItem text finish q (q + name.length)).2
              ((queryItem text finish q (q + name.length)).2 + 1) store) := by
  have positive := length_pos_of_ne_nil nonempty
  exact uriQueryLoop_item inside (strpbrk_eq whole (name_free noEquals noAmpersand) accepted) within
    (by omega)

theorem not_nameless {name value : List UInt8} (nonempty : name ≠ []) (noEquals : equals ∉ name) :
    ¬nameless (name ++ value) := by
  cases name with
  | nil => exact absurd rfl nonempty
  | cons c name => exact fun same => noEquals (Option.some.inj same ▸ mem_cons_self)

theorem head?_of_nameless {part rest : List UInt8} (whole : text.drop q = part ++ rest)
    (starts : nameless part) : part ≠ [] ∧ (text.drop q).head? = some equals := by
  cases part with
  | nil => cases starts
  | cons c part =>
    rw [whole]
    exact ⟨cons_ne_nil _ _, starts⟩

theorem queryItem_behind_value {name value rest : List UInt8}
    (whole : text.drop q = name ++ equals :: (value ++ rest)) (free : ampersand ∉ value) :
    (rest.head? = some ampersand → (queryItem text finish q (q + name.length)).2 =
      q + name.length + 1 + value.length) ∧
    (q + name.length + 1 + value.length = finish →
      finish ≤ (queryItem text finish q (q + name.length)).2) := by
  have here : text[q + name.length]? = some equals := getElem?_of_drop whole
  have split : text.drop q = (name ++ [equals]) ++ (value ++ rest) := by
    rw [whole]
    simp
  have behind : text.drop (q + name.length + 1) = value ++ rest := by
    have dropped := drop_behind split
    rwa [length_append, length_singleton, ← Nat.add_assoc] at dropped
  have absent : ∀ x ∈ value, x ∉ [ampersand] :=
    fun x inside same => free (mem_singleton.mp same ▸ inside)
  simp only [queryItem, here, if_true]
  refine ⟨fun head => ?_, fun ends => ?_⟩
  · cases rest with
    | nil => cases head
    | cons c rest =>
      obtain rfl := Option.some.inj head
      rw [strchr, strpbrk_eq behind absent mem_cons_self]
      rfl
  · cases search : strchr text ampersand (q + name.length + 1) with
    | none => exact Nat.le_refl _
    | some found =>
      have skips := strpbrk_skips behind absent search
      rw [Option.getD_some]
      omega

/-- Nothing is left of the query; what stands behind it is looked at. -/
theorem uriQueryLoop_empty (before : p = 0 ∧ finish = 0 ∨ p + 1 = finish)
    (stored : Stored store done) (within : done.length ≤ itemLimit) :
    LoopEnds done (lastItems text finish finish [])
      (uriQueryLoop available text finish (fuel + 1) p finish store) := by
  simp only [lastItems, if_true]
  by_cases inside : p < finish
  · by_cases isAmpersand : (text.drop finish).head? = some ampersand
    · have other : ¬(0 < finish ∧ (text.drop finish).head? = some equals) := by
        rw [isAmpersand]
        exact fun both => absurd both.2 (by decide)
      rw [uriQueryLoop_skip inside (Nat.le_refl _) isAmpersand, uriQueryLoop_over (Nat.le_refl _),
        decide_eq_false other]
      exact .breaks stored within
    · by_cases isEquals : (text.drop finish).head? = some equals
      · rw [uriQueryLoop_nameless inside (Nat.le_refl _) isEquals,
          decide_eq_true ⟨by omega, isEquals⟩]
        exact .returns within
      · have search := @strpbrk_behind text [ampersand, equals] [] (text.drop finish) finish rfl
          (fun _ => nofun) fun x head accepted => by
            simp only [mem_cons, not_mem_nil, or_false] at accepted
            rcases accepted with rfl | rfl
            · exact isAmpersand head
            · exact isEquals head
        rw [length_nil, Nat.add_zero] at search
        rw [uriQueryLoop_end inside search, decide_eq_false fun both => isEquals both.2]
        exact .breaks stored within
  · rw [uriQueryLoop_over (Nat.le_of_not_lt inside), decide_eq_false fun both => by omega]
    exact .breaks stored within

/-- The last item has no value, and the search for its end goes on behind the query. -/
theorem uriQueryLoop_open (memory : ∀ size, available size = true) {last : List UInt8}
    (whole : text.drop q = last ++ text.drop finish) (ends : q + last.length = finish)
    (nonempty : last ≠ []) (noEquals : equals ∉ last) (noAmpersand : ampersand ∉ last)
    (named : nameOf last = last) (inside : p < finish) (stored : Stored store done)
    (within : done.length ≤ itemLimit) :
    LoopEnds done (lastItems text finish q last)
      (uriQueryLoop available text finish (fuel + 1) p q store) := by
  have notNameless := @not_nameless last [] nonempty noEquals
  rw [append_nil] at notNameless
  rw [lastItems, if_neg nonempty, if_neg notNameless]
  by_cases separated : (text.drop finish).head? = some ampersand ∨
      (text.drop finish).head? = some equals
  · obtain ⟨c, rest, split, accepted⟩ : ∃ c rest, text.drop finish = c :: rest ∧
        c ∈ [ampersand, equals] := by
      cases left : text.drop finish with
      | nil => simp [left] at separated
      | cons c rest =>
        rw [left] at separated
        refine ⟨c, rest, rfl, ?_⟩
        rcases separated with here | here <;> obtain rfl := Option.some.inj here <;> simp
    rw [split] at whole
    have behind : finish ≤ (queryItem text finish q (q + last.length)).2 := by
      rw [ends, queryItem]
      split
      · cases found : strchr text ampersand (finish + 1) with
        | none => exact Nat.le_refl _
        | some later =>
          have skips := strpbrk_skips (nil_append _).symm (fun _ => nofun) found
          rw [length_nil] at skips
          change finish ≤ later
          omega
      · exact Nat.le_refl _
    rw [uriQueryLoop_named inside whole accepted (by omega) nonempty noEquals noAmpersand,
      if_pos (.inr separated), itemFrom, named]
    refine LoopEnds.item memory stored within fun store' stored' short => ?_
    rw [uriQueryLoop_over behind]
    exact .breaks stored' short
  · have search := strpbrk_behind whole (name_free noEquals noAmpersand) fun x head accepted => by
      simp only [mem_cons, not_mem_nil, or_false] at accepted
      rcases accepted with rfl | rfl
      · exact separated (.inl head)
      · exact separated (.inr head)
    rw [ends] at search
    rw [uriQueryLoop_end inside search, if_neg fun either => either.elim noEquals separated]
    exact .breaks stored within

theorem uriQueryLoop_last (memory : ∀ size, available size = true) {last : List UInt8}
    (whole : text.drop q = last ++ text.drop finish) (ends : q + last.length = finish)
    (free : ampersand ∉ last) (before : p = 0 ∧ q = 0 ∨ p + 1 = q)
    (stored : Stored store done) (within : done.length ≤ itemLimit) :
    LoopEnds done (lastItems text finish q last)
      (uriQueryLoop available text finish (fuel + 1) p q store) := by
  rcases part_cases last with rfl | starts | ⟨name, value, rfl, nonempty, noEquals, named⟩ |
      ⟨nonempty, noEquals, named⟩
  · rw [length_nil, Nat.add_zero] at ends
    subst ends
    exact uriQueryLoop_empty before stored within
  · obtain ⟨nonempty, here⟩ := head?_of_nameless whole starts
    have positive := length_pos_of_ne_nil nonempty
    rw [uriQueryLoop_nameless (by omega) (by omega) here, lastItems, if_neg nonempty,
      if_pos starts]
    exact .returns within
  · rw [length_append, length_cons] at ends
    rw [mem_append, mem_cons, not_or, not_or] at free
    rw [append_assoc, cons_append] at whole
    have behind := (@queryItem_behind_value text finish q _ _ _ whole free.2.2).2 (by omega)
    rw [uriQueryLoop_named (by omega) whole (by simp) (by omega) nonempty noEquals free.1,
      lastItems, if_neg (by simp), if_neg (not_nameless nonempty noEquals),
      if_pos (.inl (by simp)), itemFrom, named]
    refine LoopEnds.item memory stored within fun store' stored' short => ?_
    rw [uriQueryLoop_over behind]
    exact .breaks stored' short
  · have positive := length_pos_of_ne_nil nonempty
    exact uriQueryLoop_open memory whole ends nonempty noEquals free named (by omega) stored within

theorem uriQueryLoop_part (memory : ∀ size, available size = true) {part rest : List UInt8}
    {parts : List (List UInt8)} (more : parts ≠ [])
    (whole : text.drop q = part ++ ampersand :: rest) (inside : q + part.length < finish)
    (free : ampersand ∉ part) (before : p = 0 ∧ q = 0 ∨ p + 1 = q) (stored : Stored store done)
    (within : done.length ≤ itemLimit)
    (next : ∀ store' done', Stored store' done' → done'.length ≤ itemLimit →
      LoopEnds done' (scan text finish (q + part.length + 1) parts)
        (uriQueryLoop available text finish fuel (q + part.length) (q + part.length + 1) store')) :
    LoopEnds done (scan text finish q (part :: parts))
      (uriQueryLoop available text finish (fuel + 1) p q store) := by
  rw [scan, if_neg more]
  rcases part_cases part with rfl | starts | ⟨name, value, rfl, nonempty, noEquals, named⟩ |
      ⟨nonempty, noEquals, named⟩
  · rw [length_nil, Nat.add_zero] at inside next
    rw [if_pos rfl, uriQueryLoop_skip (by omega) (by omega) (by rw [whole]; rfl)]
    exact next store done stored within
  · obtain ⟨nonempty, here⟩ := head?_of_nameless whole starts
    rw [uriQueryLoop_nameless (by omega) (by omega) here, if_neg nonempty, if_pos starts]
    exact .returns within
  · rw [length_append, length_cons] at inside next
    rw [mem_append, mem_cons, not_or, not_or] at free
    rw [append_assoc, cons_append] at whole
    have behind := (@queryItem_behind_value text finish q _ _ _ whole free.2.2).1 rfl
    rw [uriQueryLoop_named (by omega) whole (by simp) (by omega) nonempty noEquals free.1,
      if_neg (by simp), if_neg (not_nameless nonempty noEquals), itemFrom, named, behind,
      length_append, length_cons]
    refine LoopEnds.item memory stored within fun store' stored' short => ?_
    have ends := next store' _ stored' short
    rwa [show q + (name.length + (value.length + 1)) = q + name.length + 1 + value.length by omega]
      at ends ⊢
  · have notNameless := @not_nameless part [] nonempty noEquals
    rw [append_nil] at notNameless
    have here : text[q + part.length]? = some ampersand := getElem?_of_drop whole
    have behind : (queryItem text finish q (q + part.length)).2 = q + part.length := by
      rw [queryItem, here]
      rfl
    rw [uriQueryLoop_named (by omega) whole mem_cons_self (by omega) nonempty noEquals free,
      if_neg nonempty, if_neg notNameless, itemFrom, named, behind]
    exact LoopEnds.item memory stored within fun store' stored' short => next store' _ stored' short

theorem uriQueryLoop_scan (memory : ∀ size, available size = true) (size : Nat) :
    ∀ (chars : List UInt8) (p q fuel : Nat) (store : QueryStore) (done : List QueryItem),
      chars.length ≤ size → text.drop q = chars ++ text.drop finish → q + chars.length = finish →
      finish ≤ text.length → (p = 0 ∧ q = 0 ∨ p + 1 = q) → chars.length ≤ fuel →
      Stored store done → done.length ≤ itemLimit →
      LoopEnds done (scan text finish q (chars.splitOn ampersand))
        (uriQueryLoop available text finish (fuel + 1) p q store) := by
  induction size with
  | zero =>
    intro chars p q fuel store done short whole ends inText before enough stored within
    obtain rfl := eq_nil_of_length_eq_zero (Nat.le_zero.mp short)
    rw [splitOn_nil, scan, if_pos rfl]
    exact uriQueryLoop_last memory whole ends not_mem_nil before stored within
  | succ size ih =>
    intro chars p q fuel store done short whole ends inText before enough stored within
    by_cases member : ampersand ∈ chars
    · obtain ⟨part, rest, rfl, free⟩ := eq_append_cons_of_mem member
      rw [length_append, length_cons] at short ends enough
      rw [splitOn_append_cons_self_of_not_mem free]
      have split : text.drop q = part ++ ampersand :: (rest ++ text.drop finish) := by
        rw [whole]
        simp
      have behind : text.drop (q + part.length + 1) = rest ++ text.drop finish := by
        have joined : text.drop q = (part ++ [ampersand]) ++ (rest ++ text.drop finish) := by
          rw [split]
          simp
        have dropped := drop_behind joined
        rwa [length_append, length_singleton, ← Nat.add_assoc] at dropped
      obtain ⟨fuel, rfl⟩ : ∃ less, fuel = less + 1 := ⟨fuel - 1, by omega⟩
      refine uriQueryLoop_part memory (splitOn_ne_nil _ _) split (by omega) free before stored
        within fun store' done' stored' within' => ?_
      exact ih rest (q + part.length) (q + part.length + 1) fuel store' done' (by omega) behind
        (by omega) inText (.inr rfl) (by omega) stored' within'
    · rw [splitOn_eq_singleton member, scan, if_pos rfl]
      exact uriQueryLoop_last memory whole ends member before stored within

theorem uriQuery_scan (memory : ∀ size, available size = true) (inText : finish ≤ text.length) :
    ((scan text finish 0 ((text.take finish).splitOn ampersand)).1.length ≤ itemLimit →
      if (scan text finish 0 ((text.take finish).splitOn ampersand)).2 then
        uriQuery available text finish = .ok (-1, none)
      else ∃ items, uriQuery available text finish =
          .ok (((scan text finish 0 ((text.take finish).splitOn ampersand)).1.length : Int), items) ∧
        Listed items (scan text finish 0 ((text.take finish).splitOn ampersand)).1) ∧
    (itemLimit < (scan text finish 0 ((text.take finish).splitOn ampersand)).1.length →
      uriQuery available text finish = .error .assertion) := by
  have length : (text.take finish).length = finish := by
    rw [length_take]
    exact Nat.min_eq_left inText
  have ends := @uriQueryLoop_scan available text finish memory finish (text.take finish) 0 0 finish
    emptyStore [] (Nat.le_of_eq length) (by rw [drop_zero, take_append_drop])
    (by rw [length, Nat.zero_add]) inText (.inl ⟨rfl, rfl⟩) (Nat.le_of_eq length)
    emptyStore_stored (Nat.zero_le _)
  unfold LoopEnds at ends
  rw [length_nil, Nat.zero_add] at ends
  refine ⟨fun within => ?_, fun past => ?_⟩
  · have ended := ends.1 within
    unfold uriQuery
    split
    · next early =>
        rw [if_pos early] at ended
        rw [ended]
        rfl
    · next late =>
        rw [if_neg late] at ended
        obtain ⟨store, looped, stored⟩ := ended
        obtain ⟨items, collected, listed⟩ := collectItems_listed memory stored
        rw [looped]
        exact ⟨items, collected, listed⟩
  · unfold uriQuery
    rw [ends.2 past]
    rfl

end Loop

end CLibs.Uris
