import CLibs.UrlEncoding

/-!
# What decoding writes

A text is read token by token: `+`, `%%`, an escape or any other character.  Every token becomes
one byte, and a `%` that starts no escape is an error if it is reached.  A target that is full ends
the loop as the end of the text does.
-/

namespace CLibs.UrlCodec

open List

/-! ## The tokens of an encoded text -/

/-- The first token, as the byte it stands for and what follows it; `none` at the end and at a `%`
that starts no escape. -/
def token : List UInt8 → Option (UInt8 × List UInt8)
  | [] => none
  | c :: rest =>
    if c = 0x2B then some (0x20, rest)
    else if c = 0x25 then
      match rest with
      | [] => none
      | high :: rest =>
        if high = 0x25 then some (0x25, rest)
        else
          match rest with
          | [] => none
          | low :: rest =>
            if charIshex high && charIshex low then
              some (hex high <<< 4 ||| hex low, rest)
            else none
    else some (c, rest)

/-- The first characters that stand for a byte each, and the rest of the text. -/
def tokens : Nat → List UInt8 → Option (List UInt8 × List UInt8)
  | 0, text => some ([], text)
  | count + 1, text =>
    (token text).bind fun next =>
      (tokens count next.2).map fun more => (next.1 :: more.1, more.2)

theorem tokens_total : ∀ (limit : Nat) (text : List UInt8),
    (∃ values rest, tokens limit text = some (values, rest)) ∨
      ∃ count < limit, ∃ values rest, tokens count text = some (values, rest) ∧ token rest = none := by
  intro limit
  induction limit with
  | zero => exact fun text => .inl ⟨[], text, rfl⟩
  | succ limit ih =>
    intro text
    cases first : token text with
    | none => exact .inr ⟨0, Nat.succ_pos limit, [], text, rfl, first⟩
    | some next =>
      rcases ih next.2 with ⟨values, rest, all⟩ | ⟨count, fewer, values, rest, some, past⟩
      · exact .inl ⟨next.1 :: values, rest, by simp [tokens, first, all]⟩
      · exact .inr ⟨count + 1, Nat.succ_lt_succ fewer, next.1 :: values, rest,
          by simp [tokens, first, some], past⟩

theorem tokens_succ {count : Nat} {text values rest : List UInt8}
    (taken : tokens (count + 1) text = some (values, rest)) :
    ∃ value behind more, token text = some (value, behind) ∧
      tokens count behind = some (more, rest) ∧ values = value :: more := by
  obtain ⟨⟨value, behind⟩, first, taken⟩ := Option.bind_eq_some_iff.mp taken
  obtain ⟨⟨more, last⟩, others, taken⟩ := Option.map_eq_some_iff.mp taken
  cases taken
  exact ⟨value, behind, more, first, others, rfl⟩

theorem tokens_length : ∀ (count : Nat) {text values rest : List UInt8},
    tokens count text = some (values, rest) → values.length = count := by
  intro count
  induction count with
  | zero =>
    intro text values rest taken
    cases taken
    rfl
  | succ count ih =>
    intro text values rest taken
    obtain ⟨value, behind, more, -, others, rfl⟩ := tokens_succ taken
    rw [length_cons, ih others]

/-! ## What decoding does -/

section Decoding

variable {source : Memory} {srcBytes tgtBytes : Int} {p i : Nat} {target : Buffer UInt8}
  {text rest : List UInt8} {value : UInt8}

theorem urlDecodeBody_next (supplies : Supplies source srcBytes p text)
    (taken : token text = some (value, rest)) (fits : i < target.size) :
    ∃ p', urlDecodeBody source srcBytes p i target = .ok (some (p', i, target.written i [value])) ∧
      Supplies source srcBytes (p' + 1) rest := by
  have stored : ∀ byte, target.store i [byte] = .ok (target.written i [byte]) :=
    fun byte => Buffer.store_eq fits
  cases text with
  | nil => cases taken
  | cons c tail =>
    obtain ⟨here, -, -, behind⟩ := supplies
    subst here
    simp only [token] at taken
    simp only [urlDecodeBody, stored, ok_bind]
    by_cases plus : source p = 0x2B
    · rw [if_pos plus] at taken ⊢
      cases taken
      exact ⟨p, rfl, behind⟩
    rw [if_neg plus] at taken ⊢
    by_cases percent : source p = 0x25
    swap
    · rw [if_neg percent] at taken ⊢
      cases taken
      exact ⟨p, rfl, behind⟩
    rw [if_pos percent] at taken ⊢
    cases tail with
    | nil => cases taken
    | cons high tail =>
      obtain ⟨here, -, bound, behind⟩ := behind
      subst here
      simp only at taken
      push_cast at bound
      by_cases double : source (p + 1) = 0x25
      · rw [if_pos double] at taken
        rw [if_pos ⟨bound, double⟩]
        cases taken
        exact ⟨p + 1, rfl, behind⟩
      rw [if_neg double] at taken
      rw [if_neg fun both => double both.2]
      cases tail with
      | nil => cases taken
      | cons low tail =>
        obtain ⟨here, -, bound, behind⟩ := behind
        subst here
        push_cast at bound
        simp only at taken
        split at taken
        · next digits =>
            rw [Bool.and_eq_true] at digits
            cases taken
            refine ⟨p + 2, ?_, behind⟩
            rw [if_neg]
            · rfl
            · simp only [digits.1, digits.2, Bool.not_true, Bool.false_or,
                decide_eq_true_eq]
              omega
        · cases taken

theorem urlDecodeBody_malformed (supplies : Supplies source srcBytes p text)
    (malformed : token text = none) (more : text ≠ []) :
    urlDecodeBody source srcBytes p i target = .ok none := by
  cases text with
  | nil => exact absurd rfl more
  | cons c tail =>
    obtain ⟨here, -, -, behind⟩ := supplies
    subst here
    simp only [token] at malformed
    simp only [urlDecodeBody]
    by_cases plus : source p = 0x2B
    · rw [if_pos plus] at malformed
      cases malformed
    by_cases percent : source p = 0x25
    swap
    · rw [if_neg plus, if_neg percent] at malformed
      cases malformed
    rw [if_neg plus, if_pos percent] at malformed ⊢
    cases tail with
    | nil => 
        rcases behind with zero | ⟨bounded, past⟩
        · rw [if_neg (by simp [zero]), if_pos (by simp [zero, charIshex, charIsnum])]
          rfl
        · rw [if_neg (by omega), if_pos (by simp [bounded]; omega)]
          rfl
    | cons high tail =>
      obtain ⟨here, -, -, behind⟩ := behind
      subst here
      simp only at malformed
      by_cases double : source (p + 1) = 0x25
      · rw [if_pos double] at malformed
        cases malformed
      rw [if_neg double] at malformed
      rw [if_neg fun both => double both.2]
      cases tail with
      | nil =>
        rcases behind with zero | ⟨bounded, past⟩
        · rw [if_pos (by simp [zero, charIshex, charIsnum])]
          rfl
        · rw [if_pos (by simp [bounded]; omega)]
          rfl
      | cons low tail =>
        obtain ⟨here, -, -, -⟩ := behind
        subst here
        simp only at malformed
        split at malformed
        · cases malformed
        · next digits =>
            rw [Bool.and_eq_true, not_and_or] at digits
            rw [if_pos (by rcases digits with first | second <;> simp_all)]
            rfl

theorem urlDecodeLoop_passes (count : Nat) :
    ∀ (p : Nat) (done : List UInt8) (target : Buffer UInt8) (fuel : Nat)
      {text values rest : List UInt8}, Supplies source srcBytes p text →
      tokens count text = some (values, rest) → target.size = tgtBytes.toNat →
      done.length + count ≤ tgtBytes.toNat → target.Holds 0 done →
      ∃ p' target', Supplies source srcBytes p' rest ∧ target'.size = target.size ∧
        target'.Holds 0 (done ++ values) ∧
        codecLoop source srcBytes tgtBytes (urlDecodeBody source srcBytes)
            (count + fuel) p done.length target =
          codecLoop source srcBytes tgtBytes (urlDecodeBody source srcBytes)
            fuel p' (done.length + count) target' := by
  induction count with
  | zero =>
    intro p done target fuel text values rest supplies taken size _ holds
    cases taken
    exact ⟨p, target, supplies, rfl, by simpa using holds, by simp⟩
  | succ count ih =>
    intro p done target fuel text values rest supplies taken size fits holds
    obtain ⟨value, behind, more, first, others, rfl⟩ := tokens_succ taken
    obtain ⟨q, stored, supplied⟩ := @urlDecodeBody_next source srcBytes p done.length target text
      behind value supplies first (by omega)
    obtain ⟨p', target', left, sized, known, passed⟩ :=
      ih (q + 1) (done ++ [value]) (target.written done.length [value]) fuel supplied others size
        (by rw [length_append, length_singleton]; omega)
        (holds.extend [value] (Nat.zero_add _).symm (by simp only [length_singleton]; omega))
    refine ⟨p', target', left, sized, by simpa using known, ?_⟩
    have continues : Continues source srcBytes tgtBytes p done.length := by
      cases text with
      | nil => cases first
      | cons c tail => exact supplies.continues (by omega)
    rw [length_append, length_singleton] at passed
    rw [Nat.add_right_comm, codecLoop_next continues stored, passed, Nat.add_right_comm,
      Nat.add_assoc]

variable {count : Nat} {values : List UInt8}

theorem urlDecode_part (supplies : Supplies source srcBytes 0 text)
    (taken : tokens count text = some (values, rest)) (size : target.size = tgtBytes.toNat)
    (fits : count ≤ tgtBytes.toNat) :
    ∃ p written, Supplies source srcBytes p rest ∧ written.size = tgtBytes.toNat ∧
      written.Holds 0 values ∧
      codecLoop source srcBytes tgtBytes (urlDecodeBody source srcBytes) tgtBytes.toNat 0 0 target =
        codecLoop source srcBytes tgtBytes (urlDecodeBody source srcBytes)
          (tgtBytes.toNat - count) p count written := by
  obtain ⟨p, written, left, sized, holds, passed⟩ :=
    urlDecodeLoop_passes count 0 [] target (tgtBytes.toNat - count) supplies taken size
      (by simpa using fits) (Buffer.holds_nil (Nat.zero_le _))
  rw [Nat.add_sub_cancel' fits, length_nil, Nat.zero_add] at passed
  exact ⟨p, written, left, sized.trans size, holds, passed⟩

theorem urlDecode_stops (supplies : Supplies source srcBytes 0 text)
    (taken : tokens count text = some (values, rest)) (size : target.size = tgtBytes.toNat)
    (fits : count ≤ tgtBytes.toNat) (past : rest = [] ∨ count = tgtBytes.toNat) :
    ∃ outcome, urlDecode source srcBytes target tgtBytes = .ok outcome ∧
      outcome.result = count ∧ Supplies source srcBytes outcome.p rest ∧
      outcome.target.Holds 0 values := by
  obtain ⟨p, written, left, sized, holds, passed⟩ := urlDecode_part supplies taken size fits
  have ended : ¬Continues source srcBytes tgtBytes p count := by
    rcases past with rfl | full
    · exact left.ended
    · rintro ⟨-, -, room⟩
      omega
  rw [codecLoop_stop ended] at passed
  obtain ⟨final, returned, held⟩ := codec_of_loop passed sized holds (tokens_length count taken)
  exact ⟨_, returned, rfl, left, held⟩

theorem urlDecode_fails (supplies : Supplies source srcBytes 0 text)
    (taken : tokens count text = some (values, rest)) (size : target.size = tgtBytes.toNat)
    (fits : count < tgtBytes.toNat) (malformed : token rest = none) (more : rest ≠ []) :
    ∃ outcome, urlDecode source srcBytes target tgtBytes = .ok outcome ∧ outcome.result = -1 := by
  obtain ⟨p, written, left, sized, holds, passed⟩ :=
    urlDecode_part supplies taken size (Nat.le_of_lt fits)
  obtain ⟨fuel, spare⟩ : ∃ fuel, tgtBytes.toNat - count = fuel + 1 :=
    ⟨tgtBytes.toNat - count - 1, by omega⟩
  have continues : Continues source srcBytes tgtBytes p count := by
    cases rest with
    | nil => exact absurd rfl more
    | cons c tail => exact left.continues (by omega)
  rw [spare, codecLoop_break continues (urlDecodeBody_malformed left malformed more)] at passed
  obtain ⟨final, returned, -⟩ := codec_of_loop passed sized holds (tokens_length count taken)
  exact ⟨_, returned, rfl⟩

end Decoding

end CLibs.UrlCodec

/-!
## When the URL codec keeps the whole text

Encoding keeps the whole text exactly when no proper part of it fills the target, decoding reads
the whole text exactly when as many tokens as the target has room for are not a proper part of it.
What encoding keeps, decoding gives back.
-/

namespace CLibs.UrlCodec

open List

/-! ## Decoding what was encoded -/

theorem escapeOf_token (c : UInt8) (rest : List UInt8) :
    token (escapeOf c ++ rest) = some (c, rest) := by
  obtain ⟨high, low, read⟩ := digits_read c
  unfold escapeOf
  by_cases plain : unreserved c
  · rw [if_pos plain]
    have plus : c ≠ 0x2B := by rintro rfl; revert plain; decide
    have percent : c ≠ 0x25 := by rintro rfl; revert plain; decide
    simp [token, plus, percent]
  · rw [if_neg plain]
    by_cases blank : c = 0x20
    · subst blank
      rfl
    · rw [if_neg blank]
      have single : BaseCodecs.entry sEncode ((c >>> 4) &&& 0xF) ≠ 0x25 := by
        intro same
        rw [same] at high
        revert high
        decide
      simp [token, single, high, low, read]

theorem encoding_tokens (text : List UInt8) :
    tokens text.length (encoding text) = some (text, []) := by
  induction text with
  | nil => rfl
  | cons c rest ih => simp [tokens, escapeOf_token, ih]

theorem escapeOf_nonzero (c : UInt8) : ∀ byte ∈ escapeOf c, byte ≠ 0 := by
  obtain ⟨high, low, -⟩ := digits_read c
  have digit : ∀ byte, charIshex byte → byte ≠ 0 := by
    rintro byte shown rfl
    revert shown
    decide
  unfold escapeOf
  split
  · next plain =>
      rintro byte here rfl
      rw [mem_singleton] at here
      subst here
      revert plain
      decide
  · split
    · simp
    · intro byte here
      simp only [mem_cons, not_mem_nil, or_false] at here
      rcases here with rfl | rfl | rfl
      · decide
      · exact digit _ high
      · exact digit _ low

theorem encoding_urlForm (text : List UInt8) : UrlForm (encoding text) := by
  induction text with
  | nil => exact .nil
  | cons c rest ih =>
    obtain ⟨high, low, -⟩ := digits_read c
    rw [encoding_cons, escapeOf]
    split
    · next plain => exact .kept c _ plain ih
    · split
      · exact .plus _ ih
      · exact .escape _ _ _ high low ih

theorem supplies_of_bytes {memory : Memory} {bound : Int} (bytes : List UInt8) :
    ∀ p, (∀ j < bytes.length, bytes[j]? = some (memory (p + j))) → (∀ byte ∈ bytes, byte ≠ 0) →
      (bound = ((p + bytes.length : Nat) : Int) ∨ bound = -1 ∧ memory (p + bytes.length) = 0) →
      Supplies memory bound p bytes := by
  induction bytes with
  | nil =>
    rintro p - - (bounded | ⟨-, zero⟩)
    · exact .inr ⟨by omega, by simp at bounded; omega⟩
    · exact .inl zero
  | cons byte bytes ih =>
    intro p here nonzero past
    have first := here 0 (Nat.succ_pos _)
    simp only [List.getElem?_cons_zero, Option.some.injEq, Nat.add_zero] at first
    refine ⟨first.symm, nonzero byte mem_cons_self, ?_, ih (p + 1) ?_ ?_ ?_⟩
    · rcases past with bounded | ⟨unbounded, -⟩
      · exact .inr (by rw [bounded, length_cons]; omega)
      · exact .inl unbounded
    · intro j inside
      have next := here (j + 1) (Nat.succ_lt_succ inside)
      rw [List.getElem?_cons_succ] at next
      rw [next]
      congr 2
      omega
    · exact (forall_mem_cons.mp nonzero).2
    · rw [length_cons, Nat.add_comm bytes.length, ← Nat.add_assoc] at past
      exact past

/-- The target holds the encoding, which decodes to the text. -/
structure Encoded (outcome : Outcome) (text : List UInt8) : Prop where
  whole : outcome.target.Holds 0 (encoding text)
  result : outcome.result = (encoding text).length
  form : UrlForm (encoding text)
  decoded : ∀ (memory : Memory) (bound tgtBytes : Int) (target : Buffer UInt8),
    (∀ i : Nat, (i : Int) < outcome.result → outcome.target.cells i = some (memory i)) →
    bound = outcome.result ∨ bound = -1 ∧ memory outcome.result.toNat = 0 →
    target.size = tgtBytes.toNat → (text.length : Int) ≤ tgtBytes →
    ∃ again, urlDecode memory bound target tgtBytes = .ok again ∧
      again.result = text.length ∧ again.target.Holds 0 text

theorem encoded_of_whole {outcome : Outcome} {text : List UInt8}
    (result : outcome.result = room text) (whole : outcome.target.Holds 0 (encoding text)) :
    Encoded outcome text := by
  rw [← encoding_length] at result
  refine ⟨whole, result, encoding_urlForm text, ?_⟩
  intro memory bound tgtBytes target agrees past size fits
  have nonzero : ∀ byte ∈ encoding text, byte ≠ 0 := by
    intro byte here
    obtain ⟨c, -, inside⟩ := mem_flatMap.mp here
    exact escapeOf_nonzero c byte inside
  have supplies : Supplies memory bound 0 (encoding text) := by
    refine supplies_of_bytes (encoding text) 0 (fun j inside => ?_) nonzero ?_
    · have known := whole.cell j inside
      rw [Nat.zero_add] at known ⊢
      rw [← known, agrees j (by omega)]
    · rw [result] at past
      rw [Nat.zero_add]
      exact past
  obtain ⟨again, returned, counted, -, holds⟩ :=
    urlDecode_stops supplies (encoding_tokens text) size (by omega) (.inl rfl)
  exact ⟨again, returned, counted, holds⟩

/-! ## When the whole text is encoded and decoded -/

section WholeText

variable (source : Memory) (srcBytes tgtBytes : Int) (target : Buffer UInt8) (text : List UInt8)

/-- Whenever `url_encode` returns no error, it has encoded the whole text. -/
def EncodesWhole : Prop :=
  ∀ outcome, urlEncode source srcBytes target tgtBytes = .ok outcome → 0 ≤ outcome.result →
    Encoded outcome text

/-- `url_decode` returns, and when it returns no error, its source ends where it has stopped
reading. -/
def DecodesWhole : Prop :=
  ∃ outcome, urlDecode source srcBytes target tgtBytes = .ok outcome ∧
    (0 ≤ outcome.result → Supplies source srcBytes outcome.p [])

variable {source srcBytes tgtBytes target text}

theorem encodesWhole_iff (supplies : Supplies source srcBytes 0 text) (limit : tgtBytes ≤ intMax)
    (size : target.size = tgtBytes.toNat) :
    EncodesWhole source srcBytes tgtBytes target text ↔
      ∀ first rest, text = first ++ rest → room first = tgtBytes.toNat → rest = [] := by
  constructor
  · rintro encodes first rest rfl full
    obtain ⟨outcome, returned, result, -⟩ :=
      urlEncode_stops supplies limit size (Nat.le_of_eq full) (.inr full)
    have whole := (encodes outcome returned (by omega)).result
    rw [result, encoding_length, room, room, map_append, sum_append] at whole
    cases rest with
    | nil => rfl
    | cons c rest =>
      have positive := width_pos c
      simp only [map_cons, sum_cons] at whole
      omega
  · intro fills outcome returned fine
    rcases cut_of_text text tgtBytes.toNat with fits | ⟨first, c, rest, rfl, start, behind⟩
    · have all : Supplies source srcBytes 0 (text ++ []) := by rwa [append_nil]
      obtain ⟨known, whole, result, holds⟩ := urlEncode_stops all limit size fits (.inl rfl)
      obtain rfl := Except.ok.inj (whole.symm.trans returned)
      exact encoded_of_whole result holds
    · rcases Nat.lt_or_eq_of_le start with cut | full
      · have failed := urlEncode_fails supplies limit size cut behind
        by_cases small : (room first : Int) + 2 ≤ intMax
        · obtain ⟨known, broken, negative⟩ := failed.1 small
          obtain rfl := Except.ok.inj (broken.symm.trans returned)
          omega
        · rw [failed.2 small] at returned
          cases returned
      · cases fills first (c :: rest) rfl full

theorem decodesWhole_iff (supplies : Supplies source srcBytes 0 text)
    (size : target.size = tgtBytes.toNat) :
    DecodesWhole source srcBytes tgtBytes target ↔
      ∀ values rest, tokens tgtBytes.toNat text = some (values, rest) → rest = [] := by
  constructor
  · rintro ⟨known, whole, decodes⟩ values rest taken
    obtain ⟨outcome, returned, result, left, -⟩ :=
      urlDecode_stops supplies taken size (Nat.le_refl _) (.inr rfl)
    obtain rfl := Except.ok.inj (whole.symm.trans returned)
    have ended := @Supplies.ended source srcBytes (known.i + 1 : Int) known.p known.i
      (decodes (by omega))
    cases rest with
    | nil => rfl
    | cons c rest => exact absurd (left.continues (by omega)) ended
  · intro fills
    rcases tokens_total tgtBytes.toNat text with
      ⟨values, rest, taken⟩ | ⟨count, fewer, values, rest, taken, past⟩
    · obtain rfl := fills values rest taken
      obtain ⟨outcome, returned, -, left, -⟩ :=
        urlDecode_stops supplies taken size (Nat.le_refl _) (.inl rfl)
      exact ⟨outcome, returned, fun _ => left⟩
    · by_cases more : rest = []
      · obtain ⟨outcome, returned, -, left, -⟩ :=
          urlDecode_stops supplies taken size (Nat.le_of_lt fewer) (.inl more)
        exact ⟨outcome, returned, fun _ => more ▸ left⟩
      · obtain ⟨outcome, returned, failed⟩ := urlDecode_fails supplies taken size fewer past more
        exact ⟨outcome, returned, fun fine => absurd (failed ▸ fine) (by decide)⟩

/-- For every text, bound of the source and size of the target: encoding keeps the whole text, and
decoding gives it back, exactly when no proper part of it fills the target; decoding reads the
whole text exactly when its first `tgtBytes` tokens, if it has as many, are all of it. -/
theorem url_codec_whole_iff (supplies : Supplies source srcBytes 0 text)
    (limit : tgtBytes ≤ intMax) (size : target.size = tgtBytes.toNat) :
    (EncodesWhole source srcBytes tgtBytes target text ↔
      ∀ first rest, text = first ++ rest → room first = tgtBytes.toNat → rest = []) ∧
    (DecodesWhole source srcBytes tgtBytes target ↔
      ∀ values rest, tokens tgtBytes.toNat text = some (values, rest) → rest = []) :=
  ⟨encodesWhole_iff supplies limit size, decodesWhole_iff supplies size⟩

end WholeText

def stringMemory (text : List UInt8) : Memory := fun p => text.getD p 0

theorem stringMemory_supplies : Supplies (stringMemory [0x61, 0x62]) (-1) 0 [0x61, 0x62] := by
  simp [Supplies, stringMemory]

/-- Two letters and a target of four bytes. -/
theorem url_codec_whole_iff_two :
    (EncodesWhole (stringMemory [0x61, 0x62]) (-1) 4 (.alloc 4) [0x61, 0x62] ↔
      ∀ first rest, [0x61, 0x62] = first ++ rest → room first = 4 → rest = []) ∧
    (DecodesWhole (stringMemory [0x61, 0x62]) (-1) 4 (.alloc 4) ↔
      ∀ values rest, tokens 4 [0x61, 0x62] = some (values, rest) → rest = []) :=
  url_codec_whole_iff stringMemory_supplies (by decide) rfl

/-- Two letters into a target of one byte: encoding returns 1, and so does decoding. -/
theorem url_codec_drops :
    Supplies (stringMemory [0x61, 0x62]) (-1) 0 [0x61, 0x62] ∧
      ¬EncodesWhole (stringMemory [0x61, 0x62]) (-1) 1 (.alloc 1) [0x61, 0x62] ∧
      ¬DecodesWhole (stringMemory [0x61, 0x62]) (-1) 1 (.alloc 1) := by
  refine ⟨stringMemory_supplies, fun encodes => ?_, fun decodes => ?_⟩
  · obtain ⟨outcome, returned, result, -⟩ := @urlEncode_stops (stringMemory [0x61, 0x62]) (-1) 1
      (.alloc 1) [0x61] [0x62] stringMemory_supplies (by decide) rfl (by decide) (.inr rfl)
    have whole := (encodes outcome returned (by rw [result]; decide)).result
    rw [result] at whole
    revert whole
    decide
  · have all := (decodesWhole_iff stringMemory_supplies rfl).mp decodes [0x61] [0x62] rfl
    cases all

end CLibs.UrlCodec
