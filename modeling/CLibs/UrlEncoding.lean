import CLibs.BaseCodecs
import CLibs.CheckedBuffers

/-!
# The URL codec of `urlcodec.c`

Both functions are one loop over the source, which ends at a NUL, at the bound of the source or at
the bound of the target.  They differ in what they do with one character: encoding writes one or
three bytes for it, decoding looks at one, two or three characters and writes one byte.
-/

namespace CLibs.UrlCodec

open List

/-- The characters from `source` on; those behind the text can be anything. -/
abbrev Memory := Nat → UInt8

def intMax : Int := 2147483647

def sEncode : List UInt8 :=
  BaseCodecs.characters
    ['0', '1', '2', '3', '4', '5', '6', '7', '8', '9', 'A', 'B', 'C', 'D', 'E', 'F']

/-- A negative `char` is a byte from 128 on, which is in none of these ranges either. -/
def charIsnum (c : UInt8) : Bool := 0x30 ≤ c && c ≤ 0x39

def charIsalpha (c : UInt8) : Bool := (0x61 ≤ c && c ≤ 0x7A) || (0x41 ≤ c && c ≤ 0x5A)

def charIsalnum (c : UInt8) : Bool := charIsnum c || charIsalpha c

def charIshex (c : UInt8) : Bool :=
  charIsnum c || (0x61 ≤ c && c ≤ 0x66) || (0x41 ≤ c && c ≤ 0x46)

def tolower (c : UInt8) : UInt8 := if 0x41 ≤ c ∧ c ≤ 0x5A then c + 0x20 else c

def hex (c : UInt8) : UInt8 := if charIsnum c then c - 0x30 else tolower c - 0x61 + 10

/-- The characters that `url_encode` copies. -/
def unreserved (c : UInt8) : Bool :=
  charIsalnum c || c == 0x2D || c == 0x5F || c == 0x2E || c == 0x7E

/-- The test of both loops. -/
def Continues (source : Memory) (srcBytes tgtBytes : Int) (p i : Nat) : Prop :=
  source p ≠ 0 ∧ (srcBytes = -1 ∨ (p : Int) < srcBytes) ∧ (i : Int) < tgtBytes

instance (source : Memory) (srcBytes tgtBytes : Int) (p i : Nat) :
    Decidable (Continues source srcBytes tgtBytes p i) := by
  unfold Continues
  infer_instance

/-- The variables of both functions when their loop is over. -/
structure Outcome where
  p : Nat
  i : Nat
  r : Int
  target : Buffer UInt8

/-- What the function returns. -/
def Outcome.result (outcome : Outcome) : Int := if outcome.r < 0 then outcome.r else outcome.i

/-- The body of a loop: `none` for the break with `r = -1`, otherwise the variables before both
increments. -/
abbrev Body := Nat → Nat → Buffer UInt8 → Except Fault (Option (Nat × Nat × Buffer UInt8))

def codecLoop (source : Memory) (srcBytes tgtBytes : Int) (body : Body) :
    Nat → Nat → Nat → Buffer UInt8 → Except Fault Outcome
  | fuel, p, i, target =>
    if Continues source srcBytes tgtBytes p i then
      match fuel with
      | 0 => .error .fuel
      | fuel + 1 =>
        (body p i target).bind fun next =>
          match next with
          | none => .ok ⟨p, i, -1, target⟩
          | some (p, i, target) =>
            codecLoop source srcBytes tgtBytes body fuel (p + 1) (i + 1) target
    else .ok ⟨p, i, 0, target⟩

def codec (source : Memory) (srcBytes : Int) (target : Buffer UInt8) (tgtBytes : Int)
    (body : Body) : Except Fault Outcome := do
  let outcome ← codecLoop source srcBytes tgtBytes body tgtBytes.toNat 0 0 target
  let target ← outcome.target.storeIf ((outcome.i : Int) < tgtBytes) outcome.i [0]
  return { outcome with target := target }

/-- The sum `i + 2` must not overflow. -/
def urlEncodeBody (source : Memory) (tgtBytes : Int) : Body := fun p i target =>
  let c := source p
  if unreserved c then do
    let target ← target.store i [c]
    return some (p, i, target)
  else if c = 0x20 then do
    let target ← target.store i [0x2B]
    return some (p, i, target)
  else do
    check ((i : Int) + 2 ≤ intMax)
    if (i : Int) + 2 ≥ tgtBytes then
      return none
    else
      let target ← target.store i [0x25]
      let target ← target.store (i + 1) [BaseCodecs.entry sEncode ((c >>> 4) &&& 0xF)]
      let target ← target.store (i + 2) [BaseCodecs.entry sEncode (c &&& 0xF)]
      return some (p, i + 2, target)

def urlDecodeBody (source : Memory) (srcBytes : Int) : Body := fun p i target =>
  let c := source p
  if c = 0x2B then do
    let target ← target.store i [0x20]
    return some (p, i, target)
  else if c = 0x25 then
    if (srcBytes = -1 ∨ (p : Int) + 1 < srcBytes) ∧ source (p + 1) = 0x25 then do
      let target ← target.store i [0x25]
      return some (p + 1, i, target)
    else if !charIshex (source (p + 1)) || !charIshex (source (p + 2)) ||
        (srcBytes ≠ -1 ∧ srcBytes ≤ (p : Int) + 2) then
      return none
    else do
      let target ← target.store i [hex (source (p + 1)) <<< 4 ||| hex (source (p + 2))]
      return some (p + 2, i, target)
  else do
    let target ← target.store i [c]
    return some (p, i, target)

def urlEncode (source : Memory) (srcBytes : Int) (target : Buffer UInt8) (tgtBytes : Int) :
    Except Fault Outcome :=
  codec source srcBytes target tgtBytes (urlEncodeBody source tgtBytes)

def urlDecode (source : Memory) (srcBytes : Int) (target : Buffer UInt8) (tgtBytes : Int) :
    Except Fault Outcome :=
  codec source srcBytes target tgtBytes (urlDecodeBody source srcBytes)

/-! ## The text of a source -/

/-- From position `p` on the source has this text, free of NUL, up to its terminator or its
bound. -/
def Supplies (source : Memory) (srcBytes : Int) : Nat → List UInt8 → Prop
  | p, [] => source p = 0 ∨ (srcBytes ≠ -1 ∧ srcBytes ≤ p)
  | p, c :: rest => source p = c ∧ c ≠ 0 ∧ (srcBytes = -1 ∨ (p : Int) < srcBytes) ∧
      Supplies source srcBytes (p + 1) rest

section Loops

variable {source : Memory} {srcBytes tgtBytes : Int} {body : Body} {p i fuel : Nat}
  {target : Buffer UInt8}

theorem Supplies.continues {c : UInt8} {rest : List UInt8}
    (supplies : Supplies source srcBytes p (c :: rest)) (room : (i : Int) < tgtBytes) :
    Continues source srcBytes tgtBytes p i := by
  obtain ⟨here, nonzero, bound, -⟩ := supplies
  exact ⟨here ▸ nonzero, bound, room⟩

theorem Supplies.ended (supplies : Supplies source srcBytes p []) :
    ¬Continues source srcBytes tgtBytes p i := by
  rintro ⟨nonzero, bound, -⟩
  rcases supplies with zero | ⟨bounded, behind⟩
  · exact nonzero zero
  · omega

theorem codecLoop_stop (ended : ¬Continues source srcBytes tgtBytes p i) :
    codecLoop source srcBytes tgtBytes body fuel p i target = .ok ⟨p, i, 0, target⟩ := by
  unfold codecLoop
  exact if_neg ended

theorem codecLoop_break (continues : Continues source srcBytes tgtBytes p i)
    (broken : body p i target = .ok none) :
    codecLoop source srcBytes tgtBytes body (fuel + 1) p i target = .ok ⟨p, i, -1, target⟩ := by
  rw [codecLoop, if_pos continues]
  simp only [broken, Except.bind]

theorem codecLoop_next (continues : Continues source srcBytes tgtBytes p i)
    {p' i' : Nat} {target' : Buffer UInt8}
    (next : body p i target = .ok (some (p', i', target'))) :
    codecLoop source srcBytes tgtBytes body (fuel + 1) p i target =
      codecLoop source srcBytes tgtBytes body fuel (p' + 1) (i' + 1) target' := by
  rw [codecLoop, if_pos continues]
  simp only [next, Except.bind]

end Loops

end CLibs.UrlCodec

/-!
## What encoding writes

A character is copied, becomes `+` or becomes an escape of three bytes.  A target that is full ends
the loop as the end of the text does: whether it is noticed depends on whether an escape is cut or
the part of the text before the bound fills the target to the last byte.
-/

namespace CLibs.UrlCodec

open List

/-! ## The encoding of a text -/

/-- What stands for a character in the encoded text. -/
def escapeOf (c : UInt8) : List UInt8 :=
  if unreserved c then [c]
  else if c = 0x20 then [0x2B]
  else [0x25, BaseCodecs.entry sEncode ((c >>> 4) &&& 0xF), BaseCodecs.entry sEncode (c &&& 0xF)]

def encoding (text : List UInt8) : List UInt8 := text.flatMap escapeOf

/-- The number of bytes that stand for a character. -/
def width (c : UInt8) : Nat := if unreserved c || c == 0x20 then 1 else 3

/-- The length of the encoded text. -/
def room (text : List UInt8) : Nat := (text.map width).sum

/-- Unreserved characters, `+` and `%XX`. -/
inductive UrlForm : List UInt8 → Prop
  | nil : UrlForm []
  | kept (c : UInt8) (rest : List UInt8) : unreserved c → UrlForm rest → UrlForm (c :: rest)
  | plus (rest : List UInt8) : UrlForm rest → UrlForm (0x2B :: rest)
  | escape (high low : UInt8) (rest : List UInt8) : charIshex high → charIshex low →
      UrlForm rest → UrlForm (0x25 :: high :: low :: rest)

theorem escapeOf_length (c : UInt8) : (escapeOf c).length = width c := by
  unfold escapeOf width
  split
  · next plain => simp [plain]
  · next escaped => split <;> simp [*]

@[simp] theorem encoding_nil : encoding [] = [] := rfl

@[simp] theorem encoding_cons (c : UInt8) (rest : List UInt8) :
    encoding (c :: rest) = escapeOf c ++ encoding rest := rfl

@[simp] theorem room_nil : room [] = 0 := rfl

@[simp] theorem room_cons (c : UInt8) (rest : List UInt8) :
    room (c :: rest) = width c + room rest := by
  simp [room]

theorem encoding_length (text : List UInt8) : (encoding text).length = room text := by
  induction text with
  | nil => rfl
  | cons c rest ih => simp [escapeOf_length, ih]

theorem width_cases (c : UInt8) : width c = 1 ∨ width c = 3 := by
  unfold width
  split
  · exact .inl rfl
  · exact .inr rfl

theorem width_pos (c : UInt8) : 0 < width c := by
  rcases width_cases c with one | three <;> omega

theorem length_le_room (text : List UInt8) : text.length ≤ room text := by
  induction text with
  | nil => exact Nat.zero_le _
  | cons c rest ih =>
    have positive := width_pos c
    rw [length_cons, room_cons]
    omega

theorem digits_read (c : UInt8) :
    charIshex (BaseCodecs.entry sEncode ((c >>> 4) &&& 0xF)) ∧
      charIshex (BaseCodecs.entry sEncode (c &&& 0xF)) ∧
      hex (BaseCodecs.entry sEncode ((c >>> 4) &&& 0xF)) <<< 4 |||
        hex (BaseCodecs.entry sEncode (c &&& 0xF)) = c := by
  obtain ⟨n⟩ := c
  obtain ⟨n⟩ := n
  revert n
  decide +kernel

/-! ## What encoding does -/

section Encoding

variable {source : Memory} {srcBytes tgtBytes : Int} {p i : Nat} {target : Buffer UInt8}
  {done : List UInt8}

theorem urlEncodeBody_next {c : UInt8} (here : source p = c) (limit : tgtBytes ≤ intMax)
    (size : target.size = tgtBytes.toNat) (fits : done.length + width c ≤ tgtBytes.toNat)
    (holds : target.Holds 0 done) :
    ∃ target', urlEncodeBody source tgtBytes p done.length target =
        .ok (some (p, done.length + width c - 1, target')) ∧
      target'.Holds 0 (done ++ escapeOf c) ∧ target'.size = target.size := by
  subst here
  have next : done.length = 0 + done.length := (Nat.zero_add _).symm
  by_cases plain : unreserved (source p)
  · have one : width (source p) = 1 := by simp [width, plain]
    rw [one] at fits
    have kept := holds.extend [source p] next (by rw [size]; exact fits)
    refine ⟨target.written done.length [source p], ?_, by simpa [escapeOf, plain] using kept, rfl⟩
    simp only [urlEncodeBody]
    rw [if_pos plain, Buffer.store_eq (by rw [size]; exact fits), one]
    rfl
  · by_cases blank : source p = 0x20
    · have one : width (source p) = 1 := by simp [width, blank]
      rw [one] at fits
      have kept := holds.extend [0x2B] next (by rw [size]; exact fits)
      refine ⟨target.written done.length [0x2B], ?_, ?_, rfl⟩
      · simp only [urlEncodeBody]
        rw [if_neg plain, if_pos blank, Buffer.store_eq (by rw [size]; exact fits), one]
        rfl
      · rw [escapeOf, if_neg plain, if_pos blank]
        exact kept
    · have three : width (source p) = 3 := by simp [width, plain, blank]
      rw [three] at fits
      refine ⟨((target.written done.length [0x25]).written (done.length + 1)
        [BaseCodecs.entry sEncode ((source p >>> 4) &&& 0xF)]).written (done.length + 2)
        [BaseCodecs.entry sEncode (source p &&& 0xF)], ?_, ?_, rfl⟩
      · simp only [urlEncodeBody]
        rw [if_neg plain, if_neg blank, check_eq (by omega), ok_bind, if_neg (by omega),
          Buffer.store_eq (by simp only [length_singleton]; omega), ok_bind,
          Buffer.store_eq (by simp only [length_singleton, Buffer.written_size]; omega),
          ok_bind,
          Buffer.store_eq (by simp only [length_singleton, Buffer.written_size]; omega), three]
        rfl
      · rw [escapeOf, if_neg plain, if_neg blank]
        have first := holds.extend [0x25] next (by simp only [length_singleton]; omega)
        have second := @Buffer.Holds.extend _ _ _ (done.length + 1) _ first
          [BaseCodecs.entry sEncode ((source p >>> 4) &&& 0xF)] (by simp)
          (by simp only [length_singleton, Buffer.written_size]; omega)
        have third := @Buffer.Holds.extend _ _ _ (done.length + 2) _ second
          [BaseCodecs.entry sEncode (source p &&& 0xF)] (by simp)
          (by simp only [length_singleton, Buffer.written_size]; omega)
        simpa using third

theorem urlEncodeBody_full {c : UInt8} (here : source p = c)
    (full : tgtBytes.toNat < i + width c) (room : i < tgtBytes.toNat) :
    urlEncodeBody source tgtBytes p i target =
      if (i : Int) + 2 ≤ intMax then .ok none else .error .assertion := by
  subst here
  have wide : ¬unreserved (source p) ∧ source p ≠ 0x20 := by
    constructor <;> intro narrow <;> simp [width, narrow] at full <;> omega
  have three : width (source p) = 3 := by simp [width, wide.1, wide.2]
  rw [three] at full
  simp only [urlEncodeBody]
  rw [if_neg wide.1, if_neg wide.2]
  by_cases small : (i : Int) + 2 ≤ intMax
  · rw [check_eq small, ok_bind, if_pos (by omega), if_pos small]
    rfl
  · rw [check_error small, if_neg small]
    rfl

theorem urlEncodeLoop_passes (limit : tgtBytes ≤ intMax) (first rest : List UInt8) :
    ∀ (p : Nat) (done : List UInt8) (target : Buffer UInt8) (fuel : Nat),
      Supplies source srcBytes p (first ++ rest) → target.size = tgtBytes.toNat →
      done.length + room first ≤ tgtBytes.toNat → target.Holds 0 done →
      ∃ p' target', Supplies source srcBytes p' rest ∧ target'.size = target.size ∧
        target'.Holds 0 (done ++ encoding first) ∧
        codecLoop source srcBytes tgtBytes (urlEncodeBody source tgtBytes)
            (first.length + fuel) p done.length target =
          codecLoop source srcBytes tgtBytes (urlEncodeBody source tgtBytes)
            fuel p' (done.length + room first) target' := by
  induction first with
  | nil =>
    intro p done target fuel supplies size _ holds
    exact ⟨p, target, supplies, rfl, by simpa using holds, by simp⟩
  | cons c first ih =>
    intro p done target fuel supplies size fits holds
    rw [room_cons] at fits
    have positive := width_pos c
    obtain ⟨written, next, held, same⟩ :=
      urlEncodeBody_next supplies.1 limit size (by omega) holds
    obtain ⟨p', target', supplied, sized, known, passed⟩ :=
      ih (p + 1) (done ++ escapeOf c) written fuel supplies.2.2.2 (same.trans size)
        (by rw [length_append, escapeOf_length]; omega) held
    refine ⟨p', target', supplied, sized.trans same, by simpa using known, ?_⟩
    rw [length_append, escapeOf_length] at passed
    rw [length_cons, Nat.add_right_comm,
      codecLoop_next (supplies.continues (by omega)) next,
      Nat.sub_add_cancel (by omega), passed, room_cons, Nat.add_assoc]
theorem cut_of_text (text : List UInt8) :
    ∀ limit, room text ≤ limit ∨ ∃ first c rest, text = first ++ c :: rest ∧
      room first ≤ limit ∧ limit < room first + width c := by
  induction text with
  | nil => exact fun limit => .inl (Nat.zero_le limit)
  | cons c text ih =>
    intro limit
    by_cases before : limit < width c
    · exact .inr ⟨[], c, text, rfl, Nat.zero_le limit, by simpa using before⟩
    · rcases ih (limit - width c) with whole | ⟨first, d, rest, same, start, behind⟩
      · exact .inl (by rw [room_cons]; omega)
      · refine .inr ⟨c :: first, d, rest, by rw [same]; rfl, ?_, ?_⟩ <;>
          rw [room_cons] <;> omega

end Encoding

/-! ## The two functions -/

section Functions

variable {source : Memory} {srcBytes tgtBytes : Int} {target : Buffer UInt8} {text : List UInt8}
  {body : Body}

theorem codec_of_loop {outcome : Outcome} {bytes : List UInt8}
    (looped : codecLoop source srcBytes tgtBytes body tgtBytes.toNat 0 0 target = .ok outcome)
    (size : outcome.target.size = tgtBytes.toNat) (holds : outcome.target.Holds 0 bytes)
    (behind : bytes.length = outcome.i) :
    ∃ final, codec source srcBytes target tgtBytes body = .ok { outcome with target := final } ∧
      final.Holds 0 bytes := by
  unfold codec
  rw [looped, ok_bind]
  by_cases spare : (outcome.i : Int) < tgtBytes
  · rw [Buffer.storeIf, if_pos spare,
      Buffer.store_eq (by simp only [length_singleton]; omega)]
    exact ⟨_, rfl, holds.written (.inl (by omega))⟩
  · rw [Buffer.storeIf, if_neg spare]
    exact ⟨outcome.target, rfl, holds⟩

/-- As much of the text as there is room for is encoded. -/
theorem urlEncode_part {first rest : List UInt8}
    (supplies : Supplies source srcBytes 0 (first ++ rest)) (limit : tgtBytes ≤ intMax)
    (size : target.size = tgtBytes.toNat) (fits : room first ≤ tgtBytes.toNat) :
    ∃ p written, Supplies source srcBytes p rest ∧ written.size = tgtBytes.toNat ∧
      written.Holds 0 (encoding first) ∧
      codecLoop source srcBytes tgtBytes (urlEncodeBody source tgtBytes) tgtBytes.toNat 0 0 target =
        codecLoop source srcBytes tgtBytes (urlEncodeBody source tgtBytes)
          (tgtBytes.toNat - first.length) p (room first) written := by
  obtain ⟨p, written, ended, sized, holds, passed⟩ :=
    urlEncodeLoop_passes limit first rest 0 [] target (tgtBytes.toNat - first.length) supplies size
      (by simpa using fits) (Buffer.holds_nil (Nat.zero_le _))
  have short := length_le_room first
  rw [Nat.add_sub_cancel' (by omega), length_nil, Nat.zero_add] at passed
  exact ⟨p, written, ended, sized.trans size, by simpa using holds, passed⟩

theorem urlEncode_stops {first rest : List UInt8}
    (supplies : Supplies source srcBytes 0 (first ++ rest)) (limit : tgtBytes ≤ intMax)
    (size : target.size = tgtBytes.toNat) (fits : room first ≤ tgtBytes.toNat)
    (past : rest = [] ∨ room first = tgtBytes.toNat) :
    ∃ outcome, urlEncode source srcBytes target tgtBytes = .ok outcome ∧
      outcome.result = room first ∧ outcome.target.Holds 0 (encoding first) := by
  obtain ⟨p, written, supplied, sized, holds, passed⟩ := urlEncode_part supplies limit size fits
  have ended : ¬Continues source srcBytes tgtBytes p (room first) := by
    rcases past with rfl | full
    · exact supplied.ended
    · rintro ⟨-, -, room⟩
      omega
  rw [codecLoop_stop ended] at passed
  obtain ⟨final, returned, held⟩ := codec_of_loop passed sized holds (encoding_length first)
  exact ⟨_, returned, rfl, held⟩

theorem urlEncode_fails {first rest : List UInt8} {c : UInt8}
    (supplies : Supplies source srcBytes 0 (first ++ c :: rest)) (limit : tgtBytes ≤ intMax)
    (size : target.size = tgtBytes.toNat) (fits : room first < tgtBytes.toNat)
    (full : tgtBytes.toNat < room first + width c) :
    ((room first : Int) + 2 ≤ intMax →
      ∃ outcome, urlEncode source srcBytes target tgtBytes = .ok outcome ∧ outcome.result = -1) ∧
    (¬(room first : Int) + 2 ≤ intMax →
      urlEncode source srcBytes target tgtBytes = .error .assertion) := by
  obtain ⟨p, written, supplied, sized, holds, passed⟩ :=
    urlEncode_part supplies limit size (Nat.le_of_lt fits)
  have short := length_le_room first
  obtain ⟨fuel, spare⟩ : ∃ fuel, tgtBytes.toNat - first.length = fuel + 1 :=
    ⟨tgtBytes.toNat - first.length - 1, by omega⟩
  have continues : Continues source srcBytes tgtBytes p (room first) :=
    supplied.continues (by omega)
  have body := @urlEncodeBody_full source tgtBytes p _ written _ supplied.1 full fits
  rw [spare] at passed
  constructor
  · intro small
    rw [if_pos small] at body
    rw [codecLoop_break continues body] at passed
    obtain ⟨final, result, -⟩ := codec_of_loop passed sized holds (encoding_length first)
    exact ⟨_, result, rfl⟩
  · intro large
    rw [if_neg large] at body
    rw [codecLoop, if_pos continues, body] at passed
    rw [urlEncode, codec, passed]
    rfl

end Functions

end CLibs.UrlCodec
