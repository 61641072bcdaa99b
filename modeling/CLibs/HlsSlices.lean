import CLibs.HlsScanning
import Mathlib.Data.List.Induction
import Mathlib.Data.List.TakeWhile

/-!
# The slices that the tag handlers get

`hls_parser_input` trims a line by lengths, but looks for the end of a tag name and for its
attributes with `strpbrk` and `strspn`, which go on behind the trimmed line.  Here both loops of the
parser are checked: that the assertion holds, that the slices given to the handlers lie within the
line, and that each NUL the handlers write falls within the line or the attribute it ends, or on the
byte behind.
-/

namespace CLibs.Hls

open List

/-! ## Slices of the text -/

structure Slice where
  start : Nat
  n : Nat

def Slice.stop (slice : Slice) : Nat := slice.start + slice.n

def Slice.bytes (slice : Slice) (memory : TextMemory) : List UInt8 :=
  (List.range slice.n).map fun i => memory (slice.start + i)

def trimFront (memory : TextMemory) (begin : List UInt8) : (n : Nat) → (s : Nat) → Slice
  | 0, s => ⟨s, 0⟩
  | n + 1, s => if found begin (memory s) then trimFront memory begin n (s + 1) else ⟨s, n + 1⟩

def trimBehind (memory : TextMemory) (behind : List UInt8) (s : Nat) : (n : Nat) → Nat
  | 0 => 0
  | n + 1 => if found behind (memory (s + n)) then trimBehind memory behind s n else n + 1

def strtrimAt (memory : TextMemory) (slice : Slice) (begin behind : List UInt8) : Slice :=
  let front := trimFront memory begin slice.n slice.start
  ⟨front.start, trimBehind memory behind front.start front.n⟩

/-- `strpbrk`, with so many bytes left in front of the NUL behind the text. -/
def strpbrkAt (memory : TextMemory) (set : List UInt8) : (left : Nat) → (s : Nat) → Option Nat
  | 0, _ => none
  | left + 1, s =>
    if memory s = 0 then none
    else if set.contains (memory s) then some s
    else strpbrkAt memory set left (s + 1)

def strspnAt (memory : TextMemory) (set : List UInt8) : (left : Nat) → (s : Nat) → Nat
  | 0, _ => 0
  | left + 1, s => if set.contains (memory s) then strspnAt memory set left (s + 1) + 1 else 0

/-- Accesses that are checked to lie within a slice. -/
def within (condition : Prop) [Decidable condition] : Except Fault Unit :=
  if condition then .ok () else .error .outside

def writeNul (memory : TextMemory) (slice : Slice) (place : Nat) : Except Fault TextMemory := do
  within (slice.start ≤ place ∧ place ≤ slice.stop)
  return fun i => if i = place then 0 else memory i

/-! ## Handlers -/

/-- `hls_attr_read` for a value of an attribute that is the slice `whole`. -/
def attrReadAt (memory : TextMemory) (whole value : Slice) (cls : Nat) :
    Except Fault (Int × TextMemory) := do
  if cls = attrString then
    let memory ← writeNul memory whole value.stop
    return (0, memory)
  else return (hlsAttrRead cls, memory)

def parseAttr (attrs : List HlsTagAttr) (ptr : Nat) (split : Split) (state : Int × TextMemory) :
    Except Fault (Int × TextMemory) :=
  let whole : Slice := ⟨ptr, split.n⟩
  let pair := strsplitAt state.2 ptr whole.stop (ascii "=") []
  let name := strtrimAt state.2 ⟨ptr, pair.n⟩ blanks blanks
  let value := strtrimAt state.2 ⟨pair.next, whole.stop - pair.next⟩ blanksAndQuotes blanksAndQuotes
  match attrs.find? fun attr => sameName (ascii attr.name) (name.bytes state.2) with
  | none => .ok state
  | some attr => attrReadAt state.2 whole value attr.cls

def parseAttrsAt (attrs : List HlsTagAttr) (memory : TextMemory) (data : Slice) :
    Except Fault (Int × TextMemory) :=
  hlsParseAttrsLoop id (parseAttr attrs) data.stop (data.n + 1) data.start (0, memory)

/-- What `hls_ext_inf` does to the text: the title behind the comma is ended. -/
def extInfAt (memory : TextMemory) (data : Slice) : Except Fault TextMemory :=
  let title := (strsplitAt memory data.start data.stop (ascii ",") (ascii "\"")).next
  let trimmed := strtrimAt memory ⟨title, data.stop - title⟩ blanksAndQuotes blanksAndQuotes
  writeNul memory ⟨title, data.stop - title⟩ trimmed.stop

/-- How a handler cuts its slice: `hls_ext_inf`, the ones with a list of attributes, and the
ones that only read. -/
inductive HandlerCuts
  | title
  | values (attrs : List HlsTagAttr)
  | nothing

def handlerCuts (tag : String) : HandlerCuts :=
  if tag = "EXTINF" then .title
  else if tag = "EXT-X-KEY" then .values sessionKeyAttrs
  else if tag = "EXT-X-MAP" then .values [⟨attrString, "URI"⟩, ⟨attrString, "BYTERANGE"⟩]
  else if tag = "EXT-X-DATERANGE" then
    .values [⟨attrString, "ID"⟩, ⟨attrString, "CLASS"⟩, ⟨attrString, "START-DATE"⟩,
      ⟨attrString, "END-DATE"⟩, ⟨attrFloat64, "DURATION"⟩, ⟨attrFloat64, "PLANNED-DURATION"⟩,
      ⟨attrStringBool, "END-ON-NEXT"⟩]
  else if tag = "EXT-X-MEDIA" then .values mediaAttrs
  else if tag = "EXT-X-STREAM-INF" then
    .values [⟨attrUint32, "BANDWIDTH"⟩, ⟨attrUint32, "AVERAGE-BANDWIDTH"⟩, ⟨attrString, "CODECS"⟩,
      ⟨attrString, "RESOLUTION"⟩, ⟨attrFloat64, "FRAME-RATE"⟩, ⟨attrString, "HDCP-LEVEL"⟩,
      ⟨attrString, "AUDIO"⟩, ⟨attrString, "VIDEO"⟩, ⟨attrString, "SUBTITLES"⟩,
      ⟨attrString, "CLOSED-CAPTIONS"⟩]
  else if tag = "EXT-X-I-FRAME-STREAM-INF" then .values iFrameStreamInfAttrs
  else if tag = "EXT-X-SESSION-DATA" then .values sessionDataAttrs
  else if tag = "EXT-X-SESSION-KEY" then .values sessionKeyAttrs
  else .nothing

def HandlerCuts.run (cuts : HandlerCuts) (memory : TextMemory) (data : Slice) :
    Except Fault TextMemory :=
  match cuts with
  | .title => extInfAt memory data
  | .values attrs => (parseAttrsAt attrs memory data).map Prod.snd
  | .nothing => .ok memory

/-! ## The parser -/

/-- The parser with the text it cuts into lines. -/
structure Parsing where
  memory : TextMemory
  parser : HlsParser

def colonAndBlanks : List UInt8 := ascii ": \t"

def nameEnds : List UInt8 := ascii ": \t\r\n"

section

-- Whether each request for memory, counted from the first, is granted.
variable (granted : Nat → Bool)

/-- `hls_parser_ontag`; the handler runs unless memory is refused before, or the tag is for the
other kind of playlist. -/
def ontagAt (state : Parsing) (tag attrs : Slice) : Except Fault Parsing := do
  let name := tag.bytes state.memory
  let result := hlsParserOntag granted state.parser name (attrs.bytes state.memory)
  match tagOf granted name with
  | none => return ⟨state.memory, result.2⟩
  | some row =>
    if result.1 = -enomem ∨ result.1 = -einval then return ⟨state.memory, result.2⟩
    else
      let memory ← (handlerCuts row.name).run state.memory attrs
      return ⟨memory, result.2⟩

def onuriAt (state : Parsing) (uri : Slice) : Except Fault Parsing := do
  let trimmed := strtrimAt state.memory uri blanks blanks
  let result := hlsParserOnuri state.parser
  if result.1 = 0 then
    let memory ← writeNul state.memory uri trimmed.stop
    return ⟨memory, result.2⟩
  else return ⟨state.memory, result.2⟩

def tagLine (last : Nat) (line : Slice) (state : Parsing) : Except Fault Parsing := do
  let attr := strpbrkAt state.memory nameEnds (last - line.start) line.start
  check (attr.all (· ≤ line.stop) = true)
  let ntag := attr.elim line.n (· - line.start)
  let attrs := attr.elim line.stop fun attr =>
    attr + strspnAt state.memory colonAndBlanks (last - attr) attr
  within (line.start ≤ attrs ∧ attrs ≤ line.stop)
  ontagAt granted state ⟨line.start, ntag⟩ ⟨attrs, line.stop - attrs⟩

def parserLine (last ptr : Nat) (split : Split) (state : Parsing) : Except Fault Parsing :=
  let line := strtrimAt state.memory ⟨ptr, split.n⟩ blanks blanks
  if line.n < 1 then .ok state
  else if state.memory line.start = 0x23 then
    if line.n ≤ 4 ∨ (Slice.mk line.start 4).bytes state.memory ≠ ascii "#EXT" then .ok state
    else tagLine granted last line state
  else do
    within (ptr ≤ line.start ∧ line.stop ≤ ptr + split.n)
    onuriAt state line

/-- `hls_parser_input` on the copy of a text, with the NUL behind it. -/
def hlsParserInputAt (playlist : Bool) (text : List UInt8) : Except Fault Parsing :=
  hlsParserInputLoop Parsing.memory (parserLine granted text.length) text.length (text.length + 1) 0
    ⟨fun i => text.getD i 0, .start playlist⟩

end

def linesOf (text : List UInt8) : List (List UInt8) :=
  if text = [] then []
  else
    let split := hlsStrsplit text lineEnds []
    split.1 :: linesOf split.2
termination_by text.length
decreasing_by exact hlsStrsplit_shorter ‹_› _ _

/-- A tag without attributes, and a blank behind it that is trimmed. -/
def BareTagWithBlank (line : List UInt8) : Prop :=
  (∃ name, classify (hlsStrtrim line blanks blanks) = .tag name []) ∧
    ∃ blank ∈ blanks, line.getLast? = some blank

/-! ## Writes stay in their slices -/

theorem trimFront_bounds (memory : TextMemory) (begin : List UInt8) (n s : Nat) :
    s ≤ (trimFront memory begin n s).start ∧ (trimFront memory begin n s).stop = s + n := by
  induction n generalizing s with
  | zero => simp [trimFront, Slice.stop]
  | succ n later =>
    unfold trimFront
    have bounds := later (s + 1)
    split
    · omega
    · simp [Slice.stop]

theorem trimBehind_le (memory : TextMemory) (behind : List UInt8) (s n : Nat) :
    trimBehind memory behind s n ≤ n := by
  induction n with
  | zero => exact Nat.le_refl 0
  | succ n later =>
    unfold trimBehind
    split <;> omega

theorem strtrimAt_bounds (memory : TextMemory) (slice : Slice) (begin behind : List UInt8) :
    slice.start ≤ (strtrimAt memory slice begin behind).start ∧
      (strtrimAt memory slice begin behind).stop ≤ slice.stop := by
  have front := trimFront_bounds memory begin slice.n slice.start
  have shorter := trimBehind_le memory behind (trimFront memory begin slice.n slice.start).start
    (trimFront memory begin slice.n slice.start).n
  unfold strtrimAt Slice.stop at *
  dsimp only
  omega

/-- The text has been changed by NULs within a slice, or right behind it, alone. -/
def CutIn (slice : Slice) (before after : TextMemory) : Prop :=
  ∀ i, after i = before i ∨ (slice.start ≤ i ∧ i ≤ slice.stop ∧ after i = 0)

theorem CutIn.refl (slice : Slice) (memory : TextMemory) : CutIn slice memory memory :=
  fun _ => .inl rfl

theorem CutIn.trans {slice : Slice} {first second third : TextMemory}
    (before : CutIn slice first second) (after : CutIn slice second third) :
    CutIn slice first third := by
  intro i
  rcases after i with same | cut
  · rw [same]
    exact before i
  · exact .inr cut

theorem CutIn.mono {inner outer : Slice} {before after : TextMemory} (cut : CutIn inner before after)
    (start : outer.start ≤ inner.start) (stop : inner.stop ≤ outer.stop) :
    CutIn outer before after := by
  intro i
  rcases cut i with same | ⟨low, high, zero⟩
  · exact .inl same
  · exact .inr ⟨by omega, by omega, zero⟩

theorem within_eq {condition : Prop} [Decidable condition] (holds : condition) :
    within condition = .ok () := if_pos holds

variable {memory : TextMemory}

theorem writeNul_yields {slice : Slice} {place : Nat} (low : slice.start ≤ place)
    (high : place ≤ slice.stop) :
    Yields (writeNul memory slice place) (CutIn slice memory) := by
  unfold writeNul
  apply Yields.step (within_eq ⟨low, high⟩)
  refine Yields.pure fun i => ?_
  by_cases here : i = place
  · subst here
    exact .inr ⟨low, high, if_pos rfl⟩
  · exact .inl (if_neg here)

/-- The end of a trimmed part of a slice lies in the slice. -/
theorem trimmed_stop {memory : TextMemory} {begin behind : List UInt8} {part whole : Slice}
    (start : whole.start ≤ part.start) (stop : part.stop ≤ whole.stop) :
    whole.start ≤ (strtrimAt memory part begin behind).stop ∧
      (strtrimAt memory part begin behind).stop ≤ whole.stop := by
  have bounds := strtrimAt_bounds memory part begin behind
  have forward : (strtrimAt memory part begin behind).start ≤
      (strtrimAt memory part begin behind).stop := Nat.le_add_right _ _
  omega

/-- What stands behind the first piece of a slice, trimmed, ends in the slice. -/
theorem behind_stop (memory : TextMemory) (whole : Slice) (delimiters quotes begin behind : List UInt8)
    {next : Nat} (split : next = (strsplitAt memory whole.start whole.stop delimiters quotes).next) :
    whole.start ≤ next ∧ (Slice.mk next (whole.stop - next)).stop = whole.stop ∧
      next ≤ (strtrimAt memory ⟨next, whole.stop - next⟩ begin behind).stop ∧
      (strtrimAt memory ⟨next, whole.stop - next⟩ begin behind).stop ≤ whole.stop := by
  have bounds := strsplitAt_bounds memory delimiters quotes
    (show whole.start ≤ whole.stop from Nat.le_add_right _ _)
  rw [← split] at bounds
  have stop := @trimmed_stop memory begin behind ⟨next, whole.stop - next⟩
    ⟨next, whole.stop - next⟩ (Nat.le_refl _) (Nat.le_refl _)
  have rest : (Slice.mk next (whole.stop - next)).stop = whole.stop := by
    change next + (whole.stop - next) = whole.stop
    omega
  rw [rest] at stop
  exact ⟨by omega, rest, stop⟩

theorem parseAttr_yields (attrs : List HlsTagAttr) (ptr : Nat) (split : Split)
    (state : Int × TextMemory) :
    Yields (parseAttr attrs ptr split state) fun next =>
      CutIn ⟨ptr, split.n⟩ state.2 next.2 := by
  unfold parseAttr
  dsimp only
  cases attrs.find? _ with
  | none => exact Yields.pure (CutIn.refl _ _)
  | some attr =>
    have stop := behind_stop state.2 ⟨ptr, split.n⟩ (ascii "=") [] blanksAndQuotes
      blanksAndQuotes rfl
    dsimp only
    unfold attrReadAt
    apply Yields.ite
    · intro _
      apply (writeNul_yields (Nat.le_trans stop.1 stop.2.2.1) stop.2.2.2).bind
      intro memory cut
      exact Yields.pure cut
    · intro _
      exact Yields.pure (CutIn.refl _ _)

theorem parseAttrsAt_yields (attrs : List HlsTagAttr) (memory : TextMemory) (data : Slice) :
    Yields (parseAttrsAt attrs memory data) fun result => CutIn data memory result.2 := by
  refine @scanLoop_yields (Int × TextMemory) _ _ _ _ _ data.start _
    (fun state => CutIn data memory state.2) ?_ _ _ ?_ (Nat.le_refl _) _ (CutIn.refl data memory)
  · intro ptr state start inside cut
    have split := strsplitAt_bounds state.2 (ascii ",") (ascii "\"") inside.le
    apply (parseAttr_yields attrs ptr _ state).mono
    intro next further
    exact cut.trans (further.mono start (Nat.le_trans split.1 split.2))
  · unfold Slice.stop
    omega

theorem extInfAt_yields (memory : TextMemory) (data : Slice) :
    Yields (extInfAt memory data) (CutIn data memory) := by
  have stop := behind_stop memory data (ascii ",") (ascii "\"") blanksAndQuotes blanksAndQuotes rfl
  unfold extInfAt
  apply (writeNul_yields stop.2.2.1 (Nat.le_trans stop.2.2.2 (Nat.le_of_eq stop.2.1.symm))).mono
  intro after cut
  exact cut.mono stop.1 (Nat.le_of_eq stop.2.1)

theorem HandlerCuts.run_yields (cuts : HandlerCuts) (memory : TextMemory) (data : Slice) :
    Yields (cuts.run memory data) (CutIn data memory) := by
  cases cuts with
  | title => exact extInfAt_yields memory data
  | values attrs =>
    obtain ⟨result, returned, cut⟩ := parseAttrsAt_yields attrs memory data
    exact ⟨result.2, by rw [run, returned]; rfl, cut⟩
  | nothing => exact Yields.pure (CutIn.refl _ _)

theorem ontagAt_yields (granted : Nat → Bool) (state : Parsing) (tag attrs : Slice) :
    Yields (ontagAt granted state tag attrs) fun next =>
      CutIn attrs state.memory next.memory := by
  unfold ontagAt
  dsimp only
  cases tagOf granted (tag.bytes state.memory) with
  | none => exact Yields.pure (CutIn.refl _ _)
  | some row =>
    apply Yields.ite
    · intro _
      exact Yields.pure (CutIn.refl _ _)
    · intro _
      apply ((handlerCuts row.name).run_yields state.memory attrs).bind
      intro memory cut
      exact Yields.pure cut

theorem onuriAt_yields (state : Parsing) (uri : Slice) :
    Yields (onuriAt state uri) fun next => CutIn uri state.memory next.memory := by
  have stop := @trimmed_stop state.memory blanks blanks uri uri (Nat.le_refl _) (Nat.le_refl _)
  unfold onuriAt
  dsimp only
  apply Yields.ite
  · intro _
    apply (writeNul_yields stop.1 stop.2).bind
    intro memory cut
    exact Yields.pure cut
  · intro _
    exact Yields.pure (CutIn.refl _ _)

/-! ## What stands in the text -/

/-- From a position on there is a text, and then only NULs. -/
def Reads (memory : TextMemory) (p : Nat) (text : List UInt8) : Prop :=
  ∀ i, memory (p + i) = text.getD i 0

section

variable {memory : TextMemory} {p : Nat} {text : List UInt8}

variable {c : UInt8}

theorem Reads.head (reads : Reads memory p (c :: text)) : memory p = c := reads 0

theorem Reads.tail (reads : Reads memory p (c :: text)) : Reads memory (p + 1) text := by
  intro i
  rw [Nat.add_assoc, Nat.add_comm 1]
  exact reads (i + 1)

theorem Reads.behind {first : List UInt8} (reads : Reads memory p (first ++ text)) :
    Reads memory (p + first.length) text := by
  intro i
  rw [Nat.add_assoc, reads, getD_eq_getElem?_getD, getD_eq_getElem?_getD,
    List.getElem?_append_right (Nat.le_add_right _ _), Nat.add_sub_cancel_left]

theorem scanAt_reads (reads : Reads memory p text) (delimiters quotes : List UInt8) (q : UInt8) :
    scanAt memory delimiters quotes text.length q p =
      p + (splitFrom delimiters quotes q text).1.length := by
  induction text generalizing p q with
  | nil => rfl
  | cons c text later =>
    rw [length_cons, scanAt, splitFrom, reads.head]
    split
    · rfl
    split
    · rw [later reads.tail, length_cons]
      omega
    split
    · rfl
    · rw [later reads.tail, length_cons]
      omega

theorem skipAt_reads (reads : Reads memory p text) (delimiters : List UInt8) :
    skipAt memory delimiters text.length p =
      p + (text.takeWhile (found delimiters)).length := by
  induction text generalizing p with
  | nil => rfl
  | cons c text later =>
    rw [length_cons, skipAt, reads.head, takeWhile_cons]
    split
    · rw [later reads.tail, length_cons]
      omega
    · rfl

/-- A split in place is the split of the text from there on. -/
theorem strsplitAt_reads (reads : Reads memory p text) (delimiters quotes : List UInt8) :
    (strsplitAt memory p (p + text.length) delimiters quotes).n =
        (hlsStrsplit text delimiters quotes).1.length ∧
      (strsplitAt memory p (p + text.length) delimiters quotes).next +
        (hlsStrsplit text delimiters quotes).2.length = p + text.length ∧
      Reads memory (strsplitAt memory p (p + text.length) delimiters quotes).next
        (hlsStrsplit text delimiters quotes).2 := by
  have whole := splitFrom_eq delimiters quotes 0 text
  unfold strsplitAt hlsStrsplit
  dsimp only
  rw [Nat.add_sub_cancel_left, scanAt_reads reads, Nat.add_sub_cancel_left]
  generalize splitFrom delimiters quotes 0 text = pieces at whole ⊢
  obtain ⟨first, second⟩ := pieces
  dsimp only at whole ⊢
  subst whole
  have split := takeWhile_append_dropWhile (p := found delimiters) (l := second)
  have length := congrArg List.length split
  rw [length_append] at length ⊢
  rw [Nat.add_sub_add_left, Nat.add_sub_cancel_left, skipAt_reads reads.behind]
  refine ⟨rfl, by omega, ?_⟩
  have rest := reads.behind
  rw [← split] at rest
  exact rest.behind

variable {line : List UInt8}

theorem trimFront_reads (reads : Reads memory p (line ++ text)) (begin : List UInt8) :
    trimFront memory begin line.length p =
      ⟨p + (line.takeWhile (found begin)).length, (line.dropWhile (found begin)).length⟩ := by
  induction line generalizing p with
  | nil => rfl
  | cons c line later =>
    rw [length_cons, trimFront, reads.head, takeWhile_cons, dropWhile_cons]
    split
    · rw [later reads.tail, length_cons, Nat.add_assoc, Nat.add_comm 1]
    · rfl

theorem trimBehind_reads (reads : Reads memory p (line ++ text)) (behind : List UInt8) :
    trimBehind memory behind p line.length = (line.rdropWhile (found behind)).length := by
  induction line using List.reverseRecOn generalizing text with
  | nil => rfl
  | append_singleton line c later =>
    have last : memory (p + line.length) = c := by
      rw [append_assoc] at reads
      exact reads.behind.head
    rw [length_append, length_singleton, trimBehind, last, rdropWhile_concat]
    split
    · rw [append_assoc] at reads
      exact later reads
    · rw [length_append, length_singleton]

theorem strpbrkAt_reads (reads : Reads memory p text) (clean : 0 ∉ text) (set : List UInt8) :
    strpbrkAt memory set text.length p =
      if (text.takeWhile fun c => !set.contains c).length < text.length then
        some (p + (text.takeWhile fun c => !set.contains c).length)
      else none := by
  induction text generalizing p with
  | nil => rfl
  | cons c text later =>
    have nonzero : c ≠ 0 := fun zero => clean (by simp [zero])
    rw [length_cons, strpbrkAt, reads.head, if_neg nonzero, takeWhile_cons]
    cases member : set.contains c with
    | true => simp
    | false =>
      simp only [Bool.false_eq_true, if_false, Bool.not_false, if_true, length_cons,
        Nat.add_lt_add_iff_right]
      rw [later reads.tail fun zero => clean (mem_cons_of_mem _ zero)]
      split
      · congr 1
        omega
      · rfl

theorem strspnAt_reads (reads : Reads memory p text) (set : List UInt8) :
    strspnAt memory set text.length p = (text.takeWhile set.contains).length := by
  induction text generalizing p with
  | nil => rfl
  | cons c text later =>
    rw [length_cons, strspnAt, reads.head, takeWhile_cons]
    split
    · rw [later reads.tail, length_cons]
    · rfl

theorem bytes_reads {n : Nat} (reads : Reads memory p text) (inside : n ≤ text.length) :
    (Slice.mk p n).bytes memory = text.take n := by
  apply ext_getElem
  · simp [Slice.bytes, inside]
  · intro i first second
    have bound : i < n := by simpa [Slice.bytes] using first
    simp [Slice.bytes, reads i, List.getElem?_eq_getElem (Nat.lt_of_lt_of_le bound inside)]

end

/-! ## One line -/

/-- Taking from the front stops at the second part, if it begins with a byte that stops it. -/
theorem takeWhile_stops {keeps : UInt8 → Bool} {first second : List UInt8}
    (stops : ∀ c ∈ second.head?, keeps c = false) :
    (first ++ second).takeWhile keeps = first.takeWhile keeps := by
  induction first with
  | nil =>
    cases second with
    | nil => rfl
    | cons c second => exact takeWhile_cons_of_neg (by simp [stops c rfl])
  | cons c first later => rw [cons_append, takeWhile_cons, takeWhile_cons, later]

def trailOf (line : List UInt8) : List UInt8 :=
  (line.dropWhile (found blanks)).rtakeWhile (found blanks)

theorem line_parts (line : List UInt8) :
    line = line.takeWhile (found blanks) ++ (hlsStrtrim line blanks blanks ++ trailOf line) := by
  rw [hlsStrtrim, trailOf, rdropWhile_append_rtakeWhile, takeWhile_append_dropWhile]

theorem mem_trailOf (clean : 0 ∉ line) (member : c ∈ trailOf line) :
    c ∈ blanks := by
  have inside : c ∈ line := by
    rw [line_parts line]
    simp [member]
  have blank := mem_rtakeWhile_imp member
  have nonzero : c ≠ 0 := fun zero => clean (zero ▸ inside)
  simpa [found, nonzero] using blank

/-- A line with something on it has blanks trimmed behind it if it ends with a blank. -/
theorem trailOf_ne_nil_iff (clean : 0 ∉ line) (present : hlsStrtrim line blanks blanks ≠ []) :
    trailOf line ≠ [] ↔ ∃ blank ∈ blanks, line.getLast? = some blank := by
  have parts := line_parts line
  constructor
  · intro trail
    refine ⟨(trailOf line).getLast trail, mem_trailOf clean (getLast_mem trail), ?_⟩
    have last := congrArg List.getLast? parts
    rw [List.getLast?_append, List.getLast?_append, List.getLast?_eq_some_getLast trail] at last
    simpa using last
  · rintro ⟨blank, member, last⟩ none
    rw [none, append_nil] at parts
    rw [parts, List.getLast?_append, List.getLast?_eq_some_getLast present] at last
    have same : (hlsStrtrim line blanks blanks).getLast present = blank := by simpa using last
    have kept := rdropWhile_last_not (found blanks) _ present
    exact kept (by
      change found blanks ((hlsStrtrim line blanks blanks).getLast present) = true
      rw [same]
      simp [found, member])

variable {behind : List UInt8}

/-- A trimmed line is found where it stands. -/
theorem strtrimAt_reads {p : Nat} (reads : Reads memory p (line ++ behind)) :
    strtrimAt memory ⟨p, line.length⟩ blanks blanks =
        ⟨p + (line.takeWhile (found blanks)).length, (hlsStrtrim line blanks blanks).length⟩ ∧
      Reads memory (p + (line.takeWhile (found blanks)).length)
        (hlsStrtrim line blanks blanks ++ (trailOf line ++ behind)) := by
  have parts := reads
  rw [line_parts line, append_assoc, append_assoc] at parts
  have core := parts.behind
  have split : line.dropWhile (found blanks) = hlsStrtrim line blanks blanks ++ trailOf line :=
    rdropWhile_append_rtakeWhile.symm
  refine ⟨?_, core⟩
  rw [← append_assoc, ← split] at core
  unfold strtrimAt
  dsimp only
  rw [trimFront_reads reads]
  dsimp only
  rw [trimBehind_reads core]
  rfl

variable {text : List UInt8}

/-- What stands behind a line begins with a line end, if there is anything. -/
theorem behind_line (clean : 0 ∉ text) :
    ∀ c ∈ (splitFrom lineEnds [] 0 text).2.head?, c ∈ lineEnds := by
  intro c member
  cases stopped : (splitFrom lineEnds [] 0 text).2 with
  | nil => simp [stopped] at member
  | cons first rest =>
    have same : first = c := by simpa [stopped] using member
    subst same
    have whole := splitFrom_eq lineEnds [] 0 text
    have nonzero : first ≠ 0 := by
      rintro rfl
      exact clean (by rw [← whole, stopped]; simp)
    simpa [found, nonzero] using splitFrom_stops _ _ _ _ _ _ stopped

/-! ## Tags -/

def nameOf (trimmed : List UInt8) : List UInt8 := trimmed.takeWhile fun c => !nameEnds.contains c

def remainderOf (trimmed : List UInt8) : List UInt8 := trimmed.dropWhile fun c => !nameEnds.contains c

theorem name_remainder (trimmed : List UInt8) : nameOf trimmed ++ remainderOf trimmed = trimmed :=
  takeWhile_append_dropWhile

structure TagPlaces (memory : TextMemory) (last : Nat) (line : Slice) (attrs : Nat) : Prop where
  name : ∀ attr ∈ strpbrkAt memory nameEnds (last - line.start) line.start, attr ≤ line.stop
  attrs : (strpbrkAt memory nameEnds (last - line.start) line.start).elim line.stop
    (fun attr => attr + strspnAt memory colonAndBlanks (last - attr) attr) = attrs

/-- The attributes are found behind the colons and blanks that follow the name, up to the line
end. -/
theorem tagPlaces {start : Nat} {trimmed rest : List UInt8}
    (reads : Reads memory start (trimmed ++ rest)) (clean : 0 ∉ trimmed ++ rest)
    (ends : ∀ c ∈ rest.head?, c ∈ nameEnds) :
    TagPlaces memory (start + (trimmed ++ rest).length) ⟨start, trimmed.length⟩
      (start + (nameOf trimmed).length +
        ((remainderOf trimmed ++ rest).takeWhile colonAndBlanks.contains).length) := by
  have name : (trimmed ++ rest).takeWhile (fun c => !nameEnds.contains c) = nameOf trimmed :=
    takeWhile_stops fun c first => by simp [ends c first]
  have parts := congrArg List.length (name_remainder trimmed)
  rw [length_append] at parts
  have found := strpbrkAt_reads reads clean nameEnds
  rw [name] at found
  constructor
  case name =>
    intro attr member
    dsimp only at member
    rw [Nat.add_sub_cancel_left, found] at member
    split at member
    · cases member
      simp only [Slice.stop]
      omega
    · cases member
  case attrs =>
    dsimp only
    rw [Nat.add_sub_cancel_left, found]
    split
    · have behind := reads
      rw [← name_remainder trimmed, append_assoc] at behind
      have spans := strspnAt_reads behind.behind colonAndBlanks
      have left : start + (trimmed ++ rest).length - (start + (nameOf trimmed).length) =
          (remainderOf trimmed ++ rest).length := by
        rw [length_append, length_append]
        omega
      rw [Option.elim_some, left, spans]
    · rename_i whole
      rw [length_append] at whole
      have remainder : remainderOf trimmed = [] := eq_nil_of_length_eq_zero (by omega)
      have nothing : rest = [] := eq_nil_of_length_eq_zero (by omega)
      rw [Option.elim_none, remainder, nothing]
      simp only [Slice.stop, append_nil, takeWhile_nil, length_nil]
      omega

/-- The attributes begin in the trimmed line unless nothing but colons and blanks is left of it,
and blanks follow. -/
theorem attrs_inside_iff {trimmed trail behind : List UInt8} (blank : ∀ c ∈ trail, c ∈ blanks)
    (ends : ∀ c ∈ behind.head?, c ∈ lineEnds) :
    (nameOf trimmed).length +
        ((remainderOf trimmed ++ (trail ++ behind)).takeWhile colonAndBlanks.contains).length ≤
      trimmed.length ↔
      ¬((remainderOf trimmed).dropWhile colonAndBlanks.contains = [] ∧ trail ≠ []) := by
  have parts := congrArg List.length (name_remainder trimmed)
  rw [length_append] at parts
  have split := congrArg List.length (takeWhile_append_dropWhile
    (p := colonAndBlanks.contains) (l := remainderOf trimmed))
  rw [length_append] at split
  rw [takeWhile_append]
  split
  · rename_i whole
    have bare : (remainderOf trimmed).dropWhile colonAndBlanks.contains = [] :=
      eq_nil_of_length_eq_zero (by omega)
    rw [length_append]
    cases trail with
    | nil =>
      have stops : behind.takeWhile colonAndBlanks.contains = [] := by
        cases behind with
        | nil => rfl
        | cons c behind =>
          have lineEnd := ends c rfl
          have table : ∀ c ∈ lineEnds, ¬colonAndBlanks.contains c = true := by decide +kernel
          exact takeWhile_cons_of_neg (table c lineEnd)
      rw [nil_append, stops, length_nil]
      simp only [ne_eq, not_true_eq_false, and_false, not_false_eq_true, iff_true]
      omega
    | cons c trail =>
      have table : ∀ c ∈ blanks, colonAndBlanks.contains c = true := by decide +kernel
      rw [cons_append, takeWhile_cons_of_pos (table c (blank c (by simp))),
        length_cons]
      simp only [bare, ne_eq, reduceCtorEq, not_false_eq_true, and_self, not_true_eq_false,
        iff_false]
      omega
  · rename_i early
    have more : (remainderOf trimmed).dropWhile colonAndBlanks.contains ≠ [] := by
      intro bare
      rw [bare, length_nil] at split
      exact early split
    simp only [more, false_and, not_false_eq_true, iff_true]
    omega

variable {last : Nat} {state : Parsing}

theorem tagLine_eq (granted : Nat → Bool) {attrs : Nat} {line : Slice}
    (places : TagPlaces state.memory last line attrs) :
    ∃ ntag, tagLine granted last line state =
      (within (line.start ≤ attrs ∧ attrs ≤ line.stop) >>= fun _ =>
        ontagAt granted state ⟨line.start, ntag⟩ ⟨attrs, line.stop - attrs⟩) := by
  have asserted : (strpbrkAt state.memory nameEnds (last - line.start) line.start).all
      (· ≤ line.stop) = true := by
    rw [Option.all_eq_true]
    exact fun attr member => by simpa using places.name attr member
  unfold tagLine
  dsimp only
  rw [check_eq asserted, ok_bind, places.attrs]
  exact ⟨_, rfl⟩

theorem classify_bare_iff (trimmed : List UInt8) :
    (∃ name, classify trimmed = .tag name []) ↔
      trimmed.head? = some 0x23 ∧ ¬(trimmed.length ≤ 4 ∨ trimmed.take 4 ≠ ascii "#EXT") ∧
        (remainderOf trimmed).dropWhile colonAndBlanks.contains = [] := by
  unfold classify
  split
  · simp [*]
  split
  · split
    · simp [*]
    · constructor
      · rintro ⟨_, same⟩
        exact ⟨‹_›, ‹_›, (HlsLine.tag.inj same).2⟩
      · rintro ⟨_, _, bare⟩
        exact ⟨_, congrArg (HlsLine.tag _) bare⟩
  · simp [*]

variable {ptr : Nat}

/-- One turn of the parser: it fails on a bare tag with a blank, and otherwise writes NULs within
the line alone. -/
theorem parserLine_turn (granted : Nat → Bool) {split : Split}
    (reads : Reads state.memory ptr (line ++ behind)) (clean : 0 ∉ line ++ behind)
    (ends : ∀ c ∈ behind.head?, c ∈ lineEnds) (whole : last = ptr + (line ++ behind).length)
    (length : split.n = line.length) :
    (BareTagWithBlank line → parserLine granted last ptr split state = .error .outside) ∧
      (¬BareTagWithBlank line → Yields (parserLine granted last ptr split state) fun next =>
        CutIn ⟨ptr, split.n⟩ state.memory next.memory) := by
  obtain ⟨trim, standing⟩ := strtrimAt_reads reads
  have parts := congrArg List.length (line_parts line)
  rw [length_append, length_append] at parts
  have cleanLine : 0 ∉ line := fun zero => clean (mem_append_left _ zero)
  have cleanRest : 0 ∉ hlsStrtrim line blanks blanks ++ (trailOf line ++ behind) := by
    rw [line_parts line] at clean
    simp only [mem_append, not_or] at clean ⊢
    exact ⟨clean.1.2.1, clean.1.2.2, clean.2⟩
  have trailEnds : ∀ c ∈ (trailOf line ++ behind).head?, c ∈ nameEnds := by
    have table : ∀ c ∈ blanks ++ lineEnds, c ∈ nameEnds := by decide +kernel
    intro c first
    cases trail : trailOf line with
    | nil =>
      rw [trail, nil_append] at first
      exact table c (mem_append_right _ (ends c first))
    | cons blank trail' =>
      have same : blank = c := by simpa [trail] using first
      subst same
      exact table blank (mem_append_left _ (mem_trailOf cleanLine (by simp [trail])))
  have bareIff : BareTagWithBlank line ↔
      (∃ name, classify (hlsStrtrim line blanks blanks) = .tag name []) ∧ trailOf line ≠ [] := by
    unfold BareTagWithBlank
    refine and_congr_right fun bare => (trailOf_ne_nil_iff cleanLine ?_).symm
    rintro nothing
    rw [nothing] at bare
    obtain ⟨_, tag⟩ := bare
    exact absurd tag (by simp [classify])
  rw [bareIff, classify_bare_iff]
  have places := tagPlaces standing cleanRest trailEnds
  have insideIff := @attrs_inside_iff (hlsStrtrim line blanks blanks) (trailOf line) behind
    (fun c member => mem_trailOf cleanLine member) ends
  have lastEq : last = ptr + (line.takeWhile (found blanks)).length +
      (hlsStrtrim line blanks blanks ++ (trailOf line ++ behind)).length := by
    rw [whole, length_append, length_append, length_append]
    omega
  rw [← lastEq] at places
  unfold parserLine
  rw [length, trim]
  dsimp only
  generalize hlsStrtrim line blanks blanks = trimmed at *
  cases trimmed with
  | nil =>
    rw [if_pos (by simp)]
    exact ⟨fun bare => (by simp at bare), fun _ => Yields.pure (CutIn.refl _ _)⟩
  | cons c trimmed =>
    have first : state.memory (ptr + (line.takeWhile (found blanks)).length) = c := standing.head
    rw [if_neg (by simp), first]
    by_cases hash : c = 0x23
    · subst hash
      rw [if_pos rfl]
      by_cases comment : (0x23 :: trimmed).length ≤ 4 ∨ (0x23 :: trimmed).take 4 ≠ ascii "#EXT"
      · have passed : (0x23 :: trimmed).length ≤ 4 ∨
            (Slice.mk (ptr + (line.takeWhile (found blanks)).length) 4).bytes state.memory ≠
              ascii "#EXT" := by
          rcases comment with short | other
          · exact .inl short
          · by_cases short : (0x23 :: trimmed).length ≤ 4
            · exact .inl short
            · rw [bytes_reads standing (by rw [length_append]; omega),
                take_append_of_le_length (by omega)]
              exact .inr other
        rw [if_pos passed]
        exact ⟨fun bare => absurd comment bare.1.2.1, fun _ => Yields.pure (CutIn.refl _ _)⟩
      · rw [bytes_reads standing (by rw [length_append]; omega),
          take_append_of_le_length (by omega), if_neg comment]
        obtain ⟨ntag, tag⟩ := tagLine_eq granted places
        rw [tag]
        constructor
        · rintro ⟨⟨_, _, bare⟩, trail⟩
          have outside := mt insideIff.mp (not_not.mpr ⟨bare, trail⟩)
          unfold within Slice.stop
          rw [if_neg (by dsimp only; omega)]
          rfl
        · intro good
          have inside := insideIff.mpr fun bare => good ⟨⟨rfl, comment, bare.1⟩, bare.2⟩
          apply Yields.step (within_eq (by unfold Slice.stop; dsimp only; omega))
          apply (ontagAt_yields granted state _ _).mono
          intro next cut
          exact cut.mono (by dsimp only; omega) (by unfold Slice.stop; dsimp only; omega)
    · rw [if_neg hash]
      refine ⟨fun bare => absurd bare.1.1 (by simp [hash]), fun _ => ?_⟩
      apply Yields.step (within_eq (by unfold Slice.stop; dsimp only; omega))
      apply (onuriAt_yields state _).mono
      intro next cut
      exact cut.mono (by dsimp only; omega) (by unfold Slice.stop; dsimp only; omega)

/-! ## All lines -/

/-- NULs up to the byte behind a line leave the text that the next turn reads. -/
theorem CutIn.reads_next {before after : TextMemory} {next : Nat}
    (cut : CutIn ⟨ptr, line.length⟩ before after) (ends : ∀ c ∈ behind.head?, c ∈ lineEnds)
    (place : next + (behind.dropWhile (found lineEnds)).length = ptr + (line ++ behind).length)
    (reads : Reads before next (behind.dropWhile (found lineEnds))) :
    Reads after next (behind.dropWhile (found lineEnds)) := by
  rw [length_append] at place
  intro i
  rcases cut (next + i) with same | ⟨_, high, zero⟩
  · rw [same]
    exact reads i
  · cases behind with
    | nil => exact zero
    | cons c behind =>
      have lineEnd : found lineEnds c = true := by simp [found, ends c rfl]
      have shorter := (dropWhile_sublist (found lineEnds) (l := behind)).length_le
      rw [dropWhile_cons_of_pos lineEnd, length_cons] at place
      change next + i ≤ ptr + line.length at high
      omega

theorem linesOf_cons (present : text ≠ []) :
    linesOf text =
      (hlsStrsplit text lineEnds []).1 :: linesOf (hlsStrsplit text lineEnds []).2 := by
  rw [linesOf, if_neg present]

/-- The loop from any line on. -/
theorem inputLoop_returns_iff (granted : Nat → Bool) {fuel : Nat} (enough : text.length < fuel)
    (reads : Reads state.memory ptr text) (clean : 0 ∉ text) (whole : last = ptr + text.length) :
    (∃ final, hlsParserInputLoop Parsing.memory (parserLine granted last) last fuel ptr state =
        .ok final) ↔
      ∀ line ∈ linesOf text, ¬BareTagWithBlank line := by
  induction fuel generalizing ptr text state with
  | zero => omega
  | succ fuel later =>
    unfold hlsParserInputLoop scanLoop
    by_cases present : text = []
    · subst present
      rw [if_neg (by simp [whole]), linesOf]
      simp
    · have positive := length_pos_of_ne_nil present
      rw [if_pos ⟨by omega, rfl⟩, linesOf_cons present]
      dsimp only
      have pieces := splitFrom_eq lineEnds [] 0 text
      have ends := behind_line clean
      have shorter := hlsStrsplit_shorter present lineEnds []
      obtain ⟨length, place, next⟩ := strsplitAt_reads reads lineEnds []
      rw [← whole] at length place next
      unfold hlsStrsplit at length place next shorter ⊢
      dsimp only at length place next shorter ⊢
      generalize strsplitAt state.memory ptr last lineEnds [] = split at *
      generalize splitFrom lineEnds [] 0 text = scanned at *
      obtain ⟨line, behind⟩ := scanned
      dsimp only at *
      subst pieces
      have turn := parserLine_turn granted reads clean ends whole length
      rw [forall_mem_cons]
      by_cases bare : BareTagWithBlank line
      · rw [turn.1 bare]
        refine iff_of_false ?_ fun good => good.1 bare
        rintro ⟨_, failed⟩
        cases failed
      · obtain ⟨state', returned, cut⟩ := turn.2 bare
        rw [returned]
        rw [length] at cut
        have cleanNext : 0 ∉ behind.dropWhile (found lineEnds) := fun zero =>
          clean (mem_append_right _ ((dropWhile_sublist _).mem zero))
        have rest := later (by omega)
          (cut.reads_next ends (by rw [place, whole]) next) cleanNext place.symm
        exact rest.trans ⟨fun lines => ⟨bare, lines⟩, fun good => good.2⟩

/-- On a text without NUL bytes every slice, and every NUL that is written, stays in its line and
its attribute, unless a tag with nothing but colons and blanks behind it has a blank at the end of
its line. -/
theorem hls_slices_inside_iff (granted : Nat → Bool) (playlist : Bool) {text : List UInt8}
    (clean : 0 ∉ text) :
    (∃ final, hlsParserInputAt granted playlist text = .ok final) ↔
      ∀ line ∈ linesOf text, ¬BareTagWithBlank line :=
  inputLoop_returns_iff granted (Nat.lt_succ_self _) (fun i => by rw [Nat.zero_add]) clean
    (Nat.zero_add _).symm

/-- A playlist with two lines. -/
theorem hls_slices_inside_two :
    ∃ final, hlsParserInputAt (fun _ => true) true (ascii "#EXTINF: 9,a \nb.ts") = .ok final := by
  refine (hls_slices_inside_iff (fun _ => true) true (by decide +kernel)).mpr ?_
  have lines : linesOf (ascii "#EXTINF: 9,a \nb.ts") = [ascii "#EXTINF: 9,a ", ascii "b.ts"] := by
    rw [linesOf_cons (by decide +kernel), linesOf_cons (by decide +kernel), linesOf]
    decide +kernel
  have values : classify (hlsStrtrim (ascii "#EXTINF: 9,a ") blanks blanks) =
      .tag (ascii "#EXTINF") (ascii "9,a") := by decide +kernel
  have uri : classify (hlsStrtrim (ascii "b.ts") blanks blanks) = .uri (ascii "b.ts") := by decide +kernel
  rw [lines]
  simp only [forall_mem_cons, BareTagWithBlank, values, uri]
  simp [ascii]

/-- A bare tag with a blank behind it: the length of its attributes is negative. -/
theorem hls_slices_not_inside :
    0 ∉ ascii "#EXT-X-ENDLIST \n" ∧
      hlsParserInputAt (fun _ => true) true (ascii "#EXT-X-ENDLIST \n") = .error .outside :=
  ⟨by decide +kernel, rfl⟩

end CLibs.Hls
