import CLibs.HlsParser

/-!
# The errors of the HLS parser

`hls_parser_input` keeps the result of one line only, the last tag line or URI line.  An error is
reported if that line fails, and lost if a line behind it succeeds.
-/

namespace CLibs.Hls

open List

variable {memory : Nat → Bool} {parser next : HlsParser} {name attrs data text : List UInt8}
  {line : HlsLine} {playlist : Bool} {r : Int}

/-! ## Attribute lists -/

theorem hlsParseAttrs_result (table : List HlsTagAttr)
    (known : ∀ attr ∈ table, hlsAttrRead attr.cls = 0) (data : List UInt8) :
    (hlsParseAttrs table data).1 = 0 := by
  fun_induction hlsParseAttrs table data with
  | case1 => rfl
  | case2 data nonempty split pair name missing ih => exact ih
  | case3 data nonempty split pair name value attr here failed =>
    exact absurd (known attr (mem_of_find?_eq_some here)) failed
  | case4 data nonempty split pair name value attr here worked rest ih => exact ih

theorem hlsExtAttrs_result (table : List HlsTagAttr)
    (known : ∀ attr ∈ table, hlsAttrRead attr.cls = 0) :
    (hlsExtAttrs table parser data).1 = 0 := hlsParseAttrs_result table known data

/-! ## Which lines fail -/

def Refused (memory : Nat → Bool) (capacity len request : Nat) : Prop :=
  capacity ≤ len ∧ memory request = false

def HlsParser.opened (parser : HlsParser) : Bool :=
  if parser.playlist then parser.segment else parser.variant

def HlsParser.capacity (parser : HlsParser) : Nat :=
  if parser.playlist then parser.segmentCapacity else parser.variantCapacity

def HlsParser.count (parser : HlsParser) : Nat :=
  if parser.playlist then parser.segmentCount else parser.variantCount

/-- The number of the request that a handler makes, behind the one for the segment or the
variant. -/
def HlsParser.nextRequest (parser : HlsParser) : Nat :=
  if parser.opened = false ∧ parser.capacity ≤ parser.count then parser.requests + 1
  else parser.requests

/-- The entry that a tag of a master playlist adds is refused. -/
def EntryRefused (memory : Nat → Bool) (parser : HlsParser) (name : String) : Prop :=
  (name = "EXT-X-MEDIA" ∧ Refused memory parser.mediaCapacity parser.mediaCount parser.nextRequest) ∨
    (name = "EXT-X-I-FRAME-STREAM-INF" ∧ (parser.variant && parser.iFrameStreamInf) = false ∧
      memory parser.nextRequest = false) ∨
    (name = "EXT-X-SESSION-DATA" ∧
      Refused memory parser.sessionDataCapacity parser.sessionDataCount parser.nextRequest) ∨
    (name = "EXT-X-SESSION-KEY" ∧
      Refused memory parser.sessionKeyCapacity parser.sessionKeyCount parser.nextRequest)

/-- The parser stops at this line. -/
def LineFails (memory : Nat → Bool) (parser : HlsParser) : HlsLine → Prop
  | .blank => False
  | .comment => False
  | .tag name _ =>
    (parser.opened = false ∧ Refused memory parser.capacity parser.count parser.requests) ∨
      ∃ row, tagOf memory name = some row ∧
        (row.cls.foreign parser.playlist ∨ EntryRefused memory parser row.name)
  | .uri _ => parser.opened = false

theorem hlsParserRealloc_none {capacity len : Nat} (incr : Nat)
    (refused : Refused memory capacity len parser.requests) :
    ∃ next, hlsParserRealloc memory capacity len incr parser = (none, next) := by
  unfold hlsParserRealloc
  rw [if_pos refused.1, if_neg (by rw [refused.2]; decide)]
  exact ⟨_, rfl⟩

theorem hlsParserRealloc_some {capacity len : Nat} (incr : Nat)
    (granted : ¬Refused memory capacity len parser.requests) :
    ∃ larger, hlsParserRealloc memory capacity len incr parser = (some larger, { parser with
      requests := if capacity ≤ len then parser.requests + 1 else parser.requests }) := by
  unfold hlsParserRealloc
  by_cases full : capacity ≤ len
  · have given : memory parser.requests = true := by
      rw [← Bool.not_eq_false]
      exact fun missing => granted ⟨full, missing⟩
    rw [if_pos full, if_pos given, if_pos full]
    exact ⟨_, rfl⟩
  · rw [if_neg full, if_neg full]
    exact ⟨_, rfl⟩

/-! ## One tag -/

/-- The parser behind a fetch that works, as far as the handlers depend on it. -/
structure Fetched (parser next : HlsParser) : Prop where
  playlist : next.playlist = parser.playlist
  requests : next.requests = parser.nextRequest
  mediaCapacity : next.mediaCapacity = parser.mediaCapacity
  mediaCount : next.mediaCount = parser.mediaCount
  dataCapacity : next.sessionDataCapacity = parser.sessionDataCapacity
  dataCount : next.sessionDataCount = parser.sessionDataCount
  keyCapacity : next.sessionKeyCapacity = parser.sessionKeyCapacity
  keyCount : next.sessionKeyCount = parser.sessionKeyCount
  iFrameStreamInf : parser.playlist = false →
    next.iFrameStreamInf = (parser.variant && parser.iFrameStreamInf)

theorem hlsParserFetch_refused (closed : parser.opened = false)
    (refused : Refused memory parser.capacity parser.count parser.requests) :
    ∃ next, hlsParserFetch memory parser = (-enomem, next) := by
  unfold HlsParser.opened at closed
  unfold HlsParser.capacity HlsParser.count at refused
  unfold hlsParserFetch
  cases kind : parser.playlist with
  | true =>
    simp only [kind, if_true] at closed refused
    obtain ⟨next, none⟩ := hlsParserRealloc_none 8 refused
    rw [if_pos rfl, hlsParserFetchSegment, closed, if_neg (by decide), none]
    exact ⟨next, rfl⟩
  | false =>
    simp only [kind, Bool.false_eq_true, if_false] at closed refused
    obtain ⟨next, none⟩ := hlsParserRealloc_none 4 refused
    rw [if_neg (by decide), hlsParserFetchVariant, closed, if_neg (by decide), none]
    exact ⟨next, rfl⟩

theorem hlsParserFetch_granted (granted : parser.opened = false →
    ¬Refused memory parser.capacity parser.count parser.requests) :
    ∃ next, hlsParserFetch memory parser = (0, next) ∧ Fetched parser next := by
  unfold HlsParser.opened HlsParser.capacity HlsParser.count at granted
  unfold hlsParserFetch
  cases kind : parser.playlist with
  | true =>
    simp only [kind, if_true] at granted
    rw [if_pos rfl, hlsParserFetchSegment]
    cases opened : parser.segment with
    | true =>
      refine ⟨parser, if_pos rfl, rfl, ?_, rfl, rfl, rfl, rfl, rfl, rfl, ?_⟩
      · simp [HlsParser.nextRequest, HlsParser.opened, kind, opened]
      · simp [kind]
    | false =>
      obtain ⟨larger, some⟩ := hlsParserRealloc_some 8 (granted opened)
      rw [if_neg (by decide), some]
      refine ⟨_, rfl, rfl, ?_, rfl, rfl, rfl, rfl, rfl, rfl, ?_⟩
      · simp [HlsParser.nextRequest, HlsParser.opened, HlsParser.capacity, HlsParser.count,
          kind, opened]
      · simp [kind]
  | false =>
    simp only [kind, Bool.false_eq_true, if_false] at granted
    rw [if_neg (by decide), hlsParserFetchVariant]
    cases opened : parser.variant with
    | true =>
      refine ⟨parser, if_pos rfl, rfl, ?_, rfl, rfl, rfl, rfl, rfl, rfl, ?_⟩
      · simp [HlsParser.nextRequest, HlsParser.opened, kind, opened]
      · simp [opened]
    | false =>
      obtain ⟨larger, some⟩ := hlsParserRealloc_some 4 (granted opened)
      rw [if_neg (by decide), some]
      refine ⟨_, rfl, rfl, ?_, rfl, rfl, rfl, rfl, rfl, rfl, ?_⟩
      · simp [HlsParser.nextRequest, HlsParser.opened, HlsParser.capacity, HlsParser.count,
          kind, opened]
      · simp [opened]

def entryTags : List String :=
  ["EXT-X-MEDIA", "EXT-X-I-FRAME-STREAM-INF", "EXT-X-SESSION-DATA", "EXT-X-SESSION-KEY"]

theorem not_entryRefused {name : String} (other : name ∉ entryTags) :
    ¬EntryRefused memory parser name := by
  simp only [entryTags, mem_cons, not_mem_nil, or_false, not_or] at other
  rintro (⟨same, -⟩ | ⟨same, -⟩ | ⟨same, -⟩ | ⟨same, -⟩)
  · exact other.1 same
  · exact other.2.1 same
  · exact other.2.2.1 same
  · exact other.2.2.2 same

theorem enomem_ne : -enomem ≠ 0 := by decide

theorem einval_ne : -einval ≠ 0 := by decide

theorem grown_result {capacity len incr : Nat} {handle : Nat → HlsParser → Int × HlsParser}
    (works : ∀ larger next, (handle larger next).1 = 0) :
    (match hlsParserRealloc memory capacity len incr next with
      | (none, next) => (-enomem, next)
      | (some larger, next) => handle larger next).1 = 0 ↔
      ¬Refused memory capacity len next.requests := by
  by_cases refused : Refused memory capacity len next.requests
  · obtain ⟨last, none⟩ := hlsParserRealloc_none incr refused
    rw [none]
    exact iff_of_false enomem_ne (not_not_intro refused)
  · obtain ⟨larger, some⟩ := hlsParserRealloc_some incr refused
    rw [some]
    exact iff_of_true (works _ _) refused

theorem hlsExtXMedia_result (fetched : Fetched parser next) :
    (hlsExtXMedia memory next data).1 = 0 ↔ ¬EntryRefused memory parser "EXT-X-MEDIA" := by
  have entry : EntryRefused memory parser "EXT-X-MEDIA" ↔
      Refused memory next.mediaCapacity next.mediaCount next.requests := by
    rw [fetched.mediaCapacity, fetched.mediaCount, fetched.requests]
    simp [EntryRefused]
  rw [entry]
  exact grown_result fun _ _ => hlsExtAttrs_result _ (by decide)

theorem hlsExtXIFrameStreamInf_result (fetched : Fetched parser next)
    (master : parser.playlist = false) :
    (hlsExtXIFrameStreamInf memory next data).1 = 0 ↔
      ¬EntryRefused memory parser "EXT-X-I-FRAME-STREAM-INF" := by
  have entry : EntryRefused memory parser "EXT-X-I-FRAME-STREAM-INF" ↔
      next.iFrameStreamInf = false ∧ memory next.requests = false := by
    rw [fetched.iFrameStreamInf master, fetched.requests]
    simp [EntryRefused]
  rw [entry]
  unfold hlsExtXIFrameStreamInf request
  cases held : next.iFrameStreamInf with
  | true =>
    rw [if_pos rfl]
    exact iff_of_true (hlsExtAttrs_result _ (by decide)) (by simp)
  | false =>
    rw [if_neg (by decide)]
    cases given : memory next.requests with
    | true => exact iff_of_true (hlsExtAttrs_result _ (by decide)) (by simp)
    | false => exact iff_of_false enomem_ne (by simp)

theorem hlsExtXSessionData_result (fetched : Fetched parser next) :
    (hlsExtXSessionData memory next data).1 = 0 ↔
      ¬EntryRefused memory parser "EXT-X-SESSION-DATA" := by
  have entry : EntryRefused memory parser "EXT-X-SESSION-DATA" ↔
      Refused memory next.sessionDataCapacity next.sessionDataCount next.requests := by
    rw [fetched.dataCapacity, fetched.dataCount, fetched.requests]
    simp [EntryRefused]
  rw [entry]
  exact grown_result fun _ _ => hlsExtAttrs_result _ (by decide)

theorem hlsExtXSessionKey_result (fetched : Fetched parser next) :
    (hlsExtXSessionKey memory next data).1 = 0 ↔
      ¬EntryRefused memory parser "EXT-X-SESSION-KEY" := by
  have entry : EntryRefused memory parser "EXT-X-SESSION-KEY" ↔
      Refused memory next.sessionKeyCapacity next.sessionKeyCount next.requests := by
    rw [fetched.keyCapacity, fetched.keyCount, fetched.requests]
    simp [EntryRefused]
  rw [entry]
  refine grown_result fun larger next => ?_
  dsimp only
  rw [if_neg (not_not_intro (hlsParseAttrs_result sessionKeyAttrs (by decide) data))]

theorem sTags_result (fetched : Fetched parser next) {row : HlsTag} (listed : row ∈ sTags memory)
    (own : row.cls.foreign parser.playlist = false) :
    (row.parser next attrs).1 = 0 ↔ ¬EntryRefused memory parser row.name := by
  have stores : ∀ cls : TagClass, ∀ name, name ∉ entryTags →
      (((HlsTag.mk cls name hlsExtStore).parser next attrs).1 = 0 ↔
        ¬EntryRefused memory parser name) :=
    fun _ name other => iff_of_true rfl (not_entryRefused other)
  have lists : ∀ cls : TagClass, ∀ name, ∀ table : List HlsTagAttr, name ∉ entryTags →
      (∀ attr ∈ table, hlsAttrRead attr.cls = 0) →
        (((HlsTag.mk cls name (hlsExtAttrs table)).parser next attrs).1 = 0 ↔
          ¬EntryRefused memory parser name) :=
    fun _ name table other known =>
      iff_of_true (hlsExtAttrs_result table known) (not_entryRefused other)
  simp only [sTags, mem_cons, not_mem_nil, or_false] at listed
  rcases listed with rfl | rfl | rfl | rfl | rfl | rfl | rfl | rfl | rfl | rfl | rfl | rfl | rfl |
    rfl | rfl | rfl | rfl | rfl | rfl | rfl | rfl
  · exact stores _ _ (by decide)
  · exact stores _ _ (by decide)
  · exact stores _ _ (by decide)
  · exact lists _ _ _ (by decide) (by decide)
  · exact lists _ _ _ (by decide) (by decide)
  · exact stores _ _ (by decide)
  · exact lists _ _ _ (by decide) (by decide)
  · exact stores _ _ (by decide)
  · exact stores _ _ (by decide)
  · exact stores _ _ (by decide)
  · exact stores _ _ (by decide)
  · exact stores _ _ (by decide)
  · exact stores _ _ (by decide)
  · exact hlsExtXMedia_result fetched
  · exact lists _ _ _ (by decide) (by decide)
  · refine hlsExtXIFrameStreamInf_result fetched ?_
    simpa [TagClass.foreign] using own
  · exact hlsExtXSessionData_result fetched
  · exact hlsExtXSessionKey_result fetched
  · exact stores _ _ (by decide)
  · exact stores _ _ (by decide)
  · exact stores _ _ (by decide)

/-! ## One line -/

theorem hlsParserOntag_result :
    (hlsParserOntag memory parser name attrs).1 = 0 ↔
      ¬LineFails memory parser (.tag name attrs) := by
  unfold hlsParserOntag
  by_cases refused : parser.opened = false ∧
      Refused memory parser.capacity parser.count parser.requests
  · obtain ⟨next, failed⟩ := hlsParserFetch_refused refused.1 refused.2
    rw [failed]
    dsimp only
    rw [if_pos enomem_ne]
    exact iff_of_false enomem_ne (not_not_intro (.inl refused))
  · obtain ⟨next, works, fetched⟩ :=
      hlsParserFetch_granted fun closed full => refused ⟨closed, full⟩
    rw [works]
    dsimp only
    rw [if_neg (not_not_intro rfl)]
    cases here : tagOf memory name with
    | none =>
      refine iff_of_true rfl ?_
      rintro (full | ⟨row, same, -⟩)
      · exact refused full
      · rw [here] at same
        cases same
    | some row =>
      have meaning : LineFails memory parser (.tag name attrs) ↔
          (row.cls.foreign parser.playlist ∨ EntryRefused memory parser row.name) := by
        constructor
        · rintro (full | ⟨other, same, fails⟩)
          · exact absurd full refused
          · rw [here] at same
            cases same
            exact fails
        · exact fun fails => .inr ⟨row, here, fails⟩
      rw [meaning]
      dsimp only
      split
      · next foreign => exact iff_of_false einval_ne (not_not_intro (.inl foreign))
      · next own =>
          rw [Bool.not_eq_true] at own
          rw [sTags_result fetched (mem_of_find?_eq_some here) own, own]
          simp

theorem hlsParserOnuri_result {uri : List UInt8} :
    (hlsParserOnuri parser).1 = 0 ↔ ¬LineFails memory parser (.uri uri) := by
  unfold LineFails HlsParser.opened hlsParserOnuri
  cases parser.playlist with
  | true =>
    cases parser.segment with
    | true => simp
    | false => simp
  | false =>
    cases parser.variant with
    | true => simp
    | false => simp

theorem hlsParserLine_result {result : Int × HlsParser}
    (processed : hlsParserLine memory parser line = some result) :
    result.1 = 0 ↔ ¬LineFails memory parser line := by
  cases line with
  | blank => cases processed
  | comment => cases processed
  | tag name attrs =>
    cases processed
    exact hlsParserOntag_result
  | uri text =>
    cases processed
    exact hlsParserOnuri_result

/-! ## All lines -/

structure HlsStep where
  parser : HlsParser
  line : HlsLine
  result : Int

/-- The tag lines and URI lines of a text, in order. -/
def hlsSteps (memory : Nat → Bool) (parser : HlsParser) (text : List UInt8) : List HlsStep :=
  if text = [] then []
  else
    match hlsParserLine memory parser (nextLine text).1 with
    | none => hlsSteps memory parser (nextLine text).2
    | some result =>
      ⟨parser, (nextLine text).1, result.1⟩ :: hlsSteps memory result.2 (nextLine text).2
termination_by text.length
decreasing_by
  all_goals exact hlsStrsplit_shorter ‹_› _ _

theorem hlsSteps_result (memory : Nat → Bool) (parser : HlsParser) (text : List UInt8) :
    ∀ step ∈ hlsSteps memory parser text,
      step.result = 0 ↔ ¬LineFails memory step.parser step.line := by
  fun_induction hlsSteps memory parser text with
  | case1 => simp
  | case2 parser text nonempty passed ih => exact ih
  | case3 parser text nonempty result processed ih =>
    exact forall_mem_cons.mpr ⟨hlsParserLine_result processed, ih⟩

theorem hlsParserInput_last (memory : Nat → Bool) (parser : HlsParser) (text : List UInt8) (r : Int) :
    (hlsParserInput memory parser r text).1 =
      (((hlsSteps memory parser text).map HlsStep.result).getLast?).getD r := by
  fun_induction hlsSteps memory parser text generalizing r with
  | case1 parser =>
    unfold hlsParserInput
    rw [if_pos rfl]
    rfl
  | case2 parser text nonempty passed ih =>
    unfold hlsParserInput
    rw [if_neg nonempty, passed]
    exact ih r
  | case3 parser text nonempty result processed ih =>
    unfold hlsParserInput
    rw [if_neg nonempty, processed, map_cons, List.getLast?_cons, Option.getD_some]
    exact ih result.1

/-- `0` is returned only if every line was processed without an error. -/
def ReportsErrors (memory : Nat → Bool) (playlist : Bool) (parse : List UInt8 → Int)
    (text : List UInt8) : Prop :=
  parse text = 0 → ∀ step ∈ hlsSteps memory (.start playlist) text, step.result = 0

/-- There is no error, or one in the line whose result is returned, or no memory to begin with. -/
def LastErrorStands (memory : Nat → Bool) (playlist : Bool) (text : List UInt8) : Prop :=
  memory 0 = false ∨
    (∀ step ∈ hlsSteps memory (.start playlist) text, ¬LineFails memory step.parser step.line) ∨
    ∃ last, (hlsSteps memory (.start playlist) text).getLast? = some last ∧
      LineFails memory last.parser last.line

theorem hlsParse_reports_iff (memory : Nat → Bool) (playlist : Bool) (text : List UInt8) :
    ReportsErrors memory playlist (hlsParse memory playlist) text ↔
      LastErrorStands memory playlist text := by
  have results := hlsSteps_result memory (.start playlist) text
  have returned := hlsParserInput_last memory (.start playlist) text 0
  unfold ReportsErrors LastErrorStands hlsParse
  cases granted : memory 0 with
  | false =>
    rw [if_neg (by decide)]
    exact iff_of_true (fun none => absurd none enomem_ne) (.inl rfl)
  | true =>
    rw [if_pos rfl, returned, List.getLast?_map]
    cases final : (hlsSteps memory (.start playlist) text).getLast? with
    | none =>
      rw [List.getLast?_eq_none_iff] at final
      rw [final]
      simp
    | some last =>
      have listed := mem_of_getLast? final
      rw [Option.map_some, Option.getD_some, results last listed]
      constructor
      · intro reported
        by_cases fails : LineFails memory last.parser last.line
        · exact .inr (.inr ⟨last, rfl, fails⟩)
        · refine .inr (.inl fun step member => ?_)
          exact (results step member).mp (reported fails step member)
      · rintro (refused | quiet | ⟨other, same, fails⟩) worked step member
        · cases refused
        · exact (results step member).mpr (quiet step member)
        · cases same
          exact absurd fails worked

/-- `hls_playlist_parse` and `hls_master_parse` report the errors of a text exactly if there
are none, or the last tag line or URI line is in error, or there is no memory to begin with. -/
theorem hls_parse_reports_iff (memory : Nat → Bool) (text : List UInt8) :
    (ReportsErrors memory true (hlsPlaylistParse memory) text ↔ LastErrorStands memory true text) ∧
      (ReportsErrors memory false (hlsMasterParse memory) text ↔
        LastErrorStands memory false text) :=
  ⟨hlsParse_reports_iff memory true text, hlsParse_reports_iff memory false text⟩

/-- A tag of master playlists, and a segment behind it. -/
theorem hls_playlist_parse_loses_error :
    ¬∀ memory text, ReportsErrors memory true (hlsPlaylistParse memory) text := by
  intro reports
  have returned : hlsPlaylistParse (fun _ => true)
      (ascii "#EXT-X-MEDIA:TYPE=AUDIO\n#EXTINF:1,\na.ts\n") = 0 := by
    decide +kernel
  have results : (hlsSteps (fun _ => true) (.start true)
      (ascii "#EXT-X-MEDIA:TYPE=AUDIO\n#EXTINF:1,\na.ts\n")).map HlsStep.result = [-22, 0, 0] := by
    decide +kernel
  have all := reports _ _ returned
  rw [← forall_mem_map (P := fun r => r = 0), results] at all
  exact absurd (all (-22) mem_cons_self) (by decide)

end CLibs.Hls
