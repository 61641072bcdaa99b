import Mathlib.Data.List.DropRight

/-!
# The HLS playlist parser

`hls_playlist_parse` and `hls_master_parse` walk over a copy of the text, line by line. A tag line
is looked up in `s_tags`, and any other line is the URI of the segment, or the variant, that the
tags before it have opened.

The handlers also store what they read, cut the strings in place and convert the numbers.  Each such
write stays at or before the end of its own line, which is not read again, and no result depends on
it: here a handler is what it returns and which entries it opens.  Behind a bare tag with blanks the
length of the attributes is negative, and there are none.  Assertions are compiled out, as the one
that can fail stands before a `return -1`.
-/

namespace CLibs.Hls

def ascii (text : String) : List UInt8 := text.toList.map fun c => UInt8.ofNat c.toNat

/-! ## Strings -/

/-- `strchr(set, c)`, which also finds the NUL behind the set. -/
def found (set : List UInt8) (c : UInt8) : Bool := c == 0 || set.contains c

def hlsStrtrim (text begin behind : List UInt8) : List UInt8 :=
  (text.dropWhile (found begin)).rdropWhile (found behind)

/-- The scan of `hls_strsplit` inside the quotes `q`, or outside of any if it is `0`: what is
passed over, and the text from where it stops. -/
def splitFrom (delimiters quotes : List UInt8) : (q : UInt8) → List UInt8 → List UInt8 × List UInt8
  | _, [] => ([], [])
  | q, c :: rest =>
    if c = 0 then ([], c :: rest)
    else if q ≠ 0 then
      let scanned := splitFrom delimiters quotes (if q = c then 0 else q) rest
      (c :: scanned.1, scanned.2)
    else if delimiters.contains c then ([], c :: rest)
    else
      let scanned := splitFrom delimiters quotes (if quotes.contains c then c else 0) rest
      (c :: scanned.1, scanned.2)

def hlsStrsplit (text delimiters quotes : List UInt8) : List UInt8 × List UInt8 :=
  let scanned := splitFrom delimiters quotes 0 text
  (scanned.1, scanned.2.dropWhile (found delimiters))

theorem splitFrom_eq (delimiters quotes : List UInt8) (q : UInt8) (text : List UInt8) :
    (splitFrom delimiters quotes q text).1 ++ (splitFrom delimiters quotes q text).2 = text := by
  induction text generalizing q with
  | nil => rfl
  | cons c rest ih =>
    unfold splitFrom
    split
    · rfl
    split
    · rw [List.cons_append, ih]
    split
    · rfl
    · rw [List.cons_append, ih]

theorem splitFrom_stops (delimiters quotes : List UInt8) (q : UInt8) (text : List UInt8) (c : UInt8)
    (rest : List UInt8) (stopped : (splitFrom delimiters quotes q text).2 = c :: rest) :
    found delimiters c = true := by
  induction text generalizing q with
  | nil => cases stopped
  | cons first text ih =>
    unfold splitFrom at stopped
    split at stopped
    · cases stopped
      simp [found, *]
    split at stopped
    · exact ih _ stopped
    split at stopped
    · cases stopped
      simp_all [found]
    · exact ih _ stopped

theorem hlsStrsplit_shorter {text : List UInt8} (nonempty : text ≠ []) (delimiters quotes : List UInt8) :
    (hlsStrsplit text delimiters quotes).2.length < text.length := by
  have whole := congrArg List.length (splitFrom_eq delimiters quotes 0 text)
  rw [List.length_append] at whole
  unfold hlsStrsplit
  dsimp only
  cases stop : (splitFrom delimiters quotes 0 text).2 with
  | nil =>
    rw [List.dropWhile_nil]
    exact List.length_pos_of_ne_nil nonempty
  | cons c rest =>
    rw [List.dropWhile_cons_of_pos (splitFrom_stops _ _ _ _ _ _ stop)]
    have shorter := (List.dropWhile_sublist (found delimiters) (l := rest)).length_le
    rw [stop, List.length_cons] at whole
    omega

def lower (c : UInt8) : UInt8 := if 0x41 ≤ c ∧ c ≤ 0x5a then c + 0x20 else c

/-- Equal lengths and `0 == strncasecmp` over them. -/
def sameName (name text : List UInt8) : Bool := name.map lower == text.map lower

def blanks : List UInt8 := ascii " \t"

def blanksAndQuotes : List UInt8 := ascii " \t'\""

/-! ## Attribute lists -/

def attrUint32 : Nat := 0
def attrUint64 : Nat := 1
def attrFloat32 : Nat := 2
def attrFloat64 : Nat := 3
def attrString : Nat := 4
def attrStringBool : Nat := 5

structure HlsTagAttr where
  cls : Nat
  name : String

/-- The result of `hls_attr_read`, which knows the six classes. -/
def hlsAttrRead (cls : Nat) : Int :=
  if cls = attrStringBool then 0
  else if cls = attrUint32 ∨ cls = attrUint64 ∨ cls = attrFloat32 ∨ cls = attrFloat64 ∨
    cls = attrString then 0
  else -1

/-- The attributes that are read, each with the bytes of its value, and the result. -/
def hlsParseAttrs (attrs : List HlsTagAttr) (data : List UInt8) : Int × List (String × List UInt8) :=
  if data = [] then (0, [])
  else
    let split := hlsStrsplit data (ascii ",") (ascii "\"")
    let pair := hlsStrsplit split.1 (ascii "=") []
    let name := hlsStrtrim pair.1 blanks blanks
    let value := hlsStrtrim pair.2 blanksAndQuotes blanksAndQuotes
    match attrs.find? fun attr => sameName (ascii attr.name) name with
    | none => hlsParseAttrs attrs split.2
    | some attr =>
      if hlsAttrRead attr.cls ≠ 0 then (hlsAttrRead attr.cls, [(attr.name, value)])
      else
        let rest := hlsParseAttrs attrs split.2
        (rest.1, (attr.name, value) :: rest.2)
termination_by data.length
decreasing_by
  all_goals exact hlsStrsplit_shorter ‹_› _ _

/-! ## The parser -/

def enomem : Int := 12

def einval : Int := 22

/-- `struct hls_parser_t` with the counts of the playlist, or the master playlist, that it
fills: `playlist` tells which of the two it has, and `segment`, `variant` and `iFrameStreamInf`
tell which pointers are set. -/
structure HlsParser where
  playlist : Bool
  segment : Bool
  segmentCount : Nat
  segmentCapacity : Nat
  variant : Bool
  iFrameStreamInf : Bool
  variantCount : Nat
  variantCapacity : Nat
  mediaCount : Nat
  mediaCapacity : Nat
  sessionDataCount : Nat
  sessionDataCapacity : Nat
  sessionKeyCount : Nat
  sessionKeyCapacity : Nat
  /-- How often memory has been asked for. -/
  requests : Nat

def HlsParser.start (playlist : Bool) : HlsParser :=
  ⟨playlist, false, 0, 0, false, false, 0, 0, 0, 0, 0, 0, 0, 0, 1⟩

section Memory

-- Whether each request for memory, counted from the first, is granted.
variable (memory : Nat → Bool)

def request (parser : HlsParser) : Bool × HlsParser :=
  (memory parser.requests, { parser with requests := parser.requests + 1 })

def hlsParserRealloc (capacity len incr : Nat) (parser : HlsParser) : Option Nat × HlsParser :=
  if len ≥ capacity then
    (if memory parser.requests then some (len + 1 + max (len / 4) incr) else none,
      (request memory parser).2)
  else (some capacity, parser)

def hlsParserFetchSegment (parser : HlsParser) : Int × HlsParser :=
  if parser.segment then (0, parser)
  else
    match hlsParserRealloc memory parser.segmentCapacity parser.segmentCount 8 parser with
    | (none, parser) => (-enomem, parser)
    | (some capacity, parser) => (0, { parser with segmentCapacity := capacity, segment := true })

def hlsParserFetchVariant (parser : HlsParser) : Int × HlsParser :=
  if parser.variant then (0, parser)
  else
    match hlsParserRealloc memory parser.variantCapacity parser.variantCount 4 parser with
    | (none, parser) => (-enomem, parser)
    | (some capacity, parser) =>
      (0, { parser with variantCapacity := capacity, variant := true, iFrameStreamInf := false })

/-! ## The handlers -/

/-- The handlers without an attribute list, from `hls_ext_inf` to `hls_ext_x_version`: they only
store. -/
def hlsExtStore (parser : HlsParser) (_ : List UInt8) : Int × HlsParser := (0, parser)

/-- The handlers that return what `hls_parse_attrs` does. -/
def hlsExtAttrs (attrs : List HlsTagAttr) (parser : HlsParser) (data : List UInt8) : Int × HlsParser :=
  ((hlsParseAttrs attrs data).1, parser)

def hlsExtXKey : HlsParser → List UInt8 → Int × HlsParser :=
  hlsExtAttrs [⟨attrString, "METHOD"⟩, ⟨attrString, "URI"⟩, ⟨attrString, "IV"⟩,
    ⟨attrString, "KEYFORMAT"⟩, ⟨attrString, "KEYFORMATVERSIONS"⟩]

def hlsExtXMap : HlsParser → List UInt8 → Int × HlsParser :=
  hlsExtAttrs [⟨attrString, "URI"⟩, ⟨attrString, "BYTERANGE"⟩]

def hlsExtXDaterange : HlsParser → List UInt8 → Int × HlsParser :=
  hlsExtAttrs [⟨attrString, "ID"⟩, ⟨attrString, "CLASS"⟩, ⟨attrString, "START-DATE"⟩,
    ⟨attrString, "END-DATE"⟩, ⟨attrFloat64, "DURATION"⟩, ⟨attrFloat64, "PLANNED-DURATION"⟩,
    ⟨attrStringBool, "END-ON-NEXT"⟩]

def mediaAttrs : List HlsTagAttr :=
  [⟨attrString, "TYPE"⟩, ⟨attrString, "URI"⟩, ⟨attrString, "GROUP-ID"⟩, ⟨attrString, "LANGUAGE"⟩,
    ⟨attrString, "ASSOC-LANGUAGE"⟩, ⟨attrString, "NAME"⟩, ⟨attrStringBool, "DEFAULT"⟩,
    ⟨attrStringBool, "AUTOSELECT"⟩, ⟨attrStringBool, "FORCED"⟩, ⟨attrString, "INSTREAM-ID"⟩,
    ⟨attrString, "CHARACTERISTICS"⟩, ⟨attrString, "CHANNELS"⟩]

def hlsExtXMedia (parser : HlsParser) (data : List UInt8) : Int × HlsParser :=
  match hlsParserRealloc memory parser.mediaCapacity parser.mediaCount 4 parser with
  | (none, parser) => (-enomem, parser)
  | (some capacity, parser) =>
    hlsExtAttrs mediaAttrs
      { parser with mediaCapacity := capacity, mediaCount := parser.mediaCount + 1 } data

def hlsExtXStreamInf : HlsParser → List UInt8 → Int × HlsParser :=
  hlsExtAttrs [⟨attrUint32, "BANDWIDTH"⟩, ⟨attrUint32, "AVERAGE-BANDWIDTH"⟩, ⟨attrString, "CODECS"⟩,
    ⟨attrString, "RESOLUTION"⟩, ⟨attrFloat64, "FRAME-RATE"⟩, ⟨attrString, "HDCP-LEVEL"⟩,
    ⟨attrString, "AUDIO"⟩, ⟨attrString, "VIDEO"⟩, ⟨attrString, "SUBTITLES"⟩,
    ⟨attrString, "CLOSED-CAPTIONS"⟩]

def iFrameStreamInfAttrs : List HlsTagAttr :=
  [⟨attrString, "URI"⟩, ⟨attrUint32, "BANDWIDTH"⟩, ⟨attrUint32, "AVERAGE-BANDWIDTH"⟩,
    ⟨attrString, "CODECS"⟩, ⟨attrString, "RESOLUTION"⟩, ⟨attrString, "HDCP-LEVEL"⟩,
    ⟨attrString, "VIDEO"⟩]

def hlsExtXIFrameStreamInf (parser : HlsParser) (data : List UInt8) : Int × HlsParser :=
  if parser.iFrameStreamInf then hlsExtAttrs iFrameStreamInfAttrs parser data
  else
    match request memory parser with
    | (false, parser) => (-enomem, parser)
    | (true, parser) =>
      hlsExtAttrs iFrameStreamInfAttrs { parser with iFrameStreamInf := true } data

def sessionDataAttrs : List HlsTagAttr :=
  [⟨attrString, "DATA-ID"⟩, ⟨attrString, "VALUE"⟩, ⟨attrString, "URI"⟩, ⟨attrString, "LANGUAGE"⟩]

def hlsExtXSessionData (parser : HlsParser) (data : List UInt8) : Int × HlsParser :=
  match hlsParserRealloc memory parser.sessionDataCapacity parser.sessionDataCount 2 parser with
  | (none, parser) => (-enomem, parser)
  | (some capacity, parser) =>
    hlsExtAttrs sessionDataAttrs
      { parser with
        sessionDataCapacity := capacity
        sessionDataCount := parser.sessionDataCount + 1 } data

def sessionKeyAttrs : List HlsTagAttr :=
  [⟨attrString, "METHOD"⟩, ⟨attrString, "URI"⟩, ⟨attrString, "IV"⟩, ⟨attrString, "KEYFORMAT"⟩,
    ⟨attrString, "KEYFORMATVERSIONS"⟩]

def hlsExtXSessionKey (parser : HlsParser) (data : List UInt8) : Int × HlsParser :=
  match hlsParserRealloc memory parser.sessionKeyCapacity parser.sessionKeyCount 2 parser with
  | (none, parser) => (-enomem, parser)
  | (some capacity, parser) =>
    let parser := { parser with sessionKeyCapacity := capacity }
    let r := (hlsParseAttrs sessionKeyAttrs data).1
    if r ≠ 0 then (r, parser)
    else (0, { parser with sessionKeyCount := parser.sessionKeyCount + 1 })

def hlsParserOnuri (parser : HlsParser) : Int × HlsParser :=
  if parser.playlist then
    if parser.segment then
      (0, { parser with segment := false, segmentCount := parser.segmentCount + 1 })
    else (-1, parser)
  else if parser.variant then
    (0, { parser with variant := false, variantCount := parser.variantCount + 1 })
  else (-1, parser)

/-! ## Tags and lines -/

/-- `HLS_M3U8_UNKNOWN`, `HLS_M3U8_PLAYLIST` and `HLS_M3U8_MASTER` -/
inductive TagClass
  | unknown
  | playlist
  | master
  deriving DecidableEq, Repr

structure HlsTag where
  cls : TagClass
  name : String
  parser : HlsParser → List UInt8 → Int × HlsParser

def sTags : List HlsTag :=
  [⟨.playlist, "EXTINF", hlsExtStore⟩,
    ⟨.playlist, "EXT-X-BYTERANGE", hlsExtStore⟩,
    ⟨.playlist, "EXT-X-DISCONTINUITY", hlsExtStore⟩,
    ⟨.playlist, "EXT-X-KEY", hlsExtXKey⟩,
    ⟨.playlist, "EXT-X-MAP", hlsExtXMap⟩,
    ⟨.playlist, "EXT-X-PROGRAM-DATE-TIME", hlsExtStore⟩,
    ⟨.playlist, "EXT-X-DATERANGE", hlsExtXDaterange⟩,
    ⟨.playlist, "EXT-X-TARGETDURATION", hlsExtStore⟩,
    ⟨.playlist, "EXT-X-MEDIA-SEQUENCE", hlsExtStore⟩,
    ⟨.playlist, "EXT-X-DISCONTINUITY-SEQUENCE", hlsExtStore⟩,
    ⟨.playlist, "EXT-X-ENDLIST", hlsExtStore⟩,
    ⟨.playlist, "EXT-X-PLAYLIST-TYPE", hlsExtStore⟩,
    ⟨.playlist, "EXT-X-I-FRAMES-ONLY", hlsExtStore⟩,
    ⟨.master, "EXT-X-MEDIA", hlsExtXMedia memory⟩,
    ⟨.master, "EXT-X-STREAM-INF", hlsExtXStreamInf⟩,
    ⟨.master, "EXT-X-I-FRAME-STREAM-INF", hlsExtXIFrameStreamInf memory⟩,
    ⟨.master, "EXT-X-SESSION-DATA", hlsExtXSessionData memory⟩,
    ⟨.master, "EXT-X-SESSION-KEY", hlsExtXSessionKey memory⟩,
    ⟨.unknown, "EXT-X-INDEPENDENT-SEGMENTS", hlsExtStore⟩,
    ⟨.unknown, "EXT-X-START", hlsExtStore⟩,
    ⟨.unknown, "EXT-X-VERSION", hlsExtStore⟩]

/-- The row of the table for a tag, whose first byte is the `#`. -/
def tagOf (tag : List UInt8) : Option HlsTag :=
  (sTags memory).find? fun row => sameName (ascii row.name) (tag.drop 1)

def TagClass.foreign (cls : TagClass) (playlist : Bool) : Bool :=
  (cls == .playlist && !playlist) || (cls == .master && playlist)

def hlsParserFetch (parser : HlsParser) : Int × HlsParser :=
  if parser.playlist then hlsParserFetchSegment memory parser
  else hlsParserFetchVariant memory parser

def hlsParserOntag (parser : HlsParser) (tag attrs : List UInt8) : Int × HlsParser :=
  let fetched := hlsParserFetch memory parser
  if fetched.1 ≠ 0 then fetched
  else
    match tagOf memory tag with
    | none => fetched
    | some row =>
      if row.cls.foreign parser.playlist then (-einval, fetched.2) else row.parser fetched.2 attrs

inductive HlsLine
  | blank
  | comment
  | tag (name attrs : List UInt8)
  | uri (text : List UInt8)
  deriving DecidableEq, Repr

def classify (line : List UInt8) : HlsLine :=
  if line = [] then .blank
  else if line.head? = some 0x23 then
    if line.length ≤ 4 ∨ line.take 4 ≠ ascii "#EXT" then .comment
    else
      let behind := fun c => (ascii ": \t\r\n").contains c
      .tag (line.takeWhile fun c => !behind c)
        ((line.dropWhile fun c => !behind c).dropWhile fun c => (ascii ": \t").contains c)
  else .uri line

def hlsParserLine (parser : HlsParser) : HlsLine → Option (Int × HlsParser)
  | .blank => none
  | .comment => none
  | .tag name attrs => some (hlsParserOntag memory parser name attrs)
  | .uri _ => some (hlsParserOnuri parser)

def nextLine (text : List UInt8) : HlsLine × List UInt8 :=
  let split := hlsStrsplit text (ascii "\r\n") []
  (classify (hlsStrtrim split.1 blanks blanks), split.2)

/-- The loop of `hls_parser_input`, with the result of the line before. -/
def hlsParserInput (parser : HlsParser) (r : Int) (text : List UInt8) : Int × HlsParser :=
  if text = [] then (r, parser)
  else
    match hlsParserLine memory parser (nextLine text).1 with
    | none => hlsParserInput parser r (nextLine text).2
    | some result => hlsParserInput result.2 result.1 (nextLine text).2
termination_by text.length
decreasing_by
  all_goals exact hlsStrsplit_shorter ‹_› _ _

def hlsParse (playlist : Bool) (text : List UInt8) : Int :=
  if memory 0 then (hlsParserInput memory (.start playlist) 0 text).1 else -enomem

def hlsPlaylistParse : List UInt8 → Int := hlsParse memory true

def hlsMasterParse : List UInt8 → Int := hlsParse memory false

end Memory

end CLibs.Hls
