import CLibs.CheckedBuffers
import CLibs.HlsWindow

/-!
# The text of an HLS playlist

`hls_m3u8_playlist` prints a playlist piece by piece.  `snprintf` cuts what does not fit and
returns the length of all of it, so that the length tells at the end whether anything is missing;
only the last line is not tried where it does not fit.  How a duration is printed with `%.3f` is a
parameter.
-/

namespace CLibs.Hls

open List

/-! ## The pieces -/

def decimal (value : Int) : List UInt8 := ascii (toString value)

def headerText (m3u8 : HlsM3u8) : List UInt8 :=
  ascii "#EXTM3U\n" ++
    (ascii "#EXT-X-VERSION:" ++ decimal m3u8.version ++ ascii "\n") ++
    (ascii "#EXT-X-TARGETDURATION:" ++ decimal ((m3u8.duration + 999).tdiv 1000) ++ ascii "\n") ++
    (ascii "#EXT-X-MEDIA-SEQUENCE:" ++ decimal m3u8.seq ++ ascii "\n") ++
    (if m3u8.live ≠ 0 then [] else ascii "#EXT-X-PLAYLIST-TYPE:VOD\n") ++
    if m3u8.live ≠ 0 then [] else ascii "#EXT-X-ALLOW-CACHE:YES\n"

def mapText (name : List UInt8) : List UInt8 :=
  ascii "#EXT-X-MAP:URI=\"" ++ name ++ ascii "\",\n"

def discontinuityText : List UInt8 := ascii "#EXT-X-DISCONTINUITY\n"

def endlistText : List UInt8 := ascii "#EXT-X-ENDLIST\n"

section

variable (seconds : Int → List UInt8)

def extinfText (seg : HlsSegment) : List UInt8 :=
  ascii "#EXTINF:" ++ seconds seg.duration ++ ascii ",\n" ++ seg.name ++ ascii "\n"

/-! ## Printing -/

/-- `snprintf` at a place of the buffer: what fits into `size` bytes with a NUL behind it, and the
length of the whole text. -/
def snprintf (playlist : Buffer UInt8) (place size : Nat) (text : List UInt8) :
    Except Fault (Buffer UInt8 × Nat) :=
  if size = 0 then .ok (playlist, text.length)
  else do
    let playlist ← playlist.store place (text.take (size - 1) ++ [0])
    return (playlist, text.length)

/-- The buffer and the length `n` so far. -/
structure Printing where
  playlist : Buffer UInt8
  n : Nat

/-- `n += snprintf(playlist + n, bytes - n, ...)` -/
def Printing.print (printing : Printing) (bytes : Nat) (text : List UInt8) :
    Except Fault Printing := do
  let (playlist, r) ← snprintf printing.playlist printing.n (bytes - printing.n) text
  return ⟨playlist, printing.n + r⟩

def Printing.printIf (printing : Printing) (condition : Prop) [Decidable condition] (bytes : Nat)
    (text : List UInt8) : Except Fault Printing :=
  if condition then printing.print bytes text else .ok printing

def printSegments (bytes : Nat) : List HlsSegment → Printing → Except Fault Printing
  | [], printing => .ok printing
  | seg :: rest, printing =>
    if bytes ≤ printing.n then .ok printing
    else do
      let printing ← printing.printIf (seg.discontinuity ≠ 0) bytes discontinuityText
      let printing ← printing.printIf (bytes > printing.n) bytes (extinfText seconds seg)
      printSegments bytes rest printing

def printMap (m3u8 : HlsM3u8) (bytes : Nat) (printing : Printing) : Except Fault Printing :=
  match m3u8.extXMap with
  | none => .ok printing
  | some name => printing.print bytes (mapText name)

/-- What follows the first piece. -/
def printRest (m3u8 : HlsM3u8) (eof : Int) (bytes : Nat) (printing : Printing) :
    Except Fault (Buffer UInt8 × Int) := do
  let printing ← printMap m3u8 bytes printing
  let printing ← printSegments seconds bytes m3u8.root printing
  let printing ← printing.printIf (eof ≠ 0 ∧ bytes > printing.n + 15) bytes endlistText
  return (printing.playlist, if bytes > printing.n ∧ printing.n > 0 then 0 else enomem)

def hlsM3u8Playlist (m3u8 : HlsM3u8) (eof : Int) (playlist : Buffer UInt8) (bytes : Nat) :
    Except Fault (Buffer UInt8 × Int) := do
  let (playlist, r) ← snprintf playlist 0 bytes (headerText m3u8)
  if r = 0 ∨ r ≥ bytes then return (playlist, enomem)
  else printRest seconds m3u8 eof bytes ⟨playlist, r⟩

/-! ## The whole text -/

def segmentText (seg : HlsSegment) : List UInt8 :=
  (if seg.discontinuity ≠ 0 then discontinuityText else []) ++ extinfText seconds seg

/-- The playlist without its last line. -/
def openText (m3u8 : HlsM3u8) : List UInt8 :=
  headerText m3u8 ++ m3u8.extXMap.elim [] mapText ++ m3u8.root.flatMap (segmentText seconds)

def completeText (m3u8 : HlsM3u8) (eof : Int) : List UInt8 :=
  openText seconds m3u8 ++ if eof ≠ 0 then endlistText else []

/-- The text so far is in the buffer with its NUL, or it has become too long. -/
structure Printed (bytes : Nat) (text : List UInt8) (printing : Printing) : Prop where
  size : printing.playlist.size = bytes
  whole : printing.n < bytes →
    printing.n = text.length ∧ printing.playlist.Holds 0 (text ++ [0])
  long : bytes ≤ printing.n → bytes ≤ text.length

variable {seconds} {bytes : Nat} {text : List UInt8} {printing : Printing}

theorem Printed.skip (printed : Printed bytes text printing) (full : bytes ≤ printing.n)
    (more : List UInt8) : Printed bytes (text ++ more) printing := by
  refine ⟨printed.size, fun room => absurd full (Nat.not_le_of_lt room), fun _ => ?_⟩
  have long := printed.long full
  rw [length_append]
  omega

theorem Printed.print (printed : Printed bytes text printing) (room : printing.n < bytes)
    (more : List UInt8) :
    Yields (printing.print bytes more) (Printed bytes (text ++ more)) := by
  obtain ⟨reached, holds⟩ := printed.whole room
  have size := printed.size
  have fits : printing.n + (more.take (bytes - printing.n - 1) ++ [0]).length ≤
      printing.playlist.size := by
    rw [length_append, length_take, length_singleton]
    omega
  unfold Printing.print snprintf
  rw [if_neg (by omega), Buffer.store_eq fits]
  refine Yields.pure ⟨size, fun left => ⟨?_, ?_⟩, fun full => ?_⟩
  · rw [length_append, ← reached]
  · dsimp only at left ⊢
    rw [take_of_length_le (by omega)] at fits ⊢
    rw [append_assoc]
    exact (Buffer.holds_append.mp holds).1.extend (more ++ [0]) (by omega) fits
  · dsimp only at full
    rw [length_append, ← reached]
    exact full

theorem Printed.segments {segs : List HlsSegment} (printed : Printed bytes text printing) :
    Yields (printSegments seconds bytes segs printing)
      (Printed bytes (text ++ segs.flatMap (segmentText seconds))) := by
  induction segs generalizing text printing with
  | nil =>
    rw [flatMap_nil, append_nil]
    exact Yields.pure printed
  | cons seg rest later =>
    unfold printSegments
    apply Yields.ite
    · intro full
      exact Yields.pure (printed.skip full _)
    · intro room
      have discontinuity : Yields
          (printing.printIf (seg.discontinuity ≠ 0) bytes discontinuityText)
          (Printed bytes (text ++ if seg.discontinuity ≠ 0 then discontinuityText else [])) := by
        unfold Printing.printIf
        apply Yields.ite
        · intro set
          rw [if_pos set]
          exact printed.print (Nat.lt_of_not_le room) _
        · intro clear
          rw [if_neg clear, append_nil]
          exact Yields.pure printed
      apply discontinuity.bind
      intro middle marked
      have extinf : Yields (middle.printIf (bytes > middle.n) bytes (extinfText seconds seg))
          (Printed bytes (text ++ segmentText seconds seg)) := by
        rw [segmentText, ← append_assoc]
        unfold Printing.printIf
        apply Yields.ite
        · intro left
          exact marked.print left _
        · intro full
          exact Yields.pure (marked.skip (Nat.le_of_not_gt full) _)
      apply extinf.bind
      intro next printed
      rw [flatMap_cons, ← append_assoc]
      exact later printed

variable {m3u8 : HlsM3u8}

theorem Printed.map (printed : Printed bytes text printing) (room : printing.n < bytes) :
    Yields (printMap m3u8 bytes printing) (Printed bytes (text ++ m3u8.extXMap.elim [] mapText)) := by
  unfold printMap
  cases m3u8.extXMap with
  | none =>
    rw [Option.elim_none, append_nil]
    exact Yields.pure printed
  | some name => exact printed.print room _

theorem headerText_pos (m3u8 : HlsM3u8) : 0 < (headerText m3u8).length := by
  unfold headerText
  simp only [length_append]
  have first : (ascii "#EXTM3U\n").length = 8 := by decide
  omega

theorem headerText_le (m3u8 : HlsM3u8) :
    (headerText m3u8).length ≤ (openText seconds m3u8).length := by
  unfold openText
  simp only [length_append]
  omega

/-- What the buffer holds in the end, if the text without its last line fits. -/
def finalText (seconds : Int → List UInt8) (m3u8 : HlsM3u8) (eof : Int) (bytes : Nat) :
    List UInt8 :=
  if eof ≠ 0 ∧ bytes > (openText seconds m3u8).length + 15 then completeText seconds m3u8 eof
  else openText seconds m3u8

theorem endlistText_length : endlistText.length = 15 := by decide

theorem completeText_eof {eof : Int} (last : eof ≠ 0) :
    completeText seconds m3u8 eof = openText seconds m3u8 ++ endlistText := by
  rw [completeText, if_pos last]

theorem Printed.last (printed : Printed bytes (openText seconds m3u8) printing) (eof : Int) :
    Yields (printing.printIf (eof ≠ 0 ∧ bytes > printing.n + 15) bytes endlistText) fun final =>
      if bytes ≤ (openText seconds m3u8).length then bytes ≤ final.n
      else final.n < bytes ∧ 0 < final.n ∧
        final.playlist.size = bytes ∧
        final.playlist.Holds 0 (finalText seconds m3u8 eof bytes ++ [0]) := by
  have header := headerText_pos m3u8
  have longer := @headerText_le seconds m3u8
  rcases Nat.lt_or_ge printing.n bytes with room | full
  · obtain ⟨reached, holds⟩ := printed.whole room
    have fits : ¬bytes ≤ (openText seconds m3u8).length := by omega
    unfold Printing.printIf finalText
    simp only [if_neg fits, reached]
    apply Yields.ite
    · intro tried
      rw [if_pos tried, completeText_eof tried.1]
      apply (printed.print room endlistText).mono
      intro final printed
      have length : (openText seconds m3u8 ++ endlistText).length =
          (openText seconds m3u8).length + 15 := by
        rw [length_append, endlistText_length]
      have left : final.n < bytes := by
        by_contra full
        have long := printed.long (Nat.le_of_not_lt full)
        omega
      obtain ⟨reached, holds⟩ := printed.whole left
      exact ⟨left, by omega, printed.size, holds⟩
    · intro skipped
      rw [if_neg skipped]
      exact Yields.pure ⟨room, by omega, printed.size, holds⟩
  · unfold Printing.printIf
    rw [if_neg (by omega)]
    exact Yields.pure (by rw [if_pos (printed.long full)]; exact full)

theorem snprintf_header (m3u8 : HlsM3u8) (playlist : Buffer UInt8) :
    (∃ final, snprintf playlist 0 playlist.size (headerText m3u8) =
        .ok (final, (headerText m3u8).length)) ∧
      ((headerText m3u8).length < playlist.size →
        ∃ final, snprintf playlist 0 playlist.size (headerText m3u8) =
            .ok (final, (headerText m3u8).length) ∧
          Printed playlist.size (headerText m3u8) ⟨final, (headerText m3u8).length⟩) := by
  unfold snprintf
  constructor
  · split
    · exact ⟨_, rfl⟩
    · rw [Buffer.store_eq (by simp; omega)]
      exact ⟨_, rfl⟩
  · intro room
    have fits : 0 + (headerText m3u8 ++ [0]).length ≤ playlist.size := by
      rw [length_append, length_singleton]
      omega
    rw [if_neg (by omega), take_of_length_le (by omega), Buffer.store_eq fits]
    exact ⟨_, rfl, rfl, fun _ => ⟨rfl, Buffer.written_holds _ _ fits⟩, id⟩

theorem hlsM3u8Playlist_prints (m3u8 : HlsM3u8) (eof : Int) (playlist : Buffer UInt8) :
    Yields (hlsM3u8Playlist seconds m3u8 eof playlist playlist.size) fun result =>
      if playlist.size ≤ (openText seconds m3u8).length then result.2 = enomem
      else result.2 = 0 ∧ result.1.size = playlist.size ∧
        result.1.Holds 0 (finalText seconds m3u8 eof playlist.size ++ [0]) := by
  have header := headerText_pos m3u8
  have longer := @headerText_le seconds m3u8
  obtain ⟨⟨cut, stopped⟩, started⟩ := snprintf_header m3u8 playlist
  unfold hlsM3u8Playlist
  rcases Nat.lt_or_ge (headerText m3u8).length playlist.size with room | full
  · obtain ⟨first, returned, printed⟩ := started room
    apply Yields.step returned
    dsimp only
    rw [if_neg (by omega)]
    apply (printed.map room).bind
    intro mapped printed
    apply printed.segments.bind
    intro listed printed
    apply (Printed.last printed eof).bind
    intro final ended
    refine Yields.pure ?_
    split at ended
    · rw [if_pos ‹_›, if_neg (by omega)]
    · rw [if_neg ‹_›, if_pos ⟨ended.1, ended.2.1⟩]
      exact ⟨rfl, ended.2.2⟩
  · apply Yields.step stopped
    dsimp only
    rw [if_pos (.inr full)]
    refine Yields.pure ?_
    rw [if_pos (by omega)]

theorem completeText_length (m3u8 : HlsM3u8) (eof : Int) :
    (completeText seconds m3u8 eof ++ [0]).length =
      (openText seconds m3u8).length + (if eof ≠ 0 then 15 else 0) + 1 := by
  unfold completeText
  rw [length_append, length_append, length_singleton]
  split <;> simp [endlistText_length]

theorem endlist_missing {eof : Int} {playlist : Buffer UInt8} (last : eof ≠ 0)
    (room : (openText seconds m3u8).length < playlist.size)
    (short : playlist.size ≤ (openText seconds m3u8).length + 15) :
    ∃ final, hlsM3u8Playlist seconds m3u8 eof playlist playlist.size = .ok (final, 0) ∧
      ¬final.Holds 0 (completeText seconds m3u8 eof ++ [0]) := by
  obtain ⟨⟨final, r⟩, returned, ended⟩ := @hlsM3u8Playlist_prints seconds m3u8 eof playlist
  rw [if_neg (by omega)] at ended
  obtain ⟨rfl, size, _⟩ := ended
  refine ⟨final, returned, fun holds => ?_⟩
  have fits := holds.fits
  rw [completeText_length, if_pos last, size] at fits
  omega

/-- The text is complete if the function returns 0, and the function returns 0 if it fits, unless
the last line alone does not fit. -/
theorem m3u8_playlist_complete_iff (seconds : Int → List UInt8) (m3u8 : HlsM3u8) (eof : Int)
    (playlist : Buffer UInt8) :
    (∃ final r, hlsM3u8Playlist seconds m3u8 eof playlist playlist.size = .ok (final, r) ∧
        (r = 0 → final.Holds 0 (completeText seconds m3u8 eof ++ [0])) ∧
        ((completeText seconds m3u8 eof ++ [0]).length ≤ playlist.size → r = 0)) ↔
      ¬(eof ≠ 0 ∧ (openText seconds m3u8).length < playlist.size ∧
        playlist.size ≤ (openText seconds m3u8).length + 15) := by
  constructor
  · rintro ⟨_, _, again, complete, _⟩ ⟨last, room, short⟩
    obtain ⟨final, returned, missing⟩ := endlist_missing last room short
    rw [returned] at again
    cases again
    exact missing (complete rfl)
  · intro tried
    obtain ⟨⟨final, r⟩, returned, ended⟩ := @hlsM3u8Playlist_prints seconds m3u8 eof playlist
    refine ⟨final, r, returned, ?_, ?_⟩
    · intro success
      split at ended
      · exact absurd (success.symm.trans ended) (show (0 : Int) ≠ enomem by decide)
      · obtain ⟨_, _, holds⟩ := ended
        have same : finalText seconds m3u8 eof playlist.size = completeText seconds m3u8 eof := by
          unfold finalText
          split
          · rfl
          · have none : ¬eof ≠ 0 := by
              intro last
              omega
            rw [completeText, if_neg none, append_nil]
        rwa [same] at holds
    · intro fits
      rw [completeText_length] at fits
      rw [if_neg (by omega)] at ended
      exact ended.1

end

/-- An empty playlist in 122 bytes: it is printed without its last line. -/
theorem m3u8_playlist_not_complete :
    ∃ final, hlsM3u8Playlist (fun _ => []) ⟨0, 3, 0, 0, 0, [], none⟩ 1 (Buffer.alloc 122) 122 =
        .ok (final, 0) ∧
      ¬final.Holds 0 (completeText (fun _ => []) ⟨0, 3, 0, 0, 0, [], none⟩ 1 ++ [0]) := by
  have length : (openText (fun _ => []) ⟨0, 3, 0, 0, 0, [], none⟩).length = 121 := by decide +kernel
  exact endlist_missing (by simp) (by simp [length]) (by simp [length])

end CLibs.Hls
