import CLibs.MovEsdsFields

/-!
# Bounds of the walk through an `esds` box

Descriptors are walked through inside descriptors, with counts of bytes that are differences of
unsigned numbers.  The walk is watched: whether a descriptor lies inside the one around it, whether
a nested walk gets no more bytes than its descriptor has, and whether each turn moves forward.
-/

namespace CLibs.Mov

/-! ## The walk, watched -/

/-- A descriptor that is processed lies in front of the end of the one around it. -/
def DescrInside (stop offset bytes : Nat) (header : BaseDescr × ByteFile) : Prop :=
  offset + header.1.count + header.1.len ≤ bytes → header.2.error = false →
    header.2.position + header.1.len ≤ stop

instance (stop offset bytes : Nat) (header : BaseDescr × ByteFile) :
    Decidable (DescrInside stop offset bytes header) :=
  inferInstanceAs (Decidable (_ → _ → _))

/-- A nested walk gets no more bytes than its descriptor has left. -/
def NestedInside (header : BaseDescr × ByteFile) (bytes : Nat) (reader : EsdsReader) : Prop :=
  bytes ≤ header.1.len ∧
    reader.file.position + bytes ≤ header.2.position + header.1.len

instance (header : BaseDescr × ByteFile) (bytes : Nat) (reader : EsdsReader) :
    Decidable (NestedInside header bytes reader) :=
  inferInstanceAs (Decidable (_ ∧ _))

/-- The next turn is further on, and no further than the end. -/
def MovesForward (file : ByteFile) (stop offset bytes next : Nat) (reader : EsdsReader) : Prop :=
  offset < next ∧ next ≤ bytes ∧ (reader.file.error = false →
    file.position < reader.file.position ∧ reader.file.position ≤ stop)

instance (file : ByteFile) (stop offset bytes next : Nat) (reader : EsdsReader) :
    Decidable (MovesForward file stop offset bytes next reader) :=
  inferInstanceAs (Decidable (_ ∧ _ ∧ (_ → _ ∧ _)))

/-- The loop of `mp4_read_tag` up to the end of a descriptor or box, with each turn watched. -/
def mp4ReadTagWatched (leftover : Nat → List UInt8) :
    (fuel : Nat) → (stop offset bytes : Nat) → EsdsReader → Except Fault EsdsReader
  | 0, _, _, _, _ => .error .fuel
  | fuel + 1, stop, offset, bytes, reader =>
    if offset < bytes then
      let header := movReadBaseDescr reader.file (int32 (sub64 bytes offset))
      if DescrInside stop offset bytes header then
        readDescriptor leftover
          (fun inner found =>
            if NestedInside header inner found then
              mp4ReadTagWatched leftover fuel (header.2.position + header.1.len) 0 inner found
            else .error .outside)
          (fun next found =>
            if MovesForward reader.file stop offset bytes next found then
              mp4ReadTagWatched leftover fuel stop next bytes found
            else .error .outside)
          offset bytes reader
      else .error .outside
    else .ok reader

def movReadEsdsWatched (leftover : Nat → List UInt8) (fuel : Nat) (reader : EsdsReader) (box : Box) :
    Except Fault (Int × EsdsReader) := do
  let file := (r24 (r8 reader.file).2).2
  let reader ← mp4ReadTagWatched leftover fuel (reader.file.position + box.size) 0
    (sub64 box.size 4) { reader with file := file }
  .ok (movBufferError reader.file, reader)

/-- The walk returns behind the box at most, and watching every count, place and turn finds nothing
wrong. -/
structure EsdsInside (leftover : Nat → List UInt8) (reader : EsdsReader) (box : Box)
    (result : Int) (after : EsdsReader) : Prop where
  returned : movReadEsds leftover box.size reader box = .ok (result, after)
  watched : movReadEsdsWatched leftover box.size reader box = .ok (result, after)
  ends : after.file.position ≤ reader.file.position + box.size

section Watching

variable {leftover : Nat → List UInt8}

theorem readDescriptor_mono {nested nested' : ReadTag}
    {loop loop' : Nat → EsdsReader → Except Fault EsdsReader} {offset bytes : Nat}
    {reader last : EsdsReader}
    (nests : ∀ bytes reader last, nested bytes reader = .ok last → nested' bytes reader = .ok last)
    (loops : ∀ offset reader last, loop offset reader = .ok last → loop' offset reader = .ok last)
    (found : readDescriptor leftover nested loop offset bytes reader = .ok last) :
    readDescriptor leftover nested' loop' offset bytes reader = .ok last := by
  have body : ∀ tag len reader last, readBody leftover nested tag len reader = .ok last →
      readBody leftover nested' tag len reader = .ok last := by
    intro tag len reader last
    unfold readBody
    split
    · exact nests _ _ _
    · split
      · exact nests _ _ _
      · exact id
  unfold readDescriptor at found ⊢
  dsimp only at found ⊢
  split at found
  · next beyond =>
      rw [if_pos beyond]
      exact found
  · next fits =>
      rw [if_neg fits]
      obtain ⟨middle, done, rest⟩ := ok_of_bind found
      rw [body _ _ _ _ done]
      exact loops _ _ _ rest

theorem watched_returns {fuel stop offset bytes : Nat} {reader last : EsdsReader}
    (found : mp4ReadTagWatched leftover fuel stop offset bytes reader = .ok last) :
    mp4ReadTagFrom leftover fuel offset bytes reader = .ok last := by
  induction fuel generalizing stop offset bytes reader last with
  | zero => cases found
  | succ fuel ih =>
    unfold mp4ReadTagWatched at found
    unfold mp4ReadTagFrom
    split at found
    · next more =>
        rw [if_pos more]
        dsimp only at found
        split at found
        · refine readDescriptor_mono (fun inner inside last done => ?_)
            (fun next reader last done => ?_) found
          · split at done
            · exact ih done
            · cases done
          · split at done
            · exact ih done
            · cases done
        · cases found
    · next done =>
        rw [if_neg done]
        exact found

end Watching

/-! ## Behind an error -/

section Failed

variable {file : ByteFile} (failed : file.error = true)
include failed

variable {leftover : Nat → List UInt8}

theorem watched_failed {fuel stop offset bytes : Nat} (entry : EsdsEntry)
    (inside : offset ≤ bytes) (small : bytes < 2 ^ 63) (enough : bytes - offset < fuel) :
    ∃ last, mp4ReadTagWatched leftover fuel stop offset bytes ⟨entry, file⟩ = .ok last ∧
      last.file = file := by
  induction fuel generalizing offset with
  | zero => exact absurd enough (Nat.not_lt_zero _)
  | succ fuel ih =>
    unfold mp4ReadTagWatched
    split
    · next more =>
        obtain ⟨count, header, positive, room⟩ :=
          movReadBaseDescr_failed failed (int32 (sub64 bytes offset))
        have within : offset + count ≤ bytes := by
          have left := sub64_eq inside (by omega)
          have range := int32_le (bytes - offset)
          rw [left] at room
          omega
        have lies : DescrInside stop offset bytes (⟨0, 0, count⟩, file) :=
          fun _ fine => nomatch failed.symm.trans fine
        dsimp only
        rw [header, if_pos lies, readDescriptor]
        dsimp only
        rw [header]
        dsimp only
        rw [Nat.mod_eq_of_lt (show offset + count < 2 ^ 64 by omega), Nat.add_zero,
          Nat.mod_eq_of_lt (show offset + count < 2 ^ 64 by omega), if_neg (by omega)]
        have forward : MovesForward file stop offset bytes (offset + count) ⟨entry, file⟩ :=
          ⟨by omega, within, fun fine => nomatch failed.symm.trans fine⟩
        have body : ∀ readTag, readBody leftover readTag 0 0 ⟨entry, file⟩ = .ok ⟨entry, file⟩ :=
          fun readTag => rfl
        rw [body, ok_bind, skip_failed failed, if_pos forward]
        exact ih within (by omega)
    · exact ⟨_, rfl, rfl⟩

end Failed

/-! ## The walk by positions -/

/-- What a walk through descriptors comes to: their end, a descriptor too short for its fields, or
the place where the file gives no more. -/
inductive Walked
  | whole
  | overflow
  | starved (place : Nat)
  deriving DecidableEq

def Walked.andThen (found next : Walked) : Walked :=
  match found with
  | .whole => next
  | .overflow => .overflow
  | .starved place => .starved place

section Walk

variable (text : List UInt8)

/-- The fields of a descriptor with a body of so many bytes at a place. -/
def walkFields (tag len next : Nat) : Walked :=
  if tag = isoESDescrTag then
    if next + len < esEnd text next then .overflow
    else if text.length < next + esWidth text next then .starved (esEnd text next)
    else .whole
  else if tag = isoDecoderConfigDescrTag then
    if len < 13 then .overflow else .whole
  else if tag = isoSLConfigDescrTag then
    if text.length < next + slWidth text next then .starved text.length else .whole
  else .whole

/-- Where the descriptors inside a descriptor begin, if it has any. -/
def innerPlace (tag next : Nat) : Option Nat :=
  if tag = isoESDescrTag then some (next + esWidth text next)
  else if tag = isoDecoderConfigDescrTag then some (next + 13)
  else none

/-- The descriptors between two places, and those inside them. -/
def walkDescr : (fuel : Nat) → (place stop : Nat) → Walked
  | 0, _, _ => .whole
  | fuel + 1, place, stop =>
    if stop ≤ place then .whole
    else
      let found := descrAt text place stop
      let next := place + found.count
      if stop < next + found.len then .whole
      else
        (((walkFields text found.tag found.len next).andThen
          ((innerPlace text found.tag next).elim .whole fun inner =>
            walkDescr fuel inner (next + found.len))).andThen
          (walkDescr fuel (next + found.len) stop))

end Walk

def Matches (text : List UInt8) (stop : Nat) (result : Except Fault EsdsReader) : Walked → Prop
  | .whole => ∃ reader, result = .ok reader ∧
      ∃ place ≤ stop, reader.file = ⟨text, place, false⟩
  | .overflow => result = .error .outside
  | .starved place => ∃ reader, result = .ok reader ∧ reader.file = ⟨text, place, true⟩

section Matching

variable {text : List UInt8} {leftover : Nat → List UInt8} {fuel next len : Nat}
  {entry : EsdsEntry}

def nestedWatched (leftover : Nat → List UInt8) (fuel : Nat) (header : BaseDescr × ByteFile) :
    ReadTag := fun inner found =>
  if NestedInside header inner found then
    mp4ReadTagWatched leftover fuel (header.2.position + header.1.len) 0 inner found
  else .error .outside

def WatchesWell (text : List UInt8) (leftover : Nat → List UInt8) (fuel : Nat) : Prop :=
  ∀ {place stop offset bytes : Nat} (entry : EsdsEntry), place ≤ stop → stop ≤ text.length →
    stop - place < fuel → offset ≤ bytes → bytes < 2 ^ 63 → bytes - offset = stop - place →
    Matches text stop (mp4ReadTagWatched leftover fuel stop offset bytes ⟨entry, ⟨text, place, false⟩⟩)
      (walkDescr text fuel place stop)

theorem sub64_wraps {value other : Nat} (above : value < other) (small : other < 2 ^ 63) :
    value < sub64 value other := by
  unfold sub64
  omega

theorem Matches.loosen {stop more : Nat} {result : Except Fault EsdsReader} {found : Walked}
    (found_matches : Matches text stop result found) (above : stop ≤ more) :
    Matches text more result found := by
  cases found with
  | whole =>
    obtain ⟨reader, returned, place, inside, file⟩ := found_matches
    exact ⟨reader, returned, place, Nat.le_trans inside above, file⟩
  | overflow => exact found_matches
  | starved place => exact found_matches

variable (header : BaseDescr × ByteFile) (placed : header.2 = ⟨text, next, false⟩)
  (fits : next + header.1.len ≤ text.length) (addressed : text.length < 2 ^ 63)
  (enough : header.1.len < fuel) (watches : WatchesWell text leftover fuel)
include placed fits addressed enough watches

theorem esDescriptor_matches :
    Matches text text.length
      (mp4ReadEsDescriptor (nestedWatched leftover fuel header) ⟨entry, ⟨text, next, false⟩⟩
        header.1.len)
      ((walkFields text isoESDescrTag header.1.len next).andThen
        (walkDescr text fuel (next + esWidth text next) (next + header.1.len))) := by
  have inside : next ≤ text.length := by omega
  have behind : next ≤ esEnd text next := by
    unfold esEnd esWidth
    split <;> omega
  have before : esEnd text next ≤ text.length := by
    unfold esEnd
    split <;> omega
  rw [mp4ReadEsDescriptor_eq]
  dsimp only
  rw [esFields_eq inside addressed]
  dsimp only
  rw [sub64_eq behind (by omega)]
  have fields : walkFields text isoESDescrTag header.1.len next =
      if next + header.1.len < esEnd text next then .overflow
      else if text.length < next + esWidth text next then .starved (esEnd text next)
      else .whole := if_pos rfl
  rw [fields]
  by_cases short : next + header.1.len < esEnd text next
  · rw [if_pos short]
    have wraps : header.1.len < sub64 header.1.len (esEnd text next - next) :=
      sub64_wraps (by omega) (by omega)
    exact if_neg fun both => absurd both.1 (Nat.not_le_of_lt wraps)
  · rw [if_neg short, sub64_eq (by omega) (by omega)]
    have nested (found : EsdsReader) (position : found.file.position = esEnd text next) :
        NestedInside header (header.1.len - (esEnd text next - next)) found := by
      refine ⟨Nat.sub_le _ _, ?_⟩
      rw [position, placed]
      dsimp only
      omega
    by_cases starved : text.length < next + esWidth text next
    · rw [if_pos starved, decide_eq_true starved]
      obtain ⟨last, returned, file⟩ := @watched_failed ⟨text, esEnd text next, true⟩ rfl leftover fuel
        (header.2.position + header.1.len) 0 (header.1.len - (esEnd text next - next)) entry
        (Nat.zero_le _) (by omega) (by omega)
      refine ⟨last, ?_, file⟩
      unfold nestedWatched
      rw [if_pos (nested _ rfl)]
      exact returned
    · rw [if_neg starved, decide_eq_false starved]
      have ends : esEnd text next = next + esWidth text next := by
        unfold esEnd
        have width : esLink text next + esUrl text next ≤ esWidth text next := Nat.le_add_right _ _
        rw [if_neg (by omega), Nat.min_eq_left (by omega)]
      unfold nestedWatched
      rw [if_pos (nested _ rfl), ends, placed]
      rw [ends] at short
      exact (watches entry (by omega) fits (by omega) (Nat.zero_le _) (by omega) (by omega)).loosen fits

theorem config_matches :
    Matches text text.length
      (mp4ReadDecoderConfigDescriptor (nestedWatched leftover fuel header)
        ⟨entry, ⟨text, next, false⟩⟩ header.1.len)
      ((walkFields text isoDecoderConfigDescrTag header.1.len next).andThen
        (walkDescr text fuel (next + 13) (next + header.1.len))) := by
  have fields : walkFields text isoDecoderConfigDescrTag header.1.len next =
      if header.1.len < 13 then .overflow else .whole := by
    unfold walkFields
    rw [if_neg (by decide), if_pos rfl]
  rw [fields]
  unfold mp4ReadDecoderConfigDescriptor nestedWatched
  dsimp only
  by_cases short : header.1.len < 13
  · rw [if_pos short]
    have wraps : header.1.len < sub64 header.1.len 13 := sub64_wraps short (by decide)
    exact if_neg fun both => absurd both.1 (Nat.not_le_of_lt wraps)
  · rw [if_neg short, config_file (by omega), sub64_eq (by omega) (by omega), placed]
    dsimp only
    rw [if_pos ⟨Nat.sub_le _ _, by rw [placed]; dsimp only; omega⟩]
    exact (watches _ (by omega) fits (by omega) (Nat.zero_le _) (by omega) (by omega)).loosen fits

theorem readBody_matches {tag : Nat} :
    Matches text text.length
      (readBody leftover (nestedWatched leftover fuel header) tag header.1.len
        ⟨entry, ⟨text, next, false⟩⟩)
      ((walkFields text tag header.1.len next).andThen ((innerPlace text tag next).elim .whole
        fun inner => walkDescr text fuel inner (next + header.1.len))) := by
  by_cases es : tag = isoESDescrTag
  · subst es
    exact esDescriptor_matches header placed fits addressed enough watches
  by_cases config : tag = isoDecoderConfigDescrTag
  · subst config
    have inner : innerPlace text isoDecoderConfigDescrTag next = some (next + 13) := by
      unfold innerPlace
      rw [if_neg (by decide), if_pos rfl]
    unfold readBody
    rw [inner, if_neg (by decide), if_pos rfl]
    exact config_matches header placed fits addressed enough watches
  have inner : innerPlace text tag next = none := by
    unfold innerPlace
    rw [if_neg es, if_neg config]
  unfold readBody
  rw [inner, if_neg es, if_neg config]
  by_cases info : tag = isoDecSpecificInfoTag
  · subst info
    rw [if_pos rfl]
    exact ⟨_, rfl, _, fits, info_file leftover entry fits⟩
  rw [if_neg info]
  by_cases sl : tag = isoSLConfigDescrTag
  · subst sl
    have file := slConfig_file entry (show next ≤ text.length by omega)
    have fields : walkFields text isoSLConfigDescrTag header.1.len next =
        if text.length < next + slWidth text next then .starved text.length else .whole := by
      unfold walkFields
      rw [if_neg es, if_neg config, if_pos rfl]
    rw [if_pos rfl, fields]
    unfold readUpTo at file
    by_cases starved : text.length < next + slWidth text next
    · rw [if_neg (by omega)] at file
      rw [if_pos starved]
      exact ⟨_, rfl, file⟩
    · rw [if_pos (by omega)] at file
      rw [if_neg starved]
      exact ⟨_, rfl, _, by omega, file⟩
  · have fields : walkFields text tag header.1.len next = .whole := by
      unfold walkFields
      rw [if_neg es, if_neg config, if_neg sl]
    rw [if_neg sl, fields]
    exact ⟨_, rfl, next, by omega, rfl⟩

end Matching

variable {text : List UInt8} {leftover : Nat → List UInt8}

theorem watched_matches (addressed : text.length < 2 ^ 63) (fuel : Nat) :
    WatchesWell text leftover fuel := by
  induction fuel with
  | zero => exact fun entry _ _ enough => absurd enough (Nat.not_lt_zero _)
  | succ fuel ih =>
    intro place stop offset bytes entry inside fits enough below small same
    unfold mp4ReadTagWatched walkDescr
    by_cases done : stop ≤ place
    · rw [if_pos done, if_neg (by omega)]
      exact ⟨_, rfl, place, inside, rfl⟩
    · rw [if_neg done, if_pos (by omega)]
      have spec := descrAt_spec (Nat.lt_of_not_le done) fits
      have header := spec.1
      have positive := spec.2.1
      have room := spec.2.2.1
      have short := spec.2.2.2
      clear spec
      have left : int32 (sub64 bytes offset) = int32 (stop - place : Nat) := by
        rw [sub64_eq below (by omega), same]
      dsimp only
      rw [left, header]
      generalize descrAt text place stop = found at *
      have inside' : DescrInside stop offset bytes (found, ⟨text, place + found.count, false⟩) := by
        intro within _
        dsimp only at within ⊢
        omega
      rw [if_pos inside', readDescriptor]
      dsimp only
      rw [left, header]
      dsimp only
      rw [Nat.mod_eq_of_lt (show offset + found.count < 2 ^ 64 by omega),
        Nat.mod_eq_of_lt (show offset + found.count + found.len < 2 ^ 64 by omega)]
      by_cases beyond : stop < place + found.count + found.len
      · rw [if_pos beyond, if_pos (by omega)]
        exact ⟨_, rfl, _, room, rfl⟩
      · rw [if_neg beyond, if_neg (by omega)]
        have body := @readBody_matches text leftover fuel (place + found.count) entry
          (found, ⟨text, place + found.count, false⟩) rfl (by dsimp only; omega) addressed
          (by dsimp only; omega) ih found.tag
        dsimp only at body
        revert body
        generalize (walkFields text found.tag found.len (place + found.count)).andThen
          ((innerPlace text found.tag (place + found.count)).elim Walked.whole fun inner =>
            walkDescr text fuel inner (place + found.count + found.len)) = walked
        intro body
        cases walked with
        | overflow =>
          have failed : readBody leftover (nestedWatched leftover fuel
              (found, ⟨text, place + found.count, false⟩)) found.tag found.len
              ⟨entry, ⟨text, place + found.count, false⟩⟩ = .error .outside := body
          exact error_bind failed _
        | starved last =>
          obtain ⟨reader, returned, file⟩ := body
          obtain ⟨entry', file'⟩ := reader
          obtain rfl : file' = ⟨text, last, true⟩ := file
          have forward : MovesForward ⟨text, place, false⟩ stop offset bytes
              (offset + found.count + found.len) ⟨entry', ⟨text, last, true⟩⟩ :=
            ⟨by omega, by omega, nofun⟩
          obtain ⟨final, behind, kept⟩ := @watched_failed ⟨text, last, true⟩ rfl leftover fuel stop
            (offset + found.count + found.len) bytes entry' (by omega) small (by omega)
          refine ⟨final, ?_, kept⟩
          refine (congrArg (· >>= _) returned).trans ?_
          rw [ok_bind, skip_failed rfl, if_pos forward]
          exact behind
        | whole =>
          obtain ⟨reader, returned, last, reached, file⟩ := body
          obtain ⟨entry', file'⟩ := reader
          obtain rfl : file' = ⟨text, last, false⟩ := file
          have forward : MovesForward ⟨text, place, false⟩ stop offset bytes
              (offset + found.count + found.len)
              ⟨entry', ⟨text, place + found.count + found.len, false⟩⟩ := by
            refine ⟨by omega, by omega, fun _ => ?_⟩
            dsimp only
            omega
          have goal := ih entry' (show place + found.count + found.len ≤ stop by omega) fits
            (by omega) (show offset + found.count + found.len ≤ bytes by omega) small (by omega)
          refine Eq.mpr (congrArg (Matches text stop · _) ?_) goal
          refine (congrArg (· >>= _) returned).trans ?_
          rw [ok_bind, skip_descriptor addressed (by omega), if_pos forward]

/-! ## Boxes -/

/-- The walk through a box of so many bytes comes to no descriptor that is too short for its fields,
and the file does not give out behind the box. -/
def EsdsFits (text : List UInt8) (place size : Nat) : Prop :=
  walkDescr text size (place + 4) (place + size) ≠ .overflow ∧
    ∀ last, walkDescr text size (place + 4) (place + size) = .starved last → last ≤ place + size

/-- The walk stays inside the box exactly if its descriptors have room for their fields. -/
theorem mov_read_esds_inside_iff (leftover : Nat → List UInt8) (entry : EsdsEntry)
    (text : List UInt8) (place : Nat) (box : Box) (versioned : 4 ≤ box.size)
    (contained : place + box.size ≤ text.length) (addressed : text.length < 2 ^ 63) :
    (∃ result after, EsdsInside leftover ⟨entry, ⟨text, place, false⟩⟩ box result after) ↔
      EsdsFits text place box.size := by
  have version : (r24 (r8 ⟨text, place, false⟩).2).2 = ⟨text, place + 4, false⟩ := by
    rw [← readUpTo_zero (show place ≤ text.length by omega), r8_takes, r24_takes]
    exact if_pos (by omega)
  have walked := @watched_matches text leftover addressed box.size (place + 4) (place + box.size) 0
    (sub64 box.size 4) entry (by omega) contained (by omega) (Nat.zero_le _)
    (by rw [sub64_eq versioned (by omega)]; omega) (by rw [sub64_eq versioned (by omega)]; omega)
  have watchedEsds : movReadEsdsWatched leftover box.size ⟨entry, ⟨text, place, false⟩⟩ box =
      mp4ReadTagWatched leftover box.size (place + box.size) 0 (sub64 box.size 4)
        ⟨entry, ⟨text, place + 4, false⟩⟩ >>= fun reader =>
      .ok (movBufferError reader.file, reader) := by
    unfold movReadEsdsWatched
    dsimp only
    rw [version]
  have inside (reader : EsdsReader) (returned : mp4ReadTagWatched leftover box.size
      (place + box.size) 0 (sub64 box.size 4) ⟨entry, ⟨text, place + 4, false⟩⟩ = .ok reader)
      (ends : reader.file.position ≤ place + box.size) :
      ∃ result after, EsdsInside leftover ⟨entry, ⟨text, place, false⟩⟩ box result after := by
    refine ⟨movBufferError reader.file, reader, ?_, ?_, ends⟩
    · unfold movReadEsds
      dsimp only
      rw [version, watched_returns returned, ok_bind]
    · rw [watchedEsds, returned, ok_bind]
  unfold EsdsFits
  revert walked
  cases walkDescr text box.size (place + 4) (place + box.size) with
  | whole =>
    rintro ⟨reader, returned, last, reached, file⟩
    refine ⟨fun _ => ⟨nofun, nofun⟩, fun _ => inside reader returned ?_⟩
    rw [file]
    exact reached
  | overflow =>
    intro failed
    constructor
    · rintro ⟨result, after, -, watched, -⟩
      rw [watchedEsds, failed] at watched
      cases watched
    · exact fun fits => absurd rfl fits.1
  | starved last =>
    rintro ⟨reader, returned, file⟩
    constructor
    · rintro ⟨result, after, -, watched, ends⟩
      refine ⟨nofun, fun other same => ?_⟩
      obtain rfl : last = other := Walked.starved.inj same
      rw [watchedEsds, returned, ok_bind] at watched
      obtain rfl : reader = after := (Prod.mk.inj (Except.ok.inj watched)).2
      rwa [file] at ends
    · intro fits
      refine inside reader returned ?_
      rw [file]
      exact fits.2 last rfl

/-- The contents of a box with an `ES_Descriptor` around a `DecoderConfigDescriptor` of no bytes. -/
def emptyConfig : List UInt8 :=
  [0x00, 0x00, 0x00, 0x00, 0x03, 0x05, 0x00, 0x01, 0x00, 0x04, 0x00]

/-- The contents of a box with an `SLConfigDescriptor` of no bytes, and three bytes behind it. -/
def emptySl : List UInt8 := [0x00, 0x00, 0x00, 0x00, 0x06, 0x00, 0x00, 0x00, 0x00]

def emptyEntry : EsdsEntry := ⟨0, 0, []⟩

/-- The first box hands more bytes to a nested walk than a descriptor has, and the walk through the
second ends behind it. -/
theorem mov_read_esds_outside :
    (∀ result after, ¬EsdsInside (fun _ => []) ⟨emptyEntry, ⟨emptyConfig, 0, false⟩⟩ ⟨11, 0⟩ result
        after) ∧
      ∀ result after, ¬EsdsInside (fun _ => []) ⟨emptyEntry, ⟨emptySl, 0, false⟩⟩ ⟨6, 0⟩ result
        after := by
  constructor
  · rintro result after ⟨-, watched, -⟩
    have failed : movReadEsdsWatched (fun _ => []) 11 ⟨emptyEntry, ⟨emptyConfig, 0, false⟩⟩ ⟨11, 0⟩ =
        .error .outside := rfl
    exact nomatch failed.symm.trans watched
  · rintro result after ⟨returned, -, ends⟩
    have ended : movReadEsds (fun _ => []) 6 ⟨emptyEntry, ⟨emptySl, 0, false⟩⟩ ⟨6, 0⟩ =
        .ok (-1, ⟨emptyEntry, ⟨emptySl, 9, true⟩⟩) := rfl
    obtain rfl := (Prod.mk.inj (Except.ok.inj (ended.symm.trans returned))).2
    exact absurd ends (by decide)

/-- A box with one `ES_Descriptor` around a `DecoderConfigDescriptor` is walked through inside. -/
theorem mov_read_esds_inside_config :
    (∃ result after, EsdsInside (fun _ => []) ⟨emptyEntry, ⟨[0x00, 0x00, 0x00, 0x00, 0x03, 0x12, 0x00,
        0x01, 0x00, 0x04, 0x0D, 0x40, 0x15, 0x00, 0x00, 0x00, 0x00, 0x00, 0x00, 0x00, 0x00, 0x00, 0x00,
        0x00], 0, false⟩⟩ ⟨24, 0⟩ result after) ↔
      EsdsFits [0x00, 0x00, 0x00, 0x00, 0x03, 0x12, 0x00, 0x01, 0x00, 0x04, 0x0D, 0x40, 0x15, 0x00,
        0x00, 0x00, 0x00, 0x00, 0x00, 0x00, 0x00, 0x00, 0x00, 0x00] 0 24 :=
  mov_read_esds_inside_iff _ emptyEntry _ 0 ⟨24, 0⟩ (by decide) (by decide) (by decide)

end CLibs.Mov
