import CLibs.MovFragmentFiles

/-!
# What the fragments of a run hold

The calls fall into pieces: a piece ends before a key frame of a video track, if
it has data.  Every piece with data is one fragment, which holds the samples of
the piece, and the pieces put together are all the calls.
-/

namespace CLibs.Mov

open List

/-- The tracks of a writer; `mov_add_audio` and the others number them from one on. -/
def addedTracks (handlers : List Handler) : List FragmentTrack :=
  handlers.mapIdx fun place handler => addedTrack (place + 1) handler

/-- The samples of one track. -/
def packetsOf (place : Nat) (calls : List Fmp4Call) : List Packet :=
  (calls.filter fun call => call.track = place).map Fmp4Call.packet

def dataOf (calls : List Fmp4Call) : Nat :=
  (calls.map fun call => call.data.length).sum

def pieces (handlers : List Handler) : List Fmp4Call → List Fmp4Call → List (List Fmp4Call)
  | piece, [] => [piece]
  | piece, call :: calls =>
    match handlers[call.track]? with
    | none => pieces handlers piece calls
    | some handler =>
      if handler = .video ∧ call.packet.key ∧ 0 < dataOf piece then
        piece :: pieces handlers [call] calls
      else pieces handlers (piece ++ [call]) calls

/-- The pieces that become fragments. -/
def writtenPieces (handlers : List Handler) (calls : List Fmp4Call) : List (List Fmp4Call) :=
  (pieces handlers [] calls).filter fun piece => 0 < dataOf piece

/-! ## The fragments of a run -/

/-- The fragment that `fmp4_write_fragment` writes. -/
def Fmp4Writer.pending (writer : Fmp4Writer) : List Fragment :=
  if writer.mdatSize < 1 then []
  else [⟨writer.tracks, writer.fragmentId + 1, writer.mdatSize⟩]

def Fmp4Writer.timed (writer : Fmp4Writer) (call : Fmp4Call) : Fmp4Writer :=
  { writer with tracks := writer.tracks.modify call.track (FragmentTrack.takeDuration call.dts) }

def callFragments (writer : Fmp4Writer) (call : Fmp4Call) : List Fragment :=
  match writer.tracks[call.track]? with
  | none => []
  | some track =>
    if track.handler = .video ∧ call.packet.key then (writer.timed call).pending else []

def runFragments : Fmp4Writer → List Fmp4Call → List Fragment
  | writer, [] => writer.pending
  | writer, call :: calls =>
    callFragments writer call ++ runFragments (fmp4WriterWrite writer call) calls

theorem fragmentsText_append (first second : List Fragment) :
    fragmentsText (first ++ second) = fragmentsText first ++ fragmentsText second := by
  unfold fragmentsText
  rw [map_append, flatten_append]

theorem fmp4WriteFragment_file (writer : Fmp4Writer) :
    (fmp4WriteFragment writer).file = writer.file ++ fragmentsText writer.pending := by
  unfold fmp4WriteFragment Fmp4Writer.pending
  split
  · exact (append_nil _).symm
  · simp [fragmentsText, Fragment.text]

theorem fmp4WriterWrite_file (writer : Fmp4Writer) (call : Fmp4Call) :
    (fmp4WriterWrite writer call).file =
      writer.file ++ fragmentsText (callFragments writer call) := by
  unfold fmp4WriterWrite callFragments
  cases writer.tracks[call.track]? with
  | none => exact (append_nil _).symm
  | some track =>
    dsimp only
    by_cases cuts : track.handler = .video ∧ call.packet.key
    · rw [if_pos cuts, if_pos cuts]
      exact fmp4WriteFragment_file (writer.timed call)
    · rw [if_neg cuts, if_neg cuts]
      exact (append_nil _).symm

theorem run_file (calls : List Fmp4Call) (writer : Fmp4Writer) :
    (fmp4WriteFragment (calls.foldl fmp4WriterWrite writer)).file =
      writer.file ++ fragmentsText (runFragments writer calls) := by
  induction calls generalizing writer with
  | nil => exact fmp4WriteFragment_file writer
  | cons call calls ih =>
    rw [foldl_cons, ih, fmp4WriterWrite_file, runFragments, fragmentsText_append,
      append_assoc]

/-! ## The samples of a writer -/

structure Holds (place : Nat) (handler : Handler) (past piece : List Fmp4Call)
    (track : FragmentTrack) : Prop where
  trackId : track.trackId = place + 1
  handler : track.handler = handler
  samples : track.samples = packetsOf place piece
  startDts : track.startDts = ((packetsOf place past).map Packet.dts).headD int64Min

def allSamples (tracks : List FragmentTrack) : List Packet :=
  tracks.flatMap FragmentTrack.samples

structure Collected (handlers : List Handler) (past piece : List Fmp4Call)
    (tracks : List FragmentTrack) : Prop where
  length : tracks.length = handlers.length
  holds : ∀ place track handler, tracks[place]? = some track → handlers[place]? = some handler →
    Holds place handler past piece track
  whole : (allSamples tracks).Perm (piece.map Fmp4Call.packet)

structure Collecting (handlers : List Handler) (past piece : List Fmp4Call)
    (writer : Fmp4Writer) : Prop where
  tracks : Collected handlers past piece writer.tracks
  mdatSize : writer.mdatSize = dataOf piece

variable {handlers : List Handler} {past piece : List Fmp4Call} {call : Fmp4Call}
  {tracks : List FragmentTrack} {writer : Fmp4Writer}

theorem packetsOf_append (place : Nat) (first second : List Fmp4Call) :
    packetsOf place (first ++ second) = packetsOf place first ++ packetsOf place second := by
  unfold packetsOf
  rw [filter_append, map_append]

theorem packetsOf_here (call : Fmp4Call) : packetsOf call.track [call] = [call.packet] := by
  simp [packetsOf]

theorem packetsOf_elsewhere {place : Nat} (other : call.track ≠ place) :
    packetsOf place [call] = [] := by
  simp [packetsOf, other]

theorem dataOf_append (first second : List Fmp4Call) :
    dataOf (first ++ second) = dataOf first + dataOf second := by
  unfold dataOf
  rw [map_append, sum_append]

theorem dataOf_single (call : Fmp4Call) : dataOf [call] = call.data.length := by
  simp [dataOf]

theorem mediaData_length (tracks : List FragmentTrack) :
    (mediaData tracks).length =
      ((allSamples tracks).map fun packet => packet.data.length).sum := by
  induction tracks with
  | nil => rfl
  | cons track tracks ih =>
    unfold mediaData at ih ⊢
    simp only [map_cons, flatten_cons, length_append, allSamples,
      flatMap_cons, map_append, sum_append]
    rw [ih, length_flatten, map_map]
    rfl

theorem Collected.media (collected : Collected handlers past piece tracks) :
    (mediaData tracks).length = dataOf piece := by
  rw [mediaData_length, (collected.whole.map _).sum_nat, map_map]
  rfl

theorem scaled_ne (time : Int) : scaled time ≠ int64Min := by
  unfold scaled int64 int64Min
  have low : -(2 ^ 63 : Int) ≤ Int.bmod (time * 1000) (2 ^ 64) := Int.le_bmod (by decide)
  have whole := Int.mul_tdiv_add_tmod (Int.bmod (time * 1000) (2 ^ 64)) 1000
  have small := Int.tmod_lt_of_pos (Int.bmod (time * 1000) (2 ^ 64)) (show (0 : Int) < 1000 by decide)
  omega

/-! ### A track that is changed -/

theorem modify_getElem? {Value : Type} {values : List Value} {index place : Nat}
    {change : Value → Value} {value : Value}
    (here : (values.modify index change)[place]? = some value) :
    ∃ before, values[place]? = some before ∧
      value = if index = place then change before else before := by
  rw [List.getElem?_modify] at here
  cases found : values[place]? with
  | none => simp [found] at here
  | some before =>
    refine ⟨before, rfl, ?_⟩
    rw [found] at here
    by_cases same : index = place
    · simp only [same, if_true] at here ⊢
      exact (Option.some.inj here).symm
    · simp only [same, if_false] at here ⊢
      exact (Option.some.inj here).symm

theorem allSamples_same {change : FragmentTrack → FragmentTrack}
    (same : ∀ track, (change track).samples = track.samples) (index : Nat) :
    allSamples (tracks.modify index change) = allSamples tracks := by
  induction tracks generalizing index with
  | nil => cases index <;> rfl
  | cons track tracks ih =>
    cases index with
    | zero => simp only [modify_zero_cons, allSamples, flatMap_cons, same]
    | succ index =>
      have rest := ih index
      unfold allSamples at rest ⊢
      rw [modify_succ_cons, flatMap_cons, flatMap_cons, rest]

theorem allSamples_store {index : Nat} (packet : Packet) (inside : index < tracks.length) :
    (allSamples (tracks.modify index (FragmentTrack.store packet))).Perm
      (allSamples tracks ++ [packet]) := by
  induction tracks generalizing index with
  | nil => cases inside
  | cons track tracks ih =>
    cases index with
    | zero =>
      rw [modify_zero_cons]
      unfold allSamples
      rw [flatMap_cons, flatMap_cons, FragmentTrack.store, append_assoc,
        append_assoc]
      exact List.Perm.append_left _ perm_append_comm
    | succ index =>
      have rest := ih (Nat.lt_of_succ_lt_succ inside)
      rw [modify_succ_cons]
      unfold allSamples at rest ⊢
      rw [flatMap_cons, flatMap_cons, append_assoc]
      exact rest.append_left _

theorem allSamples_clear (tracks : List FragmentTrack) :
    allSamples (tracks.map FragmentTrack.clear) = [] := by
  unfold allSamples
  rw [flatMap_map]
  exact flatMap_eq_nil_iff.mpr fun _ _ => rfl

theorem Collected.timed (collected : Collected handlers past piece tracks) (index : Nat) (dts : Int) :
    Collected handlers past piece (tracks.modify index (FragmentTrack.takeDuration dts)) where
  length := by rw [length_modify, collected.length]
  holds place track handler here kind := by
    obtain ⟨before, beforeHere, rfl⟩ := modify_getElem? here
    have holds := collected.holds place before handler beforeHere kind
    split
    · exact ⟨holds.trackId, holds.handler, holds.samples, holds.startDts⟩
    · exact holds
  whole := by
    have same := @allSamples_same tracks (FragmentTrack.takeDuration dts) (fun _ => rfl) index
    rw [same]
    exact collected.whole

theorem Collected.clear (collected : Collected handlers past piece tracks) :
    Collected handlers past [] (tracks.map FragmentTrack.clear) where
  length := by rw [length_map, collected.length]
  holds place track handler here kind := by
    rw [List.getElem?_map] at here
    obtain ⟨before, beforeHere, rfl⟩ := Option.map_eq_some_iff.mp here
    have holds := collected.holds place before handler beforeHere kind
    exact ⟨holds.trackId, holds.handler, rfl, holds.startDts⟩
  whole := by
    rw [allSamples_clear]
    exact .nil

theorem Collected.store (collected : Collected handlers past piece tracks)
    (inside : call.track < handlers.length) :
    Collected handlers (past ++ [call]) (piece ++ [call])
      (tracks.modify call.track (FragmentTrack.store call.packet)) where
  length := by rw [length_modify, collected.length]
  holds place track handler here kind := by
    obtain ⟨before, beforeHere, rfl⟩ := modify_getElem? here
    have holds := collected.holds place before handler beforeHere kind
    by_cases same : call.track = place
    · rw [if_pos same]
      refine ⟨holds.trackId, holds.handler, ?_, ?_⟩
      · rw [packetsOf_append, ← same, packetsOf_here, same, ← holds.samples]
        rfl
      · unfold FragmentTrack.store
        dsimp only
        rw [packetsOf_append, holds.startDts, ← same, packetsOf_here]
        cases earlier : packetsOf call.track past with
        | nil => rfl
        | cons first rest =>
          have stored : first ∈ packetsOf call.track past := by
            rw [earlier]
            exact mem_cons_self
          obtain ⟨origin, -, rfl⟩ := mem_map.mp stored
          exact if_neg (Ne.symm (scaled_ne origin.dts))
    · rw [if_neg same]
      refine ⟨holds.trackId, holds.handler, ?_, ?_⟩
      · rw [packetsOf_append, packetsOf_elsewhere same, append_nil, holds.samples]
      · rw [packetsOf_append, packetsOf_elsewhere same, append_nil, holds.startDts]
  whole := by
    rw [← collected.length] at inside
    rw [map_append]
    exact (allSamples_store call.packet inside).trans (collected.whole.append_right _)

theorem Collecting.timed (collecting : Collecting handlers past piece writer) (call : Fmp4Call) :
    Collecting handlers past piece (writer.timed call) :=
  ⟨collecting.tracks.timed call.track call.dts, collecting.mdatSize⟩

theorem Collecting.cut (collecting : Collecting handlers past piece writer)
    (waits : 0 < dataOf piece) : Collecting handlers past [] (fmp4WriteFragment writer) := by
  have size := collecting.mdatSize
  unfold fmp4WriteFragment
  rw [if_neg (by omega)]
  exact ⟨collecting.tracks.clear, rfl⟩

theorem Collecting.store (collecting : Collecting handlers past piece writer)
    (inside : call.track < handlers.length) :
    Collecting handlers (past ++ [call]) (piece ++ [call])
      { writer with
        tracks := writer.tracks.modify call.track (FragmentTrack.store call.packet)
        mdatSize := writer.mdatSize + call.data.length } where
  tracks := collecting.tracks.store inside
  mdatSize := by rw [collecting.mdatSize, dataOf_append, dataOf_single]

/-! ## Calls -/

structure Carries (handlers : List Handler) (given piece : List Fmp4Call) (fragment : Fragment) :
    Prop where
  tracks : ∃ past, past <+: given ∧ piece <:+ past ∧ Collected handlers past piece fragment.tracks
  mdatSize : fragment.mdatSize = dataOf piece
  positive : 0 < dataOf piece

def validCalls (handlers : List Handler) (calls : List Fmp4Call) : List Fmp4Call :=
  calls.filter fun call => call.track < handlers.length

theorem pieces_flatten (handlers : List Handler) (calls piece : List Fmp4Call) :
    (pieces handlers piece calls).flatten = piece ++ validCalls handlers calls := by
  induction calls generalizing piece with
  | nil => simp [pieces, validCalls]
  | cons call calls ih =>
    unfold pieces
    cases kind : handlers[call.track]? with
    | none =>
      have outside := List.getElem?_eq_none_iff.mp kind
      have skipped : validCalls handlers (call :: calls) = validCalls handlers calls := by
        simp [validCalls, outside]
      rw [skipped]
      exact ih piece
    | some handler =>
      obtain ⟨inside, -⟩ := List.getElem?_eq_some_iff.mp kind
      have kept : validCalls handlers (call :: calls) = call :: validCalls handlers calls := by
        simp [validCalls, inside]
      rw [kept]
      dsimp only
      split
      · rw [flatten_cons, ih]
        rfl
      · rw [ih, append_assoc]
        rfl

theorem Collecting.pending (collecting : Collecting handlers past piece writer)
    {given : List Fmp4Call} (earlier : past <+: given) (last : piece <:+ past) :
    List.Forall₂ (Carries handlers given) ([piece].filter fun piece => 0 < dataOf piece)
      writer.pending := by
  have size := collecting.mdatSize
  unfold Fmp4Writer.pending
  by_cases waits : 0 < dataOf piece
  · rw [if_neg (by omega), filter_cons_of_pos (by simpa using waits), filter_nil]
    exact .cons ⟨⟨past, earlier, last, collecting.tracks⟩, size, waits⟩ .nil
  · rw [if_pos (by omega), filter_cons_of_neg (by simpa using waits), filter_nil]
    exact .nil

theorem Collecting.track (collecting : Collecting handlers past piece writer) {handler : Handler}
    (kind : handlers[call.track]? = some handler) :
    ∃ track, writer.tracks[call.track]? = some track ∧ track.handler = handler := by
  obtain ⟨inside, -⟩ := List.getElem?_eq_some_iff.mp kind
  rw [← collecting.tracks.length] at inside
  refine ⟨_, List.getElem?_eq_getElem inside, ?_⟩
  exact (collecting.tracks.holds _ _ handler (List.getElem?_eq_getElem inside) kind).handler

theorem Collecting.outside (collecting : Collecting handlers past piece writer)
    (outside : handlers[call.track]? = none) :
    callFragments writer call = [] ∧ fmp4WriterWrite writer call = writer := by
  have missing : writer.tracks[call.track]? = none := by
    rw [List.getElem?_eq_none_iff] at outside ⊢
    rw [collecting.tracks.length]
    exact outside
  unfold callFragments fmp4WriterWrite
  rw [missing]
  exact ⟨rfl, rfl⟩

theorem Collecting.cuts (collecting : Collecting handlers past piece writer)
    (kind : handlers[call.track]? = some .video) (key : call.packet.key = true)
    (waits : 0 < dataOf piece) :
    callFragments writer call = (writer.timed call).pending ∧
      Collecting handlers (past ++ [call]) [call] (fmp4WriterWrite writer call) := by
  obtain ⟨track, here, video⟩ := collecting.track kind
  obtain ⟨inside, -⟩ := List.getElem?_eq_some_iff.mp kind
  unfold callFragments fmp4WriterWrite
  rw [here]
  dsimp only
  rw [if_pos ⟨video, key⟩, if_pos ⟨video, key⟩]
  exact ⟨rfl, ((collecting.timed call).cut waits).store inside⟩

theorem Collecting.goesOn (collecting : Collecting handlers past piece writer) {handler : Handler}
    (kind : handlers[call.track]? = some handler)
    (together : ¬(handler = .video ∧ call.packet.key ∧ 0 < dataOf piece)) :
    callFragments writer call = [] ∧
      Collecting handlers (past ++ [call]) (piece ++ [call]) (fmp4WriterWrite writer call) := by
  obtain ⟨track, here, rfl⟩ := collecting.track kind
  obtain ⟨inside, -⟩ := List.getElem?_eq_some_iff.mp kind
  have timed := collecting.timed call
  unfold callFragments fmp4WriterWrite
  rw [here]
  dsimp only
  by_cases cuts : track.handler = .video ∧ call.packet.key
  · have empty : (writer.timed call).mdatSize < 1 := by
      have size := timed.mdatSize
      have none : ¬0 < dataOf piece := fun waits => together ⟨cuts.1, cuts.2, waits⟩
      omega
    rw [if_pos cuts, if_pos cuts, Fmp4Writer.pending, if_pos empty]
    have unwritten : fmp4WriteFragment (writer.timed call) = writer.timed call := if_pos empty
    change _ ∧ Collecting handlers (past ++ [call]) (piece ++ [call])
      { fmp4WriteFragment (writer.timed call) with
        tracks := (fmp4WriteFragment (writer.timed call)).tracks.modify call.track _
        mdatSize := (fmp4WriteFragment (writer.timed call)).mdatSize + _ }
    rw [unwritten]
    exact ⟨rfl, timed.store inside⟩
  · rw [if_neg cuts, if_neg cuts]
    exact ⟨rfl, timed.store inside⟩

theorem Collecting.run (calls : List Fmp4Call) (collecting : Collecting handlers past piece writer)
    (last : piece <:+ past) :
    List.Forall₂ (Carries handlers (past ++ validCalls handlers calls))
      ((pieces handlers piece calls).filter fun piece => 0 < dataOf piece)
      (runFragments writer calls) := by
  induction calls generalizing past piece writer with
  | nil =>
    rw [runFragments, pieces]
    exact collecting.pending (prefix_append _ _) last
  | cons call calls ih =>
    unfold pieces runFragments
    cases kind : handlers[call.track]? with
    | none =>
      have outside := List.getElem?_eq_none_iff.mp kind
      have skipped : validCalls handlers (call :: calls) = validCalls handlers calls := by
        simp [validCalls, outside]
      obtain ⟨none, same⟩ := collecting.outside kind
      rw [none, same, skipped]
      exact ih collecting last
    | some handler =>
      obtain ⟨inside, -⟩ := List.getElem?_eq_some_iff.mp kind
      have kept : past ++ validCalls handlers (call :: calls) =
          past ++ [call] ++ validCalls handlers calls := by
        simp [validCalls, inside]
      rw [kept]
      dsimp only
      by_cases cuts : handler = .video ∧ call.packet.key ∧ 0 < dataOf piece
      · obtain ⟨video, key, waits⟩ := cuts
        obtain ⟨written, next⟩ := collecting.cuts (kind.trans (congrArg some video)) key waits
        rw [if_pos ⟨video, key, waits⟩, written, filter_cons, if_pos (by simpa using waits)]
        have first := (collecting.timed call).pending
          (List.IsPrefix.trans (prefix_append past [call])
            (prefix_append _ (validCalls handlers calls))) last
        rw [filter_cons, if_pos (by simpa using waits), filter_nil] at first
        exact rel_append first (ih next (suffix_append past [call]))
      · obtain ⟨none, next⟩ := collecting.goesOn kind cuts
        rw [if_neg cuts, none]
        obtain ⟨before, rfl⟩ := last
        exact ih next ⟨before, by rw [append_assoc]⟩

theorem collecting_start (handlers : List Handler) :
    Collecting handlers [] [] ⟨addedTracks handlers, 0, 0, []⟩ where
  tracks :=
    { length := length_mapIdx
      holds := by
        intro place track handler here kind
        unfold addedTracks at here
        rw [List.getElem?_mapIdx, kind] at here
        rw [← Option.some.inj here]
        exact ⟨rfl, rfl, rfl, rfl⟩
      whole := by
        have none : allSamples (addedTracks handlers) = [] := by
          unfold allSamples
          rw [flatMap_eq_nil_iff]
          intro track member
          obtain ⟨place, inside, rfl⟩ := mem_mapIdx.mp member
          rfl
        rw [none]
        exact .nil }
  mdatSize := rfl

def writtenFragments (handlers : List Handler) (calls : List Fmp4Call) : List Fragment :=
  runFragments ⟨addedTracks handlers, 0, 0, []⟩ calls

theorem writtenFragments_text (handlers : List Handler) (calls : List Fmp4Call) :
    fmp4Fragments (addedTracks handlers) calls = fragmentsText (writtenFragments handlers calls) :=
  run_file calls _

/-- Each fragment carries the calls between two key frames. -/
theorem writtenFragments_carry (handlers : List Handler) (calls : List Fmp4Call) :
    List.Forall₂ (Carries handlers (validCalls handlers calls)) (writtenPieces handlers calls)
      (writtenFragments handlers calls) :=
  (collecting_start handlers).run calls (suffix_refl [])

end CLibs.Mov
