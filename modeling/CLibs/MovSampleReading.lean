import CLibs.MovSeeking

/-!
# Reading the samples of all tracks

`mov_reader_init` puts every track back to its start, and `mov_reader_read` hands on one sample of
the track that `mov_reader_next` picks.  The walk over the boxes is not looked at here: the tracks
are any that it may leave.
-/

namespace CLibs.Mov

open List

/-! ## The reader -/

/-- What `mov_reader_init` uses of a track besides. -/
structure OpenedTrack extends ReaderTrack where
  video : Bool
  mdhdDuration : Nat
  tkhdDuration : Nat

/-- What it uses of `mov_mvhd_t`. -/
structure MovieHeader where
  timescale : Nat
  duration : Nat

def movAvFlagKeyframe : Nat := 0x0001

/-- The numbers of the key frames, from a number on. -/
def keyframesFrom : Nat → List ReaderSample → List UInt32
  | _, [] => []
  | number, sample :: samples =>
    if (sample.flags % 2 ^ 32).toNat &&& movAvFlagKeyframe ≠ 0 then
      UInt32.ofNat number :: keyframesFrom (number + 1) samples
    else keyframesFrom (number + 1) samples

/-- `mov_index_build`; memory is available. -/
def movIndexBuild (track : OpenedTrack) : OpenedTrack :=
  if track.stss.length > 0 ∨ track.video = false then track
  else { track with stss := keyframesFrom 1 track.samples }

/-- The duration of a track without one is the distance of its last time from its first. -/
def fillDuration (track : OpenedTrack) : OpenedTrack :=
  if track.mdhdDuration = 0 ∧ track.samples.length > 0 then
    { track with
      mdhdDuration :=
        ((track.dts (track.samples.length - 1) - track.dts 0) % 2 ^ 64).toNat }
  else track

def openTrack (mvhd : MovieHeader) (track : OpenedTrack) :
    Except ReaderFault (MovieHeader × OpenedTrack) := do
  let track := { movIndexBuild track with sampleOffset := 0 }
  let track := fillDuration track
  let track ←
    if track.tkhdDuration = 0 then
      if track.timescale = 0 then .error .division
      else .ok { track with
        tkhdDuration := track.mdhdDuration * mvhd.timescale % 2 ^ 64 / track.timescale }
    else .ok track
  .ok (if track.tkhdDuration > mvhd.duration then { mvhd with duration := track.tkhdDuration }
    else mvhd, track)

/-- The loop of `mov_reader_init` over the tracks of the file. -/
def movReaderInit (mvhd : MovieHeader) : List OpenedTrack →
    Except ReaderFault (MovieHeader × List OpenedTrack)
  | [] => .ok (mvhd, [])
  | track :: others => do
      let opened ← openTrack mvhd track
      let rest ← movReaderInit opened.1 others
      .ok (rest.1, opened.2 :: rest.2)

/-- The track that is best so far: its index, and the time and the place of its next sample. -/
structure Best where
  index : Nat
  dts : Int
  offset : Nat

def avTrackTimebase : Int := 1000

def Best.after (best : Best) (dts : Int) (offset : Nat) : Bool :=
  (dts < best.dts ∧ int64 (best.dts - dts) > avTrackTimebase) ∨ offset < best.offset

def nextFrom (asserts : Bool) : (index : Nat) → Option Best → List ReaderTrack →
    Except ReaderFault (Option Best)
  | _, best, [] => .ok best
  | index, best, track :: others =>
    if asserts ∧ track.sampleOffset > track.samples.length then .error .assertion
    else
      match track.samples[track.sampleOffset]? with
      | none => nextFrom asserts (index + 1) best others
      | some sample => do
          let dts ← milliseconds track sample.dts
          nextFrom asserts (index + 1)
            (if best.all fun best => best.after dts sample.offset then
              some ⟨index, dts, sample.offset⟩
            else best)
            others

/-- `mov_reader_next`: the index of a track. -/
def movReaderNext (asserts : Bool) (tracks : List ReaderTrack) : Except ReaderFault (Option Nat) := do
  let best ← nextFrom asserts 0 none tracks
  .ok (best.map fun best => best.index)

/-- The arguments of a call of `mov_reader_read`. -/
structure ReadCall where
  bytes : Nat
  io : Nat → Nat → Except Int (List UInt8)

/-- A call of `onread`, and the index of the track that it is for. -/
structure Delivery where
  index : Nat
  trackId : Nat
  buffer : List UInt8
  pts : Int
  dts : Int
  flags : Int
  deriving DecidableEq

def enomem : Int := 12

def ReaderTrack.advance (track : ReaderTrack) : ReaderTrack :=
  { track with sampleOffset := track.sampleOffset + 1 }

/-- `mov_reader_read`: what it returns, the sample that it hands on, and the tracks. -/
def movReaderRead (asserts : Bool) (call : ReadCall) (tracks : List ReaderTrack) :
    Except ReaderFault (Int × Option Delivery × List ReaderTrack) := do
  let next ← movReaderNext asserts tracks
  match next with
  | none => .ok (0, none, tracks)
  | some index =>
    match tracks[index]? with
    | none => .error .outside
    | some track =>
      if track.timescale = 0 then .ok (0, none, tracks)
      else
        match track.samples[track.sampleOffset]? with
        | none => .error (if asserts then .assertion else .outside)
        | some sample =>
          if call.bytes < sample.bytes then .ok (enomem, none, tracks)
          else
            match call.io sample.offset sample.bytes with
            | .error code => .ok (code, none, tracks)
            | .ok buffer =>
              if asserts ∧ sample.sampleDescriptionIndex = 0 then .error .assertion
              else do
                let pts ← milliseconds track sample.pts
                let dts ← milliseconds track sample.dts
                .ok (1, some ⟨index, track.trackId, buffer, pts, dts, sample.flags⟩,
                  tracks.set index track.advance)

def movReaderReads (asserts : Bool) : List ReadCall → List ReaderTrack →
    Except ReaderFault (List (Int × Option Delivery) × List ReaderTrack)
  | [], tracks => .ok ([], tracks)
  | call :: calls, tracks => do
      let first ← movReaderRead asserts call tracks
      let rest ← movReaderReads asserts calls first.2.2
      .ok ((first.1, first.2.1) :: rest.1, rest.2)

/-! ## What is left to read -/

section Tracks

variable {asserts : Bool} {tracks others : List ReaderTrack}

def ReaderTrack.remaining (track : ReaderTrack) : Nat := track.samples.length - track.sampleOffset

def remaining (tracks : List ReaderTrack) : Nat := (tracks.map ReaderTrack.remaining).sum

theorem remaining_eq_zero_iff :
    remaining tracks = 0 ↔ ∀ track ∈ tracks, track.samples.length ≤ track.sampleOffset := by
  induction tracks with
  | nil => simp [remaining]
  | cons track tracks ih =>
    simp only [remaining, map_cons, sum_cons, ReaderTrack.remaining] at ih ⊢
    simp only [forall_mem_cons, ← ih]
    omega

variable {index : Nat} {track : ReaderTrack}

theorem remaining_advance (found : tracks[index]? = some track)
    (more : track.sampleOffset < track.samples.length) :
    remaining (tracks.set index track.advance) + 1 = remaining tracks := by
  induction tracks generalizing index with
  | nil => cases found
  | cons first tracks ih =>
    cases index with
    | zero =>
      cases found
      simp only [remaining, set_cons_zero, map_cons, sum_cons,
        ReaderTrack.remaining, ReaderTrack.advance]
      omega
    | succ index =>
      have rest := ih found
      simp only [remaining, set_cons_succ, map_cons, sum_cons] at rest ⊢
      omega

/-- The tracks can be read to their ends: positions are in range, a time can be divided by the
timescale, and the assertion about description indexes holds. -/
structure Readable (asserts : Bool) (tracks : List ReaderTrack) : Prop where
  within : ∀ track ∈ tracks, track.sampleOffset ≤ track.samples.length
  timed : ∀ track ∈ tracks, track.sampleOffset < track.samples.length → track.timescale ≠ 0
  described : asserts = true → ∀ track ∈ tracks, ∀ sample ∈ track.samples,
    sample.sampleDescriptionIndex ≠ 0

theorem Readable.advance (readable : Readable asserts tracks) (found : tracks[index]? = some track)
    (more : track.sampleOffset < track.samples.length) :
    Readable asserts (tracks.set index track.advance) := by
  have member := mem_of_getElem? found
  constructor
  · intro other otherMember
    rcases mem_or_eq_of_mem_set otherMember with old | rfl
    · exact readable.within other old
    · exact more
  · intro other otherMember unread
    rcases mem_or_eq_of_mem_set otherMember with old | rfl
    · exact readable.timed other old unread
    · exact readable.timed track member more
  · intro enabled other otherMember
    rcases mem_or_eq_of_mem_set otherMember with old | rfl
    · exact readable.described enabled other old
    · exact readable.described enabled track member

/-! ## Picking a track -/

theorem milliseconds_ok {time value : Int} (returned : milliseconds track time = .ok value) :
    track.timescale ≠ 0 ∧ value = (int64 (time * 1000)).tdiv track.timescale := by
  unfold milliseconds at returned
  split at returned
  · cases returned
  · next timed => exact ⟨timed, (Except.ok.inj returned).symm⟩

theorem milliseconds_of_ne (timed : track.timescale ≠ 0) (time : Int) :
    milliseconds track time = .ok ((int64 (time * 1000)).tdiv track.timescale) := by
  unfold milliseconds
  rw [if_neg timed]

variable {best : Option Best}

theorem nextFrom_timed {found : Option Best}
    (returned : nextFrom asserts index best tracks = .ok found) :
    ∀ track ∈ tracks, track.sampleOffset < track.samples.length → track.timescale ≠ 0 := by
  induction tracks generalizing index best with
  | nil => nofun
  | cons track others ih =>
    rw [nextFrom] at returned
    split at returned
    · cases returned
    · split at returned
      · next read =>
          have done := List.getElem?_eq_none_iff.mp read
          rintro other (_ | ⟨_, member⟩) unread
          · omega
          · exact ih returned other member unread
      · next sample unread =>
          cases time : milliseconds track sample.dts with
          | error fault =>
            rw [time] at returned
            cases returned
          | ok dts =>
            rw [time] at returned
            rintro other (_ | ⟨_, member⟩) more
            · exact (milliseconds_ok time).1
            · exact ih returned other member more

theorem nextFrom_cases {found : Option Best}
    (returned : nextFrom asserts index best tracks = .ok found) :
    (found = best ∨ ∃ place track sample, tracks[place]? = some track ∧
      track.samples[track.sampleOffset]? = some sample ∧
      found.map (fun best => best.index) = some (index + place)) ∧
    (found = none → best = none ∧
      ∀ track ∈ tracks, track.samples.length ≤ track.sampleOffset) := by
  induction tracks generalizing index best with
  | nil =>
    cases returned
    exact ⟨.inl rfl, fun none => ⟨none, nofun⟩⟩
  | cons track others ih =>
    rw [nextFrom] at returned
    split at returned
    · cases returned
    · split at returned
      · next read =>
          have done := List.getElem?_eq_none_iff.mp read
          obtain ⟨picked, nothing⟩ := ih returned
          constructor
          · rcases picked with kept | ⟨place, other, sample, at_place, unread, same⟩
            · exact .inl kept
            · refine .inr ⟨place + 1, other, sample, at_place, unread, ?_⟩
              rw [same]
              congr 1
              omega
          · intro none
            obtain ⟨same, rest⟩ := nothing none
            exact ⟨same, forall_mem_cons.mpr ⟨done, rest⟩⟩
      · next sample unread =>
          cases time : milliseconds track sample.dts with
          | error fault =>
            rw [time] at returned
            cases returned
          | ok dts =>
            rw [time] at returned
            obtain ⟨picked, nothing⟩ := ih returned
            constructor
            · rcases picked with kept | ⟨place, other, sample, at_place, unread, same⟩
              · split at kept
                · refine .inr ⟨0, track, sample, rfl, unread, ?_⟩
                  rw [kept]
                  rfl
                · exact .inl kept
              · refine .inr ⟨place + 1, other, sample, at_place, unread, ?_⟩
                rw [same]
                congr 1
                omega
            · intro none
              obtain ⟨same, -⟩ := nothing none
              split at same
              · cases same
              · next kept =>
                  subst same
                  exact absurd rfl kept

theorem nextFrom_returns (within : ∀ track ∈ tracks, track.sampleOffset ≤ track.samples.length)
    (timed : ∀ track ∈ tracks, track.sampleOffset < track.samples.length → track.timescale ≠ 0) :
    ∃ found, nextFrom asserts index best tracks = .ok found := by
  induction tracks generalizing index best with
  | nil => exact ⟨best, rfl⟩
  | cons track others ih =>
    obtain ⟨first, rest⟩ := forall_mem_cons.mp within
    obtain ⟨firstTimed, restTimed⟩ := forall_mem_cons.mp timed
    rw [nextFrom, if_neg (by omega)]
    split
    · exact ih rest restTimed
    · next sample unread =>
        have more := (List.getElem?_eq_some_iff.mp unread).1
        rw [milliseconds_of_ne (firstTimed more)]
        exact ih rest restTimed

theorem movReaderNext_timed {next : Option Nat} (returned : movReaderNext asserts tracks = .ok next) :
    ∀ track ∈ tracks, track.sampleOffset < track.samples.length → track.timescale ≠ 0 := by
  unfold movReaderNext at returned
  cases found : nextFrom asserts 0 none tracks with
  | error fault =>
    rw [found] at returned
    cases returned
  | ok best => exact nextFrom_timed found

theorem movReaderNext_none (returned : movReaderNext asserts tracks = .ok none) :
    ∀ track ∈ tracks, track.samples.length ≤ track.sampleOffset := by
  unfold movReaderNext at returned
  cases found : nextFrom asserts 0 none tracks with
  | error fault =>
    rw [found] at returned
    cases returned
  | ok best =>
    rw [found] at returned
    have nothing := Option.map_eq_none_iff.mp (Except.ok.inj returned)
    exact ((nextFrom_cases found).2 nothing).2

theorem movReaderNext_some (returned : movReaderNext asserts tracks = .ok (some index)) :
    ∃ track sample, tracks[index]? = some track ∧
      track.samples[track.sampleOffset]? = some sample := by
  unfold movReaderNext at returned
  cases found : nextFrom asserts 0 none tracks with
  | error fault =>
    rw [found] at returned
    cases returned
  | ok best =>
    rw [found] at returned
    have same := Except.ok.inj returned
    rcases (nextFrom_cases found).1 with none | ⟨place, track, sample, at_place, unread, picked⟩
    · subst none
      cases same
    · rw [same, Nat.zero_add] at picked
      cases picked
      exact ⟨track, sample, at_place, unread⟩

theorem movReaderNext_returns (readable : Readable asserts tracks) :
    ∃ next, movReaderNext asserts tracks = .ok next := by
  obtain ⟨best, found⟩ : ∃ best, nextFrom asserts 0 none tracks = .ok best :=
    nextFrom_returns readable.within readable.timed
  unfold movReaderNext
  rw [found]
  exact ⟨_, rfl⟩

/-! ## One call -/

def delivery (contents : Nat → Nat → List UInt8) (index : Nat) (track : ReaderTrack)
    (sample : ReaderSample) : Delivery :=
  ⟨index, track.trackId, contents sample.offset sample.bytes,
    (int64 (sample.pts * 1000)).tdiv track.timescale,
    (int64 (sample.dts * 1000)).tdiv track.timescale, sample.flags⟩

def ReadCall.Suffices (call : ReadCall) (contents : Nat → Nat → List UInt8)
    (tracks : List ReaderTrack) : Prop :=
  ∀ track ∈ tracks, ∀ sample ∈ track.samples, sample.bytes ≤ call.bytes ∧
    call.io sample.offset sample.bytes = .ok (contents sample.offset sample.bytes)

variable {call : ReadCall} {contents : Nat → Nat → List UInt8}

theorem ReadCall.Suffices.advance (enough : call.Suffices contents tracks)
    (found : tracks[index]? = some track) :
    call.Suffices contents (tracks.set index track.advance) := by
  intro other otherMember
  rcases mem_or_eq_of_mem_set otherMember with old | rfl
  · exact enough other old
  · exact enough track (mem_of_getElem? found)

variable {rest : List ReaderTrack}

theorem movReaderRead_cases {r : Int} {handed : Option Delivery}
    (returned : movReaderRead asserts call tracks = .ok (r, handed, rest)) :
    (handed = none ∧ rest = tracks) ∨
      ∃ index track sample, tracks[index]? = some track ∧
        track.samples[track.sampleOffset]? = some sample ∧
        (asserts = true → sample.sampleDescriptionIndex ≠ 0) ∧ handed ≠ none ∧
        rest = tracks.set index track.advance := by
  unfold movReaderRead at returned
  cases picked : movReaderNext asserts tracks with
  | error fault =>
    rw [picked] at returned
    cases returned
  | ok next =>
    rw [picked] at returned
    cases next with
    | none =>
      cases returned
      exact .inl ⟨rfl, rfl⟩
    | some index =>
      obtain ⟨track, sample, found, unread⟩ := movReaderNext_some picked
      simp only [bind, Except.bind, found, unread] at returned
      split at returned
      · cases returned
        exact .inl ⟨rfl, rfl⟩
      · split at returned
        · cases returned
          exact .inl ⟨rfl, rfl⟩
        · split at returned
          · cases returned
            exact .inl ⟨rfl, rfl⟩
          · split at returned
            · cases returned
            · next described =>
                split at returned
                · cases returned
                · split at returned
                  · cases returned
                  · cases returned
                    refine .inr ⟨index, track, sample, found, unread, ?_, nofun, rfl⟩
                    intro enabled zero
                    exact described ⟨enabled, zero⟩

theorem movReaderRead_step (readable : Readable asserts tracks)
    (enough : call.Suffices contents tracks) :
    (remaining tracks = 0 ∧ movReaderRead asserts call tracks = .ok (0, none, tracks)) ∨
      ∃ index track sample, tracks[index]? = some track ∧
        track.samples[track.sampleOffset]? = some sample ∧
        movReaderRead asserts call tracks = .ok (1, some (delivery contents index track sample),
          tracks.set index track.advance) := by
  obtain ⟨next, picked⟩ := movReaderNext_returns readable
  unfold movReaderRead
  rw [picked]
  cases next with
  | none => exact .inl ⟨remaining_eq_zero_iff.mpr (movReaderNext_none picked), rfl⟩
  | some index =>
    obtain ⟨track, sample, found, unread⟩ := movReaderNext_some picked
    have member := mem_of_getElem? found
    have sampleMember := mem_of_getElem? unread
    have timed := readable.timed track member (List.getElem?_eq_some_iff.mp unread).1
    obtain ⟨room, read⟩ := enough track member sample sampleMember
    refine .inr ⟨index, track, sample, found, unread, ?_⟩
    simp only [bind, Except.bind, found, unread, read]
    rw [if_neg timed, if_neg (Nat.not_lt.mpr room),
      if_neg fun described => readable.described described.1 track member sample sampleMember
        described.2,
      milliseconds_of_ne timed, milliseconds_of_ne timed]
    rfl

/-! ## Many calls -/

theorem delivery_advance (contents : Nat → Nat → List UInt8) (index : Nat) (track : ReaderTrack) :
    delivery contents index track.advance = delivery contents index track := rfl

structure Reads (contents : Nat → Nat → List UInt8) (tracks rest : List ReaderTrack)
    (read : List Delivery) : Prop where
  remaining : remaining rest + read.length = remaining tracks
  inOrder : ∀ index track, tracks[index]? = some track → ∃ count,
    track.sampleOffset + count ≤ track.samples.length ∧
      rest[index]? = some { track with sampleOffset := track.sampleOffset + count } ∧
      (read.filter fun handed => handed.index = index) =
        ((track.samples.drop track.sampleOffset).take count).map (delivery contents index track)

theorem Reads.nothing (within : ∀ track ∈ tracks, track.sampleOffset ≤ track.samples.length) :
    Reads contents tracks tracks [] where
  remaining := rfl
  inOrder := fun _ track found => ⟨0, within track (mem_of_getElem? found), found, rfl⟩

theorem Reads.first {sample : ReaderSample} {read : List Delivery}
    (found : tracks[index]? = some track)
    (unread : track.samples[track.sampleOffset]? = some sample)
    (reads : Reads contents (tracks.set index track.advance) rest read) :
    Reads contents tracks rest (delivery contents index track sample :: read) := by
  obtain ⟨more, same⟩ := List.getElem?_eq_some_iff.mp unread
  have inside := (List.getElem?_eq_some_iff.mp found).1
  constructor
  · have left := remaining_advance found more
    have rest := reads.remaining
    rw [length_cons]
    omega
  · intro other otherTrack otherFound
    by_cases equal : other = index
    · subst equal
      rw [found] at otherFound
      cases otherFound
      obtain ⟨count, bound, left, handed⟩ := reads.inOrder other track.advance
        (List.getElem?_set_self inside)
      refine ⟨count + 1, ?_, ?_, ?_⟩
      · simp only [ReaderTrack.advance] at bound
        omega
      · rw [left]
        simp only [ReaderTrack.advance, Nat.add_assoc, Nat.add_comm 1]
      · rw [filter_cons_of_pos (by simp [delivery]), handed, delivery_advance,
          drop_eq_getElem_cons more, take_succ_cons, map_cons, same]
        rfl
    · obtain ⟨count, bound, left, handed⟩ := reads.inOrder other otherTrack (by
        rw [List.getElem?_set_ne (Ne.symm equal), otherFound])
      refine ⟨count, bound, left, ?_⟩
      rw [filter_cons_of_neg (by simp [delivery, Ne.symm equal]), handed]

theorem movReaderReads_run {calls : List ReadCall} (readable : Readable asserts tracks)
    (enough : ∀ call ∈ calls, call.Suffices contents tracks) :
    ∃ read rest, movReaderReads asserts calls tracks =
        .ok (read.map (fun handed => (1, some handed)) ++
          List.replicate (calls.length - remaining tracks) (0, none), rest) ∧
      read.length = min calls.length (remaining tracks) ∧ Reads contents tracks rest read := by
  induction calls generalizing tracks with
  | nil =>
    refine ⟨[], tracks, ?_, ?_, Reads.nothing readable.within⟩
    · simp [movReaderReads]
    · simp
  | cons call calls ih =>
    obtain ⟨first, others⟩ := forall_mem_cons.mp enough
    rcases movReaderRead_step readable first with ⟨done, returned⟩ |
      ⟨index, track, sample, found, unread, returned⟩
    · obtain ⟨read, rest, run, length, reads⟩ := ih readable others
      rw [done, Nat.min_zero] at length
      have nothing := eq_nil_of_length_eq_zero length
      subst nothing
      refine ⟨[], rest, ?_, ?_, reads⟩
      · rw [movReaderReads, returned]
        simp only [bind, Except.bind]
        rw [run, done]
        rfl
      · rw [done]
        rfl
    · have more := (List.getElem?_eq_some_iff.mp unread).1
      have left := remaining_advance found more
      obtain ⟨read, rest, run, length, reads⟩ := ih (readable.advance found more)
        fun other member => (others other member).advance found
      refine ⟨delivery contents index track sample :: read, rest, ?_, ?_, reads.first found unread⟩
      · rw [movReaderReads, returned]
        simp only [bind, Except.bind]
        rw [run, ← left, length_cons, Nat.add_sub_add_right]
        rfl
      · rw [length_cons, length_cons, length, ← left]
        omega

theorem movReaderReads_described {calls : List ReadCall} {results : List (Int × Option Delivery)}
    (returned : movReaderReads asserts calls tracks = .ok (results, rest))
    (found : tracks[index]? = some track) :
    ∃ offset, rest[index]? = some { track with sampleOffset := offset } ∧
      ∀ place sample, track.sampleOffset ≤ place → place < offset →
        track.samples[place]? = some sample → asserts = true →
        sample.sampleDescriptionIndex ≠ 0 := by
  induction calls generalizing tracks track results with
  | nil =>
    cases returned
    refine ⟨track.sampleOffset, found, fun place sample low high => ?_⟩
    omega
  | cons call calls ih =>
    rw [movReaderReads] at returned
    cases one : movReaderRead asserts call tracks with
    | error fault =>
      rw [one] at returned
      cases returned
    | ok first =>
      rw [one] at returned
      simp only [bind, Except.bind] at returned
      cases others : movReaderReads asserts calls first.2.2 with
      | error fault =>
        rw [others] at returned
        cases returned
      | ok run =>
        rw [others] at returned
        cases returned
        rcases movReaderRead_cases one with ⟨-, same⟩ |
          ⟨picked, other, sample, at_picked, unread, described, -, same⟩
        · rw [same] at others
          exact ih others found
        · rw [same] at others
          by_cases equal : index = picked
          · subst equal
            rw [found] at at_picked
            cases at_picked
            have inside := (List.getElem?_eq_some_iff.mp found).1
            obtain ⟨offset, left, rest⟩ := ih others (List.getElem?_set_self inside)
            refine ⟨offset, left, fun place given low high at_place enabled => ?_⟩
            rcases Nat.lt_or_eq_of_le low with less | start
            · exact rest place given less high at_place enabled
            · subst start
              rw [unread] at at_place
              cases at_place
              exact described enabled
          · exact ih others (by rw [List.getElem?_set_ne (Ne.symm equal), found])

end Tracks

/-! ## From the start of the file -/

structure PutBack (track : OpenedTrack) (opened : OpenedTrack) : Prop where
  samples : opened.samples = track.samples
  timescale : opened.timescale = track.timescale
  start : opened.sampleOffset = 0

theorem fillDuration_opened {track opened : OpenedTrack} (kept : PutBack track opened) :
    PutBack track (fillDuration opened) := by
  unfold fillDuration
  split
  · exact ⟨kept.samples, kept.timescale, kept.start⟩
  · exact kept

theorem movIndexBuild_opened (track : OpenedTrack) :
    PutBack track { movIndexBuild track with sampleOffset := 0 } := by
  unfold movIndexBuild
  split
  · exact ⟨rfl, rfl, rfl⟩
  · exact ⟨rfl, rfl, rfl⟩

variable {mvhd : MovieHeader}

theorem openTrack_opened {track : OpenedTrack}
    {result : MovieHeader × OpenedTrack} (returned : openTrack mvhd track = .ok result) :
    PutBack track result.2 := by
  have kept := fillDuration_opened (movIndexBuild_opened track)
  unfold openTrack at returned
  dsimp only at returned
  split at returned
  · split at returned
    · cases returned
    · cases returned
      exact ⟨kept.samples, kept.timescale, kept.start⟩
  · cases returned
    exact kept

variable {parsed : List OpenedTrack}

theorem movReaderInit_opened {result : MovieHeader × List OpenedTrack}
    (accepted : movReaderInit mvhd parsed = .ok result) :
    List.Forall₂ PutBack parsed result.2 := by
  induction parsed generalizing mvhd result with
  | nil =>
    cases accepted
    exact .nil
  | cons track others ih =>
    rw [movReaderInit] at accepted
    obtain one | ⟨first, one⟩ : (∃ fault, openTrack mvhd track = .error fault) ∨
        ∃ first, openTrack mvhd track = .ok first := by
      cases openTrack mvhd track with
      | error fault => exact .inl ⟨fault, rfl⟩
      | ok first => exact .inr ⟨first, rfl⟩
    · obtain ⟨fault, one⟩ := one
      rw [one] at accepted
      cases accepted
    · rw [one] at accepted
      simp only [bind, Except.bind] at accepted
      cases rest : movReaderInit first.1 others with
      | error fault =>
        rw [rest] at accepted
        cases accepted
      | ok run =>
        rw [rest] at accepted
        cases accepted
        exact .cons (openTrack_opened one) (ih rest)

def readerTracks (opened : List OpenedTrack) : List ReaderTrack :=
  opened.map fun track => track.toReaderTrack

def sampleCount (tracks : List ReaderTrack) : Nat :=
  (tracks.map fun track => track.samples.length).sum

/-- Every sequence of calls that suffice ends without a fault: as many samples are handed on as
there are calls, until there are no more, and then the calls return zero.  What is handed on for a
track is its samples in order, and all of them once the calls are as many as the samples. -/
def DeliversAll (asserts : Bool) (contents : Nat → Nat → List UInt8) (tracks : List ReaderTrack) :
    Prop :=
  ∀ calls : List ReadCall, (∀ call ∈ calls, call.Suffices contents tracks) →
    ∃ (read : List Delivery) (rest : List ReaderTrack), movReaderReads asserts calls tracks =
        .ok (read.map (fun handed => (1, some handed)) ++
          List.replicate (calls.length - sampleCount tracks) (0, none), rest) ∧
      read.length = min calls.length (sampleCount tracks) ∧
      ∀ index track, tracks[index]? = some track → ∃ count ≤ track.samples.length,
        (sampleCount tracks ≤ calls.length → count = track.samples.length) ∧
        rest[index]? = some { track with sampleOffset := count } ∧
          (read.filter fun handed => handed.index = index) =
            (track.samples.take count).map (delivery contents index track)

/-- After any calls, a further one that hands nothing on leaves all positions as they were. -/
def KeepsPositions (asserts : Bool) (tracks : List ReaderTrack) : Prop :=
  ∀ (calls : List ReadCall) (results : List (Int × Option Delivery)) (reached : List ReaderTrack),
    movReaderReads asserts calls tracks = .ok (results, reached) →
    ∀ (call : ReadCall) (r : Int) (rest : List ReaderTrack),
      movReaderRead asserts call reached = .ok (r, none, rest) → rest = reached

theorem keepsPositions (asserts : Bool) (tracks : List ReaderTrack) :
    KeepsPositions asserts tracks := by
  intro calls results reached _ call r rest returned
  rcases movReaderRead_cases returned with ⟨-, same⟩ | ⟨_, _, _, _, _, _, handed, _⟩
  · exact same
  · exact absurd rfl handed

section Start

variable {asserts : Bool} {contents : Nat → Nat → List UInt8} {tracks : List ReaderTrack}

def AtStart (tracks : List ReaderTrack) : Prop := ∀ track ∈ tracks, track.sampleOffset = 0

theorem remaining_of_atStart (start : AtStart tracks) : remaining tracks = sampleCount tracks := by
  unfold remaining sampleCount
  congr 1
  apply map_congr_left
  intro track member
  rw [ReaderTrack.remaining, start track member, Nat.sub_zero]

theorem deliversAll_of_readable (start : AtStart tracks) (readable : Readable asserts tracks) :
    DeliversAll asserts contents tracks := by
  intro calls enough
  obtain ⟨read, rest, run, length, reads⟩ := movReaderReads_run readable enough
  have left := reads.remaining
  rw [remaining_of_atStart start] at run length left
  refine ⟨read, rest, run, length, fun index track found => ?_⟩
  obtain ⟨count, bound, stays, handed⟩ := reads.inOrder index track found
  have zero := start track (mem_of_getElem? found)
  rw [zero, Nat.zero_add] at bound stays
  rw [zero, drop_zero] at handed
  refine ⟨count, bound, fun many => ?_, stays, handed⟩
  have done : remaining rest = 0 := by omega
  have ended := remaining_eq_zero_iff.mp done _ (mem_of_getElem? stays)
  exact Nat.le_antisymm bound ended

theorem exists_bytes (samples : List ReaderSample) :
    ∃ bound, ∀ sample ∈ samples, sample.bytes ≤ bound := by
  induction samples with
  | nil => exact ⟨0, nofun⟩
  | cons sample samples ih =>
    obtain ⟨bound, large⟩ := ih
    refine ⟨max sample.bytes bound, forall_mem_cons.mpr ⟨Nat.le_max_left _ _, ?_⟩⟩
    intro other member
    exact Nat.le_trans (large other member) (Nat.le_max_right _ _)

theorem exists_suffices (contents : Nat → Nat → List UInt8) (tracks : List ReaderTrack) :
    ∃ call : ReadCall, call.Suffices contents tracks := by
  obtain ⟨bound, large⟩ := exists_bytes (tracks.flatMap fun track => track.samples)
  refine ⟨⟨bound, fun offset bytes => .ok (contents offset bytes)⟩, ?_⟩
  intro track member sample sampleMember
  exact ⟨large sample (mem_flatMap.mpr ⟨track, member, sampleMember⟩), rfl⟩

theorem readable_of_deliversAll (start : AtStart tracks)
    (delivers : DeliversAll asserts contents tracks) : Readable asserts tracks := by
  obtain ⟨call, enough⟩ := exists_suffices contents tracks
  constructor
  · intro track member
    rw [start track member]
    exact Nat.zero_le _
  · obtain ⟨read, rest, run, -⟩ := delivers [call] (by simpa using enough)
    rw [movReaderReads] at run
    cases next : movReaderNext asserts tracks with
    | error fault =>
      unfold movReaderRead at run
      rw [next] at run
      cases run
    | ok next => exact movReaderNext_timed ‹_›
  · intro enabled track member sample sampleMember
    obtain ⟨read, rest, run, -, perTrack⟩ := delivers (List.replicate (sampleCount tracks) call)
      (by
        intro other otherMember
        rw [eq_of_mem_replicate otherMember]
        exact enough)
    obtain ⟨index, found⟩ := mem_iff_getElem?.mp member
    obtain ⟨place, at_place⟩ := mem_iff_getElem?.mp sampleMember
    obtain ⟨count, -, all, stays, -⟩ := perTrack index track found
    obtain ⟨offset, same, described⟩ := movReaderReads_described run found
    rw [stays] at same
    have offsets : count = offset := congrArg ReaderTrack.sampleOffset (Option.some.inj same)
    have inside := (List.getElem?_eq_some_iff.mp at_place).1
    have whole := all (Nat.le_of_eq length_replicate.symm)
    exact described place sample (by rw [start track member]; exact Nat.zero_le _) (by omega)
      at_place enabled

theorem readerTracks_atStart {opened : List OpenedTrack}
    (kept : List.Forall₂ PutBack parsed opened) : AtStart (readerTracks opened) := by
  induction kept with
  | nil => nofun
  | cons first _ ih =>
    rintro track (_ | ⟨_, member⟩)
    · exact first.start
    · exact ih track member

theorem opened_forall_iff {opened : List OpenedTrack} (kept : List.Forall₂ PutBack parsed opened)
    (holds : List ReaderSample → Nat → Prop) :
    (∀ track ∈ readerTracks opened, holds track.samples track.timescale) ↔
      ∀ track ∈ parsed, holds track.samples track.timescale := by
  induction kept with
  | nil => exact ⟨fun _ => nofun, fun _ => nofun⟩
  | cons first _ ih =>
    rw [readerTracks, map_cons, forall_mem_cons, forall_mem_cons, ← ih,
      first.samples, first.timescale]
    rfl

theorem readable_iff (start : AtStart tracks) :
    Readable asserts tracks ↔
      (∀ track ∈ tracks, track.samples ≠ [] → track.timescale ≠ 0) ∧
        ∀ track ∈ tracks, asserts = true → ∀ sample ∈ track.samples,
          sample.sampleDescriptionIndex ≠ 0 := by
  constructor
  · intro readable
    refine ⟨fun track member some => readable.timed track member ?_, fun track member enabled =>
      readable.described enabled track member⟩
    rw [start track member]
    exact length_pos_of_ne_nil some
  · rintro ⟨timed, described⟩
    constructor
    · intro track member
      rw [start track member]
      exact Nat.zero_le _
    · intro track member unread
      exact timed track member (ne_nil_of_length_pos (Nat.zero_lt_of_lt unread))
    · exact fun enabled track member => described track member enabled

end Start

/-- Repeated calls read an accepted file just if every track that has samples has a timescale, and,
where assertions are compiled in, every sample has a description index. -/
theorem mov_reader_delivers_iff (asserts : Bool) (contents : Nat → Nat → List UInt8)
    {parsed : List OpenedTrack} {result : MovieHeader × List OpenedTrack}
    (accepted : movReaderInit mvhd parsed = .ok result) :
    DeliversAll asserts contents (readerTracks result.2) ∧
        KeepsPositions asserts (readerTracks result.2) ↔
      (∀ track ∈ parsed, track.samples ≠ [] → track.timescale ≠ 0) ∧
        ∀ track ∈ parsed, asserts = true → ∀ sample ∈ track.samples,
          sample.sampleDescriptionIndex ≠ 0 := by
  have kept := movReaderInit_opened accepted
  have start := readerTracks_atStart kept
  rw [← opened_forall_iff kept fun samples timescale => samples ≠ [] → timescale ≠ 0,
    ← opened_forall_iff kept fun samples _ => asserts = true → ∀ sample ∈ samples,
      sample.sampleDescriptionIndex ≠ 0,
    ← readable_iff start]
  constructor
  · rintro ⟨delivers, -⟩
    exact readable_of_deliversAll start delivers
  · intro readable
    exact ⟨deliversAll_of_readable start readable, keepsPositions asserts _⟩

def oneSample (timescale : Nat) : OpenedTrack := ⟨⟨1, timescale, [sampleAt 0], [], 0⟩, false, 1, 1⟩

/-- Video whose durations are not known, sound of another timescale, and a track without samples
whose timescale is zero. -/
def threeTracks : List OpenedTrack :=
  [⟨threeSamples, true, 0, 0⟩, ⟨⟨2, 8000, [0, 160].map sampleAt, [], 0⟩, false, 1, 1⟩,
    ⟨⟨3, 0, [], [], 0⟩, false, 1, 1⟩]

/-- All five samples of a file with three tracks are delivered. -/
theorem mov_reader_delivers_iff_one :
    ∃ result, movReaderInit ⟨1000, 1⟩ threeTracks = .ok result ∧
      DeliversAll true (fun _ _ => [7]) (readerTracks result.2) ∧
      KeepsPositions true (readerTracks result.2) := by
  have accepted : movReaderInit ⟨1000, 1⟩ threeTracks = .ok _ := rfl
  refine ⟨_, accepted, (mov_reader_delivers_iff true (fun _ _ => [7]) accepted).mpr ⟨?_, ?_⟩⟩
  · simp only [threeTracks, forall_mem_cons]
    exact ⟨by decide, by decide, by decide, forall_mem_nil _⟩
  · simp only [threeTracks, forall_mem_cons]
    exact ⟨by decide, by decide, by decide, forall_mem_nil _⟩

/-- A file is accepted although its only track has the timescale zero; the first call divides by
it. -/
theorem mov_reader_divides :
    movReaderInit ⟨1000, 1⟩ [oneSample 0] = .ok (⟨1000, 1⟩, [oneSample 0]) ∧
      movReaderReads false [⟨1, fun _ _ => .ok [7]⟩] (readerTracks [oneSample 0]) =
        .error .division ∧
      ¬DeliversAll false (fun _ _ => [7]) (readerTracks [oneSample 0]) := by
  refine ⟨rfl, rfl, fun delivers => ?_⟩
  have large : (ReadCall.mk 1 fun _ _ => .ok [7]).Suffices (fun _ _ => [7])
      (readerTracks [oneSample 0]) := by
    intro track member sample sampleMember
    rw [mem_singleton.mp member] at sampleMember
    rw [mem_singleton.mp sampleMember]
    exact ⟨Nat.le_refl 1, rfl⟩
  obtain ⟨read, rest, run, -⟩ := delivers [⟨1, fun _ _ => .ok [7]⟩] (by simpa using large)
  cases run

end CLibs.Mov
