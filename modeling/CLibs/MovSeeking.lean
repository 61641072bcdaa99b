import CLibs.Bisections
import CLibs.MovRecords

/-!
# Seeking in the samples of a track

`mov_sample_seek` and `mov_stss_seek` bisect the decoding times, of all samples or of the sync
samples, and compare the entry that the bisection ends at with its two neighbours.  Times are
`int64_t`, as are their differences and their products with 1000.
-/

namespace CLibs.Mov

open List

/-- What ends the reader: a failed assertion, a division by zero, or an access outside a table. -/
inductive ReaderFault
  | assertion
  | division
  | outside
  deriving DecidableEq, Repr

/-- A sample with its flags. -/
structure ReaderSample extends Sample where
  flags : Int
  deriving DecidableEq

/-- What the reader uses of `mov_track_t`. -/
structure ReaderTrack where
  trackId : Nat
  timescale : Nat
  samples : List ReaderSample
  stss : List UInt32
  sampleOffset : Nat
  deriving DecidableEq

def diff (a b : Int) : Int := if a > b then int64 (a - b) else int64 (b - a)

/-- A time in milliseconds in the units of the track. -/
def trackClock (track : ReaderTrack) (timestamp : Int) : Int :=
  (int64 (timestamp * track.timescale)).tdiv 1000

def milliseconds (track : ReaderTrack) (time : Int) : Except ReaderFault Int :=
  if track.timescale = 0 then .error .division
  else .ok ((int64 (time * 1000)).tdiv track.timescale)

def dtsAt (track : ReaderTrack) (idx : Nat) : Except ReaderFault Int :=
  match track.samples[idx]? with
  | none => .error .outside
  | some sample => .ok sample.dts

def nearer (track : ReaderTrack) (clock : Int) (idx other : Nat) : Except ReaderFault Nat := do
  let dts ← dtsAt track other
  let best ← dtsAt track idx
  .ok (if diff dts clock < diff best clock then other else idx)

/-- The index of a sync sample, where `stss` counts from one. -/
def stssAt (track : ReaderTrack) (mid : Nat) : Except ReaderFault Nat :=
  match track.stss[mid]? with
  | none => .error .outside
  | some number => .ok (number - 1).toNat

/-- The time of a sync sample that the loop looks at. -/
def stssDts (track : ReaderTrack) (mid : Nat) : Except ReaderFault Int :=
  match track.stss[mid]? with
  | none => .error .outside
  | some number =>
    if number.toNat < 1 ∨ number.toNat > track.samples.length then .error .assertion
    else dtsAt track (number.toNat - 1)

/-- `mov_stss_seek`: what it returns, the time it stores, and the track. -/
def movStssSeek (track : ReaderTrack) (timestamp : Int) :
    Except ReaderFault (Int × Int × ReaderTrack) := do
  if track.stss.length = 0 then .error .assertion
  else do
    let clock := trackClock track timestamp
    let mid ← bisectFrom (stssDts track) clock 0 track.stss.length 0
    let idx ← stssAt track mid
    let prev ← stssAt track (neighbourBefore mid)
    let next ← stssAt track (neighbourBehind track.stss.length mid)
    let idx ← nearer track clock idx prev
    let idx ← nearer track clock idx next
    let dts ← dtsAt track idx
    let timestamp ← milliseconds track dts
    .ok (0, timestamp, { track with sampleOffset := idx })

def movSampleSeek (track : ReaderTrack) (timestamp : Int) :
    Except ReaderFault (Int × ReaderTrack) := do
  if track.samples.length < 1 then .ok (-1, track)
  else do
    let clock := trackClock track timestamp
    let mid ← bisectFrom (dtsAt track) clock 0 track.samples.length 0
    let next := neighbourBehind track.samples.length mid
    let mid ← nearer track clock mid (neighbourBefore mid)
    let mid ← nearer track clock mid next
    .ok (0, { track with sampleOffset := mid })

/-! ## Times that fit -/

def FitsInt64 (value : Int) : Prop := -2 ^ 63 ≤ value ∧ value < 2 ^ 63

instance (value : Int) : Decidable (FitsInt64 value) := inferInstanceAs (Decidable (_ ∧ _))

theorem int64_eq {value : Int} (fits : FitsInt64 value) : int64 value = value :=
  int64_eq_self fits.1 fits.2

theorem diff_eq {a b : Int} (near : (a - b).natAbs < 2 ^ 63) : diff a b = (a - b).natAbs := by
  unfold diff
  split
  · rw [int64_eq (by unfold FitsInt64; omega)]
    omega
  · rw [int64_eq (by unfold FitsInt64; omega)]
    omega

def ReaderTrack.clock (track : ReaderTrack) (timestamp : Int) : Int :=
  (timestamp * track.timescale).tdiv 1000

variable {track : ReaderTrack} {timestamp : Int}

theorem trackClock_eq (fits : FitsInt64 (timestamp * track.timescale)) :
    trackClock track timestamp = track.clock timestamp := by
  unfold trackClock ReaderTrack.clock
  rw [int64_eq fits]

theorem milliseconds_eq {time : Int} (scale : 0 < track.timescale)
    (fits : FitsInt64 (time * 1000)) :
    milliseconds track time = .ok ((time * 1000).tdiv track.timescale) := by
  unfold milliseconds
  rw [if_neg (Nat.ne_of_gt scale), int64_eq fits]

/-! ## The nearest candidate -/

section Picking

variable {track : ReaderTrack} {clock : Int} {count : Nat} {entry : Nat → Nat} {time : Nat → Int}

structure Candidates (track : ReaderTrack) (clock : Int) (count : Nat) (entry : Nat → Nat)
    (time : Nat → Int) : Prop where
  known : ∀ position < count, dtsAt track (entry position) = .ok (time position)
  near : ∀ position < count, (time position - clock).natAbs < 2 ^ 63
  ordered : OrderedUpTo time count

variable {position : Nat}

theorem Candidates.nearer_eq (candidates : Candidates track clock count entry time) {other : Nat}
    (inside : position < count) (otherInside : other < count) :
    nearer track clock (entry position) (entry other) =
      .ok (entry (if (time other - clock).natAbs < (time position - clock).natAbs then other
        else position)) := by
  unfold nearer
  rw [candidates.known position inside, candidates.known other otherInside]
  change Except.ok (if diff (time other) clock < diff (time position) clock then entry other
    else entry position) = _
  rw [diff_eq (candidates.near position inside), diff_eq (candidates.near other otherInside),
    apply_ite entry]
  simp only [Int.ofNat_lt]

theorem Candidates.nearest (candidates : Candidates track clock count entry time) {mid : Nat}
    (beside : Beside time clock count mid) :
    ∃ first found, nearer track clock (entry mid) (entry (neighbourBefore mid)) =
        .ok (entry first) ∧
      nearer track clock (entry first) (entry (neighbourBehind count mid)) = .ok (entry found) ∧
      found < count ∧
      ∀ other < count, (time found - clock).natAbs ≤ (time other - clock).natAbs := by
  have inside := beside.inside
  have before := neighbourBefore_lt inside
  have behind := neighbourBehind_lt inside
  have three (other : Nat) (otherInside : other < count) :=
    beside.nearest candidates.ordered otherInside
  have first := candidates.nearer_eq inside before
  by_cases nearBefore : (time (neighbourBefore mid) - clock).natAbs < (time mid - clock).natAbs
  · rw [if_pos nearBefore] at first
    have second := candidates.nearer_eq before behind
    split at second
    · next nearBehind =>
        refine ⟨_, _, first, second, behind, fun other otherInside => ?_⟩
        have near := three other otherInside
        omega
    · refine ⟨_, _, first, second, before, fun other otherInside => ?_⟩
      have near := three other otherInside
      omega
  · rw [if_neg nearBefore] at first
    have second := candidates.nearer_eq inside behind
    split at second
    · refine ⟨_, _, first, second, behind, fun other otherInside => ?_⟩
      have near := three other otherInside
      omega
    · refine ⟨_, _, first, second, inside, fun other otherInside => ?_⟩
      have near := three other otherInside
      omega

end Picking

/-! ## The samples of a track -/

/-- The sample is of the kind, and none of the kind is nearer to the clock. -/
structure ReaderTrack.Nearest (track : ReaderTrack) (kind : Nat → Prop) (clock : Int) (index : Nat)
    (sample : ReaderSample) : Prop where
  ofKind : kind index
  found : track.samples[index]? = some sample
  nearest : ∀ other otherSample, kind other → track.samples[other]? = some otherSample →
    (sample.dts - clock).natAbs ≤ (otherSample.dts - clock).natAbs

/-- The differences from the clock do not overflow. -/
def ReaderTrack.Near (track : ReaderTrack) (kind : Nat → Prop) (clock : Int) : Prop :=
  ∀ index sample, kind index → track.samples[index]? = some sample →
    (sample.dts - clock).natAbs < 2 ^ 63

/-- The samples that `stss` names. -/
def ReaderTrack.Sync (track : ReaderTrack) (index : Nat) : Prop :=
  ∃ number ∈ track.stss, number.toNat = index + 1

/-- The decoding times do not go down. -/
def ReaderTrack.InOrder (track : ReaderTrack) : Prop :=
  track.samples.Pairwise fun earlier later => earlier.dts ≤ later.dts

/-- Sync sample numbers go up, and are numbers of samples. -/
structure ReaderTrack.SyncInOrder (track : ReaderTrack) : Prop where
  some : track.stss ≠ []
  increasing : track.stss.Pairwise (· < ·)
  inside : ∀ number ∈ track.stss, 1 ≤ number.toNat ∧ number.toNat ≤ track.samples.length

section Tracks

variable {track : ReaderTrack} {clock : Int}

def ReaderTrack.dts (track : ReaderTrack) (idx : Nat) : Int :=
  (track.samples[idx]?).elim 0 fun sample => sample.dts

theorem dtsAt_eq {idx : Nat} (inside : idx < track.samples.length) :
    dtsAt track idx = .ok (track.dts idx) := by
  unfold dtsAt ReaderTrack.dts
  rw [List.getElem?_eq_getElem inside]
  rfl

theorem dts_of_found {idx : Nat} {sample : ReaderSample}
    (found : track.samples[idx]? = some sample) : track.dts idx = sample.dts := by
  unfold ReaderTrack.dts
  rw [found]
  rfl

theorem dts_le (ordered : track.InOrder) {earlier later : Nat} (order : earlier ≤ later)
    (inside : later < track.samples.length) : track.dts earlier ≤ track.dts later := by
  have earlierInside : earlier < track.samples.length := Nat.lt_of_le_of_lt order inside
  rw [dts_of_found (List.getElem?_eq_getElem inside),
    dts_of_found (List.getElem?_eq_getElem earlierInside)]
  rcases Nat.lt_or_eq_of_le order with less | same
  · exact pairwise_iff_getElem.mp ordered earlier later earlierInside inside less
  · subst same
    exact Int.le_refl _

theorem sample_candidates (ordered : track.InOrder) (near : track.Near (fun _ => True) clock) :
    Candidates track clock track.samples.length id track.dts where
  known := fun _ inside => dtsAt_eq inside
  near := fun position inside => by
    rw [dts_of_found (List.getElem?_eq_getElem inside)]
    exact near position _ trivial (List.getElem?_eq_getElem inside)
  ordered := fun _ inside _ order => dts_le ordered order inside

/-- The index that a position of `stss` names. -/
def ReaderTrack.syncIndex (track : ReaderTrack) (position : Nat) : Nat :=
  (track.stss[position]?).elim 0 fun number => number.toNat - 1

theorem syncIndex_eq (inside : position < track.stss.length) :
    track.syncIndex position = track.stss[position].toNat - 1 := by
  unfold ReaderTrack.syncIndex
  rw [List.getElem?_eq_getElem inside]
  rfl

theorem ReaderTrack.SyncInOrder.syncIndex_lt (sync : track.SyncInOrder)
    (inside : position < track.stss.length) : track.syncIndex position < track.samples.length := by
  have number := sync.inside _ (getElem_mem inside)
  rw [syncIndex_eq inside]
  omega

theorem ReaderTrack.SyncInOrder.isSync (sync : track.SyncInOrder)
    (inside : position < track.stss.length) : track.Sync (track.syncIndex position) := by
  have number := sync.inside _ (getElem_mem inside)
  rw [syncIndex_eq inside]
  exact ⟨track.stss[position], getElem_mem inside, by omega⟩

theorem ReaderTrack.SyncInOrder.stssAt_eq (sync : track.SyncInOrder)
    (inside : position < track.stss.length) :
    stssAt track position = .ok (track.syncIndex position) := by
  have number := sync.inside _ (getElem_mem inside)
  have one : (1 : UInt32) ≤ track.stss[position] := UInt32.le_iff_toNat_le.mpr number.1
  unfold stssAt
  rw [List.getElem?_eq_getElem inside, syncIndex_eq inside]
  dsimp only
  rw [UInt32.toNat_sub_of_le _ _ one]
  rfl

theorem ReaderTrack.SyncInOrder.stssDts_eq (sync : track.SyncInOrder)
    (inside : position < track.stss.length) :
    stssDts track position = .ok (track.dts (track.syncIndex position)) := by
  have number := sync.inside _ (getElem_mem inside)
  have known := dtsAt_eq (sync.syncIndex_lt inside)
  rw [syncIndex_eq inside] at known ⊢
  unfold stssDts
  rw [List.getElem?_eq_getElem inside]
  dsimp only
  rw [if_neg (by omega), known]

theorem sync_candidates (ordered : track.InOrder) (sync : track.SyncInOrder)
    (near : track.Near track.Sync clock) :
    Candidates track clock track.stss.length track.syncIndex
      (fun position => track.dts (track.syncIndex position)) where
  known := fun _ inside => dtsAt_eq (sync.syncIndex_lt inside)
  near := fun position inside => by
    have found := List.getElem?_eq_getElem (sync.syncIndex_lt inside)
    rw [dts_of_found found]
    exact near _ _ (sync.isSync inside) found
  ordered := fun behind inside before order => by
    have beforeInside : before < track.stss.length := Nat.lt_of_le_of_lt order inside
    apply dts_le ordered _ (sync.syncIndex_lt inside)
    rw [syncIndex_eq inside, syncIndex_eq beforeInside]
    rcases Nat.lt_or_eq_of_le order with less | same
    · have increasing := pairwise_iff_getElem.mp sync.increasing before behind beforeInside
        inside less
      have numbers := UInt32.lt_iff_toNat_lt.mp increasing
      omega
    · subst same
      exact Nat.le_refl _

end Tracks

/-! ## Seeking -/

theorem movSampleSeek_nearest (some : track.samples ≠ []) (ordered : track.InOrder)
    (fits : FitsInt64 (timestamp * track.timescale))
    (near : track.Near (fun _ => True) (track.clock timestamp)) :
    ∃ found sample, movSampleSeek track timestamp =
        .ok (0, { track with sampleOffset := found }) ∧
      track.Nearest (fun _ => True) (track.clock timestamp) found sample := by
  have count := length_pos_of_ne_nil some
  have candidates := sample_candidates ordered near
  obtain ⟨mid, searched, beside⟩ := bisectFrom_beside candidates.known
    candidates.ordered (Bracket.whole 0 count)
  obtain ⟨first, found, before, behind, inside, nearest⟩ := candidates.nearest beside
  refine ⟨found, track.samples[found], ?_, trivial, List.getElem?_eq_getElem inside, ?_⟩
  · simp only [id_eq] at searched before behind
    unfold movSampleSeek
    rw [if_neg (Nat.not_lt.mpr count), trackClock_eq fits]
    dsimp only
    rw [searched]
    change (nearer track _ mid _ >>= _) = _
    rw [before]
    change (nearer track _ first _ >>= _) = _
    rw [behind]
    rfl
  · intro other otherSample _ otherFound
    have otherInside := (List.getElem?_eq_some_iff.mp otherFound).1
    have least := nearest other otherInside
    rwa [dts_of_found (List.getElem?_eq_getElem inside), dts_of_found otherFound] at least

theorem movStssSeek_nearest (ordered : track.InOrder) (sync : track.SyncInOrder)
    (scale : 0 < track.timescale) (fits : FitsInt64 (timestamp * track.timescale))
    (near : track.Near track.Sync (track.clock timestamp))
    (returned : ∀ index sample, track.Nearest track.Sync (track.clock timestamp) index sample →
      FitsInt64 (sample.dts * 1000)) :
    ∃ found sample, movStssSeek track timestamp =
        .ok (0, (sample.dts * 1000).tdiv track.timescale, { track with sampleOffset := found }) ∧
      track.Nearest track.Sync (track.clock timestamp) found sample := by
  have count := length_pos_of_ne_nil sync.some
  have candidates := sync_candidates ordered sync near
  obtain ⟨mid, searched, beside⟩ := bisectFrom_beside
    (fun _ inside => sync.stssDts_eq inside) candidates.ordered (Bracket.whole 0 count)
  obtain ⟨first, position, before, behind, inside, nearest⟩ := candidates.nearest beside
  have bound := sync.syncIndex_lt inside
  have found := List.getElem?_eq_getElem bound
  have isNearest : track.Nearest track.Sync (track.clock timestamp) (track.syncIndex position)
      track.samples[track.syncIndex position] := by
    refine ⟨sync.isSync inside, found, fun other otherSample ⟨number, member, same⟩ otherFound => ?_⟩
    obtain ⟨place, placeInside, rfl⟩ := mem_iff_getElem.mp member
    have least := nearest place placeInside
    have index : track.syncIndex place = other := by
      rw [syncIndex_eq placeInside]
      omega
    rwa [index, dts_of_found found, dts_of_found otherFound] at least
  refine ⟨track.syncIndex position, _, ?_, isNearest⟩
  unfold movStssSeek
  rw [if_neg (by omega), trackClock_eq fits]
  dsimp only
  rw [searched]
  change (stssAt track mid >>= _) = _
  rw [sync.stssAt_eq beside.inside]
  change (stssAt track (neighbourBefore mid) >>= _) = _
  rw [sync.stssAt_eq (neighbourBefore_lt beside.inside)]
  change (stssAt track (neighbourBehind track.stss.length mid) >>= _) = _
  rw [sync.stssAt_eq (neighbourBehind_lt beside.inside)]
  change (nearer track _ _ _ >>= _) = _
  rw [before]
  change (nearer track _ _ _ >>= _) = _
  rw [behind]
  change (dtsAt track _ >>= _) = _
  rw [dtsAt_eq bound, dts_of_found found]
  change (milliseconds track _ >>= _) = _
  rw [milliseconds_eq scale (returned _ _ isNearest)]
  rfl

/-- Where neither a difference from the clock nor the milliseconds of a nearest sync sample
overflow, each seek goes to a nearest sample of its kind. -/
theorem mov_seek_nearest {track : ReaderTrack} {timestamp : Int} (some : track.samples ≠ [])
    (ordered : track.InOrder) (scale : 0 < track.timescale)
    (fits : FitsInt64 (timestamp * track.timescale)) :
    (track.Near (fun _ => True) (track.clock timestamp) →
      ∃ found sample, movSampleSeek track timestamp =
          .ok (0, { track with sampleOffset := found }) ∧
        track.Nearest (fun _ => True) (track.clock timestamp) found sample) ∧
    (track.SyncInOrder → track.Near track.Sync (track.clock timestamp) →
      (∀ index sample, track.Nearest track.Sync (track.clock timestamp) index sample →
        FitsInt64 (sample.dts * 1000)) →
      ∃ found sample, movStssSeek track timestamp =
          .ok (0, (sample.dts * 1000).tdiv track.timescale, { track with sampleOffset := found }) ∧
        track.Nearest track.Sync (track.clock timestamp) found sample) :=
  ⟨movSampleSeek_nearest some ordered fits,
    fun sync near returned => movStssSeek_nearest ordered sync scale fits near returned⟩

/-- A sample of which only the time matters. -/
def sampleAt (dts : Int) : ReaderSample := ⟨⟨dts, dts, 0, 1, 1, 0, 0⟩, 0⟩

def threeSamples : ReaderTrack := ⟨1, 1000, [0, 10, 20].map sampleAt, [1, 3], 0⟩

/-- A time between the second sample and the third, of which only the third is a key frame. -/
theorem mov_seek_nearest_three :
    (∃ found sample, movSampleSeek threeSamples 14 =
        .ok (0, { threeSamples with sampleOffset := found }) ∧
      threeSamples.Nearest (fun _ => True) (threeSamples.clock 14) found sample) ∧
    ∃ found sample, movStssSeek threeSamples 14 =
        .ok (0, (sample.dts * 1000).tdiv threeSamples.timescale,
          { threeSamples with sampleOffset := found }) ∧
      threeSamples.Nearest threeSamples.Sync (threeSamples.clock 14) found sample := by
  have near (kind : Nat → Prop) : threeSamples.Near kind (threeSamples.clock 14) := by
    intro index sample _ found
    have small : ∀ sample ∈ threeSamples.samples,
        (sample.dts - threeSamples.clock 14).natAbs < 2 ^ 63 := by decide
    exact small sample (mem_of_getElem? found)
  have returned : ∀ sample ∈ threeSamples.samples, FitsInt64 (sample.dts * 1000) := by decide
  have seeks := @mov_seek_nearest threeSamples 14 (by decide)
    (by unfold ReaderTrack.InOrder; decide) (by decide) (by decide)
  exact ⟨seeks.1 (near _), seeks.2 ⟨by decide, by decide, by simp [threeSamples]⟩ (near _)
    fun index sample nearest => returned sample (mem_of_getElem? nearest.found)⟩

/-- The lowest time, and one just above the clock. -/
def spreadSamples : ReaderTrack := ⟨1, 1000, [-2 ^ 63, 2].map sampleAt, [], 0⟩

/-- A time whose milliseconds are computed through a value that does not fit. -/
def farSample : ReaderTrack := ⟨1, 1000, [9223372036854776].map sampleAt, [1], 0⟩

theorem spreadSamples_seek : movSampleSeek spreadSamples 1 = .ok (0, spreadSamples) := by
  have searched : bisectFrom (dtsAt spreadSamples) 1 0 2 0 = .ok 0 := by
    simp [bisectFrom, dtsAt, spreadSamples, sampleAt]
  have clock : trackClock spreadSamples 1 = 1 := by decide
  unfold movSampleSeek
  rw [clock, if_neg (by decide)]
  change (bisectFrom (dtsAt spreadSamples) 1 0 2 0 >>= _) = _
  rw [searched]
  rfl

theorem farSample_seek : movStssSeek farSample 0 = .ok (0, -9223372036854775, farSample) := by
  have searched : bisectFrom (stssDts farSample) 0 0 1 0 = .ok 0 := by
    simp [bisectFrom, stssDts, dtsAt, farSample, sampleAt]
  have clock : trackClock farSample 0 = 0 := by decide
  unfold movStssSeek
  rw [clock, if_neg (by decide)]
  change (bisectFrom (stssDts farSample) 0 0 1 0 >>= _) = _
  rw [searched]
  rfl

/-- An overflow makes the far one of two samples win, or stores another time. -/
theorem mov_seek_overflow :
    (spreadSamples.InOrder ∧ FitsInt64 (1 * spreadSamples.timescale) ∧
      ¬∃ found sample, movSampleSeek spreadSamples 1 =
          .ok (0, { spreadSamples with sampleOffset := found }) ∧
        spreadSamples.Nearest (fun _ => True) (spreadSamples.clock 1) found sample) ∧
    (farSample.InOrder ∧ farSample.SyncInOrder ∧ FitsInt64 (0 * farSample.timescale) ∧
      ¬∃ found sample, movStssSeek farSample 0 =
          .ok (0, (sample.dts * 1000).tdiv farSample.timescale,
            { farSample with sampleOffset := found }) ∧
        farSample.Nearest farSample.Sync (farSample.clock 0) found sample) := by
  refine ⟨⟨by unfold ReaderTrack.InOrder; decide, by decide, ?_⟩, by
    unfold ReaderTrack.InOrder; decide, ⟨by decide, by decide, by simp [farSample]⟩, by decide, ?_⟩
  · rintro ⟨found, sample, sought, nearest⟩
    rw [spreadSamples_seek] at sought
    have zero : found = 0 := congrArg (fun track => track.sampleOffset)
      (congrArg Prod.snd (Except.ok.inj sought)).symm
    subst zero
    have first : sampleAt (-2 ^ 63) = sample := Option.some.inj nearest.found
    subst first
    exact absurd (nearest.nearest 1 (sampleAt 2) trivial rfl) (by decide)
  · rintro ⟨found, sample, sought, nearest⟩
    rw [farSample_seek] at sought
    have stored := congrArg (fun result => result.2.1) (Except.ok.inj sought)
    have only : ∀ sample ∈ farSample.samples,
        (sample.dts * 1000).tdiv farSample.timescale ≠ -9223372036854775 := by decide
    exact only sample (mem_of_getElem? nearest.found) stored.symm

end CLibs.Mov
