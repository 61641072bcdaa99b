import CLibs.FaultingPrograms
import CLibs.HlsParser
import Mathlib.Data.List.Forall2

/-!
# The segments of an HLS playlist

`hls_m3u8_add` appends a segment to a playlist.  A live playlist keeps the last few: the first
segment goes, and its memory is used again for the new one if the new name fits, which is why more
is asked for than a name needs.  A name is given by its bytes before the NUL.
-/

namespace CLibs.Hls

open List

/-! ## The playlist -/

/-- `struct hls_segment_t`: a name lies in memory of `capacity` bytes. -/
structure HlsSegment where
  pts : Int
  duration : Int
  discontinuity : Int
  name : List UInt8
  capacity : Nat

/-- `struct hls_m3u8_t`, with its list of segments from `root.next` on. -/
structure HlsM3u8 where
  live : Int
  version : Int
  seq : Int
  duration : Int
  count : Nat
  root : List HlsSegment
  extXMap : Option (List UInt8)

def hlsLiveNum : Int := 3

/-- `hls_m3u8_create`, with the memory for it granted. -/
def hlsM3u8Create (live version : Int) : Except Fault HlsM3u8 := do
  check (live = 0 ∨ live ≥ hlsLiveNum)
  return ⟨live, version, 0, 0, 0, [], none⟩

/-- `hls_segment_alloc`, if the memory is granted: nothing is stored yet. -/
def hlsSegmentAlloc (granted : Bool) (bytes : Nat) : Option HlsSegment :=
  if granted then some ⟨0, 0, 0, [], bytes⟩ else none

/-- The first segment is taken from a live playlist that is full.  It comes back if the new name
of `r` bytes fits into it, and else it is freed. -/
def hlsEvict (m3u8 : HlsM3u8) (r : Nat) : Except Fault (HlsM3u8 × Option HlsSegment) :=
  if m3u8.live ≠ 0 ∧ m3u8.count ≥ m3u8.live.toNat then do
    check (m3u8.count = m3u8.live.toNat)
    match m3u8.root with
    | [] => .error .outside
    | seg :: rest =>
      if r + 1 > seg.capacity then
        return ({ m3u8 with seq := m3u8.seq + 1, root := rest, count := m3u8.count - 1 }, none)
      else return ({ m3u8 with seq := m3u8.seq + 1, root := rest }, some seg)
  else .ok (m3u8, none)

/-- The segment that is filled: the one that came back, or a new one that counts. -/
def hlsObtain (granted : Bool) (m3u8 : HlsM3u8) (r : Nat) (seg : Option HlsSegment) :
    HlsM3u8 × Option HlsSegment :=
  match seg with
  | some seg => (m3u8, some seg)
  | none =>
    match hlsSegmentAlloc granted (r + if m3u8.live ≠ 0 then 16 else 1) with
    | none => (m3u8, none)
    | some seg => ({ m3u8 with count := m3u8.count + 1 }, some seg)

/-- The segment is filled and appended; `memcpy` writes the name and its NUL. -/
def hlsAppend (m3u8 : HlsM3u8) (seg : HlsSegment) (name : List UInt8)
    (pts duration discontinuity : Int) : Except Fault HlsM3u8 :=
  if name.length + 1 ≤ seg.capacity then
    .ok { m3u8 with
      duration := max m3u8.duration duration
      root := m3u8.root ++ [⟨pts, duration, discontinuity, name, seg.capacity⟩] }
  else .error .outside

/-- `hls_m3u8_add`; `granted` tells whether memory is granted if it is asked for. -/
def hlsM3u8Add (granted : Bool) (m3u8 : HlsM3u8) (name : List UInt8)
    (pts duration discontinuity : Int) : Except Fault (HlsM3u8 × Int) := do
  let (m3u8, seg) ← hlsEvict m3u8 name.length
  match hlsObtain granted m3u8 name.length seg with
  | (m3u8, none) => return (m3u8, enomem)
  | (m3u8, some seg) =>
    let m3u8 ← hlsAppend m3u8 seg name pts duration discontinuity
    return (m3u8, 0)

def hlsM3u8Count (m3u8 : HlsM3u8) : Nat := m3u8.count

/-! ## Runs -/

/-- The arguments of a call of `hls_m3u8_add`. -/
structure HlsAdd where
  name : List UInt8
  pts : Int
  duration : Int
  discontinuity : Int
  deriving DecidableEq

def HlsAdd.call (add : HlsAdd) (granted : Bool) (m3u8 : HlsM3u8) : Except Fault (HlsM3u8 × Int) :=
  hlsM3u8Add granted m3u8 add.name add.pts add.duration add.discontinuity

/-- A sequence of successful calls on a new playlist. -/
inductive Added (live version : Int) : List HlsAdd → HlsM3u8 → Prop
  | created {m3u8 : HlsM3u8} (made : hlsM3u8Create live version = .ok m3u8) :
      Added live version [] m3u8
  | added {adds : List HlsAdd} {m3u8 next : HlsM3u8} {add : HlsAdd} {granted : Bool}
      (before : Added live version adds m3u8) (success : add.call granted m3u8 = .ok (next, 0)) :
      Added live version (adds ++ [add]) next

/-- The segment is what was added, and its name has room. -/
structure HlsSegment.Shows (seg : HlsSegment) (add : HlsAdd) : Prop where
  name : seg.name = add.name
  pts : seg.pts = add.pts
  duration : seg.duration = add.duration
  discontinuity : seg.discontinuity = add.discontinuity
  inside : seg.name.length + 1 ≤ seg.capacity

/-- How many of `total` segments a playlist keeps. -/
def windowSize (live : Int) (total : Nat) : Nat := if live = 0 then total else min total live.toNat

def targetDuration (adds : List HlsAdd) : Int :=
  adds.foldl (fun largest add => max largest add.duration) 0

/-- What holds after the calls. -/
structure Windowed (live : Int) (adds : List HlsAdd) (m3u8 : HlsM3u8) : Prop where
  setting : m3u8.live = live
  count : m3u8.count = windowSize live adds.length
  shown : List.Forall₂ HlsSegment.Shows m3u8.root (adds.drop (adds.length - m3u8.count))
  seq : m3u8.seq = adds.length - m3u8.count
  duration : m3u8.duration = targetDuration adds

theorem targetDuration_append (adds : List HlsAdd) (add : HlsAdd) :
    targetDuration (adds ++ [add]) = max (targetDuration adds) add.duration := by
  unfold targetDuration
  rw [foldl_append]
  rfl

theorem targetDuration_nonneg (adds : List HlsAdd) : 0 ≤ targetDuration adds := by
  induction adds using List.reverseRecOn with
  | nil => exact Int.le_refl 0
  | append_singleton adds add earlier =>
    rw [targetDuration_append]
    exact Int.le_trans earlier (Int.le_max_left _ _)

theorem le_targetDuration {adds : List HlsAdd} {add : HlsAdd} (member : add ∈ adds) :
    add.duration ≤ targetDuration adds := by
  induction adds using List.reverseRecOn with
  | nil => cases member
  | append_singleton adds last earlier =>
    rw [targetDuration_append]
    rcases mem_append.mp member with before | here
    · exact Int.le_trans (earlier before) (Int.le_max_left _ _)
    · rw [mem_singleton.mp here]
      exact Int.le_max_right _ _

theorem targetDuration_attained (adds : List HlsAdd) :
    targetDuration adds = 0 ∨ ∃ add ∈ adds, targetDuration adds = add.duration := by
  induction adds using List.reverseRecOn with
  | nil => exact .inl rfl
  | append_singleton adds last earlier =>
    rw [targetDuration_append]
    rcases Int.le_total (targetDuration adds) last.duration with longer | shorter
    · exact .inr ⟨last, by simp, Int.max_eq_right longer⟩
    · rw [Int.max_eq_left shorter]
      rcases earlier with none | ⟨add, member, largest⟩
      · exact .inl none
      · exact .inr ⟨add, mem_append_left _ member, largest⟩

section

variable {live : Int} {adds : List HlsAdd} {m3u8 : HlsM3u8}

theorem Windowed.few (windowed : Windowed live adds m3u8) : m3u8.count ≤ adds.length := by
  rw [windowed.count]
  unfold windowSize
  split
  · exact Nat.le_refl _
  · exact Nat.min_le_left _ _

theorem Windowed.root_length (windowed : Windowed live adds m3u8) :
    m3u8.root.length = m3u8.count := by
  have few := windowed.few
  rw [windowed.shown.length_eq, length_drop]
  omega

theorem Windowed.append (windowed : Windowed live adds m3u8) {add : HlsAdd} {next : HlsM3u8}
    (gone capacity : Nat) (kept : gone ≤ m3u8.count)
    (size : m3u8.count + 1 - gone = windowSize live (adds.length + 1))
    (fits : add.name.length + 1 ≤ capacity)
    (made : next = { m3u8 with
      seq := m3u8.seq + gone
      duration := max m3u8.duration add.duration
      count := m3u8.count + 1 - gone
      root := m3u8.root.drop gone ++
        [⟨add.pts, add.duration, add.discontinuity, add.name, capacity⟩] }) :
    Windowed live (adds ++ [add]) next := by
  have few := windowed.few
  subst made
  constructor
  case setting => exact windowed.setting
  case count => simpa using size
  case shown =>
    have older : (adds ++ [add]).drop ((adds ++ [add]).length - (m3u8.count + 1 - gone)) =
        (adds.drop (adds.length - m3u8.count)).drop gone ++ [add] := by
      rw [drop_drop, length_append, length_singleton, drop_append_of_le_length]
      · congr 2
        omega
      · omega
    rw [older]
    exact rel_append (forall₂_drop gone windowed.shown) (.cons ⟨rfl, rfl, rfl, rfl, fits⟩ .nil)
  case seq =>
    have seq := windowed.seq
    simp only [length_append, length_singleton]
    omega
  case duration => rw [targetDuration_append, ← windowed.duration]

/-- The settings that `hls_m3u8_create` asserts. -/
def LiveSetting (live : Int) : Prop := live = 0 ∨ live ≥ hlsLiveNum

theorem Windowed.full (windowed : Windowed live adds m3u8) (some : m3u8.live ≠ 0)
    (full : m3u8.count ≥ m3u8.live.toNat) :
    m3u8.count = m3u8.live.toNat ∧ windowSize live (adds.length + 1) = m3u8.count := by
  have count := windowed.count
  rw [windowed.setting] at some full ⊢
  unfold windowSize at count ⊢
  rw [if_neg some] at count ⊢
  omega

theorem Windowed.growing (windowed : Windowed live adds m3u8)
    (growing : ¬(m3u8.live ≠ 0 ∧ m3u8.count ≥ m3u8.live.toNat)) :
    windowSize live (adds.length + 1) = m3u8.count + 1 := by
  have count := windowed.count
  rw [windowed.setting] at growing
  unfold windowSize at count ⊢
  split at count
  · rw [if_pos ‹_›, count]
  · rw [if_neg ‹_›]
    omega

theorem room_of_alloc (r : Nat) (live : Int) : r + 1 ≤ r + if live ≠ 0 then 16 else 1 := by
  split <;> omega

theorem Windowed.replaces (windowed : Windowed live adds m3u8) (valid : LiveSetting live)
    (some : m3u8.live ≠ 0) (full : m3u8.count ≥ m3u8.live.toNat) (add : HlsAdd) (granted : Bool) :
    (∃ next, add.call granted m3u8 = .ok (next, 0) ∧ Windowed live (adds ++ [add]) next) ∨
      ∃ next, add.call granted m3u8 = .ok (next, enomem) := by
  obtain ⟨reached, size⟩ := windowed.full some full
  have large : 1 ≤ m3u8.count := by
    rw [reached, windowed.setting]
    rw [windowed.setting] at some
    unfold LiveSetting hlsLiveNum at valid
    omega
  have length := windowed.root_length
  unfold HlsAdd.call hlsM3u8Add hlsEvict
  rw [if_pos ⟨some, full⟩, check_eq reached, ok_bind]
  cases first : m3u8.root with
  | nil =>
    rw [first] at length
    exact absurd length.symm (Nat.ne_of_gt large)
  | cons seg rest =>
    dsimp only
    by_cases long : add.name.length + 1 > seg.capacity
    · rw [if_pos long]
      cases granted with
      | false => exact .inr ⟨_, rfl⟩
      | true =>
        have fits := room_of_alloc add.name.length m3u8.live
        refine .inl ⟨_, by
          change hlsAppend _ _ _ _ _ _ >>= _ = _
          rw [hlsAppend, if_pos fits]
          rfl, ?_⟩
        refine windowed.append 1 _ large (by omega) fits ?_
        rw [first]
        simp only [Nat.sub_add_cancel large, Nat.add_sub_cancel]
        rfl
    · rw [if_neg long]
      have fits : add.name.length + 1 ≤ seg.capacity := Nat.le_of_not_gt long
      refine .inl ⟨_, by
        change hlsAppend _ _ _ _ _ _ >>= _ = _
        rw [hlsAppend, if_pos fits]
        rfl, ?_⟩
      refine windowed.append 1 _ large (by omega) fits ?_
      rw [first]
      rfl

theorem Windowed.grows (windowed : Windowed live adds m3u8)
    (growing : ¬(m3u8.live ≠ 0 ∧ m3u8.count ≥ m3u8.live.toNat)) (add : HlsAdd) (granted : Bool) :
    (∃ next, add.call granted m3u8 = .ok (next, 0) ∧ Windowed live (adds ++ [add]) next) ∨
      ∃ next, add.call granted m3u8 = .ok (next, enomem) := by
  unfold HlsAdd.call hlsM3u8Add hlsEvict
  rw [if_neg growing, ok_bind]
  cases granted with
  | false => exact .inr ⟨_, rfl⟩
  | true =>
    have fits := room_of_alloc add.name.length m3u8.live
    refine .inl ⟨_, by
      change hlsAppend _ _ _ _ _ _ >>= _ = _
      rw [hlsAppend, if_pos fits]
      rfl, ?_⟩
    refine windowed.append 0 _ (Nat.zero_le _) (windowed.growing growing).symm fits ?_
    simp

theorem Windowed.step (windowed : Windowed live adds m3u8) (valid : LiveSetting live) (add : HlsAdd)
    (granted : Bool) :
    (∃ next, add.call granted m3u8 = .ok (next, 0) ∧ Windowed live (adds ++ [add]) next) ∨
      ∃ next, add.call granted m3u8 = .ok (next, enomem) := by
  by_cases full : m3u8.live ≠ 0 ∧ m3u8.count ≥ m3u8.live.toNat
  · exact windowed.replaces valid full.1 full.2 add granted
  · exact windowed.grows full add granted

theorem Added.windowed {version : Int} (valid : LiveSetting live) (run : Added live version adds m3u8) :
    Windowed live adds m3u8 := by
  induction run with
  | created made =>
    unfold hlsM3u8Create at made
    rw [check_eq (show live = 0 ∨ live ≥ hlsLiveNum from valid), ok_bind] at made
    cases made
    refine ⟨rfl, ?_, .nil, rfl, rfl⟩
    unfold windowSize
    split <;> simp
  | added before success earlier =>
    rcases earlier.step valid _ _ with ⟨next, returned, windowed⟩ | ⟨next, refused⟩
    · rw [returned] at success
      cases success
      exact windowed
    · rw [refused] at success
      exact absurd (congrArg Prod.snd (Except.ok.inj success)) (show enomem ≠ 0 by decide)

end

/-- After every sequence of successful calls the playlist holds the last segments, in order and as
they were given, and no later call writes a name outside of its segment. -/
theorem m3u8_live_window {live version : Int} (valid : LiveSetting live) {adds : List HlsAdd}
    {m3u8 : HlsM3u8} (run : Added live version adds m3u8) :
    List.Forall₂ HlsSegment.Shows m3u8.root
        (adds.drop (adds.length - windowSize live adds.length)) ∧
      hlsM3u8Count m3u8 = m3u8.root.length ∧ m3u8.root.length = windowSize live adds.length ∧
      m3u8.seq = adds.length - m3u8.root.length ∧
      (∀ (granted : Bool) (add : HlsAdd), ∃ result, add.call granted m3u8 = .ok result) ∧
      0 ≤ m3u8.duration ∧ (∀ add ∈ adds, add.duration ≤ m3u8.duration) ∧
      (m3u8.duration = 0 ∨ ∃ add ∈ adds, m3u8.duration = add.duration) := by
  have windowed := run.windowed valid
  have length := windowed.root_length
  refine ⟨?_, length.symm, length.trans windowed.count, ?_, ?_, ?_, ?_, ?_⟩
  · rw [← windowed.count]
    exact windowed.shown
  · rw [length]
    exact windowed.seq
  · intro granted add
    rcases windowed.step valid add granted with ⟨next, returned, _⟩ | ⟨next, refused⟩
    · exact ⟨_, returned⟩
    · exact ⟨_, refused⟩
  · rw [windowed.duration]
    exact targetDuration_nonneg adds
  · intro add member
    rw [windowed.duration]
    exact le_targetDuration member
  · rw [windowed.duration]
    exact targetDuration_attained adds

/-- Three short names, and one that is too long for the memory of the first. -/
def fourAdds : List HlsAdd :=
  [⟨[0x61], 0, 4000, 0⟩, ⟨[0x62], 4000, 6000, 0⟩, ⟨[0x63], 10000, 5000, 1⟩,
    ⟨List.replicate 40 0x64, 15000, 4500, 0⟩]

theorem Added.granted {live version : Int} {adds : List HlsAdd} {m3u8 next : HlsM3u8} {add : HlsAdd}
    (before : Added live version adds m3u8) (success : add.call true m3u8 = .ok (next, 0)) :
    Added live version (adds ++ [add]) next := .added before success

/-- Of four segments the last three are shown. -/
theorem m3u8_live_window_four :
    ∃ m3u8, Added 3 7 fourAdds m3u8 ∧
      List.Forall₂ HlsSegment.Shows m3u8.root (fourAdds.drop (4 - windowSize 3 4)) ∧
      m3u8.root.length = 3 ∧ m3u8.seq = 1 := by
  have run : Added 3 7 fourAdds _ :=
    .granted (.granted (.granted (.granted (.created rfl) rfl) rfl) rfl) rfl
  obtain ⟨shown, _, size, seq, _⟩ := m3u8_live_window (.inr (by decide)) run
  exact ⟨_, run, shown, size, seq⟩

/-- The target duration begins with 0, which a negative duration does not lower. -/
theorem m3u8_target_not_added :
    ∃ m3u8, Added 0 3 [⟨[0x61], 0, -1, 0⟩] m3u8 ∧
      ¬∃ add ∈ [(⟨[0x61], 0, -1, 0⟩ : HlsAdd)], m3u8.duration = add.duration := by
  have run : Added 0 3 [⟨[0x61], 0, -1, 0⟩] _ := .granted (.created rfl) rfl
  exact ⟨_, run, by decide⟩

end CLibs.Hls
