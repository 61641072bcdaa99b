import CLibs.OpusUnits

/-!
# Safety of the Opus parsers

A packet with explicit sizes gives its last frame all that stands behind them, also the bytes of
the frames before, so its range ends behind the packet by the sum of these sizes.  This, a packet
of code `0` without a byte, a constant packet without frames and a variable one with more than
`48` are what goes wrong in a packet, and a header can announce more than `INT_MAX` bytes.
-/

namespace CLibs.Opus

open List

variable {onframe : OnFrame} {calls frames : List FrameCall} {p rest unit data : List UInt8}
  {toc : UInt8} {start count size total fuel i : Nat} {payload : Int}

/-! ## One packet -/

/-- The frame is a range of an input of `total` bytes. -/
def Inside (total : Nat) (call : FrameCall) : Prop :=
  0 ≤ call.size ∧ call.frame + call.size ≤ total

def CountedSafe (behind count : Nat) (vbr : Bool) (p : List UInt8) : Prop :=
  CountedRejected count vbr p ∨
    if vbr then
      count ≤ 48 ∧ ∀ sizes rest, readSizes (count - 1) p = some (sizes, rest) → sizes.sum ≤ behind
    else count ≠ 0

/-- A packet with `behind` bytes of input behind it is rejected, or its frames are ranges of
the input. -/
def UnitSafe (behind : Nat) : List UInt8 → Prop
  | [] => True
  | toc :: p =>
    match toc.toNat % 4 with
    | 0 => p ≠ []
    | 1 => True
    | 2 => True
    | _ => ¬CountedPart (fun count vbr rest => ¬CountedSafe behind count vbr rest) p

theorem framesFrom_inside (total : Nat) (toc : UInt8) (start : Nat) (sizes : List Nat) :
    (∀ call ∈ framesFrom toc start sizes, Inside total call) ↔
      sizes = [] ∨ start + sizes.sum ≤ total := by
  induction sizes generalizing start with
  | nil => simp [framesFrom]
  | cons size sizes ih =>
    rw [framesFrom, forall_mem_cons, ih, sum_cons]
    unfold Inside
    dsimp only
    cases sizes with
    | nil =>
      simp
      omega
    | cons next sizes =>
      simp
      omega

theorem countedSafe_iff (behind : Nat) (vbr : Bool) :
    CountedSafe behind count vbr p ↔ CountedRejected count vbr p ∨ ¬CountedFaults count vbr p ∧
      ∀ frames, opusCountedFrames toc count vbr start p = .ok (some frames) →
        ∀ call ∈ frames, Inside (start + p.length + behind) call := by
  unfold CountedSafe
  refine or_congr_right' fun accepted => ?_
  unfold CountedRejected at accepted
  unfold CountedFaults
  cases vbr with
  | true =>
    simp only [if_true] at accepted ⊢
    rcases Nat.lt_or_ge count 49 with few | many
    · obtain ⟨sizes, rest, read, -, returned⟩ :=
        vbr_accepted toc start accepted (Nat.le_of_lt_succ few)
      have length := readSizes_length read
      obtain ⟨codes, whole⟩ := readSizes_suffix read
      have split := congrArg List.length whole
      rw [length_append] at split
      have only : (∀ others rest, readSizes (count - 1) p = some (others, rest) →
          others.sum ≤ behind) ↔ sizes.sum ≤ behind := by
        rw [read]
        constructor
        · exact fun all => all _ _ rfl
        · rintro fits others rest same
          cases same
          exact fits
      have taken : (sizes ++ [rest.length]).take count = [] ∧ sizes.sum = 0 ∨
          (sizes ++ [rest.length]).take count = sizes ++ [rest.length] := by
        cases count with
        | zero =>
          obtain rfl := eq_nil_of_length_eq_zero length
          exact .inl ⟨rfl, rfl⟩
        | succ count => exact .inr (take_of_length_le (by simp; omega))
      have frames : (∀ frames, opusCountedFrames toc count true start p = .ok (some frames) →
          ∀ call ∈ frames, Inside (start + p.length + behind) call) ↔ sizes.sum ≤ behind := by
        have inside := framesFrom_inside (start + p.length + behind) toc
          (start + (p.length - rest.length)) ((sizes ++ [rest.length]).take count)
        rw [returned]
        constructor
        · intro all
          have fits := inside.mp (all _ rfl)
          rcases taken with ⟨-, none⟩ | whole
          · omega
          · rw [whole, sum_append, sum_singleton] at fits
            simp at fits
            omega
        · rintro fits others same
          cases same
          refine inside.mpr ?_
          rcases taken with ⟨none, -⟩ | whole
          · exact .inl none
          · rw [whole, sum_append, sum_singleton]
            omega
      rw [only, frames]
      constructor
      · exact fun both => ⟨by omega, both.2⟩
      · exact fun both => ⟨by omega, both.2⟩
    · constructor
      · intro both
        omega
      · intro both
        exact absurd ⟨many, accepted⟩ both.1
  | false =>
    simp only [Bool.false_eq_true, if_false] at accepted ⊢
    constructor
    · rintro some
      have divides : count ∣ p.length := not_not.mp fun uneven => accepted ⟨some, uneven⟩
      refine ⟨some, fun frames returned => ?_⟩
      rw [cbr_accepted divides some] at returned
      cases returned
      rw [framesFrom_inside, sum_replicate_nat, Nat.mul_div_cancel' divides]
      omega
    · exact fun both => both.1

theorem unitSafe_iff (start behind : Nat) (unit : List UInt8) :
    UnitSafe behind unit ↔ UnitRejected unit ∨ ¬UnitFaults unit ∧
      ∀ frames, opusFrames start unit = .ok (some frames) →
        ∀ call ∈ frames, Inside (start + unit.length + behind) call := by
  cases unit with
  | nil => exact iff_of_true trivial (.inl trivial)
  | cons toc p =>
    rcases code_cases toc with code | code | code | code
    · unfold UnitSafe UnitRejected UnitFaults
      simp only [code, opusFrames_one code]
      cases p with
      | nil => simp [Inside]
      | cons first p =>
        simp [Inside]
        omega
    · refine iff_of_true (by unfold UnitSafe; simp only [code]) ?_
      by_cases odd : p.length % 2 = 1
      · exact .inl (by unfold UnitRejected; simp only [code]; exact odd)
      · right
        refine ⟨by unfold UnitFaults; omega, fun frames returned => ?_⟩
        rw [opusFrames_equal code odd] at returned
        cases returned
        simp [Inside]
        omega
    · refine iff_of_true (by unfold UnitSafe; simp only [code]) ?_
      by_cases rejected : UnitRejected (toc :: p)
      · exact .inl rejected
      · right
        refine ⟨by unfold UnitFaults; omega, fun frames returned => ?_⟩
        unfold UnitRejected at rejected
        simp only [code, not_forall, not_lt] at rejected
        obtain ⟨size, rest, read, fits⟩ := rejected
        obtain ⟨used, -, whole⟩ := opusParseSize_suffix read
        have split := congrArg List.length whole
        rw [length_append] at split
        rw [opusFrames_two code read fits] at returned
        cases returned
        rw [framesFrom_inside]
        simp
        omega
    · unfold UnitSafe UnitRejected UnitFaults
      simp only [code, true_and]
      cases p with
      | nil => exact iff_of_true (by simp [CountedPart]) (.inl (by simp [CountedPart]))
      | cons header p =>
        rcases opusSkipPadding_cases header p with ⟨pad, rest, -, here⟩ | ⟨here, -⟩
        · obtain ⟨used, whole⟩ := opusSkipPadding_suffix here
          have split := congrArg List.length whole
          rw [length_append] at split
          have last : start + (toc :: header :: p).length + behind =
              start + 2 + (p.length - rest.length) + rest.length + behind := by
            rw [length_cons, length_cons]
            omega
          rw [countedPart_iff here, countedPart_iff here, countedPart_iff here, not_not,
            not_not, opusFrames_counted code here, last]
          exact countedSafe_iff behind _
        · exact iff_of_true (countedPart_none here) (.inl (countedPart_none here))

/-! ## The walk over the access units -/

def unitOf (data : List UInt8) (i : Nat) (payload : Int) : List UInt8 :=
  (data.drop i).take payload.toNat

/-- Every access unit that the walk comes to is safe. -/
def WalkSafe : (fuel : Nat) → List UInt8 → Prop
  | 0, _ => True
  | fuel + 1, data =>
    data = [] ∨ opusTsHeader data = .ok none ∨
      ∃ i payload, opusTsHeader data = .ok (some (i, payload)) ∧
        (i : Int) + payload ≤ data.length ∧
        UnitSafe (data.length - (i + payload.toNat)) (unitOf data i payload) ∧
        (¬UnitRejected (unitOf data i payload) →
          WalkSafe fuel (data.drop (i + payload.toNat)))

theorem unitOf_length (accepted : ¬UnitRejected (unitOf data i payload))
    (fits : (i : Int) + payload ≤ data.length) :
    0 < payload.toNat ∧ i + payload.toNat ≤ data.length ∧
      (unitOf data i payload).length = payload.toNat := by
  have some : (unitOf data i payload).length ≠ 0 := by
    intro none
    rw [eq_nil_of_length_eq_zero none] at accepted
    exact accepted trivial
  unfold unitOf at some ⊢
  rw [length_take, length_drop] at some ⊢
  omega

theorem opusUnitFrames_turn (onframe : OnFrame) (fuel start : Nat) (calls : List FrameCall)
    (nonempty : data ≠ []) (header : opusTsHeader data = .ok (some (i, payload)))
    (fits : (i : Int) + payload ≤ data.length) :
    opusUnitFrames onframe (fuel + 1) start data calls =
      match opusFrames (start + i) (unitOf data i payload) with
      | .error fault => .error fault
      | .ok none => .ok (-1, calls)
      | .ok (some frames) =>
        if (deliver onframe calls frames).1 < 0 then .ok (deliver onframe calls frames)
        else
          opusUnitFrames onframe fuel (start + (i + payload.toNat))
            (data.drop (i + payload.toNat)) (deliver onframe calls frames).2 := by
  rw [opusUnitFrames, if_neg nonempty, header]
  dsimp only
  rw [if_neg (by omega)]
  unfold opusParseFrames unitOf
  cases opusFrames (start + i) ((data.drop i).take payload.toNat) with
  | error fault => rfl
  | ok result =>
    cases result with
    | none => rfl
    | some frames => rfl

theorem deliver_inside (onframe : OnFrame) (before : ∀ call ∈ calls, Inside total call)
    (frames : List FrameCall) (inside : ∀ call ∈ frames, Inside total call) :
    ∀ call ∈ (deliver onframe calls frames).2, Inside total call := by
  obtain ⟨handed, first, returned, -⟩ := deliver_prefix onframe calls frames
  rw [returned]
  intro call listed
  rcases mem_append.mp listed with old | new
  · exact before call old
  · exact inside call (first.subset new)

theorem WalkSafe.runs (safe : WalkSafe fuel data) (enough : data.length < fuel)
    (onframe : OnFrame) (before : ∀ call ∈ calls, Inside total call)
    (whole : total = start + data.length) :
    ∃ r calls', opusUnitFrames onframe fuel start data calls = .ok (r, calls') ∧
      ∀ call ∈ calls', Inside total call := by
  induction fuel generalizing start data calls with
  | zero => omega
  | succ fuel ih =>
    rw [WalkSafe] at safe
    by_cases nonempty : data = []
    · refine ⟨0, calls, ?_, before⟩
      rw [opusUnitFrames, if_pos nonempty]
    rcases safe with empty | refused | ⟨i, payload, header, fits, unit, rest⟩
    · exact absurd empty nonempty
    · refine ⟨-1, calls, ?_, before⟩
      rw [opusUnitFrames, if_neg nonempty, refused]
    · rw [opusUnitFrames_turn onframe fuel start calls nonempty header fits]
      rcases opusFrames_cases (start + i) (unitOf data i payload) with ⟨-, none⟩ |
        ⟨faults, accepted, -⟩ | ⟨accepted, -, frames, some⟩
      · rw [none]
        exact ⟨-1, calls, rfl, before⟩
      · rcases (unitSafe_iff (start + i) _ _).mp unit with rejected | ⟨sound, -⟩
        · exact absurd rejected accepted
        · exact absurd faults sound
      · obtain ⟨positive, within, length⟩ := unitOf_length accepted fits
        have inside : ∀ call ∈ frames, Inside total call := by
          rcases (unitSafe_iff (start + i) _ _).mp unit with rejected | ⟨-, ranges⟩
          · exact absurd rejected accepted
          · have last : start + i + (unitOf data i payload).length +
                (data.length - (i + payload.toNat)) = total := by omega
            rw [last] at ranges
            exact ranges frames some
        have handed := deliver_inside onframe before frames inside
        rw [some]
        dsimp only
        split
        · exact ⟨_, _, rfl, handed⟩
        · refine ih (rest accepted) ?_ handed ?_
          · rw [length_drop]
            omega
          · rw [length_drop]
            omega

variable {r : Int} {last : List FrameCall}

/-- What a walk that returns has done with its first access unit. -/
theorem opusUnitFrames_cases
    (returned : opusUnitFrames onframe (fuel + 1) start data calls = .ok (r, last)) :
    (data = [] ∧ r = 0 ∧ last = calls) ∨
      data ≠ [] ∧ (opusTsHeader data = .ok none ∧ last = calls ∨
        ∃ i payload, opusTsHeader data = .ok (some (i, payload)) ∧
          (i : Int) + payload ≤ data.length ∧ (UnitRejected (unitOf data i payload) ∧ last = calls ∨
            ∃ frames, ¬UnitRejected (unitOf data i payload) ∧ ¬UnitFaults (unitOf data i payload) ∧
              opusFrames (start + i) (unitOf data i payload) = .ok (some frames) ∧
              if (deliver onframe calls frames).1 < 0 then deliver onframe calls frames = (r, last)
              else opusUnitFrames onframe fuel (start + (i + payload.toNat))
                (data.drop (i + payload.toNat)) (deliver onframe calls frames).2 = .ok (r, last))) := by
  by_cases empty : data = []
  · rw [opusUnitFrames, if_pos empty] at returned
    cases returned
    exact .inl ⟨empty, rfl, rfl⟩
  refine .inr ⟨empty, ?_⟩
  cases header : opusTsHeader data with
  | error fault =>
    rw [opusUnitFrames, if_neg empty, header] at returned
    cases returned
  | ok found =>
    cases found with
    | none =>
      rw [opusUnitFrames, if_neg empty, header] at returned
      cases returned
      exact .inl ⟨rfl, rfl⟩
    | some found =>
      obtain ⟨i, payload⟩ := found
      by_cases fits : (i : Int) + payload ≤ data.length
      · refine .inr ⟨i, payload, rfl, fits, ?_⟩
        rw [opusUnitFrames_turn onframe fuel start calls empty header fits] at returned
        rcases opusFrames_cases (start + i) (unitOf data i payload) with ⟨rejected, none⟩ |
          ⟨-, -, fault, failed⟩ | ⟨accepted, sound, frames, some⟩
        · rw [none] at returned
          cases returned
          exact .inl ⟨rejected, rfl⟩
        · rw [failed] at returned
          cases returned
        · rw [some] at returned
          refine .inr ⟨frames, accepted, sound, some, ?_⟩
          dsimp only at returned
          split at returned
          · next negative =>
              rw [if_pos negative]
              exact Except.ok.inj returned
          · next going =>
              rw [if_neg going]
              exact returned
      · rw [opusUnitFrames, if_neg empty, header] at returned
        dsimp only at returned
        rw [if_pos (by omega)] at returned
        cases returned

theorem opusUnitFrames_prefix (onframe : OnFrame)
    (returned : opusUnitFrames onframe fuel start data calls = .ok (r, last)) : calls <+: last := by
  induction fuel generalizing start data calls with
  | zero => cases returned
  | succ fuel ih =>
    rcases opusUnitFrames_cases returned with ⟨-, -, rfl⟩ |
      ⟨-, ⟨-, rfl⟩ | ⟨i, payload, -, -, ⟨-, rfl⟩ | ⟨frames, -, -, -, turn⟩⟩⟩
    · exact prefix_rfl
    · exact prefix_rfl
    · exact prefix_rfl
    · obtain ⟨handed, -, delivered, -⟩ := deliver_prefix onframe calls frames
      have longer : calls <+: (deliver onframe calls frames).2 := ⟨handed, delivered.symm⟩
      split at turn
      · rw [turn] at longer
        exact longer
      · exact longer.trans (ih turn)

theorem WalkSafe.of_runs (returned : opusUnitFrames accepting fuel start data calls = .ok (r, last))
    (inside : ∀ call ∈ last, Inside total call) (whole : total = start + data.length) :
    WalkSafe fuel data := by
  induction fuel generalizing start data calls with
  | zero => trivial
  | succ fuel ih =>
    rw [WalkSafe]
    rcases opusUnitFrames_cases returned with ⟨empty, -⟩ | ⟨-, ⟨none, -⟩ | ⟨i, payload, header,
      fits, ⟨rejected, -⟩ | ⟨frames, accepted, sound, some, turn⟩⟩⟩
    · exact .inl empty
    · exact .inr (.inl none)
    · exact .inr (.inr ⟨i, payload, header, fits, (unitSafe_iff (start + i) _ _).mpr (.inl rejected),
        absurd rejected⟩)
    · obtain ⟨positive, within, length⟩ := unitOf_length accepted fits
      rw [deliver_accepting, if_neg (Int.lt_irrefl 0)] at turn
      have handed := opusUnitFrames_prefix accepting turn
      have ranges : ∀ call ∈ frames, Inside total call := fun call listed =>
        inside call (handed.subset (mem_append_right _ listed))
      have end' : start + i + (unitOf data i payload).length +
          (data.length - (i + payload.toNat)) = total := by omega
      refine .inr (.inr ⟨i, payload, header, fits,
        (unitSafe_iff (start + i) _ _).mpr (.inr ⟨sound, ?_⟩), fun _ => ih turn ?_⟩)
      · intro others same
        rw [some] at same
        cases same
        rw [end']
        exact ranges
      · rw [length_drop]
        omega

/-! ## Identification headers -/

theorem entry_returns {Value : Type} (table : List Value) (index : Nat) :
    (∃ value, entry table index = .ok value) ↔ index < table.length := by
  unfold entry
  constructor
  · rintro ⟨value, found⟩
    by_contra behind
    rw [List.getElem?_eq_none (Nat.not_lt.mp behind)] at found
    cases found
  · intro inside
    rw [List.getElem?_eq_getElem inside]
    exact ⟨_, rfl⟩

/-- The channel tables are not used, or they have an entry for the channels. -/
def HeadInTables (data : List UInt8) : Prop :=
  data.length < 19 ∨ data.take 8 ≠ opusMagic ∨ (data.getD 18 0 ≠ 0 ∧ 29 ≤ data.length) ∨
    (data.getD 9 0).toNat ≤ 8

theorem opusHeadLoad_returns_iff (data : List UInt8) :
    (∃ result, opusHeadLoad data = .ok result) ↔ HeadInTables data := by
  unfold opusHeadLoad HeadInTables
  by_cases refused : data.length < 19 ∨ data.take 8 ≠ opusMagic
  · rw [if_pos refused]
    exact iff_of_true ⟨_, rfl⟩ (by tauto)
  rw [if_neg refused]
  by_cases mapped : data.getD 18 0 ≠ 0 ∧ 29 ≤ data.length
  · dsimp only
    rw [if_pos mapped]
    exact iff_of_true ⟨_, rfl⟩ (by tauto)
  dsimp only
  rw [if_neg mapped]
  have streams := entry_returns opusStreamCnt (data.getD 9 0).toNat
  have coupled := entry_returns opusCoupledStreamCnt (data.getD 9 0).toNat
  have mapping := entry_returns opusChannelMap (opusHeadChannels (data.getD 9 0) - 1)
  have few : opusHeadChannels (data.getD 9 0) - 1 < 8 ↔ (data.getD 9 0).toNat ≤ 8 := by
    unfold opusHeadChannels
    split
    · next none =>
        rw [none]
        decide
    · omega
  constructor
  · rintro ⟨result, returned⟩
    have within : (data.getD 9 0).toNat < 9 := by
      refine streams.mp ?_
      cases found : entry opusStreamCnt (data.getD 9 0).toNat with
      | error fault =>
        rw [found] at returned
        cases returned
      | ok value => exact ⟨value, rfl⟩
    exact .inr (.inr (.inr (by omega)))
  · intro covered
    have within : (data.getD 9 0).toNat ≤ 8 := by tauto
    obtain ⟨stream, first⟩ := streams.mpr (Nat.lt_succ_of_le within)
    obtain ⟨pair, second⟩ := coupled.mpr (Nat.lt_succ_of_le within)
    obtain ⟨map, third⟩ := mapping.mpr (few.mpr within)
    rw [first, second, third]
    exact ⟨_, rfl⟩

/-! ## Both parsers -/

/-- Whatever the callback returns, `opus_packet_getframes` returns without a fault and hands
over ranges of the input only. -/
def GetframesSafe (data : List UInt8) : Prop :=
  ∀ onframe, ∃ r calls, opusPacketGetframes onframe data = .ok (r, calls) ∧
    ∀ call ∈ calls, Inside data.length call

theorem getframesSafe_iff (data : List UInt8) :
    GetframesSafe data ↔ WalkSafe (data.length + 1) data := by
  constructor
  · intro safe
    obtain ⟨r, calls, returned, inside⟩ := safe accepting
    exact .of_runs returned inside (Nat.zero_add _).symm
  · intro safe onframe
    exact safe.runs (Nat.lt_succ_self _) onframe (by simp) (Nat.zero_add _).symm

/-- `opus_packet_getframes` is safe exactly if every access unit that it comes to is, and
`opus_head_load` exactly if the channel tables cover the channels wherever they are used. -/
theorem opus_parsing_safe_iff (data : List UInt8) :
    (GetframesSafe data ↔ WalkSafe (data.length + 1) data) ∧
      ((∃ result, opusHeadLoad data = .ok result) ↔ HeadInTables data) :=
  ⟨getframesSafe_iff data, opusHeadLoad_returns_iff data⟩

/-- A constant packet of code `3` with the frame count `0`, and a header with nine channels. -/
theorem opus_parsing_faults :
    ¬∀ data, GetframesSafe data ∧ ∃ result, opusHeadLoad data = .ok result := by
  intro safe
  obtain ⟨r, calls, returned, -⟩ := (safe [0x03, 0x00, 0x55]).1 accepting
  have divides : (opusPacketGetframes accepting [0x03, 0x00, 0x55]) = .error .division := by
    decide +kernel
  rw [divides] at returned
  cases returned

end CLibs.Opus
