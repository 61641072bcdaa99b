import CLibs.AnnexBParts

/-!
# From a byte stream to lengths and back

The walk over the lengths stops where at most five bytes are left, so a last NAL unit
of one byte is not read.  Where an IDR picture comes before any parameter set, having
no set to put in front of it counts as a failure.
-/

namespace CLibs.Avc

open List

variable {avc : Mpeg4Avc} {nal : List UInt8} {nals sps pps : List (List UInt8)}
  {out : Buffer UInt8} {state : Mp4ToAnnexb} {fuel : Nat}

/-! ## The sets in front -/

/-- The stored sets can be read, and their byte stream is short. -/
structure Readable (avc : Mpeg4Avc) (sps pps : List (List UInt8)) : Prop where
  spsCount : avc.nbSps.toNat = sps.length
  ppsCount : avc.nbPps.toNat = pps.length
  spsSize : avc.sps.size = 32
  ppsSize : avc.pps.size = 256
  spsFew : sps.length ≤ 32
  spsPoints : Points avc.sps avc.data 0 sps
  ppsPoints : Points avc.pps avc.data 0 pps
  units : ∀ nal ∈ sps ++ pps, IsUnit nal
  short : (codes (sps ++ pps)).length ≤ dataSize + 4 * 288

theorem codes_length (nals : List (List UInt8)) :
    (codes nals).length = (nals.map List.length).sum + 4 * nals.length := by
  induction nals with
  | nil => rfl
  | cons nal nals ih =>
    rw [codes_cons_length, ih, map_cons, sum_cons, length_cons]
    omega

theorem Stocked.readable {shelf : Shelf} (stocked : Stocked avc shelf) :
    Readable avc (shelf.sets .sps) (shelf.sets .pps) := by
  obtain ⟨⟨entries, shelved⟩, stored⟩ := stocked
  have packed := shelved.packed
  have units : ∀ nal ∈ shelf.sets .sps ++ shelf.sets .pps, IsUnit nal := by
    intro nal listed
    exact (mem_append.mp listed).elim (stored .sps nal) (stored .pps nal)
  rw [← shelved.sets, ← shelved.sets] at units ⊢
  have spsCount := packed.count .sps
  have ppsCount := packed.count .pps
  have spsHeld := (packed.held .sps).fits
  have ppsBound := avc.nbPps.toNat_lt
  have spsSize := packed.arraySize .sps
  rw [length_map, spsSize] at spsHeld
  have spsFew : (entries .sps).length ≤ 32 := by
    change 0 + (entries .sps).length ≤ 32 at spsHeld
    omega
  have ppsFew : (entries .pps).length < 256 := by
    rw [← ppsCount]
    exact ppsBound
  refine ⟨?_, ?_, spsSize, packed.arraySize .pps, ?_, packed.points .sps, packed.points .pps, units,
    ?_⟩
  · rw [nalus, length_map]
    exact spsCount
  · rw [nalus, length_map]
    exact ppsCount
  · rw [nalus, length_map]
    exact spsFew
  · have total := sum_bytes_le packed.tiles.inside packed.tiles.apart
    have room := packed.room
    have widths : ((both entries).map Entry.place).map Segment.bytes =
        ((both entries).map Entry.nalu).map List.length := by
      rw [map_map, map_map]
      refine map_congr_left fun entry listed => ?_
      exact (packed.contents entry listed).1.symm
    have list : nalus entries .sps ++ nalus entries .pps = (both entries).map Entry.nalu :=
      (map_append ..).symm
    have count : ((both entries).map Entry.nalu).length ≤ 288 := by
      rw [length_map, both, length_append]
      omega
    rw [widths] at total
    rw [list, codes_length]
    omega

theorem Readable.size_eq (readable : Readable avc sps pps) :
    h264SpsPpsSize avc = .ok (codes (sps ++ pps)).length := by
  have ppsBound := avc.nbPps.toNat_lt
  have ppsCount := readable.ppsCount
  unfold h264SpsPpsSize
  rw [readable.spsCount, setsSize_eq readable.spsPoints
    (by rw [readable.spsSize]; have := readable.spsFew; omega), ok_bind, ppsCount,
    setsSize_eq readable.ppsPoints (by rw [readable.ppsSize]; omega), ok_bind, codes_append,
    length_append]

theorem Readable.toNalu_eq (readable : Readable avc sps pps)
    (room : (codes (sps ++ pps)).length ≤ out.size) :
    ∃ next, mpeg4AvcToNalu avc out = .ok (some (codes (sps ++ pps)).length, next) ∧
      next.size = out.size ∧ next.Holds 0 (codes (sps ++ pps)) ∧
      ∀ position bytes, out.Holds position bytes → (codes (sps ++ pps)).length ≤ position →
        next.Holds position bytes := by
  have ppsBound := avc.nbPps.toNat_lt
  have ppsCount := readable.ppsCount
  have spsFew := readable.spsFew
  have short := readable.short
  rw [codes_append, length_append] at room short ⊢
  have spsLoop : ∃ next, setsToNalu 4 avc.sps avc.data sps.length 0 0 out =
      .ok (true, 0 + (codes sps).length, next) ∧ next.size = out.size ∧
      next.Holds 0 (codes sps) ∧ ∀ position bytes, out.Holds position bytes →
        position + bytes.length ≤ 0 ∨ 0 + (codes sps).length ≤ position →
          next.Holds position bytes :=
    setsToNalu_eq readable.spsPoints (by rw [readable.spsSize]; omega)
      (fun nal listed => readable.units nal (mem_append_left _ listed)) (Nat.le_refl 4)
      (by omega)
  obtain ⟨middle, first, middleSize, spsHeld, spsKept⟩ := spsLoop
  rw [Nat.zero_add] at first
  have ppsLoop : ∃ next, setsToNalu 2 avc.pps avc.data pps.length 0 (codes sps).length middle =
      .ok (true, (codes sps).length + (codes pps).length, next) ∧ next.size = middle.size ∧
      next.Holds (codes sps).length (codes pps) ∧ ∀ position bytes, middle.Holds position bytes →
        position + bytes.length ≤ (codes sps).length ∨
          (codes sps).length + (codes pps).length ≤ position → next.Holds position bytes :=
    setsToNalu_eq readable.ppsPoints (by rw [readable.ppsSize]; omega)
      (fun nal listed => readable.units nal (mem_append_right _ listed)) (by omega)
      (by omega)
  obtain ⟨next, second, nextSize, ppsHeld, ppsKept⟩ := ppsLoop
  refine ⟨next, ?_, nextSize.trans middleSize, ?_, ?_⟩
  · unfold mpeg4AvcToNalu
    rw [readable.spsCount, first, ok_bind]
    dsimp only
    rw [if_neg (by decide), ppsCount, second, ok_bind]
    dsimp only
    rw [if_neg (by decide), check_eq (by unfold dataSize at short; omega), ok_bind]
    rfl
  · exact (ppsKept 0 _ spsHeld (.inl (by omega))).append ppsHeld (Nat.zero_add _).symm
  · intro position bytes there behind
    exact ppsKept _ _ (spsKept _ _ there (.inr (by omega))) (.inr behind)

/-! ## The switch on the type -/

/-- An IDR picture comes before any parameter set. -/
def idrFirst : List (List UInt8) → Bool
  | [] => false
  | nal :: nals =>
    if nalType nal = 5 then true
    else if nalType nal = 7 ∨ nalType nal = 8 then false else idrFirst nals

theorem insertSets_set (set : nalType nal = 7 ∨ nalType nal = 8) :
    insertSets avc nal state = .ok (true, { state with spsPpsFlag := true }) := by
  unfold insertSets
  rw [if_pos set]
  rfl

theorem insertSets_other (set : ¬(nalType nal = 7 ∨ nalType nal = 8))
    (idr : ¬(nalType nal = 5 ∧ state.spsPpsFlag = false)) :
    insertSets avc nal state = .ok (true, state) := by
  unfold insertSets
  rw [if_neg set, if_neg idr]
  rfl

theorem not_set_of_idr (idr : nalType nal = 5) : ¬(nalType nal = 7 ∨ nalType nal = 8) := by
  rw [idr]
  decide

theorem Readable.insertSets_idr (readable : Readable avc sps pps) (idr : nalType nal = 5)
    (flag : state.spsPpsFlag = false) {text : List UInt8} (holds : state.out.Holds 0 text)
    (dst : state.dst = text.length)
    (room : (codes (sps ++ pps)).length + text.length ≤ state.out.size) :
    if codes (sps ++ pps) = [] then ∃ after, insertSets avc nal state = .ok (false, after)
    else ∃ next, insertSets avc nal state =
        .ok (true, ⟨(codes (sps ++ pps) ++ text).length, next, true⟩) ∧
      next.size = state.out.size ∧ next.Holds 0 (codes (sps ++ pps) ++ text) := by
  generalize setsEq : codes (sps ++ pps) = sets at room
  have size := readable.size_eq
  rw [setsEq] at size
  have moved : ∃ middle, makeRoom state sets.length = .ok middle ∧
      middle.size = state.out.size ∧ middle.Holds sets.length text := by
    unfold makeRoom
    by_cases empty : state.dst = 0
    · rw [if_neg (not_not.mpr empty)]
      have none := eq_nil_of_length_eq_zero (dst.symm.trans empty)
      exact ⟨state.out, rfl, rfl, none ▸ Buffer.holds_nil (by omega)⟩
    · rw [if_pos empty, dst, Buffer.move_eq (by omega) (by omega)]
      exact ⟨_, rfl, rfl, holds.moved_target rfl (by omega)⟩
  obtain ⟨middle, moves, middleSize, behind⟩ := moved
  have room' : (codes (sps ++ pps)).length ≤ middle.size := by
    rw [setsEq]
    omega
  obtain ⟨next, written, nextSize, front, kept⟩ := readable.toNalu_eq room'
  rw [setsEq] at written front kept
  have whole : next.Holds 0 (sets ++ text) :=
    front.append (kept _ _ behind (Nat.le_refl _)) (Nat.zero_add _).symm
  split
  · rename_i none
    refine ⟨⟨state.dst, next, true⟩, ?_⟩
    unfold insertSets
    rw [if_neg (not_set_of_idr idr), if_pos ⟨idr, flag⟩, size, ok_bind, moves, ok_bind, written,
      ok_bind, none]
    rfl
  · rename_i some
    obtain ⟨byte, more, rfl⟩ := exists_cons_of_ne_nil some
    refine ⟨next, ?_, nextSize.trans middleSize, whole⟩
    unfold insertSets
    rw [if_neg (not_set_of_idr idr), if_pos ⟨idr, flag⟩, size, ok_bind, moves, ok_bind, written,
      ok_bind, dst, length_append, Nat.add_comm (byte :: more).length]
    rfl

/-! ## The walk over the lengths -/

theorem mp4Loop_step (four : avc.nalu = 4) (small : nal.length < 2 ^ 31) (nonempty : nal ≠ [])
    (ahead : 2 ≤ nal.length ∨ nals ≠ []) :
    mp4Loop avc (fuel + 1) (mp4Text (nal :: nals)) state =
      (insertSets avc nal state).bind fun result =>
        if ¬result.1 then .ok (0, result.2.out)
        else if result.2.dst + nal.length + 4 > result.2.out.size then .ok (0, result.2.out)
        else (result.2.out.store result.2.dst (h264StartCode ++ nal)).bind fun out =>
          mp4Loop avc fuel (mp4Text nals)
            { result.2 with dst := result.2.dst + (4 + nal.length), out := out } := by
  have length : (mp4Text (nal :: nals)).length = nal.length + 4 + (mp4Text nals).length := by
    rw [mp4Text_length, mp4Text_length, codes_cons_length]
  have width : avc.nalu.toNat = 4 := by
    rw [four]
    rfl
  have rest : nals ≠ [] → 4 ≤ (mp4Text nals).length := by
    intro some
    obtain ⟨another, more, rfl⟩ := exists_cons_of_ne_nil some
    rw [mp4Text_length, codes_cons_length]
    omega
  have some := length_pos_iff.mpr nonempty
  have long : avc.nalu.toNat + 1 < (mp4Text (nal :: nals)).length := by
    rw [length, width]
    rcases ahead with two | more
    · omega
    · have := rest more
      omega
  have number : bigValue ((mp4Text (nal :: nals)).take 4) = nal.length := by
    rw [mp4Text_cons, append_assoc, take_left' (bigEndian_length _ _)]
    exact bigValue_of_lt (by omega)
  have unit : ((mp4Text (nal :: nals)).drop 4).take nal.length = nal := by
    rw [mp4Text_cons, append_assoc, drop_left' (bigEndian_length _ _),
      take_left' rfl]
  have behind : (mp4Text (nal :: nals)).drop (nal.length + 4) = mp4Text nals := by
    rw [mp4Text_cons, drop_left' (by rw [length_append, bigEndian_length, Nat.add_comm])]
  rw [mp4Loop, if_pos long, width]
  dsimp only
  rw [number, check_eq ⟨some, small, by omega⟩, ok_bind, unit, behind]
  rfl

theorem mp4Loop_append (four : avc.nalu = 4) (small : nal.length < 2 ^ 31) (nonempty : nal ≠ [])
    (ahead : 2 ≤ nal.length ∨ nals ≠ []) {next : Mp4ToAnnexb} {text : List UInt8}
    (switched : insertSets avc nal state = .ok (true, next)) (holds : next.out.Holds 0 text)
    (dst : next.dst = text.length) (room : text.length + (nal.length + 4) ≤ next.out.size) :
    ∃ out, mp4Loop avc (fuel + 1) (mp4Text (nal :: nals)) state =
        mp4Loop avc fuel (mp4Text nals)
          ⟨(text ++ (h264StartCode ++ nal)).length, out, next.spsPpsFlag⟩ ∧
      out.size = next.out.size ∧ out.Holds 0 (text ++ (h264StartCode ++ nal)) := by
  have length : (h264StartCode ++ nal).length = 4 + nal.length := by
    rw [length_append]
    rfl
  refine ⟨next.out.written next.dst (h264StartCode ++ nal), ?_, rfl, ?_⟩
  · rw [mp4Loop_step four small nonempty ahead, switched]
    dsimp only [Except.bind]
    rw [if_neg (by decide), if_neg (by omega), Buffer.store_eq (by rw [length]; omega),
      length_append, length, ← dst]
  · exact holds.extend _ (by rw [dst, Nat.zero_add]) (by rw [length]; omega)

structure Converts (sets : List UInt8) (flag : Bool) (nals : List (List UInt8)) : Prop where
  last : ∀ nal, nals.getLast? = some nal → 2 ≤ nal.length
  ready : flag = false → idrFirst nals = true → sets ≠ []

/-- What is written for the units behind the text so far. -/
def annexbResult (sets : List UInt8) (flag : Bool) (text : List UInt8) (nals : List (List UInt8)) :
    List UInt8 :=
  (if flag = false ∧ idrFirst nals = true then sets else []) ++ (text ++ codes nals)

theorem annexbResult_cons {sets text : List UInt8} {flag after : Bool}
    (same : (flag = false ∧ idrFirst (nal :: nals) = true) ↔
      (after = false ∧ idrFirst nals = true)) :
    annexbResult sets after (text ++ (h264StartCode ++ nal)) nals =
      annexbResult sets flag text (nal :: nals) := by
  unfold annexbResult
  rw [if_congr same.symm rfl rfl, codes_cons, append_assoc text]

theorem annexbResult_insert {sets text : List UInt8} (first : idrFirst (nal :: nals) = true) :
    annexbResult sets true (sets ++ text ++ (h264StartCode ++ nal)) nals =
      annexbResult sets false text (nal :: nals) := by
  unfold annexbResult
  rw [if_neg (fun here => absurd here.1 (by decide)), if_pos ⟨rfl, first⟩, codes_cons,
    nil_append]
  simp only [append_assoc]

theorem converts_cons {sets : List UInt8} {flag after : Bool} (ahead : 2 ≤ nal.length ∨ nals ≠ [])
    (same : (flag = false → idrFirst (nal :: nals) = true → sets ≠ []) ↔
      (after = false → idrFirst nals = true → sets ≠ [])) :
    Converts sets flag (nal :: nals) ↔ Converts sets after nals := by
  have lasts : (∀ unit, (nal :: nals).getLast? = some unit → 2 ≤ unit.length) ↔
      ∀ unit, nals.getLast? = some unit → 2 ≤ unit.length := by
    cases nals with
    | nil =>
      refine iff_of_true ?_ nofun
      intro unit last
      obtain rfl : nal = unit := Option.some.inj last
      exact ahead.resolve_right (fun differs => differs rfl)
    | cons another nals => rw [List.getLast?_cons_cons]
  constructor
  · rintro ⟨last, ready⟩
    exact ⟨lasts.mp last, same.mp ready⟩
  · rintro ⟨last, ready⟩
    exact ⟨lasts.mpr last, same.mpr ready⟩

structure Walks (avc : Mpeg4Avc) (sets : List UInt8) (fuel : Nat) (nals : List (List UInt8))
    (state : Mp4ToAnnexb) (text : List UInt8) : Prop where
  converts : Converts sets state.spsPpsFlag nals → ∃ out,
    mp4Loop avc fuel (mp4Text nals) state =
        .ok ((annexbResult sets state.spsPpsFlag text nals).length, out) ∧
      out.Holds 0 (annexbResult sets state.spsPpsFlag text nals)
  fails : ¬Converts sets state.spsPpsFlag nals → ∀ written out, 0 < written →
    mp4Loop avc fuel (mp4Text nals) state ≠ .ok (written, out)

theorem Walks.cons {sets text further : List UInt8} {next : Mp4ToAnnexb}
    (later : Walks avc sets fuel nals next further)
    (loop : mp4Loop avc (fuel + 1) (mp4Text (nal :: nals)) state =
      mp4Loop avc fuel (mp4Text nals) next)
    (result : annexbResult sets next.spsPpsFlag further nals =
      annexbResult sets state.spsPpsFlag text (nal :: nals))
    (same : Converts sets state.spsPpsFlag (nal :: nals) ↔ Converts sets next.spsPpsFlag nals) :
    Walks avc sets (fuel + 1) (nal :: nals) state text where
  converts := by
    intro converts
    rw [loop, ← result]
    exact later.converts (same.mp converts)
  fails := by
    intro fails
    rw [loop]
    exact later.fails fun converts => fails (same.mpr converts)

theorem mp4Loop_walks (readable : Readable avc sps pps) (four : avc.nalu = 4)
    (units : ∀ nal ∈ nals, IsUnit nal) {text : List UInt8} (holds : state.out.Holds 0 text)
    (dst : state.dst = text.length)
    (room : (if state.spsPpsFlag = true then 0 else (codes (sps ++ pps)).length) + text.length +
      (codes nals).length ≤ state.out.size) (small : state.out.size < 2 ^ 31)
    (enough : nals.length < fuel) : Walks avc (codes (sps ++ pps)) fuel nals state text := by
  induction nals generalizing state text fuel with
  | nil =>
    obtain ⟨fuel, rfl⟩ := Nat.exists_eq_succ_of_ne_zero (Nat.ne_of_gt enough)
    have plain : annexbResult (codes (sps ++ pps)) state.spsPpsFlag text [] = text := by
      unfold annexbResult
      rw [if_neg (fun here => absurd here.2 (by decide)), nil_append]
      exact append_nil text
    refine ⟨fun _ => ⟨state.out, ?_, ?_⟩, fun fails => absurd ⟨nofun, fun _ => nofun⟩ fails⟩
    · rw [plain, ← dst]
      rfl
    · rw [plain]
      exact holds
  | cons nal nals ih =>
    obtain ⟨fuel, rfl⟩ := Nat.exists_eq_succ_of_ne_zero (Nat.ne_of_gt (Nat.zero_lt_of_lt enough))
    have enough' : nals.length < fuel := Nat.lt_of_succ_lt_succ enough
    rw [codes_cons_length] at room
    have nonempty := (units nal mem_cons_self).nonempty
    have others := (forall_mem_cons.mp units).2
    have short : nal.length < 2 ^ 31 := by omega
    -- what is left once the unit has been appended to a text
    have further : ∀ {next : Mp4ToAnnexb} {front : List UInt8},
        insertSets avc nal state = .ok (true, next) → next.out.Holds 0 front →
        next.dst = front.length → next.out.size = state.out.size →
        (if next.spsPpsFlag = true then 0 else (codes (sps ++ pps)).length) + front.length +
          (nal.length + 4 + (codes nals).length) ≤ state.out.size →
        2 ≤ nal.length ∨ nals ≠ [] →
        ∃ after, Walks avc (codes (sps ++ pps)) fuel nals after
            (front ++ (h264StartCode ++ nal)) ∧ after.spsPpsFlag = next.spsPpsFlag ∧
          mp4Loop avc (fuel + 1) (mp4Text (nal :: nals)) state =
            mp4Loop avc fuel (mp4Text nals) after := by
      intro next front switched held place size fits ahead
      obtain ⟨out, goes, outSize, outHeld⟩ := @mp4Loop_append avc nal nals state fuel four short
        nonempty ahead next front switched held place (by omega)
      have length : (front ++ (h264StartCode ++ nal)).length = front.length + (nal.length + 4) := by
        rw [length_append, length_append, Nat.add_comm nal.length]
        rfl
      have later := @ih ⟨(front ++ (h264StartCode ++ nal)).length, out, next.spsPpsFlag⟩ fuel others
        _ outHeld rfl (by dsimp only; rw [length]; omega) (by dsimp only; omega) enough'
      exact ⟨_, later, rfl, goes⟩
    by_cases ahead : 2 ≤ nal.length ∨ nals ≠ []
    · by_cases set : nalType nal = 7 ∨ nalType nal = 8
      · have none : idrFirst (nal :: nals) = false := by
          rw [idrFirst, if_neg (fun idr => not_set_of_idr idr set), if_pos set]
        obtain ⟨after, later, flag, loop⟩ := further (insertSets_set set) holds dst rfl
          (by dsimp only; rw [if_pos rfl]; omega) ahead
        refine later.cons loop (annexbResult_cons ?_) (converts_cons ahead ?_)
        · rw [flag, none]
          exact iff_of_false (fun here => Bool.noConfusion here.2)
            (fun here => Bool.noConfusion here.1)
        · rw [flag, none]
          exact iff_of_true (fun _ => nofun) nofun
      · by_cases idr : nalType nal = 5 ∧ state.spsPpsFlag = false
        · have first : idrFirst (nal :: nals) = true := by
            rw [idrFirst, if_pos idr.1]
          rw [if_neg (by rw [idr.2]; decide)] at room
          have inserted := readable.insertSets_idr idr.1 idr.2 holds dst (by omega)
          split at inserted
          · rename_i empty
            obtain ⟨stopped, switched⟩ := inserted
            refine ⟨fun converts => absurd empty (converts.ready idr.2 first), ?_⟩
            intro _ written out some equal
            rw [mp4Loop_step four short nonempty ahead, switched] at equal
            dsimp only [Except.bind] at equal
            rw [if_pos (by decide)] at equal
            cases equal
            exact absurd some (Nat.lt_irrefl 0)
          · obtain ⟨next, switched, size, held⟩ := inserted
            obtain ⟨after, later, flag, loop⟩ := further switched held rfl size
              (by dsimp only; rw [if_pos rfl, length_append]; omega) ahead
            refine later.cons loop ?_ (converts_cons ahead ?_)
            · rw [flag, idr.2]
              exact annexbResult_insert first
            · rw [flag]
              exact iff_of_true (fun _ _ => by assumption) nofun
        · obtain ⟨after, later, flag, loop⟩ := further (insertSets_other set idr) holds dst rfl
            (by omega) ahead
          have same : state.spsPpsFlag = false →
              idrFirst (nal :: nals) = idrFirst nals := by
            intro clear
            rw [idrFirst, if_neg (fun five => idr ⟨five, clear⟩), if_neg set]
          refine later.cons loop (annexbResult_cons ?_) (converts_cons ahead ?_)
          · rw [flag]
            exact and_congr_right fun clear => by rw [same clear]
          · rw [flag]
            exact imp_congr_right fun clear => by rw [same clear]
    · rw [not_or, not_not] at ahead
      obtain ⟨one, rfl⟩ := ahead
      refine ⟨fun converts => absurd (converts.last nal rfl) one, ?_⟩
      intro _ written out _ equal
      have length : (mp4Text [nal]).length = 5 := by
        have some := length_pos_iff.mpr nonempty
        rw [mp4Text_length, codes_cons_length]
        change nal.length + 4 + 0 = 5
        omega
      have width : avc.nalu.toNat = 4 := by
        rw [four]
        rfl
      rw [mp4Loop, if_neg (by omega), check_error (by omega)] at equal
      cases equal

end CLibs.Avc
