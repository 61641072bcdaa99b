import CLibs.AnnexBRoundTrip

/-!
# Which byte streams come back

A NAL unit has no run of zero bits that is too long for `mpeg4_h264_read_ue`.  The way
there comes to no assertion exactly if no update is refused, and the way back gives the
units again exactly if its loop reads the last one and the first IDR picture finds a set
it needs.
-/

namespace CLibs.Avc

open List

variable {avc : Mpeg4Avc} {nal : List UInt8} {nals sps pps : List (List UInt8)}

/-! ## Runs of zero bits -/

def leadingZeroBits (data : List UInt8) (offset : Nat) : Int :=
  (skipZeros data (8 * data.length - offset) offset).1 - 1

theorem skipZeros_le (data : List UInt8) (remaining offset : Nat) :
    (skipZeros data remaining offset).1 ≤ remaining := by
  induction remaining generalizing offset with
  | zero => exact Nat.le_refl 0
  | succ remaining ih =>
    rw [skipZeros]
    split
    · exact Nat.succ_le_succ (Nat.zero_le _)
    · exact Nat.succ_le_succ (ih (offset + 1))

theorem bitAt_lt (data : List UInt8) (offset : Nat) : bitAt data offset < 2 :=
  Nat.mod_lt _ Nat.zero_lt_two

variable {data : List UInt8}

theorem skipZeros_zero {remaining offset k : Nat}
    (skipped : k + 1 < (skipZeros data remaining offset).1) : bitAt data (offset + k) = 0 := by
  induction remaining generalizing offset k with
  | zero => exact absurd skipped (Nat.not_lt_zero _)
  | succ remaining ih =>
    rw [skipZeros] at skipped
    split at skipped
    · dsimp only at skipped
      omega
    · rename_i zero
      cases k with
      | zero =>
        have bit := bitAt_lt data offset
        rw [Nat.add_zero]
        omega
      | succ k =>
        have later := @ih (offset + 1) k (Nat.lt_of_succ_lt_succ skipped)
        rw [Nat.add_right_comm] at later
        exact later

theorem byte_eq_zero {i : Nat} (inside : i < data.length)
    (zero : ∀ k < 8, bitAt data (8 * i + k) = 0) : data[i]? = some 0 := by
  have bit : ∀ k < 8, data[i].toNat / 2 ^ (7 - k) % 2 = 0 := by
    intro k small
    have here := zero k small
    unfold bitAt at here
    rw [Nat.mul_add_div (by decide), Nat.div_eq_of_lt small, Nat.add_zero, Nat.mul_add_mod,
      Nat.mod_eq_of_lt small, getD_eq_getElem _ _ inside] at here
    exact here
  have value : data[i].toNat = 0 := by
    apply Nat.eq_of_testBit_eq
    intro k
    rw [Nat.zero_testBit]
    by_cases small : k < 8
    · have here := bit (7 - k) (by omega)
      rw [show 7 - (7 - k) = k by omega] at here
      rw [Nat.testBit_eq_decide_div_mod_eq, here]
      rfl
    · apply Nat.testBit_lt_two_pow
      exact data[i].toNat_lt.trans_le (Nat.pow_le_pow_right (by decide) (by omega))
  rw [List.getElem?_eq_getElem inside]
  exact congrArg some (UInt8.toNat_inj.mp value)

theorem infix_of_zeros {i : Nat} (first : data[i]? = some 0)
    (second : data[i + 1]? = some 0) (third : data[i + 2]? = some 0) : [0, 0, 0] <:+: data := by
  refine ⟨data.take i, data.drop (i + 3), ?_⟩
  have list : [0, 0, 0] = (data.drop i).take 3 := by
    apply ext_getElem?
    intro k
    rw [List.getElem?_take, List.getElem?_drop]
    match k with
    | 0 => exact first.symm
    | 1 => exact second.symm
    | 2 => exact third.symm
    | k + 3 => rw [if_neg (by omega)]; rfl
  rw [list, append_assoc, ← drop_drop, take_append_drop, take_append_drop]

theorem IsUnit.leadingZeroBits_lt (unit : IsUnit nal) (offset : Nat) :
    leadingZeroBits nal offset < 32 := by
  by_contra many
  have skipped : 32 < (skipZeros nal (8 * nal.length - offset) offset).1 := by
    unfold leadingZeroBits at many
    omega
  have inside := skipZeros_le nal (8 * nal.length - offset) offset
  have zero : ∀ i, offset ≤ 8 * i → 8 * i + 8 ≤ offset + 32 → nal[i]? = some 0 := by
    intro i low high
    refine byte_eq_zero (by omega) fun k small => ?_
    have bit := @skipZeros_zero nal (8 * nal.length - offset) offset (8 * i + k - offset) (by omega)
    rw [show offset + (8 * i + k - offset) = 8 * i + k by omega] at bit
    exact bit
  exact unit.zeros (infix_of_zeros (i := (offset + 7) / 8) (zero _ (by omega) (by omega))
    (zero _ (by omega) (by omega)) (zero _ (by omega) (by omega)))

/-! ## There and back -/

theorem codes_eq_nil : codes nals = [] ↔ nals = [] := by
  cases nals with
  | nil => exact iff_of_true rfl rfl
  | cons nal nals =>
    refine iff_of_false (fun empty => ?_) (cons_ne_nil _ _)
    have length := codes_cons_length nal nals
    rw [empty, length_nil] at length
    omega

def Shelf.empty : Shelf := ⟨0, fun _ => []⟩

theorem Stocked.empty : Stocked .empty .empty :=
  ⟨⟨fun _ => [], empty_current.packed.loosen, fun _ => rfl, rfl⟩, nofun⟩

theorem Stocked.withNalu {shelf : Shelf} (stocked : Stocked avc shelf) (nalu : UInt8) :
    Stocked { avc with nalu := nalu } shelf := by
  obtain ⟨⟨entries, shelved⟩, units⟩ := stocked
  have same : SameStore avc { avc with nalu := nalu } := by
    refine ⟨?_, ?_, rfl, rfl⟩
    · intro kind
      cases kind with
      | sps => rfl
      | pps => rfl
    · intro kind
      cases kind with
      | sps => rfl
      | pps => rfl
  exact ⟨⟨entries, same.packed shelved.packed, shelved.sets, shelved.off⟩, units⟩

theorem annexbText_length_ge (units : List (Bool × List UInt8)) :
    units.length ≤ (annexbText units).length := by
  induction units with
  | nil => exact Nat.le_refl 0
  | cons unit units ih =>
    have three : 3 ≤ (code unit.1).length := by
      cases unit.1 with
      | true => decide
      | false => decide
    rw [annexbText_cons, length_append, length_append, length_cons]
    omega

theorem h264AnnexbToMp4_cases {shelf : Shelf} {units : List (Bool × List UInt8)}
    (stocked : Stocked avc shelf) (nonempty : units ≠ []) (valid : ∀ unit ∈ units, IsUnit unit.2)
    {out : Buffer UInt8} (room : (mp4Text (units.map Prod.snd)).length ≤ out.size) :
    (shelf.updates (units.map Prod.snd) = none ∧
        h264AnnexbToMp4 avc (annexbText units) out = .error .assertion) ∨
      ∃ last result, shelf.updates (units.map Prod.snd) = some last ∧
        h264AnnexbToMp4 avc (annexbText units) out = .ok result ∧
        Handled out.size (units.map Prod.snd) last result.2 ∧ result.2.avc.nalu = 4 ∧
        result.1 = result.2.bytes ∧ result.1 ≠ 0 := by
  have start : Handled out.size [] shelf ⟨avc, 0, 0, 0, out, 0⟩ :=
    ⟨stocked, rfl, rfl, rfl, Buffer.holds_nil (Nat.zero_le _)⟩
  have loop : mpeg4H264AnnexbNalu (annexbText units) h264Handler ⟨avc, 0, 0, 0, out, 0⟩ =
      handleUnits h264Handler units ⟨avc, 0, 0, 0, out, 0⟩ :=
    annexbLoop_eq _ _ valid _ (Nat.lt_succ_of_le (annexbText_length_ge units))
  unfold h264AnnexbToMp4
  rw [loop]
  rcases start.units units valid (by change 0 + _ ≤ _; omega) with
    ⟨refused, stopped⟩ | ⟨last, next, updates, handled, ends⟩
  · rw [stopped]
    exact .inl ⟨refused, rfl⟩
  · rw [handled, ok_bind, if_pos ends.errcode]
    have filled : next.bytes ≠ 0 := by
      obtain ⟨unit, others, rfl⟩ := exists_cons_of_ne_nil nonempty
      rw [ends.bytes, nil_append, mp4Text_length, map_cons, codes_cons_length]
      omega
    exact .inr ⟨last, _, updates, rfl, ⟨ends.stocked.withNalu 4, ends.errcode, ends.size, ends.bytes,
      ends.holds⟩, rfl, rfl, filled⟩

/-- The units come back behind start codes of four bytes, with the stored sets in front
exactly if an IDR picture comes before any set, and no assertion fails. -/
def ComesBack (avc : Mpeg4Avc) (sps pps nals : List (List UInt8)) (target : Buffer UInt8) : Prop :=
  Yields (h264Mp4ToAnnexb avc (mp4Text nals) target) fun result =>
    result.1 = (codes ((if idrFirst nals then sps ++ pps else []) ++ nals)).length ∧
      result.2.Holds 0 (codes ((if idrFirst nals then sps ++ pps else []) ++ nals))

theorem annexbResult_eq (sets nals : List (List UInt8)) :
    annexbResult (codes sets) false [] nals =
      codes ((if idrFirst nals then sets else []) ++ nals) := by
  unfold annexbResult
  rw [nil_append]
  by_cases first : idrFirst nals = true
  · rw [if_pos ⟨rfl, first⟩, if_pos first, codes_append]
  · rw [if_neg (fun here => first here.2), if_neg first]
    rfl

theorem Readable.stored_iff (readable : Readable avc sps pps) :
    (avc.nbSps ≠ 0 ∨ avc.nbPps ≠ 0) ↔ (sps ≠ [] ∨ pps ≠ []) := by
  rw [Ne, Ne, ← UInt8.toNat_inj, ← UInt8.toNat_inj, readable.spsCount, readable.ppsCount]
  exact or_congr (not_congr length_eq_zero_iff) (not_congr length_eq_zero_iff)

theorem Readable.comesBack_iff (readable : Readable avc sps pps) (four : avc.nalu = 4)
    (nonempty : nals ≠ []) (units : ∀ nal ∈ nals, IsUnit nal) {target : Buffer UInt8}
    (room : dataSize + 4 * 288 + (codes nals).length ≤ target.size) (small : target.size < 2 ^ 31) :
    ComesBack avc sps pps nals target ↔
      (∀ nal, nals.getLast? = some nal → 2 ≤ nal.length) ∧
        (idrFirst nals = true → avc.nbSps ≠ 0 ∨ avc.nbPps ≠ 0) := by
  have short := readable.short
  have enough : nals.length < (mp4Text nals).length + 1 := by
    rw [mp4Text_length, codes_length]
    omega
  have walks : Walks avc (codes (sps ++ pps)) ((mp4Text nals).length + 1) nals ⟨0, target, false⟩ [] :=
    mp4Loop_walks readable four units (Buffer.holds_nil (Nat.zero_le _)) rfl (by
      dsimp only
      rw [if_neg (by decide), length_nil]
      omega) small enough
  have sets : codes (sps ++ pps) ≠ [] ↔ avc.nbSps ≠ 0 ∨ avc.nbPps ≠ 0 := by
    rw [readable.stored_iff, Ne, codes_eq_nil, append_eq_nil_iff, not_and_or]
  have condition : Converts (codes (sps ++ pps)) false nals ↔
      (∀ nal, nals.getLast? = some nal → 2 ≤ nal.length) ∧
        (idrFirst nals = true → avc.nbSps ≠ 0 ∨ avc.nbPps ≠ 0) := by
    rw [← sets]
    exact ⟨fun converts => ⟨converts.last, converts.ready rfl⟩,
      fun ⟨last, ready⟩ => ⟨last, fun _ => ready⟩⟩
  rw [← condition]
  constructor
  · rintro ⟨⟨written, result⟩, returned, length, -⟩
    by_contra fails
    refine walks.fails fails written result ?_ returned
    dsimp only at length
    rw [length, codes_append, length_append]
    have filled := length_pos_iff.mpr (mt codes_eq_nil.mp nonempty)
    omega
  · intro converts
    obtain ⟨result, returned, holds⟩ := walks.converts converts
    dsimp only at returned holds
    rw [annexbResult_eq] at returned holds
    exact ⟨_, returned, rfl, holds⟩

/-- What a conversion of the units and the way back come to: no assertion fails, the first
output is the list behind lengths, and the list comes back from it. -/
def RoundTrips (avc : Mpeg4Avc) (units : List (Bool × List UInt8)) (out target : Buffer UInt8) :
    Prop :=
  Yields (h264AnnexbToMp4 avc (annexbText units) out) fun result => result.1 ≠ 0 →
    result.1 = (mp4Text (units.map Prod.snd)).length ∧
    result.2.out.Holds 0 (mp4Text (units.map Prod.snd)) ∧
    ∃ shelf, Stocked result.2.avc shelf ∧
      (∀ nal ∈ shelf.sets .sps ++ shelf.sets .pps ++ units.map Prod.snd, ∀ offset,
        leadingZeroBits nal offset < 32) ∧
      ComesBack result.2.avc (shelf.sets .sps) (shelf.sets .pps) (units.map Prod.snd) target

/-- The units make the way there and back exactly if the store refuses none of them, the
last one has two bytes and there is a set for an IDR picture that comes before any. -/
theorem annexbToMp4_comesBack_iff {shelf : Shelf} {units : List (Bool × List UInt8)}
    (stocked : Stocked avc shelf) (nonempty : units ≠ []) (valid : ∀ unit ∈ units, IsUnit unit.2)
    {out target : Buffer UInt8} (outRoom : (mp4Text (units.map Prod.snd)).length ≤ out.size)
    (targetRoom : dataSize + 4 * 288 + (codes (units.map Prod.snd)).length ≤ target.size)
    (small : target.size < 2 ^ 31) :
    RoundTrips avc units out target ↔
      ∃ last, shelf.updates (units.map Prod.snd) = some last ∧
        (∀ nal, (units.map Prod.snd).getLast? = some nal → 2 ≤ nal.length) ∧
        (idrFirst (units.map Prod.snd) = true → last.sets .sps ≠ [] ∨ last.sets .pps ≠ []) := by
  have nals : ∀ nal ∈ units.map Prod.snd, IsUnit nal := by
    intro nal listed
    obtain ⟨unit, member, rfl⟩ := mem_map.mp listed
    exact valid unit member
  unfold RoundTrips
  rcases h264AnnexbToMp4_cases stocked nonempty valid outRoom with ⟨refused, stopped⟩ |
    ⟨last, result, updates, returned, handled, four, written, filled⟩
  · refine iff_of_false ?_ ?_
    · rintro ⟨result, returned, -⟩
      rw [stopped] at returned
      cases returned
    · rintro ⟨last, updates, -⟩
      rw [refused] at updates
      cases updates
  have back := handled.stocked.readable.comesBack_iff four (by simpa using nonempty) nals targetRoom
    small
  constructor
  · rintro ⟨same, returned', rest⟩
    obtain rfl : result = same := Except.ok.inj (returned.symm.trans returned')
    obtain ⟨-, -, other, stocked', -, comes⟩ := rest filled
    have condition := (stocked'.readable.comesBack_iff four (by simpa using nonempty) nals
      targetRoom small).mp comes
    exact ⟨last, updates, condition.1, fun first =>
      (handled.stocked.readable.stored_iff).mp (condition.2 first)⟩
  · rintro ⟨same, updates', two, ready⟩
    obtain rfl : last = same := Option.some.inj (updates.symm.trans updates')
    refine ⟨result, returned, fun _ => ⟨written.trans handled.bytes, handled.holds, last,
      handled.stocked, ?_, back.mpr ⟨two, fun first =>
        (handled.stocked.readable.stored_iff).mpr (ready first)⟩⟩⟩
    intro nal listed offset
    rcases mem_append.mp listed with stored | given
    · exact (handled.stocked.readable.units nal stored).leadingZeroBits_lt offset
    · exact (nals nal given).leadingZeroBits_lt offset

/-- A picture, a parameter set of each kind behind it, another SPS with the identifier of the
first one and a second picture. -/
def lateSets : List (Bool × List UInt8) :=
  [(true, [0x65, 0x88]), (false, [0x67, 0x42, 0, 0x1E, 0x95]), (true, [0x68, 0xCE]),
    (true, [0x67, 0x4D, 0, 0x1E, 0x95, 0xA8]), (false, [0x65, 0x88, 0x84])]

theorem lateSets_valid : ∀ unit ∈ lateSets, IsUnit unit.2 := by
  simp only [lateSets, forall_mem_cons]
  exact ⟨⟨by decide, by decide, by decide, by decide⟩, ⟨by decide, by decide, by decide, by decide⟩,
    ⟨by decide, by decide, by decide, by decide⟩, ⟨by decide, by decide, by decide, by decide⟩,
    ⟨by decide, by decide, by decide, by decide⟩, forall_mem_nil _⟩

/-- The list comes back, with the sets behind the first picture also in front of it. -/
theorem annexbToMp4_comesBack_late :
    RoundTrips .empty lateSets (.alloc 64) (.alloc 8192) := by
  have room : dataSize + 4 * 288 + (codes (lateSets.map Prod.snd)).length ≤
      (Buffer.alloc 8192 : Buffer UInt8).size := by decide
  refine (annexbToMp4_comesBack_iff Stocked.empty (by decide) lateSets_valid
    (show _ ≤ (Buffer.alloc 64).size by decide) room (by decide)).mpr ?_
  have shelf : (Shelf.empty.updates (lateSets.map Prod.snd)).map (fun last =>
      (last.sets .sps, last.sets .pps)) =
        some ([[0x67, 0x4D, 0, 0x1E, 0x95, 0xA8]], [[0x68, 0xCE]]) := by decide +kernel
  obtain ⟨last, updates, sets⟩ := Option.map_eq_some_iff.mp shelf
  refine ⟨last, updates, by decide, fun _ => .inl ?_⟩
  rw [(Prod.mk.inj sets).1]
  decide

theorem not_roundTrips_of {nal : List UInt8} (unit : IsUnit nal) (small : nal.length ≤ 60)
    (fails : Shelf.empty.update nal = none ∨
      (setKind? nal = none ∧ (nal.length < 2 ∨ nalType nal = 5))) :
    ¬RoundTrips .empty [(true, nal)] (.alloc 64) (.alloc 8192) := by
  have valid : ∀ unit ∈ [(true, nal)], IsUnit unit.2 := by
    intro unit listed
    obtain rfl := mem_singleton.mp listed
    assumption
  have length : (codes [nal]).length = nal.length + 4 := codes_cons_length nal []
  have outRoom : (mp4Text [nal]).length ≤ (Buffer.alloc 64 : Buffer UInt8).size := by
    rw [mp4Text_length]
    change (codes [nal]).length ≤ 64
    omega
  have room : dataSize + 4 * 288 + (codes [nal]).length ≤
      (Buffer.alloc 8192 : Buffer UInt8).size := by
    rw [length]
    change 4 * 1024 + 4 * 288 + (nal.length + 4) ≤ 8192
    omega
  rw [annexbToMp4_comesBack_iff Stocked.empty (cons_ne_nil _ _) valid outRoom room (by decide)]
  change ¬∃ last, (Shelf.empty.update nal).bind (fun after => some after) = some last ∧ _
  rintro ⟨last, updates, two, ready⟩
  rcases fails with refused | ⟨other, short | idr⟩
  · rw [refused] at updates
    cases updates
  · have long := two nal rfl
    omega
  · unfold Shelf.update at updates
    rw [other] at updates
    obtain rfl := Option.some.inj updates
    rcases ready (by
      change idrFirst [nal] = true
      rw [idrFirst, if_pos idr]) with some | some
    · exact some rfl
    · exact some rfl

/-- A last unit of one byte does not come back, neither does a picture that finds an empty
store, and a refused SPS of three bytes fails an assertion. -/
theorem annexbToMp4_loses :
    ¬RoundTrips .empty [(true, [0x0A])] (.alloc 64) (.alloc 8192) ∧
      ¬RoundTrips .empty [(true, [0x65, 0x88])] (.alloc 64) (.alloc 8192) ∧
        ¬RoundTrips .empty [(true, [0x67, 0x42])] (.alloc 64) (.alloc 8192) :=
  ⟨not_roundTrips_of ⟨by decide, by decide, by decide, by decide⟩ (by decide)
      (.inr ⟨by decide, .inl (by decide)⟩),
    not_roundTrips_of ⟨by decide, by decide, by decide, by decide⟩ (by decide)
      (.inr ⟨by decide, .inr (by decide)⟩),
    not_roundTrips_of ⟨by decide, by decide, by decide, by decide⟩ (by decide)
      (.inl (by decide))⟩

end CLibs.Avc
