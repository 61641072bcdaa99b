import CLibs.TsSectionReading
import CLibs.TsSections
import Mathlib.Data.List.Nodup

/-!
# Program tables that are read back

What `pat_read` and `pmt_read` make of the sections of `pat_write` and
`pmt_write`.  The programs come back as they were written, and so do the streams
that `pmt_write` wrote; it stops at a stream whose description is long, although
it does not write descriptions.
-/

namespace CLibs.MpegTs

open List

variable {Cell Other : Type}

/-! ## Fields -/

variable {data rest : List UInt8} {i : Nat}

theorem byteAt_drop {byte : UInt8} (here : data.drop i = byte :: rest) :
    byteAt data i = .ok byte := by
  unfold byteAt
  have first : data[i]? = (data.drop i)[0]? := by
    rw [List.getElem?_drop, Nat.add_zero]
  rw [first, here]
  rfl

theorem drop_succ {byte : UInt8} (here : data.drop i = byte :: rest) :
    data.drop (i + 1) = rest := by
  rw [← tail_drop, here]
  rfl

theorem drop_append {first : List UInt8} (here : data.drop i = first ++ rest) :
    data.drop (i + first.length) = rest := by
  rw [← drop_drop, here, drop_left]

variable {k : Nat}

theorem field_value (small : k ≤ 8) (value : Nat) :
    (UInt8.ofNat (value >>> 8) &&& UInt8.ofNat (2 ^ k - 1)).toNat <<< 8 |||
      (UInt8.ofNat value).toNat = value % 2 ^ (8 + k) := by
  have power : 2 ^ k ≤ 2 ^ 8 := Nat.pow_le_pow_right (by decide) small
  have divides : 2 ^ k ∣ 2 ^ 8 := Nat.pow_dvd_pow 2 small
  have mask : (UInt8.ofNat (2 ^ k - 1)).toNat = 2 ^ k - 1 := toNat_ofNat (by omega)
  rw [UInt8.toNat_and, mask, UInt8.toNat_ofNat', UInt8.toNat_ofNat',
    Nat.and_two_pow_sub_one_eq_mod, Nat.mod_mod_of_dvd _ divides, Nat.shiftRight_eq_div_pow,
    ← Nat.shiftLeft_add_eq_or_of_lt (Nat.mod_lt _ (by decide)), Nat.shiftLeft_eq, Nat.pow_add,
    Nat.mod_mul]
  omega

theorem fieldAt_nboW16 {value : Nat} {mask : UInt8} (here : data.drop i = nboW16 value ++ rest)
    (small : k ≤ 8) (masked : mask = UInt8.ofNat (2 ^ k - 1)) :
    fieldAt data i mask = .ok (value % 2 ^ (8 + k)) := by
  subst masked
  unfold fieldAt
  rw [byteAt_drop here, ok_bind, byteAt_drop (drop_succ here), ok_bind, field_value small]
  rfl

theorem flagged_mod {bits flags value : Nat} (above : bits = 2 ^ k * flags)
    (small : value < 2 ^ k) : (bits ||| value) % 2 ^ k = value := by
  rw [above, ← Nat.two_pow_add_eq_or_of_lt small, Nat.mul_add_mod, Nat.mod_eq_of_lt small]

variable {len : Nat}

theorem sectionLength_mod (small : len < 2 ^ 12) : (0xb000 ||| len) % 2 ^ 12 = len :=
  flagged_mod (show 0xb000 = 2 ^ 12 * 11 from rfl) small

theorem pid_mod {pid : Nat} (small : pid < 2 ^ 13) : (0xE000 ||| pid) % 2 ^ 13 = pid :=
  flagged_mod (show 0xE000 = 2 ^ 13 * 7 from rfl) small

theorem infoLength_mod (small : len < 2 ^ 12) : (0xF000 ||| len) % 2 ^ 12 = len :=
  flagged_mod (show 0xF000 = 2 ^ 12 * 15 from rfl) small

theorem versionOf_written {ver : Nat} (small : ver < 32) :
    versionOf (UInt8.ofNat (0xC1 ||| (ver <<< 1))) = ver := by
  have checked : ∀ ver < 32, versionOf (UInt8.ofNat (0xC1 ||| (ver <<< 1))) = ver := by
    decide
  exact checked ver small

theorem syntaxIndicator_written (small : len < 2 ^ 12) :
    syntaxIndicator (UInt8.ofNat ((0xb000 ||| len) >>> 8)) = 1 := by
  have high : (0xb000 ||| len) >>> 8 = 0xb0 ||| len >>> 8 := Nat.shiftRight_or_distrib
  have nibble : len >>> 8 < 16 := by
    rw [Nat.shiftRight_eq_div_pow]
    omega
  have checked : ∀ nibble < 16, syntaxIndicator (UInt8.ofNat (0xb0 ||| nibble)) = 1 := by
    decide
  rw [high]
  exact checked _ nibble

/-! ## The program association table -/

/-- The number and the pid of a program. -/
def Pmt.address (pmt : Pmt Cell) : Nat × Nat := (pmt.pn, pmt.pid)

structure Lists (pat : Pat Cell) (programs : List (Nat × Nat)) : Prop where
  addresses : pat.pmts.live.map Pmt.address = programs
  room : pat.pmts.count ≤ pat.pmtCapacity

/-- A program that a table can name. -/
def Addressable (program : Nat × Nat) : Prop :=
  1 ≤ program.1 ∧ program.1 < 2 ^ 16 ∧ program.2 < 2 ^ 13

def programEntry (program : Nat × Nat) : List UInt8 :=
  nboW16 program.1 ++ nboW16 (0xE000 ||| program.2)

variable {pat : Pat Cell} {programs : List (Nat × Nat)}

theorem Lists.count (lists : Lists pat programs) :
    pat.pmts.count = programs.length := by
  rw [← lists.addresses, length_map, SlotArray.live_length]

theorem Lists.slot (lists : Lists pat programs) (inside : k < programs.length) :
    (pat.pmts.slots k).address = programs[k] := by
  have counted : k < pat.pmts.count := by rwa [lists.count]
  have entry : programs[k]? = some (pat.pmts.slots k).address := by
    rw [← lists.addresses, SlotArray.live, map_map, List.getElem?_map,
      List.getElem?_range counted]
    rfl
  rw [List.getElem?_eq_getElem inside] at entry
  exact (Option.some.inj entry).symm

theorem Lists.of_slots (count : pat.pmts.count = programs.length)
    (room : pat.pmts.count ≤ pat.pmtCapacity)
    (slots : ∀ k (inside : k < programs.length), (pat.pmts.slots k).address = programs[k]) :
    Lists pat programs := by
  refine ⟨?_, room⟩
  apply ext_getElem
  · rw [length_map, SlotArray.live_length, count]
  · intro k left right
    rw [getElem_map]
    unfold SlotArray.live
    rw [getElem_map, getElem_range]
    exact slots k right

theorem programEntry_fields {program : Nat × Nat} (addressable : Addressable program)
    (here : data.drop i = programEntry program ++ rest) :
    fieldAt data i 0xFF = .ok program.1 ∧ fieldAt data (i + 2) 0x1F = .ok program.2 := by
  obtain ⟨-, pn, pid⟩ := addressable
  unfold programEntry at here
  rw [append_assoc] at here
  constructor
  · have read : fieldAt data i 0xFF = .ok (program.1 % 2 ^ (8 + 8)) :=
      fieldAt_nboW16 here (by decide) rfl
    rw [read, Nat.mod_eq_of_lt pn]
  · have read : fieldAt data (i + 2) 0x1F = .ok ((0xE000 ||| program.2) % 2 ^ (8 + 5)) :=
      fieldAt_nboW16 (drop_append here) (by decide) rfl
    rw [read, pid_mod pid]

theorem patFetch_new {pn pid : Nat} (lists : Lists pat programs) (small : programs.length < 65535)
    (fresh : ∀ program ∈ programs, program.2 ≠ pid) :
    Yields (patFetch true pat pid) fun fetched =>
      Lists (patStore fetched pn pid) (programs ++ [(pn, pid)]) ∧
        (patStore fetched pn pid).ver = pat.ver ∧ (patStore fetched pn pid).tsid = pat.tsid := by
  have missing : (pat.pmts.find fun pmt => decide (pmt.pid = pid)) = none := by
    apply List.find?_eq_none.mpr
    intro k member
    have inside : k < programs.length := by
      rw [← lists.count]
      exact mem_range.mp member
    have other := fresh _ (getElem_mem inside)
    rw [← lists.slot inside] at other
    exact fun same => other (of_decide_eq_true same)
  obtain ⟨table, allocated, pmts, capacity, ver, tsid⟩ : ∃ table,
      patAllocPmt true pat = .ok (some table) ∧
        table.pmts = pat.pmts.set pat.pmts.count (Pmt.zero Cell) ∧
        pat.pmts.count < table.pmtCapacity ∧ table.ver = pat.ver ∧ table.tsid = pat.tsid := by
    have count := lists.count
    have room := lists.room
    unfold patAllocPmt
    rw [if_neg (by omega)]
    dsimp only
    by_cases enough : pat.pmts.count < if pat.pmtCapacity = 0 then 1 else pat.pmtCapacity
    · rw [if_pos enough]
      exact ⟨_, rfl, rfl, enough, rfl, rfl⟩
    · rw [if_neg enough, if_neg (by omega), if_pos rfl]
      refine ⟨_, rfl, rfl, ?_, rfl, rfl⟩
      dsimp only
      split <;> omega
  unfold patFetch
  rw [missing, allocated]
  dsimp only
  rw [if_neg (Nat.not_lt.mpr lists.room), ok_bind]
  apply Yields.pure
  refine ⟨?_, ver, tsid⟩
  have count := lists.count
  apply Lists.of_slots
  · change table.pmts.count + 1 = _
    rw [pmts, length_append]
    exact congrArg (· + 1) count
  · change table.pmts.count + 1 ≤ table.pmtCapacity
    rw [pmts]
    exact capacity
  · intro k inside
    change ((SlotArray.modify ⟨table.pmts.slots, table.pmts.count + 1⟩ pat.pmts.count
      fun pmt => { pmt with pn := pn, pid := pid }).slots k).address = _
    rw [SlotArray.modify_slots]
    rw [length_append] at inside
    by_cases last : k = pat.pmts.count
    · rw [if_pos last, getElem_append_right (by omega)]
      subst last
      simp only [count, Nat.sub_self]
      rfl
    · have before : k < programs.length := by
        change k < programs.length + 1 at inside
        omega
      rw [if_neg last, getElem_append_left before]
      change (table.pmts.slots k).address = _
      rw [pmts, SlotArray.set_other _ _ last]
      exact lists.slot before

theorem patFetch_known {program : Nat × Nat} (lists : Lists pat programs)
    (distinct : (programs.map Prod.snd).Nodup) (known : program ∈ programs) :
    Yields (patFetch true pat program.2) fun fetched =>
      patStore fetched program.1 program.2 = pat := by
  have found : ∃ k, (pat.pmts.find fun pmt => decide (pmt.pid = program.2)) = some k := by
    apply Option.isSome_iff_exists.mp
    apply List.find?_isSome.mpr
    obtain ⟨k, inside, here⟩ := mem_iff_getElem.mp known
    refine ⟨k, mem_range.mpr (by rwa [lists.count]), ?_⟩
    have slot := lists.slot inside
    rw [here] at slot
    exact decide_eq_true (congrArg Prod.snd slot)
  obtain ⟨k, found⟩ := found
  obtain ⟨inside, same⟩ := SlotArray.find_some found
  have counted : k < programs.length := by rwa [← lists.count]
  have slot : (pat.pmts.slots k).address = program := by
    rw [lists.slot counted]
    apply inj_on_of_nodup_map distinct (getElem_mem counted) known
    rw [← lists.slot counted]
    exact of_decide_eq_true same
  unfold patFetch
  rw [found]
  dsimp only
  rw [if_pos (Nat.lt_of_lt_of_le inside lists.room)]
  refine ⟨_, rfl, ?_⟩
  have unchanged : ({ pat.pmts.slots k with pn := program.1, pid := program.2 } : Pmt Cell) =
      pat.pmts.slots k := by
    rw [← slot]
    rfl
  unfold patStore SlotArray.modify SlotArray.set
  dsimp only
  rw [unchanged, Function.update_eq_self]

theorem patReadPrograms_new {tail : List UInt8} {bound : Nat} (entries : List (Nat × Nat)) :
    ∀ {fuel i : Nat} {pat : Pat Cell} {programs : List (Nat × Nat)}, Lists pat programs →
      (∀ program ∈ entries, Addressable program) →
      ((programs ++ entries).map Prod.snd).Nodup → (programs ++ entries).length < 65535 →
      data.drop i = entries.flatMap programEntry ++ tail → i + 4 * entries.length ≤ bound →
      bound < i + 4 * entries.length + 4 → entries.length < fuel →
      Yields (patReadPrograms true data bound fuel i pat) fun read =>
        Lists read (programs ++ entries) ∧ read.ver = pat.ver ∧ read.tsid = pat.tsid := by
  induction entries with
  | nil =>
    intro fuel i pat programs lists _ _ _ _ _ finished enough
    obtain ⟨fuel, rfl⟩ : ∃ rest, fuel = rest + 1 := ⟨fuel - 1, by simp at enough; omega⟩
    refine ⟨pat, ?_, ?_, rfl, rfl⟩
    · rw [patReadPrograms, if_neg (by simp at finished; omega)]
    · rwa [append_nil]
  | cons program entries ih =>
    intro fuel i pat programs lists addressable distinct small here inside finished enough
    obtain ⟨fuel, rfl⟩ : ∃ rest, fuel = rest + 1 :=
      ⟨fuel - 1, by rw [length_cons] at enough; omega⟩
    rw [flatMap_cons, append_assoc] at here
    rw [length_cons] at inside finished enough
    have first := addressable program mem_cons_self
    obtain ⟨pn, pid⟩ := programEntry_fields first here
    have fresh : ∀ other ∈ programs, other.2 ≠ program.2 := by
      rw [map_append, map_cons, nodup_append] at distinct
      intro other member
      exact distinct.2.2 other.2 (mem_map_of_mem member) program.2 mem_cons_self
    have shifted : programs ++ program :: entries = (programs ++ [program]) ++ entries := by
      rw [append_assoc]
      rfl
    rw [patReadPrograms, if_pos (by omega)]
    apply Yields.step pn
    apply Yields.step pid
    rw [if_neg (Nat.ne_of_gt first.1)]
    apply Yields.bind (patFetch_new lists (by simp at small; omega) fresh)
    rintro fetched ⟨stored, ver, tsid⟩
    rw [shifted] at distinct small ⊢
    rw [← ver, ← tsid]
    have next : data.drop (i + 4) = _ := drop_append here
    apply ih stored _ distinct small next (by omega) (by omega) (by omega)
    exact (forall_mem_cons.mp addressable).2

theorem patReadPrograms_known {tail : List UInt8} {bound : Nat} (lists : Lists pat programs)
    (distinct : (programs.map Prod.snd).Nodup) (entries : List (Nat × Nat)) :
    ∀ {fuel i : Nat}, (∀ program ∈ entries, Addressable program ∧ program ∈ programs) →
      data.drop i = entries.flatMap programEntry ++ tail → i + 4 * entries.length ≤ bound →
      bound < i + 4 * entries.length + 4 → entries.length < fuel →
      patReadPrograms true data bound fuel i pat = .ok pat := by
  induction entries with
  | nil =>
    intro fuel i _ _ _ finished enough
    obtain ⟨fuel, rfl⟩ : ∃ rest, fuel = rest + 1 := ⟨fuel - 1, by simp at enough; omega⟩
    rw [patReadPrograms, if_neg (by simp at finished; omega)]
  | cons program entries ih =>
    intro fuel i known here inside finished enough
    obtain ⟨fuel, rfl⟩ : ∃ rest, fuel = rest + 1 :=
      ⟨fuel - 1, by rw [length_cons] at enough; omega⟩
    rw [flatMap_cons, append_assoc] at here
    rw [length_cons] at inside finished enough
    obtain ⟨addressable, member⟩ := known program mem_cons_self
    obtain ⟨pn, pid⟩ := programEntry_fields addressable here
    obtain ⟨fetched, found, same⟩ := patFetch_known lists distinct member
    rw [patReadPrograms, if_pos (by omega), pn, ok_bind, pid, ok_bind,
      if_neg (Nat.ne_of_gt addressable.1), found, ok_bind, same]
    exact ih (forall_mem_cons.mp known).2
      (drop_append here) (by omega) (by omega) (by omega)

theorem patSection_eq (pat : Pat Cell) (tail : List UInt8) :
    patSection pat ++ tail = [(0x00 : UInt8)] ++ nboW16 (0xb000 ||| (pat.pmts.count * 4 + 5 + 4)) ++
      nboW16 pat.tsid ++ [UInt8.ofNat (0xC1 ||| (pat.ver <<< 1)), 0x00, 0x00] ++
      (pat.pmts.live.map Pmt.address).flatMap programEntry ++
      ((patSection pat).drop (8 + 4 * pat.pmts.count) ++ tail) := by
  have entries : (pat.pmts.live.map Pmt.address).flatMap programEntry =
      pat.pmts.live.flatMap patEntry := by
    rw [flatMap_map]
    rfl
  have length : ([(0x00 : UInt8)] ++ nboW16 (0xb000 ||| (pat.pmts.count * 4 + 5 + 4)) ++
      nboW16 pat.tsid ++ [UInt8.ofNat (0xC1 ||| (pat.ver <<< 1)), 0x00, 0x00] ++
      pat.pmts.live.flatMap patEntry).length = 8 + 4 * pat.pmts.count := by
    rw [length_append, patEntries_length, SlotArray.live_length]
    rfl
  rw [entries, ← append_assoc _ _ tail]
  apply congrArg (· ++ tail)
  unfold patSection withCrc32
  rw [drop_left' length]

theorem patRead_heading (realloc : Bool) (read : Pat Other) (tail : List UInt8)
    (fits : 12 + 4 * pat.pmts.count ≤ tsPacketSize - 4) :
    patRead realloc read (patSection pat ++ tail) =
      patReadPrograms realloc (patSection pat ++ tail) (8 + 4 * pat.pmts.count)
        ((patSection pat ++ tail).length + 1) 8
        (patHeading read (pat.tsid % 2 ^ 16)
          (versionOf (UInt8.ofNat (0xC1 ||| (pat.ver <<< 1))))) := by
  have packet : tsPacketSize = 188 := rfl
  have length : (patSection pat ++ tail).length = 12 + 4 * pat.pmts.count + tail.length := by
    rw [length_append, patSection_length]
  have written := patSection_eq pat tail
  have small : pat.pmts.count * 4 + 5 + 4 < 2 ^ 12 := by omega
  have sectionLength : fieldAt (patSection pat ++ tail) 1 0x0F =
      .ok ((0xb000 ||| (pat.pmts.count * 4 + 5 + 4)) % 2 ^ (8 + 4)) :=
    fieldAt_nboW16 (by rw [written]; rfl) (by decide) rfl
  rw [sectionLength_mod small] at sectionLength
  have streamId : fieldAt (patSection pat ++ tail) 3 0xFF = .ok (pat.tsid % 2 ^ (8 + 8)) :=
    fieldAt_nboW16 (by rw [written]; rfl) (by decide) rfl
  have tableId : byteAt (patSection pat ++ tail) 0 = .ok 0x00 := by
    rw [written]
    rfl
  have flags : byteAt (patSection pat ++ tail) 1 =
      .ok (UInt8.ofNat ((0xb000 ||| (pat.pmts.count * 4 + 5 + 4)) >>> 8)) := by
    rw [written]
    rfl
  have version : byteAt (patSection pat ++ tail) 5 =
      .ok (UInt8.ofNat (0xC1 ||| (pat.ver <<< 1))) := by
    rw [written]
    rfl
  unfold patRead
  rw [tableId, ok_bind, flags, ok_bind, sectionLength, ok_bind, streamId, ok_bind, version,
    ok_bind, check_eq (show (0x00 : UInt8) = patTidPas from rfl), ok_bind,
    check_eq (syntaxIndicator_written small), ok_bind,
    check_eq (by rw [length]; omega), ok_bind]
  have bound : (pat.pmts.count * 4 + 5 + 4 + 8 + 2 ^ 32 - 5 - 4) % 2 ^ 32 =
      8 + 4 * pat.pmts.count := by
    omega
  rw [bound]

theorem patWrite_eq (fits : 12 + 4 * pat.pmts.count ≤ tsPacketSize - 4) :
    patWrite pat = .ok (patSection pat) := by
  have packet : tsPacketSize = 188 := rfl
  unfold patWrite
  dsimp only
  rw [check_eq (by omega), ok_bind, check_eq (by omega), ok_bind]
  rfl

/-- A PAT of which every field fits its width. -/
structure TableValid (pat : Pat Cell) : Prop where
  size : 12 + 4 * pat.pmts.count ≤ tsPacketSize - 4
  addressable : ∀ program ∈ pat.pmts.live.map Pmt.address, Addressable program
  distinct : ((pat.pmts.live.map Pmt.address).map Prod.snd).Nodup

/-- A table is read back, and reading it again changes nothing. -/
def PatSurvives (pat : Pat Cell) : Prop :=
  Yields (patWrite pat) fun payload => ∀ (Read : Type) (read : Pat Read) (tail : List UInt8),
    read.pmts.count = 0 → Yields (patRead true read (payload ++ tail)) fun next =>
      next.pmts.live.map Pmt.address = pat.pmts.live.map Pmt.address ∧
        patRead true next (payload ++ tail) = .ok next

/-- A PAT that is written is read as it was. -/
theorem pat_survives (valid : TableValid pat) : PatSurvives pat := by
  have packet : tsPacketSize = 188 := rfl
  have size := valid.size
  refine ⟨_, patWrite_eq size, ?_⟩
  intro Read read tail empty
  have length : (pat.pmts.live.map Pmt.address).length = pat.pmts.count := by
    rw [length_map, SlotArray.live_length]
  have here : (patSection pat ++ tail).drop 8 =
      (pat.pmts.live.map Pmt.address).flatMap programEntry ++
        ((patSection pat).drop (8 + 4 * pat.pmts.count) ++ tail) := by
    rw [patSection_eq, append_assoc]
    exact drop_left' rfl
  have bytes : (patSection pat ++ tail).length = 12 + 4 * pat.pmts.count + tail.length := by
    rw [length_append, patSection_length]
  rw [patRead_heading true read tail size]
  have cleared : Lists (patHeading read (pat.tsid % 2 ^ 16)
      (versionOf (UInt8.ofNat (0xC1 ||| (pat.ver <<< 1))))) [] := by
    have none : (patHeading read (pat.tsid % 2 ^ 16)
        (versionOf (UInt8.ofNat (0xC1 ||| (pat.ver <<< 1))))).pmts.count = 0 := by
      change (if _ then 0 else read.pmts.count) = 0
      rw [empty, ite_self]
    exact .of_slots none (by omega) fun k inside => absurd inside (Nat.not_lt_zero k)
  have inside : 8 + 4 * (pat.pmts.live.map Pmt.address).length ≤ 8 + 4 * pat.pmts.count := by omega
  apply (patReadPrograms_new _ cleared valid.addressable
    (by rw [nil_append]; exact valid.distinct)
    (by rw [nil_append, length]; omega) here inside (by omega) (by omega)).mono
  rintro next ⟨lists, ver, tsid⟩
  rw [nil_append] at lists
  refine ⟨lists.addresses, ?_⟩
  have again : patHeading next (pat.tsid % 2 ^ 16)
      (versionOf (UInt8.ofNat (0xC1 ||| (pat.ver <<< 1)))) = next := by
    have sameVer : next.ver = versionOf (UInt8.ofNat (0xC1 ||| (pat.ver <<< 1))) := ver
    have sameTsid : next.tsid = pat.tsid % 2 ^ 16 := tsid
    rw [← sameVer, ← sameTsid]
    unfold patHeading
    rw [if_neg (not_not_intro rfl)]
  rw [patRead_heading true next tail size, again]
  exact patReadPrograms_known lists valid.distinct _
    (fun program member => ⟨valid.addressable program member, member⟩) here (by omega) (by omega)
    (by omega)

end CLibs.MpegTs
