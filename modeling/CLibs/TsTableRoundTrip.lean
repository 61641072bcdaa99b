import CLibs.TsMapRoundTrip

/-!
# Write and read of whole program tables

The program association table always comes back.  The map of a program does
exactly if `pmt_write` wrote all of its streams, which depends on the lengths of
descriptions that are not written.
-/

namespace CLibs.MpegTs

open List

variable {Cell Other : Type}

theorem pmtWriteStreams_kept {streams : List (Pes Cell)} {p : Nat}
    (small : p + (mapEntries streams).length ≤ 1000)
    (held : ∀ stream ∈ streams, ChannelsHeld stream) :
    ∃ kept, pmtWriteStreams streams p = .ok (mapEntries kept) ∧ kept <+: streams ∧
      (StreamsFit streams p ↔ kept = streams) := by
  induction streams generalizing p with
  | nil => exact ⟨[], rfl, prefix_rfl, fun _ => rfl, fun _ => trivial⟩
  | cons stream streams ih =>
    have size := streamDescriptor_length stream
    rw [mapEntries_cons, length_append, pmtEntry_length] at small
    have room : 1021 - (p + 5) > 2 + 4 + 4 := by
      unfold entrySize at small
      split at small <;> omega
    have channels := held stream mem_cons_self
    obtain ⟨kept, written, first, all⟩ := ih (p := p + entrySize stream) (by omega)
      (forall_mem_cons.mp held).2
    rw [pmtWriteStreams, StreamsFit]
    by_cases enough : p + stream.esinfoLen < 1021 - 4 - 5
    · refine ⟨stream :: kept, ?_, cons_prefix_cons.mpr ⟨rfl, first⟩, ?_⟩
      · rw [if_pos enough, (pmtWriteDescriptor_iff room).mpr channels, ok_bind, Nat.add_assoc,
          size, written]
        rfl
      · constructor
        · rintro ⟨-, -, fit⟩
          rw [all.mp fit]
        · intro same
          exact ⟨enough, channels, all.mpr (tail_eq_of_cons_eq same)⟩
    · refine ⟨[], ?_, nil_prefix, fun fit => absurd fit.1 enough, fun same => absurd same.symm (cons_ne_nil _ _)⟩
      rw [if_neg enough]
      rfl

/-- A map with some of the streams of its program. -/
def mapSection (pmt : Pmt Cell) (kept : List (Pes Cell)) : List UInt8 :=
  withCrc32 (pmtHead pmt (12 + pmt.pminfoLen + (mapEntries kept).length + 4 - 3) ++ mapEntries kept)

/-- A PMT of which every field fits its width. -/
structure ProgramValid (pmt : Pmt Cell) : Prop where
  pn : pmt.pn < 2 ^ 16
  ver : pmt.ver < 32
  pcrPid : pmt.pcrPid < 2 ^ 13
  info : InfoHeld pmt
  count : pmt.streams.count ≤ streamsCapacity
  carried : ∀ stream ∈ pmt.streams.live, Carried stream
  distinct : (pmt.streams.live.map Pes.pid).Nodup
  size : 16 + pmt.pminfoLen + (pmt.streams.live.map entrySize).sum ≤ tsPacketSize - 4

/-- The reader has the program as it was written. -/
structure Conveys (pmt : Pmt Cell) (read : Pmt Other) : Prop where
  pn : read.pn = pmt.pn
  ver : read.ver = pmt.ver
  pcrPid : read.pcrPid = pmt.pcrPid
  streams : read.streams.live.map Pes.carried = pmt.streams.live.map Pes.carried

/-- The map of a program is read back, and reading it again changes nothing. -/
def PmtSurvives (pmt : Pmt Cell) : Prop :=
  Yields (pmtWrite pmt) fun payload =>
    ∀ (Read : Type) (calloc : Bool) (read : Pmt Read) (tail : List UInt8),
      read.streams.count = 0 → Yields (pmtRead calloc read (payload ++ tail)) fun next =>
        Conveys pmt next ∧ pmtRead calloc next (payload ++ tail) = .ok next

variable {kept : List (Pes Cell)}

theorem mapEntries_prefix {streams : List (Pes Cell)} (first : kept <+: streams) :
    (mapEntries kept).length ≤ (mapEntries streams).length := by
  obtain ⟨rest, rfl⟩ := first
  unfold mapEntries
  rw [flatMap_append, length_append]
  exact Nat.le_add_right _ _

variable {pmt : Pmt Cell}

theorem pmtWrite_kept (valid : ProgramValid pmt) :
    ∃ kept, pmtWrite pmt = .ok (mapSection pmt kept) ∧ kept <+: pmt.streams.live ∧
      (StreamsFit pmt.streams.live (12 + pmt.pminfoLen) ↔ kept = pmt.streams.live) := by
  have packet : tsPacketSize = 188 := rfl
  have capacity : sectionCapacity = 1024 := rfl
  have size := valid.size
  have entries := mapEntries_length pmt.streams.live
  obtain ⟨kept, written, first, all⟩ := pmtWriteStreams_kept
    (show 12 + pmt.pminfoLen + (mapEntries pmt.streams.live).length ≤ 1000 by omega)
    fun stream member => (valid.carried stream member).channels
  refine ⟨kept, ?_, first, all⟩
  have shorter := mapEntries_prefix first
  rw [pmtWrite_eq valid.info (by omega) (by omega), written, ok_bind, check_eq (by omega), ok_bind,
    check_eq (by omega), ok_bind]
  rfl

theorem mapSection_eq (pmt : Pmt Cell) (kept : List (Pes Cell)) (tail : List UInt8) :
    ∃ rest, mapSection pmt kept ++ tail =
      pmtHead pmt (12 + pmt.pminfoLen + (mapEntries kept).length + 4 - 3) ++
        (mapEntries kept ++ rest) ∧ rest.length = 4 + tail.length := by
  obtain ⟨checksum, section_, length⟩ : ∃ checksum, mapSection pmt kept =
      pmtHead pmt (12 + pmt.pminfoLen + (mapEntries kept).length + 4 - 3) ++ mapEntries kept ++
        checksum ∧ checksum.length = 4 := ⟨_, rfl, rfl⟩
  refine ⟨checksum ++ tail, ?_, ?_⟩
  · rw [section_, append_assoc, append_assoc]
  · rw [length_append, length]

theorem pmtRead_heading (calloc : Bool) (read : Pmt Other) (valid : ProgramValid pmt)
    (first : kept <+: pmt.streams.live) (tail : List UInt8) :
    pmtRead calloc read (mapSection pmt kept ++ tail) =
      pmtReadStreams calloc (mapSection pmt kept ++ tail)
        (12 + pmt.pminfoLen + (mapEntries kept).length) ((mapSection pmt kept ++ tail).length + 1)
        (12 + pmt.pminfoLen) (pmtHeading read pmt.pn pmt.ver pmt.pcrPid pmt.pminfoLen) := by
  have packet : tsPacketSize = 188 := rfl
  have size := valid.size
  have entries := mapEntries_length pmt.streams.live
  have shorter := mapEntries_prefix first
  obtain ⟨rest, written, behind⟩ := mapSection_eq pmt kept tail
  have head := pmtHead_length valid.info
    (12 + pmt.pminfoLen + (mapEntries kept).length + 4 - 3)
  have length : (mapSection pmt kept ++ tail).length =
      12 + pmt.pminfoLen + (mapEntries kept).length + 4 + tail.length := by
    rw [written, length_append, length_append, head, behind]
    omega
  obtain ⟨len, total⟩ : ∃ len, len = 12 + pmt.pminfoLen + (mapEntries kept).length + 4 - 3 :=
    ⟨_, rfl⟩
  rw [← total] at written
  have small : len < 2 ^ 12 := by omega
  generalize mapSection pmt kept ++ tail = data at *
  unfold pmtHead at written
  have tableId : byteAt data 0 = .ok 0x02 := by
    rw [written]
    rfl
  have flags : byteAt data 1 = .ok (UInt8.ofNat ((0xb000 ||| len) >>> 8)) := by
    rw [written]
    rfl
  have sectionLength : fieldAt data 1 0x0F = .ok ((0xb000 ||| len) % 2 ^ (8 + 4)) :=
    fieldAt_nboW16 (by rw [written]; rfl) (by decide) rfl
  have programNumber : fieldAt data 3 0xFF = .ok (pmt.pn % 2 ^ (8 + 8)) :=
    fieldAt_nboW16 (by rw [written]; rfl) (by decide) rfl
  have version : byteAt data 5 = .ok (UInt8.ofNat (0xC1 ||| (pmt.ver <<< 1))) := by
    rw [written]
    rfl
  have sectors : byteAt data 6 = .ok 0x00 ∧ byteAt data 7 = .ok 0x00 := by
    rw [written]
    exact ⟨rfl, rfl⟩
  have pcrPid : fieldAt data 8 0x1F = .ok ((0xE000 ||| pmt.pcrPid) % 2 ^ (8 + 5)) :=
    fieldAt_nboW16 (by rw [written]; rfl) (by decide) rfl
  have infoLength : fieldAt data 10 0x0F = .ok ((0xF000 ||| pmt.pminfoLen) % 2 ^ (8 + 4)) :=
    fieldAt_nboW16 (by rw [written]; rfl) (by decide) rfl
  unfold pmtRead
  rw [tableId, ok_bind, flags, ok_bind, sectionLength, sectionLength_mod small, ok_bind,
    programNumber, Nat.mod_eq_of_lt valid.pn, ok_bind, version, ok_bind, sectors.1, ok_bind,
    sectors.2, ok_bind, pcrPid, pid_mod valid.pcrPid, ok_bind, infoLength,
    infoLength_mod (by omega), ok_bind, check_eq (show (0x02 : UInt8) = patTidPms from rfl), ok_bind,
    check_eq (syntaxIndicator_written small), ok_bind, check_eq rfl, ok_bind, ok_bind,
    check_eq (by rw [length]; omega), ok_bind, versionOf_written valid.ver]
  have bound : sectionEnd len = 12 + pmt.pminfoLen + (mapEntries kept).length := by
    rw [sectionEnd_eq (by omega) small]
    omega
  rw [bound]

theorem pmtRead_kept (valid : ProgramValid pmt) (first : kept <+: pmt.streams.live) (calloc : Bool)
    {read : Pmt Other} (tail : List UInt8) (empty : read.streams.count = 0) :
    Yields (pmtRead calloc read (mapSection pmt kept ++ tail)) fun next =>
      next.pn = pmt.pn ∧ next.ver = pmt.ver ∧ next.pcrPid = pmt.pcrPid ∧
        next.streams.live.map Pes.carried = kept.map Pes.carried ∧
        pmtRead calloc next (mapSection pmt kept ++ tail) = .ok next := by
  have carried : ∀ stream ∈ kept, Carried stream :=
    fun stream member => valid.carried stream (first.subset member)
  have distinct : (kept.map Pes.pid).Nodup :=
    valid.distinct.sublist (first.sublist.map Pes.pid)
  have few : kept.length ≤ 4 := by
    have count := valid.count
    rw [← SlotArray.live_length] at count
    exact Nat.le_trans first.length_le count
  obtain ⟨rest, written, behind⟩ := mapSection_eq pmt kept tail
  have here : (mapSection pmt kept ++ tail).drop (12 + pmt.pminfoLen) = mapEntries kept ++ rest := by
    rw [written]
    exact drop_left' (pmtHead_length valid.info _)
  have enough : kept.length < (mapSection pmt kept ++ tail).length + 1 := by
    rw [written, length_append, length_append, behind]
    omega
  have cleared : Receives calloc (pmtHeading read pmt.pn pmt.ver pmt.pcrPid pmt.pminfoLen)
      ([] : List (Pes Cell)) := by
    refine ⟨?_, fun k inside => absurd inside (Nat.not_lt_zero k)⟩
    change (if _ then 0 else read.streams.count) = 0
    rw [empty, ite_self]
  rw [pmtRead_heading calloc read valid first]
  apply (pmtReadStreams_new kept cleared carried (by rwa [nil_append])
    (by rwa [nil_append]) here rfl enough).mono
  rintro next ⟨receives, streams, rfl⟩
  rw [nil_append] at receives
  refine ⟨rfl, rfl, rfl, receives.carried, ?_⟩
  have again : pmtHeading { pmtHeading read pmt.pn pmt.ver pmt.pcrPid pmt.pminfoLen with
      streams := streams } pmt.pn pmt.ver pmt.pcrPid pmt.pminfoLen =
      { pmtHeading read pmt.pn pmt.ver pmt.pcrPid pmt.pminfoLen with streams := streams } := by
    unfold pmtHeading
    dsimp only
    rw [if_neg (not_not_intro rfl)]
  rw [pmtRead_heading calloc _ valid first, again]
  exact pmtReadStreams_known receives distinct few kept
    (fun stream member => ⟨carried stream member, member⟩) here rfl enough

theorem pmt_survives_iff (valid : ProgramValid pmt) :
    PmtSurvives pmt ↔ StreamsFit pmt.streams.live (12 + pmt.pminfoLen) := by
  obtain ⟨kept, written, first, all⟩ := pmtWrite_kept valid
  rw [all]
  constructor
  · rintro ⟨payload, returned, survives⟩
    rw [written] at returned
    obtain rfl := Except.ok.inj returned
    obtain ⟨next, once, conveys, -⟩ := survives Unit false (Pmt.zero Unit) [] rfl
    obtain ⟨same, again, -, -, -, streams, -⟩ :=
      pmtRead_kept valid first false [] (show (Pmt.zero Unit).streams.count = 0 from rfl)
    obtain rfl := Except.ok.inj (once.symm.trans again)
    have lengths := congrArg List.length (streams.symm.trans conveys.streams)
    rw [length_map, length_map] at lengths
    exact first.eq_of_length lengths
  · rintro rfl
    refine ⟨_, written, ?_⟩
    intro Read calloc read tail empty
    apply (pmtRead_kept valid first calloc tail empty).mono
    rintro next ⟨pn, ver, pcrPid, streams, again⟩
    exact ⟨⟨pn, ver, pcrPid, streams⟩, again⟩

/-- The values fit the fields of the tables, and the numbers of the programs differ. -/
structure TablesValid (pat : Pat Cell) : Prop where
  table : TableValid pat
  numbers : ((pat.pmts.live.map Pmt.address).map Prod.fst).Nodup
  programs : ∀ pmt ∈ pat.pmts.live, ProgramValid pmt

/-- The tables survive a write and a read exactly if no stream has a description
that reaches the end of the section's room. -/
theorem tables_survive {pat : Pat Cell} (valid : TablesValid pat) :
    (PatSurvives pat ∧ ∀ pmt ∈ pat.pmts.live, PmtSurvives pmt) ↔
      ∀ pmt ∈ pat.pmts.live, StreamsFit pmt.streams.live (12 + pmt.pminfoLen) := by
  constructor
  · rintro ⟨-, survive⟩ pmt member
    exact (pmt_survives_iff (valid.programs pmt member)).mp (survive pmt member)
  · intro fit
    refine ⟨pat_survives valid.table, fun pmt member => ?_⟩
    exact (pmt_survives_iff (valid.programs pmt member)).mpr (fit pmt member)

def oneProgram (pmt : Pmt Cell) : Pat Cell := ⟨1, 0, 0, 1, ⟨fun _ => pmt, 1⟩⟩

def oneStream (stream : Pes Cell) : Pmt Cell :=
  ⟨0x100, 1, 1, 0, 0x1FFF, 0, none, [], [], ⟨fun _ => stream, 1⟩⟩

/-- A stream of a type, with a description. -/
def describedStream (codecid : UInt8) (esinfo : Option (List UInt8)) : Pes UInt8 :=
  { Pes.zero UInt8 with
    pid := 0x101
    codecid := codecid
    esinfo := esinfo
    esinfoLen := (esinfo.getD []).length }

theorem oneStream_valid {stream : Pes Cell} (carried : Carried stream) :
    ProgramValid (oneStream stream) where
  pn := show 1 < 2 ^ 16 by decide
  ver := show 1 < 32 by decide
  pcrPid := show 0x1FFF < 2 ^ 13 by decide
  info := rfl
  count := show 1 ≤ 4 by decide
  carried := fun other member => mem_singleton.mp member ▸ carried
  distinct := nodup_singleton _
  size := by
    change 16 + 0 + (entrySize stream + 0) ≤ 188 - 4
    unfold entrySize
    split <;> decide

theorem oneProgram_valid {stream : Pes Cell} (carried : Carried stream) :
    TablesValid (oneProgram (oneStream stream)) where
  table := by
    refine ⟨show 12 + 4 * 1 ≤ 188 - 4 by decide, ?_, nodup_singleton _⟩
    intro program member
    obtain rfl := mem_singleton.mp member
    exact ⟨Nat.le_refl 1, show 1 < 2 ^ 16 by decide, show 0x100 < 2 ^ 13 by decide⟩
  numbers := nodup_singleton _
  programs := fun pmt member => mem_singleton.mp member ▸ oneStream_valid carried

/-- An Opus stream without a description. -/
theorem tables_survive_opus :
    let pat := oneProgram (oneStream (describedStream psiStreamAudioOpus none))
    TablesValid pat ∧ PatSurvives pat ∧ ∀ pmt ∈ pat.pmts.live, PmtSurvives pmt := by
  intro pat
  have carried : Carried (describedStream psiStreamAudioOpus none) :=
    ⟨by decide, fun _ => ⟨2, rfl, by decide, by decide⟩⟩
  have valid := oneProgram_valid carried
  refine ⟨valid, (tables_survive valid).mpr ?_⟩
  intro pmt member
  obtain rfl := mem_singleton.mp member
  exact ⟨by decide, by decide, trivial⟩

theorem h264_carried (info : List UInt8) : Carried (describedStream psiStreamH264 (some info)) :=
  ⟨show 0x101 < 2 ^ 13 by decide, fun opus => absurd opus (by decide : psiStreamH264 ≠ _)⟩

theorem long_description_lost {info : List UInt8} (long : 1000 ≤ info.length) :
    ¬PmtSurvives (oneStream (describedStream psiStreamH264 (some info))) := by
  intro survives
  have fit := ((pmt_survives_iff (oneStream_valid (h264_carried info))).mp survives).1
  change 12 + 0 + info.length < 1021 - 4 - 5 at fit
  omega

/-- An H.264 stream with a description of 1000 bytes does not reach the map. -/
theorem tables_lose_stream :
    let pat := oneProgram (oneStream
      (describedStream psiStreamH264 (some (List.replicate 1000 0))))
    TablesValid pat ∧ ¬(PatSurvives pat ∧ ∀ pmt ∈ pat.pmts.live, PmtSurvives pmt) := by
  intro pat
  refine ⟨oneProgram_valid (h264_carried _), ?_⟩
  rintro ⟨-, survive⟩
  apply long_description_lost (Nat.le_of_eq length_replicate.symm)
  exact survive _ (mem_singleton.mpr rfl)

end CLibs.MpegTs
