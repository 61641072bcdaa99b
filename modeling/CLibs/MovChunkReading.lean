import CLibs.MovChunkBoxes

/-!
# The boxes that are read and the chunks that are undone

Each box comes back as the table that was written.  The entries of `stsc`, each
taken for the chunks up to the next entry, are the chunks in order, so the nested
loops of `mov_apply_stco` are one loop over the chunks and put every sample back
where it was.
-/

namespace CLibs.Mov

open List

/-! ## Reading the boxes -/

section Read

variable {file : ByteFile} {rest : List UInt8}

theorem readStsc_eq {entry : Stsc} (first : entry.firstChunk < 2 ^ 32)
    (count : entry.samplesPerChunk < 2 ^ 32) (index : entry.sampleDescriptionIndex < 2 ^ 32)
    (ahead : file.Ahead (entry.text ++ rest)) :
    readStsc file = (entry, file.skip 12) ∧ (file.skip 12).Ahead rest := by
  unfold Stsc.text at ahead
  simp only [append_assoc] at ahead
  obtain ⟨firstEq, ahead⟩ := r32_reads.bigEndian first ahead
  obtain ⟨countEq, ahead⟩ := r32_reads.bigEndian count ahead
  obtain ⟨indexEq, ahead⟩ := r32_reads.bigEndian index ahead
  refine ⟨?_, ahead⟩
  unfold readStsc
  rw [firstEq]
  dsimp only
  rw [countEq]
  dsimp only
  rw [indexEq]
  rfl

theorem readChunkBox_stsc (track : ReadTrack) {entries : List Stsc} (empty : track.stbl.stsc = [])
    (count : entries.length < 2 ^ 32)
    (fits : ∀ entry ∈ entries, entry.firstChunk < 2 ^ 32 ∧ entry.samplesPerChunk < 2 ^ 32 ∧
      entry.sampleDescriptionIndex < 2 ^ 32)
    (ahead : file.Ahead (stscBox entries ++ rest)) :
    ∃ behind : ByteFile, behind.Ahead rest ∧ readChunkBox track file =
      if entries.length < (entries.length + 1) % 2 ^ 32 then
        .ok ({ track with stbl := { track.stbl with stsc := entries } }, behind)
      else .error .outside := by
  unfold stscBox at ahead
  simp only [append_assoc] at ahead
  obtain ⟨opened, header, ahead⟩ := readBoxHeader_eq rfl (Nat.mod_lt _ (by decide)) ahead
  obtain ⟨behind, table, ahead⟩ := readTable_eq (by decide) count
    (fun entry member file rest =>
      readStsc_eq (fits entry member).1 (fits entry member).2.1 (fits entry member).2.2) ahead
  refine ⟨behind, ahead, ?_⟩
  unfold readChunkBox movReadStsc
  rw [header]
  dsimp only
  rw [if_pos rfl, check_eq empty, table, ok_bind]
  rfl

def sized (size : Nat) : Sample := ⟨0, 0, 0, size, 0, 0, 0⟩

theorem storeSizes_eq {sizes : List Nat} {room : Nat} (enough : sizes.length ≤ room) :
    storeSizes sizes room =
      .ok (sizes.map sized ++ List.replicate (room - sizes.length) (sized 0)) := by
  unfold storeSizes
  rw [if_pos enough]
  rfl

theorem readChunkBox_stsz (track : ReadTrack) {differ : Bool} {sizes : List Nat} (none : track.sampleCount = 0)
    (empty : track.samples = []) (count : sizes.length < 2 ^ 32)
    (positive : ∀ size ∈ sizes, 0 < size ∧ size < 2 ^ 32) (used : sizes ≠ [])
    (same : differ = false → sizes = List.replicate sizes.length (sizes.headD 0))
    (ahead : file.Ahead (stszBox differ sizes ++ rest)) :
    ∃ behind : ByteFile, behind.Ahead rest ∧ readChunkBox track file =
      (storeSizes sizes ((sizes.length + 1) % 2 ^ 32) >>= fun samples =>
        .ok ({ track with samples := samples, sampleCount := sizes.length }, behind)) := by
  have first : sizes.headD 0 < 2 ^ 32 ∧ sizes.headD 0 ≠ 0 := by
    cases sizes with
    | nil => exact absurd rfl used
    | cons size sizes =>
      have fits := positive size mem_cons_self
      exact ⟨fits.2, Nat.ne_of_gt fits.1⟩
  have common : (if differ then 0 else sizes.headD 0) < 2 ^ 32 := by
    split
    · decide
    · exact first.1
  have some : ¬sizes.length = 0 := fun zero => used (length_eq_zero_iff.mp zero)
  unfold stszBox tableText at ahead
  simp only [append_assoc] at ahead
  obtain ⟨opened, header, ahead⟩ := readBoxHeader_eq rfl (Nat.mod_lt _ (by decide)) ahead
  obtain ⟨versionEq, ahead⟩ := r8_reads.bigEndian (by decide) ahead
  obtain ⟨flagsEq, ahead⟩ := r24_reads.bigEndian (by decide) ahead
  obtain ⟨sizeEq, ahead⟩ := r32_reads.bigEndian common ahead
  obtain ⟨countEq, ahead⟩ := r32_reads.bigEndian count ahead
  unfold readChunkBox movReadStsz
  rw [header]
  dsimp only
  rw [if_neg (by decide), if_pos rfl, versionEq]
  dsimp only
  rw [flagsEq]
  dsimp only
  rw [sizeEq]
  dsimp only
  rw [countEq, check_eq ⟨none, empty⟩, ok_bind]
  dsimp only
  rw [if_neg some]
  cases differ with
  | true =>
    obtain ⟨table, ahead⟩ := readEntries_eq
      (fun size member file rest => r32_reads.bigEndian (positive size member).2) ahead
    rw [if_pos rfl, if_pos rfl, table]
    exact ⟨_, ahead, rfl⟩
  | false =>
    have plain : (if false = true then 0 else sizes.headD 0) = sizes.headD 0 := rfl
    rw [plain, if_neg first.2]
    dsimp only
    rw [← same rfl]
    exact ⟨_, ahead, rfl⟩

theorem readChunkBox_stco (track : ReadTrack) {co64 : Bool} {offsets : List Nat} (empty : track.stbl.stco = [])
    (count : offsets.length < 2 ^ 32)
    (fits : ∀ offset ∈ offsets, offset < 256 ^ (if co64 then 8 else 4))
    (ahead : file.Ahead (stcoBox co64 offsets ++ rest)) :
    ∃ behind : ByteFile, readChunkBox track file =
        .ok ({ track with stbl := { track.stbl with stco := offsets } }, behind) ∧
      behind.Ahead rest := by
  unfold stcoBox at ahead
  simp only [append_assoc] at ahead
  unfold readChunkBox movReadStco
  cases co64 with
  | true =>
    obtain ⟨opened, header, ahead⟩ := readBoxHeader_eq rfl (Nat.mod_lt _ (by decide)) ahead
    obtain ⟨behind, table, ahead⟩ := readTable_eq (by decide) count
      (fun offset member file rest => r64_reads.bigEndian (fits offset member)) ahead
    refine ⟨behind, ?_, ahead⟩
    rw [header]
    dsimp only
    rw [if_neg (by decide), if_neg (by decide), if_pos (by decide), check_eq empty, ok_bind,
      if_neg (by decide), if_pos (by decide), table]
    rfl
  | false =>
    obtain ⟨opened, header, ahead⟩ := readBoxHeader_eq rfl (Nat.mod_lt _ (by decide)) ahead
    obtain ⟨behind, table, ahead⟩ := readTable_eq (by decide) count
      (fun offset member file rest => r32_reads.bigEndian (fits offset member)) ahead
    refine ⟨behind, ?_, ahead⟩
    rw [header]
    dsimp only
    rw [if_neg (by decide), if_neg (by decide), if_pos (by decide), check_eq empty, ok_bind,
      if_pos (by decide), table]
    rfl

end Read

/-! ## One loop over the chunks -/

section Apply

variable {last : Sample} {stco : List Nat} {n : Nat} {samples : List Sample}

def applyHeads : List Sample → Nat → List Sample → Except Fault (Nat × List Sample)
  | [], n, samples => .ok (n, samples)
  | head :: heads, n, samples =>
    applyChunk head.stsc head.samplesPerChunk head.offset n samples >>= fun found =>
      applyHeads heads found.1 found.2

theorem applyHeads_append (first second : List Sample) (n : Nat) (samples : List Sample) :
    applyHeads (first ++ second) n samples =
      applyHeads first n samples >>= fun found => applyHeads second found.1 found.2 := by
  induction first generalizing n samples with
  | nil => rfl
  | cons head first ih =>
    rw [cons_append, applyHeads, applyHeads, bind_assoc]
    exact congrArg _ (funext fun found => ih found.1 found.2)

theorem applyChunk_congr {entry other : Stsc}
    (same : entry.sampleDescriptionIndex = other.sampleDescriptionIndex) (left start n : Nat)
    (samples : List Sample) :
    applyChunk entry left start n samples = applyChunk other left start n samples := by
  induction left generalizing start n samples with
  | zero => rfl
  | succ left ih =>
    simp only [applyChunk, ih]
    rw [same]

theorem applyChunks_eq {mine : List Sample} (before rest : List Nat)
    (same : ∀ head ∈ mine, last.samplesPerChunk = head.samplesPerChunk ∧
      last.sampleDescriptionIndex = head.sampleDescriptionIndex)
    (n : Nat) (samples : List Sample) :
    applyChunks (before ++ (mine.map (·.offset) ++ rest)) last.stsc mine.length
      (before.length + 1) n samples = applyHeads mine n samples := by
  induction mine generalizing before n samples with
  | nil => rfl
  | cons head mine ih =>
    obtain ⟨count, index⟩ := same head mem_cons_self
    have inside : 0 < before.length + 1 ∧ before.length + 1 ≤
        (before ++ ((head :: mine).map (·.offset) ++ rest)).length := by
      simp only [length_append, map_cons, length_cons]
      omega
    have offset : (before ++ ((head :: mine).map (·.offset) ++ rest)).getD
        (before.length + 1 - 1) 0 = head.offset := by simp
    have others (n : Nat) (samples : List Sample) := ih (before ++ [head.offset])
      (forall_mem_cons.mp same).2 n samples
    simp only [length_append, length_singleton, append_assoc, cons_append,
      nil_append] at others
    have shared : last.stsc.samplesPerChunk = head.samplesPerChunk := count
    rw [length_cons, applyChunks, if_pos inside, offset, shared,
      applyChunk_congr (show last.stsc.sampleDescriptionIndex = head.stsc.sampleDescriptionIndex from index)]
    rw [applyHeads]
    exact congrArg _ (funext fun found => others found.1 found.2)

theorem applyStsc_cons {before rest : List Nat} {mine : List Sample} {entries : List Stsc}
    (used : mine ≠ [])
    (same : ∀ head ∈ mine, last.samplesPerChunk = head.samplesPerChunk ∧
      last.sampleDescriptionIndex = head.sampleDescriptionIndex)
    (first : last.firstChunk = before.length + 1)
    (next : nextChunk (before ++ (mine.map (·.offset) ++ rest)) entries =
      before.length + mine.length + 1) :
    applyStsc (before ++ (mine.map (·.offset) ++ rest)) (last.stsc :: entries) n samples =
      applyHeads mine n samples >>= fun found =>
        applyStsc (before ++ (mine.map (·.offset) ++ rest)) entries found.1 found.2 := by
  have positive : 0 < mine.length := length_pos_of_ne_nil used
  have start : last.stsc.firstChunk = before.length + 1 := first
  have within : last.stsc.firstChunk ≤ (before ++ (mine.map (·.offset) ++ rest)).length := by
    rw [start, length_append, length_append, length_map]
    omega
  have left : before.length + mine.length + 1 - (before.length + 1) = mine.length := by omega
  rw [applyStsc, check_eq within, ok_bind, next, start, left, applyChunks_eq before rest same]

theorem applyStsc_entries (before : List Nat) (mine : List Sample) {heads : List Sample}
    (used : mine ≠ [])
    (same : ∀ head ∈ mine, last.samplesPerChunk = head.samplesPerChunk ∧
      last.sampleDescriptionIndex = head.sampleDescriptionIndex)
    (first : last.firstChunk = before.length + 1)
    (numbered : heads.map (·.firstChunk) =
      List.range' (before.length + mine.length + 1) heads.length)
    (bound : before.length + mine.length + heads.length + 1 < 2 ^ 32) :
    applyStsc (before ++ (mine.map (·.offset) ++ heads.map (·.offset)))
      (last.stsc :: stscEntries (some last) heads) n samples =
        applyHeads (mine ++ heads) n samples := by
  induction heads generalizing before mine last n samples with
  | nil =>
    have next : nextChunk (before ++ (mine.map (·.offset) ++ [])) [] =
        before.length + mine.length + 1 := by
      unfold nextChunk
      rw [append_nil, length_append, length_map]
      exact Nat.mod_eq_of_lt bound
    rw [append_nil]
    refine (applyStsc_cons used same first next).trans ?_
    exact bind_pure _
  | cons head heads ih =>
    rw [map_cons, length_cons, List.range'_succ] at numbered
    have number := head_eq_of_cons_eq numbered
    have others := tail_eq_of_cons_eq numbered
    rw [length_cons] at bound
    rw [stscEntries, append_cons, map_cons]
    split
    case isTrue again =>
      obtain ⟨_, ⟨⟩, sameCount, sameIndex⟩ := again
      have joined : ∀ other ∈ mine ++ [head], last.samplesPerChunk = other.samplesPerChunk ∧
          last.sampleDescriptionIndex = other.sampleDescriptionIndex := by
        exact forall_mem_append.mpr ⟨same, forall_mem_singleton.mpr ⟨sameCount, sameIndex⟩⟩
      have longer : before.length + (mine ++ [head]).length = before.length + mine.length + 1 := by
        rw [length_append]
        rfl
      have whole : applyStsc _ _ n samples = _ := ih before (mine ++ [head]) (by simp) joined first
        (by rw [longer]; exact others) (by omega)
      simpa using whole
    case isFalse apart =>
      have alone : ∀ other ∈ [head], head.samplesPerChunk = other.samplesPerChunk ∧
          head.sampleDescriptionIndex = other.sampleDescriptionIndex := by
        intro other member
        rw [mem_singleton.mp member]
        exact ⟨rfl, rfl⟩
      have place : (before ++ mine.map (·.offset)).length = before.length + mine.length := by
        rw [length_append, length_map]
      have next : nextChunk (before ++ (mine.map (·.offset) ++
          (head.offset :: heads.map (·.offset)))) (head.stsc :: stscEntries (some head) heads) =
            before.length + mine.length + 1 := number
      have whole (n : Nat) (samples : List Sample) : applyStsc _ _ n samples = _ :=
        ih (before ++ mine.map (·.offset)) [head] (cons_ne_nil head []) alone
          (by rw [place]; exact number) (by rw [place]; exact others)
          (by rw [place, length_singleton]; omega)
      rw [append_assoc] at whole
      rw [applyStsc_cons used same first next, ← append_cons, applyHeads_append]
      exact congrArg _ (funext fun found => whole found.1 found.2)

end Apply

/-! ## The samples that are found -/

section Locate

/-- A sample as the reader knows it. -/
def located (sample : Sample) : Sample :=
  ⟨0, 0, sample.offset, sample.bytes, sample.sampleDescriptionIndex, 0, 0⟩

def Apart (sample next : Sample) : Prop := (sample.offset + sample.bytes) % 2 ^ 64 ≤ next.offset

theorem apart_previous {done items after : List Sample} {item : Sample}
    (apart : (done ++ item :: items).IsChain Apart) :
    done.length = 0 ∨
      (((done.map located ++ after).getD (done.length - 1) default).offset +
        ((done.map located ++ after).getD (done.length - 1) default).bytes) % 2 ^ 64 ≤
          (located item).offset := by
  rcases eq_nil_or_concat done with rfl | ⟨before, previous, rfl⟩
  · exact .inl rfl
  · right
    have found : (((before ++ [previous]).map located ++ after).getD
        ((before ++ [previous]).length - 1) default) = located previous := by simp
    rw [concat_eq_append] at apart ⊢
    rw [found]
    rw [append_assoc] at apart
    have pair := (isChain_append.mp apart).2.1
    exact (isChain_cons_cons.mp pair).1

theorem applyChunk_eq {entry : Stsc} {items : List Sample} (start : Nat) (done after : List Sample)
    (offsets : items.map (·.offset) = following start (items.map (·.bytes)))
    (index : ∀ sample ∈ items, sample.sampleDescriptionIndex = entry.sampleDescriptionIndex)
    (positive : ∀ sample ∈ items, 0 < sample.bytes) (apart : (done ++ items).IsChain Apart) :
    applyChunk entry items.length start done.length
        (done.map located ++ (items.map (fun sample => sized sample.bytes) ++ after)) =
      .ok (done.length + items.length, (done ++ items).map located ++ after) := by
  induction items generalizing start done with
  | nil => rw [append_nil]; rfl
  | cons item items ih =>
    rw [map_cons, map_cons, following] at offsets
    have here : item.offset = start := head_eq_of_cons_eq offsets
    have stored : storeSample
        (done.map located ++ ((item :: items).map (fun sample => sized sample.bytes) ++ after))
        done.length (fun sample => { sample with
          sampleDescriptionIndex := entry.sampleDescriptionIndex, offset := start }) =
        .ok (done.map located ++ located item ::
          (items.map (fun sample => sized sample.bytes) ++ after)) := by
      have behind := storeSample_behind (done.map located) (sized item.bytes)
        (items.map (fun sample => sized sample.bytes) ++ after) (fun sample => { sample with
          sampleDescriptionIndex := entry.sampleDescriptionIndex, offset := start })
      rw [length_map, ← here, ← index item mem_cons_self] at behind
      rw [← here, ← index item mem_cons_self]
      exact behind
    have found : (done.map located ++ located item ::
        (items.map (fun sample => sized sample.bytes) ++ after)).getD done.length default =
          located item := by simp
    have size : (located item).bytes > 0 := positive item mem_cons_self
    have others := ih ((start + item.bytes) % 2 ^ 64) (done ++ [item])
      (tail_eq_of_cons_eq offsets)
      (forall_mem_cons.mp index).2
      (forall_mem_cons.mp positive).2
      (by rwa [append_assoc])
    rw [length_cons, applyChunk, stored, ok_bind]
    dsimp only
    rw [found, check_eq size, ok_bind, check_eq (apart_previous apart), ok_bind]
    simp only [length_append, length_singleton, append_assoc, map_append,
      map_cons, map_nil, cons_append, nil_append] at others ⊢
    refine others.trans ?_
    rw [Nat.add_assoc, Nat.add_comm 1]

theorem applyHeads_eq {runs : List (Run Sample)} (done after : List Sample)
    (gathered : ∀ run ∈ runs, Gathered run) (positive : ∀ sample ∈ runItems runs, 0 < sample.bytes)
    (apart : (done ++ runItems runs).IsChain Apart) :
    applyHeads (runs.map (·.head)) done.length
        (done.map located ++ ((runItems runs).map (fun sample => sized sample.bytes) ++ after)) =
      .ok (done.length + (runItems runs).length,
        (done ++ runItems runs).map located ++ after) := by
  induction runs generalizing done with
  | nil => rw [runItems_nil, append_nil]; rfl
  | cons run runs ih =>
    have chunk := gathered run mem_cons_self
    have index : ∀ sample ∈ run.items, sample.sampleDescriptionIndex =
        run.head.stsc.sampleDescriptionIndex := by
      exact forall_mem_cons.mpr ⟨rfl, chunk.index⟩
    have count : run.head.samplesPerChunk = run.items.length := chunk.count
    rw [runItems_cons] at positive apart ⊢
    rw [← append_assoc] at apart
    have first := applyChunk_eq run.head.offset done
      ((runItems runs).map (fun sample => sized sample.bytes) ++ after) chunk.offsets index
      (fun sample member => positive sample (mem_append_left _ member))
      (isChain_append.mp apart).1
    have others := ih (done ++ run.items)
      (forall_mem_cons.mp gathered).2
      (fun sample member => positive sample (mem_append_right _ member)) apart
    rw [length_append] at others
    rw [map_cons, applyHeads, count, map_append, append_assoc, first, ok_bind]
    dsimp only
    rw [others, length_append, Nat.add_assoc, append_assoc done]

end Locate

end CLibs.Mov
