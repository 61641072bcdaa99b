import CLibs.TsSectionRoundTrip

/-!
# Program maps that are read back

An entry of a program map, with or without the two descriptors of an Opus
stream, gives back the pid and the stream type it was written from.  Hence the
streams that `pmt_write` wrote come back in their order; all of them do exactly
if the loop of `pmt_write` left none out.
-/

namespace CLibs.MpegTs

open List

variable {Cell Other : Type}

/-! ## One entry -/

structure Carried (stream : Pes Cell) : Prop where
  pid : stream.pid < 2 ^ 13
  opus : stream.codecid = psiStreamAudioOpus →
    ∃ channels, opusChannels stream = .ok channels ∧ 1 ≤ channels.toNat ∧ channels.toNat ≤ 8

def received (calloc : Bool) (pn : Nat) (written : Pes Cell) (slot : Pes Other) : Pes Other :=
  if written.codecid = psiStreamAudioOpus then
    { pmtEntryStream slot pn written.pid psiStreamAudioOpus with
      esinfo := if calloc then (opusExtradata (writtenChannels written)).toOption else none
      esinfoLen := if calloc then 30 else 0 }
  else pmtEntryStream slot pn written.pid written.codecid

def Pes.carried (stream : Pes Cell) : Nat × UInt8 := (stream.pid, stream.codecid)

theorem received_carried (calloc : Bool) (pn : Nat) (written : Pes Cell) (slot : Pes Other) :
    (received calloc pn written slot).carried = written.carried := by
  unfold received
  split
  · rename_i opus
    exact Prod.ext rfl opus.symm
  · rfl

theorem received_again (calloc : Bool) (pn : Nat) (written : Pes Cell) (slot : Pes Other) :
    received calloc pn written (received calloc pn written slot) =
      received calloc pn written slot := by
  unfold received
  split <;> rfl

theorem Carried.channels {stream : Pes Cell} (carried : Carried stream) : ChannelsHeld stream := by
  intro opus
  obtain ⟨channels, returned, -⟩ := carried.opus opus
  exact opusChannels_held returned opus

theorem byteAt_shift (data : List UInt8) (i offset : Nat) :
    byteAt data (i + offset) = byteAt (data.drop i) offset := by
  unfold byteAt
  rw [List.getElem?_drop]

theorem spells_shift (data letters : List UInt8) (i offset : Nat) :
    spells data (i + offset) letters = spells (data.drop i) offset letters := by
  induction letters generalizing offset with
  | nil => rfl
  | cons letter letters ih =>
    rw [spells, spells, byteAt_shift, Nat.add_assoc]
    simp only [ih]

theorem readDescriptor_shift (calloc : Bool) (data : List UInt8) (i offset : Nat) (tag : UInt8)
    (stream : Pes Cell) :
    readDescriptor calloc data (i + offset) tag stream =
      readDescriptor calloc (data.drop i) offset tag stream := by
  unfold readDescriptor readRegistration readExtension
  simp only [Nat.add_assoc, byteAt_shift, spells_shift]

theorem pmtReadDescriptor_shift (calloc : Bool) (data : List UInt8) (fuel i offset bytes : Nat)
    (stream : Pes Cell) :
    pmtReadDescriptor calloc data fuel (i + offset) bytes stream =
      pmtReadDescriptor calloc (data.drop i) fuel offset bytes stream := by
  induction fuel generalizing offset bytes stream with
  | zero => rfl
  | succ fuel ih =>
    simp only [pmtReadDescriptor, Nat.add_assoc, byteAt_shift, readDescriptor_shift, ih]

variable {calloc : Bool} {data : List UInt8} {i : Nat}

theorem pmtReadDescriptor_step {fuel bytes : Nat} {tag len : UInt8} (stream : Pes Cell)
    (some : bytes > 2) (tagged : byteAt data i = .ok tag) (sized : byteAt data (i + 1) = .ok len)
    (fits : ¬len.toNat + 2 > bytes) :
    pmtReadDescriptor calloc data (fuel + 1) i bytes stream =
      (readDescriptor calloc data i tag stream >>= fun read =>
        pmtReadDescriptor calloc data fuel (i + len.toNat + 2) (bytes - (len.toNat + 2)) read) := by
  rw [pmtReadDescriptor, if_pos some, tagged, ok_bind, sized, ok_bind, if_neg fits]

variable {rest : List UInt8}

theorem pmtReadDescriptor_opus (calloc : Bool) {stream : Pes Other} {channels : UInt8}
    {extradata : List UInt8} (known : opusExtradata channels = .ok extradata)
    (opened : stream.codecid = psiStreamPrivateData) (clear : stream.esinfoLen = 0) :
    pmtReadDescriptor calloc ([0x05, 4, 0x4F, 0x70, 0x75, 0x73, 0x7f, 2, 0x80, channels] ++ rest)
      11 0 10 stream = .ok { stream with
        codecid := psiStreamAudioOpus
        esinfo := if calloc then some extradata else none
        esinfoLen := if calloc then 30 else 0 } := by
  obtain ⟨pn, pid, sid, codecid, cc, esinfo, esinfoLen, len, aligned, pts, dts, pkt⟩ := stream
  dsimp only at opened clear
  subst opened clear
  have registered : readDescriptor calloc
      ([0x05, 4, 0x4F, 0x70, 0x75, 0x73, 0x7f, 2, 0x80, channels] ++ rest) 0 0x05
      ⟨pn, pid, sid, psiStreamPrivateData, cc, esinfo, 0, len, aligned, pts, dts, pkt⟩ =
      .ok (⟨pn, pid, sid, psiStreamAudioOpus, cc, esinfo, 0, len, aligned, pts, dts, pkt⟩ :
        Pes Other) := rfl
  have extended : readDescriptor calloc
      ([0x05, 4, 0x4F, 0x70, 0x75, 0x73, 0x7f, 2, 0x80, channels] ++ rest) 6 0x7f
      ⟨pn, pid, sid, psiStreamAudioOpus, cc, esinfo, 0, len, aligned, pts, dts, pkt⟩ =
      .ok (⟨pn, pid, sid, psiStreamAudioOpus, cc, if calloc then some extradata else none,
        if calloc then 30 else 0, len, aligned, pts, dts, pkt⟩ : Pes Other) := by
    cases calloc with
    | false => rfl
    | true =>
      change (opusExtradata channels >>= fun esinfo => _) = _
      rw [known]
      rfl
  rw [pmtReadDescriptor_step _ (by decide) (show _ = Except.ok 0x05 from rfl)
      (show _ = Except.ok 4 from rfl) (by decide), registered, ok_bind,
    pmtReadDescriptor_step _ (by decide) (show _ = Except.ok 0x7f from rfl)
      (show _ = Except.ok 2 from rfl) (by decide)]
  change readDescriptor calloc _ 6 0x7f _ >>= _ = _
  rw [extended, ok_bind]
  rfl

def writtenType (stream : Pes Cell) : UInt8 :=
  if stream.codecid = psiStreamAudioOpus then psiStreamPrivateData else stream.codecid

theorem pmtEntry_eq (stream : Pes Cell) (rest : List UInt8) :
    pmtEntry stream (streamDescriptor stream) ++ rest =
      writtenType stream :: (nboW16 (0xE000 ||| stream.pid) ++
        (nboW16 (0xF000 ||| (streamDescriptor stream).length) ++
          (streamDescriptor stream ++ rest))) := by
  unfold pmtEntry
  simp only [append_assoc]
  rfl

theorem streamDescriptor_length (stream : Pes Cell) :
    5 + (streamDescriptor stream).length = entrySize stream := by
  unfold streamDescriptor entrySize
  split <;> rfl

variable {written : Pes Cell}

theorem pmtEntry_fields (carried : Carried written)
    (here : data.drop i = pmtEntry written (streamDescriptor written) ++ rest) :
    byteAt data i = .ok (writtenType written) ∧ fieldAt data (i + 1) 0x1F = .ok written.pid ∧
      fieldAt data (i + 3) 0x0F = .ok (streamDescriptor written).length ∧
      data.drop (i + 5) = streamDescriptor written ++ rest := by
  rw [pmtEntry_eq] at here
  have short : (streamDescriptor written).length < 2 ^ 12 := by
    have size := streamDescriptor_length written
    unfold entrySize at size
    split at size <;> omega
  have second := drop_succ here
  have third : data.drop (i + 3) = _ := drop_append second
  have fourth : data.drop (i + 5) = _ := drop_append third
  refine ⟨byteAt_drop here, ?_, ?_, fourth⟩
  · have read : fieldAt data (i + 1) 0x1F = .ok ((0xE000 ||| written.pid) % 2 ^ (8 + 5)) :=
      fieldAt_nboW16 second (by decide) rfl
    rw [read, pid_mod carried.pid]
  · have read : fieldAt data (i + 3) 0x0F =
        .ok ((0xF000 ||| (streamDescriptor written).length) % 2 ^ (8 + 4)) :=
      fieldAt_nboW16 third (by decide) rfl
    rw [read, infoLength_mod short]

theorem pmtEntry_received (calloc : Bool) (pn : Nat) (slot : Pes Other) (carried : Carried written)
    (here : data.drop (i + 5) = streamDescriptor written ++ rest) :
    pmtReadInfo calloc data i (streamDescriptor written).length
        (pmtEntryStream slot pn written.pid (writtenType written)) =
      .ok (received calloc pn written slot) := by
  unfold pmtReadInfo
  by_cases opus : written.codecid = psiStreamAudioOpus
  · obtain ⟨channels, returned, -, few⟩ := carried.opus opus
    have same : channels = writtenChannels written :=
      Except.ok.inj (returned.symm.trans (opusChannels_eq opus carried.channels))
    obtain ⟨extradata, known⟩ := opusExtradata_eq few
    unfold streamDescriptor writtenType at *
    unfold received
    rw [if_pos opus] at here ⊢
    rw [if_pos opus, if_pos opus, if_pos (by exact (by decide : 10 > 2)), ← same, known]
    have shifted := pmtReadDescriptor_shift calloc data 11 (i + 5) 0 10
      (pmtEntryStream slot pn written.pid psiStreamPrivateData)
    rw [here, ← same] at shifted
    exact shifted.trans (pmtReadDescriptor_opus calloc known rfl rfl)
  · unfold streamDescriptor writtenType received
    rw [if_neg opus, if_neg opus, if_neg opus]
    rfl

/-! ## The loop over the entries -/

structure Receives (calloc : Bool) (pmt : Pmt Other) (written : List (Pes Cell)) : Prop where
  count : pmt.streams.count = written.length
  slot : ∀ k (inside : k < written.length),
    ∃ slot, pmt.streams.slots k = received calloc (pmt.pn % 2 ^ 16) written[k] slot

variable {pmt : Pmt Other}

theorem Receives.carried {written : List (Pes Cell)} (receives : Receives calloc pmt written) :
    pmt.streams.live.map Pes.carried = written.map Pes.carried := by
  apply ext_getElem
  · rw [length_map, length_map, SlotArray.live_length, receives.count]
  · intro k left right
    rw [length_map] at right
    obtain ⟨slot, same⟩ := receives.slot k right
    rw [getElem_map, getElem_map]
    unfold SlotArray.live
    rw [getElem_map, getElem_range, same, received_carried]

theorem pmtFetch_new {done : List (Pes Cell)} (receives : Receives calloc pmt done)
    (room : done.length < 4) (fresh : ∀ other ∈ done, other.pid ≠ written.pid) :
    Yields (pmtFetch pmt written.pid) fun fetched =>
      Receives calloc (pmtStore fetched.1 fetched.2 (received calloc (pmt.pn % 2 ^ 16) written
        (fetched.1.streams.slots fetched.2))) (done ++ [written]) ∧
      ∃ streams, fetched.1 = { pmt with streams := streams } := by
  have missing : (pmt.streams.find fun stream => decide (stream.pid = written.pid)) = none := by
    apply List.find?_eq_none.mpr
    intro k member
    have inside : k < done.length := by
      rw [← receives.count]
      exact mem_range.mp member
    have other := fresh _ (getElem_mem inside)
    obtain ⟨slot, same⟩ := receives.slot k inside
    have pid := congrArg Prod.fst (received_carried calloc (pmt.pn % 2 ^ 16) done[k] slot)
    rw [← same] at pid
    exact fun here => other (pid.symm.trans (of_decide_eq_true here))
  have count := receives.count
  unfold pmtFetch
  rw [missing]
  dsimp only
  rw [if_neg (by change ¬4 ≤ _; omega)]
  refine ⟨_, rfl, ⟨?_, ?_⟩, _, rfl⟩
  · change pmt.streams.count + 1 = _
    rw [length_append]
    exact congrArg (· + 1) count
  · intro k inside
    rw [length_append] at inside
    by_cases last : k = pmt.streams.count
    · rw [getElem_append_right (by omega)]
      subst last
      simp only [count, Nat.sub_self]
      exact ⟨_, SlotArray.set_same _ _ _⟩
    · have before : k < done.length := by
        change k < done.length + 1 at inside
        omega
      rw [getElem_append_left before]
      obtain ⟨slot, same⟩ := receives.slot k before
      refine ⟨slot, ?_⟩
      exact (SlotArray.set_other _ _ last).trans same

theorem pmtFetch_known {all : List (Pes Cell)} (receives : Receives calloc pmt all)
    (distinct : (all.map Pes.pid).Nodup) (member : written ∈ all) :
    Yields (pmtFetch pmt written.pid) fun fetched => fetched.1 = pmt ∧
      pmtStore pmt fetched.2 (received calloc (pmt.pn % 2 ^ 16) written
        (pmt.streams.slots fetched.2)) = pmt := by
  have pids : ∀ k (inside : k < all.length), (pmt.streams.slots k).pid = all[k].pid := by
    intro k inside
    obtain ⟨slot, same⟩ := receives.slot k inside
    rw [same]
    exact congrArg Prod.fst (received_carried calloc _ all[k] slot)
  have found : ∃ k, (pmt.streams.find fun stream => decide (stream.pid = written.pid)) =
      some k := by
    apply Option.isSome_iff_exists.mp
    apply List.find?_isSome.mpr
    obtain ⟨k, inside, here⟩ := mem_iff_getElem.mp member
    refine ⟨k, mem_range.mpr (by rwa [receives.count]), ?_⟩
    rw [decide_eq_true_iff, pids k inside, here]
  obtain ⟨k, found⟩ := found
  obtain ⟨inside, same⟩ := SlotArray.find_some found
  rw [receives.count] at inside
  have stream : all[k] = written := by
    apply inj_on_of_nodup_map distinct (getElem_mem inside) member
    rw [← pids k inside]
    exact of_decide_eq_true same
  obtain ⟨slot, held⟩ := receives.slot k inside
  rw [stream] at held
  unfold pmtFetch
  rw [found]
  refine ⟨_, rfl, rfl, ?_⟩
  unfold pmtStore SlotArray.set
  dsimp only
  rw [held, received_again, ← held, Function.update_eq_self]

variable {bound : Nat}

theorem pmtReadStreams_step (calloc : Bool) {fuel : Nat} {fetched : Pmt Other × Nat}
    (carried : Carried written)
    (here : data.drop i = pmtEntry written (streamDescriptor written) ++ rest)
    (inside : i + entrySize written ≤ bound) (few : pmt.streams.count ≤ streamsCapacity)
    (found : pmtFetch pmt written.pid = .ok fetched) :
    pmtReadStreams calloc data bound (fuel + 1) i pmt =
      pmtReadStreams calloc data bound fuel (i + entrySize written)
        (pmtStore fetched.1 fetched.2 (received calloc (pmt.pn % 2 ^ 16) written
          (fetched.1.streams.slots fetched.2))) := by
  obtain ⟨type, pid, len, behind⟩ := pmtEntry_fields carried here
  have size := streamDescriptor_length written
  have next : i + (streamDescriptor written).length + 5 = i + entrySize written := by omega
  rw [pmtReadStreams, if_pos (by omega), pid, ok_bind, len, ok_bind, if_neg (by omega),
    check_eq few, ok_bind, found, ok_bind, type, ok_bind, pmtEntry_received calloc _ _ carried behind,
    ok_bind, next]

theorem pmtReadStreams_new {tail : List UInt8} (entries : List (Pes Cell)) :
    ∀ {fuel i : Nat} {pmt : Pmt Other} {done : List (Pes Cell)}, Receives calloc pmt done →
      (∀ stream ∈ entries, Carried stream) → ((done ++ entries).map Pes.pid).Nodup →
      (done ++ entries).length ≤ 4 → data.drop i = mapEntries entries ++ tail →
      i + (mapEntries entries).length = bound → entries.length < fuel →
      Yields (pmtReadStreams calloc data bound fuel i pmt) fun read =>
        Receives calloc read (done ++ entries) ∧ ∃ streams, read = { pmt with streams := streams } := by
  induction entries with
  | nil =>
    intro fuel i pmt done receives _ _ _ _ finished enough
    obtain ⟨fuel, rfl⟩ : ∃ rest, fuel = rest + 1 := ⟨fuel - 1, by simp at enough; omega⟩
    refine ⟨pmt, ?_, ?_, pmt.streams, rfl⟩
    · rw [pmtReadStreams, if_neg (by change i + 0 = bound at finished; omega)]
    · rwa [append_nil]
  | cons written entries ih =>
    intro fuel i pmt done receives carried distinct room here finished enough
    obtain ⟨fuel, rfl⟩ : ∃ rest, fuel = rest + 1 :=
      ⟨fuel - 1, by rw [length_cons] at enough; omega⟩
    rw [mapEntries_cons, append_assoc] at here
    rw [mapEntries_cons, length_append, pmtEntry_length] at finished
    have fresh : ∀ other ∈ done, other.pid ≠ written.pid := by
      rw [map_append, map_cons, nodup_append] at distinct
      intro other member
      exact distinct.2.2 other.pid (mem_map_of_mem member) written.pid mem_cons_self
    have shifted : done ++ written :: entries = (done ++ [written]) ++ entries := by
      rw [append_assoc]
      rfl
    have short : done.length < 4 := by
      rw [length_append, length_cons] at room
      omega
    have few : pmt.streams.count ≤ streamsCapacity := by
      rw [receives.count]
      exact Nat.le_of_lt short
    obtain ⟨fetched, found, stored, streams, same⟩ := pmtFetch_new receives short fresh
    rw [pmtReadStreams_step calloc (carried written mem_cons_self) here (by omega) few found]
    rw [shifted] at distinct room ⊢
    have next : data.drop (i + entrySize written) = mapEntries entries ++ tail := by
      rw [← pmtEntry_length]
      exact drop_append here
    apply (ih stored (forall_mem_cons.mp carried).2
      distinct room next (by omega) (by rw [length_cons] at enough; omega)).mono
    rintro read ⟨all, further, rfl⟩
    refine ⟨all, further, ?_⟩
    rw [same]
    rfl

theorem pmtReadStreams_known {tail : List UInt8} {all : List (Pes Cell)}
    (receives : Receives calloc pmt all) (distinct : (all.map Pes.pid).Nodup) (few : all.length ≤ 4)
    (entries : List (Pes Cell)) :
    ∀ {fuel i : Nat}, (∀ stream ∈ entries, Carried stream ∧ stream ∈ all) →
      data.drop i = mapEntries entries ++ tail → i + (mapEntries entries).length = bound →
      entries.length < fuel → pmtReadStreams calloc data bound fuel i pmt = .ok pmt := by
  induction entries with
  | nil =>
    intro fuel i _ _ finished enough
    obtain ⟨fuel, rfl⟩ : ∃ rest, fuel = rest + 1 := ⟨fuel - 1, by simp at enough; omega⟩
    rw [pmtReadStreams, if_neg (by change i + 0 = bound at finished; omega)]
  | cons written entries ih =>
    intro fuel i known here finished enough
    obtain ⟨fuel, rfl⟩ : ∃ rest, fuel = rest + 1 :=
      ⟨fuel - 1, by rw [length_cons] at enough; omega⟩
    rw [mapEntries_cons, append_assoc] at here
    rw [mapEntries_cons, length_append, pmtEntry_length] at finished
    obtain ⟨carried, member⟩ := known written mem_cons_self
    have few : pmt.streams.count ≤ streamsCapacity := by
      rw [receives.count]
      exact few
    obtain ⟨⟨same, k⟩, found, rfl, kept⟩ := pmtFetch_known receives distinct member
    have next : data.drop (i + entrySize written) = mapEntries entries ++ tail := by
      rw [← pmtEntry_length]
      exact drop_append here
    rw [pmtReadStreams_step calloc carried here (by omega) few found, kept]
    exact ih (forall_mem_cons.mp known).2 next (by omega)
      (by rw [length_cons] at enough; omega)

end CLibs.MpegTs
