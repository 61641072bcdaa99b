import CLibs.TimeWheel

/-!
# Cascades and ticks

The loops of `twtimer_cascade` and `twtimer_process` end, no assertion fails in
them, and every timer is moved only to where it still waits for its tick.
-/

namespace CLibs.Twtimer

variable {Timer : Type} [DecidableEq Timer]
variable {done tick : Nat} {tm : TimeWheel Timer} {due : Timer → Nat}
variable {lists : Slot → List Timer} {loose : Option Slot} {members : Finset Timer}

/-- Only links and the counter differ. -/
structure Rearranged (tm next : TimeWheel Timer) : Prop where
  clock : next.clock = tm.clock
  expire : next.expire = tm.expire
  ontimeout : next.ontimeout = tm.ontimeout

omit [DecidableEq Timer] in
theorem Rearranged.trans {tm next last : TimeWheel Timer} (first : Rearranged tm next)
    (second : Rearranged next last) : Rearranged tm last :=
  ⟨second.clock.trans first.clock, second.expire.trans first.expire,
    second.ontimeout.trans first.ontimeout⟩

theorem Placement.erase {timer : Timer} {links : Links Slot Timer} {loose' : Option Slot}
    (placement : Placement done tm tick due lists loose members) (member : timer ∈ members)
    (linked : links.Linked (fun slot => (lists slot).erase timer) loose' (members.erase timer)) :
    Placement done { tm with links := links, count := tm.count - 1 } tick due
      (fun slot => (lists slot).erase timer) loose' (members.erase timer) := by
  refine ⟨linked, ?_, ?_, ?_⟩
  · have positive := Finset.card_pos.mpr ⟨timer, member⟩
    have count := placement.count
    rw [Finset.card_erase_of_mem member]
    simp only
    omega
  · intro other otherMem
    exact placement.ontimeout other (Finset.mem_of_mem_erase otherMem)
  · intro slot other otherMem
    exact placement.waits slot other (List.mem_of_mem_erase otherMem)

/-! ## Cascading one bucket -/

theorem cascadeLoop_returns {items : List Timer}
    (placement : Placement done tm tick due lists (some .next) members)
    (waiting : lists .next = items) :
    ∃ next lists', Returns (fun fuel => cascadeLoop fuel tm) next ∧ Rearranged tm next ∧
      Placement done next tick due lists' none members ∧ lists' .next = [] ∧
      lists' .bucket = lists .bucket := by
  induction items generalizing tm lists with
  | nil =>
    have first : tm.links.first .next = none := by
      rw [placement.linked.first_eq, waiting]
      rfl
    refine ⟨tm, lists, ?_, ⟨rfl, rfl, rfl⟩, ?_, waiting, rfl⟩
    · apply Returns.iterate _ (Returns.pure tm)
      intro fuel
      simp only [cascadeLoop, first]
    · exact { placement with linked := placement.linked.tighten waiting }
  | cons timer rest ih =>
    have first : tm.links.first .next = some timer := by
      rw [placement.linked.first_eq, waiting]
      rfl
    have inNext : timer ∈ lists .next := by simp [waiting]
    have member := placement.mem_members inNext
    obtain ⟨isExpire, notPast, near⟩ := placement.waits .next timer inNext
    have dropped := placement.erase member (placement.linked.drop waiting)
    obtain ⟨slot, notBucket, notNext, added, placed⟩ :=
      dropped.add (Finset.notMem_erase timer members) (placement.ontimeout timer member)
        (isExpire ▸ near) (by simp only; omega) (.inr rfl)
    rw [Finset.insert_erase member] at placed
    obtain ⟨next, lists', returns, same, final, nextEmpty, bucketSame⟩ :=
      ih placed (by rw [Function.update_of_ne notNext.symm, waiting, List.erase_cons_head])
    refine ⟨next, lists', ?_, ⟨same.clock, same.expire, same.ontimeout⟩, final, nextEmpty, ?_⟩
    · apply Returns.iterate _ returns
      intro fuel
      simp only [cascadeLoop, first, added]
      rfl
    · rw [bucketSame, Function.update_of_ne notBucket.symm]
      apply List.erase_of_not_mem
      intro inBucket
      cases placement.linked.unique inBucket inNext

omit [DecidableEq Timer] in
theorem mem_moved {source target place : Slot} {timer : Timer}
    (member : timer ∈ Function.update (Function.update lists target (lists source)) source [] place) :
    (place = target ∧ timer ∈ lists source) ∨
      (place ≠ source ∧ place ≠ target ∧ timer ∈ lists place) := by
  by_cases atSource : place = source
  · subst atSource
    simp at member
  · rw [Function.update_of_ne atSource] at member
    by_cases atTarget : place = target
    · subst atTarget
      rw [Function.update_self] at member
      exact .inl ⟨rfl, member⟩
    · rw [Function.update_of_ne atTarget] at member
      exact .inr ⟨atSource, atTarget, member⟩

theorem Placement.moveNext {level : Fin 4}
    (placement : Placement level.val tm tick due lists none members)
    (nextEmpty : lists .next = []) (aligned : tm.clock % width level = 0) :
    Placement (level.val + 1)
      { tm with links := tm.links.move (.tvn level (tvnIndex tm.clock level)) .next } tick due
      (Function.update (Function.update lists .next (lists (.tvn level (tvnIndex tm.clock level))))
        (.tvn level (tvnIndex tm.clock level)) []) (some .next) members := by
  refine ⟨placement.linked.move (by simp) nextEmpty, placement.count, placement.ontimeout, ?_⟩
  intro slot timer member
  rcases mem_moved member with ⟨rfl, inBucket⟩ | ⟨notSource, notNext, stays⟩
  · obtain ⟨isExpire, index, before, fromClock, _⟩ := placement.waits _ timer inBucket
    have now := (base_eq_iff aligned fromClock before).mpr index.symm
    have lower := base_le level (due timer)
    have upper := lt_base_add_width level (due timer)
    have bound := width_le level
    exact ⟨isExpire, by simp only; omega, by simp only; omega⟩
  · have waits := placement.waits slot timer stays
    cases slot with
    | tv1 index => exact waits
    | bucket => exact waits
    | next => exact absurd rfl notNext
    | tvn other index =>
      obtain ⟨isExpire, isIndex, before, fromClock, strict⟩ := waits
      refine ⟨isExpire, isIndex, before, fromClock, ?_⟩
      intro cascaded
      rcases Nat.lt_succ_iff_lt_or_eq.mp cascaded with below | same
      · exact strict below
      · obtain rfl : other = level := Fin.ext same
        apply lt_of_le_of_ne fromClock
        intro now
        have current := (base_eq_iff aligned fromClock before).mp now.symm
        apply notSource
        rw [isIndex, current]

theorem twtimerCascade_returns {level : Fin 4}
    (placement : Placement level.val tm tick due lists none members)
    (nextEmpty : lists .next = []) (aligned : tm.clock % width level = 0) :
    ∃ next lists',
      Returns (fun fuel => twtimerCascade fuel tm level (tvnIndex tm.clock level))
        (tvnIndex tm.clock level, next) ∧
      Rearranged tm next ∧ Placement (level.val + 1) next tick due lists' none members ∧
      lists' .next = [] ∧ lists' .bucket = lists .bucket := by
  obtain ⟨next, lists', returns, same, placed, nextEmpty', bucketSame⟩ :=
    cascadeLoop_returns (placement.moveNext nextEmpty aligned) rfl
  refine ⟨next, lists', ?_, ⟨same.clock, same.expire, same.ontimeout⟩, placed, nextEmpty', ?_⟩
  · exact returns.bind (Returns.pure _)
  · rw [bucketSame, Function.update_of_ne (by simp), Function.update_of_ne (by simp)]

/-! ## Cascading all levels -/

omit [DecidableEq Timer] in
theorem Placement.complete (placement : Placement done tm tick due lists loose members)
    (unaligned : ∀ level : Fin 4, done ≤ level.val → tm.clock % width level ≠ 0) :
    Placement 4 tm tick due lists loose members := by
  refine { placement with waits := ?_ }
  intro slot timer member
  have waits := placement.waits slot timer member
  cases slot with
  | tv1 index => exact waits
  | bucket => exact waits
  | next => exact waits
  | tvn level index =>
    obtain ⟨isExpire, isIndex, before, fromClock, strict⟩ := waits
    refine ⟨isExpire, isIndex, before, fromClock, fun _ => ?_⟩
    by_cases cascaded : level.val < done
    · exact strict cascaded
    · exact lt_of_le_of_ne fromClock (base_ne (unaligned level (by omega)) _).symm

/-- The list has the levels from `done` to the top. -/
def LevelsFrom : Nat → List (Fin 4) → Prop
  | done, [] => done = 4
  | done, level :: levels => level.val = done ∧ LevelsFrom (done + 1) levels

theorem cascadeLevels_returns {levels : List (Fin 4)} (consecutive : LevelsFrom done levels)
    (placement : Placement done tm tick due lists none members) (nextEmpty : lists .next = [])
    (aligned : ∀ level : Fin 4, level.val = done → tm.clock % width level = 0) :
    ∃ next lists', Returns (fun fuel => cascadeLevels fuel levels tm) next ∧ Rearranged tm next ∧
      Placement 4 next tick due lists' none members ∧ lists' .next = [] ∧
      lists' .bucket = lists .bucket := by
  induction levels generalizing done tm lists with
  | nil =>
    subst consecutive
    exact ⟨tm, lists, Returns.pure tm, ⟨rfl, rfl, rfl⟩, placement, nextEmpty, rfl⟩
  | cons level levels ih =>
    obtain ⟨rfl, consecutive⟩ := consecutive
    obtain ⟨next, lists', returns, same, placed, nextEmpty', bucketSame⟩ :=
      twtimerCascade_returns placement nextEmpty (aligned level rfl)
    by_cases zero : tvnIndex tm.clock level = 0
    · have alignedNext : ∀ upper : Fin 4, upper.val = level.val + 1 →
          next.clock % width upper = 0 := by
        intro upper successor
        rw [same.clock]
        exact aligned_of_index_zero successor (aligned level rfl) zero
      obtain ⟨last, lists'', more, same', placed', nextEmpty'', bucketSame'⟩ :=
        ih consecutive placed nextEmpty' alignedNext
      refine ⟨last, lists'', ?_, same.trans same', placed', nextEmpty'',
        bucketSame'.trans bucketSame⟩
      apply returns.bind
      simpa only [zero, if_true] using more
    · refine ⟨next, lists', ?_, same, placed.complete ?_, nextEmpty', bucketSame⟩
      · apply returns.bind
        simpa only [zero, if_false] using Returns.pure next
      · intro upper above alignedUpper
        rw [same.clock] at alignedUpper
        exact zero (index_zero_of_aligned (Fin.lt_def.mpr above) alignedUpper)

/-! ## One tick -/

theorem Placement.moveBucket (placement : Placement 4 tm tick due lists none members)
    (nextEmpty : lists .next = []) (bucketEmpty : lists .bucket = [])
    (fits : tm.clock + 1 < 2 ^ 64) :
    Placement 0
      { tm with links := tm.links.move (.tv1 (tvrIndex tm.clock)) .bucket
                clock := (tm.clock + 1) % 2 ^ 64 } tm.clock due
      (Function.update (Function.update lists .bucket (lists (.tv1 (tvrIndex tm.clock))))
        (.tv1 (tvrIndex tm.clock)) []) (some .bucket) members := by
  refine ⟨placement.linked.move (by simp) bucketEmpty, placement.count, placement.ontimeout, ?_⟩
  rw [Nat.mod_eq_of_lt fits]
  intro slot timer member
  rcases mem_moved member with ⟨rfl, inBucket⟩ | ⟨notSource, notBucket, stays⟩
  · obtain ⟨notPast, near, index⟩ := placement.waits _ timer inBucket
    have same := (tvrIndex_eq_iff _ _).mp index
    change due timer = tm.clock
    omega
  · have waits := placement.waits slot timer stays
    cases slot with
    | tv1 index =>
      obtain ⟨notPast, near, isIndex⟩ := waits
      have later : due timer ≠ tm.clock := by
        intro now
        apply notSource
        rw [isIndex, now]
      exact ⟨by simp only; omega, by simp only; omega, isIndex⟩
    | bucket => exact absurd rfl notBucket
    | next =>
      rw [nextEmpty] at stays
      cases stays
    | tvn level index =>
      obtain ⟨isExpire, isIndex, before, _, strict⟩ := waits
      have later := strict level.isLt
      exact ⟨isExpire, isIndex, by simp only; omega, later, fun below => by omega⟩

theorem processTick_returns (placement : Placement 0 tm tick due lists none members)
    (nextEmpty : lists .next = []) (bucketEmpty : lists .bucket = [])
    (fits : tm.clock + 1 < 2 ^ 64) :
    ∃ next lists', Returns (fun fuel => processTick fuel tm) next ∧
      next.clock = tm.clock + 1 ∧ next.expire = tm.expire ∧ next.ontimeout = tm.ontimeout ∧
      Placement 0 next tm.clock due lists' (some .bucket) members ∧ lists' .next = [] := by
  have cascaded : ∃ middle lists', Returns (fun fuel =>
      if tvrIndex tm.clock = 0 then cascadeLevels fuel [0, 1, 2, 3] tm else .ok tm) middle ∧
      Rearranged tm middle ∧ Placement 4 middle tick due lists' none members ∧
      lists' .next = [] ∧ lists' .bucket = [] := by
    by_cases zero : tvrIndex tm.clock = 0
    · have aligned : ∀ level : Fin 4, level.val = 0 → tm.clock % width level = 0 := by
        intro level lowest
        obtain rfl : level = 0 := Fin.ext lowest
        change tm.clock % 256 = 0
        simpa [tvrIndex, Fin.ext_iff] using zero
      have levels : LevelsFrom 0 [0, 1, 2, 3] := ⟨rfl, rfl, rfl, rfl, rfl⟩
      obtain ⟨middle, lists', returns, same, placed, nextEmpty', bucketSame⟩ :=
        cascadeLevels_returns levels placement nextEmpty aligned
      refine ⟨middle, lists', ?_, same, placed, nextEmpty', bucketSame.trans bucketEmpty⟩
      simpa only [zero, if_true] using returns
    · refine ⟨tm, lists, ?_, ⟨rfl, rfl, rfl⟩, placement.complete ?_, nextEmpty, bucketEmpty⟩
      · simpa only [zero, if_false] using Returns.pure tm
      · intro level _ aligned
        exact zero (index_zero_of_level_aligned aligned)
  obtain ⟨middle, lists', returns, same, placed, nextEmpty', bucketEmpty'⟩ := cascaded
  simp only [processTick]
  rw [← same.clock] at returns fits ⊢
  refine ⟨_, _, returns.bind (Returns.pure _), Nat.mod_eq_of_lt fits, same.expire, same.ontimeout,
    placed.moveBucket nextEmpty' bucketEmpty' fits, ?_⟩
  rw [Function.update_of_ne (by simp), Function.update_of_ne (by simp)]
  exact nextEmpty'

/-! ## The loop of `twtimer_process` -/

omit [DecidableEq Timer] in
theorem Placement.retick (placement : Placement done tm tick due lists loose members)
    (bucketEmpty : lists .bucket = []) (other : Nat) :
    Placement done tm other due lists loose members := by
  refine { placement with waits := ?_ }
  intro slot timer member
  have waits := placement.waits slot timer member
  cases slot with
  | bucket =>
    rw [bucketEmpty] at member
    cases member
  | tv1 index => exact waits
  | tvn level index => exact waits
  | next => exact waits

/-- What `twtimer_process` has done when it makes a callback or returns. -/
def Processed (tm : TimeWheel Timer) (due : Timer → Nat) (members : Finset Timer)
    (running : Running) (lists : Slot → List Timer) :
    Outcome Timer × TimeWheel Timer → Prop
  | (.callback timer later, next) =>
    later.clock = running.clock ∧ next.clock = later.tick + 1 ∧ tm.clock ≤ next.clock ∧
      timer ∈ members ∧ due timer = later.tick ∧
      Placement 0 next later.tick due lists none (members.erase timer)
  | (.returned _, next) =>
    next.clock = max tm.clock running.clock ∧ lists .bucket = [] ∧
      ∀ tick, Placement 0 next tick due lists none members

/-- The loop over the ticks ends. -/
theorem processLoop_returns {running : Running}
    (placement : Placement 0 tm running.tick due lists loose members)
    (onStack : loose = none ∨ loose = some .bucket) (nextEmpty : lists .next = [])
    (fits : running.clock < 2 ^ 64)
    (ticked : lists .bucket = [] ∨ tm.clock = running.tick + 1) :
    ∃ result lists', Returns (fun fuel => processLoop fuel tm running) result ∧
      result.2.expire = tm.expire ∧ result.2.ontimeout = tm.ontimeout ∧ lists' .next = [] ∧
      Processed tm due members running lists' result := by
  induction remaining : running.clock - tm.clock using Nat.strong_induction_on
    generalizing tm running lists loose with
  | h remaining ih =>
    cases waiting : lists .bucket with
    | cons timer rest =>
      have inBucket : timer ∈ lists .bucket := by simp [waiting]
      have member := placement.mem_members inBucket
      have callback := placement.ontimeout timer member
      have first : tm.links.first .bucket = some timer := by
        rw [placement.linked.first_eq, waiting]
        rfl
      have others : ∀ place ≠ Slot.bucket, loose ≠ some place := by
        rintro place notBucket rfl
        simp [notBucket] at onStack
      have popped := placement.erase member (placement.linked.pop waiting others)
      have clock := ticked.resolve_left (by simp [waiting])
      refine ⟨(.callback timer running,
        { tm with links := tm.links.pop .bucket timer, count := tm.count - 1 }), _, ?_, rfl, rfl, ?_,
        rfl, clock, le_refl _, member, placement.waits .bucket timer inBucket, popped⟩
      · apply Returns.iterate _ (Returns.pure _)
        intro fuel
        simp only [processLoop, first, callback, if_true]
      · simp [nextEmpty]
    | nil =>
      have first : tm.links.first .bucket = none := by
        rw [placement.linked.first_eq, waiting]
        rfl
      have tight : Placement 0 tm running.tick due lists none members := by
        rcases onStack with rfl | rfl
        · exact placement
        · exact { placement with linked := placement.linked.tighten waiting }
      by_cases before : tm.clock < running.clock
      · obtain ⟨middle, lists', tickReturns, clock, expire, ontimeout, placed, nextEmpty'⟩ :=
          processTick_returns tight nextEmpty waiting (by omega)
        obtain ⟨⟨outcome, next⟩, lists'', returns, expire', ontimeout', nextEmpty'', processed⟩ :=
          @ih (running.clock - middle.clock) (by omega) middle lists' _
            { running with tick := tm.clock } placed (.inr rfl) nextEmpty' fits (.inr clock) rfl
        refine ⟨(outcome, next), lists'', ?_, expire'.trans expire, ontimeout'.trans ontimeout,
          nextEmpty'', ?_⟩
        · have unfold : ∀ fuel, processLoop (fuel + 1) tm running =
              processTick fuel tm >>= fun next =>
                processLoop fuel next { running with tick := tm.clock } := by
            intro fuel
            simp only [processLoop, first, before, if_true]
          exact Returns.iterate unfold (tickReturns.bind returns)
        · cases outcome with
          | callback timer later =>
            obtain ⟨sameClock, nextClock, later, rest⟩ := processed
            exact ⟨sameClock, nextClock, by omega, rest⟩
          | returned value =>
            obtain ⟨reached, rest⟩ := processed
            refine ⟨reached.trans ?_, rest⟩
            rw [clock, max_eq_right before, max_eq_right before.le]
      · refine ⟨(.returned (Int.bmod ((tm.clock : Int) - running.clock) (2 ^ 32)), tm), lists, ?_,
          rfl, rfl, nextEmpty, (max_eq_left (by omega)).symm, waiting, tight.retick waiting⟩
        apply Returns.iterate _ (Returns.pure _)
        intro fuel
        simp only [processLoop, first, before, if_false]

end CLibs.Twtimer
