import Mathlib.Data.Finset.Erase
import CLibs.IntrusiveLists

/-!
# Operations on intrusive lists

Each operation on the memory is an operation on the lists it holds: `push`
puts an item in front, `unlink` erases one, `move` hands a list over to another
head, and `pop` and `drop` take the first item off.
-/

namespace CLibs

open List

namespace Links

open List

variable {Head Item : Type*} [DecidableEq Head] [DecidableEq Item]
variable {links : Links Head Item} {lists : Head → List Item} {loose : Option Head}
variable {members : Finset Item}

omit [DecidableEq Head] [DecidableEq Item] in
theorem Linked.first_eq (linked : links.Linked lists loose members) (head : Head) :
    links.first head = (lists head).head? := by
  have chain := linked.loose_chain head
  cases items : lists head with
  | nil => rw [items] at chain; exact chain
  | cons item rest => rw [items] at chain; exact chain.1

variable {head : Head} {item : Item}

omit [DecidableEq Head] [DecidableEq Item] in
theorem Linked.mem_of_first (linked : links.Linked lists loose members)
    (first : links.first head = some item) : item ∈ lists head := by
  rw [linked.first_eq head] at first
  exact mem_of_head? first

omit [DecidableEq Head] [DecidableEq Item] in
theorem Linked.notMem_lists (linked : links.Linked lists loose members) (outside : item ∉ members)
    (head : Head) : item ∉ lists head :=
  fun member => outside ((linked.mem_members item).mpr ⟨head, member⟩)

omit [DecidableEq Head] [DecidableEq Item] in
theorem Linked.tighten (linked : links.Linked lists (some head) members) (empty : lists head = []) :
    links.Linked lists none members := by
  refine { linked with chain := fun place _ => ?_ }
  by_cases same : head = place
  · subst same
    have chain := linked.loose_chain head
    rw [empty] at chain ⊢
    exact chain
  · exact linked.chain place (by simpa using same)

/-- The list of the head begins with the new item. -/
theorem Linked.push_chain (linked : links.Linked lists loose members) (outside : item ∉ members)
    (tight : loose ≠ some head) : (links.push head item).Chain (.head head) (item :: lists head) := by
  have apart := linked.notMem_lists outside head
  have notFirst : links.first head ≠ some item := fun first => apart (linked.mem_of_first first)
  refine ⟨by simp [load], push_pprev_self links head item notFirst, ?_⟩
  have chain := linked.chain head tight
  have nodup := linked.nodup head
  cases items : lists head with
  | nil =>
    rw [items] at chain
    change (links.push head item).next item = none
    rw [push_next, Function.update_self]
    exact chain
  | cons old rest =>
    rw [items] at chain nodup apart
    have first : links.first head = some old := chain.1
    have oldApart : old ≠ item := fun same => apart (same ▸ mem_cons_self)
    refine ⟨?_, push_pprev_first links head item first, chain.2.2.congr ?_ ?_⟩
    · change (links.push head item).next item = some old
      rw [push_next, Function.update_self, first]
    · change (links.push head item).next old = links.next old
      rw [push_next, Function.update_of_ne oldApart]
    · intro other otherMem
      have otherApart : other ≠ item := fun same => apart (same ▸ mem_cons_of_mem old otherMem)
      refine ⟨by rw [push_next, Function.update_of_ne otherApart], ?_⟩
      apply push_pprev_of_ne links head item otherApart
      rw [first]
      rintro ⟨⟩
      exact (nodup_cons.mp nodup).1 otherMem

/-- The other lists have neither the item nor the old first one. -/
theorem Linked.push_frame (linked : links.Linked lists loose members) (outside : item ∉ members)
    {place : Head} (different : place ≠ head) :
    (links.push head item).load (.head place) = links.load (.head place) ∧
      ∀ other ∈ lists place, (links.push head item).next other = links.next other ∧
        (links.push head item).pprev other = links.pprev other := by
  constructor
  · change (links.push head item).first place = links.first place
    rw [push_first, Function.update_of_ne different]
  · intro other otherMem
    have otherApart : other ≠ item := by
      rintro rfl
      exact linked.notMem_lists outside place otherMem
    refine ⟨by rw [push_next, Function.update_of_ne otherApart], ?_⟩
    apply push_pprev_of_ne links head item otherApart
    intro first
    exact different (linked.unique otherMem (linked.mem_of_first first))

omit [DecidableEq Item] in
theorem mem_push {place : Head} {other : Item} :
    other ∈ Function.update lists head (item :: lists head) place ↔
      place = head ∧ other = item ∨ other ∈ lists place := by
  by_cases same : place = head
  · subst same
    rw [Function.update_self, mem_cons, and_iff_right rfl]
  · rw [Function.update_of_ne same]
    exact (or_iff_right fun both => same both.1).symm

theorem Linked.push (linked : links.Linked lists loose members) (outside : item ∉ members)
    (tight : loose ≠ some head) :
    (links.push head item).Linked (Function.update lists head (item :: lists head)) loose
      (insert item members) := by
  have headChain := linked.push_chain outside tight
  constructor
  · intro place placeTight
    by_cases same : place = head
    · subst same
      rw [Function.update_self]
      exact headChain
    · obtain ⟨sameCell, sameItems⟩ := linked.push_frame outside same
      rw [Function.update_of_ne same]
      exact (linked.chain place placeTight).congr sameCell sameItems
  · intro place
    by_cases same : place = head
    · subst same
      rw [Function.update_self]
      exact headChain.loose
    · obtain ⟨sameCell, sameItems⟩ := linked.push_frame outside same
      rw [Function.update_of_ne same]
      exact (linked.loose_chain place).congr sameCell sameItems
  · intro place
    by_cases same : place = head
    · subst same
      rw [Function.update_self]
      exact nodup_cons.mpr ⟨linked.notMem_lists outside place, linked.nodup place⟩
    · rw [Function.update_of_ne same]
      exact linked.nodup place
  · intro other first second inFirst inSecond
    rcases mem_push.mp inFirst with ⟨rfl, rfl⟩ | first
    · rcases mem_push.mp inSecond with ⟨same, -⟩ | second
      · exact same.symm
      · exact absurd second (linked.notMem_lists outside _)
    · rcases mem_push.mp inSecond with ⟨rfl, rfl⟩ | second
      · exact absurd first (linked.notMem_lists outside _)
      · exact linked.unique first second
  · intro other
    simp only [Finset.mem_insert, linked.mem_members, mem_push]
    constructor
    · rintro (rfl | ⟨place, member⟩)
      · exact ⟨head, .inl ⟨rfl, rfl⟩⟩
      · exact ⟨place, .inr member⟩
    · rintro ⟨place, ⟨-, same⟩ | member⟩
      · exact .inl same
      · exact .inr ⟨place, member⟩
  · intro other otherOutside
    rw [Finset.mem_insert, not_or] at otherOutside
    have before := linked.unlinked other otherOutside.2
    refine ⟨?_, ?_⟩
    · rw [push_pprev_of_ne links head item otherOutside.1]
      · exact before.1
      · intro first
        exact linked.notMem_lists otherOutside.2 head (linked.mem_of_first first)
    · rw [push_next, Function.update_of_ne otherOutside.1]
      exact before.2

/-! ## Taking an item out -/

variable {cell : Cell Head Item} {rest : List Item}

omit [DecidableEq Head] [DecidableEq Item] in
theorem Chain.of_tail {other : Links Head Item} (tail : links.Chain (.next item) rest)
    (nodup : rest.Nodup) (loaded : other.load cell = links.next item)
    (back : ∀ second, links.next item = some second → other.pprev second = some cell)
    (sameNext : ∀ member ∈ rest, other.next member = links.next member)
    (samePprev : ∀ member ∈ rest, links.next item ≠ some member →
      other.pprev member = links.pprev member) :
    other.Chain cell rest := by
  cases rest with
  | nil => exact loaded.trans tail
  | cons second rest =>
    have follows : links.next item = some second := tail.1
    apply And.intro (loaded.trans follows)
    apply And.intro (back second follows)
    apply tail.2.2.congr
    · exact sameNext second mem_cons_self
    · intro member inRest
      have inside : member ∈ second :: rest := mem_cons_of_mem _ inRest
      refine ⟨sameNext member inside, samePprev member inside ?_⟩
      rw [follows]
      rintro ⟨⟩
      exact (nodup_cons.mp nodup).1 inRest

omit [DecidableEq Head] in
theorem Linked.erase (linked : links.Linked lists loose members) {other : Links Head Item}
    {loose' : Option Head}
    (chain : ∀ head, loose' ≠ some head → other.Chain (.head head) ((lists head).erase item))
    (looseChain : ∀ head, other.LooseChain (.head head) ((lists head).erase item))
    (cleared : other.pprev item = none ∧ other.next item = none)
    (same : ∀ outside ∉ members, outside ≠ item →
      other.pprev outside = links.pprev outside ∧ other.next outside = links.next outside) :
    other.Linked (fun head => (lists head).erase item) loose' (members.erase item) := by
  constructor
  · exact chain
  · exact looseChain
  · intro head
    exact (linked.nodup head).erase item
  · intro member first second inFirst inSecond
    exact linked.unique (mem_of_mem_erase inFirst) (mem_of_mem_erase inSecond)
  · intro member
    rw [Finset.mem_erase, linked.mem_members]
    constructor
    · rintro ⟨apart, head, inList⟩
      exact ⟨head, (mem_erase_of_ne apart).mpr inList⟩
    · rintro ⟨head, inList⟩
      have both := (linked.nodup head).mem_erase_iff.mp inList
      exact ⟨both.1, head, both.2⟩
  · intro outside notMember
    by_cases atItem : outside = item
    · subst atItem
      exact cleared
    · have before : outside ∉ members := fun member =>
        notMember (Finset.mem_erase.mpr ⟨atItem, member⟩)
      have fields := same outside before atItem
      rw [fields.1, fields.2]
      exact linked.unlinked outside before

omit [DecidableEq Head] in
theorem Linked.erase_of_ne (linked : links.Linked lists loose members) {place : Head}
    (member : item ∈ lists head) (different : place ≠ head) :
    (lists place).erase item = lists place :=
  erase_of_not_mem fun inside => different (linked.unique inside member)

variable {successor : Item}

omit [DecidableEq Head] [DecidableEq Item] in
theorem Linked.next_mem (linked : links.Linked lists loose members) (member : item ∈ lists head)
    (follows : links.next item = some successor) :
    successor ∈ lists head := by
  have chain := linked.loose_chain head
  cases items : lists head with
  | nil => simp [items] at member
  | cons first rest =>
    rw [items] at chain member
    rcases mem_cons.mp member with rfl | inRest
    · cases rest with
      | nil => exact absurd (follows.symm.trans chain.2) (by simp)
      | cons second rest =>
        have same : second = successor := Option.some.inj (chain.2.1.symm.trans follows)
        simp [same]
    · exact mem_cons_of_mem _ (chain.2.pprev_next inRest follows).1

section Fields

variable (links) (head : Head) (item : Item)

theorem pop_load_head : (links.pop head item).load (.head head) = links.next item := by
  rw [pop, clear_load_of_ne _ _ (by simp), store_load_self, setPprevOf_next]

theorem pop_load_of_ne (notHead : cell ≠ .head head) (notItem : cell ≠ .next item) :
    (links.pop head item).load cell = links.load cell := by
  rw [pop, clear_load_of_ne _ _ notItem, store_load_of_ne _ notHead, setPprevOf_load]

variable {other : Item}

theorem pop_pprev_of_ne (notItem : other ≠ item) (notNext : links.next item ≠ some other) :
    (links.pop head item).pprev other = links.pprev other := by
  rw [pop, clear_pprev_of_ne _ _ notItem, store_pprev, setPprevOf_pprev_of_ne _ notNext]

theorem pop_pprev_next (notItem : successor ≠ item) (follows : links.next item = some successor) :
    (links.pop head item).pprev successor = some (.head head) := by
  rw [pop, clear_pprev_of_ne _ _ notItem, store_pprev, follows, setPprevOf_pprev_self]

theorem drop_load_head : (links.drop head item).load (.head head) = links.next item := by
  rw [drop, clear_load_of_ne _ _ (by simp), store_load_self]

theorem drop_load_of_ne (notHead : cell ≠ .head head) (notItem : cell ≠ .next item) :
    (links.drop head item).load cell = links.load cell := by
  rw [drop, clear_load_of_ne _ _ notItem, store_load_of_ne _ notHead]

theorem drop_pprev_of_ne (notItem : other ≠ item) :
    (links.drop head item).pprev other = links.pprev other := by
  rw [drop, clear_pprev_of_ne _ _ notItem, store_pprev]

end Fields

theorem Linked.pop (linked : links.Linked lists loose members) (items : lists head = item :: rest)
    (others : ∀ place ≠ head, loose ≠ some place) :
    (links.pop head item).Linked (fun place => (lists place).erase item) none
      (members.erase item) := by
  have member : item ∈ lists head := by simp [items]
  have headNodup := linked.nodup head
  have headChain := linked.loose_chain head
  rw [items] at headNodup headChain
  have apart : ∀ other ∈ rest, other ≠ item := by
    rintro other inRest rfl
    exact (nodup_cons.mp headNodup).1 inRest
  have nextIn : ∀ successor, links.next item = some successor → successor ∈ lists head :=
    fun successor follows => linked.next_mem member follows
  have sameNext : ∀ other ≠ item, (links.pop head item).next other = links.next other := by
    intro other notItem
    change (links.pop head item).load (.next other) = links.load (.next other)
    exact pop_load_of_ne links head item (by simp) (by simpa using notItem)
  have tight : ∀ place, (links.pop head item).Chain (.head place) ((lists place).erase item) := by
    intro place
    by_cases same : place = head
    · subst same
      rw [items, erase_cons_head]
      apply Chain.of_tail headChain.2 (nodup_cons.mp headNodup).2
      · exact pop_load_head links place item
      · intro second follows
        have inRest : second ∈ rest := by
          cases rest with
          | nil => exact absurd (follows.symm.trans headChain.2) (by simp)
          | cons first rest =>
            have same := Option.some.inj (headChain.2.1.symm.trans follows)
            simp [same]
        exact pop_pprev_next links place item (apart second inRest) follows
      · intro other inRest
        exact sameNext other (apart other inRest)
      · intro other inRest notNext
        exact pop_pprev_of_ne links place item (apart other inRest) notNext
    · rw [linked.erase_of_ne member same]
      apply (linked.chain place (others place same)).congr
      · exact pop_load_of_ne links head item (by simpa using same) (by simp)
      · intro other inPlace
        have notItem : other ≠ item := by
          rintro rfl
          exact same (linked.unique inPlace member)
        refine ⟨sameNext other notItem, pop_pprev_of_ne links head item notItem ?_⟩
        intro follows
        exact same (linked.unique inPlace (nextIn other follows))
  apply linked.erase
  · intro place _
    exact tight place
  · intro place
    exact (tight place).loose
  · exact ⟨clear_pprev_self _ item, clear_load_self _ item⟩
  · intro outside notMember notItem
    refine ⟨pop_pprev_of_ne links head item notItem ?_, sameNext outside notItem⟩
    intro follows
    exact linked.notMem_lists notMember head (nextIn outside follows)

theorem Linked.drop (linked : links.Linked lists (some head) members)
    (items : lists head = item :: rest) :
    (links.drop head item).Linked (fun place => (lists place).erase item) (some head)
      (members.erase item) := by
  have member : item ∈ lists head := by simp [items]
  have headNodup := linked.nodup head
  have headChain := linked.loose_chain head
  rw [items] at headNodup headChain
  have same : ∀ other ≠ item, (links.drop head item).next other = links.next other ∧
      (links.drop head item).pprev other = links.pprev other := by
    intro other notItem
    apply And.intro _ (drop_pprev_of_ne links head item notItem)
    change (links.drop head item).load (.next other) = links.load (.next other)
    exact drop_load_of_ne links head item (by simp) (by simpa using notItem)
  have chain : ∀ place ≠ head,
      (links.drop head item).Chain (.head place) ((lists place).erase item) := by
    intro place different
    rw [linked.erase_of_ne member different]
    apply (linked.chain place (by simpa using different.symm)).congr
    · exact drop_load_of_ne links head item (by simpa using different) (by simp)
    · rintro other inPlace
      apply same
      rintro rfl
      exact different (linked.unique inPlace member)
  apply linked.erase
  · intro place tight
    exact chain place fun equal => tight (congrArg some equal.symm)
  · intro place
    by_cases equal : place = head
    · subst equal
      rw [items, erase_cons_head]
      have inRest : ∀ other ∈ rest, other ≠ item := by
        rintro other inside rfl
        exact (nodup_cons.mp headNodup).1 inside
      cases rest with
      | nil => exact (drop_load_head links place item).trans headChain.2
      | cons second rest =>
        apply And.intro ((drop_load_head links place item).trans headChain.2.1)
        apply headChain.2.2.2.congr
        · exact (same second (inRest second mem_cons_self)).1
        · intro other inside
          exact same other (inRest other (mem_cons_of_mem _ inside))
    · exact (chain place equal).loose
  · exact ⟨clear_pprev_self _ item, clear_load_self _ item⟩
  · intro outside _ notItem
    exact ⟨(same outside notItem).2, (same outside notItem).1⟩

section UnlinkFields

variable {item : Item} {cell : Cell Head Item} (back : links.pprev item = some cell)

include back

theorem unlink_eq :
    links.unlink item =
      ((links.store cell (links.next item)).setPprevOf (links.next item) (some cell)).clear
        item := by
  have stored : (links.store cell (links.next item)).next item = links.next item := by
    cases cell with
    | head head => rfl
    | next before =>
      by_cases same : item = before
      · subst same
        exact Function.update_self _ _ _
      · exact Function.update_of_ne same _ _
  simp only [unlink, back, store_pprev, stored]

theorem unlink_load_cell (notItem : cell ≠ .next item) :
    (links.unlink item).load cell = links.next item := by
  rw [unlink_eq back, clear_load_of_ne _ _ notItem, setPprevOf_load, store_load_self]

theorem unlink_load_of_ne {place : Cell Head Item} (notCell : place ≠ cell)
    (notItem : place ≠ .next item) : (links.unlink item).load place = links.load place := by
  rw [unlink_eq back, clear_load_of_ne _ _ notItem, setPprevOf_load, store_load_of_ne _ notCell]

theorem unlink_pprev_of_ne (notItem : other ≠ item) (notNext : links.next item ≠ some other) :
    (links.unlink item).pprev other = links.pprev other := by
  rw [unlink_eq back, clear_pprev_of_ne _ _ notItem, setPprevOf_pprev_of_ne _ notNext, store_pprev]

theorem unlink_pprev_next (notItem : successor ≠ item)
    (follows : links.next item = some successor) :
    (links.unlink item).pprev successor = some cell := by
  rw [unlink_eq back, clear_pprev_of_ne _ _ notItem, follows, setPprevOf_pprev_self]

end UnlinkFields

theorem Chain.unlink {items : List Item} (chain : links.Chain cell items) (nodup : items.Nodup)
    (member : item ∈ items) (fresh : ∀ before, cell = .next before → before ∉ items) :
    (links.unlink item).Chain cell (items.erase item) := by
  induction items generalizing cell with
  | nil => simp at member
  | cons first rest ih =>
    obtain ⟨firstFresh, restNodup⟩ := nodup_cons.mp nodup
    by_cases atFirst : first = item
    · subst atFirst
      have back : links.pprev first = some cell := chain.2.1
      have notFirst : cell ≠ .next first := fun same => fresh first same mem_cons_self
      have apart : ∀ other ∈ rest, other ≠ first := by
        rintro other inRest rfl
        exact firstFresh inRest
      rw [erase_cons_head]
      apply Chain.of_tail chain.2.2 restNodup (unlink_load_cell back notFirst)
      · intro second follows
        have inRest : second ∈ rest := by
          have inside := (chain.pprev_next member follows).1
          rcases mem_cons.mp inside with rfl | inRest
          · have points := (chain.pprev_next member follows).2
            exact absurd (Option.some.inj (back.symm.trans points)) notFirst
          · exact inRest
        exact unlink_pprev_next back (apart second inRest) follows
      · intro other inRest
        change (links.unlink first).load (.next other) = links.load (.next other)
        apply unlink_load_of_ne back
        · rintro rfl
          exact fresh other rfl (mem_cons_of_mem _ inRest)
        · simpa using apart other inRest
      · intro other inRest notNext
        exact unlink_pprev_of_ne back (apart other inRest) notNext
    · have inRest : item ∈ rest := (mem_cons.mp member).resolve_left (Ne.symm atFirst)
      obtain ⟨place, back, _⟩ := chain.2.2.load_pprev inRest
      rw [erase_cons_tail (by simpa using atFirst)]
      refine ⟨?_, ?_, ?_⟩
      · rw [unlink_load_of_ne back, chain.1]
        · rintro rfl
          rcases chain.2.2.pprev_cases inRest with points | ⟨before, beforeMem, points⟩
          · exact fresh first (Option.some.inj (back.symm.trans points)) mem_cons_self
          · exact fresh before (Option.some.inj (back.symm.trans points))
              (mem_cons_of_mem _ beforeMem)
        · rintro rfl
          exact fresh item rfl member
      · rw [unlink_pprev_of_ne back atFirst, chain.2.1]
        intro follows
        exact firstFresh (chain.2.2.pprev_next inRest follows).1
      · apply ih chain.2.2 restNodup inRest
        rintro before ⟨⟩
        exact firstFresh

theorem Linked.unlink (linked : links.Linked lists none members) (item : Item) :
    (links.unlink item).Linked (fun head => (lists head).erase item) none
      (members.erase item) := by
  by_cases isMember : item ∈ members
  · obtain ⟨head, member⟩ := (linked.mem_members item).mp isMember
    have chain := linked.chain head (by simp)
    obtain ⟨cell, back, _⟩ := chain.load_pprev member
    have cellInside : cell = .head head ∨ ∃ before ∈ lists head, cell = .next before := by
      rcases chain.pprev_cases member with points | ⟨before, beforeMem, points⟩
      · exact .inl (Option.some.inj (back.symm.trans points))
      · exact .inr ⟨before, beforeMem, Option.some.inj (back.symm.trans points)⟩
    -- what is outside the list of the item is left as it is
    have sameNext : ∀ other ∉ lists head, (links.unlink item).next other = links.next other := by
      intro other outside
      change (links.unlink item).load (.next other) = links.load (.next other)
      apply unlink_load_of_ne back
      · rintro rfl
        rcases cellInside with isHead | ⟨before, beforeMem, isBefore⟩
        · cases isHead
        · cases isBefore
          exact outside beforeMem
      · rintro ⟨⟩
        exact outside member
    have samePprev : ∀ other ∉ lists head,
        (links.unlink item).pprev other = links.pprev other := by
      intro other outside
      apply unlink_pprev_of_ne back
      · rintro rfl
        exact outside member
      · intro follows
        exact outside (linked.next_mem member follows)
    have tight : ∀ place,
        (links.unlink item).Chain (.head place) ((lists place).erase item) := by
      intro place
      by_cases same : place = head
      · subst same
        exact chain.unlink (linked.nodup place) member (by simp)
      · rw [linked.erase_of_ne member same]
        apply (linked.chain place (by simp)).congr
        · apply unlink_load_of_ne back
          · rintro rfl
            rcases cellInside with isHead | ⟨before, _, isBefore⟩
            · cases isHead
              exact same rfl
            · cases isBefore
          · simp
        · intro other inPlace
          have outside : other ∉ lists head := fun inHead =>
            same (linked.unique inPlace inHead)
          exact ⟨sameNext other outside, samePprev other outside⟩
    apply linked.erase
    · intro place _
      exact tight place
    · intro place
      exact (tight place).loose
    · exact ⟨clear_pprev_self _ item, clear_load_self _ item⟩
    · intro outside notMember _
      have notIn := linked.notMem_lists notMember head
      exact ⟨samePprev outside notIn, sameNext outside notIn⟩
  · have fields := linked.unlinked item isMember
    have noop : links.unlink item = links := by
      have next : Function.update links.next item none = links.next :=
        Function.update_eq_self_iff.mpr fields.2.symm
      have pprev : Function.update links.pprev item none = links.pprev :=
        Function.update_eq_self_iff.mpr fields.1.symm
      simp only [Links.unlink, fields.1, fields.2, setPprevOf, clear, store, setPprev, next, pprev]
    have sameLists : (fun head => (lists head).erase item) = lists := by
      funext head
      exact erase_of_not_mem (linked.notMem_lists isMember head)
    rw [noop, sameLists, Finset.erase_eq_of_notMem isMember]
    exact linked

theorem Linked.move (linked : links.Linked lists none members) {source target : Head}
    (different : source ≠ target) (empty : lists target = []) :
    (links.move source target).Linked
      (Function.update (Function.update lists target (lists source)) source []) (some target)
      members := by
  have lists_of_ne : ∀ place, place ≠ source → place ≠ target →
      Function.update (Function.update lists target (lists source)) source [] place =
        lists place := by
    intro place notSource notTarget
    rw [Function.update_of_ne notSource, Function.update_of_ne notTarget]
  have listsSource : Function.update (Function.update lists target (lists source)) source []
      source = [] := Function.update_self _ _ _
  have listsTarget : Function.update (Function.update lists target (lists source)) source []
      target = lists source := by
    rw [Function.update_of_ne different.symm, Function.update_self]
  generalize Function.update (Function.update lists target (lists source)) source [] = moved at *
  -- the list that an item is in after the move
  have origin : ∀ {item place}, item ∈ moved place →
      (place = target ∧ item ∈ lists source) ∨
        (place ≠ target ∧ place ≠ source ∧ item ∈ lists place) := by
    intro item place member
    by_cases atSource : place = source
    · subst atSource
      simp [listsSource] at member
    by_cases atTarget : place = target
    · subst atTarget
      exact .inl ⟨rfl, listsTarget ▸ member⟩
    · exact .inr ⟨atTarget, atSource, lists_of_ne place atSource atTarget ▸ member⟩
  have loadSource : (links.move source target).load (.head source) = none :=
    store_load_self _ _ _
  have loadTarget : (links.move source target).load (.head target) = links.first source := by
    rw [Links.move, store_load_of_ne _ (by simpa using different.symm), store_load_self]
  have loadOther : ∀ place, place ≠ source → place ≠ target →
      (links.move source target).load (.head place) = links.load (.head place) := by
    intro place notSource notTarget
    rw [Links.move, store_load_of_ne _ (by simpa using notSource),
      store_load_of_ne _ (by simpa using notTarget)]
  have chain : ∀ place ≠ target, (links.move source target).Chain (.head place) (moved place) := by
    intro place notTarget
    by_cases atSource : place = source
    · subst atSource
      rw [listsSource]
      exact loadSource
    · rw [lists_of_ne place atSource notTarget]
      exact (linked.chain place (by simp)).congr (loadOther place atSource notTarget)
        fun _ _ => ⟨rfl, rfl⟩
  constructor
  · intro place tight
    exact chain place fun equal => tight (congrArg some equal.symm)
  · intro place
    by_cases atTarget : place = target
    · subst atTarget
      rw [listsTarget]
      have before := linked.loose_chain source
      cases items : lists source with
      | nil =>
        rw [items] at before
        exact loadTarget.trans before
      | cons first rest =>
        rw [items] at before
        exact ⟨loadTarget.trans before.1, before.2.congr rfl fun _ _ => ⟨rfl, rfl⟩⟩
    · exact (chain place atTarget).loose
  · intro place
    by_cases atSource : place = source
    · simp [atSource, listsSource]
    by_cases atTarget : place = target
    · rw [atTarget, listsTarget]
      exact linked.nodup source
    · rw [lists_of_ne place atSource atTarget]
      exact linked.nodup place
  · intro item first second inFirst inSecond
    rcases origin inFirst with ⟨rfl, fromSource⟩ | ⟨_, notSource, fromFirst⟩
    · rcases origin inSecond with ⟨rfl, _⟩ | ⟨_, notSource, fromSecond⟩
      · rfl
      · exact absurd (linked.unique fromSecond fromSource) notSource
    · rcases origin inSecond with ⟨rfl, fromSource⟩ | ⟨_, _, fromSecond⟩
      · exact absurd (linked.unique fromFirst fromSource) notSource
      · exact linked.unique fromFirst fromSecond
  · intro item
    rw [linked.mem_members]
    constructor
    · rintro ⟨place, member⟩
      by_cases atSource : place = source
      · subst atSource
        exact ⟨target, listsTarget ▸ member⟩
      · have atTarget : place ≠ target := by
          rintro rfl
          simp [empty] at member
        exact ⟨place, (lists_of_ne place atSource atTarget).symm ▸ member⟩
    · rintro ⟨place, member⟩
      rcases origin member with ⟨_, fromSource⟩ | ⟨_, _, fromPlace⟩
      · exact ⟨source, fromSource⟩
      · exact ⟨place, fromPlace⟩
  · exact linked.unlinked

end Links

end CLibs
