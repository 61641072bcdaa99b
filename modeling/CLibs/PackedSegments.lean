import CLibs.CheckedBuffers
import Mathlib.Order.Interval.Finset.Nat
import Mathlib.Tactic.Linarith

/-!
# Segments packed in a buffer

A packed store keeps byte strings of different lengths one behind the other in a single buffer.
`Tiles` says that every address below the extent belongs to at most one segment, and to one if the
store is `whole`.
-/

namespace CLibs

open List

/-- A part of the memory. -/
structure Segment where
  bytes : Nat
  data : Nat
  deriving DecidableEq, Repr

namespace Segment

open List

def Covers (segment : Segment) (address : Nat) : Prop :=
  segment.data ≤ address ∧ address < segment.data + segment.bytes

/-- No address is in both. -/
def Apart (left right : Segment) : Prop :=
  ∀ address, left.Covers address → ¬right.Covers address

def closeUp (gap segment : Segment) : Segment :=
  if gap.data < segment.data then { segment with data := segment.data - gap.bytes } else segment

theorem Apart.symm {left right : Segment} (apart : left.Apart right) : right.Apart left :=
  fun address right left => apart address left right

theorem Apart.before_or_behind {left right : Segment} (apart : left.Apart right)
    (some : 0 < left.bytes) (more : 0 < right.bytes) :
    left.data + left.bytes ≤ right.data ∨ right.data + right.bytes ≤ left.data := by
  by_contra overlap
  rcases Nat.le_total left.data right.data with before | behind
  · exact apart right.data ⟨before, by omega⟩ ⟨by omega, by omega⟩
  · exact apart left.data ⟨by omega, by omega⟩ ⟨behind, by omega⟩

@[simp] theorem closeUp_bytes (gap segment : Segment) :
    (gap.closeUp segment).bytes = segment.bytes := by
  unfold closeUp
  split
  · rfl
  · rfl

theorem closeUp_apart {gap left right : Segment} (apart : left.Apart right)
    (leftGap : left.Apart gap) (rightGap : right.Apart gap) (hole : 0 < gap.bytes)
    (some : 0 < left.bytes) (more : 0 < right.bytes) :
    (gap.closeUp left).Apart (gap.closeUp right) := by
  have first := leftGap.before_or_behind some hole
  have second := rightGap.before_or_behind more hole
  have between := apart.before_or_behind some more
  rintro address ⟨leftLow, leftHigh⟩ ⟨rightLow, rightHigh⟩
  rw [closeUp_bytes] at leftHigh rightHigh
  unfold closeUp at leftLow leftHigh rightLow rightHigh
  split at leftLow
  · rw [if_pos (by assumption)] at leftHigh
    split at rightLow
    · rw [if_pos (by assumption)] at rightHigh
      dsimp only at leftLow leftHigh rightLow rightHigh
      omega
    · rw [if_neg (by assumption)] at rightHigh
      dsimp only at leftLow leftHigh
      omega
  · rw [if_neg (by assumption)] at leftHigh
    split at rightLow
    · rw [if_pos (by assumption)] at rightHigh
      dsimp only at rightLow rightHigh
      omega
    · rw [if_neg (by assumption)] at rightHigh
      omega

end Segment

open Segment

theorem sum_bytes_le {extent : Nat} {segments : List Segment}
    (inside : ∀ segment ∈ segments, segment.data + segment.bytes ≤ extent)
    (apart : segments.Pairwise Apart) : (segments.map Segment.bytes).sum ≤ extent := by
  have union : ∃ addresses : Finset Nat, addresses.card = (segments.map Segment.bytes).sum ∧
      ∀ address, address ∈ addresses ↔ ∃ segment ∈ segments, segment.Covers address := by
    clear inside
    induction segments with
    | nil => exact ⟨∅, rfl, by simp⟩
    | cons segment segments ih =>
      rw [pairwise_cons] at apart
      obtain ⟨addresses, card, covered⟩ := ih apart.2
      have disjoint : Disjoint (Finset.Ico segment.data (segment.data + segment.bytes))
          addresses := by
        rw [Finset.disjoint_left]
        intro address here there
        obtain ⟨other, member, covers⟩ := (covered address).mp there
        exact apart.1 other member address (Finset.mem_Ico.mp here) covers
      refine ⟨Finset.Ico segment.data (segment.data + segment.bytes) ∪ addresses, ?_, ?_⟩
      · rw [Finset.card_union_of_disjoint disjoint, card, Nat.card_Ico, map_cons,
          sum_cons, Nat.add_sub_cancel_left]
      · intro address
        rw [Finset.mem_union, Finset.mem_Ico, covered, exists_mem_cons_iff]
        rfl
  obtain ⟨addresses, card, covered⟩ := union
  have bounded : addresses ⊆ Finset.range extent := by
    intro address member
    obtain ⟨segment, listed, -, high⟩ := (covered address).mp member
    have fits := inside segment listed
    rw [Finset.mem_range]
    omega
  have count := Finset.card_le_card bounded
  rwa [card, Finset.card_range] at count

/-- The segments all hold something, lie below the extent and share no address; if
the store is `whole` they leave no address below the extent out. -/
structure Tiles (whole : Prop) (extent : Nat) (segments : List Segment) : Prop where
  inside : ∀ segment ∈ segments, segment.data + segment.bytes ≤ extent
  apart : segments.Pairwise Apart
  covered : whole → ∀ address < extent, ∃ segment ∈ segments, segment.Covers address
  filled : ∀ segment ∈ segments, 0 < segment.bytes

namespace Tiles

open List

variable {whole : Prop} {extent : Nat} {segments rest : List Segment} {gap : Segment}

theorem nil : Tiles whole 0 [] where
  inside := by simp
  apart := List.Pairwise.nil
  covered := fun _ address bound => absurd bound (Nat.not_lt_zero address)
  filled := by simp

theorem perm {others : List Segment} (tiles : Tiles whole extent segments)
    (same : segments.Perm others) : Tiles whole extent others where
  inside := fun segment member => tiles.inside segment (same.mem_iff.mpr member)
  apart := (same.pairwise_iff fun apart => apart.symm).mp tiles.apart
  covered := fun all address bound => by
    obtain ⟨segment, member, covers⟩ := tiles.covered all address bound
    exact ⟨segment, same.mem_iff.mp member, covers⟩
  filled := fun segment member => tiles.filled segment (same.mem_iff.mpr member)

theorem some_of {larger : Nat} (tiles : Tiles whole extent segments)
    (part : rest.Sublist segments) (grows : extent ≤ larger) : Tiles False larger rest where
  inside := fun segment member =>
    Nat.le_trans (tiles.inside segment (part.subset member)) grows
  apart := tiles.apart.sublist part
  covered := False.elim
  filled := fun segment member => tiles.filled segment (part.subset member)

theorem append (tiles : Tiles whole extent segments) {bytes : Nat} (some : 0 < bytes) :
    Tiles whole (extent + bytes) (⟨bytes, extent⟩ :: segments) where
  inside := by
    intro segment member
    rcases mem_cons.mp member with rfl | member
    · exact Nat.le_refl _
    · exact Nat.le_trans (tiles.inside segment member) (Nat.le_add_right _ _)
  apart := by
    refine pairwise_cons.mpr ⟨?_, tiles.apart⟩
    rintro segment member address ⟨low, -⟩ ⟨-, high⟩
    have fits := tiles.inside segment member
    dsimp only at low
    omega
  covered := by
    intro all address bound
    rcases Nat.lt_or_ge address extent with before | behind
    · obtain ⟨segment, member, covers⟩ := tiles.covered all address before
      exact ⟨segment, mem_cons_of_mem _ member, covers⟩
    · exact ⟨_, mem_cons_self, behind, bound⟩
  filled := by
    exact forall_mem_cons.mpr ⟨some, tiles.filled⟩

theorem remove (tiles : Tiles whole extent (gap :: rest)) :
    Tiles whole (extent - gap.bytes) (rest.map gap.closeUp) := by
  have hole := tiles.filled gap mem_cons_self
  have gapFits := tiles.inside gap mem_cons_self
  have apart := pairwise_cons.mp tiles.apart
  have filled : ∀ segment ∈ rest, 0 < segment.bytes :=
    (forall_mem_cons.mp tiles.filled).2
  have sides : ∀ segment ∈ rest,
      gap.data + gap.bytes ≤ segment.data ∨ segment.data + segment.bytes ≤ gap.data :=
    fun segment member =>
      (apart.1 segment member).before_or_behind hole (filled segment member)
  refine ⟨?_, ?_, ?_, ?_⟩
  · intro moved member
    obtain ⟨segment, listed, rfl⟩ := mem_map.mp member
    have fits := tiles.inside segment (mem_cons_of_mem _ listed)
    have side := sides segment listed
    have some := filled segment listed
    unfold closeUp
    split
    · dsimp only
      omega
    · omega
  · rw [pairwise_map]
    refine apart.2.imp_of_mem ?_
    intro left right leftMember rightMember between
    exact closeUp_apart between (apart.1 left leftMember).symm (apart.1 right rightMember).symm hole
      (filled left leftMember) (filled right rightMember)
  · intro all address bound
    rcases Nat.lt_or_ge address gap.data with before | behind
    · obtain ⟨segment, member, low, high⟩ := tiles.covered all address (by omega)
      rcases mem_cons.mp member with rfl | listed
      · omega
      · refine ⟨gap.closeUp segment, mem_map_of_mem listed, ?_⟩
        have stays : gap.closeUp segment = segment := if_neg (by omega)
        rw [stays]
        exact ⟨low, high⟩
    · obtain ⟨segment, member, low, high⟩ := tiles.covered all (address + gap.bytes) (by omega)
      rcases mem_cons.mp member with rfl | listed
      · omega
      · refine ⟨gap.closeUp segment, mem_map_of_mem listed, ?_⟩
        have side := sides segment listed
        have moves : gap.closeUp segment = ⟨segment.bytes, segment.data - gap.bytes⟩ :=
          if_pos (by omega)
        rw [moves]
        exact ⟨by dsimp only; omega, by dsimp only; omega⟩
  · intro moved member
    obtain ⟨segment, listed, rfl⟩ := mem_map.mp member
    rw [closeUp_bytes]
    exact filled segment listed

end Tiles

/-- A segment beside the gap keeps its bytes. -/
theorem Buffer.Holds.closeUp {Cell : Type} {buffer : Buffer Cell} {gap segment : Segment}
    {extent : Nat} {bytes : List Cell} (holds : buffer.Holds segment.data bytes)
    (length : bytes.length = segment.bytes)
    (side : gap.data + gap.bytes ≤ segment.data ∨ segment.data + segment.bytes ≤ gap.data)
    (some : 0 < segment.bytes) (fits : segment.data + segment.bytes ≤ extent) :
    (buffer.moved gap.data (gap.data + gap.bytes) (extent - gap.data - gap.bytes)).Holds
      (gap.closeUp segment).data bytes := by
  have inBuffer := holds.fits
  unfold Segment.closeUp
  rcases side with behind | before
  · split
    · refine ⟨by dsimp only [Buffer.moved]; omega, fun index bound => ?_⟩
      dsimp only [Buffer.moved]
      rw [if_pos (by omega), ← holds.cell index bound]
      congr 1
      omega
    · refine ⟨inBuffer, fun index bound => ?_⟩
      dsimp only [Buffer.moved]
      rw [← holds.cell index bound]
      split
      · congr 1
        omega
      · rfl
  · rw [if_neg (by omega)]
    exact holds.moved_outside (.inl (by omega))

end CLibs
