import CLibs.PointerTrees
import Mathlib.Order.Basic
import Mathlib.Order.Lattice

/-!
# Search trees

The nodes of a tree have keys from a linear order, and the keys ascend along the tree, so
that the search for a key takes one branch at each node.  A new node is linked where the
search for its key ends; what a balancing scheme does afterwards is seen only through the
nodes in their order.
-/

namespace CLibs.SearchTrees

open List

variable {Color Node Key : Type*} [LinearOrder Key] {key : Node → Key} {target : Key}
  {color : Color} {item : Node} {tree : Tree Color Node}

def Ascending (key : Node → Key) (nodes : List Node) : Prop :=
  nodes.Pairwise fun first second => key first < key second

theorem ascending_node {left right : Tree Color Node} :
    Ascending key (Tree.node color left item right).inorder ↔
      Ascending key left.inorder ∧ Ascending key right.inorder ∧
        (∀ node ∈ left.inorder, key node < key item) ∧
        (∀ node ∈ right.inorder, key item < key node) ∧
        ∀ first ∈ left.inorder, ∀ second ∈ right.inorder, key first < key second := by
  unfold Ascending
  rw [Tree.inorder, pairwise_append, pairwise_cons]
  constructor
  · rintro ⟨left, ⟨greater, right⟩, between⟩
    refine ⟨left, right, ?_, greater, ?_⟩
    · intro node member
      exact between node member item mem_cons_self
    · intro first member second after
      exact between first member second (mem_cons_of_mem _ after)
  · rintro ⟨left, right, smaller, greater, between⟩
    refine ⟨left, ⟨greater, right⟩, ?_⟩
    intro first member second after
    rcases mem_cons.mp after with rfl | after
    · exact smaller first member
    · exact between first member second after

/-! ## Search -/

def search (key : Node → Key) (target : Key) : Tree Color Node → Option Node
  | .nil => none
  | .node _ left item right =>
    if target < key item then search key target left
    else if key item < target then search key target right
    else some item

theorem search_eq_some_iff (ascending : Ascending key tree.inorder) {node : Node} :
    search key target tree = some node ↔ node ∈ tree.inorder ∧ key node = target := by
  induction tree with
  | nil => exact ⟨nofun, nofun⟩
  | node color left item right leftIh rightIh =>
    obtain ⟨leftAscending, rightAscending, smaller, greater, -⟩ := ascending_node.mp ascending
    rw [search, Tree.inorder, mem_append, mem_cons]
    by_cases below : target < key item
    · rw [if_pos below, leftIh leftAscending]
      constructor
      · rintro ⟨member, same⟩
        exact ⟨.inl member, same⟩
      · rintro ⟨member | rfl | member, same⟩
        · exact ⟨member, same⟩
        · exact absurd same below.ne'
        · exact absurd same (below.trans (greater node member)).ne'
    · rw [if_neg below]
      by_cases above : key item < target
      · rw [if_pos above, rightIh rightAscending]
        constructor
        · rintro ⟨member, same⟩
          exact ⟨.inr (.inr member), same⟩
        · rintro ⟨member | rfl | member, same⟩
          · exact absurd same ((smaller node member).trans above).ne
          · exact absurd same above.ne
          · exact ⟨member, same⟩
      · rw [if_neg above]
        have here : key item = target := le_antisymm (not_lt.mp below) (not_lt.mp above)
        constructor
        · intro found
          rw [← Option.some.inj found]
          exact ⟨.inr (.inl rfl), here⟩
        · rintro ⟨member | rfl | member, same⟩
          · exact absurd (same.trans here.symm) (smaller node member).ne
          · rfl
          · exact absurd (same.trans here.symm) (greater node member).ne'

theorem search_eq_none_iff (ascending : Ascending key tree.inorder) :
    search key target tree = none ↔ ∀ node ∈ tree.inorder, key node ≠ target := by
  rw [Option.eq_none_iff_forall_not_mem]
  constructor
  · intro absent node member same
    exact absent node ((search_eq_some_iff ascending).mpr ⟨member, same⟩)
  · intro absent node found
    obtain ⟨member, same⟩ := (search_eq_some_iff ascending).mp found
    exact absent node member same

/-! ## New nodes -/

/-- The second tree has the item as one more leaf. -/
inductive Linked (color : Color) (item : Node) : Tree Color Node → Tree Color Node → Prop
  | here : Linked color item .nil (.node color .nil item .nil)
  | left {top : Color} {left linked right : Tree Color Node} {node : Node}
      (below : Linked color item left linked) :
      Linked color item (.node top left node right) (.node top linked node right)
  | right {top : Color} {left right linked : Tree Color Node} {node : Node}
      (below : Linked color item right linked) :
      Linked color item (.node top left node right) (.node top left node linked)

theorem Linked.perm {linked : Tree Color Node} (new : Linked color item tree linked) :
    linked.inorder.Perm (item :: tree.inorder) := by
  induction new with
  | here => exact .rfl
  | left below ih =>
    rw [Tree.inorder, Tree.inorder]
    exact ih.append_right _
  | @right top left right linked node below ih =>
    rw [Tree.inorder, Tree.inorder]
    calc left.inorder ++ node :: linked.inorder
      _ |>.Perm (left.inorder ++ node :: item :: right.inorder) := (ih.cons node).append_left _
      _ |>.Perm (left.inorder ++ item :: node :: right.inorder) := (List.Perm.swap ..).append_left _
      _ |>.Perm (item :: (left.inorder ++ node :: right.inorder)) := perm_middle

def link (key : Node → Key) (color : Color) (item : Node) : Tree Color Node → Tree Color Node
  | .nil => .node color .nil item .nil
  | .node top left node right =>
    if key item < key node then .node top (link key color item left) node right
    else .node top left node (link key color item right)

theorem link_linked (key : Node → Key) (color : Color) (item : Node) (tree : Tree Color Node) :
    Linked color item tree (link key color item tree) := by
  induction tree with
  | nil => exact .here
  | node top left node right leftIh rightIh =>
    rw [link]
    split
    · exact .left leftIh
    · exact .right rightIh

theorem link_ascending (ascending : Ascending key tree.inorder)
    (absent : ∀ node ∈ tree.inorder, key node ≠ key item) :
    Ascending key (link key color item tree).inorder := by
  induction tree with
  | nil => exact pairwise_singleton _ _
  | node top left node right leftIh rightIh =>
    obtain ⟨leftAscending, rightAscending, smaller, greater, between⟩ :=
      ascending_node.mp ascending
    have inside : ∀ other, other ∈ (Tree.node top left node right).inorder ↔
        other ∈ left.inorder ∨ other = node ∨ other ∈ right.inorder := by
      intro other
      rw [Tree.inorder, mem_append, mem_cons]
    rw [link]
    split
    · next below =>
        have new := (link_linked key color item left).perm
        refine ascending_node.mpr ⟨?_, rightAscending, ?_, greater, ?_⟩
        · exact leftIh leftAscending fun other member =>
            absent other ((inside other).mpr (.inl member))
        · intro other member
          rcases mem_cons.mp (new.mem_iff.mp member) with rfl | member
          · exact below
          · exact smaller other member
        · intro first member second after
          rcases mem_cons.mp (new.mem_iff.mp member) with rfl | member
          · exact below.trans (greater second after)
          · exact between first member second after
    · next notBelow =>
        have above : key node < key item := lt_of_le_of_ne (not_lt.mp notBelow)
          (absent node ((inside node).mpr (.inr (.inl rfl))))
        have new := (link_linked key color item right).perm
        refine ascending_node.mpr ⟨leftAscending, ?_, smaller, ?_, ?_⟩
        · exact rightIh rightAscending fun other member =>
            absent other ((inside other).mpr (.inr (.inr member)))
        · intro other member
          rcases mem_cons.mp (new.mem_iff.mp member) with rfl | member
          · exact above
          · exact greater other member
        · intro first member second after
          rcases mem_cons.mp (new.mem_iff.mp after) with rfl | after
          · exact (smaller first member).trans above
          · exact between first member second after

end CLibs.SearchTrees
