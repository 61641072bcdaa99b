import CLibs.PointerTrees
import Mathlib.Algebra.Order.Group.Multiset
import Mathlib.Data.Multiset.Sort

/-!
# Search trees with repeated values

The colour of a node is its value.  The values on the left of a node are at most its own and
those on the right are above it, so that equal values go left.  The order is kept by a new leaf
and by a change of one subtree that brings no values of its own.
-/

namespace CLibs.ValueTrees

variable {Value Node : Type*}

/-- The nodes with their values, in order. -/
def entries : Tree Value Node → List (Value × Node)
  | .nil => []
  | .node value left item right => entries left ++ (value, item) :: entries right

/-- The values in order. -/
def sequence (tree : Tree Value Node) : List Value :=
  (entries tree).map Prod.fst

def values (tree : Tree Value Node) : Multiset Value :=
  sequence tree

section Values

variable {value : Value} {left right : Tree Value Node} {item : Node}

@[simp]
theorem values_nil : values (.nil : Tree Value Node) = 0 := rfl

@[simp]
theorem values_node : values (.node value left item right) = value ::ₘ (values left + values right) := by
  rw [values, sequence, entries, List.map_append, List.map_cons, ← Multiset.coe_add,
    ← Multiset.cons_coe, Multiset.add_cons]
  rfl

theorem sequence_node :
    sequence (.node value left item right) = sequence left ++ value :: sequence right := by
  rw [sequence, entries, List.map_append, List.map_cons]
  rfl

end Values

variable [LinearOrder Value] {value new : Value} {left right tree : Tree Value Node} {item : Node}

/-- Equal values may stand on the left. -/
def Ordered : Tree Value Node → Prop
  | .nil => True
  | .node value left _ right => Ordered left ∧ Ordered right ∧
      (∀ small ∈ values left, small ≤ value) ∧ ∀ great ∈ values right, value < great

theorem Ordered.sequence (ordered : Ordered tree) : (sequence tree).Pairwise (· ≤ ·) := by
  induction tree with
  | nil => exact .nil
  | node value left item right leftIh rightIh =>
    obtain ⟨leftOrdered, rightOrdered, small, great⟩ := ordered
    rw [sequence_node, List.pairwise_append, List.pairwise_cons]
    refine ⟨leftIh leftOrdered, ⟨?_, rightIh rightOrdered⟩, ?_⟩
    · intro behind member
      exact (great behind member).le
    · intro first member second after
      rcases List.mem_cons.mp after with rfl | after
      · exact small first member
      · exact (small first member).trans (great second after).le

/-! ## Search -/

theorem mem_right (ordered : Ordered (.node value left item right)) (above : value < new) :
    new ∈ values (.node value left item right) ↔ new ∈ values right := by
  obtain ⟨-, -, small, -⟩ := ordered
  rw [values_node, Multiset.mem_cons, Multiset.mem_add]
  constructor
  · rintro (rfl | inLeft | inRight)
    · exact absurd above (lt_irrefl _)
    · exact absurd (small new inLeft) (not_le.mpr above)
    · exact inRight
  · intro inRight
    exact .inr (.inr inRight)

theorem mem_left (ordered : Ordered (.node value left item right)) (below : new < value) :
    new ∈ values (.node value left item right) ↔ new ∈ values left := by
  obtain ⟨-, -, -, great⟩ := ordered
  rw [values_node, Multiset.mem_cons, Multiset.mem_add]
  constructor
  · rintro (rfl | inLeft | inRight)
    · exact absurd below (lt_irrefl _)
    · exact inLeft
    · exact absurd (great new inRight) below.not_gt
  · intro inLeft
    exact .inr (.inl inLeft)

/-! ## Changes -/

def insertLeaf (new : Value) (item : Node) : Tree Value Node → Tree Value Node
  | .nil => .node new .nil item .nil
  | .node value left top right =>
    if value < new then .node value left top (insertLeaf new item right)
    else .node value (insertLeaf new item left) top right

theorem values_insertLeaf (new : Value) (item : Node) (tree : Tree Value Node) :
    values (insertLeaf new item tree) = new ::ₘ values tree := by
  induction tree with
  | nil => rfl
  | node value left top right leftIh rightIh =>
    rw [insertLeaf]
    split
    · rw [values_node, rightIh, values_node, Multiset.add_cons, Multiset.cons_swap]
    · rw [values_node, leftIh, values_node, Multiset.cons_add, Multiset.cons_swap]

theorem inorder_insertLeaf (new : Value) (item : Node) (tree : Tree Value Node) :
    (insertLeaf new item tree).inorder.Perm (item :: tree.inorder) := by
  induction tree with
  | nil => exact .rfl
  | node value left top right leftIh rightIh =>
    rw [insertLeaf]
    split
    · rw [Tree.inorder, Tree.inorder]
      exact ((rightIh.cons top).append_left _).trans
        (((List.Perm.swap item top _).append_left _).trans List.perm_middle)
    · rw [Tree.inorder, Tree.inorder]
      exact leftIh.append_right _

theorem Ordered.insertLeaf (ordered : Ordered tree) (new : Value) (item : Node) :
    Ordered (insertLeaf new item tree) := by
  induction tree with
  | nil => exact ⟨trivial, trivial, nofun, nofun⟩
  | node value left top right leftIh rightIh =>
    obtain ⟨leftOrdered, rightOrdered, small, great⟩ := ordered
    rw [ValueTrees.insertLeaf]
    split
    · next above =>
        refine ⟨leftOrdered, rightIh rightOrdered, small, ?_⟩
        intro behind member
        rw [values_insertLeaf, Multiset.mem_cons] at member
        rcases member with rfl | member
        · exact above
        · exact great behind member
    · next notAbove =>
        refine ⟨leftIh leftOrdered, rightOrdered, ?_, great⟩
        intro first member
        rw [values_insertLeaf, Multiset.mem_cons] at member
        rcases member with rfl | member
        · exact not_lt.mp notAbove
        · exact small first member

variable {less : Tree Value Node}

theorem Ordered.left_le (ordered : Ordered (.node value left item right))
    (lessOrdered : Ordered less) (fewer : values less ≤ values left) :
    Ordered (.node value less item right) := by
  obtain ⟨-, rightOrdered, small, great⟩ := ordered
  exact ⟨lessOrdered, rightOrdered, fun first member => small first (Multiset.mem_of_le fewer member),
    great⟩

theorem Ordered.right_le (ordered : Ordered (.node value left item right))
    (lessOrdered : Ordered less) (fewer : values less ≤ values right) :
    Ordered (.node value left item less) := by
  obtain ⟨leftOrdered, -, small, great⟩ := ordered
  exact ⟨leftOrdered, lessOrdered, small, fun behind member =>
    great behind (Multiset.mem_of_le fewer member)⟩

theorem Ordered.lower (ordered : Ordered (.node value left item right)) (greatest : new ∈ values left)
    (bound : ∀ small ∈ values left, small ≤ new)
    (lessOrdered : Ordered less) (fewer : values less ≤ values left) :
    Ordered (.node new less item right) := by
  obtain ⟨-, rightOrdered, small, great⟩ := ordered
  refine ⟨lessOrdered, rightOrdered, ?_, ?_⟩
  · intro first member
    exact bound first (Multiset.mem_of_le fewer member)
  · intro behind member
    exact (small new greatest).trans_lt (great behind member)

/-! ## Values that are lost -/

theorem erase_right (ordered : Ordered (.node value left item right)) (above : value < new) :
    (values (.node value left item right)).erase new = value ::ₘ (values left + (values right).erase new) := by
  obtain ⟨-, -, small, -⟩ := ordered
  have notLeft : new ∉ values left := fun member => absurd (small new member) (not_le.mpr above)
  rw [values_node, Multiset.erase_cons_tail _ above.ne, Multiset.erase_add_right_neg _ notLeft]

theorem erase_left (ordered : Ordered (.node value left item right)) (below : new < value) :
    (values (.node value left item right)).erase new = value ::ₘ ((values left).erase new + values right) := by
  obtain ⟨-, -, -, great⟩ := ordered
  have notRight : new ∉ values right := fun member => absurd (great new member) below.not_gt
  rw [values_node, Multiset.erase_cons_tail _ below.ne']
  by_cases member : new ∈ values left
  · rw [Multiset.erase_add_left_pos _ member]
  · rw [Multiset.erase_of_notMem member, Multiset.erase_of_notMem]
    rw [Multiset.mem_add]
    exact fun either => either.elim member notRight

theorem erase_root : (values (.node value left item right)).erase value = values left + values right := by
  rw [values_node, Multiset.erase_cons_head]

end CLibs.ValueTrees
