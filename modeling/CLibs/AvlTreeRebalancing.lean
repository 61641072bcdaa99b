import CLibs.AvlTree
import Mathlib.Order.Lattice

/-!
# Rebalancing of AVL trees

A tree is described by its in-order list of nodes, its height, and the AVL
property that every stored balance is the difference of the heights below it.
Each rebalancing step has one lemma that gives all three.  Left and right are
related by `mirror`, so that only one side is computed.
-/

namespace CLibs.Avl

variable {Node : Type*}

namespace AvlTree

def height : AvlTree Node → Nat
  | .null => 0
  | .node left right _ _ => max left.height right.height + 1

/-- The objects from left to right. -/
def inorder : AvlTree Node → List Node
  | .null => []
  | .node left right _ object => left.inorder ++ object :: right.inorder

/-- Every balance is the difference of the heights below its node. -/
def IsAvl : AvlTree Node → Prop
  | .null => True
  | .node left right balance _ =>
    left.IsAvl ∧ right.IsAvl ∧ balance.toInt = (right.height : Int) - left.height

@[simp]
theorem height_null : (null : AvlTree Node).height = 0 :=
  rfl

@[simp]
theorem height_node (left right : AvlTree Node) (balance : BalanceType) (object : Node) :
    (node left right balance object).height = max left.height right.height + 1 :=
  rfl

@[simp]
theorem inorder_null : (null : AvlTree Node).inorder = [] :=
  rfl

@[simp]
theorem inorder_node (left right : AvlTree Node) (balance : BalanceType) (object : Node) :
    (node left right balance object).inorder = left.inorder ++ object :: right.inorder :=
  rfl

@[simp]
theorem isAvl_null : (null : AvlTree Node).IsAvl :=
  trivial

@[simp]
theorem isAvl_node (left right : AvlTree Node) (balance : BalanceType) (object : Node) :
    (node left right balance object).IsAvl ↔
      left.IsAvl ∧ right.IsAvl ∧ balance.toInt = (right.height : Int) - left.height :=
  Iff.rfl

end AvlTree

@[simp]
theorem toInt_leftHeavy : BalanceType.leftHeavy.toInt = -1 :=
  rfl

@[simp]
theorem toInt_balanced : BalanceType.balanced.toInt = 0 :=
  rfl

@[simp]
theorem toInt_rightHeavy : BalanceType.rightHeavy.toInt = 1 :=
  rfl

def heightChange (balancingNeeded : Bool) : Nat :=
  if balancingNeeded then 1 else 0

@[simp]
theorem heightChange_true : heightChange true = 1 :=
  rfl

@[simp]
theorem heightChange_false : heightChange false = 0 :=
  rfl

/-! ## Left and right -/

def BalanceType.mirror : BalanceType → BalanceType
  | .leftHeavy => .rightHeavy
  | .balanced => .balanced
  | .rightHeavy => .leftHeavy

def AvlTree.mirror : AvlTree Node → AvlTree Node
  | .null => .null
  | .node left right balance object => .node right.mirror left.mirror balance.mirror object

@[simp]
theorem toInt_mirror (balance : BalanceType) : balance.mirror.toInt = -balance.toInt := by
  cases balance <;> rfl

@[simp]
theorem balance_mirror_mirror (balance : BalanceType) : balance.mirror.mirror = balance := by
  cases balance <;> rfl

namespace AvlTree

@[simp]
theorem mirror_null : (null : AvlTree Node).mirror = null :=
  rfl

@[simp]
theorem mirror_node (left right : AvlTree Node) (balance : BalanceType) (object : Node) :
    (node left right balance object).mirror =
      node right.mirror left.mirror balance.mirror object :=
  rfl

@[simp]
theorem mirror_mirror (tree : AvlTree Node) : tree.mirror.mirror = tree := by
  induction tree with
  | null => rfl
  | node left right balance object leftIH rightIH => simp [leftIH, rightIH]

@[simp]
theorem height_mirror (tree : AvlTree Node) : tree.mirror.height = tree.height := by
  induction tree with
  | null => rfl
  | node left right balance object leftIH rightIH => simp [leftIH, rightIH, max_comm]

@[simp]
theorem inorder_mirror (tree : AvlTree Node) : tree.mirror.inorder = tree.inorder.reverse := by
  induction tree with
  | null => rfl
  | node left right balance object leftIH rightIH => simp [leftIH, rightIH]

@[simp]
theorem isAvl_mirror (tree : AvlTree Node) : tree.mirror.IsAvl ↔ tree.IsAvl := by
  induction tree with
  | null => simp
  | node left right balance object leftIH rightIH =>
    simp only [mirror_node, isAvl_node, leftIH, rightIH, toInt_mirror, height_mirror]
    constructor
    · rintro ⟨rightAvl, leftAvl, difference⟩
      exact ⟨leftAvl, rightAvl, by omega⟩
    · rintro ⟨leftAvl, rightAvl, difference⟩
      exact ⟨rightAvl, leftAvl, by omega⟩

end AvlTree

theorem avlBalanceLeftInternal_mirror (tree : AvlTree Node) (balancingNeeded : Bool) :
    avlBalanceLeftInternal tree balancingNeeded =
      (avlBalanceRightInternal tree.mirror balancingNeeded).map
        fun result => (result.1.mirror, result.2) := by
  rcases tree with _ | ⟨left, right, _ | _ | _, object⟩
  case node.rightHeavy =>
    rcases right with _ | ⟨rightLeft, rightRight, _ | _ | _, rightObject⟩
    case node.leftHeavy =>
      rcases rightLeft with _ | ⟨midLeft, midRight, _ | _ | _, midObject⟩ <;>
        simp [avlBalanceLeftInternal, avlBalanceRightInternal, BalanceType.mirror]
    all_goals simp [avlBalanceLeftInternal, avlBalanceRightInternal, BalanceType.mirror]
  all_goals simp [avlBalanceLeftInternal, avlBalanceRightInternal, BalanceType.mirror]

theorem avlInsertRightGrown_mirror (left right : AvlTree Node) (balance : BalanceType)
    (object : Node) :
    avlInsertRightGrown left right balance object =
      (avlInsertLeftGrown right.mirror left.mirror balance.mirror object).map
        fun result => (result.1.mirror, result.2) := by
  rcases balance with _ | _ | _
  case rightHeavy =>
    rcases right with _ | ⟨rightLeft, rightRight, _ | _ | _, rightObject⟩
    case node.rightHeavy => simp [avlInsertLeftGrown, avlInsertRightGrown, BalanceType.mirror]
    all_goals
      first
        | simp [avlInsertLeftGrown, avlInsertRightGrown, BalanceType.mirror]
          done
        | rcases rightLeft with _ | ⟨midLeft, midRight, _ | _ | _, midObject⟩ <;>
            simp [avlInsertLeftGrown, avlInsertRightGrown, BalanceType.mirror]
  all_goals simp [avlInsertLeftGrown, avlInsertRightGrown, BalanceType.mirror]

/-! ## Rebalancing -/

open AvlTree

structure Rebalanced (nodes : List Node) (heightBefore : Nat) (top : AvlTree Node)
    (balancingNeeded : Bool) : Prop where
  isAvl : top.IsAvl
  inorder_eq : top.inorder = nodes
  height_eq : top.height + heightChange balancingNeeded = heightBefore

variable {top : AvlTree Node}

theorem Rebalanced.mirror {nodes : List Node} {heightBefore : Nat} {balancingNeeded : Bool}
    (rebalanced : Rebalanced nodes heightBefore top balancingNeeded) :
    Rebalanced nodes.reverse heightBefore top.mirror balancingNeeded where
  isAvl := (isAvl_mirror top).mpr rebalanced.isAvl
  inorder_eq := by rw [inorder_mirror, rebalanced.inorder_eq]
  height_eq := by rw [height_mirror, rebalanced.height_eq]

variable {left right : AvlTree Node} {balance : BalanceType}

theorem avlBalanceRightInternal_spec (object : Node) (leftAvl : left.IsAvl) (rightAvl : right.IsAvl)
    (difference : balance.toInt = (right.height : Int) + 1 - left.height) :
    ∃ top balancingNeeded,
      avlBalanceRightInternal (.node left right balance object) true =
        some (top, balancingNeeded) ∧
      Rebalanced (left.inorder ++ object :: right.inorder)
        (max left.height (right.height + 1) + 1) top balancingNeeded := by
  cases balance with
  | rightHeavy =>
    rw [toInt_rightHeavy] at difference
    refine ⟨_, _, rfl, ⟨⟨leftAvl, rightAvl, ?_⟩, rfl, ?_⟩⟩
    · rw [toInt_balanced]; omega
    · rw [height_node, heightChange_true]; omega
  | balanced =>
    rw [toInt_balanced] at difference
    refine ⟨_, _, rfl, ⟨⟨leftAvl, rightAvl, ?_⟩, rfl, ?_⟩⟩
    · rw [toInt_leftHeavy]; omega
    · rw [height_node, heightChange_false]; omega
  | leftHeavy =>
    rw [toInt_leftHeavy] at difference
    cases left with
    | null => rw [height_null] at difference; omega
    | node leftLeft leftRight leftBalance leftObject =>
      obtain ⟨leftLeftAvl, leftRightAvl, leftDifference⟩ := leftAvl
      rw [height_node] at difference
      cases leftBalance with
      | leftHeavy =>
        rw [toInt_leftHeavy] at leftDifference
        refine ⟨_, _, rfl, ⟨⟨leftLeftAvl, ⟨leftRightAvl, rightAvl, ?_⟩, ?_⟩, ?_, ?_⟩⟩
        · rw [toInt_balanced]; omega
        · rw [toInt_balanced, height_node]; omega
        · simp
        · simp only [height_node, heightChange_true]; omega
      | balanced =>
        rw [toInt_balanced] at leftDifference
        refine ⟨_, _, rfl, ⟨⟨leftLeftAvl, ⟨leftRightAvl, rightAvl, ?_⟩, ?_⟩, ?_, ?_⟩⟩
        · rw [toInt_leftHeavy]; omega
        · rw [toInt_rightHeavy, height_node]; omega
        · simp
        · simp only [height_node, heightChange_false]; omega
      | rightHeavy =>
        rw [toInt_rightHeavy] at leftDifference
        cases leftRight with
        | null => rw [height_null] at leftDifference; omega
        | node midLeft midRight midBalance midObject =>
          obtain ⟨midLeftAvl, midRightAvl, midDifference⟩ := leftRightAvl
          rw [height_node] at difference leftDifference
          refine ⟨_, _, rfl, ⟨⟨⟨leftLeftAvl, midLeftAvl, ?_⟩,
            ⟨midRightAvl, rightAvl, ?_⟩, ?_⟩, ?_, ?_⟩⟩
          · cases midBalance <;> simp at midDifference ⊢ <;> omega
          · cases midBalance <;> simp at midDifference ⊢ <;> omega
          · cases midBalance <;> simp at midDifference ⊢ <;> omega
          · simp
          · cases midBalance <;> simp at midDifference ⊢ <;> omega

theorem avlBalanceLeftInternal_spec (object : Node) (leftAvl : left.IsAvl) (rightAvl : right.IsAvl)
    (difference : balance.toInt = (right.height : Int) - (left.height + 1)) :
    ∃ top balancingNeeded,
      avlBalanceLeftInternal (.node left right balance object) true =
        some (top, balancingNeeded) ∧
      Rebalanced (left.inorder ++ object :: right.inorder)
        (max (left.height + 1) right.height + 1) top balancingNeeded := by
  have mirrored : balance.mirror.toInt = (left.mirror.height : Int) + 1 - right.mirror.height := by
    rw [toInt_mirror, height_mirror, height_mirror]
    omega
  obtain ⟨top, balancingNeeded, computed, rebalanced⟩ := avlBalanceRightInternal_spec object
    ((isAvl_mirror right).mpr rightAvl) ((isAvl_mirror left).mpr leftAvl) mirrored
  refine ⟨top.mirror, balancingNeeded, ?_, ?_⟩
  · rw [avlBalanceLeftInternal_mirror, mirror_node, computed]
    rfl
  · have mirrored := rebalanced.mirror
    simpa [max_comm] using mirrored

/-- A subtree that has just grown is a single node or leans to one side. -/
def Grown (top : AvlTree Node) : Prop :=
  match top with
  | .null => False
  | .node left right balance _ => (left = .null ∧ right = .null) ∨ balance ≠ .balanced

theorem Grown.mirror (grown : Grown top) : Grown top.mirror := by
  rcases top with _ | ⟨left, right, balance, object⟩
  · exact grown
  · rcases grown with ⟨rfl, rfl⟩ | leans
    · exact .inl ⟨rfl, rfl⟩
    · exact .inr (by cases balance <;> simp_all [BalanceType.mirror])

/-- Insertion rotates as deletion on the other side does, but the height is back as it was. -/
theorem avlInsertLeftGrown_rotates {object : Node} {balancingNeeded : Bool} (leans : Grown left)
    (high : 1 < left.height)
    (rotated : avlBalanceRightInternal (.node left right .leftHeavy object) true =
      some (top, balancingNeeded)) :
    avlInsertLeftGrown left right .leftHeavy object = some (top, false) ∧
      balancingNeeded = true := by
  rcases left with _ | ⟨leftLeft, leftRight, _ | _ | _, leftObject⟩
  case node.balanced =>
    rcases leans with ⟨rfl, rfl⟩ | leans
    · exact absurd high (by simp)
    · exact absurd rfl leans
  case node.rightHeavy =>
    rcases leftRight with _ | ⟨midLeft, midRight, midBalance, midObject⟩ <;>
      simp_all [avlBalanceRightInternal, avlInsertLeftGrown]
  all_goals simp_all [avlBalanceRightInternal, avlInsertLeftGrown]

theorem avlInsertLeftGrown_spec (object : Node) (leftAvl : left.IsAvl) (rightAvl : right.IsAvl)
    (grown : Grown left) (difference : balance.toInt = (right.height : Int) + 1 - left.height) :
    ∃ top balancingNeeded,
      avlInsertLeftGrown left right balance object = some (top, balancingNeeded) ∧
      top.IsAvl ∧ top.inorder = left.inorder ++ object :: right.inorder ∧
      top.height + 1 = max left.height (right.height + 1) + 1 + heightChange balancingNeeded ∧
      (balancingNeeded = true → Grown top) := by
  cases balance with
  | rightHeavy =>
    rw [toInt_rightHeavy] at difference
    refine ⟨_, _, rfl, ⟨leftAvl, rightAvl, ?_⟩, rfl, ?_, by simp⟩
    · rw [toInt_balanced]; omega
    · rw [height_node, heightChange_false]; omega
  | balanced =>
    rw [toInt_balanced] at difference
    refine ⟨_, _, rfl, ⟨leftAvl, rightAvl, ?_⟩, rfl, ?_, fun _ => .inr (by simp)⟩
    · rw [toInt_leftHeavy]; omega
    · rw [height_node, heightChange_true]; omega
  | leftHeavy =>
    rw [toInt_leftHeavy] at difference
    obtain ⟨top, balancingNeeded, rotated, rebalanced⟩ := avlBalanceRightInternal_spec object
      leftAvl rightAvl (by rw [toInt_leftHeavy]; exact difference)
    obtain ⟨inserted, rfl⟩ := avlInsertLeftGrown_rotates grown (by omega) rotated
    refine ⟨top, false, inserted, rebalanced.isAvl, rebalanced.inorder_eq, ?_, by simp⟩
    rw [heightChange_false, Nat.add_zero, ← rebalanced.height_eq, heightChange_true]

theorem avlInsertRightGrown_spec (object : Node) (leftAvl : left.IsAvl) (rightAvl : right.IsAvl)
    (grown : Grown right) (difference : balance.toInt = (right.height : Int) - (left.height + 1)) :
    ∃ top balancingNeeded,
      avlInsertRightGrown left right balance object = some (top, balancingNeeded) ∧
      top.IsAvl ∧ top.inorder = left.inorder ++ object :: right.inorder ∧
      top.height + 1 = max (left.height + 1) right.height + 1 + heightChange balancingNeeded ∧
      (balancingNeeded = true → Grown top) := by
  have mirrored : balance.mirror.toInt = (left.mirror.height : Int) + 1 - right.mirror.height := by
    rw [toInt_mirror, height_mirror, height_mirror]
    omega
  obtain ⟨top, balancingNeeded, computed, topAvl, nodes, heights, topGrown⟩ :=
    avlInsertLeftGrown_spec object ((isAvl_mirror right).mpr rightAvl)
      ((isAvl_mirror left).mpr leftAvl) grown.mirror mirrored
  refine ⟨top.mirror, balancingNeeded, ?_, (isAvl_mirror _).mpr topAvl, ?_, ?_, ?_⟩
  · rw [avlInsertRightGrown_mirror, computed]
    rfl
  · rw [inorder_mirror, nodes]
    simp
  · simpa [max_comm] using heights
  · exact fun needed => (topGrown needed).mirror

/-! ## Deletion of the greatest node of a subtree -/

theorem avlDeleteReplacementInternal_spec {link : AvlTree Node} (linkAvl : link.IsAvl)
    (nonempty : link ≠ .null) :
    ∃ rest retnode balancingNeeded,
      avlDeleteReplacementInternal link = some (rest, retnode, balancingNeeded) ∧
      rest.IsAvl ∧ link.inorder = rest.inorder ++ [retnode] ∧
      rest.height + heightChange balancingNeeded = link.height := by
  induction link with
  | null => exact absurd rfl nonempty
  | node left right balance object leftIH rightIH =>
    obtain ⟨leftAvl, rightAvl, difference⟩ := linkAvl
    cases right with
    | null =>
      refine ⟨left, object, true, rfl, leftAvl, rfl, ?_⟩
      simp
    | node rightLeft rightRight rightBalance rightObject =>
      obtain ⟨rest, retnode, needed, computed, restAvl, nodes, heights⟩ :=
        rightIH rightAvl (by simp)
      cases needed with
      | false =>
        rw [heightChange_false, Nat.add_zero] at heights
        refine ⟨.node left rest balance object, retnode, false, ?_,
          ⟨leftAvl, restAvl, by rw [heights]; exact difference⟩, ?_, ?_⟩
        · simp [avlDeleteReplacementInternal, computed]
        · rw [inorder_node, nodes, inorder_node]
          simp
        · rw [height_node, height_node, heights, heightChange_false, Nat.add_zero]
      | true =>
        rw [heightChange_true] at heights
        obtain ⟨top, stillNeeded, balanced, rebalanced⟩ := avlBalanceRightInternal_spec
          object leftAvl restAvl (by rw [difference, ← heights]; push_cast; rfl)
        refine ⟨top, retnode, stillNeeded, ?_, rebalanced.isAvl, ?_, ?_⟩
        · simp [avlDeleteReplacementInternal, computed, balanced]
        · rw [inorder_node, nodes, rebalanced.inorder_eq]
          simp
        · rw [rebalanced.height_eq, height_node, ← heights]

end CLibs.Avl
