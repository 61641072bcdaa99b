import CLibs.AvlTreeRebalancing
import CLibs.GuardedRuns
import Mathlib.Algebra.Order.Group.Abs
import Mathlib.Algebra.Order.Group.Int
import Mathlib.Data.List.Pairwise

/-!
# Correctness of the AVL trees

Insertion and deletion by induction on the tree, from the rebalancing lemmas,
and the trees that sequences of both build from the empty one.
-/

namespace CLibs.Avl

open List

variable {Node : Type*}

open AvlTree

/-! ## Insertion and deletion -/

section Search

variable {Key : Type*} [LinearOrder Key]

/-- The comparison function is a strict total order on the keys of the nodes. -/
def OrdersBy (compareFunc : Node → Node → CompareCode) (key : Node → Key) : Prop :=
  ∀ first second, compareFunc first second =
    if key first < key second then .lt else if key second < key first then .gt else .eq

/-- The keys ascend along the tree. -/
def AvlTree.Ordered (key : Node → Key) (tree : AvlTree Node) : Prop :=
  tree.inorder.Pairwise fun first second => key first < key second

/-- Outcome of an insertion into `tree`.  Either a node with the key was there
and nothing changed, or the new node now stands between the smaller and the
greater ones. -/
def InsertOutcome (key : Node → Key) (new : Node) (isNewNode : Bool) (tree : AvlTree Node)
    (result : InsertResult Node) : Prop :=
  (∃ object ∈ tree.inorder, key object = key new ∧
    result = ⟨tree, false, isNewNode, some object⟩) ∨
  (result.isNewNode = true ∧ result.returnNode = some new ∧
    ∃ before after, tree.inorder = before ++ after ∧
      result.top.inorder = before ++ new :: after ∧
      (∀ object ∈ before, key object < key new) ∧ ∀ object ∈ after, key new < key object)

/-- Outcome of a deletion from `tree`.  Either no node has the key of the target
and nothing changed, or the one node that has it was removed and returned. -/
def DeleteOutcome (key : Node → Key) (target : Node) (tree : AvlTree Node)
    (result : DeleteResult Node) : Prop :=
  ((∀ object ∈ tree.inorder, key object ≠ key target) ∧ result = ⟨tree, false, none⟩) ∨
  (∃ before object after, tree.inorder = before ++ object :: after ∧
    key object = key target ∧ result.delNode = some object ∧
    result.top.inorder = before ++ after)

theorem ordered_node {key : Node → Key} {left right : AvlTree Node} {balance : BalanceType}
    {object : Node} :
    (AvlTree.node left right balance object).Ordered key ↔
      left.Ordered key ∧ right.Ordered key ∧
        (∀ smaller ∈ left.inorder, key smaller < key object) ∧
        ∀ greater ∈ right.inorder, key object < key greater := by
  simp only [AvlTree.Ordered, inorder_node, pairwise_append, pairwise_cons,
    mem_cons, forall_eq_or_imp]
  constructor
  · rintro ⟨leftOrdered, ⟨greater, rightOrdered⟩, across⟩
    exact ⟨leftOrdered, rightOrdered, fun smaller member => (across smaller member).1, greater⟩
  · rintro ⟨leftOrdered, rightOrdered, smaller, greater⟩
    refine ⟨leftOrdered, ⟨greater, rightOrdered⟩, fun first firstMem => ⟨smaller first firstMem, ?_⟩⟩
    exact fun second secondMem => (smaller first firstMem).trans (greater second secondMem)

variable {compareFunc : Node → Node → CompareCode} {key : Node → Key}
variable {left right top : AvlTree Node} {balance : BalanceType} {object new target : Node}
variable {isNewNode balancingNeeded : Bool}

theorem InsertOutcome.inLeft {below : InsertResult Node}
    (outcome : InsertOutcome key new isNewNode left below)
    (less : key new < key object) (greater : ∀ other ∈ right.inorder, key object < key other)
    (nodes : top.inorder = below.top.inorder ++ object :: right.inorder)
    (unchanged : below.balancingNeeded = false → below.top = left →
      top = .node left right balance object ∧ balancingNeeded = false) :
    InsertOutcome key new isNewNode (.node left right balance object)
      ⟨top, balancingNeeded, below.isNewNode, below.returnNode⟩ := by
  rcases outcome with ⟨found, member, sameKey, rfl⟩ | ⟨isNew, returned, split⟩
  · obtain ⟨rfl, rfl⟩ := unchanged rfl rfl
    exact .inl ⟨found, by simp [member], sameKey, rfl⟩
  · obtain ⟨before, after, leftNodes, topNodes, beforeLess, afterGreater⟩ := split
    refine .inr ⟨isNew, returned, before, after ++ object :: right.inorder, ?_, ?_,
      beforeLess, ?_⟩
    · simp [leftNodes]
    · simp [nodes, topNodes]
    · exact forall_mem_append.mpr ⟨afterGreater, forall_mem_cons.mpr
        ⟨less, fun other inRight => less.trans (greater other inRight)⟩⟩

theorem InsertOutcome.inRight {below : InsertResult Node}
    (outcome : InsertOutcome key new isNewNode right below)
    (more : key object < key new) (smaller : ∀ other ∈ left.inorder, key other < key object)
    (nodes : top.inorder = left.inorder ++ object :: below.top.inorder)
    (unchanged : below.balancingNeeded = false → below.top = right →
      top = .node left right balance object ∧ balancingNeeded = false) :
    InsertOutcome key new isNewNode (.node left right balance object)
      ⟨top, balancingNeeded, below.isNewNode, below.returnNode⟩ := by
  rcases outcome with ⟨found, member, sameKey, rfl⟩ | ⟨isNew, returned, split⟩
  · obtain ⟨rfl, rfl⟩ := unchanged rfl rfl
    exact .inl ⟨found, by simp [member], sameKey, rfl⟩
  · obtain ⟨before, after, rightNodes, topNodes, beforeLess, afterGreater⟩ := split
    refine .inr ⟨isNew, returned, left.inorder ++ object :: before, after, ?_, ?_, ?_,
      afterGreater⟩
    · simp [rightNodes]
    · simp [nodes, topNodes]
    · exact forall_mem_append.mpr ⟨fun other inLeft => (smaller other inLeft).trans more,
        forall_mem_cons.mpr ⟨more, beforeLess⟩⟩

variable {tree : AvlTree Node}

theorem avlInsertInternal_spec (orders : OrdersBy compareFunc key) (new : Node) (isNewNode : Bool)
    (treeAvl : tree.IsAvl) (ordered : tree.Ordered key) :
    ∃ result, avlInsertInternal compareFunc new isNewNode tree = some result ∧
      result.top.IsAvl ∧
      result.top.height = tree.height + heightChange result.balancingNeeded ∧
      InsertOutcome key new isNewNode tree result ∧
      (result.balancingNeeded = true → Grown result.top) := by
  induction tree with
  | null =>
    refine ⟨_, rfl, by simp, by simp, .inr ⟨rfl, rfl, [], [], ?_⟩, fun _ => .inl ⟨rfl, rfl⟩⟩
    simp
  | node left right balance object leftIH rightIH =>
    obtain ⟨leftAvl, rightAvl, difference⟩ := treeAvl
    obtain ⟨leftOrdered, rightOrdered, smaller, greater⟩ := ordered_node.mp ordered
    have code := orders new object
    rcases lt_trichotomy (key new) (key object) with less | same | more
    · rw [if_pos less] at code
      obtain ⟨below, computed, belowAvl, heights, outcome, belowGrown⟩ :=
        leftIH leftAvl leftOrdered
      cases needed : below.balancingNeeded with
      | false =>
        rw [needed, heightChange_false, Nat.add_zero] at heights
        refine ⟨⟨.node below.top right balance object, false, below.isNewNode,
          below.returnNode⟩, ?_, ⟨belowAvl, rightAvl, ?_⟩, ?_, ?_, by simp⟩
        · simp [avlInsertInternal, code, computed, needed]
        · rw [heights]; exact difference
        · simp [heights]
        · exact outcome.inLeft less greater rfl fun _ sameTop => ⟨by rw [sameTop], rfl⟩
      | true =>
        rw [needed, heightChange_true] at heights
        obtain ⟨top, grew, rotated, topAvl, nodes, topHeight, topGrown⟩ :=
          avlInsertLeftGrown_spec object belowAvl rightAvl
            (belowGrown needed) (by rw [difference, heights]; push_cast; omega)
        refine ⟨⟨top, grew, below.isNewNode, below.returnNode⟩, ?_, topAvl, ?_,
          outcome.inLeft less greater nodes ?_, topGrown⟩
        · simp [avlInsertInternal, code, computed, needed, rotated]
        · simp only [height_node]; omega
        · simp [needed]
    · rw [if_neg same.not_lt, if_neg same.symm.not_lt] at code
      refine ⟨⟨.node left right balance object, false, isNewNode, some object⟩, ?_,
        ⟨leftAvl, rightAvl, difference⟩, by simp, .inl ⟨object, ?_, same.symm, rfl⟩, by simp⟩
      · simp [avlInsertInternal, code]
      · simp
    · rw [if_neg more.not_gt, if_pos more] at code
      obtain ⟨below, computed, belowAvl, heights, outcome, belowGrown⟩ :=
        rightIH rightAvl rightOrdered
      cases needed : below.balancingNeeded with
      | false =>
        rw [needed, heightChange_false, Nat.add_zero] at heights
        refine ⟨⟨.node left below.top balance object, false, below.isNewNode,
          below.returnNode⟩, ?_, ⟨leftAvl, belowAvl, ?_⟩, ?_, ?_, by simp⟩
        · simp [avlInsertInternal, code, computed, needed]
        · rw [heights]; exact difference
        · simp [heights]
        · exact outcome.inRight more smaller rfl fun _ sameTop => ⟨by rw [sameTop], rfl⟩
      | true =>
        rw [needed, heightChange_true] at heights
        obtain ⟨top, grew, rotated, topAvl, nodes, topHeight, topGrown⟩ :=
          avlInsertRightGrown_spec object leftAvl belowAvl
            (belowGrown needed) (by rw [difference, heights]; push_cast; omega)
        refine ⟨⟨top, grew, below.isNewNode, below.returnNode⟩, ?_, topAvl, ?_,
          outcome.inRight more smaller nodes ?_, topGrown⟩
        · simp [avlInsertInternal, code, computed, needed, rotated]
        · simp only [height_node]; omega
        · simp [needed]

theorem DeleteOutcome.inLeft {below : DeleteResult Node}
    (outcome : DeleteOutcome key target left below)
    (less : key target < key object) (greater : ∀ other ∈ right.inorder, key object < key other)
    (nodes : top.inorder = below.top.inorder ++ object :: right.inorder)
    (unchanged : below.balancingNeeded = false → below.top = left →
      top = .node left right balance object ∧ balancingNeeded = false) :
    DeleteOutcome key target (.node left right balance object)
      ⟨top, balancingNeeded, below.delNode⟩ := by
  rcases outcome with ⟨absent, rfl⟩ | ⟨before, found, after, leftNodes, sameKey, returned, rest⟩
  · obtain ⟨rfl, rfl⟩ := unchanged rfl rfl
    exact .inl ⟨forall_mem_append.mpr ⟨absent, forall_mem_cons.mpr
      ⟨less.ne', fun other inRight => (less.trans (greater other inRight)).ne'⟩⟩, rfl⟩
  · refine .inr ⟨before, found, after ++ object :: right.inorder, ?_, sameKey, returned, ?_⟩
    · simp [leftNodes]
    · simp [nodes, rest]

theorem DeleteOutcome.inRight {below : DeleteResult Node}
    (outcome : DeleteOutcome key target right below)
    (more : key object < key target) (smaller : ∀ other ∈ left.inorder, key other < key object)
    (nodes : top.inorder = left.inorder ++ object :: below.top.inorder)
    (unchanged : below.balancingNeeded = false → below.top = right →
      top = .node left right balance object ∧ balancingNeeded = false) :
    DeleteOutcome key target (.node left right balance object)
      ⟨top, balancingNeeded, below.delNode⟩ := by
  rcases outcome with ⟨absent, rfl⟩ | ⟨before, found, after, rightNodes, sameKey, returned, rest⟩
  · obtain ⟨rfl, rfl⟩ := unchanged rfl rfl
    exact .inl ⟨forall_mem_append.mpr ⟨fun other inLeft => ((smaller other inLeft).trans more).ne,
      forall_mem_cons.mpr ⟨more.ne, absent⟩⟩, rfl⟩
  · refine .inr ⟨left.inorder ++ object :: before, found, after, ?_, sameKey, returned, ?_⟩
    · simp [rightNodes]
    · simp [nodes, rest]

omit [LinearOrder Key] in
theorem avlDeleteInternal_root (code : compareFunc target object = .eq)
    (sameKey : key object = key target) (leftAvl : left.IsAvl) (rightAvl : right.IsAvl)
    (difference : balance.toInt = (right.height : Int) - left.height) :
    ∃ result, avlDeleteInternal compareFunc target (.node left right balance object) =
        some result ∧
      result.top.IsAvl ∧
      result.top.height + heightChange result.balancingNeeded =
        (AvlTree.node left right balance object).height ∧
      DeleteOutcome key target (.node left right balance object) result := by
  cases right with
  | null =>
    refine ⟨⟨left, true, some object⟩, by simp [avlDeleteInternal, code], leftAvl, by simp,
      .inr ⟨left.inorder, object, [], by simp, sameKey, rfl, by simp⟩⟩
  | node rightLeft rightRight rightBalance rightObject =>
    cases left with
    | null =>
      refine ⟨⟨.node rightLeft rightRight rightBalance rightObject, true, some object⟩,
        by simp [avlDeleteInternal, code], rightAvl, by simp,
        .inr ⟨[], object, _, rfl, sameKey, rfl, rfl⟩⟩
    | node leftLeft leftRight leftBalance leftObject =>
      obtain ⟨rest, newNode, needed, computed, restAvl, nodes, heights⟩ :=
        avlDeleteReplacementInternal_spec leftAvl (by simp)
      cases needed with
      | false =>
        rw [heightChange_false, Nat.add_zero] at heights
        refine ⟨⟨.node rest _ balance newNode, false, some object⟩, ?_,
          ⟨restAvl, rightAvl, by rw [heights]; exact difference⟩, ?_, ?_⟩
        · simp [avlDeleteInternal, code, computed]
        · simp only [height_node] at heights ⊢
          rw [heights]; rfl
        · refine .inr ⟨_, object, _, rfl, sameKey, rfl, ?_⟩
          rw [nodes]
          simp
      | true =>
        rw [heightChange_true] at heights
        obtain ⟨top, stillNeeded, balanced, rebalanced⟩ := avlBalanceLeftInternal_spec
          newNode restAvl rightAvl
          (by rw [difference, ← heights]; push_cast; rfl)
        refine ⟨⟨top, stillNeeded, some object⟩, ?_, rebalanced.isAvl, ?_, ?_⟩
        · simp [avlDeleteInternal, code, computed, balanced]
        · rw [rebalanced.height_eq, heights]
          rfl
        · refine .inr ⟨_, object, _, rfl, sameKey, rfl, ?_⟩
          rw [rebalanced.inorder_eq, nodes]
          simp

theorem avlDeleteInternal_spec (orders : OrdersBy compareFunc key) (target : Node)
    (treeAvl : tree.IsAvl) (ordered : tree.Ordered key) :
    ∃ result, avlDeleteInternal compareFunc target tree = some result ∧
      result.top.IsAvl ∧
      result.top.height + heightChange result.balancingNeeded = tree.height ∧
      DeleteOutcome key target tree result := by
  induction tree with
  | null => exact ⟨_, rfl, by simp, by simp, .inl ⟨by simp, rfl⟩⟩
  | node left right balance object leftIH rightIH =>
    obtain ⟨leftAvl, rightAvl, difference⟩ := treeAvl
    obtain ⟨leftOrdered, rightOrdered, smaller, greater⟩ := ordered_node.mp ordered
    have code := orders target object
    rcases lt_trichotomy (key target) (key object) with less | same | more
    · rw [if_pos less] at code
      obtain ⟨below, computed, belowAvl, heights, outcome⟩ := leftIH leftAvl leftOrdered
      cases needed : below.balancingNeeded with
      | false =>
        rw [needed, heightChange_false, Nat.add_zero] at heights
        refine ⟨⟨.node below.top right balance object, false, below.delNode⟩, ?_,
          ⟨belowAvl, rightAvl, by rw [heights]; exact difference⟩, ?_, ?_⟩
        · simp [avlDeleteInternal, code, computed, needed]
        · simp [heights]
        · exact outcome.inLeft less greater rfl fun _ sameTop => ⟨by rw [sameTop], rfl⟩
      | true =>
        rw [needed, heightChange_true] at heights
        obtain ⟨top, stillNeeded, balanced, rebalanced⟩ := avlBalanceLeftInternal_spec
          object belowAvl rightAvl (by rw [difference, ← heights]; push_cast; rfl)
        refine ⟨⟨top, stillNeeded, below.delNode⟩, ?_, rebalanced.isAvl, ?_,
          outcome.inLeft less greater rebalanced.inorder_eq ?_⟩
        · simp [avlDeleteInternal, code, computed, needed, balanced]
        · rw [rebalanced.height_eq, heights, height_node]
        · simp [needed]
    · rw [if_neg same.not_lt, if_neg same.symm.not_lt] at code
      exact avlDeleteInternal_root code same.symm leftAvl rightAvl difference
    · rw [if_neg more.not_gt, if_pos more] at code
      obtain ⟨below, computed, belowAvl, heights, outcome⟩ := rightIH rightAvl rightOrdered
      cases needed : below.balancingNeeded with
      | false =>
        rw [needed, heightChange_false, Nat.add_zero] at heights
        refine ⟨⟨.node left below.top balance object, false, below.delNode⟩, ?_,
          ⟨leftAvl, belowAvl, by rw [heights]; exact difference⟩, ?_, ?_⟩
        · simp [avlDeleteInternal, code, computed, needed]
        · simp [heights]
        · exact outcome.inRight more smaller rfl fun _ sameTop => ⟨by rw [sameTop], rfl⟩
      | true =>
        rw [needed, heightChange_true] at heights
        obtain ⟨top, stillNeeded, balanced, rebalanced⟩ := avlBalanceRightInternal_spec
          object leftAvl belowAvl (by rw [difference, ← heights]; push_cast; rfl)
        refine ⟨⟨top, stillNeeded, below.delNode⟩, ?_, rebalanced.isAvl, ?_,
          outcome.inRight more smaller rebalanced.inorder_eq ?_⟩
        · simp [avlDeleteInternal, code, computed, needed, balanced]
        · rw [rebalanced.height_eq, heights, height_node]
        · simp [needed]

theorem InsertOutcome.ordered {result : InsertResult Node}
    (outcome : InsertOutcome key new isNewNode tree result) (ordered : tree.Ordered key) :
    result.top.Ordered key := by
  rcases outcome with ⟨found, -, -, rfl⟩ | ⟨-, -, before, after, nodes, topNodes, less, greater⟩
  · exact ordered
  · unfold AvlTree.Ordered at ordered ⊢
    rw [nodes, pairwise_append] at ordered
    rw [topNodes, pairwise_append, pairwise_cons]
    refine ⟨ordered.1, ⟨greater, ordered.2.1⟩, ?_⟩
    intro first firstMem second secondMem
    rcases mem_cons.mp secondMem with rfl | inAfter
    · exact less first firstMem
    · exact ordered.2.2 first firstMem second inAfter

theorem DeleteOutcome.ordered {result : DeleteResult Node}
    (outcome : DeleteOutcome key target tree result) (ordered : tree.Ordered key) :
    result.top.Ordered key := by
  rcases outcome with ⟨-, rfl⟩ | ⟨before, found, after, nodes, -, -, rest⟩
  · exact ordered
  · unfold AvlTree.Ordered at ordered ⊢
    rw [nodes] at ordered
    rw [rest]
    exact ordered.sublist (List.Sublist.append_left (sublist_cons_self found after) before)

end Search

/-! ## Sequences of calls -/

namespace AvlTree

open List

/-- At every node the heights of the subtrees differ by at most one, and the stored balance is the
sign of the difference. -/
def IsBalanced : AvlTree Node → Prop
  | .null => True
  | .node left right balance _ =>
    left.IsBalanced ∧ right.IsBalanced ∧ |(left.height : Int) - right.height| ≤ 1 ∧
      balance.toInt = ((right.height : Int) - left.height).sign

variable {tree : AvlTree Node}

theorem IsAvl.isBalanced (treeAvl : tree.IsAvl) : tree.IsBalanced := by
  induction tree with
  | null => trivial
  | node left right balance object leftIH rightIH =>
    obtain ⟨leftAvl, rightAvl, difference⟩ := treeAvl
    refine ⟨leftIH leftAvl, rightIH rightAvl, ?_, ?_⟩
    · rw [abs_sub_comm, ← difference]
      cases balance <;> decide
    · rw [← difference]
      cases balance <;> rfl

/-- The subtrees that the links of `tree` lead to, `tree` included. -/
inductive Below : AvlTree Node → AvlTree Node → Prop
  | self (tree : AvlTree Node) : Below tree tree
  | left {subtree left : AvlTree Node} (right : AvlTree Node) (balance : BalanceType)
      (object : Node) : Below subtree left → Below subtree (.node left right balance object)
  | right {subtree right : AvlTree Node} (left : AvlTree Node) (balance : BalanceType)
      (object : Node) : Below subtree right → Below subtree (.node left right balance object)

theorem Below.isAvl {subtree : AvlTree Node} (below : Below subtree tree) (treeAvl : tree.IsAvl) :
    subtree.IsAvl := by
  induction below with
  | self => exact treeAvl
  | left right balance object below ih => exact ih treeAvl.1
  | right left balance object below ih => exact ih treeAvl.2.1

theorem Below.ordered {Key : Type*} [LinearOrder Key] {key : Node → Key} {subtree : AvlTree Node}
    (below : Below subtree tree) (ordered : tree.Ordered key) : subtree.Ordered key := by
  induction below with
  | self => exact ordered
  | left right balance object below ih => exact ih (ordered_node.mp ordered).1
  | right left balance object below ih => exact ih (ordered_node.mp ordered).2.1

end AvlTree

/-- The calls that change a tree. -/
inductive AvlCall (Node : Type*)
  | insert (new : Node) (isNewNode : Bool)
  | delete (target : Node)

def AvlStep (compareFunc : Node → Node → CompareCode) (tree : AvlTree Node) :
    AvlCall Node → AvlTree Node → Prop
  | .insert new isNewNode, next =>
    ∃ result, avlInsertInternal compareFunc new isNewNode tree = some result ∧
      result.top = next
  | .delete target, next =>
    ∃ result, avlDeleteInternal compareFunc target tree = some result ∧ result.top = next

section Runs

variable {Key : Type*} [LinearOrder Key]
variable {compareFunc : Node → Node → CompareCode} {key : Node → Key}

theorem AvlStep.keeps (orders : OrdersBy compareFunc key) {next : AvlTree Node}
    {call : AvlCall Node} (stepped : AvlStep compareFunc tree call next)
    (invariant : tree.IsAvl ∧ tree.Ordered key) : next.IsAvl ∧ next.Ordered key := by
  obtain ⟨treeAvl, ordered⟩ := invariant
  cases call with
  | insert new isNewNode =>
    obtain ⟨result, computed, rfl⟩ := stepped
    obtain ⟨expected, same, topAvl, -, outcome, -⟩ :=
      avlInsertInternal_spec orders new isNewNode treeAvl ordered
    obtain rfl : expected = result := Option.some.inj (same.symm.trans computed)
    exact ⟨topAvl, outcome.ordered ordered⟩
  | delete target =>
    obtain ⟨result, computed, rfl⟩ := stepped
    obtain ⟨expected, same, topAvl, -, outcome⟩ :=
      avlDeleteInternal_spec orders target treeAvl ordered
    obtain rfl : expected = result := Option.some.inj (same.symm.trans computed)
    exact ⟨topAvl, outcome.ordered ordered⟩

/-- Every tree built by insertions and deletions from the empty one is a
balanced search tree with exact balance fields.  On it, and on each of its
subtrees, both operations return with the outcome described above, and the
flag they leave says exactly whether the height changed. -/
theorem avl_calls_correct (orders : OrdersBy compareFunc key) {calls : List (AvlCall Node)}
    {tree : AvlTree Node}
    (run : Runs (fun _ _ => True) (AvlStep compareFunc) .null calls tree) :
    tree.Ordered key ∧ tree.IsBalanced ∧
      ∀ subtree, AvlTree.Below subtree tree →
        (∀ new isNewNode, ∃ result,
          avlInsertInternal compareFunc new isNewNode subtree = some result ∧
          InsertOutcome key new isNewNode subtree result ∧
          result.top.Ordered key ∧ result.top.IsBalanced ∧
          (result.balancingNeeded = true ↔ result.top.height ≠ subtree.height)) ∧
        ∀ target, ∃ result,
          avlDeleteInternal compareFunc target subtree = some result ∧
          DeleteOutcome key target subtree result ∧
          result.top.Ordered key ∧ result.top.IsBalanced ∧
          (result.balancingNeeded = true ↔ result.top.height ≠ subtree.height) := by
  have invariant : tree.IsAvl ∧ tree.Ordered key := run.invariant
    (fun _ _ _ kept _ stepped => AvlStep.keeps orders stepped kept)
    ⟨by simp, List.Pairwise.nil⟩
  refine ⟨invariant.2, invariant.1.isBalanced, fun subtree below => ⟨?_, ?_⟩⟩
  · intro new isNewNode
    obtain ⟨result, computed, topAvl, heights, outcome, -⟩ := avlInsertInternal_spec orders new
      isNewNode (below.isAvl invariant.1) (below.ordered invariant.2)
    refine ⟨result, computed, outcome, outcome.ordered (below.ordered invariant.2),
      topAvl.isBalanced, ?_⟩
    rw [heights]
    cases result.balancingNeeded <;> simp
  · intro target
    obtain ⟨result, computed, topAvl, heights, outcome⟩ := avlDeleteInternal_spec orders target
      (below.isAvl invariant.1) (below.ordered invariant.2)
    refine ⟨result, computed, outcome, outcome.ordered (below.ordered invariant.2),
      topAvl.isBalanced, ?_⟩
    rw [← heights]
    cases result.balancingNeeded <;> simp

/-- Comparison of integers as nodes that are their own keys. -/
def compareIntegers (first second : Int) : CompareCode :=
  if first < second then .lt else if second < first then .gt else .eq

/-- Three insertions with a double rotation, and a deletion of the root. -/
theorem avl_calls_correct_integers :
    ∃ tree, Runs (fun _ _ => True) (AvlStep compareIntegers) .null
      [.insert 1 false, .insert 3 false, .insert 2 false, .delete 2] tree ∧
      tree.Ordered id ∧ tree.IsBalanced ∧ tree.inorder = [1, 3] := by
  have run : Runs (fun _ _ => True) (AvlStep compareIntegers) .null
      [.insert 1 false, .insert 3 false, .insert 2 false, .delete 2]
      (.node .null (.node .null .null .balanced 3) .rightHeavy 1) :=
    .cons trivial ⟨_, rfl, rfl⟩ (.cons trivial ⟨_, rfl, rfl⟩
      (.cons trivial ⟨_, rfl, rfl⟩ (.cons trivial ⟨_, rfl, rfl⟩ (.nil _))))
  have orders : OrdersBy compareIntegers (id : Int → Int) := fun _ _ => rfl
  have correct := avl_calls_correct orders run
  exact ⟨_, run, correct.1, correct.2.1, rfl⟩

end Runs

end CLibs.Avl
