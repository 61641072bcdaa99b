import CLibs.RbtreeCalls
import Mathlib.Order.Nat

/-!
# Correctness of the red-black tree

Every insertion at a place found by a descent and every deletion of a node of
the tree keeps the tree correct, and adds or removes exactly the node it is
called with; so the tree is correct in every state of every run.
-/

namespace CLibs.Rbtree

open TreeMemory List

variable {Node : Type} [DecidableEq Node] {memory : Memory Node}
variable {path : List (Frame Color Node)} {tree : Tree Color Node}
variable {Key : Type} [LinearOrder Key] {key : Node → Key}

def Sorted (key : Node → Key) (nodes : List Node) : Prop :=
  nodes.Pairwise fun first second => key first ≤ key second

omit [DecidableEq Node] in
theorem Sorted.around {color : Color} {left right : Tree Color Node} {node : Node}
    (sorted : Sorted key (plug path (.node color left node right)).inorder) :
    (∀ other ∈ left.inorder, key other ≤ key node) ∧
      ∀ other ∈ right.inorder, key node ≤ key other := by
  rw [Sorted, inorder_plug, Tree.inorder] at sorted
  have inside := (pairwise_append.mp (pairwise_append.mp sorted).2.1).1
  obtain ⟨_, rightPart, leftPart⟩ := pairwise_append.mp inside
  refine ⟨?_, (pairwise_cons.mp rightPart).1⟩
  intro other member
  exact leftPart other member node mem_cons_self

omit [DecidableEq Node] in
theorem Descends.exists_path {target : Key} {parent : Option Node} {link : Link Node}
    (represents : memory.Represents tree) (sorted : Sorted key tree.inorder)
    (descends : Descends memory key target parent link) :
    ∃ path hole, tree = plug path hole ∧ top path = parent ∧ linkOf path = link ∧
      (∀ node ∈ before path, key node ≤ target) ∧ ∀ node ∈ after path, target ≤ key node := by
  have found_node : ∀ {path hole node}, memory.Represents (plug path hole) →
      load memory (linkOf path) = some node → ∃ color left right, hole = .node color left node right := by
    intro path hole node represents found
    rw [load_linkOf (focused_iff_represents.mpr represents)] at found
    cases hole with
    | nil => cases found
    | node color left item right =>
      cases found
      exact ⟨color, left, right, rfl⟩
  induction descends with
  | root => exact ⟨[], tree, rfl, rfl, rfl, by simp [before], by simp [after]⟩
  | @left _ _ node _ found notAfter ih =>
    obtain ⟨path, hole, rfl, -, rfl, lower, upper⟩ := ih
    obtain ⟨color, left, right, rfl⟩ := found_node represents found
    refine ⟨⟨.left, color, node, right⟩ :: path, left, rfl, rfl, rfl, lower, ?_⟩
    intro other member
    simp only [after, cons_append, mem_cons, mem_append] at member
    rcases member with rfl | inRight | inAfter
    · exact notAfter
    · exact le_trans notAfter (sorted.around.2 other inRight)
    · exact upper other inAfter
  | @right _ _ node _ found notBefore ih =>
    obtain ⟨path, hole, rfl, -, rfl, lower, upper⟩ := ih
    obtain ⟨color, left, right, rfl⟩ := found_node represents found
    refine ⟨⟨.right, color, node, left⟩ :: path, right, rfl, rfl, rfl, ?_, upper⟩
    intro other member
    simp only [before, mem_append, mem_singleton] at member
    rcases member with inBefore | inLeft | rfl
    · exact lower other inBefore
    · exact le_trans (sorted.around.1 other inLeft) notBefore
    · exact notBefore

omit [DecidableEq Node] in
theorem Sorted.insert {smaller greater : List Node} {node : Node}
    (sorted : Sorted key (smaller ++ greater)) (lower : ∀ other ∈ smaller, key other ≤ key node)
    (upper : ∀ other ∈ greater, key node ≤ key other) :
    Sorted key (smaller ++ node :: greater) := by
  obtain ⟨smallerSorted, greaterSorted, across⟩ := pairwise_append.mp sorted
  refine pairwise_append.mpr ⟨smallerSorted, pairwise_cons.mpr ⟨upper, greaterSorted⟩, ?_⟩
  intro first firstMem second secondMem
  rcases mem_cons.mp secondMem with rfl | inGreater
  · exact lower first firstMem
  · exact across first firstMem second inGreater

/-! ## Runs -/

/-- The memory holds the tree with all its parent pointers, the colours follow
the rules, and the keys are in order. -/
structure Correct (key : Node → Key) (memory : Memory Node) (tree : Tree Color Node) : Prop where
  represents : memory.Represents tree
  redBlack : RedBlack tree
  sorted : Sorted key tree.inorder

/-- The nodes in order before and after a call. -/
def Effect (previous current : List Node) : Call Node → Prop
  | .insert _ _ node => ∃ smaller greater, previous = smaller ++ greater ∧
      current = smaller ++ node :: greater
  | .delete node => ∃ smaller greater, previous = smaller ++ node :: greater ∧
      current = smaller ++ greater

theorem Correct.insert {parent : Option Node} {link : Option (Link Node)} {node : Node}
    (correct : Correct key memory tree) (allowed : Allowed key memory (.insert parent link node)) :
    ∃ next tree', Step memory (.insert parent link node) next ∧ Correct key next tree' ∧
      Effect tree.inorder tree'.inorder (.insert parent link node) := by
  obtain ⟨outside, place, descends, isFree, isLink⟩ := allowed
  rw [inTree_iff correct.represents] at outside
  obtain ⟨path, hole, rfl, rfl, rfl, lower, upper⟩ :=
    descends.exists_path correct.represents correct.sorted
  have focused := focused_iff_represents.mpr correct.represents
  rw [load_linkOf focused] at isFree
  obtain rfl : hole = .nil := by
    cases hole with
    | nil => rfl
    | node => cases isFree
  have fresh : node ∉ pathNodes path := fun member => outside (mem_inorder_plug.mpr (.inr member))
  obtain ⟨next, result, returns, represents, redBlack, order⟩ :=
    rbtreeInsert_returns focused correct.redBlack fresh isLink
  have sorted := correct.sorted
  rw [inorder_plug] at sorted
  refine ⟨next, result, returns, ⟨represents, redBlack, ?_⟩, before path, after path, ?_, order⟩
  · rw [order]
    exact sorted.insert lower upper
  · exact inorder_plug path .nil

theorem Correct.delete {node : Node} (correct : Correct key memory tree)
    (allowed : Allowed key memory (.delete node)) :
    ∃ next tree', Step memory (.delete node) next ∧ Correct key next tree' ∧
      Effect tree.inorder tree'.inorder (.delete node) := by
  obtain ⟨path, color, left, right, rfl⟩ :=
    exists_plug ((inTree_iff correct.represents node).mp allowed)
  have focused := focused_iff_represents.mpr correct.represents
  obtain ⟨next, result, returns, represents, redBlack, order⟩ :=
    rbtreeDelete_returns focused correct.redBlack
  have previous : (plug path (.node color left node right)).inorder =
      (before path ++ left.inorder) ++ node :: (right.inorder ++ after path) := by
    rw [inorder_plug, Tree.inorder]
    simp
  have current : result.inorder =
      (before path ++ left.inorder) ++ (right.inorder ++ after path) := by
    rw [order]
    simp
  refine ⟨next, result, returns, ⟨represents, redBlack, ?_⟩, _, _, previous, current⟩
  have sorted := correct.sorted
  rw [previous] at sorted
  rw [current]
  apply List.Pairwise.sublist _ sorted
  exact (List.Sublist.refl _).append (sublist_cons_self _ _)

theorem Correct.step {call : Call Node} (correct : Correct key memory tree)
    (allowed : Allowed key memory call) :
    ∃ next tree', Step memory call next ∧ Correct key next tree' ∧
      Effect tree.inorder tree'.inorder call := by
  cases call with
  | insert parent link node => exact correct.insert allowed
  | delete node => exact correct.delete allowed

omit [DecidableEq Node] in
theorem correct_empty (key : Node → Key) (isEmpty : memory.root = none) :
    Correct key memory .nil :=
  ⟨⟨isEmpty, trivial, nodup_nil⟩, redBlack_iff.mpr ⟨rfl, 0, rfl⟩, List.Pairwise.nil⟩

theorem correct_of_run {first last : Memory Node} {calls : List (Call Node)}
    (isEmpty : first.root = none) (run : Runs (Allowed key) Step first calls last) :
    ∃ tree, Correct key last tree := by
  have initial : ∃ tree, Correct key first tree := ⟨.nil, correct_empty key isEmpty⟩
  apply run.invariant _ initial
  rintro state call next ⟨tree, correct⟩ allowed step
  obtain ⟨next', tree', step', correct', -⟩ := correct.step allowed
  obtain rfl : next' = next := step'.unique step
  exact ⟨tree', correct'⟩

/-- In every state of every run the tree is correct, and every further call
returns, leaves a correct tree and adds or removes exactly its node. -/
theorem rbtree_calls_correct {first last : Memory Node} {calls : List (Call Node)}
    (isEmpty : first.root = none) (run : Runs (Allowed key) Step first calls last) :
    ∃ tree, Correct key last tree ∧ ∀ call, Allowed key last call →
      ∃ next tree', Step last call next ∧ Correct key next tree' ∧
        Effect tree.inorder tree'.inorder call := by
  obtain ⟨tree, correct⟩ := correct_of_run isEmpty run
  exact ⟨tree, correct, fun call allowed => correct.step allowed⟩

omit [DecidableEq Node] in
theorem not_inTree (nodes : List Node) {node : Node}
    (closed : (∀ node ∈ memory.root, node ∈ nodes) ∧ ∀ parent ∈ nodes,
      (∀ node ∈ memory.child .left parent, node ∈ nodes) ∧
        ∀ node ∈ memory.child .right parent, node ∈ nodes)
    (fresh : node ∉ nodes) : ¬InTree memory node := by
  intro inTree
  apply fresh
  clear fresh
  induction inTree with
  | root isRoot => exact closed.1 _ isRoot
  | @child parent node side _ isChild member =>
    cases side with
    | left => exact (closed.2 parent member).1 node isChild
    | right => exact (closed.2 parent member).2 node isChild

/-- The memory behind some calls on an empty tree, with fuel for ten turns of a loop. -/
def afterCalls (calls : List (Call Nat)) : Memory Nat :=
  calls.foldl (fun memory call => (exec 10 memory call).toOption.getD memory)
    ⟨none, fun _ _ => none, fun _ => none, fun _ => .red⟩

/-- An insertion to the right of a node. -/
def rightOf (parent node : Nat) : Call Nat :=
  .insert (some parent) (some (.child .right parent)) node

/-- The third insertion rotates, the fourth recolours, and the deletion of a black leaf rotates. -/
theorem rbtree_calls_correct_rotations :
    ∃ last : Memory Nat, Runs (Allowed id) Step ⟨none, fun _ _ => none, fun _ => none, fun _ => .red⟩
      [.insert none none 1, rightOf 1 2, rightOf 2 3, rightOf 3 4, .delete 1] last ∧
      last.root = some 3 ∧ ∃ tree, Correct id last tree := by
  have one : Step (afterCalls []) (.insert none none 1) (afterCalls [.insert none none 1]) :=
    .of_add 10 fun _ => rfl
  have two : Step (afterCalls [.insert none none 1]) (rightOf 1 2)
      (afterCalls [.insert none none 1, rightOf 1 2]) := .of_add 10 fun _ => rfl
  have three : Step (afterCalls [.insert none none 1, rightOf 1 2]) (rightOf 2 3)
      (afterCalls [.insert none none 1, rightOf 1 2, rightOf 2 3]) := .of_add 10 fun _ => rfl
  have four : Step (afterCalls [.insert none none 1, rightOf 1 2, rightOf 2 3]) (rightOf 3 4)
      (afterCalls [.insert none none 1, rightOf 1 2, rightOf 2 3, rightOf 3 4]) :=
    .of_add 10 fun _ => rfl
  have deleted : Step (afterCalls [.insert none none 1, rightOf 1 2, rightOf 2 3, rightOf 3 4])
      (.delete 1) (afterCalls [.insert none none 1, rightOf 1 2, rightOf 2 3, rightOf 3 4, .delete 1]) :=
    .of_add 10 fun _ => rfl
  have run : Runs (Allowed id) Step ⟨none, fun _ _ => none, fun _ => none, fun _ => .red⟩
      [.insert none none 1, rightOf 1 2, rightOf 2 3, rightOf 3 4, .delete 1] _ :=
    .cons ⟨not_inTree [] (by decide) (by decide), _, .root, rfl, .inr ⟨rfl, rfl⟩⟩ one
    (.cons ⟨not_inTree [1] (by decide) (by decide), _, .right .root rfl (by decide), rfl, .inl rfl⟩ two
    (.cons ⟨not_inTree [1, 2] (by decide) (by decide), _,
      .right (.right .root rfl (by decide)) rfl (by decide), rfl, .inl rfl⟩ three
    (.cons ⟨not_inTree [1, 2, 3] (by decide) (by decide), _,
      .right (.right .root rfl (by decide)) rfl (by decide), rfl, .inl rfl⟩ four
    (.cons (@InTree.child _ _ _ _ .left (.root rfl) rfl) deleted (.nil _)))))
  obtain ⟨tree, isCorrect, -⟩ := rbtree_calls_correct rfl run
  exact ⟨_, run, rfl, tree, isCorrect⟩

end CLibs.Rbtree

/-!
## Iteration over the red-black tree

Model of `rbtree_first`, `rbtree_last`, `rbtree_prev` and `rbtree_next`.  The
four functions are two, each taken on one side.  Where a node stands in the
order is read off its path, so that a loop over the tree is an induction on the
nodes that are left.
-/

namespace CLibs.Rbtree

open TreeMemory List

variable {Node : Type} [DecidableEq Node]

section Code

/-- `while (node->left) node = node->left;`, or the same to the right. -/
def farthest (memory : Memory Node) (side : Side) : Nat → Node → Except Fault Node
  | 0, _ => .error .fuel
  | fuel + 1, node =>
    match memory.child side node with
    | some child => farthest memory side fuel child
    | none => .ok node

/-- Go up as long as the node is the child on `side`. -/
def climb (memory : Memory Node) (side : Side) : Nat → Node → Except Fault (Option Node)
  | 0, _ => .error .fuel
  | fuel + 1, node =>
    match memory.parent node with
    | some parent =>
      if memory.child side parent = some node then climb memory side fuel parent
      else .ok (some parent)
    | none => .ok none

def outermost (memory : Memory Node) (side : Side) (fuel : Nat) : Except Fault (Option Node) :=
  match memory.root with
  | none => .ok none
  | some node => (farthest memory side fuel node).map some

def neighbour (memory : Memory Node) (side : Side) (fuel : Nat) (node : Node) :
    Except Fault (Option Node) :=
  match memory.child side node with
  | some child => (farthest memory side.flip fuel child).map some
  | none => climb memory side fuel node

def rbtreeFirst (memory : Memory Node) : Nat → Except Fault (Option Node) :=
  outermost memory .left

def rbtreeLast (memory : Memory Node) : Nat → Except Fault (Option Node) :=
  outermost memory .right

def rbtreePrev (memory : Memory Node) : Nat → Node → Except Fault (Option Node) :=
  neighbour memory .left

def rbtreeNext (memory : Memory Node) : Nat → Node → Except Fault (Option Node) :=
  neighbour memory .right

def enumerateFrom (step : Nat → Node → Except Fault (Option Node)) :
    Nat → Option Node → Except Fault (List Node)
  | 0, _ => .error .fuel
  | _ + 1, none => .ok []
  | fuel + 1, some node =>
    step fuel node >>= fun next => (enumerateFrom step fuel next).map (node :: ·)

/-- The nodes of a walk, from its start on. -/
def enumerate (start : Nat → Except Fault (Option Node))
    (step : Nat → Node → Except Fault (Option Node)) (fuel : Nat) : Except Fault (List Node) :=
  start fuel >>= enumerateFrom step fuel

end Code

/-! ## The order on a side -/

section Order

omit [DecidableEq Node]

/-- Nodes in order, as they are met on the way to `side`. -/
def along (side : Side) (nodes : List Node) : List Node :=
  match side with
  | .left => nodes.reverse
  | .right => nodes

/-- The nodes on `side` of the hole, the next one first. -/
def beyond (side : Side) (path : List (Frame Color Node)) : List Node :=
  match side with
  | .left => (before path).reverse
  | .right => after path

variable {nodes : List Node} {node : Node}

theorem mem_along (side : Side) :
    node ∈ along side nodes ↔ node ∈ nodes := by
  cases side <;> simp [along]

theorem nodup_along (side : Side) :
    (along side nodes).Nodup ↔ nodes.Nodup := by
  cases side <;> simp [along]

theorem along_join (side : Side) (color : Color) (near : Tree Color Node) (node : Node)
    (far : Tree Color Node) : along side (Tree.join side color near node far).inorder =
      along side far.inorder ++ node :: along side near.inorder := by
  cases side <;> simp [along, Tree.join, Tree.inorder]

theorem along_plug (side : Side) (path : List (Frame Color Node)) (tree : Tree Color Node) :
    along side (plug path tree).inorder =
      (beyond side.flip path).reverse ++ (along side tree.inorder ++ beyond side path) := by
  cases side <;> simp [along, beyond, inorder_plug, Side.flip]

theorem beyond_same (side : Side) (color : Color) (node : Node) (sibling : Tree Color Node)
    (path : List (Frame Color Node)) :
    beyond side (⟨side, color, node, sibling⟩ :: path) = beyond side path := by
  cases side <;> rfl

theorem head_beyond_flip (side : Side) (color : Color) (node : Node) (sibling : Tree Color Node)
    (path : List (Frame Color Node)) :
    (beyond side (⟨side.flip, color, node, sibling⟩ :: path)).head? = some node := by
  cases side <;> simp [beyond, Side.flip, before, after]

end Order

/-! ## What the functions return -/

variable {memory : Memory Node} {path : List (Frame Color Node)} {tree : Tree Color Node}

omit [DecidableEq Node] in
theorem farthest_returns (side : Side) {parent : Option Node} (shape : memory.Shape parent tree)
    (isRoot : tree.root = some node) :
    ∃ last, Returns (fun fuel => farthest memory side fuel node) last ∧
      (along side.flip tree.inorder).head? = some last := by
  induction tree using Tree.induction_join side generalizing node parent with
  | isNil => cases isRoot
  | isJoin color near item far nearIh farIh =>
    obtain rfl : item = node := by simpa using isRoot
    obtain ⟨-, -, isNear, -, nearShape, -⟩ := shape_join.mp shape
    have order := along_join side.flip color far item near
    rw [Tree.join_flip] at order
    rw [order]
    cases nearRoot : near.root with
    | none =>
      obtain rfl : near = .nil := by
        cases near with
        | nil => rfl
        | node => cases nearRoot
      refine ⟨item, ⟨1, fun fuel sufficient => ?_⟩, ?_⟩
      · obtain ⟨less, rfl⟩ : ∃ less, fuel = less + 1 := ⟨fuel - 1, by omega⟩
        simp only [farthest, isNear, nearRoot]
      · cases side <;> rfl
    | some next =>
      obtain ⟨last, returns, isHead⟩ := nearIh nearShape nearRoot
      refine ⟨last, returns.iterate fun fuel => ?_, ?_⟩
      · simp only [farthest, isNear, nearRoot]
      · rw [List.head?_append, isHead]
        rfl

variable {side : Side}

theorem climb_returns (focused : memory.Focused path tree) (isRoot : tree.root = some node) :
    Returns (fun fuel => climb memory side fuel node) (beyond side path).head? := by
  induction path generalizing tree node with
  | nil =>
    have isParent : memory.parent node = none := focused.shape.parent_of_root isRoot
    refine ⟨1, fun fuel sufficient => ?_⟩
    obtain ⟨less, rfl⟩ : ∃ less, fuel = less + 1 := ⟨fuel - 1, by omega⟩
    simp only [climb, isParent]
    cases side <;> rfl
  | cons frame path ih =>
    have isParent : memory.parent node = some frame.item := focused.shape.parent_of_root isRoot
    have lifted := focused_cons.mp focused
    have isChild : memory.child frame.side frame.item = some node := lifted.near_eq.trans isRoot
    obtain ⟨frameSide, color, item, sibling⟩ := frame
    by_cases same : frameSide = side
    · subst same
      rw [beyond_same]
      refine (ih lifted (Tree.root_join _ _ _ _ _)).iterate fun fuel => ?_
      simp only [climb, isParent, isChild, if_true]
    · obtain rfl : frameSide = side.flip := by
        cases side <;> cases frameSide <;> first | rfl | exact absurd rfl same
      have notChild : memory.child side item ≠ some node := by
        have isSibling := lifted.far_eq
        rw [Side.flip_flip] at isSibling
        rw [isSibling]
        exact lifted.far_ne_near isRoot
      rw [head_beyond_flip]
      refine ⟨1, fun fuel sufficient => ?_⟩
      obtain ⟨less, rfl⟩ : ∃ less, fuel = less + 1 := ⟨fuel - 1, by omega⟩
      simp only [climb, isParent, if_neg notChild]

theorem neighbour_returns {color : Color} {near : Tree Color Node} {far : Tree Color Node}
    (focused : memory.Focused path (.join side color near node far)) :
    Returns (fun fuel => neighbour memory side fuel node)
      (along side near.inorder ++ beyond side path).head? := by
  have isNear := focused.near_eq
  cases near with
  | nil =>
    have climbs : Returns (fun fuel => climb memory side fuel node) (beyond side path).head? :=
      climb_returns focused (Tree.root_join _ _ _ _ _)
    have nothing : along side (Tree.nil : Tree Color Node).inorder = [] := by
      cases side <;> rfl
    rw [nothing, nil_append]
    simpa only [neighbour, isNear, Tree.root] using climbs
  | node nearColor left next right =>
    obtain ⟨last, returns, isHead⟩ := farthest_returns side.flip
      (shape_join.mp focused.shape).2.2.2.2.1 rfl
    rw [Side.flip_flip] at isHead
    rw [List.head?_append, isHead, Option.some_or]
    simpa only [neighbour, isNear, Tree.root] using returns.map some

omit [DecidableEq Node] in
theorem outermost_returns (side : Side) (represents : memory.Represents tree) :
    Returns (outermost memory side) (along side.flip tree.inorder).head? := by
  have isRoot : memory.root = tree.root := represents.above
  cases tree with
  | nil =>
    have nothing : (along side.flip (Tree.nil : Tree Color Node).inorder).head? = none := by
      cases side <;> rfl
    rw [nothing]
    refine ⟨0, fun fuel _ => ?_⟩
    simp only [outermost, isRoot, Tree.root]
  | node color left node right =>
    obtain ⟨last, returns, isHead⟩ := farthest_returns side represents.shape rfl
    rw [isHead]
    have returnsSome := returns.map some
    refine ⟨returnsSome.choose, fun fuel sufficient => ?_⟩
    simp only [outermost, isRoot, Tree.root]
    exact returnsSome.choose_spec fuel sufficient

theorem neighbour_follows (represents : memory.Represents tree) {passed rest : List Node}
    (order : along side tree.inorder = passed ++ node :: rest) :
    Returns (fun fuel => neighbour memory side fuel node) rest.head? := by
  have member : node ∈ tree.inorder := by
    rw [← mem_along side, order]
    simp
  have nodup : (along side tree.inorder).Nodup := (nodup_along side).mpr represents.nodup
  obtain ⟨path, color, near, far, rfl, focused⟩ := exists_focused represents member side
  have split := along_plug side path (.join side color near node far)
  rw [along_join, append_assoc, ← append_assoc, cons_append] at split
  rw [order] at nodup
  obtain ⟨-, notRest, apart⟩ := nodup_append.mp nodup
  have notPassed : node ∉ passed := fun member => apart node member node mem_cons_self rfl
  obtain ⟨-, -, rfl⟩ := (append_cons_inj_of_notMem notPassed
    (nodup_cons.mp notRest).1).mp (order.symm.trans split)
  exact neighbour_returns focused

/-! ## Loops over the tree -/

omit [DecidableEq Node] in
theorem enumerateFrom_returns {step : Nat → Node → Except Fault (Option Node)}
    (follows : ∀ passed node rest, nodes = passed ++ node :: rest →
      Returns (fun fuel => step fuel node) rest.head?) :
    ∀ passed rest, nodes = passed ++ rest →
      Returns (fun fuel => enumerateFrom step fuel rest.head?) rest := by
  intro passed rest split
  induction rest generalizing passed with
  | nil =>
    refine ⟨1, fun fuel sufficient => ?_⟩
    obtain ⟨less, rfl⟩ : ∃ less, fuel = less + 1 := ⟨fuel - 1, by omega⟩
    rfl
  | cons node rest ih =>
    have here := follows passed node rest split
    have later := ih (passed ++ [node]) (by simp [split])
    have body : Returns (fun fuel => step fuel node >>= fun next =>
        (enumerateFrom step fuel next).map (node :: ·)) (node :: rest) :=
      here.bind (later.map (node :: ·))
    exact body.iterate fun fuel => rfl

theorem enumerate_returns (side : Side) (represents : memory.Represents tree) :
    Returns (enumerate (outermost memory side.flip) (neighbour memory side))
      (along side tree.inorder) := by
  have starts : Returns (outermost memory side.flip) (along side tree.inorder).head? := by
    have starts := outermost_returns side.flip represents
    rwa [Side.flip_flip] at starts
  have continues : Returns (fun fuel => enumerateFrom (neighbour memory side) fuel
      (along side tree.inorder).head?) (along side tree.inorder) :=
    enumerateFrom_returns (fun passed node rest order => neighbour_follows represents order)
      [] _ rfl
  exact starts.bind continues

theorem rbtreeNext_enumerates (represents : memory.Represents tree) :
    Returns (enumerate (rbtreeFirst memory) (rbtreeNext memory)) tree.inorder :=
  enumerate_returns .right represents

theorem rbtreePrev_enumerates (represents : memory.Represents tree) :
    Returns (enumerate (rbtreeLast memory) (rbtreePrev memory)) tree.inorder.reverse :=
  enumerate_returns .left represents

end CLibs.Rbtree
