import CLibs.AvlSearch
import CLibs.FuelledLoops
import Mathlib.Data.List.Basic

/-!
# The safe walk over AVL trees

Model of `avl_tree_delete` and `avl_tree_walk_safe` of `avl/avl.c`.  The callback
is any function of its context and of the node it is given; it may ask for the
deletion of this node.  A node that was deleted is freed, so the walk may only
read nodes that are still in the tree.
-/

namespace CLibs.Avl

open List

variable {Node Ctx : Type}

section Code

/-- `avl_tree_delete`, called with a place for the deleted object: the return
code.  `hasMagic` tells the objects that `avl_tree_allocate_object` returned. -/
def avlTreeDelete (tree : Handle Node) (hasMagic : Node → Bool) (object : Node) :
    Except HandleFault (Handle Node × Int) :=
  if hasMagic object then
    if tree.sanityFn object = 0 then
      avlTreeLock tree >>= fun tree =>
        match avlDeleteInternal tree.compareFn object tree.root with
        | none => .error .null
        | some result =>
          match result.delNode with
          | some _ => .ok (avlTreeUnlock
              { tree with root := result.top, nodeCnt := tree.nodeCnt - 1 }, 0)
          | none => .ok (avlTreeUnlock { tree with root := result.top }, -1)
    else .ok (tree, tree.sanityFn object)
  else .ok (tree, -1)

/-- Whether the walk goes on. -/
inductive WalkCode
  | contWalk
  | stopWalk
  deriving DecidableEq

/-- What a callback does: it leaves the tree as it is, or it deletes the node it
was given and goes on with the return code of that. -/
inductive Visit (Ctx : Type)
  | leave (ctx : Ctx) (code : WalkCode)
  | delete (answer : Int → Ctx × WalkCode)

/-- What a walk leaves behind, and the nodes it passed to the callback. -/
structure Walked (Node Ctx : Type) where
  tree : Handle Node
  ctx : Ctx
  visited : List Node
  result : WalkCode

variable (hasMagic : Node → Bool) (walkFn : Ctx → Node → Visit Ctx)

def avlTreeWalkInternal (tree : Handle Node) (ctx : Ctx) (node : Node) :
    Except HandleFault (Handle Node × Ctx × WalkCode) :=
  match walkFn ctx node with
  | .leave ctx code => .ok (tree, ctx, code)
  | .delete answer => (avlTreeDelete tree hasMagic node).map fun (tree, rc) => (tree, answer rc)

variable [DecidableEq Node]

def walkSafeLoop : Nat → Handle Node → Ctx → Option Node → WalkCode →
    Except HandleFault (Walked Node Ctx)
  | 0, _, _, _, _ => .error .fuel
  | _ + 1, tree, ctx, none, result => .ok ⟨tree, ctx, [], result⟩
  | _ + 1, tree, ctx, some _, .stopWalk => .ok ⟨tree, ctx, [], .stopWalk⟩
  | fuel + 1, tree, ctx, some node, .contWalk =>
    if node ∈ tree.root.inorder then
      let next := avlGetNextV2 tree.compareFn tree.root node
      avlTreeWalkInternal hasMagic walkFn tree ctx node >>= fun (tree, ctx, result) =>
        (walkSafeLoop fuel tree ctx next result).map fun walked =>
          { walked with visited := node :: walked.visited }
    else .error .freed

def avlTreeWalkSafe (fuel : Nat) (tree : Handle Node) (ctx : Ctx) :
    Except HandleFault (Walked Node Ctx) :=
  match tree.root with
  | .null => .ok ⟨tree, ctx, [], .contWalk⟩
  | .node _ _ _ _ =>
    avlTreeLock tree >>= fun tree =>
      (walkSafeLoop hasMagic walkFn fuel tree ctx (avlTreeGetFirst tree.root) .contWalk).map
        fun walked => { walked with tree := avlTreeUnlock walked.tree }

end Code

/-! ## What the callback decides -/

/-- The nodes that are visited and those of them that are deleted, the context
and the code in the end. -/
structure Visits (Node Ctx : Type) where
  visited : List Node
  removed : List Node
  ctx : Ctx
  result : WalkCode

section Decisions

variable (accepted : Node → Int) (walkFn : Ctx → Node → Visit Ctx)

/-- The context and the code after a visit, and whether the node is deleted.
`accepted` is the return code of the checks of `avl_tree_delete`. -/
def decision (ctx : Ctx) (node : Node) : Ctx × WalkCode × Bool :=
  match walkFn ctx node with
  | .leave ctx code => (ctx, code, false)
  | .delete answer =>
    ((answer (accepted node)).1, (answer (accepted node)).2, accepted node = 0)

variable {accepted walkFn} {ctx : Ctx} {node : Node}

theorem decision_leave {after : Ctx} {code : WalkCode} (visit : walkFn ctx node = .leave after code) :
    decision accepted walkFn ctx node = (after, code, false) := by
  simp only [decision, visit]

theorem decision_delete {answer : Int → Ctx × WalkCode}
    (visit : walkFn ctx node = .delete answer) : decision accepted walkFn ctx node =
      ((answer (accepted node)).1, (answer (accepted node)).2, decide (accepted node = 0)) := by
  simp only [decision, visit]

variable (accepted walkFn)

/-- What a walk does that does not depend on the tree: it comes to the nodes in their order until it
is told to stop. -/
def visits (ctx : Ctx) : List Node → Visits Node Ctx
  | [] => ⟨[], [], ctx, .contWalk⟩
  | node :: rest =>
    let (ctx, code, deleted) := decision accepted walkFn ctx node
    let here := if deleted then [node] else []
    match code with
    | .stopWalk => ⟨[node], here, ctx, .stopWalk⟩
    | .contWalk =>
      let later := visits ctx rest
      ⟨node :: later.visited, here ++ later.removed, later.ctx, later.result⟩

end Decisions

/-! ## One visit -/

section Visit

variable {Key : Type} [LinearOrder Key] {key : Node → Key} {compareFunc : Node → Node → CompareCode}
variable {kept rest : List Node} {node : Node}

theorem nodup_of_sorted {nodes : List Node}
    (sorted : nodes.Pairwise fun first second => key first < key second) : nodes.Nodup :=
  sorted.imp fun less same => less.ne (congrArg key same)

theorem avlGetNextV2_follows (orders : OrdersBy compareFunc key) {tree : AvlTree Node}
    (ordered : tree.Ordered key) (nodes : tree.inorder = kept ++ node :: rest) :
    avlGetNextV2 compareFunc tree node = rest.head? := by
  have sorted := ordered
  unfold AvlTree.Ordered at sorted
  rw [nodes] at sorted
  obtain ⟨-, fromNode, smaller⟩ := pairwise_append.mp sorted
  have skips : kept.find? (inRange key node false) = none := by
    rw [List.find?_eq_none]
    intro other member
    simp [inRange, (smaller other member node mem_cons_self).le]
  rw [avlGetNextV2, avlGetNextInternalV2_found orders ordered, nodes, List.find?_append, skips,
    Option.none_or, List.find?_cons_of_neg (by simp [inRange])]
  cases rest with
  | nil => rfl
  | cons next rest =>
    have isNext := (pairwise_cons.mp fromNode).1 next mem_cons_self
    rw [List.find?_cons_of_pos (by simp [inRange, isNext])]
    rfl

theorem avlDeleteInternal_removes (orders : OrdersBy compareFunc key) {tree : AvlTree Node}
    (treeAvl : tree.IsAvl) (ordered : tree.Ordered key)
    (nodes : tree.inorder = kept ++ node :: rest) :
    ∃ result, avlDeleteInternal compareFunc node tree = some result ∧ result.top.IsAvl ∧
      result.delNode = some node ∧ result.top.inorder = kept ++ rest := by
  obtain ⟨result, computed, topAvl, -, outcome⟩ := avlDeleteInternal_spec orders node treeAvl ordered
  refine ⟨result, computed, topAvl, ?_⟩
  have member : node ∈ tree.inorder := by
    rw [nodes]
    simp
  rcases outcome with ⟨absent, -⟩ | ⟨before, found, after, split, sameKey, isFound, left⟩
  · exact absurd rfl (absent node member)
  · have sorted := ordered
    unfold AvlTree.Ordered at sorted
    rw [split] at sorted member
    obtain ⟨-, fromFound, smaller⟩ := pairwise_append.mp sorted
    have greater := (pairwise_cons.mp fromFound).1
    have notBefore : node ∉ before := by
      intro inBefore
      exact (smaller node inBefore found mem_cons_self).ne sameKey.symm
    have notAfter : node ∉ after := by
      intro inAfter
      exact (greater node inAfter).ne sameKey
    obtain rfl : found = node := by
      rw [mem_append, mem_cons] at member
      rcases member with inBefore | same | inAfter
      · exact absurd inBefore notBefore
      · exact same.symm
      · exact absurd inAfter notAfter
    obtain ⟨rfl, -, rfl⟩ := (append_cons_inj_of_notMem notBefore notAfter).mp
      (split.symm.trans nodes)
    exact ⟨isFound, left⟩

variable {hasMagic : Node → Bool} {walkFn : Ctx → Node → Visit Ctx}

/-- The return code of the checks of `avl_tree_delete`. -/
def acceptCode (tree : Handle Node) (hasMagic : Node → Bool) (node : Node) : Int :=
  if hasMagic node then tree.sanityFn node else -1

variable {tree : Handle Node}

theorem avlTreeDelete_refused (refused : acceptCode tree hasMagic node ≠ 0) :
    avlTreeDelete tree hasMagic node = .ok (tree, acceptCode tree hasMagic node) := by
  unfold avlTreeDelete acceptCode at *
  by_cases magic : hasMagic node = true
  · rw [if_pos magic] at refused ⊢
    rw [if_neg refused, if_pos magic]
  · rw [if_neg magic, if_neg magic]

theorem avlTreeDelete_accepted (accepted : acceptCode tree hasMagic node = 0) :
    avlTreeDelete tree hasMagic node = avlTreeLock tree >>= fun tree =>
      match avlDeleteInternal tree.compareFn node tree.root with
      | none => .error .null
      | some result =>
        match result.delNode with
        | some _ => .ok (avlTreeUnlock
            { tree with root := result.top, nodeCnt := tree.nodeCnt - 1 }, 0)
        | none => .ok (avlTreeUnlock { tree with root := result.top }, -1) := by
  unfold acceptCode at accepted
  by_cases magic : hasMagic node = true
  · rw [if_pos magic] at accepted
    rw [avlTreeDelete, if_pos magic, if_pos accepted]
  · rw [if_neg magic] at accepted
    cases accepted

/-- One visit of the walk at a node that is still there. -/
theorem avlTreeWalkInternal_visits (orders : OrdersBy tree.compareFn key)
    (treeAvl : tree.root.IsAvl) (ordered : tree.root.Ordered key)
    (nodes : tree.root.inorder = kept ++ node :: rest) {ctx : Ctx}
    (free : tree.notThreadsafe = true ∨
      (decision (acceptCode tree hasMagic) walkFn ctx node).2.2 = false) :
    ∃ top count, avlTreeWalkInternal hasMagic walkFn tree ctx node =
        .ok ({ tree with root := top, nodeCnt := count },
          (decision (acceptCode tree hasMagic) walkFn ctx node).1,
          (decision (acceptCode tree hasMagic) walkFn ctx node).2.1) ∧
      top.IsAvl ∧
      top.inorder = kept ++
        ((if (decision (acceptCode tree hasMagic) walkFn ctx node).2.2 then [] else [node]) ++
          rest) := by
  unfold avlTreeWalkInternal
  cases visit : walkFn ctx node with
  | leave after code =>
    rw [decision_leave visit]
    exact ⟨tree.root, tree.nodeCnt, rfl, treeAvl, nodes⟩
  | delete answer =>
    rw [decision_delete visit] at free ⊢
    by_cases accepted : acceptCode tree hasMagic node = 0
    · have alone : tree.notThreadsafe = true := by simpa [accepted] using free
      obtain ⟨result, computed, topAvl, isFound, left⟩ :=
        avlDeleteInternal_removes orders treeAvl ordered nodes
      refine ⟨result.top, tree.nodeCnt - 1, ?_, topAvl, ?_⟩
      · have unlocked : avlTreeLock tree = .ok tree := if_pos alone
        have stays : avlTreeUnlock { tree with root := result.top, nodeCnt := tree.nodeCnt - 1 } =
            { tree with root := result.top, nodeCnt := tree.nodeCnt - 1 } := if_pos alone
        simp only [avlTreeDelete_accepted accepted, unlocked, bind, Except.bind, computed, isFound,
          stays, Except.map, accepted]
      · simpa [accepted] using left
    · refine ⟨tree.root, tree.nodeCnt, ?_, treeAvl, ?_⟩
      · rw [avlTreeDelete_refused accepted]
        rfl
      · simpa [accepted] using nodes

theorem avlTreeWalkInternal_deadlocks (shared : tree.notThreadsafe = false)
    (locked : tree.mutex = true) {ctx : Ctx}
    (deletes : (decision (acceptCode tree hasMagic) walkFn ctx node).2.2 = true) :
    avlTreeWalkInternal hasMagic walkFn tree ctx node = .error .deadlock := by
  unfold avlTreeWalkInternal
  cases visit : walkFn ctx node with
  | leave after code =>
    rw [decision_leave visit] at deletes
    cases deletes
  | delete answer =>
    rw [decision_delete visit] at deletes
    have accepted : acceptCode tree hasMagic node = 0 := by simpa using deletes
    simp only [avlTreeDelete_accepted accepted, avlTreeLock, shared, locked, if_true,
      Bool.false_eq_true, if_false]
    rfl

end Visit

end CLibs.Avl
