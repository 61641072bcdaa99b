import CLibs.RbtreeCorrectness

/-!
# Replacement of a node of the red-black tree

Model of `rb_replace`, which redirects the pointer of the parent and copies the
old node to the new one.  The parent pointers of the children are left as they
are, so the replacement is complete just for a node without children.
-/

namespace CLibs.Rbtree

open TreeMemory

variable {Node : Type} [DecidableEq Node]

def copyNode (memory : Memory Node) (old new : Node) : Memory Node :=
  let memory := memory.setChild .left new (memory.child .left old)
  let memory := memory.setChild .right new (memory.child .right old)
  let memory := memory.setParent new (memory.parent old)
  memory.setColor new (memory.color old)

def rbReplace (memory : Memory Node) (old new : Node) : Memory Node :=
  let memory := memory.relink (memory.parent old) old (some new)
  let memory :=
    if memory.child .left old ≠ none then memory.setChild .left new (memory.child .left old)
    else memory
  let memory :=
    if memory.child .right old ≠ none then memory.setChild .right new (memory.child .right old)
    else memory
  copyNode memory old new

/-- The nodes that can be reached through the pointers of the tree, upwards as
well as downwards. -/
inductive Reachable (memory : Memory Node) : Node → Prop
  | root {node : Node} (isRoot : memory.root = some node) : Reachable memory node
  | child {parent node : Node} {side : Side} (above : Reachable memory parent)
      (isChild : memory.child side parent = some node) : Reachable memory node
  | parent {child node : Node} (below : Reachable memory child)
      (isParent : memory.parent child = some node) : Reachable memory node

def renamed (old new node : Node) : Node :=
  if node = old then new else node

/-- What is expected of the memory after `old` was replaced with `new` in a tree
with these nodes. -/
structure Replaced (nodes : List Node) (old new : Node) (memory : Memory Node) : Prop where
  forwards : Returns (enumerate (rbtreeFirst memory) (rbtreeNext memory))
    (nodes.map (renamed old new))
  backwards : Returns (enumerate (rbtreeLast memory) (rbtreePrev memory))
    (nodes.map (renamed old new)).reverse
  child_parent : ∀ parent side child, InTree memory parent →
    memory.child side parent = some child → memory.parent child = some parent
  unreachable : ¬ Reachable memory old

/-! ## What the assignments do -/

section Fields

variable (memory : Memory Node) {old new : Node}

theorem copyNode_same {other : Node} (different : other ≠ new) :
    memory.Same (copyNode memory old new) other :=
  (((same_setChild different).trans (same_setChild different)).trans
    (same_setParent different)).trans (same_setColor different)

theorem copyNode_fields (different : old ≠ new) :
    (copyNode memory old new).parent new = memory.parent old ∧
      (copyNode memory old new).color new = memory.color old ∧
        ∀ side, (copyNode memory old new).child side new = memory.child side old := by
  refine ⟨setParent_parent_self _ _ _, Function.update_self _ _ _, fun side => ?_⟩
  cases side <;> simp [copyNode, TreeMemory.setColor, setParent, setChild, different]

theorem rbReplace_eq (different : old ≠ new) :
    rbReplace memory old new =
      copyNode (memory.relink (memory.parent old) old (some new)) old new := by
  generalize relinked : memory.relink (memory.parent old) old (some new) = linked
  have again : ∀ (first second : Memory Node), first.root = second.root →
      first.parent = second.parent → first.color = second.color →
      (∀ side node, node ≠ new → first.child side node = second.child side node) →
      copyNode first old new = copyNode second old new := by
    intro first second sameRoot sameParent sameColor sameChild
    obtain ⟨root, child, parent, color⟩ := first
    obtain ⟨root', child', parent', color'⟩ := second
    cases sameRoot
    cases sameParent
    cases sameColor
    simp only [copyNode, setChild, setParent, TreeMemory.setColor, TreeMemory.mk.injEq, and_true,
      true_and]
    funext side node
    have sameNode := sameChild side node
    cases side <;> by_cases isNew : node = new <;> simp_all
  simp only [rbReplace, relinked]
  apply again
  · split <;> split <;> rfl
  · split <;> split <;> rfl
  · split <;> split <;> rfl
  · intro side node notNew
    split <;> split <;> simp [setChild, notNew]

end Fields

variable {memory : Memory Node} {path : List (Frame Color Node)} {tree : Tree Color Node}
variable {old new : Node}

theorem rbReplace_same (different : old ≠ new) {other : Node} (notNew : other ≠ new) :
    (memory.relink (memory.parent old) old (some new)).Same (rbReplace memory old new) other := by
  rw [rbReplace_eq memory different]
  exact copyNode_same _ notNew

theorem rbReplace_above (focused : memory.Focused path tree) (isRoot : tree.root = some old)
    (fresh : new ∉ (plug path tree).inorder) :
    (rbReplace memory old new).PathShape path (some new) := by
  have different : old ≠ new := by
    rintro rfl
    exact fresh (mem_inorder_plug.mpr (.inl (Tree.mem_of_root isRoot)))
  have linked := focused.relink isRoot (some new)
  rw [← focused.shape.parent_of_root isRoot] at linked
  apply linked.congr
  · rw [rbReplace_eq memory different]
    rfl
  · intro other member
    apply rbReplace_same different
    rintro rfl
    exact fresh (mem_inorder_plug.mpr (.inr member))

theorem rbReplace_fields (focused : memory.Focused path tree) (isRoot : tree.root = some old)
    (different : old ≠ new) :
    (rbReplace memory old new).parent new = memory.parent old ∧
      (rbReplace memory old new).color new = memory.color old ∧
        ∀ side, (rbReplace memory old new).child side new = memory.child side old := by
  have notAbove : memory.parent old ≠ some old := by
    rw [focused.shape.parent_of_root isRoot]
    exact top_ne focused.nodup (Tree.mem_of_root isRoot)
  obtain ⟨sameParent, sameColor, sameChild⟩ : memory.Same
      (memory.relink (memory.parent old) old (some new)) old := same_relink notAbove
  obtain ⟨isParent, isColor, isChild⟩ :=
    copyNode_fields (memory.relink (memory.parent old) old (some new)) different
  rw [rbReplace_eq memory different]
  exact ⟨isParent.trans sameParent, isColor.trans sameColor,
    fun side => (isChild side).trans (sameChild side)⟩

omit [DecidableEq Node] in
theorem inTree_of_above {node : Node} (above : memory.PathShape path (some node)) :
    InTree memory node := by
  induction path generalizing node with
  | nil => exact .root above
  | cons frame path ih => exact .child (ih above.2.2.2.2.2) above.2.2.1

omit [DecidableEq Node] in
theorem Reachable.mem {node : Node} (reachable : Reachable memory node)
    (represents : memory.Represents tree) : node ∈ tree.inorder := by
  have consistent := consistent_of_represents represents
  induction reachable with
  | root isRoot => exact Tree.mem_of_root (represents.above.symm.trans isRoot)
  | child above isChild ih =>
    rw [← inTree_iff represents] at ih ⊢
    exact .child ih isChild
  | parent below isParent ih => exact consistent.parent_inside ih isParent

/-! ## A node without children -/

theorem rbReplace_represents {color : Color}
    (focused : memory.Focused path (.node color .nil old .nil))
    (fresh : new ∉ (plug path (Tree.node color .nil old .nil)).inorder) :
    (rbReplace memory old new).Represents (plug path (.node color .nil new .nil)) := by
  have isRoot : (Tree.node color .nil old .nil : Tree Color Node).root = some old := rfl
  have different : old ≠ new := by
    rintro rfl
    exact fresh (mem_inorder_plug.mpr (.inl (Tree.mem_of_root isRoot)))
  have notInPath : new ∉ pathNodes path := fun member => fresh (mem_inorder_plug.mpr (.inr member))
  obtain ⟨isParent, isColor, isChild⟩ := rbReplace_fields focused isRoot different
  obtain ⟨oldParent, oldColor, oldLeft, oldRight, -⟩ := focused.shape
  have nodup : (plug path (.nil : Tree Color Node)).inorder.Nodup := by
    have nodup := focused.nodup
    rw [inorder_plug] at nodup ⊢
    exact (List.nodup_cons.mp (List.nodup_middle.mp nodup)).2
  rw [← focused_iff_represents]
  exact ⟨rbReplace_above focused isRoot fresh,
    ⟨isParent.trans oldParent, isColor.trans oldColor, (isChild .left).trans oldLeft,
      (isChild .right).trans oldRight, trivial, trivial⟩,
    nodup_newLeaf nodup notInPath⟩

theorem inorder_renamed {color : Color}
    (nodup : (plug path (Tree.node color .nil old .nil)).inorder.Nodup) :
    (plug path (.node color .nil old .nil)).inorder.map (renamed old new) =
      (plug path (Tree.node color .nil new .nil)).inorder := by
  have fixed : ∀ node ∈ pathNodes path, renamed old new node = node := by
    rintro node member
    apply if_neg
    rintro rfl
    exact notMem_pathNodes nodup (by simp [Tree.inorder]) member
  rw [← Tree.inorder_map, map_plug_eq_self _ fixed]
  simp [Tree.map, renamed]

theorem replaced_of_leaf {color : Color} (focused : memory.Focused path (.node color .nil old .nil))
    (fresh : new ∉ (plug path (Tree.node color .nil old .nil)).inorder) :
    Replaced (plug path (Tree.node color .nil old .nil)).inorder old new
      (rbReplace memory old new) := by
  have represents := rbReplace_represents focused fresh
  have consistent := consistent_of_represents represents
  constructor
  · rw [inorder_renamed focused.nodup]
    exact rbtreeNext_enumerates represents
  · rw [inorder_renamed focused.nodup]
    exact rbtreePrev_enumerates represents
  · intro parent side child inTree isChild
    exact consistent.child_parent ((inTree_iff represents parent).mp inTree) isChild
  · intro reachable
    have member := mem_inorder_plug.mp (reachable.mem represents)
    have notInPath : old ∉ pathNodes path :=
      notMem_pathNodes focused.nodup (Tree.mem_of_root rfl)
    rcases member with isNew | inPath
    · obtain rfl : old = new := by simpa [Tree.inorder] using isNew
      exact fresh (mem_inorder_plug.mpr (.inl isNew))
    · exact notInPath inPath

/-! ## A node with a child -/

theorem not_replaced_of_child {nodes : List Node} {side : Side} {child : Node}
    (represents : memory.Represents tree) (member : old ∈ tree.inorder) (fresh : new ∉ tree.inorder)
    (isChild : memory.child side old = some child) :
    ¬ Replaced nodes old new (rbReplace memory old new) := by
  intro replaced
  have different : old ≠ new := by
    rintro rfl
    exact fresh member
  have isParent : memory.parent child = some old :=
    (consistent_of_represents represents).child_parent member isChild
  have childIn : child ∈ tree.inorder := by
    rw [← inTree_iff represents] at member ⊢
    exact .child member isChild
  have notNew : child ≠ new := by
    rintro rfl
    exact fresh childIn
  obtain ⟨path, color, left, right, rfl⟩ := exists_plug member
  have focused := focused_iff_represents.mpr represents
  have inTree : InTree (rbReplace memory old new) new :=
    inTree_of_above (rbReplace_above focused rfl fresh)
  have newChild := (rbReplace_fields focused rfl different).2.2 side
  have named := replaced.child_parent new side child inTree (newChild.trans isChild)
  have stale : (rbReplace memory old new).parent child = memory.parent child := by
    rw [(rbReplace_same different notNew).1, relink_parent]
  rw [stale, isParent] at named
  exact different (Option.some.inj named)

theorem replaced_iff (represents : memory.Represents tree) (member : old ∈ tree.inorder)
    (fresh : new ∉ tree.inorder) :
    Replaced tree.inorder old new (rbReplace memory old new) ↔
      memory.child .left old = none ∧ memory.child .right old = none := by
  constructor
  · intro replaced
    constructor
    · apply Option.eq_none_iff_forall_ne_some.mpr
      intro child isChild
      exact not_replaced_of_child represents member fresh isChild replaced
    · apply Option.eq_none_iff_forall_ne_some.mpr
      intro child isChild
      exact not_replaced_of_child represents member fresh isChild replaced
  · rintro ⟨noLeft, noRight⟩
    obtain ⟨path, color, left, right, rfl⟩ := exists_plug member
    have focused := focused_iff_represents.mpr represents
    obtain ⟨-, -, isLeft, isRight, -⟩ := focused.shape
    have nil_of_root : ∀ {part : Tree Color Node}, part.root = none → part = .nil := by
      intro part noRoot
      cases part with
      | nil => rfl
      | node => cases noRoot
    obtain rfl := nil_of_root (isLeft.symm.trans noLeft)
    obtain rfl := nil_of_root (isRight.symm.trans noRight)
    exact replaced_of_leaf focused fresh

/-! ## Runs -/

variable {Key : Type} [LinearOrder Key] {key : Node → Key}

/-- In every state of every run the loops pass the nodes in order and in reverse
order, and a replacement is complete just if the old node has no children. -/
theorem rbReplace_complete_iff {first last : Memory Node} {calls : List (Call Node)}
    (isEmpty : first.root = none) (run : Runs (Allowed key) Step first calls last) :
    ∃ tree, Correct key last tree ∧
      Returns (enumerate (rbtreeFirst last) (rbtreeNext last)) tree.inorder ∧
      Returns (enumerate (rbtreeLast last) (rbtreePrev last)) tree.inorder.reverse ∧
      ∀ old new, InTree last old → ¬ InTree last new →
        (Replaced tree.inorder old new (rbReplace last old new) ↔
          last.child .left old = none ∧ last.child .right old = none) := by
  obtain ⟨tree, correct⟩ := correct_of_run isEmpty run
  refine ⟨tree, correct, rbtreeNext_enumerates correct.represents,
    rbtreePrev_enumerates correct.represents, ?_⟩
  intro old new inTree outside
  rw [inTree_iff correct.represents] at inTree outside
  exact replaced_iff correct.represents inTree outside

/-- The empty tree, and the memory after 5 and then 3 was inserted. -/
def noNodes : Memory Nat :=
  ⟨none, fun _ _ => none, fun _ => none, fun _ => .red⟩

def oneNode : Memory Nat :=
  (((newLeaf noNodes none 5).setRoot (some 5)).setColor 5 .black).setColor 5 .black

def twoNodes : Memory Nat :=
  ((newLeaf oneNode (some 5) 3).setChild .left 5 (some 3)).setColor 3 .red

theorem inserts_twoNodes :
    Runs (Allowed id) Step noNodes
      [.insert none none 5, .insert (some 5) (some (.child .left 5)) 3] twoNodes ∧
      ∃ tree, Correct id twoNodes tree ∧ tree.inorder = [3, 5] := by
  have start : Correct (id : Nat → Nat) noNodes .nil := correct_empty id rfl
  have firstAllowed : Allowed id noNodes (.insert none none 5) := by
    refine ⟨?_, .root, .root, rfl, .inr ⟨rfl, rfl⟩⟩
    rw [inTree_iff start.represents]
    simp [Tree.inorder]
  have firstStep : Step noNodes (.insert none none 5) oneNode := by
    refine ⟨1, fun fuel sufficient => ?_⟩
    obtain ⟨less, rfl⟩ : ∃ less, fuel = less + 1 := ⟨fuel - 1, by omega⟩
    rfl
  obtain ⟨one, tree, step, correct, smaller, greater, isNil, order⟩ := start.step firstAllowed
  obtain rfl := step.unique firstStep
  obtain ⟨rfl, rfl⟩ := List.append_eq_nil_iff.mp isNil.symm
  have secondAllowed : Allowed id oneNode (.insert (some 5) (some (.child .left 5)) 3) := by
    refine ⟨?_, .child .left 5, .left .root rfl (by decide), rfl, .inl rfl⟩
    rw [inTree_iff correct.represents, order]
    decide
  have secondStep : Step oneNode (.insert (some 5) (some (.child .left 5)) 3) twoNodes := by
    refine ⟨1, fun fuel sufficient => ?_⟩
    obtain ⟨less, rfl⟩ : ∃ less, fuel = less + 1 := ⟨fuel - 1, by omega⟩
    rfl
  obtain ⟨two, tree', step', correct', lower, upper, isOne, order'⟩ := correct.step secondAllowed
  obtain rfl := step'.unique secondStep
  refine ⟨.cons firstAllowed firstStep (.cons secondAllowed secondStep (.nil _)), tree', correct', ?_⟩
  have sorted := correct'.sorted
  rw [order] at isOne
  rw [order'] at sorted ⊢
  cases lower with
  | nil =>
    obtain rfl : upper = [5] := isOne.symm
    rfl
  | cons first rest =>
    obtain ⟨rfl, isNil⟩ := List.cons_eq_cons.mp isOne
    obtain ⟨rfl, rfl⟩ := List.append_eq_nil_iff.mp isNil.symm
    simp [Sorted] at sorted

/-- After the root of this tree is replaced with 7 its child still names 5. -/
theorem rbReplace_stale : ∃ last : Memory Nat,
    Runs (Allowed id) Step noNodes
      [.insert none none 5, .insert (some 5) (some (.child .left 5)) 3] last ∧
      InTree last 5 ∧ ¬ InTree last 7 ∧ ∀ nodes, ¬ Replaced nodes 5 7 (rbReplace last 5 7) := by
  obtain ⟨run, tree, correct, order⟩ := inserts_twoNodes
  have member : 5 ∈ tree.inorder := by
    rw [order]
    decide
  have fresh : 7 ∉ tree.inorder := by
    rw [order]
    decide
  refine ⟨twoNodes, run, (inTree_iff correct.represents 5).mpr member,
    fun inTree => fresh ((inTree_iff correct.represents 7).mp inTree), ?_⟩
  intro nodes
  have isChild : twoNodes.child .left 5 = some 3 := rfl
  exact not_replaced_of_child correct.represents member fresh isChild

/-- A root with a left child. -/
theorem rbReplace_complete_iff_two : Runs (Allowed id) Step noNodes
      [.insert none none 5, .insert (some 5) (some (.child .left 5)) 3] twoNodes ∧
    ∃ tree, Correct id twoNodes tree ∧
      ∀ old new, InTree twoNodes old → ¬ InTree twoNodes new →
        (Replaced tree.inorder old new (rbReplace twoNodes old new) ↔
          twoNodes.child .left old = none ∧ twoNodes.child .right old = none) := by
  have run := inserts_twoNodes.1
  obtain ⟨tree, correct, -, -, complete⟩ := rbReplace_complete_iff rfl run
  exact ⟨run, tree, correct, complete⟩

end CLibs.Rbtree
