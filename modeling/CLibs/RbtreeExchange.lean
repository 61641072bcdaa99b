import CLibs.Rbtree
import Mathlib.Logic.Equiv.Basic

/-!
# Exchanging two nodes

`rbtree_swap` exchanges the places of a node and of another one below it; each
place keeps its colour.
-/

namespace CLibs.Rbtree

open TreeMemory

variable {Node : Type} [DecidableEq Node] {memory : Memory Node}
variable {path : List (Frame Color Node)} {tree : Tree Color Node}

theorem adopt_child (memory : Memory Node) (node child : Node) (side otherSide : Side)
    (other : Node) : (adopt memory node child side).child otherSide other =
      if otherSide = side ∧ other = child then
        (if memory.child side node = some child then some node else memory.child side node)
      else memory.child otherSide other := by
  simp only [adopt, setChild, setParentOf_child]

theorem adopt_parent (memory : Memory Node) (node child : Node) (side : Side) (other : Node) :
    (adopt memory node child side).parent other =
      if memory.child side node = some other then some child else memory.parent other := by
  simp only [adopt, setChild_parent]
  by_cases isChild : memory.child side node = some other
  · rw [isChild, if_pos rfl, setParentOf_parent_self]
  · rw [if_neg isChild, setParentOf_parent_of_ne _ _ _ isChild]

theorem swapOwn_child (memory : Memory Node) (p l r : Option Node) (node child : Node)
    (side : Side) (other : Node) : (swapOwn memory p l r node child).child side other =
      if other = node then (match side with | .left => l | .right => r)
      else memory.child side other := by
  by_cases isNode : other = node
  · cases side <;> simp [swapOwn, setColor, setChild, setParentOf_child, isNode]
  · simp [swapOwn, setColor, setChild, setParentOf_child, isNode]

theorem swapOwn_parent (memory : Memory Node) (p l r : Option Node) (node child other : Node) :
    (swapOwn memory p l r node child).parent other =
      if l = some other ∨ r = some other then some node
      else if other = node then (if p = some node then some child else p)
      else memory.parent other := by
  have parentOf : ∀ (memory : Memory Node) target value, (memory.setParentOf target value).parent other =
      if target = some other then value else memory.parent other := by
    intro memory target value
    by_cases same : target = some other
    · rw [same, if_pos rfl, setParentOf_parent_self]
    · rw [if_neg same, setParentOf_parent_of_ne _ _ _ same]
  simp only [swapOwn, setColor, setChild_parent, parentOf]
  simp only [setParent, Function.update_apply]
  grind

section Swap

variable {inside : Node → Prop} {node child : Node}

/-- The places of two nodes in a tree where the second one is below the first. -/
structure Exchangeable (memory : Memory Node) (inside : Node → Prop) (node child : Node) :
    Prop where
  consistent : Consistent memory inside
  node_inside : inside node
  child_inside : inside child
  different : node ≠ child
  not_above : memory.parent node ≠ some child
  apart : ∀ parent, memory.parent child = some parent → memory.parent node ≠ some parent

/-- What `rbtree_swap` leaves in the fields of the two nodes and of the others. -/
structure Swapped (memory next : Memory Node) (node child : Node) : Prop where
  root : next.root = if memory.parent node = none then some child else memory.root
  child_node : ∀ side, next.child side node = memory.child side child
  child_child : ∀ side, next.child side child =
    if memory.child side node = some child then some node else memory.child side node
  child_other : ∀ side other, other ≠ node → other ≠ child → next.child side other =
    if memory.parent node = some other ∧ memory.child side other = some node then some child
    else if memory.parent child = some other ∧ memory.child side other = some child then some node
    else memory.child side other
  parent_node : next.parent node =
    if memory.parent child = some node then some child else memory.parent child
  parent_child : next.parent child = memory.parent node
  parent_other : ∀ other, other ≠ node → other ≠ child → next.parent other =
    if memory.child .left child = some other ∨ memory.child .right child = some other then some node
    else if memory.child .left node = some other ∨ memory.child .right node = some other then
      some child
    else memory.parent other
  color_node : next.color node = memory.color child
  color_child : next.color child = memory.color node
  color_other : ∀ other, other ≠ node → other ≠ child → next.color other = memory.color other

theorem adopted_fields (notSelf : ∀ side, memory.child side node ≠ some node) :
    let adopted := adopt (adopt memory node child .left) node child .right
    adopted.root = memory.root ∧ adopted.color = memory.color ∧
      adopted.parent node = memory.parent node ∧
      (∀ other, adopted.parent other =
        if memory.child .left node = some other ∨ memory.child .right node = some other then
          some child
        else memory.parent other) ∧
      ∀ side other, adopted.child side other =
        if other = child then
          (if memory.child side node = some child then some node else memory.child side node)
        else memory.child side other := by
  have parent : ∀ other, (adopt (adopt memory node child .left) node child .right).parent other =
      if memory.child .left node = some other ∨ memory.child .right node = some other then
        some child
      else memory.parent other := by
    intro other
    rw [adopt_parent, adopt_parent, adopt_child]
    grind
  refine ⟨?_, ?_, ?_, parent, ?_⟩
  · simp [adopt]
  · simp [adopt]
  · rw [parent, if_neg]
    simp [notSelf]
  · intro side other
    rw [adopt_child, adopt_child, adopt_child]
    cases side <;> grind

theorem Exchangeable.relink_child (exchangeable : Exchangeable memory inside node child)
    {middle : Memory Node} {old above : Node} (oldInside : inside old)
    (isParent : memory.parent old = some above)
    (same : ∀ side, middle.child side above = memory.child side above) (new : Option Node)
    (side : Side) (other : Node) :
    (middle.relink (some above) old new).child side other =
      if other = above ∧ middle.child side other = some old then new
      else middle.child side other := by
  have consistent := exchangeable.consistent
  have aboveInside := consistent.parent_inside oldInside isParent
  apply TreeMemory.relink_child
  · rw [same, same]
    exact consistent.parent_child oldInside isParent
  · rw [same, same]
    exact consistent.children_ne aboveInside

theorem swapAbove_fields (exchangeable : Exchangeable memory inside node child)
    {middle : Memory Node} (root : middle.root = memory.root) (color : middle.color = memory.color)
    (parentNode : middle.parent node = memory.parent node)
    (childOf : ∀ side other, middle.child side other =
      if other = child then
        (if memory.child side node = some child then some node else memory.child side node)
      else memory.child side other) :
    (swapAbove middle (memory.parent child) node child).root =
        (if memory.parent node = none then some child else memory.root) ∧
      (swapAbove middle (memory.parent child) node child).color = memory.color ∧
      (∀ other, (swapAbove middle (memory.parent child) node child).parent other =
        if other = child then memory.parent node else middle.parent other) ∧
      ∀ side other, (swapAbove middle (memory.parent child) node child).child side other =
        if memory.parent node = some other ∧ memory.child side other = some node then some child
        else if other ≠ node ∧ memory.parent child = some other ∧ memory.child side other = some child
          then some node
        else middle.child side other := by
  have notAbove := exchangeable.not_above
  have apart := exchangeable.apart
  have childParent := exchangeable.consistent.parent_ne exchangeable.child_inside
  -- first the pointer to the node
  have firstChild : ∀ side other,
      (middle.relink (middle.parent node) node (some child)).child side other =
        if memory.parent node = some other ∧ memory.child side other = some node then some child
        else middle.child side other := by
    intro side other
    rw [parentNode]
    cases isParent : memory.parent node with
    | none => simp [relink]
    | some above =>
      have aboveSame : ∀ side, middle.child side above = memory.child side above := by
        intro side
        rw [childOf, if_neg]
        rintro rfl
        exact notAbove isParent
      rw [exchangeable.relink_child exchangeable.node_inside isParent aboveSame]
      by_cases isAbove : other = above
      · subst isAbove
        simp [aboveSame]
      · have notOther : ¬ some above = some other := fun same => isAbove (Option.some.inj same).symm
        simp [isAbove, notOther]
  have firstParent : (middle.relink (middle.parent node) node (some child)).parent node =
      memory.parent node := by
    rw [relink_parent, parentNode]
  simp only [swapAbove, firstParent]
  generalize first : middle.relink (middle.parent node) node (some child) = linked at *
  have linkedRoot : linked.root = if memory.parent node = none then some child else memory.root := by
    rw [← first, relink_root, parentNode, root]
  have linkedColor : linked.color = memory.color := by rw [← first, relink_color, color]
  have linkedParent : ∀ other, (linked.setParent child (memory.parent node)).parent other =
      if other = child then memory.parent node else middle.parent other := by
    intro other
    rw [← first]
    simp [setParent, Function.update_apply]
  cases isParent : memory.parent child with
  | none =>
    refine ⟨linkedRoot, linkedColor, linkedParent, ?_⟩
    intro side other
    simp [firstChild]
  | some above =>
    by_cases isNode : above = node
    · subst isNode
      simp only [if_true]
      refine ⟨linkedRoot, linkedColor, linkedParent, ?_⟩
      intro side other
      have notOther : ¬ (other ≠ above ∧ some above = some other ∧
          memory.child side other = some child) := by
        rintro ⟨different, same, _⟩
        exact different (Option.some.inj same).symm
      simp only [setParent_child, firstChild, notOther, if_false]
    · simp only [isNode, if_false]
      have aboveSame : ∀ side, (linked.setParent child (memory.parent node)).child side above =
          memory.child side above := by
        intro side
        have notFirst : ¬ (memory.parent node = some above ∧
            memory.child side above = some node) := fun both => apart above isParent both.1
        have notChild : above ≠ child := by
          rintro rfl
          exact childParent isParent
        rw [setParent_child, firstChild, if_neg notFirst, childOf, if_neg notChild]
      refine ⟨?_, ?_, ?_, ?_⟩
      · rw [relink_root]
        exact linkedRoot
      · rw [relink_color]
        exact linkedColor
      · rw [relink_parent]
        exact linkedParent
      · intro side other
        rw [exchangeable.relink_child exchangeable.child_inside isParent aboveSame]
        by_cases isAbove : other = above
        · subst isAbove
          have notFirst : ¬ (memory.parent node = some other ∧
              memory.child side other = some node) := fun both => apart other isParent both.1
          simp only [aboveSame, notFirst, isNode, true_and, not_false_eq_true, if_false, ne_eq]
          by_cases points : memory.child side other = some child
          · simp [points]
          · have same := aboveSame side
            simp only [setParent_child, firstChild, notFirst, if_false] at same
            simp [points, same]
        · have notOther : ¬ some above = some other := fun same => isAbove (Option.some.inj same).symm
          simp [isAbove, notOther, firstChild]

theorem rbtreeSwap_swapped (exchangeable : Exchangeable memory inside node child) :
    Swapped memory (rbtreeSwap memory node child) node child := by
  have consistent := exchangeable.consistent
  have nodeInside := exchangeable.node_inside
  have childInside := exchangeable.child_inside
  have different := exchangeable.different
  have notAbove := exchangeable.not_above
  have notSelf : ∀ side, memory.child side node ≠ some node := fun side isSelf =>
    consistent.parent_ne nodeInside (consistent.child_parent nodeInside isSelf)
  have notBelow : ∀ side, memory.child side child ≠ some node := fun side isChild =>
    notAbove (consistent.child_parent childInside isChild)
  have notChildSelf : ∀ side, memory.child side child ≠ some child := fun side isSelf =>
    consistent.parent_ne childInside (consistent.child_parent childInside isSelf)
  obtain ⟨root, color, parentNode, parent, childOf⟩ := adopted_fields notSelf
  generalize adopted : adopt (adopt memory node child .left) node child .right = middle at *
  simp only [rbtreeSwap, adopted]
  obtain ⟨aboveRoot, aboveColor, aboveParent, aboveChild⟩ :=
    swapAbove_fields exchangeable root color parentNode childOf
  generalize swapAbove middle (memory.parent child) node child = linked at *
  constructor
  · simp [swapOwn, setColor, aboveRoot]
  · intro side
    rw [swapOwn_child, if_pos rfl]
    cases side <;> rfl
  · intro side
    rw [swapOwn_child, if_neg different.symm, aboveChild, childOf]
    grind
  · intro side other notNode notChild
    rw [swapOwn_child, if_neg notNode, aboveChild, childOf]
    grind
  · rw [swapOwn_parent]
    grind
  · rw [swapOwn_parent, aboveParent]
    grind
  · intro other notNode notChild
    rw [swapOwn_parent, aboveParent, parent]
    grind
  · simp [swapOwn, setColor, setParentOf_color, aboveColor]
  · simp [swapOwn, setColor, setParentOf_color, aboveColor, different.symm]
  · intro other notNode notChild
    simp [swapOwn, setColor, setParentOf_color, aboveColor, notNode, notChild]

/-! ## Renaming the nodes of a tree -/

theorem map_swap (node child : Node) (pointer : Option Node) :
    pointer.map (Equiv.swap node child) =
      if pointer = some node then some child else if pointer = some child then some node
      else pointer := by
  cases pointer with
  | none => rfl
  | some other =>
    simp only [Option.map_some, Equiv.swap_apply_def, Option.some.injEq]
    split
    · rfl
    · split <;> rfl

theorem Exchangeable.rename (exchangeable : Exchangeable memory inside node child) {other : Node}
    (member : inside other) :
    (rbtreeSwap memory node child).parent (Equiv.swap node child other) =
        (memory.parent other).map (Equiv.swap node child) ∧
      (rbtreeSwap memory node child).color (Equiv.swap node child other) = memory.color other ∧
      ∀ side, (rbtreeSwap memory node child).child side (Equiv.swap node child other) =
        (memory.child side other).map (Equiv.swap node child) := by
  have swapped := rbtreeSwap_swapped exchangeable
  obtain ⟨consistent, nodeInside, childInside, different, notAbove, apart⟩ := exchangeable
  have notSelf : ∀ {self}, inside self → ∀ side, memory.child side self ≠ some self :=
    fun isInside side isSelf => consistent.parent_ne isInside (consistent.child_parent isInside isSelf)
  have notBelow : ∀ side, memory.child side child ≠ some node := fun side isChild =>
    notAbove (consistent.child_parent childInside isChild)
  simp only [map_swap]
  by_cases isNode : other = node
  · subst isNode
    rw [Equiv.swap_apply_left]
    refine ⟨?_, swapped.color_child, fun side => ?_⟩
    · rw [swapped.parent_child, if_neg (consistent.parent_ne nodeInside), if_neg notAbove]
    · rw [swapped.child_child, if_neg (notSelf nodeInside side)]
  by_cases isChild : other = child
  · subst isChild
    rw [Equiv.swap_apply_right]
    refine ⟨?_, swapped.color_node, fun side => ?_⟩
    · rw [swapped.parent_node, if_neg (consistent.parent_ne childInside)]
    · rw [swapped.child_node, if_neg (notBelow side), if_neg (notSelf childInside side)]
  rw [Equiv.swap_apply_of_ne_of_ne isNode isChild]
  refine ⟨?_, swapped.color_other other isNode isChild, fun side => ?_⟩
  · rw [swapped.parent_other other isNode isChild]
    have ofNode : (memory.child .left node = some other ∨ memory.child .right node = some other) ↔
        memory.parent other = some node := by
      constructor
      · rintro (isLeft | isRight)
        · exact consistent.child_parent nodeInside isLeft
        · exact consistent.child_parent nodeInside isRight
      · exact consistent.parent_child member
    have ofChild : (memory.child .left child = some other ∨ memory.child .right child = some other) ↔
        memory.parent other = some child := by
      constructor
      · rintro (isLeft | isRight)
        · exact consistent.child_parent childInside isLeft
        · exact consistent.child_parent childInside isRight
      · exact consistent.parent_child member
    simp only [ofNode, ofChild]
    grind
  · rw [swapped.child_other side other isNode isChild]
    have toNode : memory.child side other = some node → memory.parent node = some other :=
      consistent.child_parent member
    have toChild : memory.child side other = some child → memory.parent child = some other :=
      consistent.child_parent member
    grind

end Swap

/-- Two nodes change places, each with the color of the other. -/
theorem rbtreeSwap_focused {side : Side} {nodeColor childColor : Color}
    {inner : List (Frame Color Node)} {left right far : Tree Color Node} {node child : Node}
    (focused : memory.Focused path
      (.join side nodeColor (plug inner (.node childColor left child right)) node far)) :
    (rbtreeSwap memory node child).Focused path
      (.join side nodeColor (plug inner (.node childColor left node right)) child far) := by
  have represents := focused_iff_represents.mp focused
  have nodup := nodup_of_plug focused.nodup
  obtain ⟨nodeNotBelow, nodeNotFar, belowNodup, farNodup, disjoint⟩ :=
    Tree.nodup_inorder_join.mp nodup
  have childBelow : child ∈ (plug inner (.node childColor left child right)).inorder :=
    mem_inorder_plug.mpr (.inl (by simp [Tree.inorder]))
  have childMember : child ∈ (Tree.join side nodeColor (plug inner (.node childColor left child right))
      node far).inorder := by
    simp [childBelow]
  have exchangeable : Exchangeable memory (· ∈ (plug path (Tree.join side nodeColor
      (plug inner (.node childColor left child right)) node far)).inorder) node child := by
    refine ⟨consistent_of_represents represents, mem_inorder_plug.mpr (.inl (by simp)),
      mem_inorder_plug.mpr (.inl childMember), ?_, ?_, ?_⟩
    · rintro rfl
      exact nodeNotBelow childBelow
    · rw [focused.parent_eq]
      exact top_ne focused.nodup childMember
    · intro parent isParent
      rw [focused.parent_eq]
      intro isTop
      refine focused.parent_ne_top childMember ?_ isTop isParent
      rw [Tree.root_join]
      rintro ⟨⟩
      exact nodeNotBelow childBelow
  have fixed : ∀ item, item ≠ node → item ≠ child → Equiv.swap node child item = item :=
    fun item => Equiv.swap_apply_of_ne_of_ne
  have pathFixed : ∀ item ∈ pathNodes path, Equiv.swap node child item = item := by
    intro item member
    apply fixed
    · rintro rfl
      exact notMem_pathNodes focused.nodup (by simp) member
    · rintro rfl
      exact notMem_pathNodes focused.nodup childMember member
  have innerFixed : ∀ item ∈ pathNodes inner, Equiv.swap node child item = item := by
    intro item member
    apply fixed
    · rintro rfl
      exact nodeNotBelow (mem_inorder_plug.mpr (.inr member))
    · rintro rfl
      exact notMem_pathNodes belowNodup (by simp [Tree.inorder]) member
  have childNodup : (Tree.join .left childColor left child right).inorder.Nodup :=
    nodup_of_plug belowNodup
  obtain ⟨childNotLeft, childNotRight, -⟩ := Tree.nodup_inorder_join.mp childNodup
  have subtreeFixed : ∀ subtree : Tree Color Node, child ∉ subtree.inorder → node ∉ subtree.inorder →
      subtree.map (Equiv.swap node child) = subtree := by
    intro subtree childOut nodeOut
    apply Tree.map_eq_self
    intro item member
    apply fixed
    · exact fun same => nodeOut (same ▸ member)
    · exact fun same => childOut (same ▸ member)
  have nodeNotAt : node ∉ (Tree.node childColor left child right).inorder := fun member =>
    nodeNotBelow (mem_inorder_plug.mpr (.inl member))
  simp only [Tree.inorder, List.mem_append, List.mem_cons, not_or] at nodeNotAt
  have renamed : (plug path (Tree.join side nodeColor (plug inner (.node childColor left child right))
      node far)).map (Equiv.swap node child) =
      plug path (Tree.join side nodeColor (plug inner (.node childColor left node right)) child
        far) := by
    rw [map_plug_eq_self _ pathFixed, Tree.map_join, map_plug_eq_self _ innerFixed, Tree.map,
      Equiv.swap_apply_left, Equiv.swap_apply_right, subtreeFixed left childNotLeft nodeNotAt.1,
      subtreeFixed right childNotRight nodeNotAt.2.2,
      subtreeFixed far (disjoint child childBelow) nodeNotFar]
  rw [focused_iff_represents, ← renamed]
  refine ⟨?_, represents.shape.rename fun item member => exchangeable.rename member, ?_⟩
  · change (rbtreeSwap memory node child).root = _
    have isRoot : memory.root = _ := represents.above
    rw [(rbtreeSwap_swapped exchangeable).root, focused.parent_eq, Tree.root_map, isRoot]
    cases path with
    | nil => simp [top, plug]
    | cons frame path =>
      rw [if_neg (by simp [top])]
      cases rootEq : (plug (frame :: path) _).root with
      | none => rfl
      | some item => rw [Option.map_some, pathFixed item (mem_pathNodes_of_root frame rootEq)]
  · change (Tree.map _ _).inorder.Nodup
    rw [Tree.inorder_map]
    exact focused.nodup.map (Equiv.injective _)

end CLibs.Rbtree
