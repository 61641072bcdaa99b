import CLibs.RbtreeDeletion

/-!
# Insertion and deletion of a node

`rbtree_insert` and `rbtree_delete` for a place in the tree that is given by a
path: they return, keep the colour rules and the parent pointers, and add or
remove exactly the node they are called with.
-/

namespace CLibs.Rbtree

open TreeMemory List

variable {Node : Type} [DecidableEq Node] {memory : Memory Node}
variable {path : List (Frame Color Node)} {tree : Tree Color Node}

omit [DecidableEq Node] in
theorem inTree_iff (represents : memory.Represents tree) (node : Node) :
    InTree memory node ↔ node ∈ tree.inorder := by
  constructor
  · intro inTree
    induction inTree with
    | root isRoot => exact Tree.mem_of_root (represents.above.symm.trans isRoot)
    | @child parent node side _ isChild member =>
      obtain ⟨path, color, near, far, rfl, focused⟩ := exists_focused represents member side
      have isRoot : near.root = some node := focused.near_eq.symm.trans isChild
      apply mem_inorder_plug.mpr
      left
      simp [Tree.mem_of_root isRoot]
  · intro member
    obtain ⟨path, color, left, right, rfl⟩ := exists_plug member
    have focused : memory.Focused path (.join .left color left node right) :=
      focused_iff_represents.mpr represents
    -- the node above the hole is in the tree, and points to the hole
    clear member represents
    induction path generalizing color left node right with
    | nil => exact .root focused.above
    | cons frame path ih =>
      obtain ⟨side, frameColor, item, sibling⟩ := frame
      have isHole : memory.child side item = some node := by
        rw [(focused_cons.mp focused).near_eq, Tree.root_join]
      apply InTree.child _ isHole
      cases side with
      | left => exact ih item frameColor _ _ (focused_cons.mp focused)
      | right => exact ih item frameColor _ _ (focused_cons.mp focused)

/-! ## Insertion -/

/-- The place of the hole of a path. -/
def linkOf : List (Frame Color Node) → Link Node
  | [] => .root
  | frame :: _ => .child frame.side frame.item

omit [DecidableEq Node] in
theorem load_linkOf (focused : memory.Focused path tree) : load memory (linkOf path) = tree.root := by
  cases path with
  | nil => exact focused.above
  | cons frame path => exact focused.above.2.2.1

variable {node : Node} {color : Color}

omit [DecidableEq Node] in
theorem nodup_newLeaf (nodup : (plug path .nil).inorder.Nodup) (fresh : node ∉ pathNodes path) :
    (plug path (Tree.node color .nil node .nil)).inorder.Nodup := by
  rw [inorder_plug] at nodup ⊢
  simp only [Tree.inorder, nil_append, cons_append] at nodup ⊢
  exact nodup_middle.mpr (nodup_cons.mpr ⟨fresh, nodup⟩)

/-- The fields of a node that is going to be a leaf below `parent`. -/
def newLeaf (memory : Memory Node) (parent : Option Node) (node : Node) : Memory Node :=
  ((memory.setChild .right node none).setChild .left node none).setParent node parent

theorem same_newLeaf {parent : Option Node} {other : Node} (different : other ≠ node) :
    memory.Same (newLeaf memory parent node) other :=
  ((same_setChild different).trans (same_setChild different)).trans (same_setParent different)

theorem focused_newLeaf (focused : memory.Focused path .nil) (fresh : node ∉ pathNodes path)
    (color : Color) :
    (TreeMemory.setColor (store (newLeaf memory (top path) node) (linkOf path) (some node)) node
      color).Focused path (.node color .nil node .nil) := by
  have apart : ∀ other ∈ pathNodes path, other ≠ node := by
    rintro other member rfl
    exact fresh member
  have prepared : (newLeaf memory (top path) node).Focused path .nil := by
    refine ⟨focused.above.congr rfl ?_, trivial, focused.nodup⟩
    intro other member
    exact same_newLeaf (apart other member)
  have nodup : (plug path (Tree.node color .nil node .nil)).inorder.Nodup :=
    nodup_newLeaf focused.nodup fresh
  have isParent : (newLeaf memory (top path) node).parent node = top path :=
    setParent_parent_self _ _ _
  have isLeaf : ∀ side, (newLeaf memory (top path) node).child side node = none := by
    intro side
    cases side <;> simp [newLeaf, setParent, setChild]
  cases path with
  | nil =>
    refine ⟨rfl, ⟨isParent, Function.update_self _ _ _, isLeaf .left, isLeaf .right, trivial,
      trivial⟩, nodup⟩
  | cons frame path =>
    have notItem : node ≠ frame.item := by
      rintro rfl
      exact fresh (mem_pathNodes_cons.mpr (.inl rfl))
    have stillLeaf : ∀ side, ((newLeaf memory (top (frame :: path)) node).setChild frame.side
        frame.item (some node)).child side node = none := by
      intro side
      rw [setChild_child_of_ne _ _ _ _ notItem]
      exact isLeaf side
    refine ⟨(prepared.setHole (some node)).congr rfl ?_, ⟨isParent, Function.update_self _ _ _,
      stillLeaf .left, stillLeaf .right, trivial, trivial⟩, nodup⟩
    intro other member
    exact same_setColor (apart other member)

theorem rbtreeInsert_returns {link : Option (Link Node)} (focused : memory.Focused path .nil)
    (redBlack : RedBlack (plug path .nil)) (fresh : node ∉ pathNodes path)
    (isLink : link = some (linkOf path) ∨ top path = none ∧ link = none) :
    ∃ next result, Returns (fun fuel => rbtreeInsert fuel memory (top path) link node) next ∧
      next.Represents result ∧ RedBlack result ∧
      result.inorder = before path ++ node :: after path := by
  have newLeafFocus : ∀ color, (TreeMemory.setColor (store (newLeaf memory (top path) node)
      (linkOf path) (some node)) node color).Focused path (.join .left color .nil node .nil) :=
    focused_newLeaf focused fresh
  cases path with
  | nil =>
    -- the first node is black in the end, whether or not a link was passed
    have isRoot : memory.root = none := focused.above
    have started : ∃ first color, first.Focused [] (.join .left color .nil node .nil) ∧
        ∀ fuel, rbtreeInsert fuel memory none link node = rbtreeInsertColor fuel first node := by
      rcases isLink with rfl | ⟨-, rfl⟩
      · exact ⟨_, .red, newLeafFocus .red, fun fuel => rfl⟩
      · refine ⟨_, .black, newLeafFocus .black, fun fuel => ?_⟩
        simp only [rbtreeInsert, setParent_root, setChild_root, isRoot, if_true]
        rfl
    obtain ⟨first, color, firstFocus, isFirst⟩ := started
    have recolored := firstFocus.setColor .black
    refine ⟨_, _, ?_, recolored, ?_, rfl⟩
    · have unfold : ∀ fuel, rbtreeInsert (fuel + 1) memory none link node =
          .ok (first.setColor node .black) := by
        intro fuel
        rw [isFirst]
        simp only [rbtreeInsertColor, firstFocus.parent_eq, top]
      exact Returns.iterate unfold (Returns.pure _)
    · exact redBlack_iff.mpr ⟨rfl, 1, rfl, rfl⟩
  | cons frame path =>
    obtain ⟨height, above, balanced, -⟩ := redBlack.pathBalanced
    obtain rfl : height = 0 := balanced
    have isLink := isLink.resolve_right (by simp [top])
    subst isLink
    obtain ⟨next, result, returns, represents, isRedBlack, sameOrder⟩ :=
      rbtreeInsertColor_returns (newLeafFocus .red) rfl rfl (rfl : Balanced .nil 0)
        (rfl : Balanced .nil 0) above
    refine ⟨next, result, ?_, represents, isRedBlack, ?_⟩
    · obtain ⟨enough, returns⟩ := returns
      refine ⟨enough, fun fuel sufficient => ?_⟩
      have notEmpty : memory.root ≠ none := by
        have rootEq : memory.root = (plug (frame :: path) .nil).root :=
          (focused_iff_represents.mp focused).above
        rw [rootEq]
        exact root_plug_ne_none frame path _
      rw [← returns fuel sufficient]
      simp only [rbtreeInsert, store, linkOf, setChild_root, setParent_root, notEmpty, if_false]
      rfl
    · rw [sameOrder, inorder_plug]
      rfl

/-! ## Deletion -/

omit [DecidableEq Node] in
theorem leftmost_returns (focused : memory.Focused path tree) (isRoot : tree.root = some node) :
    ∃ inner color c right, tree = plug inner (.node color .nil c right) ∧ before inner = [] ∧
      Returns (fun fuel => leftmost fuel memory node) c := by
  induction tree generalizing path node with
  | nil => cases isRoot
  | node color left item right leftIh _ =>
    cases isRoot
    have leftFocus : memory.Focused path (.join .left color left item right) := focused
    have isLeft : memory.child .left item = left.root := leftFocus.near_eq
    cases leftRoot : left.root with
    | none =>
      cases left with
      | node => cases leftRoot
      | nil =>
        refine ⟨[], color, item, right, rfl, rfl, ?_⟩
        apply Returns.iterate _ (Returns.pure _)
        intro fuel
        simp only [leftmost, isLeft, Tree.root]
    | some below =>
      obtain ⟨inner, innerColor, c, beyond, rfl, noneBefore, returns⟩ :=
        leftIh (focused_near.mp leftFocus) leftRoot
      refine ⟨inner ++ [⟨.left, color, item, right⟩], innerColor, c, beyond, ?_, ?_, ?_⟩
      · rw [plug_append]
        rfl
      · rw [before_append, noneBefore]
        rfl
      · apply Returns.iterate _ returns
        intro fuel
        simp only [leftmost, isLeft, leftRoot]

theorem deleteSingle_represents {side : Side} {child : Tree Color Node} {height : Nat}
    (focused : memory.Focused path (.join side color child node .nil))
    (notEmpty : child.root ≠ none) (balanced : Balanced (.join side color child node .nil) height)
    (above : PathBalanced path height) :
    ∃ next result, deleteSingle memory side node = .ok next ∧ next.Represents result ∧
      RedBlack result ∧ result.inorder = before path ++ (child.inorder ++ after path) := by
  obtain ⟨rfl, rfl, item, rfl⟩ := balanced.single notEmpty
  have isBlackNode : memory.color node = .black := focused.color_eq
  have isChild : memory.child side node = some item := focused.near_eq
  have isRed : memory.color item = .red := (focused_near.mp focused).shape.2.1
  have below : memory.Focused path
      (.join side .black (plug [] (.node .red .nil item .nil)) node .nil) := focused
  have swapped : (rbtreeSwap memory node item).Focused path
      (.join side .black (.node .red .nil node .nil) item .nil) := rbtreeSwap_focused below
  obtain ⟨next, isNext, nextFocus⟩ := rbtreeUnlink_focused (focused_near.mp swapped)
  refine ⟨next, _, ?_, focused_iff_represents.mp nextFocus, ?_, ?_⟩
  · simp only [deleteSingle, isBlackNode, if_true, isChild, follow]
    change (if memory.color item = .red then _ else _) = _
    rw [if_pos isRed, isNext]
  · have balancedLeaf : Balanced (.join side .black .nil item .nil) (0 + 1) :=
      balanced_join_black.mpr ⟨rfl, rfl⟩
    refine above.redBlack_plug balancedLeaf ?_
    simp [Frame.fill]
  · simp only [plug, inorder_plug, Frame.fill]
    cases side <;> rfl

theorem append_eq_of_middle {first second third fourth : List Node}
    (same : first ++ node :: second = third ++ node :: fourth) (notFirst : node ∉ first)
    (notThird : node ∉ third) : first ++ second = third ++ fourth := by
  have erased := congrArg (List.erase · node) same
  simpa [erase_append_right _ notFirst, erase_append_right _ notThird] using erased

theorem deleteOuter_returns {left right : Tree Color Node}
    (focused : memory.Focused path (.node color left node right))
    (redBlack : RedBlack (plug path (.node color left node right)))
    (outer : left = .nil ∨ right = .nil) :
    ∃ next result, Returns (fun fuel => deleteOuter fuel memory node) next ∧
      next.Represents result ∧ RedBlack result ∧
      result.inorder = before path ++ (left.inorder ++ right.inorder ++ after path) := by
  obtain ⟨height, above, balanced, fits⟩ := redBlack.pathBalanced
  have isLeft : memory.child .left node = left.root := focused.shape.2.2.1
  have isRight : memory.child .right node = right.root := focused.shape.2.2.2.1
  have isColor : memory.color node = color := focused.shape.2.1
  cases left with
  | node leftColor below item beyond =>
    obtain rfl : right = .nil := outer.resolve_left (by simp)
    have single : memory.Focused path
        (.join .left color (.node leftColor below item beyond) node .nil) := focused
    obtain ⟨next, result, isNext, represents, isRedBlack, order⟩ :=
      deleteSingle_represents single (by simp [Tree.root]) balanced above
    refine ⟨next, result, ⟨0, fun fuel _ => ?_⟩, represents, isRedBlack, ?_⟩
    · simp only [deleteOuter, isLeft, isRight, Tree.root, isNext]
    · rw [order]
      simp [Tree.inorder]
  | nil =>
    cases right with
    | node rightColor below item beyond =>
      have single : memory.Focused path
          (.join .right color (.node rightColor below item beyond) node .nil) := focused
      obtain ⟨next, result, isNext, represents, isRedBlack, order⟩ :=
        deleteSingle_represents single (by simp [Tree.root]) balanced above
      refine ⟨next, result, ⟨0, fun fuel _ => ?_⟩, represents, isRedBlack, ?_⟩
      · simp only [deleteOuter, isLeft, isRight, Tree.root, isNext]
      · rw [order]
        rfl
    | nil =>
      cases color with
      | red =>
        obtain ⟨next, isNext, nextFocus⟩ := rbtreeUnlink_focused focused
        refine ⟨next, _, ⟨0, fun fuel _ => ?_⟩, focused_iff_represents.mp nextFocus,
          above.redBlack_plug balanced.2.2.1 (by simp [rootColor]), inorder_plug _ _⟩
        simp only [deleteOuter, isLeft, isRight, Tree.root, isColor, if_true, isNext]
      | black =>
        cases height with
        | zero => exact absurd balanced (by simp [Balanced])
        | succ height =>
          obtain ⟨middle, path', returns, middleFocus, middleAbove, sameOrder⟩ :=
            rbtreeDeleteColor_returns focused rfl rfl above
          obtain ⟨next, isNext, nextFocus⟩ := rbtreeUnlink_focused middleFocus
          refine ⟨next, _, ?_, focused_iff_represents.mp nextFocus,
            middleAbove.redBlack_plug balanced.1 (by simp [rootColor]), ?_⟩
          · have unlinks : Returns (fun _ : Nat => rbtreeUnlink middle node) next :=
              ⟨0, fun fuel _ => isNext⟩
            simpa only [deleteOuter, isLeft, isRight, Tree.root, isColor, reduceCtorEq,
              if_false] using returns.bind unlinks
          · rw [inorder_plug, inorder_plug] at sameOrder
            rw [inorder_plug]
            apply append_eq_of_middle sameOrder
            · intro member
              exact notMem_pathNodes middleFocus.nodup (by simp [Tree.inorder])
                (mem_append_left _ member)
            · intro member
              exact notMem_pathNodes focused.nodup (by simp [Tree.inorder])
                (mem_append_left _ member)

theorem rbtreeDelete_returns {left right : Tree Color Node}
    (focused : memory.Focused path (.node color left node right))
    (redBlack : RedBlack (plug path (.node color left node right))) :
    ∃ next result, Returns (fun fuel => rbtreeDelete fuel memory node) next ∧
      next.Represents result ∧ RedBlack result ∧
      result.inorder = before path ++ (left.inorder ++ right.inorder ++ after path) := by
  have isLeft : memory.child .left node = left.root := focused.shape.2.2.1
  have isRight : memory.child .right node = right.root := focused.shape.2.2.2.1
  cases leftRoot : left.root with
  | none =>
    have leftNil : left = .nil := by
      cases left with
      | nil => rfl
      | node => cases leftRoot
    obtain ⟨next, result, returns, rest⟩ := deleteOuter_returns focused redBlack (.inl leftNil)
    refine ⟨next, result, ?_, rest⟩
    simpa only [rbtreeDelete, isLeft, leftRoot] using returns
  | some below =>
    cases rightRoot : right.root with
    | none =>
      have rightNil : right = .nil := by
        cases right with
        | nil => rfl
        | node => cases rightRoot
      obtain ⟨next, result, returns, rest⟩ := deleteOuter_returns focused redBlack (.inr rightNil)
      refine ⟨next, result, ?_, rest⟩
      simpa only [rbtreeDelete, isLeft, leftRoot, isRight, rightRoot] using returns
    | some successorRoot =>
      have rightFocus : memory.Focused path (.join .right color right node left) := focused
      obtain ⟨inner, childColor, c, beyond, rfl, noneBefore, descends⟩ :=
        leftmost_returns (focused_near.mp rightFocus) rightRoot
      have swapped := focused_append.mpr (focused_near.mp (rbtreeSwap_focused rightFocus))
      obtain ⟨height, above, balanced, fits⟩ :
          ∃ height, PathBalanced (inner ++ ⟨.right, color, node, left⟩ :: path) height ∧
            Balanced (.node childColor .nil c beyond) height ∧ (childColor = .red →
              BlackTop (inner ++ ⟨.right, color, node, left⟩ :: path)) := by
        apply RedBlack.pathBalanced
        rw [plug_append]
        exact redBlack
      have swappedRedBlack : RedBlack (plug (inner ++ ⟨.right, color, c, left⟩ :: path)
          (.node childColor .nil node beyond)) := by
        refine PathBalanced.redBlack_plug (pathBalanced_rename.mp above) ?_ ?_
        · cases childColor with
          | red => exact balanced
          | black =>
            cases height with
            | zero => exact balanced
            | succ height => exact balanced
        · exact fun red => blackTop_rename.mp (fits red)
      obtain ⟨next, result, returns, represents, isRedBlack, order⟩ :=
        deleteOuter_returns swapped swappedRedBlack (.inl rfl)
      refine ⟨next, result, ?_, represents, isRedBlack, ?_⟩
      · simpa only [rbtreeDelete, isLeft, leftRoot, isRight, rightRoot] using
          descends.bind returns
      · rw [order, before_append, after_append, noneBefore, inorder_plug, noneBefore]
        simp [before, after, Tree.inorder]

end CLibs.Rbtree
