import CLibs.RbtreeBalance

/-!
# Rebalancing after an insertion

`rbtree_insert_color` is called with a red node whose subtree is balanced, but
whose parent may be red too, or missing.  It restores the colour rules and does
not change the order of the nodes.
-/

namespace CLibs.Rbtree

open TreeMemory

variable {Node : Type} [DecidableEq Node] {memory : Memory Node}
variable {path : List (Frame Color Node)}

variable {side : Side} {color : Color} {outer far : Tree Color Node} {item : Node}

theorem setColor_near {inner : Side} {inColor : Color} {middle : Tree Color Node} {child : Node}
    (value : Color)
    (focused : memory.Focused path
      (.join side color (.join inner inColor outer child middle) item far)) :
    (memory.setColor child value).Focused path
      (.join side color (.join inner value outer child middle) item far) :=
  focused_near.mpr ((focused_near.mp focused).setColor value)

variable {near : Tree Color Node}

theorem setColor_far {inner : Side} {inColor : Color} {middle : Tree Color Node} {child : Node}
    (value : Color)
    (focused : memory.Focused path
      (.join side color near item (.join inner inColor outer child middle))) :
    (memory.setColor child value).Focused path
      (.join side color near item (.join inner value outer child middle)) :=
  focused_far.mpr ((focused_far.mp focused).setColor value)

variable {node p g : Node} {sibling uncle : Tree Color Node} {height : Nat}

theorem insertRotate_outer {tree : Tree Color Node} (isRoot : tree.root = some node)
    (focused : memory.Focused path (.join side .black (.join side .red tree p sibling) g uncle))
    (treeBalanced : Balanced tree height) (siblingBalanced : Balanced sibling height)
    (uncleBalanced : Balanced uncle height) (siblingBlack : rootColor sibling = .black)
    (uncleBlack : rootColor uncle = .black) (above : PathBalanced path (height + 1)) :
    ∃ next result, insertRotate memory side node p g = .ok next ∧ next.Represents result ∧
      RedBlack result ∧ result.inorder =
        (plug path (.join side .black (.join side .red tree p sibling) g uncle)).inorder := by
  have notInner : memory.child side.flip p ≠ some node := by
    have parentFocus := focused_near.mp focused
    rw [parentFocus.far_eq]
    exact parentFocus.far_ne_near isRoot
  obtain ⟨rotated, isRotated, rotatedFocus⟩ := rbtreeRotate_focused focused
  have recolored := setColor_far .red (rotatedFocus.setColor .black)
  refine ⟨_, _, ?_, focused_iff_represents.mp recolored, ?_, ?_⟩
  · simp only [insertRotate, notInner, if_false]
    change (rbtreeRotate memory g p >>= fun memory => _) = _
    rw [isRotated]
    rfl
  · refine above.redBlack_plug (balanced_join_black.mpr ⟨treeBalanced, ?_⟩) (by simp)
    exact balanced_join_red.mpr ⟨siblingBlack, uncleBlack, siblingBalanced, uncleBalanced⟩
  · rw [inorder_plug, inorder_plug, ← inorder_rotate]
    cases side <;> rfl

theorem insertRotate_inner {inner : Tree Color Node}
    (focused : memory.Focused path (.join side .black
      (.join side.flip .red (.join side.flip .red outer node inner) p sibling) g uncle))
    (outerBlack : rootColor outer = .black) (innerBlack : rootColor inner = .black)
    (outerBalanced : Balanced outer height) (innerBalanced : Balanced inner height)
    (siblingBalanced : Balanced sibling height) (uncleBalanced : Balanced uncle height)
    (siblingBlack : rootColor sibling = .black) (uncleBlack : rootColor uncle = .black)
    (above : PathBalanced path (height + 1)) :
    ∃ next result, insertRotate memory side node p g = .ok next ∧ next.Represents result ∧
      RedBlack result ∧ result.inorder = (plug path (.join side .black
        (.join side.flip .red (.join side.flip .red outer node inner) p sibling) g
          uncle)).inorder := by
  have isInner : memory.child side.flip p = some node := by
    rw [(focused_near.mp focused).near_eq, Tree.root_join]
  obtain ⟨first, isFirst, firstFocus⟩ := rbtreeRotate_focused (focused_near.mp focused)
  have parentNow : first.parent p = some node :=
    (focused_far.mp firstFocus).parent_eq
  -- the node is now on the outer side of the grandparent
  have outside : first.Focused path (.join side .black
      (.join side .red (.join side.flip .red inner p sibling) node outer) g uncle) := by
    apply focused_near.mpr
    rw [← Tree.join_flip side]
    exact firstFocus
  obtain ⟨rotated, isRotated, rotatedFocus⟩ := rbtreeRotate_focused outside
  have recolored := setColor_far .red (rotatedFocus.setColor .black)
  refine ⟨_, _, ?_, focused_iff_represents.mp recolored, ?_, ?_⟩
  · simp only [insertRotate, isInner, if_true, isFirst, bind, Except.bind, parentNow, isRotated]
  · refine above.redBlack_plug (balanced_join_black.mpr ⟨?_, ?_⟩) (by simp)
    · exact balanced_join_red.mpr ⟨innerBlack, siblingBlack, innerBalanced, siblingBalanced⟩
    · exact balanced_join_red.mpr ⟨outerBlack, uncleBlack, outerBalanced, uncleBalanced⟩
  · rw [inorder_plug, inorder_plug]
    cases side <;> simp [Tree.join, Tree.inorder, Side.flip]

theorem insertRotate_represents {parentSide grandSide : Side}
    (focused : memory.Focused path (.join grandSide .black (.join parentSide .red
      (.join side .red near node far) p sibling) g uncle))
    (treeBalanced : Balanced (.join side .red near node far) height)
    (siblingBalanced : Balanced sibling height) (uncleBalanced : Balanced uncle height)
    (siblingBlack : rootColor sibling = .black) (uncleBlack : rootColor uncle = .black)
    (above : PathBalanced path (height + 1)) :
    ∃ next result, insertRotate memory grandSide node p g = .ok next ∧ next.Represents result ∧
      RedBlack result ∧ result.inorder = (plug path (.join grandSide .black (.join parentSide .red
        (.join side .red near node far) p sibling) g uncle)).inorder := by
  by_cases sameSide : parentSide = grandSide
  · subst sameSide
    exact insertRotate_outer (Tree.root_join ..) focused treeBalanced siblingBalanced uncleBalanced
      siblingBlack uncleBlack above
  · obtain rfl : parentSide = grandSide.flip := by
      cases parentSide <;> cases grandSide <;> first | rfl | exact absurd rfl sameSide
    obtain ⟨outer, item, inner, same, outerBlack, innerBlack, outerBalanced, innerBalanced⟩ :=
      treeBalanced.exists_join_red (rootColor_join ..) grandSide.flip
    have sameRoot := congrArg Tree.root same
    rw [Tree.root_join, Tree.root_join] at sameRoot
    cases sameRoot
    rw [same] at focused ⊢
    exact insertRotate_inner focused outerBlack innerBlack outerBalanced innerBalanced
      siblingBalanced uncleBalanced siblingBlack uncleBlack above

omit [DecidableEq Node] in
theorem filter_red (focused : memory.Focused path (.join side color near item far)) :
    (memory.child side.flip item).filter (fun u => memory.color u = .red) =
      if rootColor far = .red then far.root else none := by
  rw [focused.far_eq]
  cases far with
  | nil => rfl
  | node farColor left u right =>
    have isColor : memory.color u = farColor := (focused_far.mp focused).shape.2.1
    cases farColor <;> simp [Tree.root, rootColor, Option.filter, isColor]

/-- The fix-up after an insertion ends in a red-black tree. -/
theorem rbtreeInsertColor_returns (focused : memory.Focused path (.join side .red near node far))
    (nearBlack : rootColor near = .black) (farBlack : rootColor far = .black)
    (nearBalanced : Balanced near height) (farBalanced : Balanced far height)
    (above : PathBalanced path height) :
    ∃ next result, Returns (fun fuel => rbtreeInsertColor fuel memory node) next ∧
      next.Represents result ∧ RedBlack result ∧
      result.inorder = (plug path (.join side .red near node far)).inorder := by
  induction size : path.length using Nat.strongRecOn
    generalizing memory path side node near far height with
  | ind size ih =>
    have nodeParent := focused.parent_eq
    have treeBalanced : Balanced (.join side .red near node far) height :=
      balanced_join_red.mpr ⟨nearBlack, farBlack, nearBalanced, farBalanced⟩
    cases path with
    | nil =>
      have recolored := focused.setColor .black
      refine ⟨_, _, ?_, focused_iff_represents.mp recolored, ?_, inorder_join_color ..⟩
      · apply Returns.iterate _ (Returns.pure _)
        intro fuel
        simp only [rbtreeInsertColor, nodeParent, top]
      · exact redBlack_iff.mpr ⟨rootColor_join .., height + 1,
          balanced_join_black.mpr ⟨nearBalanced, farBalanced⟩⟩
    | cons parent path =>
      obtain ⟨parentSide, parentColor, p, sibling⟩ := parent
      have parentFocus := focused_cons.mp focused
      have pColor : memory.color p = parentColor := parentFocus.color_eq
      have pParent : memory.parent p = top path := parentFocus.parent_eq
      cases parentColor with
      | black =>
        refine ⟨memory, _, ?_, focused_iff_represents.mp focused, ?_, rfl⟩
        · apply Returns.iterate _ (Returns.pure _)
          intro fuel
          simp only [rbtreeInsertColor, nodeParent, top, pColor, if_true]
        · exact above.redBlack_plug treeBalanced fun _ => rfl
      | red =>
        obtain ⟨siblingBlack, siblingBalanced, blackTop, abovePath⟩ := above
        cases path with
        | nil => cases blackTop
        | cons grand path =>
          obtain ⟨grandSide, grandColor, g, uncle⟩ := grand
          cases blackTop
          obtain ⟨uncleBalanced, aboveGrand⟩ := abovePath
          have grandFocus : memory.Focused path (.join grandSide .black
              (.join parentSide .red (.join side .red near node far) p sibling) g uncle) :=
            focused_cons.mp parentFocus
          have isSide : sideOf memory g p = grandSide := sideOf_eq grandFocus (Tree.root_join ..)
          have unfold : ∀ fuel, rbtreeInsertColor (fuel + 1) memory node =
              (if rootColor uncle = .red then uncle.root else none).elim
                (insertRotate memory grandSide node p g) fun u => rbtreeInsertColor fuel
                  (((memory.setColor g .red).setColor p .black).setColor u .black) g := by
            intro fuel
            simp only [rbtreeInsertColor, nodeParent, top, pColor, pParent, isSide,
              reduceCtorEq, if_false, filter_red grandFocus]
            cases (if rootColor uncle = .red then uncle.root else none) <;> rfl
          cases uncleColor : rootColor uncle with
          | red =>
            obtain ⟨left, u, right, rfl, leftBlack, rightBlack, leftBalanced, rightBalanced⟩ :=
              uncleBalanced.exists_join_red uncleColor .left
            have recolored := setColor_far .black
              (setColor_near .black (grandFocus.setColor .red))
            obtain ⟨next, result, returns, represents, redBlack, sameOrder⟩ :=
              ih path.length (by simp only [← size, List.length_cons]; omega) recolored (rootColor_join ..)
                (rootColor_join ..) (balanced_join_black.mpr ⟨treeBalanced, siblingBalanced⟩)
                (balanced_join_black.mpr ⟨leftBalanced, rightBalanced⟩) aboveGrand rfl
            refine ⟨next, result, ?_, represents, redBlack, ?_⟩
            · apply Returns.iterate _ returns
              intro fuel
              rw [unfold, if_pos uncleColor, Tree.root_join]
              rfl
            · rw [sameOrder, plug, plug, inorder_plug, inorder_plug]
              cases grandSide <;> cases parentSide <;> rfl
          | black =>
            simp only [uncleColor, reduceCtorEq, if_false, Option.elim] at unfold
            obtain ⟨next, result, isNext, represents, redBlack, sameOrder⟩ :=
              insertRotate_represents grandFocus treeBalanced siblingBalanced uncleBalanced
                siblingBlack uncleColor aboveGrand
            refine ⟨next, result, ?_, represents, redBlack, sameOrder⟩
            rw [isNext] at unfold
            exact Returns.iterate unfold (Returns.pure next)

end CLibs.Rbtree
