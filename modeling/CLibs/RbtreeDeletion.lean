import CLibs.RbtreeExchange
import CLibs.RbtreeInsertion

/-!
# Rebalancing before a deletion

`rbtree_delete_color` is called with a black node that is going to be removed.
It makes the path above that node balanced for a black height that is one less.
The subtree of the node itself is not looked into.
-/

namespace CLibs.Rbtree

open TreeMemory

variable {Node : Type} [DecidableEq Node] {memory : Memory Node}
variable {path : List (Frame Color Node)} {tree : Tree Color Node}

omit [DecidableEq Node] in
theorem isBlack_root {parent : Option Node} (shape : memory.Shape parent tree) :
    isBlack memory tree.root = decide (rootColor tree = .black) := by
  cases tree with
  | nil => rfl
  | node color left item right =>
    have isColor : memory.color item = color := shape.2.1
    change decide (memory.color item = .black) = decide (color = .black)
    rw [isColor]

variable {side : Side} {color : Color} {p : Node} {height : Nat}

omit [DecidableEq Node] in
theorem PathBalanced.sibling {sibling : Tree Color Node}
    (above : PathBalanced (⟨side, color, p, sibling⟩ :: path) height) :
    Balanced sibling height := by
  cases color with
  | red => exact above.2.1
  | black => exact above.1

variable {s : Node} {near far : Tree Color Node}

theorem rotate_sibling {parentColor siblingColor : Color}
    (focused : memory.Focused
      (⟨side, parentColor, p, .join side siblingColor near s far⟩ :: path) tree) :
    ∃ next, rbtreeRotate memory p s = .ok next ∧
      next.Focused path
        (.join side siblingColor (.join side parentColor tree p near) s far) := by
  have mirrored : memory.Focused path (.join side.flip parentColor
      (.join side.flip siblingColor far s near) p tree) := by
    rw [Tree.join_flip, Tree.join_flip]
    exact focused_cons.mp focused
  obtain ⟨next, isNext, rotated⟩ := rbtreeRotate_focused mirrored
  rw [Tree.join_flip, Tree.join_flip] at rotated
  exact ⟨next, isNext, rotated⟩

/-! ## The cases -/

theorem deleteRedSibling_spec {sibling : Tree Color Node}
    (focused : memory.Focused (⟨side, color, p, sibling⟩ :: path) tree)
    (above : PathBalanced (⟨side, color, p, sibling⟩ :: path) (height + 1))
    (isRoot : sibling.root = some s) :
    ∃ next color' near s' far path', deleteRedSibling memory side p s = .ok (next, s') ∧
      next.Focused (⟨side, color', p, .join side .black near s' far⟩ :: path') tree ∧
      PathBalanced (⟨side, color', p, .join side .black near s' far⟩ :: path') (height + 1) ∧
      (color' = .red ∨ path' = path) ∧
      (plug (⟨side, color', p, .join side .black near s' far⟩ :: path') tree).inorder =
        (plug (⟨side, color, p, sibling⟩ :: path) tree).inorder := by
  have siblingFocus := focused_far.mp (focused_near.mpr focused)
  have siblingBalanced := above.sibling
  cases siblingColor : rootColor sibling with
  | black =>
    obtain ⟨near, item, far, rfl, nearBalanced, farBalanced⟩ :=
      siblingBalanced.exists_join siblingColor side
    rw [Tree.root_join] at isRoot
    cases isRoot
    have isBlack : memory.color s = .black := siblingFocus.color_eq
    refine ⟨memory, color, near, s, far, path, ?_, focused, above, .inr rfl, rfl⟩
    simp only [deleteRedSibling, isBlack, reduceCtorEq, if_false]
  | red =>
    obtain ⟨near, item, far, rfl, nearBlack, farBlack, nearBalanced, farBalanced⟩ :=
      siblingBalanced.exists_join_red siblingColor side
    rw [Tree.root_join] at isRoot
    cases isRoot
    cases color with
    | red => exact absurd (siblingColor.symm.trans above.1) (by decide)
    | black =>
      obtain ⟨rotated, isRotated, rotatedFocus⟩ := rotate_sibling focused
      have recolored := setColor_near .red (rotatedFocus.setColor .black)
      obtain ⟨inner, s', outer, rfl, innerBalanced, outerBalanced⟩ :=
        nearBalanced.exists_join nearBlack side
      have isRed : memory.color s = .red := siblingFocus.color_eq
      have newSibling : ((rotated.setColor s .black).setColor p .red).child side.flip p =
          some s' := by
        rw [(focused_near.mp recolored).far_eq, Tree.root_join]
      refine ⟨_, .red, inner, s', outer, ⟨side, .black, s, far⟩ :: path, ?_,
        focused_near.mp (focused_near.mp recolored), ?_, .inl rfl, ?_⟩
      · simp only [deleteRedSibling, isRed, if_true]
        rw [isRotated]
        change (follow (((rotated.setColor s .black).setColor p .red).child side.flip p)).map
          _ = _
        rw [newSibling]
        rfl
      · exact ⟨nearBlack, nearBalanced, rfl, farBalanced, above.2⟩
      · simp only [plug, inorder_plug, Frame.fill]
        cases side <;> simp [Tree.join, Tree.inorder]

theorem deleteNearRed_spec
    (focused : memory.Focused (⟨side, color, p, .join side .black near s far⟩ :: path) tree)
    (nearBalanced : Balanced near height) (farBalanced : Balanced far height)
    (oneRed : rootColor far = .black → rootColor near = .red) :
    ∃ next near' s' far', deleteNearRed memory side p s = .ok (next, s') ∧
      next.Focused (⟨side, color, p, .join side .black near' s' far'⟩ :: path) tree ∧
      Balanced near' height ∧ Balanced far' height ∧ rootColor far' = .red ∧
      (plug (⟨side, color, p, .join side .black near' s' far'⟩ :: path) tree).inorder =
        (plug (⟨side, color, p, .join side .black near s far⟩ :: path) tree).inorder := by
  have siblingFocus := focused_far.mp (focused_near.mpr focused)
  have farIsBlack : isBlack memory (memory.child side.flip s) = decide (rootColor far = .black) := by
    rw [siblingFocus.far_eq]
    exact isBlack_root (shape_join.mp siblingFocus.shape).2.2.2.2.2
  cases farColor : rootColor far with
  | red =>
    refine ⟨memory, near, s, far, ?_, focused, nearBalanced, farBalanced, farColor, rfl⟩
    rw [farColor] at farIsBlack
    simp [deleteNearRed, farIsBlack]
  | black =>
    obtain ⟨outer, item, inner, rfl, outerBlack, innerBlack, outerBalanced, innerBalanced⟩ :=
      nearBalanced.exists_join_red (oneRed farColor) side
    have isRed : memory.color item = .red := (focused_near.mp siblingFocus).color_eq
    have isNear : memory.child side s = some item := by
      rw [siblingFocus.near_eq, Tree.root_join]
    obtain ⟨rotated, isRotated, rotatedFocus⟩ := rbtreeRotate_focused siblingFocus
    have recolored := (setColor_far .red rotatedFocus).setColor .black
    have parentFocus := focused_far.mpr recolored
    have newSibling : ((rotated.setColor s .red).setColor item .black).child side.flip p =
        some item := by
      rw [parentFocus.far_eq, Tree.root_join]
    refine ⟨_, outer, item, .join side .red inner s far, ?_, focused_near.mp parentFocus,
      outerBalanced, balanced_join_red.mpr ⟨innerBlack, farColor, innerBalanced, farBalanced⟩,
      rootColor_join .., ?_⟩
    · rw [farColor] at farIsBlack
      simp only [deleteNearRed, farIsBlack, decide_true, if_true, isNear, follow]
      change (if memory.color item = .red then _ else _) = _
      rw [if_pos isRed, isRotated]
      change (follow (((rotated.setColor s .red).setColor item .black).child side.flip p)).map
        _ = _
      rw [newSibling]
      rfl
    · simp only [plug, inorder_plug, Frame.fill]
      cases side <;> simp [Tree.join, Tree.inorder]

theorem deleteFarRed_spec
    (focused : memory.Focused (⟨side, color, p, .join side .black near s far⟩ :: path) tree)
    (nearBalanced : Balanced near height) (farBalanced : Balanced far height)
    (farRed : rootColor far = .red)
    (above : PathBalanced (⟨side, color, p, .join side .black near s far⟩ :: path) (height + 1)) :
    ∃ next path', deleteFarRed memory side p s = .ok next ∧ next.Focused path' tree ∧
      PathBalanced path' height ∧
      (plug path' tree).inorder =
        (plug (⟨side, color, p, .join side .black near s far⟩ :: path) tree).inorder := by
  have siblingFocus := focused_far.mp (focused_near.mpr focused)
  obtain ⟨inner, item, outer, rfl, innerBlack, outerBlack, innerBalanced, outerBalanced⟩ :=
    farBalanced.exists_join_red farRed side
  have isFar : memory.child side.flip s = some item := by
    rw [siblingFocus.far_eq, Tree.root_join]
  obtain ⟨rotated, isRotated, rotatedFocus⟩ := rotate_sibling focused
  have parentColor : rotated.color p = color := (focused_near.mp rotatedFocus).color_eq
  have recolored := setColor_far .black (setColor_near .black (rotatedFocus.setColor color))
  refine ⟨_, ⟨side, .black, p, near⟩ :: ⟨side, color, s, .join side .black inner item outer⟩ :: path,
    ?_, focused_near.mp (focused_near.mp recolored), ⟨nearBalanced, ?_⟩, ?_⟩
  · simp only [deleteFarRed, isFar, isRotated]
    change Except.ok (((rotated.setColor s (rotated.color p)).setColor p .black).setColor item
      .black) = _
    rw [parentColor]
  · have farBlackened : Balanced (.join side .black inner item outer) (height + 1) :=
      balanced_join_black.mpr ⟨innerBalanced, outerBalanced⟩
    cases color with
    | red => exact ⟨rootColor_join .., farBlackened, above.2.2⟩
    | black => exact ⟨farBlackened, above.2⟩
  · simp only [plug, inorder_plug, Frame.fill]
    cases side <;> simp [Tree.join, Tree.inorder]

/-! ## The loop -/

/-- Once the sibling is black: in the case 2 it becomes red, and if the parent
was black and is not the root, the loop goes on there. -/
def deleteBlackSibling (again : Memory Node → Node → Except Fault (Memory Node))
    (memory : Memory Node) (side : Side) (p s : Node) : Except Fault (Memory Node) :=
  if memory.color s ≠ .black then .error .assertion
  else if isBlack memory (memory.child side.flip s) && isBlack memory (memory.child side s) then
    let memory := memory.setColor s .red
    if memory.color p = .red ∨ memory.parent p = none then .ok (memory.setColor p .black)
    else again memory p
  else deleteNearRed memory side p s >>= fun (memory, s) => deleteFarRed memory side p s

theorem rbtreeDeleteColor_unfold {node : Node} (isParent : memory.parent node = some p)
    (isSide : sideOf memory p node = side) (isSibling : memory.child side.flip p = some s)
    (fuel : Nat) : rbtreeDeleteColor (fuel + 1) memory node =
      deleteRedSibling memory side p s >>= fun (memory, s) =>
        deleteBlackSibling (rbtreeDeleteColor fuel) memory side p s := by
  simp only [rbtreeDeleteColor, isParent, isSide, isSibling]
  rfl

omit [DecidableEq Node] in
theorem PathBalanced.blackSibling
    (above : PathBalanced (⟨side, color, p, .join side .black near s far⟩ :: path) (height + 1)) :
    Balanced near height ∧ Balanced far height :=
  balanced_join_black.mp above.sibling

theorem deleteBlackSibling_spec
    (focused : memory.Focused (⟨side, color, p, .join side .black near s far⟩ :: path) tree)
    (above : PathBalanced (⟨side, color, p, .join side .black near s far⟩ :: path) (height + 1)) :
    (∃ next path', (∀ again, deleteBlackSibling again memory side p s = .ok next) ∧
      next.Focused path' tree ∧ PathBalanced path' height ∧
      (plug path' tree).inorder =
        (plug (⟨side, color, p, .join side .black near s far⟩ :: path) tree).inorder) ∨
    (color = .black ∧ ∃ next,
      (∀ again, deleteBlackSibling again memory side p s = again next p) ∧
      next.Focused (⟨side, .black, p, .join side .red near s far⟩ :: path) tree ∧
      Balanced (.join side .red near s far) height) := by
  obtain ⟨nearBalanced, farBalanced⟩ := above.blackSibling
  have siblingFocus := focused_far.mp (focused_near.mpr focused)
  have siblingShape := shape_join.mp siblingFocus.shape
  have isBlackSibling : memory.color s = .black := siblingFocus.color_eq
  have nearIsBlack : isBlack memory (memory.child side s) = decide (rootColor near = .black) := by
    rw [siblingFocus.near_eq]
    exact isBlack_root siblingShape.2.2.2.2.1
  have farIsBlack : isBlack memory (memory.child side.flip s) = decide (rootColor far = .black) := by
    rw [siblingFocus.far_eq]
    exact isBlack_root siblingShape.2.2.2.2.2
  have unfold : ∀ again, deleteBlackSibling again memory side p s =
      if rootColor far = .black ∧ rootColor near = .black then
        (if (memory.setColor s .red).color p = .red ∨ memory.parent p = none then
          .ok ((memory.setColor s .red).setColor p .black)
        else again (memory.setColor s .red) p)
      else deleteNearRed memory side p s >>= fun (memory, s) => deleteFarRed memory side p s := by
    intro again
    simp only [deleteBlackSibling, isBlackSibling, nearIsBlack, farIsBlack, ne_eq, not_true_eq_false,
      if_false, Bool.and_eq_true, decide_eq_true_eq]
    rfl
  by_cases bothBlack : rootColor far = .black ∧ rootColor near = .black
  · simp only [bothBlack, and_self, if_true] at unfold
    have reddened := focused_far.mpr (siblingFocus.setColor .red)
    have redBalanced : Balanced (.join side .red near s far) height :=
      balanced_join_red.mpr ⟨bothBlack.2, bothBlack.1, nearBalanced, farBalanced⟩
    have pColor : (memory.setColor s .red).color p = color := reddened.color_eq
    have pParent : memory.parent p = top path := (focused_near.mpr focused).parent_eq
    have sameOrder : ∀ other, (plug (⟨side, other, p, .join side .red near s far⟩ :: path) tree).inorder =
        (plug (⟨side, color, p, .join side .black near s far⟩ :: path) tree).inorder := by
      intro other
      simp only [plug, inorder_plug, Frame.fill]
      cases side <;> rfl
    rw [pColor, pParent] at unfold
    by_cases ends : color = .red ∨ top path = none
    · left
      refine ⟨_, ⟨side, .black, p, .join side .red near s far⟩ :: path, fun again => ?_,
        focused_near.mp (reddened.setColor .black), ⟨redBalanced, ?_⟩, sameOrder _⟩
      · rw [unfold, if_pos ends]
      · cases path with
        | nil => trivial
        | cons frame path =>
          cases ends.resolve_right (by simp [top])
          exact above.2.2.2
    · right
      have isBlackParent : color = .black := by
        cases color with
        | red => exact absurd (.inl rfl) ends
        | black => rfl
      subst isBlackParent
      refine ⟨rfl, _, fun again => ?_, focused_near.mp reddened, redBalanced⟩
      rw [unfold, if_neg ends]
  · left
    simp only [bothBlack, if_false] at unfold
    have oneRed : rootColor far = .black → rootColor near = .red := by
      intro farBlack
      cases nearColor : rootColor near with
      | red => rfl
      | black => exact absurd ⟨farBlack, nearColor⟩ bothBlack
    obtain ⟨second, near', s', far', isSecond, secondFocus, nearBalanced', farBalanced', farRed,
      secondOrder⟩ := deleteNearRed_spec focused nearBalanced farBalanced oneRed
    have secondAbove : PathBalanced (⟨side, color, p, .join side .black near' s' far'⟩ :: path)
        (height + 1) := by
      have balanced : Balanced (.join side .black near' s' far') (height + 1) :=
        balanced_join_black.mpr ⟨nearBalanced', farBalanced'⟩
      cases color with
      | red => exact ⟨rootColor_join .., balanced, above.2.2⟩
      | black => exact ⟨balanced, above.2⟩
    obtain ⟨next, path', isNext, nextFocus, nextAbove, nextOrder⟩ :=
      deleteFarRed_spec secondFocus nearBalanced' farBalanced' farRed secondAbove
    refine ⟨next, path', fun again => ?_, nextFocus, nextAbove, nextOrder.trans secondOrder⟩
    rw [unfold, isSecond]
    exact isNext

/-- The fix-up after a deletion ends and keeps the order. -/
theorem rbtreeDeleteColor_returns {node : Node} (focused : memory.Focused path tree)
    (isRoot : tree.root = some node) (black : rootColor tree = .black)
    (above : PathBalanced path (height + 1)) :
    ∃ next path', Returns (fun fuel => rbtreeDeleteColor fuel memory node) next ∧
      next.Focused path' tree ∧ PathBalanced path' height ∧
      (plug path' tree).inorder = (plug path tree).inorder := by
  induction size : path.length using Nat.strongRecOn
    generalizing memory path tree node height with
  | ind size ih =>
    obtain ⟨left, right, rfl⟩ : ∃ left right, tree = .join .left .black left node right := by
      cases tree with
      | nil => cases isRoot
      | node color left item right =>
        cases isRoot
        cases black
        exact ⟨left, right, rfl⟩
    have nodeParent := focused.parent_eq
    cases path with
    | nil =>
      refine ⟨memory, [], ?_, focused, trivial, rfl⟩
      apply Returns.iterate _ (Returns.pure _)
      intro fuel
      simp only [rbtreeDeleteColor, nodeParent, top, focused.color_eq, if_true]
    | cons frame path =>
      obtain ⟨side, color, p, sibling⟩ := frame
      have parentFocus := focused_cons.mp focused
      have isSide : sideOf memory p node = side := sideOf_eq parentFocus (Tree.root_join ..)
      obtain ⟨s, siblingRoot⟩ : ∃ s, sibling.root = some s := by
        cases sibling with
        | nil => exact absurd above.sibling (by simp [Balanced])
        | node siblingColor below s beyond => exact ⟨s, rfl⟩
      have isSibling : memory.child side.flip p = some s := parentFocus.far_eq.trans siblingRoot
      have unfold := rbtreeDeleteColor_unfold nodeParent isSide isSibling
      obtain ⟨first, color', near, s', far, path', isFirst, firstFocus, firstAbove, shorter,
        firstOrder⟩ := deleteRedSibling_spec focused above siblingRoot
      rw [isFirst] at unfold
      rcases deleteBlackSibling_spec firstFocus firstAbove with
        ⟨next, last, ends, nextFocus, nextAbove, nextOrder⟩ | ⟨rfl, next, goesOn, nextFocus, balanced⟩
      · refine ⟨next, last, ?_, nextFocus, nextAbove, nextOrder.trans firstOrder⟩
        apply Returns.iterate unfold
        exact ⟨0, fun fuel _ => ends _⟩
      · obtain rfl : path' = path := shorter.resolve_left (by decide)
        obtain ⟨result, upper, returns, resultFocus, resultAbove, resultOrder⟩ :=
          ih path'.length (by simp only [← size, List.length_cons]; omega)
            (focused_near.mpr nextFocus) (Tree.root_join ..) (rootColor_join ..) firstAbove.2 rfl
        refine ⟨result, ⟨side, .black, p, .join side .red near s' far⟩ :: upper, ?_,
          focused_near.mp resultFocus, ⟨balanced, resultAbove⟩, ?_⟩
        · apply Returns.iterate unfold
          obtain ⟨enough, returns⟩ := returns
          exact ⟨enough, fun fuel sufficient => (goesOn _).trans (returns fuel sufficient)⟩
        · rw [← firstOrder]
          refine resultOrder.trans ?_
          simp only [plug, inorder_plug, Frame.fill]
          cases side <;> rfl

end CLibs.Rbtree
