import CLibs.Rbtree

/-!
# Red-black trees as values

The colour rules of a red-black tree, also for a tree with a hole: a path is
balanced for a black height when every tree of that height, put into the hole,
gives a red-black tree.
-/

namespace CLibs.Rbtree

variable {Node : Type}

def rootColor : Tree Color Node → Color
  | .nil => .black
  | .node color _ _ _ => color

@[simp]
theorem rootColor_join (side : Side) (color : Color) (near : Tree Color Node) (item : Node)
    (far : Tree Color Node) : rootColor (.join side color near item far) = color := by
  cases side <;> rfl

def NoRedRed : Tree Color Node → Prop
  | .nil => True
  | .node color left _ right =>
    (color = .red → rootColor left = .black ∧ rootColor right = .black) ∧
      NoRedRed left ∧ NoRedRed right

/-- The number of black nodes on each path from the root to a leaf. -/
def blackCounts : Tree Color Node → List Nat
  | .nil => [0]
  | .node color left _ right =>
    (blackCounts left ++ blackCounts right).map fun count =>
      if color = .black then count + 1 else count

/-- The rules of a red-black tree. -/
structure RedBlack (tree : Tree Color Node) : Prop where
  root_black : rootColor tree = .black
  no_red_red : NoRedRed tree
  same_count : ∀ first ∈ blackCounts tree, ∀ second ∈ blackCounts tree, first = second

def Balanced : Tree Color Node → Nat → Prop
  | .nil, height => height = 0
  | .node .red left _ right, height =>
    rootColor left = .black ∧ rootColor right = .black ∧ Balanced left height ∧
      Balanced right height
  | .node .black _ _ _, 0 => False
  | .node .black left _ right, height + 1 => Balanced left height ∧ Balanced right height

theorem blackCounts_ne_nil (tree : Tree Color Node) : blackCounts tree ≠ [] := by
  induction tree with
  | nil => simp [blackCounts]
  | node color left item right leftIh rightIh => simp [blackCounts, leftIh]

variable {tree : Tree Color Node} {height : Nat}

theorem balanced_iff :
    Balanced tree height ↔ NoRedRed tree ∧ ∀ count ∈ blackCounts tree, count = height := by
  induction tree generalizing height with
  | nil => simp [Balanced, NoRedRed, blackCounts, eq_comm]
  | node color left item right leftIh rightIh =>
    simp only [NoRedRed, blackCounts, List.forall_mem_map, List.forall_mem_append]
    cases color with
    | red =>
      simp only [Balanced, leftIh, rightIh, reduceCtorEq, if_false, true_implies]
      tauto
    | black =>
      cases height with
      | zero =>
        obtain ⟨count, member⟩ := List.exists_mem_of_ne_nil _ (blackCounts_ne_nil left)
        simp only [Balanced, if_true, Nat.add_one_ne_zero, false_iff]
        rintro ⟨_, none, _⟩
        exact none count member
      | succ height =>
        simp only [Balanced, leftIh, rightIh, reduceCtorEq, if_true, false_implies,
          Nat.add_right_cancel_iff]
        tauto

theorem redBlack_iff :
    RedBlack tree ↔ rootColor tree = .black ∧ ∃ height, Balanced tree height := by
  simp only [balanced_iff]
  constructor
  · rintro ⟨black, noRedRed, same⟩
    obtain ⟨count, member⟩ := List.exists_mem_of_ne_nil _ (blackCounts_ne_nil tree)
    exact ⟨black, count, noRedRed, fun other otherMem => same other otherMem count member⟩
  · rintro ⟨black, height, noRedRed, same⟩
    exact ⟨black, noRedRed, fun first firstMem second secondMem =>
      (same first firstMem).trans (same second secondMem).symm⟩

variable {side : Side}

theorem balanced_join_red {near far : Tree Color Node} {item : Node} :
    Balanced (.join side .red near item far) height ↔
      rootColor near = .black ∧ rootColor far = .black ∧ Balanced near height ∧
        Balanced far height := by
  cases side with
  | left => rfl
  | right =>
    change rootColor far = .black ∧ rootColor near = .black ∧ Balanced far height ∧
      Balanced near height ↔ _
    tauto

theorem balanced_join_black {near far : Tree Color Node} {item : Node} :
    Balanced (.join side .black near item far) (height + 1) ↔
      Balanced near height ∧ Balanced far height := by
  cases side with
  | left => rfl
  | right => exact and_comm

theorem Balanced.exists_join (balanced : Balanced tree (height + 1))
    (black : rootColor tree = .black) (side : Side) :
    ∃ near item far, tree = .join side .black near item far ∧ Balanced near height ∧
      Balanced far height := by
  cases tree with
  | nil => exact absurd balanced (by simp [Balanced])
  | node color left item right =>
    cases black
    cases side with
    | left => exact ⟨left, item, right, rfl, balanced.1, balanced.2⟩
    | right => exact ⟨right, item, left, rfl, balanced.2, balanced.1⟩

theorem Balanced.exists_join_red (balanced : Balanced tree height) (red : rootColor tree = .red)
    (side : Side) :
    ∃ near item far, tree = .join side .red near item far ∧ rootColor near = .black ∧
      rootColor far = .black ∧ Balanced near height ∧ Balanced far height := by
  cases tree with
  | nil => cases red
  | node color left item right =>
    cases red
    obtain ⟨leftBlack, rightBlack, leftBalanced, rightBalanced⟩ := balanced
    cases side with
    | left => exact ⟨left, item, right, rfl, leftBlack, rightBlack, leftBalanced, rightBalanced⟩
    | right => exact ⟨right, item, left, rfl, rightBlack, leftBlack, rightBalanced, leftBalanced⟩

theorem Balanced.eq_nil (balanced : Balanced tree 0) (black : rootColor tree = .black) :
    tree = .nil := by
  cases tree with
  | nil => rfl
  | node color left item right =>
    cases black
    exact absurd balanced (by simp [Balanced])

variable {color : Color}

theorem Balanced.single {child : Tree Color Node} {node : Node}
    (balanced : Balanced (.join side color child node .nil) height) (notEmpty : child.root ≠ none) :
    color = .black ∧ height = 1 ∧ ∃ item, child = .node .red .nil item .nil := by
  cases color with
  | red =>
    obtain ⟨childBlack, -, childBalanced, isZero⟩ := balanced_join_red.mp balanced
    obtain rfl : height = 0 := isZero
    rw [childBalanced.eq_nil childBlack] at notEmpty
    exact absurd rfl notEmpty
  | black =>
    cases height with
    | zero => cases side <;> exact absurd balanced (by simp [Tree.join, Balanced])
    | succ height =>
      obtain ⟨childBalanced, isZero⟩ := balanced_join_black.mp balanced
      obtain rfl : height = 0 := isZero
      refine ⟨rfl, rfl, ?_⟩
      cases childColor : rootColor child with
      | black =>
        rw [childBalanced.eq_nil childColor] at notEmpty
        exact absurd rfl notEmpty
      | red =>
        obtain ⟨left, item, right, rfl, leftBlack, rightBlack, leftBalanced, rightBalanced⟩ :=
          childBalanced.exists_join_red childColor .left
        rw [leftBalanced.eq_nil leftBlack, rightBalanced.eq_nil rightBlack]
        exact ⟨item, rfl⟩

/-! ## Paths -/

def BlackTop : List (Frame Color Node) → Prop
  | [] => False
  | frame :: _ => frame.color = .black

def PathBalanced : List (Frame Color Node) → Nat → Prop
  | [], _ => True
  | ⟨_, .red, _, sibling⟩ :: path, height =>
    rootColor sibling = .black ∧ Balanced sibling height ∧ BlackTop path ∧
      PathBalanced path height
  | ⟨_, .black, _, sibling⟩ :: path, height =>
    Balanced sibling height ∧ PathBalanced path (height + 1)

variable {path : List (Frame Color Node)}

theorem PathBalanced.redBlack_plug (above : PathBalanced path height)
    (balanced : Balanced tree height) (fits : rootColor tree = .red → BlackTop path) :
    RedBlack (plug path tree) := by
  induction path generalizing tree height with
  | nil =>
    rw [redBlack_iff]
    refine ⟨?_, height, balanced⟩
    change rootColor tree = .black
    cases isColor : rootColor tree with
    | red => exact absurd (fits isColor) (by simp [BlackTop])
    | black => rfl
  | cons frame path ih =>
    obtain ⟨side, color, item, sibling⟩ := frame
    cases color with
    | red =>
      obtain ⟨siblingBlack, siblingBalanced, blackTop, above⟩ := above
      have treeBlack : rootColor tree = .black := by
        cases isColor : rootColor tree with
        | red => exact absurd (fits isColor) (by simp [BlackTop])
        | black => rfl
      apply ih above
      · exact balanced_join_red.mpr ⟨treeBlack, siblingBlack, balanced, siblingBalanced⟩
      · exact fun _ => blackTop
    | black =>
      obtain ⟨siblingBalanced, above⟩ := above
      apply ih above
      · exact balanced_join_black.mpr ⟨balanced, siblingBalanced⟩
      · simp [Frame.fill]

theorem RedBlack.pathBalanced (redBlack : RedBlack (plug path tree)) :
    ∃ height, PathBalanced path height ∧ Balanced tree height ∧
      (rootColor tree = .red → BlackTop path) := by
  induction path generalizing tree with
  | nil =>
    obtain ⟨black, height, balanced⟩ := redBlack_iff.mp redBlack
    refine ⟨height, trivial, balanced, fun red => ?_⟩
    exact absurd (red.symm.trans black) (by decide)
  | cons frame path ih =>
    obtain ⟨height, above, balanced, fits⟩ := ih redBlack
    obtain ⟨side, color, item, sibling⟩ := frame
    rw [Frame.fill, rootColor_join] at fits
    cases color with
    | red =>
      obtain ⟨treeBlack, siblingBlack, treeBalanced, siblingBalanced⟩ :=
        balanced_join_red.mp balanced
      refine ⟨height, ⟨siblingBlack, siblingBalanced, fits rfl, above⟩, treeBalanced, ?_⟩
      intro red
      exact absurd (red.symm.trans treeBlack) (by decide)
    | black =>
      cases height with
      | zero =>
        cases side <;> exact absurd balanced (by simp [Frame.fill, Tree.join, Balanced])
      | succ height =>
        obtain ⟨treeBalanced, siblingBalanced⟩ := balanced_join_black.mp balanced
        exact ⟨height, ⟨siblingBalanced, above⟩, treeBalanced, fun _ => rfl⟩

theorem blackTop_rename {inner : List (Frame Color Node)} {first second : Node}
    {sibling : Tree Color Node} :
    BlackTop (inner ++ ⟨side, color, first, sibling⟩ :: path) ↔
      BlackTop (inner ++ ⟨side, color, second, sibling⟩ :: path) := by
  cases inner <;> rfl

theorem pathBalanced_rename {inner : List (Frame Color Node)} {first second : Node}
    {sibling : Tree Color Node} :
    PathBalanced (inner ++ ⟨side, color, first, sibling⟩ :: path) height ↔
      PathBalanced (inner ++ ⟨side, color, second, sibling⟩ :: path) height := by
  induction inner generalizing height with
  | nil => cases color <;> rfl
  | cons frame inner ih =>
    obtain ⟨frameSide, frameColor, item, frameSibling⟩ := frame
    cases frameColor with
    | red =>
      have sameTop : BlackTop (inner ++ ⟨side, color, first, sibling⟩ :: path) ↔
          BlackTop (inner ++ ⟨side, color, second, sibling⟩ :: path) := blackTop_rename
      simp only [List.cons_append, PathBalanced, ih, sameTop]
    | black => simp only [List.cons_append, PathBalanced, ih]

theorem inorder_join_color (side : Side) (color other : Color) (near : Tree Color Node) (item : Node)
    (far : Tree Color Node) :
    (Tree.join side color near item far).inorder = (Tree.join side other near item far).inorder := by
  cases side <;> rfl

end CLibs.Rbtree
