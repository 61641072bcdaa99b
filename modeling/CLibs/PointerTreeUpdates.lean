import CLibs.PointerTrees

/-!
# Updates of trees with parent pointers

The assignments of which tree algorithms are made, and what they do to the tree
that the memory holds.  `relink` is the idiom that makes the parent of a node,
or the root pointer, point to another node instead.
-/

namespace CLibs.TreeMemory

variable {Color Node : Type*} [DecidableEq Node]

def setRoot (memory : TreeMemory Color Node) (value : Option Node) : TreeMemory Color Node :=
  { memory with root := value }

def setChild (memory : TreeMemory Color Node) (side : Side) (item : Node) (value : Option Node) :
    TreeMemory Color Node :=
  { memory with child := fun otherSide other =>
      if otherSide = side ∧ other = item then value else memory.child otherSide other }

def setParent (memory : TreeMemory Color Node) (item : Node) (value : Option Node) :
    TreeMemory Color Node :=
  { memory with parent := Function.update memory.parent item value }

def setParentOf (memory : TreeMemory Color Node) (item : Option Node) (value : Option Node) :
    TreeMemory Color Node :=
  match item with
  | none => memory
  | some item => memory.setParent item value

def setColor (memory : TreeMemory Color Node) (item : Node) (value : Color) :
    TreeMemory Color Node :=
  { memory with color := Function.update memory.color item value }

/-- Make what points to `old` point to `new`. -/
def relink (memory : TreeMemory Color Node) (parent : Option Node) (old : Node)
    (new : Option Node) : TreeMemory Color Node :=
  match parent with
  | none => memory.setRoot new
  | some parent =>
    if memory.child .left parent = some old then memory.setChild .left parent new
    else memory.setChild .right parent new

/-! ## The fields after an update -/

section Fields

variable (memory : TreeMemory Color Node)

omit [DecidableEq Node] in
@[simp]
theorem setRoot_fields (value : Option Node) :
    (memory.setRoot value).root = value ∧ (memory.setRoot value).child = memory.child ∧
      (memory.setRoot value).parent = memory.parent ∧ (memory.setRoot value).color = memory.color :=
  ⟨rfl, rfl, rfl, rfl⟩

variable (side : Side) (item : Node) (value : Option Node)

@[simp]
theorem setChild_root : (memory.setChild side item value).root = memory.root := rfl

@[simp]
theorem setChild_parent : (memory.setChild side item value).parent = memory.parent := rfl

@[simp]
theorem setChild_color : (memory.setChild side item value).color = memory.color := rfl

@[simp]
theorem setChild_child_self : (memory.setChild side item value).child side item = value :=
  if_pos ⟨rfl, rfl⟩

variable {other : Node}

theorem setChild_child_of_ne {otherSide : Side} (different : other ≠ item) :
    (memory.setChild side item value).child otherSide other = memory.child otherSide other :=
  if_neg fun both => different both.2

theorem setChild_child_of_side {otherSide : Side} (different : otherSide ≠ side) (other : Node) :
    (memory.setChild side item value).child otherSide other = memory.child otherSide other :=
  if_neg fun both => different both.1

@[simp]
theorem setParent_root : (memory.setParent item value).root = memory.root := rfl

@[simp]
theorem setParent_child : (memory.setParent item value).child = memory.child := rfl

@[simp]
theorem setParent_color : (memory.setParent item value).color = memory.color := rfl

@[simp]
theorem setParent_parent_self : (memory.setParent item value).parent item = value :=
  Function.update_self _ _ _

theorem setParent_parent_of_ne (different : other ≠ item) :
    (memory.setParent item value).parent other = memory.parent other :=
  Function.update_of_ne different _ _

variable (target : Option Node)

@[simp]
theorem setParentOf_root : (memory.setParentOf target value).root = memory.root := by
  cases target <;> rfl

@[simp]
theorem setParentOf_child : (memory.setParentOf target value).child = memory.child := by
  cases target <;> rfl

@[simp]
theorem setParentOf_color : (memory.setParentOf target value).color = memory.color := by
  cases target <;> rfl

theorem setParentOf_parent_of_ne (different : target ≠ some other) :
    (memory.setParentOf target value).parent other = memory.parent other := by
  cases target with
  | none => rfl
  | some item => exact setParent_parent_of_ne memory item value fun same => different (same ▸ rfl)

theorem setParentOf_parent_self :
    (memory.setParentOf (some item) value).parent item = value :=
  setParent_parent_self memory item value

end Fields

variable {memory : TreeMemory Color Node} {path : List (Frame Color Node)}
variable {tree : Tree Color Node}

/-! ## Paths and subtrees -/

omit [DecidableEq Node] in
variable {item : Node}

omit [DecidableEq Node] in
theorem Same.trans {first second third : TreeMemory Color Node} (one : first.Same second item)
    (two : second.Same third item) : first.Same third item :=
  ⟨two.1.trans one.1, two.2.1.trans one.2.1, fun side => (two.2.2 side).trans (one.2.2 side)⟩

variable {value : Option Node}

theorem same_setChild {side : Side} (different : other ≠ item) :
    memory.Same (memory.setChild side item value) other :=
  ⟨rfl, rfl, fun _ => setChild_child_of_ne memory side item value different⟩

theorem same_setParent (different : other ≠ item) :
    memory.Same (memory.setParent item value) other :=
  ⟨setParent_parent_of_ne memory item value different, rfl, fun _ => rfl⟩

theorem same_setParentOf {target : Option Node} (different : target ≠ some other) :
    memory.Same (memory.setParentOf target value) other := by
  refine ⟨setParentOf_parent_of_ne memory value target different, ?_, fun side => ?_⟩
  · rw [setParentOf_color]
  · rw [setParentOf_child]

theorem same_setColor {value : Color} (different : other ≠ item) :
    memory.Same (memory.setColor item value) other :=
  ⟨rfl, Function.update_of_ne different _ _, fun _ => rfl⟩

theorem same_relink {parent new : Option Node} {old : Node} (different : parent ≠ some other) :
    memory.Same (memory.relink parent old new) other := by
  cases parent with
  | none => exact ⟨rfl, rfl, fun _ => rfl⟩
  | some above =>
    have apart : other ≠ above := fun same => different (same ▸ rfl)
    simp only [relink]
    by_cases isLeft : memory.child .left above = some old
    · rw [if_pos isLeft]
      exact same_setChild apart
    · rw [if_neg isLeft]
      exact same_setChild apart

theorem Shape.reparent {parent : Option Node} (shape : memory.Shape parent tree)
    (nodup : tree.inorder.Nodup) (above : Option Node) :
    (memory.setParentOf tree.root above).Shape above tree := by
  cases tree with
  | nil => trivial
  | node color left item right =>
    obtain ⟨isParent, isColor, isLeft, isRight, leftShape, rightShape⟩ := shape
    have apart := List.nodup_append.mp nodup
    refine ⟨setParent_parent_self _ _ _, isColor, isLeft, isRight, leftShape.congr ?_,
      rightShape.congr ?_⟩
    · intro member inLeft
      apply same_setParent
      rintro rfl
      exact apart.2.2 member inLeft member (by simp) rfl
    · intro member inRight
      apply same_setParent
      rintro rfl
      exact (List.nodup_cons.mp apart.2.1).1 inRight

theorem Focused.setHole {frame : Frame Color Node} (focused : memory.Focused (frame :: path) tree)
    (new : Option Node) :
    (memory.setChild frame.side frame.item new).PathShape (frame :: path) new := by
  obtain ⟨isParent, isColor, -, isSibling, siblingShape, above⟩ := focused.above
  obtain ⟨-, notSibling, -⟩ :=
    Tree.nodup_inorder_join.mp (nodup_of_plug (focused_cons.mp focused).nodup)
  have notAbove : frame.item ∉ pathNodes path :=
    notMem_pathNodes (focused_cons.mp focused).nodup (Tree.mem_inorder_join.mpr (.inl rfl))
  refine ⟨isParent, isColor, setChild_child_self _ _ _ _, ?_, siblingShape.congr ?_,
    above.congr rfl ?_⟩
  · rw [setChild_child_of_side _ _ _ _ frame.side.flip_ne]
    exact isSibling
  · intro member inSibling
    apply same_setChild
    rintro rfl
    exact notSibling inSibling
  · intro member inPath
    apply same_setChild
    rintro rfl
    exact notAbove inPath

theorem Focused.relink {old : Node} (focused : memory.Focused path tree)
    (isRoot : tree.root = some old) (new : Option Node) :
    (memory.relink (top path) old new).PathShape path new := by
  cases path with
  | nil => rfl
  | cons frame path =>
    obtain ⟨-, -, isHole, isSibling, -, -⟩ := focused.above
    rw [isRoot] at isHole
    have linked : memory.relink (top (frame :: path)) old new =
        memory.setChild frame.side frame.item new := by
      obtain ⟨side, color, item, sibling⟩ := frame
      cases side with
      | left => exact if_pos isHole
      | right =>
        apply if_neg
        intro isLeft
        obtain ⟨-, -, -, -, disjoint⟩ :=
          Tree.nodup_inorder_join.mp (nodup_of_plug (focused_cons.mp focused).nodup)
        have isSiblingRoot : sibling.root = some old := isSibling.symm.trans isLeft
        exact disjoint old (Tree.mem_of_root isRoot) (Tree.mem_of_root isSiblingRoot)
    rw [linked]
    exact focused.setHole new

theorem Focused.setColor {side : Side} {color : Color} {near : Tree Color Node}
    {far : Tree Color Node} (focused : memory.Focused path (.join side color near item far))
    (value : Color) :
    (memory.setColor item value).Focused path (.join side value near item far) := by
  obtain ⟨above, shape, nodup⟩ := focused
  obtain ⟨isParent, isColor, isNear, isFar, nearShape, farShape⟩ := shape_join.mp shape
  obtain ⟨notNear, notFar, -⟩ := Tree.nodup_inorder_join.mp (nodup_of_plug nodup)
  refine ⟨?_, shape_join.mpr ⟨isParent, Function.update_self _ _ _, isNear, isFar,
    nearShape.congr ?_, farShape.congr ?_⟩, ?_⟩
  · rw [Tree.root_join] at above ⊢
    refine above.congr rfl ?_
    intro member inPath
    apply same_setColor
    rintro rfl
    exact notMem_pathNodes nodup (Tree.mem_inorder_join.mpr (.inl rfl)) inPath
  · intro member inNear
    apply same_setColor
    rintro rfl
    exact notNear inNear
  · intro member inFar
    apply same_setColor
    rintro rfl
    exact notFar inFar
  · rw [inorder_plug] at nodup ⊢
    cases side <;> exact nodup

/-! ## Reading a focused tree -/

section Reading

variable {side : Side} {color : Color} {near : Tree Color Node} {item : Node}
variable {far : Tree Color Node} (focused : memory.Focused path (.join side color near item far))

include focused

omit [DecidableEq Node]

theorem Focused.parent_eq : memory.parent item = top path :=
  (shape_join.mp focused.shape).1

theorem Focused.color_eq : memory.color item = color :=
  (shape_join.mp focused.shape).2.1

theorem Focused.near_eq : memory.child side item = near.root :=
  (shape_join.mp focused.shape).2.2.1

theorem Focused.far_eq : memory.child side.flip item = far.root :=
  (shape_join.mp focused.shape).2.2.2.1

theorem Focused.far_ne_near (isNear : near.root = some other) :
    far.root ≠ some other := by
  intro isFar
  obtain ⟨-, -, -, -, disjoint⟩ := Tree.nodup_inorder_join.mp (nodup_of_plug focused.nodup)
  exact disjoint other (Tree.mem_of_root isNear) (Tree.mem_of_root isFar)

end Reading

/-! ## Moving the focus to a subtree -/

section Subtrees

variable {side : Side} {color : Color} {near : Tree Color Node} {item : Node}
variable {far : Tree Color Node}

omit [DecidableEq Node]

theorem focused_near : memory.Focused path (.join side color near item far) ↔
    memory.Focused (⟨side, color, item, far⟩ :: path) near := by
  rw [focused_cons]
  rfl

theorem focused_far : memory.Focused path (.join side color near item far) ↔
    memory.Focused (⟨side.flip, color, item, near⟩ :: path) far := by
  rw [focused_cons, ← Tree.join_flip]
  rfl

end Subtrees

end CLibs.TreeMemory

/-!
## Consistent pointers

The pointers of a tree in memory agree with each other: a child names its
parent and the parent points to it once.  With this the fields of single nodes
can be reasoned about without taking the tree apart.
-/

namespace CLibs.TreeMemory

variable {Color Node : Type*} {memory : TreeMemory Color Node}
variable {path : List (Frame Color Node)} {tree : Tree Color Node}

/-- The pointers of the nodes in a set agree with each other. -/
structure Consistent (memory : TreeMemory Color Node) (inside : Node → Prop) : Prop where
  child_parent : ∀ {side node child}, inside node → memory.child side node = some child →
    memory.parent child = some node
  parent_child : ∀ {node parent}, inside node → memory.parent node = some parent →
    memory.child .left parent = some node ∨ memory.child .right parent = some node
  children_ne : ∀ {node child}, inside node → memory.child .left node = some child →
    memory.child .right node ≠ some child
  parent_ne : ∀ {node}, inside node → memory.parent node ≠ some node
  root_iff : ∀ {node}, inside node → (memory.parent node = none ↔ memory.root = some node)
  parent_inside : ∀ {node parent}, inside node → memory.parent node = some parent → inside parent

variable {item : Node}

theorem exists_focused (represents : memory.Represents tree) (member : item ∈ tree.inorder)
    (side : Side) :
    ∃ path color near far, tree = plug path (.join side color near item far) ∧
      memory.Focused path (.join side color near item far) := by
  obtain ⟨path, color, left, right, rfl⟩ := exists_plug member
  cases side with
  | left => exact ⟨path, color, left, right, rfl, focused_iff_represents.mpr represents⟩
  | right => exact ⟨path, color, right, left, rfl, focused_iff_represents.mpr represents⟩

theorem Shape.parent_of_root {parent : Option Node} (shape : memory.Shape parent tree)
    (isRoot : tree.root = some item) :
    memory.parent item = parent := by
  cases tree with
  | nil => cases isRoot
  | node color left here right =>
    cases isRoot
    exact shape.1

theorem mem_pathNodes_of_root {path : List (Frame Color Node)} (frame : Frame Color Node)
    {tree : Tree Color Node} (isRoot : (plug (frame :: path) tree).root = some item) :
    item ∈ pathNodes (frame :: path) := by
  induction path generalizing frame tree with
  | nil =>
    simp only [plug, Frame.fill, Tree.root_join, Option.some.injEq] at isRoot
    exact mem_pathNodes_cons.mpr (.inl isRoot.symm)
  | cons next path ih => exact mem_pathNodes_cons.mpr (.inr (.inr (ih next isRoot)))

theorem consistent_of_represents (represents : memory.Represents tree) :
    Consistent memory (· ∈ tree.inorder) := by
  constructor
  · intro side item child member isChild
    obtain ⟨path, color, near, far, rfl, focused⟩ := exists_focused represents member side
    have isRoot : near.root = some child := focused.near_eq.symm.trans isChild
    exact (shape_join.mp focused.shape).2.2.2.2.1.parent_of_root isRoot
  · intro item parent member isParent
    obtain ⟨path, color, near, far, rfl, focused⟩ := exists_focused represents member .left
    rw [focused.parent_eq] at isParent
    cases path with
    | nil => cases isParent
    | cons frame path =>
      cases isParent
      have isHole := focused.above.2.2.1
      rw [Tree.root_join] at isHole
      obtain ⟨side, frameColor, above, sibling⟩ := frame
      cases side with
      | left => exact .inl isHole
      | right => exact .inr isHole
  · intro item child member isLeft isRight
    obtain ⟨path, color, near, far, rfl, focused⟩ := exists_focused represents member .left
    exact focused.far_ne_near (focused.near_eq.symm.trans isLeft) (focused.far_eq.symm.trans isRight)
  · intro item member isParent
    obtain ⟨path, color, near, far, rfl, focused⟩ := exists_focused represents member .left
    rw [focused.parent_eq] at isParent
    exact top_ne focused.nodup (by simp) isParent
  · intro item member
    obtain ⟨path, color, near, far, rfl, focused⟩ := exists_focused represents member .left
    rw [focused.parent_eq, represents.above]
    cases path with
    | nil => simp [top, plug]
    | cons frame path =>
      simp only [top, reduceCtorEq, false_iff]
      intro isRoot
      exact notMem_pathNodes focused.nodup (by simp) (mem_pathNodes_of_root frame isRoot)
  · intro item parent member isParent
    obtain ⟨path, color, near, far, rfl, focused⟩ := exists_focused represents member .left
    rw [focused.parent_eq] at isParent
    exact mem_inorder_plug.mpr (.inr (mem_pathNodes_of_top isParent))

theorem Focused.parent_ne_top (focused : memory.Focused path tree) {above : Node}
    (member : item ∈ tree.inorder) (notRoot : tree.root ≠ some item)
    (isTop : top path = some above) : memory.parent item ≠ some above := by
  intro isParent
  have consistent := consistent_of_represents (focused_iff_represents.mp focused)
  have pointed := consistent.parent_child (mem_inorder_plug.mpr (.inl member)) isParent
  cases path with
  | nil => cases isTop
  | cons frame path =>
    cases isTop
    obtain ⟨-, -, isHole, isSibling, -, -⟩ := focused.above
    have notHole : memory.child frame.side frame.item ≠ some item := by
      rw [isHole]
      exact notRoot
    have notSibling : memory.child frame.side.flip frame.item ≠ some item := by
      rw [isSibling]
      intro isRoot
      exact notMem_pathNodes focused.nodup member
        (mem_pathNodes_cons.mpr (.inr (.inl (Tree.mem_of_root isRoot))))
    obtain ⟨side, color, above, sibling⟩ := frame
    cases side with
    | left => exact pointed.elim notHole notSibling
    | right => exact pointed.elim notSibling notHole

/-! ## Renaming -/

theorem Shape.rename {next : TreeMemory Color Node} {rename : Node → Node} {parent : Option Node}
    (shape : memory.Shape parent tree)
    (fields : ∀ item ∈ tree.inorder, next.parent (rename item) = (memory.parent item).map rename ∧
      next.color (rename item) = memory.color item ∧
      ∀ side, next.child side (rename item) = (memory.child side item).map rename) :
    next.Shape (parent.map rename) (tree.map rename) := by
  induction tree generalizing parent with
  | nil => trivial
  | node color left item right leftIh rightIh =>
    obtain ⟨isParent, isColor, isLeft, isRight, leftShape, rightShape⟩ := shape
    obtain ⟨newParent, newColor, newChild⟩ := fields item (by simp [Tree.inorder])
    refine ⟨newParent.trans (isParent ▸ rfl), newColor.trans isColor, ?_, ?_,
      leftIh leftShape ?_, rightIh rightShape ?_⟩
    · rw [newChild, isLeft, Tree.root_map]
    · rw [newChild, isRight, Tree.root_map]
    · intro member inLeft
      exact fields member (by simp [Tree.inorder, inLeft])
    · intro member inRight
      exact fields member (by simp [Tree.inorder, inRight])

/-! ## Relinking a node that its parent points to -/

variable [DecidableEq Node]

@[simp]
theorem relink_parent (memory : TreeMemory Color Node) (parent new : Option Node) (old : Node) :
    (memory.relink parent old new).parent = memory.parent := by
  cases parent with
  | none => rfl
  | some above =>
    simp only [relink]
    split <;> rfl

@[simp]
theorem relink_color (memory : TreeMemory Color Node) (parent new : Option Node) (old : Node) :
    (memory.relink parent old new).color = memory.color := by
  cases parent with
  | none => rfl
  | some above =>
    simp only [relink]
    split <;> rfl

theorem relink_root (memory : TreeMemory Color Node) (parent new : Option Node) (old : Node) :
    (memory.relink parent old new).root = if parent = none then new else memory.root := by
  cases parent with
  | none => rfl
  | some above =>
    simp only [relink]
    split <;> rfl

/-- Only the link to the old node changes. -/
theorem relink_child {parent old : Node} {new : Option Node}
    (isChild : memory.child .left parent = some old ∨ memory.child .right parent = some old)
    (once : memory.child .left parent = some old → memory.child .right parent ≠ some old)
    (side : Side) (node : Node) :
    (memory.relink (some parent) old new).child side node =
      if node = parent ∧ memory.child side node = some old then new else memory.child side node := by
  simp only [relink]
  by_cases isLeft : memory.child .left parent = some old
  · rw [if_pos isLeft]
    cases side <;> simp only [setChild] <;> grind
  · rw [if_neg isLeft]
    cases side <;> simp only [setChild] <;> grind

end CLibs.TreeMemory
