import Mathlib.Data.List.Nodup
import Mathlib.Tactic.Tauto

/-!
# Binary trees with parent pointers

A binary tree in memory has two child pointers, a parent pointer and a colour of an arbitrary type
at each node.  `Tree` is the tree as a value, and a path of frames is a tree with a hole; the frame
next to the hole comes first, so that moving the focus up a frame changes nothing but the way the
same tree is written.  `Focused memory path tree` says that the memory holds `tree` in the hole of
`path`.
-/

namespace CLibs

open List

inductive Side
  | left
  | right
deriving DecidableEq

def Side.flip : Side → Side
  | .left => .right
  | .right => .left

@[simp]
theorem Side.flip_flip (side : Side) : side.flip.flip = side := by
  cases side <;> rfl

theorem Side.flip_ne (side : Side) : side.flip ≠ side := by
  cases side <;> decide

theorem Side.ne_flip (side : Side) : side ≠ side.flip := by
  cases side <;> decide

/-! ## Trees and paths -/

/-- The tree that a memory of nodes represents. -/
inductive Tree (Color Node : Type*)
  | nil
  | node (color : Color) (left : Tree Color Node) (item : Node) (right : Tree Color Node)

namespace Tree

open List

variable {Color Node : Type*}

def root : Tree Color Node → Option Node
  | .nil => none
  | .node _ _ item _ => some item

/-- The nodes from left to right. -/
def inorder : Tree Color Node → List Node
  | .nil => []
  | .node _ left item right => left.inorder ++ item :: right.inorder

def join (side : Side) (color : Color) (near : Tree Color Node) (item : Node)
    (far : Tree Color Node) : Tree Color Node :=
  match side with
  | .left => .node color near item far
  | .right => .node color far item near

@[simp]
theorem root_join (side : Side) (color : Color) (near : Tree Color Node) (item : Node)
    (far : Tree Color Node) : (join side color near item far).root = some item := by
  cases side <;> rfl

theorem join_flip (side : Side) (color : Color) (near : Tree Color Node) (item : Node)
    (far : Tree Color Node) : join side.flip color near item far = join side color far item near := by
  cases side <;> rfl

theorem induction_join (side : Side) {motive : Tree Color Node → Prop} (isNil : motive .nil)
    (isJoin : ∀ color near item far, motive near → motive far →
      motive (join side color near item far)) (tree : Tree Color Node) : motive tree := by
  induction tree with
  | nil => exact isNil
  | node color left item right leftIh rightIh =>
    cases side with
    | left => exact isJoin color left item right leftIh rightIh
    | right => exact isJoin color right item left rightIh leftIh

variable {item : Node}

@[simp]
theorem mem_inorder_join {side : Side} {color : Color} {near : Tree Color Node}
    {far : Tree Color Node} {other : Node} : other ∈ (join side color near item far).inorder ↔
      other = item ∨ other ∈ near.inorder ∨ other ∈ far.inorder := by
  cases side <;> simp [join, inorder] <;> tauto

theorem nodup_inorder_join {side : Side} {color : Color} {near : Tree Color Node}
    {far : Tree Color Node} : (join side color near item far).inorder.Nodup ↔
      item ∉ near.inorder ∧ item ∉ far.inorder ∧ near.inorder.Nodup ∧ far.inorder.Nodup ∧
        ∀ other ∈ near.inorder, other ∉ far.inorder := by
  cases side <;> simp only [join, inorder, nodup_append, nodup_cons, mem_cons] <;>
    grind

def map (rename : Node → Node) : Tree Color Node → Tree Color Node
  | .nil => .nil
  | .node color left item right => .node color (left.map rename) (rename item) (right.map rename)

theorem root_map (rename : Node → Node) (tree : Tree Color Node) :
    (tree.map rename).root = tree.root.map rename := by
  cases tree <;> rfl

theorem inorder_map (rename : Node → Node) (tree : Tree Color Node) :
    (tree.map rename).inorder = tree.inorder.map rename := by
  induction tree with
  | nil => rfl
  | node color left item right leftIh rightIh => simp [map, inorder, leftIh, rightIh]

theorem map_join (rename : Node → Node) (side : Side) (color : Color) (near : Tree Color Node)
    (item : Node) (far : Tree Color Node) : (join side color near item far).map rename =
      join side color (near.map rename) (rename item) (far.map rename) := by
  cases side <;> rfl

variable {tree : Tree Color Node}

theorem map_eq_self {rename : Node → Node} (fixed : ∀ item ∈ tree.inorder, rename item = item) :
    tree.map rename = tree := by
  induction tree with
  | nil => rfl
  | node color left item right leftIh rightIh =>
    rw [map, leftIh, rightIh, fixed item (by simp [inorder])]
    · intro member inRight
      exact fixed member (by simp [inorder, inRight])
    · intro member inLeft
      exact fixed member (by simp [inorder, inLeft])

theorem mem_of_root (isRoot : tree.root = some item) :
    item ∈ tree.inorder := by
  cases tree with
  | nil => cases isRoot
  | node color left top right =>
    cases isRoot
    simp [inorder]

end Tree

/-- One step of a path: the side of the hole, the node above it and the subtree
on the other side. -/
structure Frame (Color Node : Type*) where
  side : Side
  color : Color
  item : Node
  sibling : Tree Color Node

section Paths

variable {Color Node : Type*}

def Frame.fill (frame : Frame Color Node) (tree : Tree Color Node) : Tree Color Node :=
  .join frame.side frame.color tree frame.item frame.sibling

def plug : List (Frame Color Node) → Tree Color Node → Tree Color Node
  | [], tree => tree
  | frame :: path, tree => plug path (frame.fill tree)

def top : List (Frame Color Node) → Option Node
  | [] => none
  | frame :: _ => some frame.item

/-- The nodes before and after the hole, in order. -/
def before : List (Frame Color Node) → List Node
  | [] => []
  | frame :: path =>
    match frame.side with
    | .left => before path
    | .right => before path ++ (frame.sibling.inorder ++ [frame.item])

def after : List (Frame Color Node) → List Node
  | [] => []
  | frame :: path =>
    match frame.side with
    | .left => frame.item :: frame.sibling.inorder ++ after path
    | .right => after path

def pathNodes (path : List (Frame Color Node)) : List Node :=
  before path ++ after path

theorem inorder_plug (path : List (Frame Color Node)) (tree : Tree Color Node) :
    (plug path tree).inorder = before path ++ (tree.inorder ++ after path) := by
  induction path generalizing tree with
  | nil => simp [plug, before, after]
  | cons frame path ih =>
    rw [plug, ih]
    obtain ⟨side, color, item, sibling⟩ := frame
    cases side <;> simp [Frame.fill, Tree.join, Tree.inorder, before, after]

theorem plug_append (path outer : List (Frame Color Node)) (tree : Tree Color Node) :
    plug (path ++ outer) tree = plug outer (plug path tree) := by
  induction path generalizing tree with
  | nil => rfl
  | cons frame path ih => exact ih (frame.fill tree)

theorem before_append (path outer : List (Frame Color Node)) :
    before (path ++ outer) = before outer ++ before path := by
  induction path with
  | nil => simp [before]
  | cons frame path ih =>
    obtain ⟨side, color, item, sibling⟩ := frame
    cases side <;> simp [before, ih]

theorem after_append (path outer : List (Frame Color Node)) :
    after (path ++ outer) = after path ++ after outer := by
  induction path with
  | nil => rfl
  | cons frame path ih =>
    obtain ⟨side, color, item, sibling⟩ := frame
    cases side <;> simp [after, ih]

theorem root_plug_ne_none (frame : Frame Color Node) (path : List (Frame Color Node))
    (tree : Tree Color Node) : (plug (frame :: path) tree).root ≠ none := by
  induction path generalizing frame tree with
  | nil =>
    rw [plug, plug, Frame.fill, Tree.root_join]
    simp
  | cons next path ih => exact ih next _

theorem exists_plug (member : item ∈ tree.inorder) :
    ∃ path color left right, tree = plug path (.node color left item right) := by
  induction tree with
  | nil => cases member
  | node color left here right leftIh rightIh =>
    rw [Tree.inorder, mem_append, mem_cons] at member
    rcases member with inLeft | rfl | inRight
    · obtain ⟨path, itemColor, below, above, rfl⟩ := leftIh inLeft
      refine ⟨path ++ [⟨.left, color, here, right⟩], itemColor, below, above, ?_⟩
      rw [plug_append]
      rfl
    · exact ⟨[], color, left, right, rfl⟩
    · obtain ⟨path, itemColor, below, above, rfl⟩ := rightIh inRight
      refine ⟨path ++ [⟨.right, color, here, left⟩], itemColor, below, above, ?_⟩
      rw [plug_append]
      rfl

variable {path : List (Frame Color Node)}

theorem mem_inorder_plug :
    item ∈ (plug path tree).inorder ↔ item ∈ tree.inorder ∨ item ∈ pathNodes path := by
  simp only [inorder_plug, pathNodes, mem_append]
  tauto

theorem mem_pathNodes_cons {frame : Frame Color Node} : item ∈ pathNodes (frame :: path) ↔
      item = frame.item ∨ item ∈ frame.sibling.inorder ∨ item ∈ pathNodes path := by
  obtain ⟨side, color, top, sibling⟩ := frame
  cases side <;> simp [pathNodes, before, after] <;> tauto

theorem map_plug_eq_self {rename : Node → Node} (tree : Tree Color Node)
    (fixed : ∀ item ∈ pathNodes path, rename item = item) :
    (plug path tree).map rename = plug path (tree.map rename) := by
  induction path generalizing tree with
  | nil => rfl
  | cons frame path ih =>
    rw [plug, plug, ih _ fun item member => fixed item (mem_pathNodes_cons.mpr (.inr (.inr member))),
      Frame.fill, Tree.map_join, fixed frame.item (mem_pathNodes_cons.mpr (.inl rfl)),
      Tree.map_eq_self fun item member => fixed item (mem_pathNodes_cons.mpr (.inr (.inl member)))]
    rfl

theorem mem_pathNodes_of_top (isTop : top path = some item) : item ∈ pathNodes path := by
  cases path with
  | nil => cases isTop
  | cons frame path =>
    cases isTop
    exact mem_pathNodes_cons.mpr (.inl rfl)

theorem notMem_pathNodes (nodup : (plug path tree).inorder.Nodup) (member : item ∈ tree.inorder) :
    item ∉ pathNodes path := by
  rw [inorder_plug] at nodup
  simp only [nodup_append, mem_append] at nodup
  simp only [pathNodes, mem_append]
  grind

theorem top_ne (nodup : (plug path tree).inorder.Nodup) (member : item ∈ tree.inorder) :
    top path ≠ some item :=
  fun isTop => notMem_pathNodes nodup member (mem_pathNodes_of_top isTop)

theorem nodup_of_plug (nodup : (plug path tree).inorder.Nodup) : tree.inorder.Nodup := by
  rw [inorder_plug] at nodup
  exact (nodup_append.mp (nodup_append.mp nodup).2.1).1

end Paths

/-! ## Memory -/

/-- The links of all nodes, and the root. -/
structure TreeMemory (Color Node : Type*) where
  root : Option Node
  child : Side → Node → Option Node
  parent : Node → Option Node
  color : Node → Color

namespace TreeMemory

open List

variable {Color Node : Type*}

def Shape (memory : TreeMemory Color Node) (parent : Option Node) : Tree Color Node → Prop
  | .nil => True
  | .node color left item right =>
    memory.parent item = parent ∧ memory.color item = color ∧
      memory.child .left item = left.root ∧ memory.child .right item = right.root ∧
      memory.Shape (some item) left ∧ memory.Shape (some item) right

def PathShape (memory : TreeMemory Color Node) : List (Frame Color Node) → Option Node → Prop
  | [], hole => memory.root = hole
  | frame :: path, hole =>
    memory.parent frame.item = top path ∧ memory.color frame.item = frame.color ∧
      memory.child frame.side frame.item = hole ∧
      memory.child frame.side.flip frame.item = frame.sibling.root ∧
      memory.Shape (some frame.item) frame.sibling ∧ memory.PathShape path (some frame.item)

structure Focused (memory : TreeMemory Color Node) (path : List (Frame Color Node))
    (tree : Tree Color Node) : Prop where
  above : memory.PathShape path tree.root
  shape : memory.Shape (top path) tree
  nodup : (plug path tree).inorder.Nodup

/-- The memory holds exactly this tree. -/
def Represents (memory : TreeMemory Color Node) (tree : Tree Color Node) : Prop :=
  memory.Focused [] tree

variable {memory other : TreeMemory Color Node} {path : List (Frame Color Node)}
variable {tree : Tree Color Node}

theorem shape_join {side : Side} {color : Color} {near : Tree Color Node} {item : Node}
    {far : Tree Color Node} {parent : Option Node} :
    memory.Shape parent (.join side color near item far) ↔
      memory.parent item = parent ∧ memory.color item = color ∧
        memory.child side item = near.root ∧ memory.child side.flip item = far.root ∧
        memory.Shape (some item) near ∧ memory.Shape (some item) far := by
  cases side with
  | left => rfl
  | right =>
    change memory.parent item = parent ∧ memory.color item = color ∧
      memory.child .left item = far.root ∧ memory.child .right item = near.root ∧
      memory.Shape (some item) far ∧ memory.Shape (some item) near ↔ _
    simp only [Side.flip]
    tauto

theorem focused_cons {frame : Frame Color Node} :
    memory.Focused (frame :: path) tree ↔ memory.Focused path (frame.fill tree) := by
  constructor
  · rintro ⟨⟨parent, color, hole, sibling, shape, above⟩, inHole, nodup⟩
    refine ⟨?_, shape_join.mpr ⟨parent, color, hole, sibling, inHole, shape⟩, nodup⟩
    rw [Frame.fill, Tree.root_join]
    exact above
  · rintro ⟨above, shape, nodup⟩
    obtain ⟨parent, color, hole, sibling, inHole, shape⟩ := shape_join.mp shape
    rw [Frame.fill, Tree.root_join] at above
    exact ⟨⟨parent, color, hole, sibling, shape, above⟩, inHole, nodup⟩

theorem focused_append {inner : List (Frame Color Node)} :
    memory.Focused (inner ++ path) tree ↔ memory.Focused path (plug inner tree) := by
  induction inner generalizing tree with
  | nil => rfl
  | cons frame inner ih => rw [cons_append, focused_cons, ih, plug]

theorem focused_iff_represents :
    memory.Focused path tree ↔ memory.Represents (plug path tree) := by
  rw [Represents, ← focused_append, append_nil]

/-! ### What a part of the memory depends on -/

def Same (memory other : TreeMemory Color Node) (item : Node) : Prop :=
  other.parent item = memory.parent item ∧ other.color item = memory.color item ∧
    ∀ side, other.child side item = memory.child side item

theorem Shape.congr {parent : Option Node} (shape : memory.Shape parent tree)
    (same : ∀ item ∈ tree.inorder, memory.Same other item) : other.Shape parent tree := by
  induction tree generalizing parent with
  | nil => trivial
  | node color left item right leftIh rightIh =>
    obtain ⟨isParent, isColor, isLeft, isRight, leftShape, rightShape⟩ := shape
    obtain ⟨sameParent, sameColor, sameChild⟩ := same item (by simp [Tree.inorder])
    refine ⟨sameParent.trans isParent, sameColor.trans isColor, (sameChild _).trans isLeft,
      (sameChild _).trans isRight, leftIh leftShape ?_, rightIh rightShape ?_⟩
    · intro member inLeft
      exact same member (by simp [Tree.inorder, inLeft])
    · intro member inRight
      exact same member (by simp [Tree.inorder, inRight])

theorem PathShape.congr {hole : Option Node} (shape : memory.PathShape path hole)
    (sameRoot : other.root = memory.root) (same : ∀ item ∈ pathNodes path, memory.Same other item) :
    other.PathShape path hole := by
  induction path generalizing hole with
  | nil => exact sameRoot.trans shape
  | cons frame path ih =>
    obtain ⟨parent, color, isHole, sibling, siblingShape, above⟩ := shape
    obtain ⟨sameParent, sameColor, sameChild⟩ := same frame.item (mem_pathNodes_cons.mpr (.inl rfl))
    refine ⟨sameParent.trans parent, sameColor.trans color, (sameChild _).trans isHole,
      (sameChild _).trans sibling, siblingShape.congr ?_, ih above ?_⟩
    · intro item member
      exact same item (mem_pathNodes_cons.mpr (.inr (.inl member)))
    · intro item member
      exact same item (mem_pathNodes_cons.mpr (.inr (.inr member)))

end TreeMemory

end CLibs
