import CLibs.FuelledLoops
import CLibs.GuardedRuns
import CLibs.PointerTreeUpdates
import Mathlib.Order.Defs.LinearOrder
import Mathlib.Order.Lattice

/-!
# The red-black tree

Model of `rbtree_new/rbtree.c`.  The nodes are in a `TreeMemory`; a pointer that
may be null is an `Option`, and to follow it when it is null is a fault, as a
failed assertion is.  Where the source has two branches that are mirror images
of each other, `side` says which one is taken.
-/

namespace CLibs.Rbtree

inductive Color
  | red
  | black
deriving DecidableEq

/-- An assertion, a NULL that is read, or a loop that does not end. -/
inductive Fault
  | assertion
  | null
  | fuel

abbrev Memory (Node : Type) := TreeMemory Color Node

section Code

variable {Node : Type} [DecidableEq Node]

def follow : Option Node → Except Fault Node
  | none => .error .null
  | some node => .ok node

/-- The side on which `child` is below `parent`, by the test of its left
pointer. -/
def sideOf (memory : Memory Node) (parent child : Node) : Side :=
  if memory.child .left parent = some child then .left else .right

def rbtreeRotate (memory : Memory Node) (node child : Node) : Except Fault (Memory Node) :=
  if memory.child .left node = some child ∨ memory.child .right node = some child then
    let parent := memory.parent node
    let memory := memory.relink parent node (some child)
    let side := sideOf memory node child
    let memory := memory.setChild side node (memory.child side.flip child)
    let memory := memory.setParentOf (memory.child side.flip child) (some node)
    let memory := memory.setChild side.flip child (some node)
    let memory := memory.setParent node (some child)
    .ok (memory.setParent child parent)
  else .error .assertion

/-! ## Insertion -/

/-- The cases 2 and 3 of `rbtree_insert_color`, for a parent on `side`. -/
def insertRotate (memory : Memory Node) (side : Side) (node p g : Node) :
    Except Fault (Memory Node) :=
  (if memory.child side.flip p = some node then
    rbtreeRotate memory p node >>= fun memory =>
      match memory.parent p with
      | none => .error .assertion
      | some p => .ok (memory, p)
  else .ok (memory, p)) >>= fun (memory, p) =>
    rbtreeRotate memory g p >>= fun memory =>
      .ok ((memory.setColor p .black).setColor g .red)

def rbtreeInsertColor : Nat → Memory Node → Node → Except Fault (Memory Node)
  | 0, _, _ => .error .fuel
  | fuel + 1, memory, node =>
    match memory.parent node with
    | none => .ok (memory.setColor node .black)
    | some p =>
      if memory.color p = .black then .ok memory
      else
        match memory.parent p with
        | none => .error .assertion
        | some g =>
          let side := sideOf memory g p
          match (memory.child side.flip g).filter fun u => memory.color u = .red with
          | some u =>
            -- case 1
            let memory := (memory.setColor g .red).setColor p .black
            rbtreeInsertColor fuel (memory.setColor u .black) g
          | none => insertRotate memory side node p g

/-- Where a pointer to a node is stored. -/
inductive Link (Node : Type)
  | root
  | child (side : Side) (parent : Node)

def load (memory : Memory Node) : Link Node → Option Node
  | .root => memory.root
  | .child side parent => memory.child side parent

def store (memory : Memory Node) (link : Link Node) (value : Option Node) : Memory Node :=
  match link with
  | .root => memory.setRoot value
  | .child side parent => memory.setChild side parent value

def rbtreeInsert (fuel : Nat) (memory : Memory Node) (parent : Option Node)
    (link : Option (Link Node)) (node : Node) : Except Fault (Memory Node) :=
  let memory := (memory.setChild .right node none).setChild .left node none
  let memory := memory.setParent node parent
  let memory := match link with
    | none => memory
    | some link => store memory link (some node)
  let memory :=
    if memory.root = none then (memory.setRoot (some node)).setColor node .black
    else memory.setColor node .red
  rbtreeInsertColor fuel memory node

/-! ## Deletion -/

def isBlack (memory : Memory Node) : Option Node → Bool
  | none => true
  | some node => memory.color node = .black

/-- The case 1 of `rbtree_delete_color`, for a node on `side`: a red sibling
gives way to a black one. -/
def deleteRedSibling (memory : Memory Node) (side : Side) (p s : Node) :
    Except Fault (Memory Node × Node) :=
  if memory.color s = .red then
    rbtreeRotate memory p s >>= fun memory =>
      let memory := (memory.setColor s .black).setColor p .red
      (follow (memory.child side.flip p)).map fun s => (memory, s)
  else .ok (memory, s)

def deleteNearRed (memory : Memory Node) (side : Side) (p s : Node) :
    Except Fault (Memory Node × Node) :=
  if isBlack memory (memory.child side.flip s) then
    follow (memory.child side s) >>= fun near =>
      if memory.color near = .red then
        rbtreeRotate memory s near >>= fun memory =>
          let memory := (memory.setColor s .red).setColor near .black
          (follow (memory.child side.flip p)).map fun s => (memory, s)
      else .ok (memory, s)
  else .ok (memory, s)

/-- The case 4. -/
def deleteFarRed (memory : Memory Node) (side : Side) (p s : Node) : Except Fault (Memory Node) :=
  let far := memory.child side.flip s
  rbtreeRotate memory p s >>= fun memory =>
    let memory := memory.setColor s (memory.color p)
    let memory := memory.setColor p .black
    (follow far).map fun far => memory.setColor far .black

def rbtreeDeleteColor : Nat → Memory Node → Node → Except Fault (Memory Node)
  | 0, _, _ => .error .fuel
  | fuel + 1, memory, node =>
    match memory.parent node with
    | none => if memory.color node = .black then .ok memory else .error .assertion
    | some p =>
      let side := sideOf memory p node
      follow (memory.child side.flip p) >>= fun s =>
        deleteRedSibling memory side p s >>= fun (memory, s) =>
          if memory.color s ≠ .black then .error .assertion
          else if isBlack memory (memory.child side.flip s) &&
              isBlack memory (memory.child side s) then
            -- case 2
            let memory := memory.setColor s .red
            if memory.color p = .red ∨ memory.parent p = none then
              .ok (memory.setColor p .black)
            else rbtreeDeleteColor fuel memory p
          else
            deleteNearRed memory side p s >>= fun (memory, s) => deleteFarRed memory side p s

/-- The assignments of `rbtree_swap` for the subtree of `node` on a side: it
goes below `child`. -/
def adopt (memory : Memory Node) (node child : Node) (side : Side) : Memory Node :=
  let memory := memory.setParentOf (memory.child side node) (some child)
  memory.setChild side child
    (if memory.child side node = some child then some node else memory.child side node)

/-- The assignments of `rbtree_swap` to what points to the two nodes from above,
where `p` is the old parent of `child`. -/
def swapAbove (memory : Memory Node) (p : Option Node) (node child : Node) : Memory Node :=
  let memory := memory.relink (memory.parent node) node (some child)
  let memory := memory.setParent child (memory.parent node)
  match p with
  | none => memory
  | some q => if q = node then memory else memory.relink (some q) child (some node)

/-- The remaining assignments of `rbtree_swap`: `node` gets the old parent `p`
and the old subtrees `l` and `r` of `child`, and the colours are exchanged. -/
def swapOwn (memory : Memory Node) (p l r : Option Node) (node child : Node) : Memory Node :=
  let memory := memory.setParent node (if p = some node then some child else p)
  let memory := (memory.setParentOf l (some node)).setChild .left node l
  let memory := (memory.setParentOf r (some node)).setChild .right node r
  let color := memory.color child
  let memory := memory.setColor child (memory.color node)
  memory.setColor node color

def rbtreeSwap (memory : Memory Node) (node child : Node) : Memory Node :=
  let p := memory.parent child
  let l := memory.child .left child
  let r := memory.child .right child
  let memory := adopt (adopt memory node child .left) node child .right
  swapOwn (swapAbove memory p node child) p l r node child

def rbtreeUnlink (memory : Memory Node) (node : Node) : Except Fault (Memory Node) :=
  if memory.child .left node = none ∧ memory.child .right node = none then
    .ok (memory.relink (memory.parent node) node none)
  else .error .assertion

/-- The loop of `rbtree_delete` that goes down to the leftmost node. -/
def leftmost : Nat → Memory Node → Node → Except Fault Node
  | 0, _, _ => .error .fuel
  | fuel + 1, memory, c =>
    match memory.child .left c with
    | none => .ok c
    | some left => leftmost fuel memory left

/-- The deletion of a black node with a single child on `side`. -/
def deleteSingle (memory : Memory Node) (side : Side) (node : Node) : Except Fault (Memory Node) :=
  if memory.color node = .black then
    follow (memory.child side node) >>= fun child =>
      if memory.color child = .red then rbtreeUnlink (rbtreeSwap memory node child) node
      else .error .assertion
  else .error .assertion

/-- `rbtree_delete` for a node with at most one child. -/
def deleteOuter (fuel : Nat) (memory : Memory Node) (node : Node) : Except Fault (Memory Node) :=
  match memory.child .left node, memory.child .right node with
  | some _, some _ => .error .assertion
  | none, none =>
    if memory.color node = .red then rbtreeUnlink memory node
    else
      rbtreeDeleteColor fuel memory node >>= fun memory => rbtreeUnlink memory node
  | some _, none => deleteSingle memory .left node
  | none, some _ => deleteSingle memory .right node

/-- A node with two children is exchanged with its successor first. -/
def rbtreeDelete (fuel : Nat) (memory : Memory Node) (node : Node) : Except Fault (Memory Node) :=
  match memory.child .left node, memory.child .right node with
  | some _, some right =>
    leftmost fuel memory right >>= fun c => deleteOuter fuel (rbtreeSwap memory node c) node
  | _, _ => deleteOuter fuel memory node

end Code

/-! ## Callers -/

/-- The calls of a user of the tree. -/
inductive Call (Node : Type)
  | insert (parent : Option Node) (link : Option (Link Node)) (node : Node)
  | delete (node : Node)

section Calls

variable {Node : Type} [DecidableEq Node] {Key : Type} [LinearOrder Key]

def exec (fuel : Nat) (memory : Memory Node) : Call Node → Except Fault (Memory Node)
  | .insert parent link node => rbtreeInsert fuel memory parent link node
  | .delete node => rbtreeDelete fuel memory node

/-- The call returns. -/
def Step (memory : Memory Node) (call : Call Node) (next : Memory Node) : Prop :=
  Returns (fun fuel => exec fuel memory call) next

/-- A descent with the comparator from the root, to where a key belongs; among
equal keys it may go either way. -/
inductive Descends (memory : Memory Node) (key : Node → Key) (target : Key) :
    Option Node → Link Node → Prop
  | root : Descends memory key target none .root
  | left {parent : Option Node} {link : Link Node} {node : Node}
      (descends : Descends memory key target parent link) (found : load memory link = some node)
      (notAfter : target ≤ key node) : Descends memory key target (some node) (.child .left node)
  | right {parent : Option Node} {link : Link Node} {node : Node}
      (descends : Descends memory key target parent link) (found : load memory link = some node)
      (notBefore : key node ≤ target) : Descends memory key target (some node) (.child .right node)

/-- The nodes that the root leads to. -/
inductive InTree (memory : Memory Node) : Node → Prop
  | root {node : Node} (isRoot : memory.root = some node) : InTree memory node
  | child {parent node : Node} {side : Side} (above : InTree memory parent)
      (isChild : memory.child side parent = some node) : InTree memory node

/-- A new node is given with the place where its key belongs, and only a node of the tree is
deleted. -/
def Allowed (key : Node → Key) (memory : Memory Node) : Call Node → Prop
  | .insert parent link node =>
    ¬ InTree memory node ∧ ∃ place, Descends memory key (key node) parent place ∧
      load memory place = none ∧ (link = some place ∨ parent = none ∧ link = none)
  | .delete node => InTree memory node

end Calls

end CLibs.Rbtree

/-!
## Rotation and unlinking of nodes

What `rbtree_rotate` and `rbtree_unlink` do to the tree in memory.
-/

namespace CLibs.Rbtree

open TreeMemory

variable {Node : Type} [DecidableEq Node] {memory : Memory Node}
variable {path : List (Frame Color Node)} {tree : Tree Color Node}

/-! ## Rotation -/

variable {side : Side} {far : Tree Color Node} {child : Node}

theorem sideOf_eq {color : Color} {near : Tree Color Node} {item : Node}
    (focused : memory.Focused path (.join side color near item far))
    (isNear : near.root = some child) : sideOf memory item child = side := by
  cases side with
  | left =>
    apply if_pos
    exact focused.near_eq.trans isNear
  | right =>
    apply if_neg
    intro isLeft
    exact focused.far_ne_near isNear (focused.far_eq.symm.trans isLeft)

/-- The assignments of `rbtree_rotate` below the node that is rotated. -/
def rotateBelow (memory : Memory Node) (side : Side) (parent : Option Node) (node child : Node) :
    Memory Node :=
  let memory := memory.setChild side node (memory.child side.flip child)
  let memory := memory.setParentOf (memory.child side.flip child) (some node)
  let memory := memory.setChild side.flip child (some node)
  (memory.setParent node (some child)).setParent child parent

theorem rotateBelow_eq {inner : Option Node} (parent : Option Node) (node : Node)
    (isInner : memory.child side.flip child = inner) :
    rotateBelow memory side parent node child =
      (((((memory.setChild side node inner).setParentOf inner (some node)).setChild side.flip child
        (some node)).setParent node (some child)).setParent child parent) := by
  have again : (memory.setChild side node inner).child side.flip child = inner :=
    (setChild_child_of_side _ _ _ _ side.flip_ne _).trans isInner
  simp only [rotateBelow, isInner, again]

variable {node : Node}

theorem rotateBelow_same {inner parent : Option Node} {other : Node}
    (isInner : memory.child side.flip child = inner) (notNode : other ≠ node)
    (notChild : other ≠ child) (notInner : inner ≠ some other) :
    memory.Same (rotateBelow memory side parent node child) other := by
  rw [rotateBelow_eq parent node isInner]
  exact ((((same_setChild notNode).trans (same_setParentOf notInner)).trans
    (same_setChild notChild)).trans (same_setParent notNode)).trans (same_setParent notChild)

theorem rotateBelow_shape {parent : Option Node} {nodeColor childColor : Color}
    {outer inner : Tree Color Node}
    (shape : memory.Shape parent
      (.join side nodeColor (.join side childColor outer child inner) node far))
    (nodup : (Tree.join side nodeColor (.join side childColor outer child inner) node
      far).inorder.Nodup) :
    (rotateBelow memory side parent node child).Shape parent
      (.join side childColor outer child (.join side nodeColor inner node far)) := by
  obtain ⟨_, isColor, _, isFar, childShape, farShape⟩ := shape_join.mp shape
  obtain ⟨_, isChildColor, isOuter, isInner, outerShape, innerShape⟩ := shape_join.mp childShape
  obtain ⟨nodeNotChild, nodeNotFar, childNodup, farNodup, disjoint⟩ :=
    Tree.nodup_inorder_join.mp nodup
  obtain ⟨childNotOuter, childNotInner, outerNodup, innerNodup, apart⟩ :=
    Tree.nodup_inorder_join.mp childNodup
  simp only [Tree.mem_inorder_join, not_or] at nodeNotChild disjoint
  obtain ⟨nodeNeChild, nodeNotOuter, nodeNotInner⟩ := nodeNotChild
  have childNotFar : child ∉ far.inorder := disjoint child (.inl rfl)
  -- two subtrees keep their place, and the inner one gets a new parent
  have outside : ∀ subtree above, memory.Shape above subtree → node ∉ subtree.inorder →
      child ∉ subtree.inorder → (∀ other ∈ inner.inorder, other ∉ subtree.inorder) →
      (rotateBelow memory side parent node child).Shape above subtree := by
    intro subtree above subtreeShape nodeOut childOut innerOut
    apply subtreeShape.congr
    intro other member
    apply rotateBelow_same isInner
    · exact fun same => nodeOut (same ▸ member)
    · exact fun same => childOut (same ▸ member)
    · exact fun isRoot => innerOut other (Tree.mem_of_root isRoot) member
  have innerMoved : (rotateBelow memory side parent node child).Shape (some node) inner := by
    have kept : (memory.setChild side node inner.root).Shape (some child) inner := by
      apply innerShape.congr
      intro other member
      exact same_setChild fun same => nodeNotInner (same ▸ member)
    rw [rotateBelow_eq parent node isInner]
    apply (kept.reparent innerNodup (some node)).congr
    intro other member
    have notNode : other ≠ node := fun same => nodeNotInner (same ▸ member)
    have notChild : other ≠ child := fun same => childNotInner (same ▸ member)
    exact ((same_setChild notChild).trans (same_setParent notNode)).trans (same_setParent notChild)
  have outerKept : (rotateBelow memory side parent node child).Shape (some child) outer := by
    apply outside outer (some child) outerShape nodeNotOuter childNotOuter
    intro other inInner inOuter
    exact apart other inOuter inInner
  have farKept : (rotateBelow memory side parent node child).Shape (some node) far := by
    apply outside far (some node) farShape nodeNotFar childNotFar
    intro other inInner
    exact disjoint other (.inr (.inr inInner))
  rw [rotateBelow_eq parent node isInner] at innerMoved outerKept farKept ⊢
  refine shape_join.mpr ⟨?_, ?_, ?_, ?_, outerKept,
    shape_join.mpr ⟨?_, ?_, ?_, ?_, innerMoved, farKept⟩⟩
  · exact setParent_parent_self _ _ _
  · simpa using isChildColor
  · simp only [setParent_child]
    rw [setChild_child_of_side _ _ _ _ side.ne_flip, setParentOf_child,
      setChild_child_of_ne _ _ _ _ (Ne.symm nodeNeChild)]
    exact isOuter
  · simp
  · rw [setParent_parent_of_ne _ _ _ nodeNeChild, setParent_parent_self]
  · simpa using isColor
  · simp only [setParent_child]
    rw [setChild_child_of_side _ _ _ _ side.ne_flip, setParentOf_child, setChild_child_self]
  · simp only [setParent_child]
    rw [setChild_child_of_ne _ _ _ _ nodeNeChild, setParentOf_child,
      setChild_child_of_side _ _ _ _ side.flip_ne]
    exact isFar

omit [DecidableEq Node] in
theorem inorder_rotate (side : Side) (nodeColor childColor : Color)
    (outer inner far : Tree Color Node) (node child : Node) :
    (Tree.join side childColor outer child (.join side nodeColor inner node far)).inorder =
      (Tree.join side nodeColor (.join side childColor outer child inner) node far).inorder := by
  cases side <;> simp [Tree.join, Tree.inorder]

/-- A rotation keeps everything above the two nodes. -/
theorem rbtreeRotate_focused {nodeColor childColor : Color} {outer inner : Tree Color Node}
    (focused : memory.Focused path
      (.join side nodeColor (.join side childColor outer child inner) node far)) :
    ∃ next, rbtreeRotate memory node child = .ok next ∧
      next.Focused path (.join side childColor outer child (.join side nodeColor inner node far)) := by
  have nodup := nodup_of_plug focused.nodup
  have above : (memory.relink (top path) node (some child)).PathShape path (some child) :=
    focused.relink (Tree.root_join ..) (some child)
  have relinked : ∀ other ∈ (Tree.join side nodeColor (.join side childColor outer child inner) node
      far).inorder, memory.Same (memory.relink (top path) node (some child)) other :=
    fun other member => same_relink (top_ne focused.nodup member)
  have shape := focused.shape.congr relinked
  have isInner := (shape_join.mp (shape_join.mp shape).2.2.2.2.1).2.2.2.1
  have isChild : memory.child side node = some child := by
    rw [focused.near_eq, Tree.root_join]
  have asserted : memory.child .left node = some child ∨ memory.child .right node = some child := by
    cases side with
    | left => exact .inl isChild
    | right => exact .inr isChild
  have isSide : sideOf (memory.relink (top path) node (some child)) node child = side := by
    rw [sideOf, (relinked node (by simp)).2.2 .left]
    exact sideOf_eq focused (Tree.root_join ..)
  refine ⟨rotateBelow (memory.relink (top path) node (some child)) side (top path) node child,
    ?_, ?_, rotateBelow_shape shape nodup, ?_⟩
  · rw [rbtreeRotate, if_pos asserted, focused.parent_eq]
    simp only [isSide]
    rfl
  · rw [Tree.root_join]
    have outside : ∀ other ∈ pathNodes path, ∀ member ∈ (Tree.join side nodeColor
        (.join side childColor outer child inner) node far).inorder, other ≠ member := by
      rintro other inPath _ member rfl
      exact notMem_pathNodes focused.nodup member inPath
    refine above.congr ?_ ?_
    · simp [rotateBelow]
    · intro other inPath
      apply rotateBelow_same isInner
      · exact outside other inPath node (by simp)
      · exact outside other inPath child (by simp)
      · intro isRoot
        exact outside other inPath other (by simp [Tree.mem_of_root isRoot]) rfl
  · rw [inorder_plug, inorder_rotate, ← inorder_plug]
    exact focused.nodup

/-! ## Unlinking a leaf -/

theorem rbtreeUnlink_focused {color : Color}
    (focused : memory.Focused path (.node color .nil node .nil)) :
    ∃ next, rbtreeUnlink memory node = .ok next ∧ next.Focused path .nil := by
  obtain ⟨isParent, _, isLeft, isRight, _⟩ := focused.shape
  refine ⟨memory.relink (top path) node none, ?_, focused.relink rfl none, trivial, ?_⟩
  · rw [rbtreeUnlink, if_pos ⟨isLeft, isRight⟩, isParent]
  · have nodup := focused.nodup
    rw [inorder_plug] at nodup ⊢
    refine List.Nodup.sublist ?_ nodup
    exact (List.Sublist.refl _).append ((List.nil_sublist _).append (List.Sublist.refl _))

end CLibs.Rbtree
