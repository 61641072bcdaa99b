import CLibs.BstShapes
import CLibs.FaultingPrograms
import CLibs.FuelledLoops
import CLibs.PointerTreeUpdates

/-!
# `bst/bst.c`

The colour of a node is its `data`.  A `Node **` is the caller's root pointer or a child pointer.
`bst_insert` gets the node that `malloc` returns; memory is available.  `bst_delete` gets the caller's
root by value and cannot change it.
-/

namespace CLibs.Bst

open ValueTrees List

abbrev Memory (Node : Type) := TreeMemory Int Node

section Code

variable {Node : Type} [DecidableEq Node]

/-- What a `Node **` points to: the root pointer, or a child pointer. -/
abbrev Location (Node : Type) := Option (Side × Node)

def load (memory : Memory Node) : Location Node → Option Node
  | none => memory.root
  | some (side, node) => memory.child side node

def store (memory : Memory Node) (location : Location Node) (value : Option Node) : Memory Node :=
  match location with
  | none => memory.setRoot value
  | some (side, node) => memory.setChild side node value

def bstLink (memory : Memory Node) (root : Location Node) (pre : Option Node) (new : Node) (data : Int) :
    Memory Node :=
  let memory := store memory root (some new)
  let memory := (memory.setColor new data).setChild .left new none
  let memory := (memory.setChild .right new none).setParent new pre
  match pre with
  | none => memory
  | some pre =>
    if memory.color pre < data then memory.setChild .right pre (some new)
    else memory.setChild .left pre (some new)

/-- `__bst_insert`: the memory and what the call returns. -/
def bstInsertAt (new : Node) (data : Int) : (fuel : Nat) → Memory Node → (root : Location Node) →
    (pre : Option Node) → Except Fault (Memory Node × Option Node)
  | 0, _, _, _ => .error .fuel
  | fuel + 1, memory, root, pre =>
    match load memory root with
    | none => .ok (bstLink memory root pre new data, some new)
    | some node =>
      if memory.color node < data then do
        let (memory, _) ← bstInsertAt new data fuel memory (some (.right, node)) (some node)
        .ok (memory, none)
      else do
        let (memory, _) ← bstInsertAt new data fuel memory (some (.left, node)) (some node)
        .ok (memory, none)

def bstInsert (fuel : Nat) (memory : Memory Node) (new : Node) (data : Int) :
    Except Fault (Memory Node × Option Node) :=
  bstInsertAt new data fuel memory none none

def bstSearch (memory : Memory Node) (data : Int) : (fuel : Nat) → (root : Option Node) →
    Except Fault (Option Node)
  | 0, _ => .error .fuel
  | _ + 1, none => .ok none
  | fuel + 1, some root =>
    if data = memory.color root then .ok (some root)
    else if memory.color root < data then bstSearch memory data fuel (memory.child .right root)
    else bstSearch memory data fuel (memory.child .left root)

/-- The loop of `bst_delete` that leaves `one` at the last node. -/
def bstLast (memory : Memory Node) : (fuel : Nat) → (p one : Option Node) → Except Fault (Option Node)
  | 0, _, _ => .error .fuel
  | _ + 1, none, one => .ok one
  | fuel + 1, some p, _ => bstLast memory fuel (memory.child .right p) (some p)

/-- A leaf is taken out of its parent, if it has one. -/
def bstUnlink (memory : Memory Node) (root : Node) : Memory Node :=
  match memory.parent root with
  | none => memory
  | some parent =>
    if memory.child .left parent = some root then memory.setChild .left parent none
    else memory.setChild .right parent none

/-- `bst_delete`: what it returns, the memory, and the node that is freed. -/
def bstDelete : (fuel : Nat) → Memory Node → (root : Option Node) → (data : Int) →
    Except Fault (Int × Memory Node × Option Node)
  | 0, _, _, _ => .error .fuel
  | _ + 1, memory, none, _ => .ok (-1, memory, none)
  | fuel + 1, memory, some root, data =>
    if memory.color root < data then bstDelete fuel memory (memory.child .right root) data
    else if data < memory.color root then bstDelete fuel memory (memory.child .left root) data
    else
      match memory.child .left root, memory.child .right root with
      | none, none => .ok (0, bstUnlink memory root, some root)
      | some left, some _ => do
          let one ← bstLast memory fuel (some left) none
          match one with
          | none => .error .outside
          | some one =>
            let memory := memory.setColor root (memory.color one)
            bstDelete fuel memory (memory.child .left root) (memory.color one)
      | some left, none =>
        let memory := memory.setColor root (memory.color left)
        bstDelete fuel memory (memory.child .left root) (memory.color root)
      | none, some right =>
        let memory := memory.setColor root (memory.color right)
        bstDelete fuel memory (memory.child .right root) (memory.color root)

/-- The caller's root with what it leads to, and the nodes that are allocated. -/
structure State (Node : Type) where
  memory : Memory Node
  live : List Node

def insertStep (fuel : Nat) (state : State Node) (new : Node) (data : Int) : Except Fault (State Node) := do
  let (memory, _) ← bstInsert fuel state.memory new data
  .ok ⟨memory, new :: state.live⟩

def deleteStep (fuel : Nat) (state : State Node) (data : Int) : Except Fault (Int × State Node) := do
  let (code, memory, freed) ← bstDelete fuel state.memory state.memory.root data
  .ok (code, ⟨memory, state.live.filter fun node => freed ≠ some node⟩)

end Code

/-! ## Insertion -/

section Insertion

variable {Node : Type} [DecidableEq Node] {memory : Memory Node} {path : List (Frame Int Node)}
  {tree : Tree Int Node}

/-- The pointer to the hole of a path. -/
def holeOf : List (Frame Int Node) → Location Node
  | [] => none
  | frame :: _ => some (frame.side, frame.item)

omit [DecidableEq Node] in
theorem load_holeOf (focused : memory.Focused path tree) : load memory (holeOf path) = tree.root := by
  cases path with
  | nil => exact focused.above
  | cons frame path => exact focused.above.2.2.1

theorem setChild_eq_self {side : Side} {node : Node} {value : Option Node}
    (same : memory.child side node = value) : memory.setChild side node value = memory := by
  have fields : (fun otherSide other => if otherSide = side ∧ other = node then value
      else memory.child otherSide other) = memory.child := by
    funext otherSide other
    split
    · next here => rw [here.1, here.2, same]
    · rfl
  rw [TreeMemory.setChild, fields]

/-- The frame above the hole is on the side where the value belongs. -/
def Leads (data : Int) : List (Frame Int Node) → Prop
  | [] => True
  | frame :: _ => frame.side = if frame.color < data then .right else .left

def bstFill (memory : Memory Node) (pre : Option Node) (new : Node) (data : Int) : Memory Node :=
  (((memory.setColor new data).setChild .left new none).setChild .right new none).setParent new pre

variable {new : Node} {data : Int}

theorem same_bstFill {pre : Option Node} {other : Node} (different : other ≠ new) :
    memory.Same (bstFill memory pre new data) other :=
  (TreeMemory.same_setColor different).trans ((TreeMemory.same_setChild different).trans
    ((TreeMemory.same_setChild different).trans (TreeMemory.same_setParent different)))

theorem shape_bstFill (memory : Memory Node) (pre : Option Node) (new : Node) (data : Int) :
    (bstFill memory pre new data).Shape pre (.node data .nil new .nil) := by
  refine ⟨TreeMemory.setParent_parent_self _ _ _, Function.update_self _ _ _, ?_, ?_, trivial, trivial⟩
  · change (TreeMemory.setChild _ .right new none).child .left new = none
    rw [TreeMemory.setChild_child_of_side _ _ _ _ (by decide)]
    exact TreeMemory.setChild_child_self _ _ _ _
  · exact TreeMemory.setChild_child_self _ _ _ _

theorem store_holeOf (focused : memory.Focused path tree) (new : Option Node) :
    (store memory (holeOf path) new).PathShape path new := by
  cases path with
  | nil => rfl
  | cons frame path => exact focused.setHole new

theorem bstLink_eq (leads : Leads data path)
    (above : (bstFill (store memory (holeOf path) (some new)) (top path) new data).PathShape path (some new)) :
    bstLink memory (holeOf path) (top path) new data =
      bstFill (store memory (holeOf path) (some new)) (top path) new data := by
  cases path with
  | nil => rfl
  | cons frame path =>
    obtain ⟨-, isColor, isHole, -⟩ := above
    change (if TreeMemory.color (bstFill _ _ _ _) frame.item < data then _ else _) = _
    rw [isColor]
    change frame.side = _ at leads
    by_cases greater : frame.color < data
    · rw [if_pos greater] at leads ⊢
      rw [leads] at isHole
      exact setChild_eq_self isHole
    · rw [if_neg greater] at leads ⊢
      rw [leads] at isHole
      exact setChild_eq_self isHole

theorem bstLink_focused (focused : memory.Focused path .nil) (fresh : new ∉ pathNodes path)
    (leads : Leads data path) :
    (bstLink memory (holeOf path) (top path) new data).Focused path (.node data .nil new .nil) := by
  have above : (bstFill (store memory (holeOf path) (some new)) (top path) new data).PathShape path
      (some new) := by
    refine (store_holeOf focused (some new)).congr rfl ?_
    intro item inPath
    apply same_bstFill
    rintro rfl
    exact fresh inPath
  rw [bstLink_eq leads above]
  refine ⟨above, shape_bstFill _ _ _ _, ?_⟩
  have nodup := focused.nodup
  rw [inorder_plug] at nodup ⊢
  rw [pathNodes, mem_append, not_or] at fresh
  exact (perm_middle (a := new)).nodup_iff.mpr (nodup_cons.mpr
    ⟨by rw [mem_append]; exact not_or.mpr fresh, nodup⟩)

omit [DecidableEq Node] in
theorem insert_below {program : Nat → Except Fault (Memory Node × Option Node)} {after : Memory Node}
    {result : Option Node} (inserted : Returns program (after, result)) :
    Returns (fun fuel => do
      let (memory, _) ← program fuel
      .ok (memory, none)) (after, (none : Option Node)) := by
  obtain ⟨enough, inserted⟩ := inserted
  refine ⟨enough, fun fuel sufficient => ?_⟩
  dsimp only
  rw [inserted fuel sufficient, ok_bind]

theorem bstInsertAt_returns (focused : memory.Focused path tree)
    (fresh : new ∉ (plug path tree).inorder) (leads : Leads data path) :
    ∃ after result, Returns (fun fuel => bstInsertAt new data fuel memory (holeOf path) (top path))
        (after, result) ∧ after.Focused path (insertLeaf data new tree) := by
  induction tree generalizing path with
  | nil =>
    have outside : new ∉ pathNodes path := fun inPath => fresh (mem_inorder_plug.mpr (.inr inPath))
    refine ⟨_, some new, ?_, bstLink_focused focused outside leads⟩
    refine .iterate (fun fuel => ?_) (.pure _)
    rw [bstInsertAt, load_holeOf focused]
    rfl
  | node value left item right leftIh rightIh =>
    have isColor : memory.color item = value := focused.shape.2.1
    have isRoot : load memory (holeOf path) = some item := load_holeOf focused
    by_cases above : value < data
    · have below : memory.Focused (⟨.right, value, item, left⟩ :: path) right :=
        TreeMemory.focused_cons.mpr focused
      obtain ⟨after, result, inserted, held⟩ := rightIh below fresh (if_pos above).symm
      refine ⟨after, none, ?_, ?_⟩
      · refine .iterate (fun fuel => ?_) (insert_below inserted)
        rw [bstInsertAt, isRoot]
        dsimp only
        rw [isColor, if_pos above]
        rfl
      · rw [insertLeaf, if_pos above]
        exact TreeMemory.focused_cons.mp held
    · have below : memory.Focused (⟨.left, value, item, right⟩ :: path) left :=
        TreeMemory.focused_cons.mpr focused
      obtain ⟨after, result, inserted, held⟩ := leftIh below fresh (if_neg above).symm
      refine ⟨after, none, ?_, ?_⟩
      · refine .iterate (fun fuel => ?_) (insert_below inserted)
        rw [bstInsertAt, isRoot]
        dsimp only
        rw [isColor, if_neg above]
        rfl
      · rw [insertLeaf, if_neg above]
        exact TreeMemory.focused_cons.mp held

end Insertion

end CLibs.Bst

/-!
## Deletion and search in `bst/bst.c`

The pointers that `bst_delete` changes hold what `deleteTree` makes of the tree, unless the only node
goes, which leaves the caller's root as it is.
-/

namespace CLibs.Bst

open ValueTrees List

variable {Node : Type} [DecidableEq Node] {memory : Memory Node} {path : List (Frame Int Node)}
  {tree left right : Tree Int Node} {key data : Int} {item : Node}

/-! ## Search -/

variable {parent : Option Node}

omit [DecidableEq Node] in
theorem bstSearch_returns (shape : memory.Shape parent tree) (ordered : Ordered tree) (key : Int) :
    ∃ found, Returns (fun fuel => bstSearch memory key fuel tree.root) found ∧
      match found with
      | some node => node ∈ tree.inorder ∧ memory.color node = key
      | none => key ∉ values tree := by
  induction tree generalizing parent with
  | nil =>
    refine ⟨none, .iterate (fun fuel => ?_) (.pure _), Multiset.notMem_zero key⟩
    rfl
  | node data left item right leftIh rightIh =>
    obtain ⟨-, isColor, isLeft, isRight, leftShape, rightShape⟩ := shape
    rcases lt_trichotomy data key with above | rfl | below
    · obtain ⟨found, searched, tells⟩ := rightIh rightShape ordered.2.1
      refine ⟨found, .iterate (fun fuel => ?_) searched, ?_⟩
      · change bstSearch memory key (fuel + 1) (some item) = _
        rw [bstSearch, isColor, if_neg above.ne', if_pos above, isRight]
      · cases found with
        | none => exact fun member => tells ((mem_right ordered above).mp member)
        | some node =>
          exact ⟨mem_append_right _ (mem_cons_of_mem _ tells.1), tells.2⟩
    · refine ⟨some item, .iterate (fun fuel => ?_) (.pure _), ?_, isColor⟩
      · change bstSearch memory data (fuel + 1) (some item) = _
        rw [bstSearch, if_pos isColor.symm]
      · exact mem_append_right _ mem_cons_self
    · obtain ⟨found, searched, tells⟩ := leftIh leftShape ordered.1
      refine ⟨found, .iterate (fun fuel => ?_) searched, ?_⟩
      · change bstSearch memory key (fuel + 1) (some item) = _
        rw [bstSearch, isColor, if_neg below.ne, if_neg below.not_gt, isLeft]
      · cases found with
        | none => exact fun member => tells ((mem_left ordered below).mp member)
        | some node => exact ⟨mem_append_left _ tells.1, tells.2⟩

omit [DecidableEq Node] in
theorem bstLast_returns (one : Option Node) {node : Node} (shape : memory.Shape parent tree)
    (isRoot : tree.root = some node) (other : Int) :
    ∃ last, Returns (fun fuel => bstLast memory fuel tree.root one) (some last) ∧
      memory.color last = lastValue tree other := by
  induction tree generalizing parent one node other with
  | nil => cases isRoot
  | node data left item right leftIh rightIh =>
    obtain ⟨-, isColor, -, isRight, -, rightShape⟩ := shape
    have turn : ∀ fuel, bstLast memory (fuel + 1) (some item) one =
        bstLast memory fuel right.root (some item) := by
      intro fuel
      rw [bstLast, isRight]
    cases right with
    | nil =>
      exact ⟨item, .iterate turn (.iterate (fun _ => rfl) (.pure _)), isColor⟩
    | node value below next above =>
      obtain ⟨last, ended, isLast⟩ := rightIh (some item) rightShape rfl data
      exact ⟨last, .iterate turn ended, isLast⟩

omit [DecidableEq Node] in
theorem color_top {node : Node} (shape : memory.Shape parent tree) (isRoot : tree.root = some node)
    (other : Int) : memory.color node = topValue tree other := by
  cases tree with
  | nil => cases isRoot
  | node data left item right =>
    cases isRoot
    exact shape.2.1

/-! ## Deletion -/

/-- One node, with this value. -/
def Alone (key : Int) : Tree Int Node → Prop
  | .nil => False
  | .node data left _ right => data = key ∧ left.root = none ∧ right.root = none

omit [DecidableEq Node] in
theorem Alone.mem (alone : Alone key tree) : key ∈ values tree := by
  cases tree with
  | nil => exact absurd alone not_false
  | node data left item right => exact alone.1 ▸ data_mem data left right item

def codeOf (key : Int) (tree : Tree Int Node) : Int :=
  if (freedNode key tree).isSome then 0 else -1

theorem bstUnlink_focused {frame : Frame Int Node}
    (focused : memory.Focused (frame :: path) (.node data .nil item .nil)) :
    (bstUnlink memory item).Focused (frame :: path) .nil := by
  have unlinked : bstUnlink memory item = memory.relink (top (frame :: path)) item none := by
    rw [bstUnlink, focused.shape.1]
    rfl
  rw [unlinked]
  refine ⟨focused.relink rfl none, trivial, ?_⟩
  have nodup := focused.nodup
  rw [inorder_plug] at nodup ⊢
  exact nodup.sublist ((sublist_cons_self _ _).append_left _)

theorem color_setColor_copied (memory : Memory Node) (item one : Node) :
    (memory.setColor item (memory.color one)).color one = memory.color one := by
  rw [TreeMemory.setColor]
  by_cases same : one = item
  · rw [same]
    exact Function.update_self _ _ _
  · exact Function.update_of_ne same _ _

theorem delete_two {first one two : Node} {result : Int × Memory Node × Option Node}
    (isColor : memory.color item = data) (isLeft : memory.child .left item = some first)
    (isRight : memory.child .right item = some two)
    (ended : Returns (fun fuel => bstLast memory fuel (some first) none) (some one))
    (deleted : Returns (fun fuel => bstDelete fuel (memory.setColor item (memory.color one)) (some first)
      (memory.color one)) result) :
    Returns (fun fuel => bstDelete fuel memory (some item) data) result := by
  obtain ⟨enough, ended⟩ := ended
  obtain ⟨more, deleted⟩ := deleted
  refine ⟨max enough more + 1, fun fuel sufficient => ?_⟩
  obtain ⟨less, rfl⟩ : ∃ less, fuel = less + 1 := ⟨fuel - 1, by omega⟩
  have last := ended less (by omega)
  have rest := deleted less (by omega)
  dsimp only at last rest ⊢
  rw [bstDelete, isColor, if_neg (lt_irrefl _), if_neg (lt_irrefl _), isLeft, isRight]
  dsimp only
  rw [last, ok_bind]
  dsimp only
  rw [color_setColor_copied]
  change bstDelete less _ (memory.child .left item) _ = _
  rw [isLeft, rest]

theorem delete_one (side : Side) {child : Node} {result : Int × Memory Node × Option Node}
    (isColor : memory.color item = data) (isChild : memory.child side item = some child)
    (isNone : memory.child side.flip item = none)
    (deleted : Returns (fun fuel => bstDelete fuel (memory.setColor item (memory.color child)) (some child)
      (memory.color child)) result) :
    Returns (fun fuel => bstDelete fuel memory (some item) data) result := by
  refine .iterate (fun fuel => ?_) deleted
  have copied : (memory.setColor item (memory.color child)).color item = memory.color child :=
    Function.update_self _ _ _
  cases side with
  | left =>
    change memory.child .right item = none at isNone
    rw [bstDelete, isColor, if_neg (lt_irrefl _), if_neg (lt_irrefl _), isChild, isNone]
    dsimp only
    rw [copied]
    change bstDelete fuel _ (memory.child .left item) _ = _
    rw [isChild]
  | right =>
    change memory.child .left item = none at isNone
    rw [bstDelete, isColor, if_neg (lt_irrefl _), if_neg (lt_irrefl _), isChild, isNone]
    dsimp only
    rw [copied]
    change bstDelete fuel _ (memory.child .right item) _ = _
    rw [isChild]

/-- The loops of `bst_delete` do what `deleteTree` says. -/
theorem bstDelete_returns (key : Int) (tree : Tree Int Node) (memory : Memory Node)
    (path : List (Frame Int Node)) (focused : memory.Focused path tree)
    (attached : path = [] → ¬Alone key tree) :
    ∃ after, Returns (fun fuel => bstDelete fuel memory tree.root key)
        (codeOf key tree, after, freedNode key tree) ∧ after.Focused path (deleteTree key tree) := by
  induction key, tree using deletion_induction generalizing memory path with
  | nil key => exact ⟨memory, .iterate (fun _ => rfl) (.pure _), focused⟩
  | toRight key data left item right above ih =>
    have below : memory.Focused (⟨.right, data, item, left⟩ :: path) right :=
      TreeMemory.focused_cons.mpr focused
    obtain ⟨after, deleted, held⟩ := ih memory _ below nofun
    have isColor : memory.color item = data := focused.shape.2.1
    have isRight : memory.child .right item = right.root := focused.shape.2.2.2.1
    refine ⟨after, ?_, ?_⟩
    · rw [codeOf, freedNode_right above]
      refine .iterate (fun fuel => ?_) deleted
      change bstDelete (fuel + 1) memory (some item) key = _
      rw [bstDelete, isColor, if_pos above, isRight]
    · rw [deleteTree_right above]
      exact TreeMemory.focused_cons.mp held
  | toLeft key data left item right below ih =>
    have under : memory.Focused (⟨.left, data, item, right⟩ :: path) left :=
      TreeMemory.focused_cons.mpr focused
    obtain ⟨after, deleted, held⟩ := ih memory _ under nofun
    have isColor : memory.color item = data := focused.shape.2.1
    have isLeft : memory.child .left item = left.root := focused.shape.2.2.1
    refine ⟨after, ?_, ?_⟩
    · rw [codeOf, freedNode_left below]
      refine .iterate (fun fuel => ?_) deleted
      change bstDelete (fuel + 1) memory (some item) key = _
      rw [bstDelete, isColor, if_neg below.not_gt, if_pos below, isLeft]
    · rw [deleteTree_left below]
      exact TreeMemory.focused_cons.mp held
  | leaf data item =>
    obtain ⟨-, isColor, isLeft, isRight, -, -⟩ := focused.shape
    cases path with
    | nil => exact absurd ⟨rfl, rfl, rfl⟩ (attached rfl)
    | cons frame path =>
      refine ⟨bstUnlink memory item, ?_, ?_⟩
      · rw [codeOf, freedNode_leaf]
        refine .iterate (fun fuel => ?_) (.pure _)
        change bstDelete (fuel + 1) memory (some item) data = _
        rw [bstDelete, isColor, if_neg (lt_irrefl _), if_neg (lt_irrefl _), isLeft, isRight]
        rfl
      · rw [deleteTree_leaf]
        exact bstUnlink_focused focused
  | two data left item right one two isLeft isRight ih =>
    obtain ⟨-, isColor, leftRoot, rightRoot, leftShape, -⟩ := focused.shape
    obtain ⟨last, ended, isLast⟩ := bstLast_returns none leftShape isLeft data
    have here : memory.Focused path (.join .left data left item right) := focused
    have recolored := here.setColor (lastValue left data)
    have under : (memory.setColor item (lastValue left data)).Focused
        (⟨.left, lastValue left data, item, right⟩ :: path) left := TreeMemory.focused_cons.mpr recolored
    obtain ⟨after, deleted, held⟩ := ih _ _ under nofun
    refine ⟨after, ?_, ?_⟩
    · rw [codeOf, freedNode_two isLeft isRight]
      rw [isLeft] at ended deleted
      exact delete_two isColor (leftRoot.trans isLeft) (rightRoot.trans isRight) ended (isLast ▸ deleted)
    · rw [deleteTree_two isLeft isRight]
      exact TreeMemory.focused_cons.mp held
  | onlyLeft data left item one isLeft ih =>
    obtain ⟨-, isColor, leftRoot, rightRoot, leftShape, -⟩ := focused.shape
    have isTop := color_top leftShape isLeft data
    have here : memory.Focused path (.join .left data left item .nil) := focused
    have recolored := here.setColor (topValue left data)
    have under : (memory.setColor item (topValue left data)).Focused
        (⟨.left, topValue left data, item, .nil⟩ :: path) left := TreeMemory.focused_cons.mpr recolored
    obtain ⟨after, deleted, held⟩ := ih _ _ under nofun
    refine ⟨after, ?_, ?_⟩
    · rw [codeOf, freedNode_onlyLeft isLeft]
      rw [isLeft] at deleted
      exact delete_one .left isColor (leftRoot.trans isLeft) rightRoot (isTop ▸ deleted)
    · rw [deleteTree_onlyLeft isLeft]
      exact TreeMemory.focused_cons.mp held
  | onlyRight data item right two isRight ih =>
    obtain ⟨-, isColor, leftRoot, rightRoot, -, rightShape⟩ := focused.shape
    have isTop := color_top rightShape isRight data
    have here : memory.Focused path (.join .left data .nil item right) := focused
    have recolored := here.setColor (topValue right data)
    have under : (memory.setColor item (topValue right data)).Focused
        (⟨.right, topValue right data, item, .nil⟩ :: path) right := TreeMemory.focused_cons.mpr recolored
    obtain ⟨after, deleted, held⟩ := ih _ _ under nofun
    refine ⟨after, ?_, ?_⟩
    · rw [codeOf, freedNode_onlyRight isRight]
      rw [isRight] at deleted
      exact delete_one .right isColor (rightRoot.trans isRight) leftRoot (isTop ▸ deleted)
    · rw [deleteTree_onlyRight isRight]
      exact TreeMemory.focused_cons.mp held

theorem bstDelete_absent (shape : memory.Shape parent tree) (absent : key ∉ values tree) :
    Returns (fun fuel => bstDelete fuel memory tree.root key) (-1, memory, none) := by
  induction tree generalizing parent with
  | nil => exact .iterate (fun _ => rfl) (.pure _)
  | node data left item right leftIh rightIh =>
    obtain ⟨-, isColor, isLeft, isRight, leftShape, rightShape⟩ := shape
    rw [values_node, Multiset.mem_cons, Multiset.mem_add, not_or, not_or] at absent
    obtain ⟨other, notLeft, notRight⟩ := absent
    rcases lt_trichotomy data key with above | same | below
    · refine .iterate (fun fuel => ?_) (rightIh rightShape notRight)
      change bstDelete (fuel + 1) memory (some item) key = _
      rw [bstDelete, isColor, if_pos above, isRight]
    · exact absurd same.symm other
    · refine .iterate (fun fuel => ?_) (leftIh leftShape notLeft)
      change bstDelete (fuel + 1) memory (some item) key = _
      rw [bstDelete, isColor, if_neg below.not_gt, if_pos below, isLeft]

end CLibs.Bst
