import CLibs.ValueTrees

/-!
# Deletion by copying values

The deletion of `bst/bst.c` seen as a function of trees.  A node that is not a leaf gets a value from
below, which is then deleted there: the greatest one of its left subtree if it has two children, the
one of its child otherwise.  The values are always right.  They stay in order exactly when the only
subtree of a node from which a value is taken hangs on one side all the way down.
-/

namespace CLibs.Bst

open ValueTrees

variable {Node : Type}

def topValue : Tree Int Node → Int → Int
  | .nil, other => other
  | .node data _ _ _, _ => data

def lastValue : Tree Int Node → Int → Int
  | .nil, other => other
  | .node data _ _ right, _ => lastValue right data

def deleteTree (key : Int) : Tree Int Node → Tree Int Node
  | .nil => .nil
  | .node data left item right =>
    if data < key then .node data left item (deleteTree key right)
    else if key < data then .node data (deleteTree key left) item right
    else
      match left.root, right.root with
      | none, none => .nil
      | some _, some _ => .node (lastValue left data) (deleteTree (lastValue left data) left) item right
      | some _, none => .node (topValue left data) (deleteTree (topValue left data) left) item right
      | none, some _ => .node (topValue right data) left item (deleteTree (topValue right data) right)

def freedNode (key : Int) : Tree Int Node → Option Node
  | .nil => none
  | .node data left item right =>
    if data < key then freedNode key right
    else if key < data then freedNode key left
    else
      match left.root, right.root with
      | none, none => some item
      | some _, some _ => freedNode (lastValue left data) left
      | some _, none => freedNode (topValue left data) left
      | none, some _ => freedNode (topValue right data) right

/-- All nodes hang on one side of the one above them. -/
def Spine : Side → Tree Int Node → Prop
  | _, .nil => True
  | .left, .node _ left _ right => right.root = none ∧ Spine .left left
  | .right, .node _ left _ right => left.root = none ∧ Spine .right right

/-- The nodes from which the topmost node with the key takes over a value hang on a spine. -/
def Fits (key : Int) : Tree Int Node → Prop
  | .nil => True
  | .node data left _ right =>
    if data < key then Fits key right
    else if key < data then Fits key left
    else
      match left.root, right.root with
      | none, none => True
      | some _, some _ => Fits (lastValue left data) left
      | some _, none => Spine .left left
      | none, some _ => Spine .right right

/-! ## The case of each node -/

section Cases

variable {key data : Int} {left right : Tree Int Node} {item : Node}

theorem root_eq_none {tree : Tree Int Node} : tree.root = none ↔ tree = .nil := by
  cases tree with
  | nil => exact iff_of_true rfl rfl
  | node data left item right => exact iff_of_false nofun nofun

theorem deleteTree_right (above : data < key) :
    deleteTree key (.node data left item right) = .node data left item (deleteTree key right) := if_pos above

theorem deleteTree_left (below : key < data) :
    deleteTree key (.node data left item right) = .node data (deleteTree key left) item right := by
  rw [deleteTree, if_neg below.not_gt, if_pos below]

theorem freedNode_right (above : data < key) :
    freedNode key (.node data left item right) = freedNode key right := if_pos above

theorem freedNode_left (below : key < data) :
    freedNode key (.node data left item right) = freedNode key left := by
  rw [freedNode, if_neg below.not_gt, if_pos below]

theorem fits_right (above : data < key) : Fits key (.node data left item right) ↔ Fits key right := by
  rw [Fits, if_pos above]

theorem fits_left (below : key < data) : Fits key (.node data left item right) ↔ Fits key left := by
  rw [Fits, if_neg below.not_gt, if_pos below]

end Cases

inductive Found : Tree Int Node → Tree Int Node → Prop
  | leaf : Found .nil .nil
  | two {left right : Tree Int Node} {one two : Node} (isLeft : left.root = some one)
      (isRight : right.root = some two) : Found left right
  | onlyLeft {left : Tree Int Node} {one : Node} (isLeft : left.root = some one) : Found left .nil
  | onlyRight {right : Tree Int Node} {two : Node} (isRight : right.root = some two) : Found .nil right

theorem found (left right : Tree Int Node) : Found left right := by
  cases left with
  | nil =>
    cases right with
    | nil => exact .leaf
    | node data below item above => exact .onlyRight rfl
  | node data below item above =>
    cases right with
    | nil => exact .onlyLeft rfl
    | node other lower node upper => exact .two rfl rfl

section Here

variable {data : Int} {left right : Tree Int Node} {item one two : Node}

theorem deleteTree_leaf : deleteTree data (.node data .nil item .nil) = .nil := by
  rw [deleteTree, if_neg (lt_irrefl _), if_neg (lt_irrefl _)]
  rfl

theorem deleteTree_two (isLeft : left.root = some one) (isRight : right.root = some two) :
    deleteTree data (.node data left item right) =
      .node (lastValue left data) (deleteTree (lastValue left data) left) item right := by
  rw [deleteTree, if_neg (lt_irrefl _), if_neg (lt_irrefl _), isLeft, isRight]

theorem deleteTree_onlyLeft (isLeft : left.root = some one) :
    deleteTree data (.node data left item .nil) =
      .node (topValue left data) (deleteTree (topValue left data) left) item .nil := by
  rw [deleteTree, if_neg (lt_irrefl _), if_neg (lt_irrefl _), isLeft]
  rfl

theorem deleteTree_onlyRight (isRight : right.root = some two) :
    deleteTree data (.node data .nil item right) =
      .node (topValue right data) .nil item (deleteTree (topValue right data) right) := by
  rw [deleteTree, if_neg (lt_irrefl _), if_neg (lt_irrefl _), isRight]
  rfl

theorem freedNode_leaf : freedNode data (.node data .nil item .nil) = some item := by
  rw [freedNode, if_neg (lt_irrefl _), if_neg (lt_irrefl _)]
  rfl

theorem freedNode_two (isLeft : left.root = some one) (isRight : right.root = some two) :
    freedNode data (.node data left item right) = freedNode (lastValue left data) left := by
  rw [freedNode, if_neg (lt_irrefl _), if_neg (lt_irrefl _), isLeft, isRight]

theorem freedNode_onlyLeft (isLeft : left.root = some one) :
    freedNode data (.node data left item .nil) = freedNode (topValue left data) left := by
  rw [freedNode, if_neg (lt_irrefl _), if_neg (lt_irrefl _), isLeft]
  rfl

theorem freedNode_onlyRight (isRight : right.root = some two) :
    freedNode data (.node data .nil item right) = freedNode (topValue right data) right := by
  rw [freedNode, if_neg (lt_irrefl _), if_neg (lt_irrefl _), isRight]
  rfl

theorem fits_leaf : Fits data (.node data .nil item .nil) := by
  rw [Fits, if_neg (lt_irrefl _), if_neg (lt_irrefl _)]
  trivial

theorem fits_two (isLeft : left.root = some one) (isRight : right.root = some two) :
    Fits data (.node data left item right) ↔ Fits (lastValue left data) left := by
  rw [Fits, if_neg (lt_irrefl _), if_neg (lt_irrefl _), isLeft, isRight]

theorem fits_onlyLeft (isLeft : left.root = some one) :
    Fits data (.node data left item .nil) ↔ Spine .left left := by
  rw [Fits, if_neg (lt_irrefl _), if_neg (lt_irrefl _), isLeft]
  exact Iff.rfl

theorem fits_onlyRight (isRight : right.root = some two) :
    Fits data (.node data .nil item right) ↔ Spine .right right := by
  rw [Fits, if_neg (lt_irrefl _), if_neg (lt_irrefl _), isRight]
  exact Iff.rfl

end Here

theorem deletion_induction {motive : Int → Tree Int Node → Prop} (nil : ∀ key, motive key .nil)
    (toRight : ∀ key data left item right, data < key → motive key right →
      motive key (.node data left item right))
    (toLeft : ∀ key data left item right, key < data → motive key left →
      motive key (.node data left item right))
    (leaf : ∀ data item, motive data (.node data .nil item .nil))
    (two : ∀ data left item right one two, left.root = some one → right.root = some two →
      motive (lastValue left data) left → motive data (.node data left item right))
    (onlyLeft : ∀ data left item one, left.root = some one → motive (topValue left data) left →
      motive data (.node data left item .nil))
    (onlyRight : ∀ data item right two, right.root = some two → motive (topValue right data) right →
      motive data (.node data .nil item right))
    (key : Int) (tree : Tree Int Node) : motive key tree := by
  induction tree generalizing key with
  | nil => exact nil key
  | node data left item right leftIh rightIh =>
    rcases lt_trichotomy data key with above | rfl | below
    · exact toRight key data left item right above (rightIh key)
    · cases found left right with
      | leaf => exact leaf data item
      | two isLeft isRight => exact two data left item right _ _ isLeft isRight (leftIh _)
      | onlyLeft isLeft => exact onlyLeft data left item _ isLeft (leftIh _)
      | onlyRight isRight => exact onlyRight data item right _ isRight (rightIh _)
    · exact toLeft key data left item right below (leftIh key)

/-! ## Values -/

variable {tree : Tree Int Node}

theorem topValue_mem {one : Node} (isRoot : tree.root = some one) (other : Int) :
    topValue tree other ∈ values tree := by
  cases tree with
  | nil => cases isRoot
  | node data left item right =>
    rw [topValue, values_node]
    exact Multiset.mem_cons_self _ _

theorem lastValue_greatest {one : Node} (ordered : Ordered tree)
    (isRoot : tree.root = some one) (other : Int) :
    lastValue tree other ∈ values tree ∧ ∀ small ∈ values tree, small ≤ lastValue tree other := by
  induction tree generalizing one other with
  | nil => cases isRoot
  | node data left item right leftIh rightIh =>
    obtain ⟨-, rightOrdered, small, great⟩ := ordered
    rw [lastValue]
    simp only [values_node, Multiset.mem_cons, Multiset.mem_add]
    cases right with
    | nil =>
      refine ⟨.inl rfl, ?_⟩
      rintro first (rfl | member | member)
      · exact le_rfl
      · exact small first member
      · cases member
    | node value below next above =>
      obtain ⟨member, bound⟩ := rightIh rightOrdered rfl data
      refine ⟨.inr (.inr member), ?_⟩
      rintro first (rfl | inLeft | inRight)
      · exact (great _ member).le
      · exact (small first inLeft).trans (great _ member).le
      · exact bound first inRight

theorem values_deleteTree (ordered : Ordered tree) (key : Int) :
    values (deleteTree key tree) = (values tree).erase key := by
  induction key, tree using deletion_induction with
  | nil key => rfl
  | toRight key data left item right above ih =>
    rw [deleteTree_right above, values_node, ih ordered.2.1, erase_right ordered above]
  | toLeft key data left item right below ih =>
    rw [deleteTree_left below, values_node, ih ordered.1, erase_left ordered below]
  | leaf data item =>
    rw [deleteTree_leaf, erase_root]
    rfl
  | two data left item right one two isLeft isRight ih =>
    have member := (lastValue_greatest ordered.1 isLeft data).1
    rw [deleteTree_two isLeft isRight, values_node, ih ordered.1, erase_root, ← Multiset.cons_add,
      Multiset.cons_erase member]
  | onlyLeft data left item one isLeft ih =>
    have member := topValue_mem isLeft data
    rw [deleteTree_onlyLeft isLeft, values_node, ih ordered.1, erase_root, ← Multiset.cons_add,
      Multiset.cons_erase member]
  | onlyRight data item right two isRight ih =>
    have member := topValue_mem isRight data
    rw [deleteTree_onlyRight isRight, values_node, ih ordered.2.1, erase_root, ← Multiset.add_cons,
      Multiset.cons_erase member]

/-! ## Order -/

theorem spine_fits {side : Side} (spine : Spine side tree) (other : Int) :
    Fits (topValue tree other) tree := by
  cases tree with
  | nil => trivial
  | node data left item right =>
    rw [topValue]
    cases side with
    | left =>
      obtain ⟨isNil, spine⟩ := spine
      obtain rfl := root_eq_none.mp isNil
      cases found left .nil with
      | leaf => exact fits_leaf
      | two isLeft isRight => cases isRight
      | onlyLeft isLeft => exact (fits_onlyLeft isLeft).mpr spine
      | onlyRight isRight => cases isRight
    | right =>
      obtain ⟨isNil, spine⟩ := spine
      obtain rfl := root_eq_none.mp isNil
      cases found .nil right with
      | leaf => exact fits_leaf
      | two isLeft isRight => cases isLeft
      | onlyLeft isLeft => cases isLeft
      | onlyRight isRight => exact (fits_onlyRight isRight).mpr spine

theorem eq_nil_of_values (none : ∀ value, value ∉ values tree) : tree = .nil := by
  cases tree with
  | nil => rfl
  | node data left item right =>
    have isRoot : (Tree.node data left item right).root = some item := rfl
    exact absurd (topValue_mem isRoot data) (none _)

theorem leftSpine_iff {one : Node} (ordered : Ordered tree)
    (isRoot : tree.root = some one) (other : Int)
    (below : Ordered (deleteTree (topValue tree other) tree) ↔ Fits (topValue tree other) tree) :
    (Ordered (deleteTree (topValue tree other) tree) ∧
      ∀ small ∈ (values tree).erase (topValue tree other), small ≤ topValue tree other) ↔
    Spine .left tree := by
  constructor
  · rintro ⟨stays, bound⟩
    cases tree with
    | nil => cases isRoot
    | node data left item right =>
      obtain ⟨-, -, -, great⟩ := ordered
      rw [topValue, erase_root] at bound
      obtain rfl : right = .nil := by
        apply eq_nil_of_values
        intro value member
        exact absurd (bound value (Multiset.mem_add.mpr (.inr member))) (not_le.mpr (great value member))
      refine ⟨rfl, ?_⟩
      cases found left (.nil : Tree Int Node) with
      | leaf => trivial
      | two isLeft isRight => cases isRight
      | onlyLeft isLeft => exact (fits_onlyLeft isLeft).mp (below.mp stays)
      | onlyRight isRight => cases isRight
  · intro spine
    refine ⟨below.mpr (spine_fits spine other), ?_⟩
    cases tree with
    | nil => cases isRoot
    | node data left item right =>
      obtain ⟨isNil, -⟩ := spine
      obtain rfl := root_eq_none.mp isNil
      rw [topValue, erase_root, values_nil, add_zero]
      exact ordered.2.2.1

theorem rightSpine_iff {one : Node} (ordered : Ordered tree)
    (isRoot : tree.root = some one) (other : Int)
    (below : Ordered (deleteTree (topValue tree other) tree) ↔ Fits (topValue tree other) tree) :
    (Ordered (deleteTree (topValue tree other) tree) ∧
      ∀ great ∈ (values tree).erase (topValue tree other), topValue tree other < great) ↔
    Spine .right tree := by
  constructor
  · rintro ⟨stays, bound⟩
    cases tree with
    | nil => cases isRoot
    | node data left item right =>
      obtain ⟨-, -, small, -⟩ := ordered
      rw [topValue, erase_root] at bound
      obtain rfl : left = .nil := by
        apply eq_nil_of_values
        intro value member
        exact absurd (bound value (Multiset.mem_add.mpr (.inl member))) (not_lt.mpr (small value member))
      refine ⟨rfl, ?_⟩
      cases found (.nil : Tree Int Node) right with
      | leaf => trivial
      | two isLeft isRight => cases isLeft
      | onlyLeft isLeft => cases isLeft
      | onlyRight isRight => exact (fits_onlyRight isRight).mp (below.mp stays)
  · intro spine
    refine ⟨below.mpr (spine_fits spine other), ?_⟩
    cases tree with
    | nil => cases isRoot
    | node data left item right =>
      obtain ⟨isNil, -⟩ := spine
      obtain rfl := root_eq_none.mp isNil
      rw [topValue, erase_root, values_nil, zero_add]
      exact ordered.2.2.2

theorem ordered_deleteTree_iff (ordered : Ordered tree) (key : Int) :
    Ordered (deleteTree key tree) ↔ Fits key tree := by
  induction key, tree using deletion_induction with
  | nil key => exact Iff.rfl
  | toRight key data left item right above ih =>
    rw [deleteTree_right above, fits_right above, ← ih ordered.2.1]
    refine ⟨fun stays => stays.2.1, fun stays => ordered.right_le stays ?_⟩
    rw [values_deleteTree ordered.2.1]
    exact Multiset.erase_le _ _
  | toLeft key data left item right below ih =>
    rw [deleteTree_left below, fits_left below, ← ih ordered.1]
    refine ⟨fun stays => stays.1, fun stays => ordered.left_le stays ?_⟩
    rw [values_deleteTree ordered.1]
    exact Multiset.erase_le _ _
  | leaf data item =>
    rw [deleteTree_leaf]
    exact iff_of_true trivial fits_leaf
  | two data left item right one two isLeft isRight ih =>
    obtain ⟨member, bound⟩ := lastValue_greatest ordered.1 isLeft data
    rw [deleteTree_two isLeft isRight, fits_two isLeft isRight, ← ih ordered.1]
    refine ⟨fun stays => stays.1, fun stays => ordered.lower member bound stays ?_⟩
    rw [values_deleteTree ordered.1]
    exact Multiset.erase_le _ _
  | onlyLeft data left item one isLeft ih =>
    rw [deleteTree_onlyLeft isLeft, fits_onlyLeft isLeft,
      ← leftSpine_iff ordered.1 isLeft data (ih ordered.1), ← values_deleteTree ordered.1]
    exact ⟨fun stays => ⟨stays.1, stays.2.2.1⟩, fun stays => ⟨stays.1, trivial, stays.2, nofun⟩⟩
  | onlyRight data item right two isRight ih =>
    rw [deleteTree_onlyRight isRight, fits_onlyRight isRight,
      ← rightSpine_iff ordered.2.1 isRight data (ih ordered.2.1), ← values_deleteTree ordered.2.1]
    exact ⟨fun stays => ⟨stays.2.1, stays.2.2.2⟩, fun stays => ⟨trivial, stays.1, nofun, stays.2⟩⟩

/-! ## Nodes -/

/-- A deletion takes out one node and no other. -/
theorem inorder_deleteTree (key : Int) (tree : Tree Int Node) :
    tree.inorder.Perm ((freedNode key tree).toList ++ (deleteTree key tree).inorder) := by
  induction key, tree using deletion_induction with
  | nil key => exact .rfl
  | toRight key data left item right above ih =>
    rw [freedNode_right above, deleteTree_right above, Tree.inorder, Tree.inorder]
    calc left.inorder ++ item :: right.inorder
      _ |>.Perm (left.inorder ++ item :: ((freedNode key right).toList ++ (deleteTree key right).inorder)) :=
          (ih.cons item).append_left _
      _ |>.Perm ((freedNode key right).toList ++ (left.inorder ++ item :: (deleteTree key right).inorder)) := by
          cases freedNode key right with
          | none => exact .rfl
          | some node =>
            exact ((List.Perm.swap node item _).append_left _).trans List.perm_middle
  | toLeft key data left item right below ih =>
    rw [freedNode_left below, deleteTree_left below, Tree.inorder, Tree.inorder, ← List.append_assoc]
    exact ih.append_right _
  | leaf data item =>
    rw [freedNode_leaf, deleteTree_leaf]
    exact .rfl
  | two data left item right one two isLeft isRight ih =>
    rw [freedNode_two isLeft isRight, deleteTree_two isLeft isRight, Tree.inorder, Tree.inorder,
      ← List.append_assoc]
    exact ih.append_right _
  | onlyLeft data left item one isLeft ih =>
    rw [freedNode_onlyLeft isLeft, deleteTree_onlyLeft isLeft]
    exact (ih.append_right [item]).trans (by rw [List.append_assoc]; exact .rfl)
  | onlyRight data item right two isRight ih =>
    rw [freedNode_onlyRight isRight, deleteTree_onlyRight isRight]
    exact (ih.cons item).trans List.perm_middle.symm

theorem data_mem (data : Int) (left right : Tree Int Node) (item : Node) :
    data ∈ values (.node data left item right) := by
  rw [values_node]
  exact Multiset.mem_cons_self _ _

theorem freedNode_isSome_iff (ordered : Ordered tree) (key : Int) :
    (freedNode key tree).isSome = true ↔ key ∈ values tree := by
  induction key, tree using deletion_induction with
  | nil key => exact iff_of_false nofun (Multiset.notMem_zero key)
  | toRight key data left item right above ih =>
    rw [freedNode_right above, mem_right ordered above]
    exact ih ordered.2.1
  | toLeft key data left item right below ih =>
    rw [freedNode_left below, mem_left ordered below]
    exact ih ordered.1
  | leaf data item =>
    rw [freedNode_leaf]
    exact iff_of_true rfl (data_mem _ _ _ _)
  | two data left item right one two isLeft isRight ih =>
    rw [freedNode_two isLeft isRight]
    exact iff_of_true ((ih ordered.1).mpr (lastValue_greatest ordered.1 isLeft data).1) (data_mem _ _ _ _)
  | onlyLeft data left item one isLeft ih =>
    rw [freedNode_onlyLeft isLeft]
    exact iff_of_true ((ih ordered.1).mpr (topValue_mem isLeft data)) (data_mem _ _ _ _)
  | onlyRight data item right two isRight ih =>
    rw [freedNode_onlyRight isRight]
    exact iff_of_true ((ih ordered.2.1).mpr (topValue_mem isRight data)) (data_mem _ _ _ _)

theorem fits_of_absent {key : Int} (absent : key ∉ values tree) : Fits key tree := by
  induction tree with
  | nil => trivial
  | node data left item right leftIh rightIh =>
    rw [values_node, Multiset.mem_cons, Multiset.mem_add, not_or, not_or] at absent
    obtain ⟨other, notLeft, notRight⟩ := absent
    rcases lt_trichotomy data key with above | same | below
    · exact (fits_right above).mpr (rightIh notRight)
    · exact absurd same.symm other
    · exact (fits_left below).mpr (leftIh notLeft)

end CLibs.Bst
