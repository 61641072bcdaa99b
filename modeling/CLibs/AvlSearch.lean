import CLibs.AvlTreeCorrectness
import Mathlib.Order.Interval.Set.Defs

/-!
# Searches in AVL trees

Model of the range searches of `avl/avl_internal.c` and of `avl_tree_search` of
`avl/avl.c`.  What a search returns is the first node in the order of the search
with a key in the range, which `List.find?` finds in the list of nodes.
-/

namespace CLibs.Avl

variable {Node : Type*}

/-! ## The searches below a link -/

def avlTreeGetFirst : AvlTree Node → Option Node
  | .null => none
  | .node .null _ _ object => some object
  | .node (.node leftLeft leftRight balance leftObject) _ _ _ =>
    avlTreeGetFirst (.node leftLeft leftRight balance leftObject)

def avlTreeGetLast : AvlTree Node → Option Node
  | .null => none
  | .node _ .null _ object => some object
  | .node _ (.node rightLeft rightRight balance rightObject) _ _ =>
    avlTreeGetLast (.node rightLeft rightRight balance rightObject)

section Code

variable (compareFunc : Node → Node → CompareCode)

def avlSearchInternal (goal : Node) : AvlTree Node → Option Node
  | .null => none
  | .node left right _ top =>
    match compareFunc top goal with
    | .eq => some top
    | .lt => avlSearchInternal goal right
    | .gt => avlSearchInternal goal left
    | .invalid => none

/-- The node that is returned, and `*is_equal`. -/
def avlGetNextInternalV2 (element : Node) (equalMatch : Bool) :
    AvlTree Node → Bool → Option Node × Bool
  | .null, isEqual => (none, isEqual)
  | .node left right _ top, isEqual =>
    match compareFunc top element with
    | .invalid => (none, isEqual)
    | .eq => if equalMatch then (some top, true) else (avlTreeGetFirst right, false)
    | .lt => avlGetNextInternalV2 element equalMatch right isEqual
    | .gt =>
      let (subtree, _) := avlGetNextInternalV2 element equalMatch left isEqual
      (subtree.or (some top), false)

def avlGetPrevInternalV2 (element : Node) (equalMatch : Bool) :
    AvlTree Node → Bool → Option Node × Bool
  | .null, isEqual => (none, isEqual)
  | .node left right _ top, isEqual =>
    match compareFunc top element with
    | .invalid => (none, isEqual)
    | .eq => if equalMatch then (some top, true) else (avlTreeGetLast left, false)
    | .lt =>
      let (subtree, _) := avlGetPrevInternalV2 element equalMatch right isEqual
      (subtree.or (some top), false)
    | .gt => avlGetPrevInternalV2 element equalMatch left isEqual

/-- The flag is a local variable here, which nothing reads. -/
def avlGetNextV2 (top : AvlTree Node) (current : Node) : Option Node :=
  (avlGetNextInternalV2 compareFunc current false top false).1

def avlGetGreaterEqualV2 (top : AvlTree Node) (element : Node) (isEqual : Bool) :
    Option Node × Bool :=
  avlGetNextInternalV2 compareFunc element true top isEqual

def avlGetPrevV2 (top : AvlTree Node) (current : Node) : Option Node :=
  (avlGetPrevInternalV2 compareFunc current false top false).1

def avlGetSmallerEqualV2 (top : AvlTree Node) (element : Node) (isEqual : Bool) :
    Option Node × Bool :=
  avlGetPrevInternalV2 compareFunc element true top isEqual

end Code

/-! ## The tree handle -/

/-- `struct avl_tree` without the functions that allocate and free. -/
structure Handle (Node : Type*) where
  root : AvlTree Node
  compareFn : Node → Node → CompareCode
  sanityFn : Node → Int
  /-- The mutex is held. -/
  mutex : Bool
  options : UInt32
  nodeCnt : UInt32

/-- To lock a mutex that the thread holds already never returns, and to read a
node that was freed is undefined. -/
inductive HandleFault
  | deadlock
  | freed
  | null
  | fuel
  deriving DecidableEq

def Handle.notThreadsafe (tree : Handle Node) : Bool :=
  tree.options &&& 1 = 1

def avlTreeLock (tree : Handle Node) : Except HandleFault (Handle Node) :=
  if tree.notThreadsafe then .ok tree
  else if tree.mutex then .error .deadlock
  else .ok { tree with mutex := true }

def avlTreeUnlock (tree : Handle Node) : Handle Node :=
  if tree.notThreadsafe then tree else { tree with mutex := false }

def optionEq : UInt32 := 1
def optionLt : UInt32 := 2
def optionLe : UInt32 := 3
def optionGt : UInt32 := 4
def optionGe : UInt32 := 5
def optionMin : UInt32 := 6
def optionMax : UInt32 := 7

/-- The return code, and what is stored in `*found_object` and `*result`. -/
structure SearchOutcome (Node : Type*) where
  rc : Int
  foundObject : Option Node
  result : Option UInt32

/-- The node, and what is stored in `*result`. -/
def searchNode (tree : Handle Node) (options : UInt32) (target : Node) :
    Option Node × Option UInt32 :=
  if options = optionEq then (avlSearchInternal tree.compareFn target tree.root, none)
  else if options = optionLt then (avlGetPrevV2 tree.compareFn tree.root target, none)
  else if options = optionLe then
    match avlGetSmallerEqualV2 tree.compareFn tree.root target false with
    | (some node, isEqual) => (some node, some (if isEqual then optionEq else optionLt))
    | (none, _) => (none, none)
  else if options = optionGt then (avlGetNextV2 tree.compareFn tree.root target, none)
  else if options = optionGe then
    match avlGetGreaterEqualV2 tree.compareFn tree.root target false with
    | (some node, isEqual) => (some node, some (if isEqual then optionEq else optionGt))
    | (none, _) => (none, none)
  else (none, none)

/-- The return code of the checks of the compare object; `hasMagic` tells the
objects that `avl_tree_allocate_object` returned. -/
def checkObject (tree : Handle Node) (hasMagic : Node → Bool) (object : Node) : Int :=
  if tree.sanityFn object = 0 then if hasMagic object then 0 else -1 else tree.sanityFn object

/-- `avl_tree_search`, called with a place for the object and one for the
result. -/
def avlTreeSearch (tree : Handle Node) (hasMagic : Node → Bool) (options : UInt32)
    (compareObject : Option Node) : Except HandleFault (Handle Node × SearchOutcome Node) :=
  if options = optionMin ∨ options = optionMax then
    (avlTreeLock tree).map fun tree =>
      let node := if options = optionMin then avlTreeGetFirst tree.root else avlTreeGetLast tree.root
      (avlTreeUnlock tree, ⟨if node.isNone then -1 else 0, node, none⟩)
  else
    match compareObject with
    | none => .ok (tree, ⟨-1, none, none⟩)
    | some object =>
      if checkObject tree hasMagic object = 0 then
        (avlTreeLock tree).map fun tree =>
          let (node, result) := searchNode tree options object
          (avlTreeUnlock tree, ⟨if node.isNone then -1 else 0, node, result⟩)
      else .ok (tree, ⟨checkObject tree hasMagic object, none, none⟩)

/-! ## Nearest nodes -/

section Nearest

variable {Key : Type*}

/-- The answer is the first node in the range, and `none` if there is no node in it. -/
def Nearest (precedes : Key → Key → Prop) (key : Node → Key) (nodes : List Node)
    (range : Set Key) : Option Node → Prop
  | none => ∀ node ∈ nodes, key node ∉ range
  | some node => node ∈ nodes ∧ key node ∈ range ∧
      ∀ other ∈ nodes, key other ∈ range → precedes (key node) (key other)

theorem nearest_find {precedes : Key → Key → Prop} {key : Node → Key} {nodes : List Node}
    {range : Set Key} {inRange : Node → Bool} (refl : ∀ value, precedes value value)
    (sorted : nodes.Pairwise fun first second => precedes (key first) (key second))
    (inRange_iff : ∀ node, inRange node = true ↔ key node ∈ range) :
    Nearest precedes key nodes range (nodes.find? inRange) := by
  cases found : nodes.find? inRange with
  | none =>
    intro node member isIn
    have outside := List.find?_eq_none.mp found node member
    exact outside ((inRange_iff node).mpr isIn)
  | some node =>
    obtain ⟨isIn, before, after, rfl, outside⟩ := List.find?_eq_some_iff_append.mp found
    refine ⟨by simp, (inRange_iff node).mp isIn, ?_⟩
    intro other member otherIn
    rw [List.mem_append, List.mem_cons] at member
    rcases member with inBefore | rfl | inAfter
    · have notIn := outside other inBefore
      rw [(inRange_iff other).mpr otherIn] at notIn
      cases notIn
    · exact refl _
    · exact (List.pairwise_cons.mp (List.pairwise_append.mp sorted).2.1).1 other inAfter

end Nearest

/-! ## The node that is found -/

theorem avlTreeGetFirst_eq (tree : AvlTree Node) : avlTreeGetFirst tree = tree.inorder.head? := by
  induction tree with
  | null => rfl
  | node left right balance object leftIH _ =>
    cases left with
    | null => rfl
    | node leftLeft leftRight leftBalance leftObject =>
      rw [avlTreeGetFirst, leftIH]
      simp [List.head?_append]

theorem avlTreeGetLast_mirror (tree : AvlTree Node) :
    avlTreeGetLast tree = avlTreeGetFirst tree.mirror := by
  induction tree with
  | null => rfl
  | node left right balance object _ rightIH =>
    cases right with
    | null => rfl
    | node rightLeft rightRight rightBalance rightObject =>
      rw [avlTreeGetLast, rightIH]
      rfl

def CompareCode.swap : CompareCode → CompareCode
  | .lt => .gt
  | .eq => .eq
  | .gt => .lt
  | .invalid => .invalid

theorem avlGetPrevInternalV2_mirror (compareFunc : Node → Node → CompareCode) (element : Node)
    (equalMatch : Bool) (tree : AvlTree Node) (isEqual : Bool) :
    avlGetPrevInternalV2 compareFunc element equalMatch tree isEqual =
      avlGetNextInternalV2 (fun first second => (compareFunc first second).swap) element equalMatch
        tree.mirror isEqual := by
  induction tree with
  | null => rfl
  | node left right balance object leftIH rightIH =>
    rw [AvlTree.mirror_node, avlGetPrevInternalV2, avlGetNextInternalV2]
    cases compareFunc object element with
    | lt => simp only [CompareCode.swap, rightIH]
    | eq => simp only [CompareCode.swap, avlTreeGetLast_mirror]
    | gt => simp only [CompareCode.swap, leftIH]
    | invalid => rfl

section Found

variable {Key : Type*} [LinearOrder Key] {key : Node → Key}
variable {compareFunc : Node → Node → CompareCode} {tree : AvlTree Node}

theorem OrdersBy.swap (orders : OrdersBy compareFunc key) :
    OrdersBy (fun first second => (compareFunc first second).swap)
      fun node => OrderDual.toDual (key node) := by
  intro first second
  simp only [orders first second, OrderDual.toDual_lt_toDual]
  rcases lt_trichotomy (key first) (key second) with less | same | more
  · rw [if_pos less, if_neg less.asymm, if_pos less]
    rfl
  · rw [same, if_neg (lt_irrefl _), if_neg (lt_irrefl _)]
    rfl
  · rw [if_neg more.asymm, if_pos more, if_pos more]
    rfl

theorem AvlTree.Ordered.mirror (ordered : tree.Ordered key) :
    tree.mirror.Ordered fun node => OrderDual.toDual (key node) := by
  unfold AvlTree.Ordered
  rw [AvlTree.inorder_mirror, List.pairwise_reverse]
  exact ordered

def inRange (key : Node → Key) (element : Node) (equalMatch : Bool) (node : Node) : Bool :=
  key element < key node ∨ equalMatch ∧ key node = key element

theorem avlGetNextInternalV2_found (orders : OrdersBy compareFunc key) (ordered : tree.Ordered key)
    (element : Node) (equalMatch isEqual : Bool) :
    (avlGetNextInternalV2 compareFunc element equalMatch tree isEqual).1 =
      tree.inorder.find? (inRange key element equalMatch) := by
  induction tree with
  | null => rfl
  | node left right balance object leftIH rightIH =>
    obtain ⟨leftOrdered, rightOrdered, smaller, greater⟩ := ordered_node.mp ordered
    have skips : ∀ nodes : List Node, (∀ node ∈ nodes, key node < key element) →
        nodes.find? (inRange key element equalMatch) = none := by
      intro nodes below
      rw [List.find?_eq_none]
      intro node member
      simp [inRange, (below node member).le, (below node member).ne]
    rw [AvlTree.inorder_node, List.find?_append, avlGetNextInternalV2, orders object element]
    rcases lt_trichotomy (key object) (key element) with less | same | more
    · have outside : inRange key element equalMatch object = false := by
        simp [inRange, less.le, less.ne]
      rw [if_pos less, skips _ fun node member => (smaller node member).trans less,
        List.find?_cons_of_neg (by simp [outside])]
      exact rightIH rightOrdered
    · rw [same, if_neg (lt_irrefl _), if_neg (lt_irrefl _),
        skips _ fun node member => same ▸ smaller node member, Option.none_or]
      cases equalMatch with
      | true =>
        rw [List.find?_cons_of_pos (by simp [inRange, same])]
        rfl
      | false =>
        rw [List.find?_cons_of_neg (by simp [inRange, same])]
        simp only [Bool.false_eq_true, if_false]
        rw [avlTreeGetFirst_eq]
        cases nodes : right.inorder with
        | nil => rfl
        | cons next rest =>
          have isNext : key element < key next := same ▸ greater next (by simp [nodes])
          rw [List.find?_cons_of_pos (by simp [inRange, isNext])]
          rfl
    · rw [if_neg more.asymm, if_pos more,
        List.find?_cons_of_pos (by simp [inRange, more])]
      exact congrArg (Option.or · (some object)) (leftIH leftOrdered)

theorem avlGetNextInternalV2_nearest (orders : OrdersBy compareFunc key)
    (ordered : tree.Ordered key) (element : Node) (equalMatch isEqual : Bool) :
    Nearest (· ≤ ·) key tree.inorder
      (if equalMatch then Set.Ici (key element) else Set.Ioi (key element))
      (avlGetNextInternalV2 compareFunc element equalMatch tree isEqual).1 := by
  rw [avlGetNextInternalV2_found orders ordered]
  apply nearest_find le_refl (ordered.imp le_of_lt)
  intro node
  cases equalMatch with
  | true =>
    simp only [inRange, true_and, decide_eq_true_eq, if_true, Set.mem_Ici]
    exact (le_iff_lt_or_eq.trans (or_congr_right eq_comm)).symm
  | false => simp [inRange]

theorem avlGetPrevInternalV2_nearest (orders : OrdersBy compareFunc key)
    (ordered : tree.Ordered key) (element : Node) (equalMatch isEqual : Bool) :
    Nearest (· ≥ ·) key tree.inorder
      (if equalMatch then Set.Iic (key element) else Set.Iio (key element))
      (avlGetPrevInternalV2 compareFunc element equalMatch tree isEqual).1 := by
  have mirrored := avlGetNextInternalV2_nearest orders.swap ordered.mirror element equalMatch isEqual
  rw [← avlGetPrevInternalV2_mirror, AvlTree.inorder_mirror] at mirrored
  cases found : (avlGetPrevInternalV2 compareFunc element equalMatch tree isEqual).1 with
  | none =>
    rw [found] at mirrored
    intro node member isIn
    apply mirrored node (List.mem_reverse.mpr member)
    cases equalMatch <;> exact isIn
  | some node =>
    rw [found] at mirrored
    obtain ⟨member, isIn, nearest⟩ := mirrored
    refine ⟨List.mem_reverse.mp member, ?_, ?_⟩
    · cases equalMatch <;> exact isIn
    · intro other otherMember otherIn
      apply nearest other (List.mem_reverse.mpr otherMember)
      cases equalMatch <;> exact otherIn

end Found

end CLibs.Avl
