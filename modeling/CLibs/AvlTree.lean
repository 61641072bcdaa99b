import Mathlib.Order.Defs.LinearOrder

/-!
# AVL trees

Model of the insertion and deletion of `avl/avl_internal.c`.  A node of the
tree is a value of an arbitrary type `Node`, which stands for the address of
the node together with its object; the comparison function of the caller is a
parameter.  The links of a node are the subtrees, so a function that takes the
address of a link returns the new subtree.  `none` is a null dereference.
-/

namespace CLibs.Avl

/-- Which side of a node is higher. -/
inductive BalanceType
  | leftHeavy
  | balanced
  | rightHeavy
  deriving DecidableEq

/-- The value of the enumerator. -/
def BalanceType.toInt : BalanceType → Int
  | .leftHeavy => -1
  | .balanced => 0
  | .rightHeavy => 1

/-- The answers of a comparison. -/
inductive CompareCode
  | lt
  | eq
  | gt
  | invalid
  deriving DecidableEq

/-- A link of the tree and everything below it. -/
inductive AvlTree (Node : Type*)
  | null
  | node (left right : AvlTree Node) (balance : BalanceType) (object : Node)
  deriving DecidableEq

variable {Node : Type*}

/-! ## Rebalancing after a deletion -/

/-- `avl_balance_right_internal`: an element was deleted from the right
subtree. -/
def avlBalanceRightInternal (element : AvlTree Node) (balancingNeeded : Bool) :
    Option (AvlTree Node × Bool) :=
  match element with
  | .null => none
  | .node left right .rightHeavy object =>
    some (.node left right .balanced object, balancingNeeded)
  | .node left right .balanced object =>
    some (.node left right .leftHeavy object, false)
  | .node left right .leftHeavy object =>
    match left with
    | .null => none
    -- single rotations
    | .node leftLeft leftRight .balanced leftObject =>
      some (.node leftLeft (.node leftRight right .leftHeavy object) .rightHeavy leftObject,
        false)
    | .node leftLeft leftRight .leftHeavy leftObject =>
      some (.node leftLeft (.node leftRight right .balanced object) .balanced leftObject,
        balancingNeeded)
    -- double rotation
    | .node leftLeft leftRight .rightHeavy leftObject =>
      match leftRight with
      | .null => none
      | .node midLeft midRight midBalance midObject =>
        some (.node
          (.node leftLeft midLeft
            (if midBalance = .rightHeavy then .leftHeavy else .balanced) leftObject)
          (.node midRight right
            (if midBalance = .leftHeavy then .rightHeavy else .balanced) object)
          .balanced midObject, balancingNeeded)

/-- `avl_balance_left_internal`: an element was deleted from the left
subtree. -/
def avlBalanceLeftInternal (element : AvlTree Node) (balancingNeeded : Bool) :
    Option (AvlTree Node × Bool) :=
  match element with
  | .null => none
  | .node left right .leftHeavy object =>
    some (.node left right .balanced object, balancingNeeded)
  | .node left right .balanced object =>
    some (.node left right .rightHeavy object, false)
  | .node left right .rightHeavy object =>
    match right with
    | .null => none
    -- single rotations
    | .node rightLeft rightRight .balanced rightObject =>
      some (.node (.node left rightLeft .rightHeavy object) rightRight .leftHeavy rightObject,
        false)
    | .node rightLeft rightRight .rightHeavy rightObject =>
      some (.node (.node left rightLeft .balanced object) rightRight .balanced rightObject,
        balancingNeeded)
    -- double rotation
    | .node rightLeft rightRight .leftHeavy rightObject =>
      match rightLeft with
      | .null => none
      | .node midLeft midRight midBalance midObject =>
        some (.node
          (.node left midLeft
            (if midBalance = .rightHeavy then .leftHeavy else .balanced) object)
          (.node midRight rightRight
            (if midBalance = .leftHeavy then .rightHeavy else .balanced) rightObject)
          .balanced midObject, balancingNeeded)

/-- `avl_delete_replacement_internal`: unlink the greatest node below `link`.
The result is the subtree without it, the node, and `*balancing_needed`. -/
def avlDeleteReplacementInternal : AvlTree Node → Option (AvlTree Node × Node × Bool)
  | .null => none
  | .node left .null _ object => some (left, object, true)
  | .node left (.node rightLeft rightRight rightBalance rightObject) balance object => do
      let (right, retnode, balancingNeeded) ← avlDeleteReplacementInternal
        (.node rightLeft rightRight rightBalance rightObject)
      if balancingNeeded then
        let (link, balancingNeeded) ←
          avlBalanceRightInternal (.node left right balance object) balancingNeeded
        some (link, retnode, balancingNeeded)
      else some (.node left right balance object, retnode, balancingNeeded)

/-! ## Deletion -/

/-- What `avl_delete_internal` leaves in `*top` and `*balancing_needed`, and
the node it returns. -/
structure DeleteResult (Node : Type*) where
  top : AvlTree Node
  balancingNeeded : Bool
  delNode : Option Node
  deriving DecidableEq

/-- The deletion below a node, and whether the tree above needs balancing. -/
def avlDeleteInternal (compareFunc : Node → Node → CompareCode) (target : Node) :
    AvlTree Node → Option (DeleteResult Node)
  | .null => some ⟨.null, false, none⟩
  | .node left right balance object =>
    match compareFunc target object with
    | .invalid => some ⟨.node left right balance object, false, none⟩
    | .lt => do
        let below ← avlDeleteInternal compareFunc target left
        if below.balancingNeeded then
          let (top, balancingNeeded) ← avlBalanceLeftInternal
            (.node below.top right balance object) below.balancingNeeded
          some ⟨top, balancingNeeded, below.delNode⟩
        else
          some ⟨.node below.top right balance object, below.balancingNeeded, below.delNode⟩
    | .gt => do
        let below ← avlDeleteInternal compareFunc target right
        if below.balancingNeeded then
          let (top, balancingNeeded) ← avlBalanceRightInternal
            (.node left below.top balance object) below.balancingNeeded
          some ⟨top, balancingNeeded, below.delNode⟩
        else
          some ⟨.node left below.top balance object, below.balancingNeeded, below.delNode⟩
    | .eq =>
      match left, right with
      | left, .null => some ⟨left, true, some object⟩
      | .null, right => some ⟨right, true, some object⟩
      | left, right => do
          let (left, newNode, balancingNeeded) ← avlDeleteReplacementInternal left
          if balancingNeeded then
            let (top, balancingNeeded) ← avlBalanceLeftInternal
              (.node left right balance newNode) balancingNeeded
            some ⟨top, balancingNeeded, some object⟩
          else some ⟨.node left right balance newNode, balancingNeeded, some object⟩

/-! ## Insertion -/

/-- What `avl_insert_internal` leaves in `*top`, `*balancing_needed` and
`*is_new_node`, and the node it returns. -/
structure InsertResult (Node : Type*) where
  top : AvlTree Node
  balancingNeeded : Bool
  isNewNode : Bool
  returnNode : Option Node
  deriving DecidableEq

/-- The inner switch of `avl_insert_internal` after the left subtree of `top`
grew.  The result is `*top` and `*balancing_needed`. -/
def avlInsertLeftGrown (left right : AvlTree Node) (balance : BalanceType) (object : Node) :
    Option (AvlTree Node × Bool) :=
  match balance with
  | .rightHeavy => some (.node left right .balanced object, false)
  | .balanced => some (.node left right .leftHeavy object, true)
  | .leftHeavy =>
    match left with
    | .null => none
    -- single LL rotation
    | .node leftLeft leftRight .leftHeavy leftObject =>
      some (.node leftLeft (.node leftRight right .balanced object) .balanced leftObject,
        false)
    -- double LR rotation
    | .node leftLeft leftRight leftBalance leftObject =>
      match leftRight with
      | .null =>
        some (.node (.node leftLeft .null leftBalance leftObject) right .balanced object,
          false)
      | .node midLeft midRight midBalance midObject =>
        some (.node
          (.node leftLeft midLeft
            (if midBalance = .rightHeavy then .leftHeavy else .balanced) leftObject)
          (.node midRight right
            (if midBalance = .leftHeavy then .rightHeavy else .balanced) object)
          .balanced midObject, false)

/-- The inner switch of `avl_insert_internal` after the right subtree of `top`
grew. -/
def avlInsertRightGrown (left right : AvlTree Node) (balance : BalanceType) (object : Node) :
    Option (AvlTree Node × Bool) :=
  match balance with
  | .leftHeavy => some (.node left right .balanced object, false)
  | .balanced => some (.node left right .rightHeavy object, true)
  | .rightHeavy =>
    match right with
    | .null => none
    -- single RR rotation
    | .node rightLeft rightRight .rightHeavy rightObject =>
      some (.node (.node left rightLeft .balanced object) rightRight .balanced rightObject,
        false)
    -- double RL rotation
    | .node rightLeft rightRight rightBalance rightObject =>
      match rightLeft with
      | .null =>
        some (.node left (.node .null rightRight rightBalance rightObject) .balanced object,
          false)
      | .node midLeft midRight midBalance midObject =>
        some (.node
          (.node left midLeft
            (if midBalance = .rightHeavy then .leftHeavy else .balanced) object)
          (.node midRight rightRight
            (if midBalance = .leftHeavy then .rightHeavy else .balanced) rightObject)
          .balanced midObject, false)

/-- The insertion below a node, and whether the tree above needs balancing. -/
def avlInsertInternal (compareFunc : Node → Node → CompareCode) (new : Node)
    (isNewNode : Bool) : AvlTree Node → Option (InsertResult Node)
  | .null => some ⟨.node .null .null .balanced new, true, true, some new⟩
  | .node left right balance object =>
    match compareFunc new object with
    | .invalid => some ⟨.node left right balance object, false, isNewNode, none⟩
    | .lt => do
        let below ← avlInsertInternal compareFunc new isNewNode left
        if below.balancingNeeded then
          let (top, balancingNeeded) ← avlInsertLeftGrown below.top right balance object
          some ⟨top, balancingNeeded, below.isNewNode, below.returnNode⟩
        else
          some ⟨.node below.top right balance object, below.balancingNeeded, below.isNewNode,
            below.returnNode⟩
    | .gt => do
        let below ← avlInsertInternal compareFunc new isNewNode right
        if below.balancingNeeded then
          let (top, balancingNeeded) ← avlInsertRightGrown left below.top balance object
          some ⟨top, balancingNeeded, below.isNewNode, below.returnNode⟩
        else
          some ⟨.node left below.top balance object, below.balancingNeeded, below.isNewNode,
            below.returnNode⟩
    | .eq => some ⟨.node left right balance object, false, isNewNode, some object⟩

end CLibs.Avl
