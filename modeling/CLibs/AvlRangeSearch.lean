import CLibs.AvlSearch

/-!
# Exact matches in range searches

The range searches with a match report it in a flag, which the recursion
overwrites on its way back.  What is left in the flag depends on the links that
lead to the match.
-/

namespace CLibs.Avl

variable {Node : Type*} {Key : Type*} [LinearOrder Key] {key : Node → Key}
variable {compareFunc : Node → Node → CompareCode} {tree : AvlTree Node}

/-! ## The flag -/

def AvlTree.rightLinks : AvlTree Node → List Node
  | .null => []
  | .node _ right _ object => object :: right.rightLinks

def AvlTree.leftLinks : AvlTree Node → List Node
  | .null => []
  | .node left _ _ object => object :: left.leftLinks

theorem AvlTree.rightLinks_mirror (tree : AvlTree Node) :
    tree.mirror.rightLinks = tree.leftLinks := by
  induction tree with
  | null => rfl
  | node left right balance object leftIH _ => rw [mirror_node, rightLinks, leftLinks, leftIH]

theorem AvlTree.mem_of_rightLinks {node : Node} (member : node ∈ tree.rightLinks) :
    node ∈ tree.inorder := by
  induction tree with
  | null => cases member
  | node left right balance object _ rightIH =>
    rw [rightLinks, List.mem_cons] at member
    rw [inorder_node, List.mem_append, List.mem_cons]
    exact .inr (member.imp_right rightIH)

theorem avlGetNextInternalV2_flag (orders : OrdersBy compareFunc key) (ordered : tree.Ordered key)
    (element : Node) : (avlGetNextInternalV2 compareFunc element true tree false).2 = true ↔
      ∃ node ∈ tree.rightLinks, key node = key element := by
  induction tree with
  | null => simp [avlGetNextInternalV2, AvlTree.rightLinks]
  | node left right balance object _ rightIH =>
    obtain ⟨-, rightOrdered, -, greater⟩ := ordered_node.mp ordered
    rw [avlGetNextInternalV2, orders object element, AvlTree.rightLinks]
    simp only [List.mem_cons, exists_eq_or_imp]
    rcases lt_trichotomy (key object) (key element) with less | same | more
    · rw [if_pos less]
      simp only [less.ne, false_or]
      exact rightIH rightOrdered
    · rw [same, if_neg (lt_irrefl _), if_neg (lt_irrefl _)]
      simp
    · rw [if_neg more.asymm, if_pos more]
      simp only [more.ne', false_or, Bool.false_eq_true, false_iff, not_exists, not_and]
      intro node member
      exact (more.trans (greater node (AvlTree.mem_of_rightLinks member))).ne'

theorem avlGetPrevInternalV2_flag (orders : OrdersBy compareFunc key) (ordered : tree.Ordered key)
    (element : Node) : (avlGetPrevInternalV2 compareFunc element true tree false).2 = true ↔
      ∃ node ∈ tree.leftLinks, key node = key element := by
  rw [avlGetPrevInternalV2_mirror, avlGetNextInternalV2_flag orders.swap ordered.mirror element,
    AvlTree.rightLinks_mirror]
  simp

/-- `*is_equal` is right: it tells whether the node that is returned matches. -/
def FlagRight (key : Node → Key) (element : Node) (result : Option Node × Bool) : Prop :=
  ∀ node, result.1 = some node → (result.2 = true ↔ key node = key element)

omit [LinearOrder Key] in
theorem flagRight_iff {precedes : Key → Key → Prop} {nodes chosen : List Node} {range : Set Key}
    {element : Node} {result : Option Node × Bool}
    (nearest : Nearest precedes key nodes range result.1) (inNodes : ∀ node ∈ chosen, node ∈ nodes)
    (isIn : key element ∈ range)
    (ends : ∀ value ∈ range, precedes value (key element) → value = key element)
    (flag : result.2 = true ↔ ∃ node ∈ chosen, key node = key element) :
    FlagRight key element result ↔
      ((∃ node ∈ nodes, key node = key element) → ∃ node ∈ chosen, key node = key element) := by
  obtain ⟨found, isEqual⟩ := result
  cases found with
  | none =>
    constructor
    · rintro - ⟨node, member, same⟩
      exact absurd (same ▸ isIn) (nearest node member)
    · intro _ node isNode
      cases isNode
  | some node =>
    obtain ⟨member, nodeIn, least⟩ := nearest
    have matches_iff : key node = key element ↔ ∃ other ∈ nodes, key other = key element := by
      constructor
      · intro same
        exact ⟨node, member, same⟩
      · rintro ⟨other, otherMember, same⟩
        exact ends _ nodeIn (same ▸ least other otherMember (same ▸ isIn))
    have right_iff : FlagRight key element (some node, isEqual) ↔
        (isEqual = true ↔ key node = key element) := by
      constructor
      · intro right
        exact right node rfl
      · rintro right other isOther
        cases isOther
        exact right
    rw [right_iff, flag, matches_iff]
    constructor
    · intro both
      exact both.mpr
    · intro stored
      refine ⟨?_, stored⟩
      rintro ⟨other, otherMember, same⟩
      exact ⟨other, inNodes other otherMember, same⟩

/-! ## `avl_tree_search` -/

/-- `avl_tree_search` reports a match just if the object it found matches. -/
def ReportsMatch (key : Node → Key) (element : Node) (outcome : SearchOutcome Node) : Prop :=
  ∀ node, outcome.foundObject = some node →
    (outcome.result = some optionEq ↔ key node = key element)

theorem avlTreeSearch_eq {handle : Handle Node} {hasMagic : Node → Bool} {element : Node}
    (options : UInt32) (unlocked : handle.mutex = false)
    (notExtreme : ¬ (options = optionMin ∨ options = optionMax))
    (checked : checkObject handle hasMagic element = 0) :
    avlTreeSearch handle hasMagic options (some element) =
      .ok (handle, ⟨if (searchNode handle options element).1.isNone then -1 else 0,
        (searchNode handle options element).1, (searchNode handle options element).2⟩) := by
  obtain ⟨root, compareFn, sanityFn, mutex, treeOptions, nodeCnt⟩ := handle
  obtain rfl : mutex = false := unlocked
  simp only [avlTreeSearch, if_neg notExtreme, if_pos checked, avlTreeLock, avlTreeUnlock]
  by_cases alone : Handle.notThreadsafe ⟨root, compareFn, sanityFn, false, treeOptions, nodeCnt⟩
  · simp only [alone, if_true, Except.map]
  · have stillShared : ¬ Handle.notThreadsafe
        ⟨root, compareFn, sanityFn, true, treeOptions, nodeCnt⟩ := alone
    simp only [alone, if_false, Bool.false_eq_true, Except.map, stillShared]
    rfl

omit [LinearOrder Key] in
theorem reportsMatch_iff {element : Node} {found : Option Node × Bool} {other : UInt32} {rc : Int}
    (different : other ≠ optionEq) :
    ReportsMatch key element
        ⟨rc, found.1, found.1.map fun _ => if found.2 then optionEq else other⟩ ↔
      FlagRight key element found := by
  obtain ⟨node, isEqual⟩ := found
  cases node with
  | none => simp [ReportsMatch, FlagRight]
  | some node => cases isEqual <;> simp [ReportsMatch, FlagRight, different]

theorem searchNode_le (handle : Handle Node) (element : Node) :
    searchNode handle optionLe element =
      let found := avlGetSmallerEqualV2 handle.compareFn handle.root element false
      (found.1, found.1.map fun _ => if found.2 then optionEq else optionLt) := by
  have options : ¬ optionLe = optionEq ∧ ¬ optionLe = optionLt := by decide
  simp only [searchNode, options.1, options.2, if_false, if_true]
  cases found : avlGetSmallerEqualV2 handle.compareFn handle.root element false with
  | mk node isEqual => cases node <;> rfl

theorem searchNode_ge (handle : Handle Node) (element : Node) :
    searchNode handle optionGe element =
      let found := avlGetGreaterEqualV2 handle.compareFn handle.root element false
      (found.1, found.1.map fun _ => if found.2 then optionEq else optionGt) := by
  have options : ¬ optionGe = optionEq ∧ ¬ optionGe = optionLt ∧ ¬ optionGe = optionLe ∧
      ¬ optionGe = optionGt := by decide
  simp only [searchNode, options.1, options.2.1, options.2.2.1, options.2.2.2, if_false, if_true]
  cases found : avlGetGreaterEqualV2 handle.compareFn handle.root element false with
  | mk node isEqual => cases node <;> rfl

/-! ## Runs -/

/-- Of the nodes with the key of the element one is chosen, if there is one. -/
def StoredAmong (key : Node → Key) (element : Node) (nodes chosen : List Node) : Prop :=
  (∃ node ∈ nodes, key node = key element) → ∃ node ∈ chosen, key node = key element

theorem smallerEqual_right_iff (orders : OrdersBy compareFunc key) (ordered : tree.Ordered key)
    (element : Node) : FlagRight key element (avlGetSmallerEqualV2 compareFunc tree element false) ↔
      StoredAmong key element tree.inorder tree.leftLinks := by
  have member_of_links : ∀ node ∈ tree.leftLinks, node ∈ tree.inorder := by
    intro node member
    rw [← AvlTree.rightLinks_mirror] at member
    simpa using AvlTree.mem_of_rightLinks member
  exact flagRight_iff (avlGetPrevInternalV2_nearest orders ordered element true false)
    member_of_links (Set.mem_Iic.mpr le_rfl) (fun value isIn atLeast => le_antisymm isIn atLeast)
    (avlGetPrevInternalV2_flag orders ordered element)

theorem greaterEqual_right_iff (orders : OrdersBy compareFunc key) (ordered : tree.Ordered key)
    (element : Node) : FlagRight key element (avlGetGreaterEqualV2 compareFunc tree element false) ↔
      StoredAmong key element tree.inorder tree.rightLinks :=
  flagRight_iff (avlGetNextInternalV2_nearest orders ordered element true false)
    (fun _ member => AvlTree.mem_of_rightLinks member) (Set.mem_Ici.mpr le_rfl)
    (fun _ isIn atMost => le_antisymm atMost isIn)
    (avlGetNextInternalV2_flag orders ordered element)

theorem ordered_of_run (orders : OrdersBy compareFunc key) {calls : List (AvlCall Node)}
    (run : Runs (fun _ _ => True) (AvlStep compareFunc) .null calls tree) :
    tree.IsAvl ∧ tree.Ordered key :=
  run.invariant (fun _ _ _ kept _ stepped => AvlStep.keeps orders stepped kept)
    ⟨by simp, List.Pairwise.nil⟩

/-- In every tree that insertions and deletions build, the searches find the
nearest nodes, and a match is reported as such just if it is not stored or was
reached by links to the left, or to the right, only. -/
theorem avl_rangeSearch_right (orders : OrdersBy compareFunc key) {calls : List (AvlCall Node)}
    (run : Runs (fun _ _ => True) (AvlStep compareFunc) .null calls tree) (element : Node) :
    Nearest (· ≥ ·) key tree.inorder (Set.Iio (key element))
        (avlGetPrevV2 compareFunc tree element) ∧
      Nearest (· ≥ ·) key tree.inorder (Set.Iic (key element))
        (avlGetSmallerEqualV2 compareFunc tree element false).1 ∧
      Nearest (· ≤ ·) key tree.inorder (Set.Ioi (key element))
        (avlGetNextV2 compareFunc tree element) ∧
      Nearest (· ≤ ·) key tree.inorder (Set.Ici (key element))
        (avlGetGreaterEqualV2 compareFunc tree element false).1 ∧
      (FlagRight key element (avlGetSmallerEqualV2 compareFunc tree element false) ↔
        StoredAmong key element tree.inorder tree.leftLinks) ∧
      (FlagRight key element (avlGetGreaterEqualV2 compareFunc tree element false) ↔
        StoredAmong key element tree.inorder tree.rightLinks) ∧
      ∀ handle hasMagic, handle.root = tree → handle.compareFn = compareFunc →
        handle.mutex = false → checkObject handle hasMagic element = 0 →
        ∃ smaller greater,
          avlTreeSearch handle hasMagic optionLe (some element) = .ok (handle, smaller) ∧
          avlTreeSearch handle hasMagic optionGe (some element) = .ok (handle, greater) ∧
          (ReportsMatch key element smaller ↔
            StoredAmong key element tree.inorder tree.leftLinks) ∧
          (ReportsMatch key element greater ↔
            StoredAmong key element tree.inorder tree.rightLinks) := by
  obtain ⟨-, ordered⟩ := ordered_of_run orders run
  have smallerRight := smallerEqual_right_iff orders ordered element
  have greaterRight := greaterEqual_right_iff orders ordered element
  refine ⟨avlGetPrevInternalV2_nearest orders ordered element false false,
    avlGetPrevInternalV2_nearest orders ordered element true false,
    avlGetNextInternalV2_nearest orders ordered element false false,
    avlGetNextInternalV2_nearest orders ordered element true false,
    smallerRight, greaterRight, ?_⟩
  rintro handle hasMagic rfl rfl unlocked checked
  have searchesLe := avlTreeSearch_eq optionLe unlocked (by decide) checked
  have searchesGe := avlTreeSearch_eq optionGe unlocked (by decide) checked
  rw [searchNode_le] at searchesLe
  rw [searchNode_ge] at searchesGe
  refine ⟨_, _, searchesLe, searchesGe, ?_, ?_⟩
  · rw [← smallerRight]
    exact reportsMatch_iff (by decide)
  · rw [← greaterRight]
    exact reportsMatch_iff (by decide)

/-- The match of 1 is below the root, so it is reported as a greater object. -/
theorem avl_rangeSearch_right_integers :
    ∃ tree, Runs (fun _ _ => True) (AvlStep compareIntegers) .null
        [.insert 2 false, .insert 1 false] tree ∧
      (FlagRight id 1 (avlGetGreaterEqualV2 compareIntegers tree 1 false) ↔
        StoredAmong id 1 tree.inorder tree.rightLinks) := by
  have run : Runs (fun _ _ => True) (AvlStep compareIntegers) .null
      [.insert 2 false, .insert 1 false]
      (.node (.node .null .null .balanced 1) .null .leftHeavy 2) :=
    .cons trivial ⟨_, rfl, rfl⟩ (.cons trivial ⟨_, rfl, rfl⟩ (.nil _))
  have orders : OrdersBy compareIntegers (id : Int → Int) := fun _ _ => rfl
  exact ⟨_, run, (avl_rangeSearch_right orders run 1).2.2.2.2.2.1⟩

/-- The key is found, and on the way further down the flag is cleared. -/
theorem avl_rangeSearch_overwrites :
    ∃ tree, Runs (fun _ _ => True) (AvlStep compareIntegers) .null
        [.insert 2 false, .insert 1 false] tree ∧
      avlGetGreaterEqualV2 compareIntegers tree 1 false = (some 1, false) ∧
      avlTreeSearch ⟨tree, compareIntegers, fun _ => 0, false, 0, 2⟩ (fun _ => true) optionGe
          (some 1) =
        .ok (⟨tree, compareIntegers, fun _ => 0, false, 0, 2⟩, ⟨0, some 1, some optionGt⟩) ∧
      ¬ FlagRight id 1 (avlGetGreaterEqualV2 compareIntegers tree 1 false) := by
  have run : Runs (fun _ _ => True) (AvlStep compareIntegers) .null
      [.insert 2 false, .insert 1 false]
      (.node (.node .null .null .balanced 1) .null .leftHeavy 2) :=
    .cons trivial ⟨_, rfl, rfl⟩ (.cons trivial ⟨_, rfl, rfl⟩ (.nil _))
  refine ⟨_, run, rfl, rfl, ?_⟩
  intro right
  have flag := (right 1 rfl).mpr rfl
  cases flag

end CLibs.Avl
