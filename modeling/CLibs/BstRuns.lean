import CLibs.BstSteps

/-!
# Runs of `bst/bst.c`

A state holds a multiset when its pointers are a search tree of the values, with consistent parent
pointers, over exactly the nodes that are allocated.  Insertions keep this; a deletion keeps it
exactly when it fits.
-/

namespace CLibs.Bst

open ValueTrees

variable {Node : Type} [DecidableEq Node] {state next : State Node} {set : Multiset Int}

/-- The memory holds a search tree with these values, of the nodes in use. -/
def Holds (state : State Node) (set : Multiset Int) : Prop :=
  ∃ tree, state.memory.Represents tree ∧ Ordered tree ∧ values tree = set ∧ state.live.Perm tree.inorder

/-- The key of a deletion: it is not the one of the only node, and the nodes from which a value is
taken over hang on spines. -/
def Fitting (state : State Node) (key : Int) : Prop :=
  ∃ tree, state.memory.Represents tree ∧ Fits key tree ∧ ¬Alone key tree

/-- Runs of the calls whose deletions are all as `fits` says. -/
inductive Runs (fits : State Node → Int → Prop) : State Node → Multiset Int → Prop
  | empty {memory : Memory Node} (isEmpty : memory.root = none) : Runs fits ⟨memory, []⟩ 0
  | insert {state next : State Node} {set : Multiset Int} {new : Node} {data : Int}
      (before : Runs fits state set) (fresh : new ∉ state.live)
      (inserted : Returns (fun fuel => insertStep fuel state new data) next) : Runs fits next (data ::ₘ set)
  | delete {state next : State Node} {set : Multiset Int} {key code : Int} (before : Runs fits state set)
      (fit : fits state key) (deleted : Returns (fun fuel => deleteStep fuel state key) (code, next)) :
      Runs fits next (set.erase key)

/-! ## One tree -/

variable {memory : Memory Node}

omit [DecidableEq Node] in
theorem shape_unique {one two : Tree Int Node} {parent other : Option Node}
    (first : memory.Shape parent one) (second : memory.Shape other two)
    (same : one.root = two.root) :
    one = two := by
  induction one generalizing two parent other with
  | nil => exact (root_eq_none.mp same.symm).symm
  | node data left item right leftIh rightIh =>
    cases two with
    | nil => cases same
    | node value lower node upper =>
      obtain rfl : item = node := Option.some.inj same
      obtain ⟨-, isColor, isLeft, isRight, leftShape, rightShape⟩ := first
      obtain ⟨-, isValue, isLower, isUpper, lowerShape, upperShape⟩ := second
      rw [isColor.symm.trans isValue, leftIh leftShape lowerShape (isLeft.symm.trans isLower),
        rightIh rightShape upperShape (isRight.symm.trans isUpper)]

omit [DecidableEq Node] in
theorem represents_unique {one two : Tree Int Node} (first : memory.Represents one)
    (second : memory.Represents two) : one = two :=
  shape_unique first.shape second.shape (first.above.symm.trans second.above)

/-! ## Steps -/

omit [DecidableEq Node] in
theorem holds_empty (isEmpty : memory.root = none) : Holds ⟨memory, []⟩ 0 :=
  ⟨.nil, ⟨isEmpty, trivial, .nil⟩, trivial, rfl, .rfl⟩

theorem insertStep_holds (holds : Holds state set) {new : Node} (fresh : new ∉ state.live) (data : Int) :
    ∃ next, Returns (fun fuel => insertStep fuel state new data) next ∧ Holds next (data ::ₘ set) := by
  obtain ⟨tree, represents, ordered, rfl, live⟩ := holds
  have absent : new ∉ tree.inorder := fun member => fresh (live.mem_iff.mpr member)
  have leads : Leads data ([] : List (Frame Int Node)) := trivial
  obtain ⟨after, result, ⟨enough, inserted⟩, held⟩ := bstInsertAt_returns represents absent leads
  refine ⟨⟨after, new :: state.live⟩, ⟨enough, fun fuel sufficient => ?_⟩, insertLeaf data new tree, held,
    ordered.insertLeaf data new, values_insertLeaf data new tree,
    (live.cons new).trans (inorder_insertLeaf data new tree).symm⟩
  have here := inserted fuel sufficient
  change bstInsertAt new data fuel state.memory none none = _ at here
  dsimp only
  rw [insertStep, bstInsert, here, ok_bind]

variable {key : Int}

theorem deleteStep_returns {code : Int} {after : Memory Node} {freed : Option Node}
    (deleted : Returns (fun fuel => bstDelete fuel state.memory state.memory.root key) (code, after, freed)) :
    Returns (fun fuel => deleteStep fuel state key)
      (code, ⟨after, state.live.filter fun node => freed ≠ some node⟩) := by
  obtain ⟨enough, deleted⟩ := deleted
  refine ⟨enough, fun fuel sufficient => ?_⟩
  have here := deleted fuel sufficient
  dsimp only at here ⊢
  rw [deleteStep, here, ok_bind]

theorem filter_freed {live rest : List Node} {freed : Option Node} (perm : live.Perm (freed.toList ++ rest))
    (nodup : (freed.toList ++ rest).Nodup) : (live.filter fun node => freed ≠ some node).Perm rest := by
  have filtered := perm.filter fun node => decide (freed ≠ some node)
  have same : (freed.toList ++ rest).filter (fun node => decide (freed ≠ some node)) = rest := by
    cases freed with
    | none => simp
    | some gone =>
      have absent : gone ∉ rest := (List.nodup_cons.mp nodup).1
      simp only [Option.toList_some, List.singleton_append]
      rw [List.filter_cons_of_neg (by simp), List.filter_eq_self.mpr]
      intro node member
      rw [decide_eq_true_iff]
      intro same
      rw [Option.some.inj same] at absent
      exact absent member
  rwa [same] at filtered

/-- The call answers as the multiset does, changes nothing for an absent key, and leaves a state that
holds the multiset exactly when it fits. -/
def DeletesRight (state : State Node) (set : Multiset Int) (key : Int) : Prop :=
  ∃ code next, Returns (fun fuel => deleteStep fuel state key) (code, next) ∧
    code = (if key ∈ set then 0 else -1) ∧ (key ∉ set → next = state) ∧
    (Holds next (set.erase key) ↔ Fitting state key)

theorem deleteStep_absent (holds : Holds state set) (absent : key ∉ set) :
    DeletesRight state set key := by
  obtain ⟨tree, represents, ordered, rfl, live⟩ := holds
  have deleted := bstDelete_absent represents.shape absent
  rw [← represents.above] at deleted
  have same : (⟨state.memory, state.live.filter fun node => none ≠ some node⟩ : State Node) = state := by
    simp
  have returned := deleteStep_returns deleted
  rw [same] at returned
  refine ⟨-1, state, returned, (if_neg absent).symm, fun _ => rfl, iff_of_true ?_ ?_⟩
  · rw [Multiset.erase_of_notMem absent]
    exact ⟨tree, represents, ordered, rfl, live⟩
  · exact ⟨tree, represents, fits_of_absent absent, fun alone => absent alone.mem⟩

variable {tree : Tree Int Node}

theorem deleteStep_alone (represents : state.memory.Represents tree) (alone : Alone key tree) :
    DeletesRight state (values tree) key := by
  cases tree with
  | nil => exact absurd alone not_false
  | node data left item right =>
    obtain ⟨rfl, leftNone, rightNone⟩ := alone
    obtain rfl := root_eq_none.mp leftNone
    obtain rfl := root_eq_none.mp rightNone
    obtain ⟨isParent, isColor, isLeft, isRight, -, -⟩ := represents.shape
    have isRoot : state.memory.root = some item := represents.above
    have deleted : Returns (fun fuel => bstDelete fuel state.memory state.memory.root data)
        (0, state.memory, some item) := by
      refine .iterate (fun fuel => ?_) (.pure _)
      rw [isRoot, bstDelete, isColor, if_neg (lt_irrefl _), if_neg (lt_irrefl _), isLeft, isRight]
      change Except.ok (0, bstUnlink state.memory item, some item) = _
      rw [bstUnlink, isParent]
      rfl
    have present : data ∈ values (Tree.node data .nil item .nil) := data_mem _ _ _ _
    refine ⟨0, _, deleteStep_returns deleted, (if_pos present).symm, fun absent => absurd present absent,
      iff_of_false ?_ ?_⟩
    · rintro ⟨rest, held, -, none, -⟩
      rw [erase_root] at none
      obtain rfl : rest = .nil := eq_nil_of_values fun value member => by
        rw [none] at member
        cases member
      exact absurd (isRoot.symm.trans held.above) (Option.some_ne_none _)
    · rintro ⟨tree, held, -, notAlone⟩
      obtain rfl := represents_unique represents held
      exact notAlone ⟨rfl, rfl, rfl⟩

theorem deleteStep_present (represents : state.memory.Represents tree) (ordered : Ordered tree)
    (live : state.live.Perm tree.inorder) (present : key ∈ values tree) (more : ¬Alone key tree) :
    DeletesRight state (values tree) key := by
  obtain ⟨after, deleted, held⟩ := bstDelete_returns key tree state.memory [] represents fun _ => more
  rw [← represents.above] at deleted
  have code : codeOf key tree = if key ∈ values tree then 0 else -1 := by
    rw [codeOf]
    simp only [freedNode_isSome_iff ordered key]
  have nodes := inorder_deleteTree key tree
  have stays := filter_freed (live.trans nodes) (nodes.nodup_iff.mp represents.nodup)
  refine ⟨_, _, deleteStep_returns deleted, code, fun absent => absurd present absent, ?_⟩
  constructor
  · rintro ⟨rest, restHeld, restOrdered, -, -⟩
    obtain rfl := represents_unique held restHeld
    exact ⟨tree, represents, (ordered_deleteTree_iff ordered key).mp restOrdered, more⟩
  · rintro ⟨other, otherHeld, fits, -⟩
    obtain rfl := represents_unique represents otherHeld
    exact ⟨_, held, (ordered_deleteTree_iff ordered key).mpr fits, values_deleteTree ordered key, stays⟩

theorem deleteStep_holds (holds : Holds state set) (key : Int) : DeletesRight state set key := by
  by_cases present : key ∈ set
  · obtain ⟨tree, represents, ordered, rfl, live⟩ := holds
    by_cases alone : Alone key tree
    · exact deleteStep_alone represents alone
    · exact deleteStep_present represents ordered live present alone
  · exact deleteStep_absent holds present

/-! ## Runs -/

theorem runs_hold (runs : Runs Fitting state set) : Holds state set := by
  induction runs with
  | empty isEmpty => exact holds_empty isEmpty
  | @insert state next set new data _ fresh inserted ih =>
    obtain ⟨other, again, holds⟩ := insertStep_holds ih fresh data
    exact inserted.unique again ▸ holds
  | @delete state next set key code _ fit deleted ih =>
    obtain ⟨other, left, again, -, -, holds⟩ := deleteStep_holds ih key
    obtain ⟨-, rfl⟩ := Prod.mk.inj (deleted.unique again)
    exact holds.mpr fit

/-- A search finds a node with the key exactly if there is one. -/
def Searches (state : State Node) (set : Multiset Int) (key : Int) : Prop :=
  ∃ found, Returns (fun fuel => bstSearch state.memory key fuel state.memory.root) found ∧
    match found with
    | some node => key ∈ set ∧ node ∈ state.live ∧ state.memory.color node = key
    | none => key ∉ set

omit [DecidableEq Node] in
theorem entry_of_shape {parent : Option Node} {node : Node} (shape : memory.Shape parent tree)
    (member : node ∈ tree.inorder) : memory.color node ∈ values tree := by
  induction tree generalizing parent with
  | nil => cases member
  | node data left item right leftIh rightIh =>
    obtain ⟨-, isColor, -, -, leftShape, rightShape⟩ := shape
    rw [values_node, Multiset.mem_cons, Multiset.mem_add]
    rcases List.mem_append.mp member with inLeft | behind
    · exact .inr (.inl (leftIh leftShape inLeft))
    · rcases List.mem_cons.mp behind with rfl | inRight
      · exact .inl isColor
      · exact .inr (.inr (rightIh rightShape inRight))

omit [DecidableEq Node] in
theorem bstSearch_searches (holds : Holds state set) (key : Int) : Searches state set key := by
  obtain ⟨tree, represents, ordered, rfl, live⟩ := holds
  obtain ⟨found, searched, tells⟩ := bstSearch_returns represents.shape ordered key
  rw [← represents.above] at searched
  refine ⟨found, searched, ?_⟩
  cases found with
  | none => exact tells
  | some node =>
    obtain ⟨member, isColor⟩ := tells
    exact ⟨isColor ▸ entry_of_shape represents.shape member, live.mem_iff.mpr member, isColor⟩

/-- In every run whose deletions fit, the state holds the multiset, every call answers rightly, and the
next deletion keeps this exactly when it fits. -/
theorem bst_runs (runs : Runs Fitting state set) :
    Holds state set ∧
    (∀ new data, new ∉ state.live → ∃ next, Returns (fun fuel => insertStep fuel state new data) next ∧
      Holds next (data ::ₘ set)) ∧
    ∀ key, DeletesRight state set key ∧ Searches state set key := by
  have holds := runs_hold runs
  exact ⟨holds, fun new data fresh => insertStep_holds holds fresh data,
    fun key => ⟨deleteStep_holds holds key, bstSearch_searches holds key⟩⟩

def emptyMemory : Memory Nat where
  root := none
  child _ _ := none
  parent _ := none
  color _ := 0

def oneValue : State Nat where
  memory := bstLink emptyMemory none none 0 1
  live := [0]

theorem insertStep_at {fits : State Nat → Int → Prop} {state next : State Nat} {set : Multiset Int}
    {new : Nat} {data : Int} (runs : Runs fits state set) (fresh : new ∉ state.live) (enough : Nat)
    (inserted : ∀ fuel, insertStep (fuel + enough) state new data = .ok next) :
    Runs fits next (data ::ₘ set) := by
  refine .insert runs fresh ⟨enough, fun fuel sufficient => ?_⟩
  obtain ⟨less, rfl⟩ := Nat.exists_eq_add_of_le' sufficient
  exact inserted less

theorem oneValue_runs {fits : State Nat → Int → Prop} : Runs fits oneValue {1} :=
  insertStep_at (.empty (rfl : emptyMemory.root = none)) (by simp) 1 fun _ => rfl

def threeValues : State Nat where
  memory := bstLink (bstLink (bstLink emptyMemory none none 0 1) (some (.left, 0)) (some 0) 1 0)
    (some (.right, 0)) (some 0) 2 2
  live := [2, 1, 0]

/-- The key of a node with two children, which takes over the value of the first one. -/
theorem bst_runs_deletion : ∃ (next : State Nat) (set : Multiset Int),
    set = Multiset.erase {2, 0, 1} 1 ∧ Runs Fitting next set ∧ Holds next set ∧
      DeletesRight next set 0 := by
  have second : Runs Fitting ⟨bstLink oneValue.memory (some (.left, 0)) (some 0) 1 0, [1, 0]⟩
      {0, 1} := insertStep_at oneValue_runs (by decide) 2 fun _ => rfl
  have third : Runs Fitting threeValues {2, 0, 1} := insertStep_at second (by decide) 2 fun _ => rfl
  have fits : Fitting threeValues 1 := by
    refine ⟨.node 1 (.node 0 .nil 1 .nil) 0 (.node 2 .nil 2 .nil), ⟨rfl, ?_, by decide⟩, ?_, ?_⟩
    · exact ⟨rfl, rfl, rfl, rfl, ⟨rfl, rfl, rfl, rfl, trivial, trivial⟩, rfl, rfl, rfl, rfl, trivial,
        trivial⟩
    · trivial
    · exact nofun
  have deleted : ∃ next, ∀ fuel, deleteStep (fuel + 4) threeValues 1 = .ok (0, next) :=
    ⟨_, fun _ => rfl⟩
  obtain ⟨next, deleted⟩ := deleted
  have returned : Returns (fun fuel => deleteStep fuel threeValues 1) (0, next) := by
    refine ⟨4, fun fuel sufficient => ?_⟩
    obtain ⟨less, rfl⟩ := Nat.exists_eq_add_of_le' sufficient
    exact deleted less
  have run := Runs.delete third fits returned
  exact ⟨next, _, rfl, run, (bst_runs run).1, ((bst_runs run).2.2 0).1⟩

/-- The caller's root still names the only node when it is freed. -/
theorem bst_root_dangles : ¬∀ (state : State Nat) (set : Multiset Int), Runs (fun _ _ => True) state set →
    Holds state set := by
  intro always
  have deleted : Returns (fun fuel => deleteStep fuel oneValue 1) (0, ⟨oneValue.memory, []⟩) := by
    refine ⟨1, fun fuel sufficient => ?_⟩
    obtain ⟨less, rfl⟩ : ∃ less, fuel = less + 1 := ⟨fuel - 1, by omega⟩
    rfl
  obtain ⟨tree, represents, -, none, -⟩ := always _ _ (.delete oneValue_runs trivial deleted)
  obtain rfl : tree = .nil := eq_nil_of_values fun value member => by
    rw [none] at member
    simp at member
  exact absurd represents.above nofun

end CLibs.Bst
