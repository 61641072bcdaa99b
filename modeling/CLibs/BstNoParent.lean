import CLibs.CallRefinement
import CLibs.ValueTrees

/-!
# `bst.c` without parent pointers

The nodes have no parent pointers, so that a `struct bst_node *` is the tree below it; the colour of
a node is its `data`.  `bst_insert` gets the node that `malloc` returns; memory is available.
`bst_search` does not return the values of its recursive calls, and its caller has no value then.
-/

namespace CLibs.BstNoParent

open ValueTrees

variable {Node : Type}

/-! ## Calls -/

/-- `bst_insert`: the tree and what the call returns. -/
def bstInsert (new : Node) (data : Int) : Tree Int Node → Tree Int Node × Option Node
  | .nil => (.node data .nil new .nil, some new)
  | .node value left root right =>
    if value < data then (.node value left root (bstInsert new data right).1, none)
    else (.node value (bstInsert new data left).1 root right, none)

/-- The end of `bst_search` behind a recursive call. -/
def withoutValue (_ : Except Fault (Option Node)) : Except Fault (Option Node) :=
  .error .unwritten

def bstSearch (key : Int) : Tree Int Node → Except Fault (Option Node)
  | .nil => .ok none
  | .node data left root right =>
    if key = data then .ok (some root)
    else if data < key then withoutValue (bstSearch key right)
    else if key < data then withoutValue (bstSearch key left)
    else .error .unwritten

/-- The `data` of `pp` behind the loop of `bst_delete` that starts with `p`. -/
def lastRight : (p : Tree Int Node) → (pp : Option Int) → Option Int
  | .nil, pp => pp
  | .node data _ _ right, _ => lastRight right (some data)

/-- `bst_delete`: what the call returns and the tree. -/
def bstDelete (key : Int) : Tree Int Node → Except Fault (Int × Tree Int Node)
  | .nil => .ok (-1, .nil)
  | .node data left root right =>
    if data < key then do
      let (code, right) ← bstDelete key right
      .ok (code, .node data left root right)
    else if key < data then do
      let (code, left) ← bstDelete key left
      .ok (code, .node data left root right)
    else
      match left.root, right.root with
      | none, none => .ok (0, .nil)
      | some _, some _ =>
        match lastRight left none with
        | none => .error .outside
        | some last => do
            let (code, left) ← bstDelete last left
            .ok (code, .node last left root right)
      | some _, none => .ok (0, left)
      | none, some _ => .ok (0, right)

/-- The calls of a user of the tree. -/
inductive Call (Node : Type)
  | insert (data : Int) (new : Node)
  | delete (key : Int)

inductive Answer
  | inserted
  | deleted (code : Int)

def bstStep : Call Node → Tree Int Node → Except Fault (Answer × Tree Int Node)
  | .insert data new, root => .ok (.inserted, (bstInsert new data root).1)
  | .delete key, root => do
      let (code, root) ← bstDelete key root
      .ok (.deleted code, root)

def multisetStep : Call Node → Multiset Int → Answer × Multiset Int
  | .insert data _, set => (.inserted, data ::ₘ set)
  | .delete key, set => (.deleted (if key ∈ set then 0 else -1), set.erase key)

/-! ## Steps -/

section Steps

variable {data key last : Int} {left right tree : Tree Int Node} {root : Node}

theorem bstInsert_eq (new : Node) (data : Int) (tree : Tree Int Node) :
    (bstInsert new data tree).1 = insertLeaf data new tree := by
  induction tree with
  | nil => rfl
  | node value left root right leftIh rightIh =>
    rw [bstInsert, insertLeaf, ← leftIh, ← rightIh]
    split <;> rfl

theorem lastRight_greatest (ordered : Ordered tree) (pp : Option Int)
    (found : lastRight tree pp = some last) (inside : tree ≠ .nil) :
    last ∈ values tree ∧ ∀ small ∈ values tree, small ≤ last := by
  induction tree generalizing pp with
  | nil => exact absurd rfl inside
  | node data left root right leftIh rightIh =>
    obtain ⟨-, rightOrdered, small, great⟩ := ordered
    rw [lastRight] at found
    simp only [values_node, Multiset.mem_cons, Multiset.mem_add]
    cases right with
    | nil =>
      obtain rfl : data = last := Option.some.inj found
      refine ⟨.inl rfl, ?_⟩
      rintro first (rfl | member | member)
      · exact le_rfl
      · exact small first member
      · cases member
    | node value below next above =>
      obtain ⟨member, bound⟩ := rightIh rightOrdered (some data) found nofun
      refine ⟨.inr (.inr member), ?_⟩
      rintro first (rfl | inLeft | inRight)
      · exact (great last member).le
      · exact (small first inLeft).trans (great last member).le
      · exact bound first inRight

theorem lastRight_isSome (tree : Tree Int Node) (pp : Int) : ∃ last, lastRight tree (some pp) = some last := by
  induction tree generalizing pp with
  | nil => exact ⟨pp, rfl⟩
  | node data left root right leftIh rightIh => exact rightIh data

/-- What `bst_delete` is to do: one occurrence of a present key is lost. -/
def DeletesOne (key : Int) (tree : Tree Int Node) : Prop :=
  ∃ left, bstDelete key tree = .ok (if key ∈ values tree then 0 else -1, left) ∧
    Ordered left ∧ values left = (values tree).erase key ∧ (key ∉ values tree → left = tree)

theorem deletesOne_right (ordered : Ordered (.node data left root right)) (above : data < key)
    (deletes : DeletesOne key right) : DeletesOne key (.node data left root right) := by
  obtain ⟨less, deleted, lessOrdered, erased, kept⟩ := deletes
  refine ⟨.node data left root less, ?_, ?_, ?_, ?_⟩
  · rw [bstDelete, if_pos above, deleted, ok_bind]
    simp only [mem_right ordered above]
  · exact ordered.right_le lessOrdered (erased ▸ Multiset.erase_le _ _)
  · rw [erase_right ordered above, values_node, erased]
  · intro absent
    rw [mem_right ordered above] at absent
    rw [kept absent]

theorem deletesOne_left (ordered : Ordered (.node data left root right)) (below : key < data)
    (deletes : DeletesOne key left) : DeletesOne key (.node data left root right) := by
  obtain ⟨less, deleted, lessOrdered, erased, kept⟩ := deletes
  refine ⟨.node data less root right, ?_, ?_, ?_, ?_⟩
  · rw [bstDelete, if_neg below.not_gt, if_pos below, deleted, ok_bind]
    simp only [mem_left ordered below]
  · exact ordered.left_le lessOrdered (erased ▸ Multiset.erase_le _ _)
  · rw [erase_left ordered below, values_node, erased]
  · intro absent
    rw [mem_left ordered below] at absent
    rw [kept absent]

theorem deletesOne_root (less : Tree Int Node)
    (deleted : bstDelete data (.node data left root right) = .ok (0, less)) (lessOrdered : Ordered less)
    (same : values less = values left + values right) :
    DeletesOne data (.node data left root right) := by
  have present : data ∈ values (.node data left root right) := by simp
  refine ⟨less, ?_, lessOrdered, same.trans erase_root.symm, fun absent => absurd present absent⟩
  rw [if_pos present, deleted]

theorem bstDelete_deletesOne (ordered : Ordered tree) (key : Int) : DeletesOne key tree := by
  induction tree generalizing key with
  | nil => exact ⟨.nil, rfl, trivial, rfl, fun _ => rfl⟩
  | node data left root right leftIh rightIh =>
    have both := ordered
    obtain ⟨leftOrdered, rightOrdered, small, great⟩ := both
    rcases lt_trichotomy data key with above | rfl | below
    · exact deletesOne_right ordered above (rightIh rightOrdered key)
    · cases left with
      | nil =>
        apply deletesOne_root right
        · rw [bstDelete, if_neg (lt_irrefl _), if_neg (lt_irrefl _)]
          cases right <;> rfl
        · exact rightOrdered
        · rw [values_nil, zero_add]
      | node value below next between =>
        cases right with
        | nil =>
          apply deletesOne_root (.node value below next between)
          · rw [bstDelete, if_neg (lt_irrefl _), if_neg (lt_irrefl _)]
            rfl
          · exact leftOrdered
          · rw [values_nil, add_zero]
        | node other lower after upper =>
          obtain ⟨last, found⟩ : ∃ last, lastRight (.node value below next between) none = some last :=
            lastRight_isSome between value
          obtain ⟨member, bound⟩ := lastRight_greatest leftOrdered none found nofun
          obtain ⟨less, deleted, lessOrdered, erased, -⟩ := leftIh leftOrdered last
          rw [if_pos member] at deleted
          apply deletesOne_root (.node last less root (.node other lower after upper))
          · rw [bstDelete, if_neg (lt_irrefl _), if_neg (lt_irrefl _)]
            dsimp only [Tree.root]
            rw [found]
            dsimp only
            rw [deleted, ok_bind]
          · exact ordered.lower member bound lessOrdered (erased ▸ Multiset.erase_le _ _)
          · rw [values_node, erased, ← Multiset.cons_add, Multiset.cons_erase member]
    · exact deletesOne_left ordered below (leftIh leftOrdered key)

end Steps

/-! ## Runs -/

/-- The tree is a search tree of the multiset. -/
def Holds (tree : Tree Int Node) (set : Multiset Int) : Prop :=
  Ordered tree ∧ values tree = set

theorem bstStep_simulates (call : Call Node) (tree : Tree Int Node) (set : Multiset Int)
    (holds : Holds tree set) : Simulates Holds (bstStep call tree) (multisetStep call set) := by
  obtain ⟨ordered, rfl⟩ := holds
  cases call with
  | insert data new =>
    refine ⟨_, rfl, rfl, ?_⟩
    rw [bstInsert_eq]
    exact ⟨ordered.insertLeaf data new, values_insertLeaf data new tree⟩
  | delete key =>
    obtain ⟨less, deleted, lessOrdered, erased, -⟩ := bstDelete_deletesOne ordered key
    refine ⟨(.deleted (if key ∈ values tree then 0 else -1), less), ?_, rfl, lessOrdered, erased⟩
    rw [bstStep, deleted, ok_bind]

theorem run_ordered (calls : List (Call Node)) :
    ∃ tree : Tree Int Node, runCalls bstStep calls .nil = .ok ((modelCalls multisetStep calls 0).1, tree) ∧
      Holds tree (modelCalls multisetStep calls 0).2 := by
  obtain ⟨⟨answers, tree⟩, ran, same, holds⟩ :=
    @runCalls_simulates _ _ _ _ bstStep multisetStep Holds (fun _ => True)
      (fun call state model _ related => bstStep_simulates call state model related)
      calls .nil 0 (fun _ _ => trivial) ⟨trivial, rfl⟩
  exact ⟨tree, same ▸ ran, holds⟩

/-- `bst_search` finds a node that holds the key, if there is one. -/
def Searched (key : Int) (tree : Tree Int Node) : Prop :=
  ∃ found, bstSearch key tree = .ok found ∧
    match found with
    | some node => (key, node) ∈ entries tree
    | none => key ∉ values tree

/-- The root is `NULL` or holds the key. -/
def AtRoot (key : Int) : Tree Int Node → Prop
  | .nil => True
  | .node data _ _ _ => key = data

theorem searched_iff (key : Int) (tree : Tree Int Node) : Searched key tree ↔ AtRoot key tree := by
  cases tree with
  | nil => exact iff_of_true ⟨none, rfl, Multiset.notMem_zero key⟩ trivial
  | node data left root right =>
    constructor
    · rintro ⟨found, searched, -⟩
      by_contra elsewhere
      rw [AtRoot] at elsewhere
      rw [bstSearch, if_neg elsewhere] at searched
      split at searched
      · cases searched
      · split at searched <;> cases searched
    · rintro rfl
      refine ⟨some root, if_pos rfl, ?_⟩
      simp [entries]

/-- The calls are answered as on a multiset and leave a search tree of it, and so would be the next
call with the key. -/
def Refines (calls : List (Call Node)) (key : Int) : Prop :=
  ∃ tree : Tree Int Node, runCalls bstStep calls .nil = .ok ((modelCalls multisetStep calls 0).1, tree) ∧
    (sequence tree).Pairwise (· ≤ ·) ∧ values tree = (modelCalls multisetStep calls 0).2 ∧
    (key ∉ values tree → bstDelete key tree = .ok (-1, tree)) ∧ Searched key tree

/-- Every run refines the multiset, and a key is answered behind it if and only if its search ends at
the root. -/
theorem bst_refines_iff (calls : List (Call Node)) (key : Int) :
    Refines calls key ↔
      ∃ answers tree, runCalls bstStep calls .nil = .ok (answers, tree) ∧ AtRoot key tree := by
  constructor
  · rintro ⟨tree, ran, -, -, -, searched⟩
    exact ⟨_, tree, ran, (searched_iff key tree).mp searched⟩
  · rintro ⟨answers, tree, ran, atRoot⟩
    obtain ⟨same, expected, ordered, holds⟩ := run_ordered calls
    obtain ⟨-, rfl⟩ := Prod.mk.inj (Except.ok.inj (ran.symm.trans expected))
    refine ⟨tree, expected, ordered.sequence, holds, ?_, (searched_iff key tree).mpr atRoot⟩
    intro absent
    obtain ⟨less, deleted, -, -, kept⟩ := bstDelete_deletesOne ordered key
    rw [deleted, if_neg absent, kept absent]

/-- The search for the value of a leaf has no answer. -/
theorem bst_search_unanswered : ¬∀ (calls : List (Call Nat)) (key : Int), Refines calls key := by
  intro always
  obtain ⟨tree, ran, -, -, -, searched⟩ := always [.insert 2 10, .insert 1 11] 1
  obtain ⟨-, rfl⟩ := Prod.mk.inj (Except.ok.inj ran)
  obtain ⟨found, searched, -⟩ := searched
  cases searched

end CLibs.BstNoParent
