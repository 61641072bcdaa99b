import CLibs.AvlWalk

/-!
# Correctness of the safe walk

The next node is remembered before a visit and stays in the tree, so the walk
passes the nodes in order whatever the callback deletes.  The walk holds the
lock of the tree, which a deletion takes as well.
-/

namespace CLibs.Avl

open List

variable {Node Ctx : Type}

variable {hasMagic : Node → Bool} {walkFn : Ctx → Node → Visit Ctx}

theorem visits_sublist (accepted : Node → Int) (walkFn : Ctx → Node → Visit Ctx) (ctx : Ctx)
    (nodes : List Node) : (visits accepted walkFn ctx nodes).removed.Sublist
      (visits accepted walkFn ctx nodes).visited ∧
        (visits accepted walkFn ctx nodes).visited <+: nodes := by
  induction nodes generalizing ctx with
  | nil => exact ⟨.slnil, prefix_rfl⟩
  | cons node rest ih =>
    have here : (if (decision accepted walkFn ctx node).2.2 then [node] else []).Sublist [node] := by
      split
      · exact List.Sublist.refl _
      · exact nil_sublist _
    cases code : (decision accepted walkFn ctx node).2.1 with
    | stopWalk =>
      simp only [visits, code]
      exact ⟨here, by simp⟩
    | contWalk =>
      simp only [visits, code]
      obtain ⟨removed, visited⟩ := ih (decision accepted walkFn ctx node).1
      exact ⟨here.append removed, (prefix_cons_inj node).mpr visited⟩

theorem visits_all {accepted : Node → Int}
    (continues : ∀ ctx node, (decision accepted walkFn ctx node).2.1 = .contWalk) (ctx : Ctx)
    (nodes : List Node) : (visits accepted walkFn ctx nodes).visited = nodes := by
  induction nodes generalizing ctx with
  | nil => rfl
  | cons node rest ih =>
    simp only [visits, continues ctx node]
    rw [ih]

variable [DecidableEq Node] {Key : Type} [LinearOrder Key] {key : Node → Key}

theorem filter_visited {node : Node} {rest later : List Node} (deleted : Bool) (fresh : node ∉ rest)
    (inRest : ∀ other ∈ later, other ∈ rest) :
    (node :: rest).filter (· ∉ (if deleted then [node] else []) ++ later) =
      (if deleted then [] else [node]) ++ rest.filter (· ∉ later) := by
  have notLater : node ∉ later := fun member => fresh (inRest node member)
  cases deleted with
  | true =>
    rw [filter_cons_of_neg (by simp)]
    apply filter_congr
    intro other member
    have different : other ≠ node := by
      rintro rfl
      exact fresh member
    simp [different]
  | false =>
    rw [filter_cons_of_pos (by simp [notLater])]
    simp

theorem walkSafeLoop_stopped (fuel : Nat) (tree : Handle Node) (ctx : Ctx) (next : Option Node) :
    walkSafeLoop hasMagic walkFn (fuel + 1) tree ctx next .stopWalk =
      .ok ⟨tree, ctx, [], .stopWalk⟩ := by
  cases next <;> rfl

variable {tree : Handle Node}

theorem walkSafeLoop_visits {kept rest : List Node} {ctx : Ctx}
    (orders : OrdersBy tree.compareFn key) (treeAvl : tree.root.IsAvl)
    (ordered : tree.root.Ordered key) (nodes : tree.root.inorder = kept ++ rest)
    (free : tree.notThreadsafe = true ∨
      (visits (acceptCode tree hasMagic) walkFn ctx rest).removed = []) :
    ∃ top count, Returns (fun fuel => walkSafeLoop hasMagic walkFn fuel tree ctx rest.head? .contWalk)
        ⟨{ tree with root := top, nodeCnt := count },
          (visits (acceptCode tree hasMagic) walkFn ctx rest).ctx,
          (visits (acceptCode tree hasMagic) walkFn ctx rest).visited,
          (visits (acceptCode tree hasMagic) walkFn ctx rest).result⟩ ∧
      top.IsAvl ∧ top.inorder = kept ++
        rest.filter (· ∉ (visits (acceptCode tree hasMagic) walkFn ctx rest).removed) := by
  induction rest generalizing tree kept ctx with
  | nil =>
    refine ⟨tree.root, tree.nodeCnt, ⟨1, fun fuel sufficient => ?_⟩, treeAvl, nodes⟩
    obtain ⟨less, rfl⟩ : ∃ less, fuel = less + 1 := ⟨fuel - 1, by omega⟩
    rfl
  | cons node rest ih =>
    have sorted := ordered
    unfold AvlTree.Ordered at sorted
    rw [nodes] at sorted
    have fresh : node ∉ rest :=
      (nodup_cons.mp (nodup_of_sorted (pairwise_append.mp sorted).2.1)).1
    have member : node ∈ tree.root.inorder := by
      rw [nodes]
      simp
    have stepFree : tree.notThreadsafe = true ∨
        (decision (acceptCode tree hasMagic) walkFn ctx node).2.2 = false := by
      refine free.imp_right fun nothing => ?_
      by_contra deleted
      rw [Bool.not_eq_false] at deleted
      cases code : (decision (acceptCode tree hasMagic) walkFn ctx node).2.1 <;>
        simp [visits, code, deleted] at nothing
    obtain ⟨top, count, computed, topAvl, topNodes⟩ :=
      avlTreeWalkInternal_visits orders treeAvl ordered nodes stepFree
    have unfold : ∀ fuel, walkSafeLoop hasMagic walkFn (fuel + 1) tree ctx (some node) .contWalk =
        (walkSafeLoop hasMagic walkFn fuel { tree with root := top, nodeCnt := count }
          (decision (acceptCode tree hasMagic) walkFn ctx node).1 rest.head?
          (decision (acceptCode tree hasMagic) walkFn ctx node).2.1).map fun walked =>
            { walked with visited := node :: walked.visited } := by
      intro fuel
      rw [walkSafeLoop, if_pos member, avlGetNextV2_follows orders ordered nodes, computed]
      rfl
    cases code : (decision (acceptCode tree hasMagic) walkFn ctx node).2.1 with
    | stopWalk =>
      simp only [code] at unfold
      simp only [visits, code]
      refine ⟨top, count, ⟨2, fun fuel sufficient => ?_⟩, topAvl, ?_⟩
      · obtain ⟨less, rfl⟩ : ∃ less, fuel = less + 1 + 1 := ⟨fuel - 2, by omega⟩
        simp only [List.head?_cons, unfold, walkSafeLoop_stopped]
        rfl
      · have noLater : ∀ other ∈ ([] : List Node), other ∈ rest := by simp
        have remains := filter_visited
          (decision (acceptCode tree hasMagic) walkFn ctx node).2.2 fresh noLater
        rw [append_nil] at remains
        rw [topNodes, remains]
        simp
    | contWalk =>
      simp only [code] at unfold
      simp only [visits, code] at free ⊢
      have less : (kept ++ ((if (decision (acceptCode tree hasMagic) walkFn ctx node).2.2 then []
          else [node]) ++ rest)).Sublist (kept ++ node :: rest) := by
        apply (List.Sublist.refl kept).append
        split
        · exact sublist_cons_self node rest
        · exact List.Sublist.refl _
      have topOrdered : top.Ordered key := by
        unfold AvlTree.Ordered
        rw [topNodes]
        exact sorted.sublist less
      have stillFree := free.imp_right fun nothing => (append_eq_nil_iff.mp nothing).2
      rw [← append_assoc] at topNodes
      obtain ⟨last, lastCount, returns, lastAvl, lastNodes⟩ :=
        @ih { tree with root := top, nodeCnt := count } _ _ orders topAvl topOrdered topNodes
          stillFree
      refine ⟨last, lastCount, (returns.map _).iterate unfold, lastAvl, ?_⟩
      have removed := visits_sublist (acceptCode tree hasMagic) walkFn
        (decision (acceptCode tree hasMagic) walkFn ctx node).1 rest
      rw [filter_visited _ fresh fun other inLater =>
        removed.2.subset (removed.1.subset inLater), ← append_assoc]
      exact lastNodes

theorem walkSafeLoop_deadlocks {kept rest : List Node} {ctx : Ctx}
    (orders : OrdersBy tree.compareFn key) (treeAvl : tree.root.IsAvl)
    (ordered : tree.root.Ordered key) (nodes : tree.root.inorder = kept ++ rest)
    (shared : tree.notThreadsafe = false) (locked : tree.mutex = true)
    (deletes : (visits (acceptCode tree hasMagic) walkFn ctx rest).removed ≠ []) (fuel : Nat) :
    ∃ fault, walkSafeLoop hasMagic walkFn fuel tree ctx rest.head? .contWalk = .error fault := by
  induction rest generalizing tree kept ctx fuel with
  | nil => exact absurd rfl deletes
  | cons node rest ih =>
    cases fuel with
    | zero => exact ⟨.fuel, rfl⟩
    | succ fuel =>
      have member : node ∈ tree.root.inorder := by
        rw [nodes]
        simp
      rw [List.head?_cons, walkSafeLoop, if_pos member,
        avlGetNextV2_follows orders ordered nodes]
      cases deleted : (decision (acceptCode tree hasMagic) walkFn ctx node).2.2 with
      | true =>
        rw [avlTreeWalkInternal_deadlocks shared locked deleted]
        exact ⟨.deadlock, rfl⟩
      | false =>
        obtain ⟨top, count, computed, topAvl, topNodes⟩ :=
          avlTreeWalkInternal_visits orders treeAvl ordered nodes (.inr deleted)
        rw [computed]
        cases code : (decision (acceptCode tree hasMagic) walkFn ctx node).2.1 with
        | stopWalk => simp [visits, code, deleted] at deletes
        | contWalk =>
          simp only [visits, code, deleted, Bool.false_eq_true, if_false,
            nil_append] at deletes
          simp only [deleted, Bool.false_eq_true, if_false] at topNodes
          have topOrdered : top.Ordered key := by
            unfold AvlTree.Ordered
            rw [topNodes]
            simpa [AvlTree.Ordered, nodes] using ordered
          rw [← append_assoc] at topNodes
          obtain ⟨fault, fails⟩ := @ih { tree with root := top, nodeCnt := count } _ _ orders
            topAvl topOrdered topNodes shared locked deletes fuel
          refine ⟨fault, ?_⟩
          simp only [bind, Except.bind, fails]
          rfl

/-- What is promised of a safe walk: the callback was given the nodes in order
up to the first one at which it stopped the walk, all of them if it never does,
and the tree has exactly the nodes that were not deleted. -/
structure WalkedSafely (key : Node → Key) (tree : Handle Node) (hasMagic : Node → Bool)
    (walkFn : Ctx → Node → Visit Ctx) (ctx : Ctx) (walked : Walked Node Ctx) : Prop where
  visited : walked.visited = (visits (acceptCode tree hasMagic) walkFn ctx tree.root.inorder).visited
  all_visited : (∀ ctx node, (decision (acceptCode tree hasMagic) walkFn ctx node).2.1 = .contWalk) →
    walked.visited = tree.root.inorder
  ascending : walked.visited.Pairwise fun first second => key first < key second
  result : walked.result = (visits (acceptCode tree hasMagic) walkFn ctx tree.root.inorder).result
  remaining : walked.tree.root.inorder = tree.root.inorder.filter
    (· ∉ (visits (acceptCode tree hasMagic) walkFn ctx tree.root.inorder).removed)
  isAvl : walked.tree.root.IsAvl
  unlocked : walked.tree.mutex = false

omit [DecidableEq Node] in
theorem avlTreeLock_unlocked (unlocked : tree.mutex = false) :
    avlTreeLock tree = .ok { tree with mutex := !tree.notThreadsafe } := by
  obtain ⟨root, compareFn, sanityFn, mutex, options, nodeCnt⟩ := tree
  obtain rfl : mutex = false := unlocked
  cases alone : Handle.notThreadsafe ⟨root, compareFn, sanityFn, false, options, nodeCnt⟩ <;>
    simp [avlTreeLock, alone]

omit [DecidableEq Node] in
theorem avlTreeUnlock_fields (tree : Handle Node) :
    (avlTreeUnlock tree).root = tree.root ∧
      (tree.mutex = !tree.notThreadsafe → (avlTreeUnlock tree).mutex = false) := by
  unfold avlTreeUnlock
  cases alone : tree.notThreadsafe <;> simp

theorem avlTreeWalkSafe_eq (unlocked : tree.mutex = false)
    (notEmpty : tree.root ≠ .null) (fuel : Nat) (ctx : Ctx) :
    avlTreeWalkSafe hasMagic walkFn fuel tree ctx =
      (walkSafeLoop hasMagic walkFn fuel { tree with mutex := !tree.notThreadsafe } ctx
        tree.root.inorder.head? .contWalk).map
          fun walked => { walked with tree := avlTreeUnlock walked.tree } := by
  unfold avlTreeWalkSafe
  split
  · exact absurd ‹_› notEmpty
  · rw [avlTreeLock_unlocked unlocked, ← avlTreeGetFirst_eq]
    rfl

theorem walkedSafely_of_free (orders : OrdersBy tree.compareFn key)
    (treeAvl : tree.root.IsAvl) (ordered : tree.root.Ordered key) (unlocked : tree.mutex = false)
    (ctx : Ctx) (free : tree.notThreadsafe = true ∨
      (visits (acceptCode tree hasMagic) walkFn ctx tree.root.inorder).removed = []) :
    ∃ walked, Returns (fun fuel => avlTreeWalkSafe hasMagic walkFn fuel tree ctx) walked ∧
      WalkedSafely key tree hasMagic walkFn ctx walked := by
  by_cases isEmpty : tree.root = .null
  · refine ⟨⟨tree, ctx, [], .contWalk⟩, ⟨0, fun fuel _ => ?_⟩, ?_⟩
    · simp only [avlTreeWalkSafe, isEmpty]
    · constructor <;> simp [isEmpty, visits, unlocked]
  · obtain ⟨top, count, returns, topAvl, nodes⟩ := @walkSafeLoop_visits _ _ hasMagic walkFn _ _ _ key
      { tree with mutex := !tree.notThreadsafe } [] _ ctx orders treeAvl ordered rfl free
    have unlock := avlTreeUnlock_fields
      { tree with mutex := !tree.notThreadsafe, root := top, nodeCnt := count }
    have before := (visits_sublist (acceptCode tree hasMagic) walkFn ctx tree.root.inorder).2
    have unfold : (fun fuel => avlTreeWalkSafe hasMagic walkFn fuel tree ctx) = fun fuel =>
        (walkSafeLoop hasMagic walkFn fuel { tree with mutex := !tree.notThreadsafe } ctx
          tree.root.inorder.head? .contWalk).map
            fun walked => { walked with tree := avlTreeUnlock walked.tree } :=
      funext fun fuel => avlTreeWalkSafe_eq unlocked isEmpty fuel ctx
    rw [unfold]
    refine ⟨_, returns.map _, ?_⟩
    exact {
      visited := rfl
      all_visited := fun continues => visits_all continues ctx _
      ascending := ordered.sublist before.sublist
      result := rfl
      remaining := (congrArg AvlTree.inorder unlock.1).trans nodes
      isAvl := unlock.1 ▸ topAvl
      unlocked := unlock.2 rfl }

/-- The safe walk returns and does what it promises just if the tree is not
threadsafe or the callback deletes nothing. -/
theorem avlTreeWalkSafe_iff (orders : OrdersBy tree.compareFn key)
    (treeAvl : tree.root.IsAvl) (ordered : tree.root.Ordered key) (unlocked : tree.mutex = false)
    (ctx : Ctx) :
    (∃ walked, Returns (fun fuel => avlTreeWalkSafe hasMagic walkFn fuel tree ctx) walked ∧
        WalkedSafely key tree hasMagic walkFn ctx walked) ↔
      tree.notThreadsafe = true ∨
        (visits (acceptCode tree hasMagic) walkFn ctx tree.root.inorder).removed = [] := by
  constructor
  · rintro ⟨walked, ⟨enough, returns⟩, -⟩
    by_contra deletes
    rw [not_or, Bool.not_eq_true] at deletes
    have notEmpty : tree.root ≠ .null := by
      intro isEmpty
      exact deletes.2 (by rw [isEmpty]; rfl)
    obtain ⟨fault, fails⟩ := @walkSafeLoop_deadlocks _ _ hasMagic walkFn _ _ _ key
      { tree with mutex := !tree.notThreadsafe } [] _ ctx orders treeAvl ordered rfl deletes.1
      (by simp [deletes.1]) deletes.2 enough
    have ends : avlTreeWalkSafe hasMagic walkFn enough tree ctx = .ok walked := returns enough le_rfl
    rw [avlTreeWalkSafe_eq unlocked notEmpty, fails] at ends
    cases ends
  · exact walkedSafely_of_free orders treeAvl ordered unlocked ctx

/-- A tree of 1, 2 and 3 with the given options, and a callback that deletes the
odd ones. -/
def threeNodes (options : UInt32) : Handle Int :=
  ⟨.node (.node .null .null .balanced 1) (.node .null .null .balanced 3) .balanced 2,
    compareIntegers, fun _ => 0, false, options, 3⟩

def deleteOdd (_ : Unit) (node : Int) : Visit Unit :=
  if node % 2 = 1 then .delete fun _ => ((), .contWalk) else .leave () .contWalk

/-- A walk over three nodes that deletes the odd ones. -/
theorem avlTreeWalkSafe_iff_three :
    (∃ walked, Returns (fun fuel => avlTreeWalkSafe (fun _ => true) deleteOdd fuel (threeNodes 1) ())
        walked ∧ WalkedSafely id (threeNodes 1) (fun _ => true) deleteOdd () walked) ↔
      (threeNodes 1).notThreadsafe = true ∨ (visits (acceptCode (threeNodes 1) fun _ => true)
        deleteOdd () (threeNodes 1).root.inorder).removed = [] := by
  have orders : OrdersBy compareIntegers (id : Int → Int) := fun _ _ => rfl
  have treeAvl : (threeNodes 1).root.IsAvl := by simp [threeNodes]
  have ordered : (threeNodes 1).root.Ordered id := by simp [threeNodes, AvlTree.Ordered]
  exact avlTreeWalkSafe_iff orders treeAvl ordered rfl ()

/-- With the default options the first deletion waits for the lock of the walk. -/
theorem avlTreeWalkSafe_deadlocks :
    (∀ fuel, avlTreeWalkSafe (fun _ => true) deleteOdd (fuel + 1) (threeNodes 0) () =
      .error .deadlock) ∧
    ¬ ∃ walked, Returns (fun fuel => avlTreeWalkSafe (fun _ => true) deleteOdd fuel (threeNodes 0) ())
        walked ∧ WalkedSafely id (threeNodes 0) (fun _ => true) deleteOdd () walked := by
  have stuck : ∀ fuel, avlTreeWalkSafe (fun _ => true) deleteOdd (fuel + 1) (threeNodes 0) () =
      .error .deadlock := fun fuel => rfl
  refine ⟨stuck, ?_⟩
  rintro ⟨walked, ⟨enough, returns⟩, -⟩
  have ends := (stuck enough).symm.trans (returns (enough + 1) (Nat.le_succ enough))
  cases ends

end CLibs.Avl
