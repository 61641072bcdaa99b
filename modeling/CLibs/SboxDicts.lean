import CLibs.ChannelFifo
import CLibs.SearchTrees
import Mathlib.Order.Nat

/-!
# The dictionaries of `sbox.c`

A dictionary is a tree of pairs, ordered by `sbox_cmp` on the keys, which are of one kind.  A box
is its address and has a count of references.  The call that takes the last reference frees the
box, and `none` is the use of a freed one.  The red-black tree is a parameter: it is called with
the address of a node, and what it promises is `KeepsOrder`.
-/

namespace CLibs.Sbox

open SearchTrees List
open Channels (int32)

/-- The types of keys; a byte is the number that it stands for. -/
inductive Kind
  | int
  | str
  | bytes

/-- What a box of a type holds; a string has no `NUL` inside. -/
def Data : Kind → Type
  | .int => Int
  | .str => List Nat
  | .bytes => List Nat

instance : (kind : Kind) → LinearOrder (Data kind)
  | .int => inferInstanceAs (LinearOrder Int)
  | .str => inferInstanceAs (LinearOrder (List Nat))
  | .bytes => inferInstanceAs (LinearOrder (List Nat))

/-! ## Boxes -/

/-- What the boxes hold.  The `parts` of a list or dictionary are released with it, in this order,
and a box without a count is not allocated. -/
structure Heap (kind : Kind) where
  data : Nat → Data kind
  parts : Nat → List Nat
  count : Nat → Option Int

variable {kind : Kind}

def Heap.setCount (heap : Heap kind) (box : Nat) (count : Option Int) : Heap kind :=
  { heap with count := fun other => if other = box then count else heap.count other }

/-- Any `sbox_new`; those of numbers and of short strings do not clear the `count` that the memory
has. -/
def sboxNew (heap : Heap kind) (box : Nat) (data : Data kind) (parts : List Nat) (count : Int) :
    Heap kind :=
  { data := fun other => if other = box then data else heap.data other
    parts := fun other => if other = box then parts else heap.parts other
    count := fun other => if other = box then some (int32 (count + 1)) else heap.count other }

def sboxHold (heap : Heap kind) (box : Nat) : Option (Heap kind) := do
  let count ← heap.count box
  some (heap.setCount box (some (int32 (count + 1))))

/-- `sbox_release` and its helpers for what a list or a dictionary holds. -/
def sboxRelease : (fuel : Nat) → Heap kind → Nat → Option (Heap kind)
  | 0, _, _ => none
  | fuel + 1, heap, box => do
      let count ← heap.count box
      let heap := heap.setCount box (some (int32 (count - 1)))
      if int32 (count - 1) = 0 then
        let heap ← (heap.parts box).foldlM (sboxRelease fuel) heap
        some (heap.setCount box none)
      else some heap

def Allocated (heap : Heap kind) (box : Nat) : Prop := heap.count box ≠ none

instance (heap : Heap kind) (box : Nat) : Decidable (Allocated heap box) :=
  inferInstanceAs (Decidable (heap.count box ≠ none))

/-! ## Comparison -/

def strcmp : List Nat → List Nat → Int
  | [], [] => 0
  | [], _ :: _ => -1
  | _ :: _, [] => 1
  | c :: first, d :: second => if c = d then strcmp first second else if c > d then 1 else -1

/-- The `switch` of `sbox_cmp`, with what it leaves in the first box: `memcpy` takes the place of a
comparison, and its result is never `NULL`. -/
def cmpData : (kind : Kind) → Data kind → Data kind → Int × Data kind
  | .int, (a : Int), (b : Int) => (if a = b then 0 else if a > b then 1 else -1, a)
  | .str, a, b => (strcmp a b, a)
  | .bytes, (a : List Nat), (b : List Nat) =>
    let i := min a.length b.length
    (int32 i, b.take i ++ a.drop i)

/-- Of two boxes, neither of which is `NULL`. -/
def sboxCmp (heap : Heap kind) (a b : Nat) : Option (Int × Heap kind) :=
  if a = b then some (0, heap)
  else if Allocated heap a ∧ Allocated heap b then
    let (order, left) := cmpData kind (heap.data a) (heap.data b)
    some (order, { heap with data := fun box => if box = a then left else heap.data box })
  else none

/-! ## The tree -/

inductive Color
  | red
  | black

/-- A node of the dictionary with the boxes it holds. -/
structure Pair where
  node : Nat
  key : Nat
  value : Nat
deriving DecidableEq

/-- The functions of the red-black tree that are called here. -/
structure Rbtree where
  insertColor : Nat → Tree Color Pair → Tree Color Pair
  erase : Nat → Tree Color Pair → Tree Color Pair
  first : Tree Color Pair → Option Pair
  next : Nat → Tree Color Pair → Option Pair

/-- On the trees that it builds the red-black tree keeps the order of the nodes, and walks along
it. -/
structure KeepsOrder (rbtree : Rbtree) (valid : Tree Color Pair → Prop) : Prop where
  nil : valid .nil
  insertColor : ∀ tree pair linked, valid tree → Linked .red pair tree linked →
    (linked.inorder.map Pair.node).Nodup →
    valid (rbtree.insertColor pair.node linked) ∧
      (rbtree.insertColor pair.node linked).inorder = linked.inorder
  erase : ∀ tree pair, valid tree → (tree.inorder.map Pair.node).Nodup → pair ∈ tree.inorder →
    valid (rbtree.erase pair.node tree) ∧
      (rbtree.erase pair.node tree).inorder =
        tree.inorder.filter fun other => other.node ≠ pair.node
  update : ∀ tree change, valid tree → (∀ pair : Pair, (change pair).node = pair.node) →
    valid (tree.map change)
  first : ∀ tree, valid tree → rbtree.first tree = tree.inorder[0]?
  next : ∀ tree (place : Nat) pair, valid tree → (tree.inorder.map Pair.node).Nodup →
    tree.inorder[place]? = some pair → rbtree.next pair.node tree = tree.inorder[place + 1]?

def dictGet (heap : Heap kind) (key : Nat) :
    Tree Color Pair → Option (Option Pair × Heap kind)
  | .nil => some (none, heap)
  | .node _ left pair right => do
      let (i, heap) ← sboxCmp heap key pair.key
      if i < 0 then dictGet heap key left
      else if i > 0 then dictGet heap key right
      else some (some pair, heap)

/-- The descent of `__dict_insert`; a key that is there already should not happen. -/
def dictInsert (heap : Heap kind) (new : Pair) :
    Tree Color Pair → Option (Option (Tree Color Pair) × Heap kind)
  | .nil => some (some (.node .red .nil new .nil), heap)
  | .node color left pair right => do
      let (i, heap) ← sboxCmp heap new.key pair.key
      if i < 0 then
        let (linked, heap) ← dictInsert heap new left
        some (linked.map fun linked => .node color linked pair right, heap)
      else if i > 0 then
        let (linked, heap) ← dictInsert heap new right
        some (linked.map fun linked => .node color left pair linked, heap)
      else some (none, heap)

/-! ## Calls -/

/-- A dictionary and its boxes; `live` is the finite map that it stands for. -/
structure System (kind : Kind) where
  heap : Heap kind
  dict : Tree Color Pair
  live : Data kind → Option Nat

def overwrite (node key value : Nat) (pair : Pair) : Pair :=
  if pair.node = node then ⟨node, key, value⟩ else pair

/-- The dictionary takes over the references to the key and the value that it stores. -/
def sboxDictInsert (rbtree : Rbtree) (fuel : Nat) (system : System kind) (key : Nat)
    (value malloc : Option Nat) : Option (System kind) :=
  match value with
  | none => some system
  | some value => do
      let (found, heap) ← dictGet system.heap key system.dict
      match found with
      | some pair =>
        if pair.value ≠ value then
          let heap ← sboxRelease fuel heap pair.key
          let heap ← sboxRelease fuel heap pair.value
          some { system with
            heap := heap
            dict := system.dict.map (overwrite pair.node key value) }
        else some { system with heap := heap }
      | none =>
        match malloc with
        | none => some { system with heap := heap }
        | some node =>
          let (linked, heap) ← dictInsert heap ⟨node, key, value⟩ system.dict
          match linked with
          | some linked =>
            some { system with heap := heap, dict := rbtree.insertColor node linked }
          | none => some { system with heap := heap }

/-- The reference to the key that is passed is released, also where the key is not found. -/
def sboxDictGet (fuel : Nat) (system : System kind) (key : Nat) :
    Option (Option Nat × Heap kind) := do
  let (found, heap) ← dictGet system.heap key system.dict
  let heap ← sboxRelease fuel heap key
  some (found.map Pair.value, heap)

def sboxDictDel (rbtree : Rbtree) (fuel : Nat) (system : System kind) (key : Nat) :
    Option (System kind) := do
  let (found, heap) ← dictGet system.heap key system.dict
  match found with
  | some pair =>
    let heap ← sboxRelease fuel heap pair.key
    let heap ← sboxRelease fuel heap pair.value
    let heap ← sboxRelease fuel heap key
    some { system with heap := heap, dict := rbtree.erase pair.node system.dict }
  | none =>
    let heap ← sboxRelease fuel heap key
    some { system with heap := heap }

def sboxDictFirst (rbtree : Rbtree) (system : System kind) : Option Pair := rbtree.first system.dict

def sboxDictNext (rbtree : Rbtree) (system : System kind) (pair : Pair) : Option Pair :=
  rbtree.next pair.node system.dict

/-- Calls with boxes, and those of the dictionary. -/
inductive Action (kind : Kind)
  | new (box : Nat) (data : Data kind) (parts : List Nat) (count : Int)
  | hold (box : Nat)
  | release (box : Nat)
  | insert (key : Nat) (value malloc : Option Nat)
  | get (key : Nat)
  | del (key : Nat)

def assign (data : Data kind) (value : Option Nat) (live : Data kind → Option Nat) :
    Data kind → Option Nat := fun other => if other = data then value else live other

/-- What a call leaves; there is none where it uses a freed box. -/
def step (rbtree : Rbtree) (fuel : Nat) (system : System kind) : Action kind → Option (System kind)
  | .new box data parts count =>
    some { system with heap := sboxNew system.heap box data parts count }
  | .hold box => do
      let heap ← sboxHold system.heap box
      some { system with heap := heap }
  | .release box => do
      let heap ← sboxRelease fuel system.heap box
      some { system with heap := heap }
  | .insert key value malloc => do
      let after ← sboxDictInsert rbtree fuel system key value malloc
      some { after with live := assign (system.heap.data key) value system.live }
  | .get key => do
      let (_, heap) ← sboxDictGet fuel system key
      some { system with heap := heap }
  | .del key => do
      let after ← sboxDictDel rbtree fuel system key
      some { after with live := assign (system.heap.data key) none system.live }

def Steps (rbtree : Rbtree) (fuel : Nat) (system : System kind) (action : Action kind)
    (next : System kind) : Prop := step rbtree fuel system action = some next

def sboxNewDict (heap : Heap kind) : System kind := ⟨heap, .nil, fun _ => none⟩

/-! ## Conditions on the calls -/

/-- The comparison of the two is right: the bytes of the second one are the beginning of the first
one, or there are none, or their number is negative as an `int`. -/
def RightData : (kind : Kind) → Data kind → Data kind → Prop
  | .int, _, _ => True
  | .str, _, _ => True
  | .bytes, (a : List Nat), (b : List Nat) =>
    (a = [] ∧ b = []) ∨ (b <+: a ∧ b ≠ a ∧ 0 < b.length ∧ b.length < 2 ^ 31) ∨
      (a <+: b ∧ a ≠ b ∧ 2 ^ 31 ≤ a.length ∧ a.length < 2 ^ 32)

def Right (boxes : Nat → Data kind) (key other : Nat) : Prop :=
  key = other ∨ RightData kind (boxes key) (boxes other)

/-- Each comparison on the way to the key is right. -/
def Compares (boxes : Nat → Data kind) (key : Nat) : Tree Color Pair → Prop
  | .nil => True
  | .node _ left pair right => Right boxes key pair.key ∧
      if boxes key < boxes pair.key then Compares boxes key left
      else if boxes pair.key < boxes key then Compares boxes key right
      else True

/-- There is a value, and memory that is not in use for a new box or node. -/
def Provided (system : System kind) : Action kind → Prop
  | .new box _ _ _ => ¬Allocated system.heap box
  | .insert key value malloc => value.isSome ∧
      (malloc.isSome ∨
        ∃ pair ∈ system.dict.inorder, system.heap.data pair.key = system.heap.data key) ∧
      ∀ node ∈ malloc, node ∉ system.dict.inorder.map Pair.node
  | _ => True

abbrev keyOf (boxes : Nat → Data kind) (pair : Pair) : Data kind := boxes pair.key

/-- The releases use no freed box, and the boxes of the pairs are allocated behind them. -/
def Spares (fuel : Nat) (heap : Heap kind) (released : List Nat) (pairs : List Pair) : Prop :=
  ∃ after, released.foldlM (sboxRelease fuel) heap = some after ∧
    ∀ pair ∈ pairs, Allocated after pair.key ∧ Allocated after pair.value

/-- The boxes that are passed are allocated, and what the call releases spares the boxes that the
dictionary has behind it. -/
def Owned (fuel : Nat) (system : System kind) : Action kind → Prop
  | .new _ _ _ _ => True
  | .hold box => Allocated system.heap box
  | .release box => Spares fuel system.heap [box] system.dict.inorder
  | .insert key value _ => Allocated system.heap key ∧ ∀ stored ∈ value,
      match search (keyOf system.heap.data) (system.heap.data key) system.dict with
      | some pair => pair.value = stored ∨
          Spares fuel system.heap [pair.key, pair.value]
            (system.dict.inorder.map (overwrite pair.node key stored))
      | none => Allocated system.heap stored
  | .get key => Allocated system.heap key ∧ Spares fuel system.heap [key] system.dict.inorder
  | .del key => Allocated system.heap key ∧
      match search (keyOf system.heap.data) (system.heap.data key) system.dict with
      | some pair => Spares fuel system.heap [pair.key, pair.value, key]
          (system.dict.inorder.filter fun other => other.node ≠ pair.node)
      | none => Spares fuel system.heap [key] system.dict.inorder

/-- The conditions that do not speak of comparisons. -/
def Allowed (fuel : Nat) (system : System kind) (action : Action kind) : Prop :=
  Provided system action ∧ Owned fuel system action

def Action.key : Action kind → Option Nat
  | .insert key _ _ => some key
  | .get key => some key
  | .del key => some key
  | _ => none

def Admits (fuel : Nat) (system : System kind) (action : Action kind) : Prop :=
  Allowed fuel system action ∧
    ∀ key ∈ action.key, Compares system.heap.data key system.dict

end CLibs.Sbox

/-!
## Comparison of keys

`sbox_cmp` orders integers by value and strings by their bytes.  For byte keys it
returns the smaller length and copies the second key into the first, which is right only
where the second key is a beginning of the first.
-/

namespace CLibs.Sbox

open SearchTrees List
open Channels (int32 int32_eq)

variable {kind : Kind} {heap : Heap kind} {key : Nat} {tree : Tree Color Pair}

/-- The result says how the two are ordered. -/
def Orders {Key : Type} [LinearOrder Key] (order : Int) (a b : Key) : Prop :=
  (order < 0 ↔ a < b) ∧ (0 < order ↔ b < a)

theorem strcmp_orders (a b : List Nat) : Orders (strcmp a b) a b := by
  induction a generalizing b with
  | nil =>
    cases b with
    | nil => exact ⟨by simp [strcmp], by simp [strcmp]⟩
    | cons d second => exact ⟨by simp [strcmp], by simp [strcmp]⟩
  | cons c first ih =>
    cases b with
    | nil => exact ⟨by simp [strcmp], by simp [strcmp]⟩
    | cons d second =>
      obtain ⟨below, above⟩ := ih second
      rw [Orders, cons_lt_cons_iff, cons_lt_cons_iff, strcmp]
      split
      · next same => simp [same, below, above]
      · next differ =>
          split
          · next greater =>
              constructor
              · omega
              · omega
          · next notGreater =>
              constructor
              · omega
              · omega

variable {a b : List Nat}

theorem lt_of_begins (begins : b <+: a) (ne : b ≠ a) : b < a := by
  induction b generalizing a with
  | nil =>
    cases a with
    | nil => exact absurd rfl ne
    | cons d rest => exact nil_lt_cons _ _
  | cons c first ih =>
    obtain ⟨rest, rfl⟩ := begins
    rw [cons_append, cons_lt_cons_iff]
    refine .inr ⟨rfl, ih (prefix_append _ _) ?_⟩
    intro same
    exact ne (congrArg (c :: ·) same)

theorem int32_neg {value : Nat} (low : 2 ^ 31 ≤ value) (high : value < 2 ^ 32) :
    int32 value < 0 := by
  have shifted : int32 value = (value : Int) - 2 ^ 32 := by
    rw [int32, Int.bmod_def, Int.emod_eq_of_lt (by omega) (by omega), if_neg (by omega)]
    rfl
  omega

theorem cmpBytes_eq (a b : List Nat) : cmpData .bytes a b =
    (int32 (min a.length b.length : Nat),
      (b.take (min a.length b.length) ++ a.drop (min a.length b.length) : List Nat)) := rfl

theorem rightData_bytes : RightData .bytes a b ↔
    (a = [] ∧ b = []) ∨ (b <+: a ∧ b ≠ a ∧ 0 < b.length ∧ b.length < 2 ^ 31) ∨
      (a <+: b ∧ a ≠ b ∧ 2 ^ 31 ≤ a.length ∧ a.length < 2 ^ 32) := by
  rw [RightData]

theorem cmpBytes_orders (right : RightData .bytes a b) :
    (cmpData .bytes a b).2 = a ∧ Orders (cmpData .bytes a b).1 a b := by
  rw [cmpBytes_eq]
  rcases rightData_bytes.mp right with ⟨rfl, rfl⟩ | ⟨begins, ne, positive, short⟩ | ⟨begins, ne, long, small⟩
  · have zero : int32 (min ([] : List Nat).length ([] : List Nat).length : Nat) = 0 :=
      int32_eq (by omega) (by decide)
    rw [zero]
    exact ⟨rfl, iff_of_false (lt_irrefl _) (lt_irrefl _), iff_of_false (lt_irrefl _) (lt_irrefl _)⟩
  · have below := lt_of_begins begins ne
    rw [min_eq_right begins.length_le, take_length, int32_eq (by omega) (by omega)]
    refine ⟨?_, ?_, ?_⟩
    · exact prefix_iff_eq_append.mp begins
    · exact iff_of_false (by omega) below.asymm
    · exact iff_of_true (by omega) below
  · have below := lt_of_begins begins ne
    have negative := int32_neg long small
    rw [min_eq_left begins.length_le, drop_length, append_nil]
    dsimp only
    refine ⟨?_, ?_, ?_⟩
    · exact (prefix_iff_eq_take.mp begins).symm
    · exact iff_of_true negative below
    · exact iff_of_false (by omega) below.asymm

theorem cmpInt_orders (a b : Int) :
    Orders (if a = b then 0 else if a > b then 1 else -1) a b := by
  unfold Orders
  split
  · omega
  · split
    · omega
    · omega

/-- Such a comparison keeps the key and tells the order. -/
theorem cmpData_orders {a b : Data kind} (right : RightData kind a b) :
    (cmpData kind a b).2 = a ∧ Orders (cmpData kind a b).1 a b := by
  cases kind with
  | int => exact ⟨rfl, cmpInt_orders a b⟩
  | str => exact ⟨rfl, strcmp_orders a b⟩
  | bytes => exact cmpBytes_orders right

/-- For byte keys the condition is exact. -/
theorem rightData_bytes_iff (aSmall : a.length < 2 ^ 32) (bSmall : b.length < 2 ^ 32) :
    RightData .bytes a b ↔
      (cmpData .bytes a b).2 = a ∧ Orders (cmpData .bytes a b).1 a b := by
  refine ⟨cmpBytes_orders, ?_⟩
  rw [cmpBytes_eq, rightData_bytes]
  dsimp only
  intro ⟨kept, below, above⟩
  have same : b.take (min a.length b.length) = a.take (min a.length b.length) := by
    have taken := congrArg (List.take (min a.length b.length)) kept
    rw [take_append_of_le_length (by rw [length_take]; omega), take_take,
      min_self] at taken
    exact taken
  by_cases equal : a = b
  · subst equal
    rw [min_self] at above below
    have notAbove : ¬0 < int32 a.length := fun positive => lt_irrefl _ (above.mp positive)
    have notBelow : ¬int32 a.length < 0 := fun negative => lt_irrefl _ (below.mp negative)
    by_cases short : a.length < 2 ^ 31
    · rw [int32_eq (by omega) (by omega)] at notAbove
      have empty := eq_nil_of_length_eq_zero (l := a) (by omega)
      exact .inl ⟨empty, empty⟩
    · exact absurd (int32_neg (by omega) aSmall) notBelow
  · rcases le_total a.length b.length with shorter | longer
    · rw [min_eq_left shorter, take_length] at same
      rw [min_eq_left shorter] at below
      have begins : a <+: b := by
        rw [← same]
        exact take_prefix _ _
      have negative := below.mpr (lt_of_begins begins equal)
      by_cases short : a.length < 2 ^ 31
      · rw [int32_eq (by omega) (by omega)] at negative
        omega
      · exact .inr (.inr ⟨begins, equal, by omega, aSmall⟩)
    · rw [min_eq_right longer, take_length] at same
      rw [min_eq_right longer] at above
      have begins : b <+: a := by
        rw [same]
        exact take_prefix _ _
      have positive := above.mpr (lt_of_begins begins (Ne.symm equal))
      by_cases short : b.length < 2 ^ 31
      · rw [int32_eq (by omega) (by omega)] at positive
        exact .inr (.inl ⟨begins, Ne.symm equal, by omega, short⟩)
      · have negative := int32_neg (by omega) bSmall
        omega

theorem sboxCmp_eq {other : Nat} (right : Right heap.data key other) (passed : Allocated heap key)
    (stored : Allocated heap other) :
    ∃ order, sboxCmp heap key other = some (order, heap) ∧
      Orders order (heap.data key) (heap.data other) := by
  rw [sboxCmp]
  by_cases same : key = other
  · rw [if_pos same, same]
    exact ⟨0, rfl, iff_of_false (lt_irrefl _) (lt_irrefl _), iff_of_false (lt_irrefl _) (lt_irrefl _)⟩
  · obtain ⟨kept, orders⟩ := cmpData_orders (right.resolve_left same)
    have left : (fun box => if box = key then (cmpData kind (heap.data key) (heap.data other)).2
        else heap.data box) = heap.data := by
      ext box
      rw [kept]
      split
      · next here => rw [here]
      · rfl
    rw [if_neg same, if_pos ⟨passed, stored⟩]
    dsimp only
    rw [left]
    exact ⟨_, rfl, orders⟩

end CLibs.Sbox
