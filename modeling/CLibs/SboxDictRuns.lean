import CLibs.SboxDictSteps

/-!
# Runs of a dictionary

In every run whose comparisons are right and whose calls spare the boxes of the dictionary it is
the finite map of the calls, and no call uses a freed box.  With keys that are integers or strings
all comparisons are right; with byte keys a dictionary does not find its own keys again.
-/

namespace CLibs.Sbox

open SearchTrees List

variable {kind : Kind} {heap : Heap kind} {key fuel : Nat} {tree : Tree Color Pair}
  {rbtree : Rbtree} {valid : Tree Color Pair → Prop} {system : System kind} {action : Action kind}

/-! ## The finite map -/

/-- The dictionary is the map `live`: it has a pair for each live key, the walk over it visits them
in ascending order, `sbox_dict_get` finds the value of a key, no call uses a freed box or leaves
one in the dictionary, and none but `sbox_new` changes what a box holds. -/
structure Refines (rbtree : Rbtree) (fuel : Nat) (admits : System kind → Action kind → Prop)
    (system : System kind) : Prop where
  entries : ∀ data value, system.live data = some value ↔
    ∃ pair ∈ system.dict.inorder, system.heap.data pair.key = data ∧ pair.value = value
  count : ∃ keys : List (Data kind), keys.Nodup ∧ (∀ data, data ∈ keys ↔ system.live data ≠ none) ∧
    keys.length = system.dict.inorder.length
  first : sboxDictFirst rbtree system = system.dict.inorder[0]?
  next : ∀ (place : Nat) pair, system.dict.inorder[place]? = some pair →
    sboxDictNext rbtree system pair = system.dict.inorder[place + 1]?
  ascending : system.dict.inorder.Pairwise fun earlier later =>
    system.heap.data earlier.key < system.heap.data later.key
  get : ∀ key, admits system (.get key) →
    ∃ after, sboxDictGet fuel system key = some (system.live (system.heap.data key), after)
  stored : ∀ pair ∈ system.dict.inorder,
    Allocated system.heap pair.key ∧ Allocated system.heap pair.value
  calls : ∀ action, admits system action → ∃ after, step rbtree fuel system action = some after ∧
    ((∀ box data parts count, action ≠ .new box data parts count) →
      after.heap.data = system.heap.data)

theorem Sound.new (sound : Sound valid system) {box : Nat} (unused : ¬Allocated system.heap box)
    (data : Data kind) (parts : List Nat) (count : Int) :
    Sound valid { system with heap := sboxNew system.heap box data parts count } := by
  have fresh : box ∉ system.dict.inorder.map Pair.key := by
    intro member
    obtain ⟨pair, listed, rfl⟩ := mem_map.mp member
    exact unused (sound.stored pair listed).1
  have kept : ∀ other, Allocated system.heap other →
      Allocated (sboxNew system.heap box data parts count) other := by
    intro other allocated
    unfold Allocated sboxNew
    dsimp only
    split
    · exact Option.some_ne_none _
    · exact allocated
  refine (sound.toMaps.new data fresh).sound rfl fun pair member => ?_
  exact (sound.stored pair member).imp (kept _) (kept _)

theorem Sound.hold (sound : Sound valid system) {box : Nat} (allocated : Allocated system.heap box) :
    ∃ after, sboxHold system.heap box = some after ∧ Sound valid { system with heap := after } ∧
      after.data = system.heap.data := by
  obtain ⟨count, here⟩ := Option.ne_none_iff_exists'.mp allocated
  have kept : ∀ other, Allocated system.heap other →
      Allocated (system.heap.setCount box (some (Channels.int32 (count + 1)))) other := by
    intro other allocated
    unfold Allocated Heap.setCount
    dsimp only
    split
    · exact Option.some_ne_none _
    · exact allocated
  rw [sboxHold, here]
  refine ⟨_, rfl, sound.toMaps.sound rfl fun pair member => ?_, rfl⟩
  exact (sound.stored pair member).imp (kept _) (kept _)

theorem Sound.step (keeps : KeepsOrder rbtree valid) (sound : Sound valid system)
    (admits : Admits fuel system action) :
    ∃ after, step rbtree fuel system action = some after ∧ Sound valid after ∧
      ((∀ box data parts count, action ≠ .new box data parts count) →
        after.heap.data = system.heap.data) := by
  cases action with
  | new box data parts count =>
    exact ⟨_, rfl, sound.new admits.1.1 data parts count, fun old => absurd rfl (old box data parts count)⟩
  | hold box =>
    obtain ⟨after, held, still, same⟩ := sound.hold admits.1.2
    rw [Sbox.step, held]
    exact ⟨_, rfl, still, fun _ => same⟩
  | release box =>
    obtain ⟨after, released, same, stored⟩ := admits.1.2.releases
    rw [foldlM_one] at released
    rw [Sbox.step, released]
    exact ⟨_, rfl, sound.toMaps.sound same stored, fun _ => same⟩
  | insert key value malloc =>
    obtain ⟨after, inserted, still, same⟩ := sound.insert keeps admits
    exact ⟨after, inserted, still, fun _ => same⟩
  | get key =>
    obtain ⟨after, got, still, same⟩ := sound.get admits
    rw [Sbox.step, got]
    exact ⟨_, rfl, still, fun _ => same⟩
  | del key =>
    obtain ⟨after, deleted, still, same⟩ := sound.del keeps admits
    exact ⟨after, deleted, still, fun _ => same⟩

theorem Sound.refines (keeps : KeepsOrder rbtree valid) (sound : Sound valid system) :
    Refines rbtree fuel (Admits fuel) system where
  entries := sound.entries
  count := by
    refine ⟨system.dict.inorder.map (keyOf system.heap.data), ?_, ?_, length_map _⟩
    · rw [List.Nodup, pairwise_map]
      exact sound.ascending.imp fun below => below.ne
    · intro data
      rw [mem_map, Option.ne_none_iff_exists']
      constructor
      · rintro ⟨pair, member, same⟩
        exact ⟨pair.value, (sound.entries data pair.value).mpr ⟨pair, member, same, rfl⟩⟩
      · rintro ⟨value, present⟩
        obtain ⟨pair, member, same, -⟩ := (sound.entries data value).mp present
        exact ⟨pair, member, same⟩
  first := keeps.first _ sound.valid
  next place pair here := keeps.next _ place pair sound.valid sound.nodes here
  ascending := sound.ascending
  get key admits := by
    obtain ⟨after, got, -⟩ := sound.get admits
    exact ⟨after, got⟩
  stored := sound.stored
  calls action admits := by
    obtain ⟨after, stepped, -, same⟩ := sound.step keeps admits
    exact ⟨after, stepped, same⟩

/-- In every run with values, with memory and with right comparisons, in which the calls spare the
boxes of the dictionary, it is the map. -/
theorem sboxDict_refines (keeps : KeepsOrder rbtree valid) {actions : List (Action kind)}
    {last : System kind}
    (run : Runs (Admits fuel) (Steps rbtree fuel) (sboxNewDict heap) actions last) :
    Refines rbtree fuel (Admits fuel) last := by
  refine Sound.refines keeps (run.invariant ?_ (sboxNewDict_sound keeps heap))
  intro state action after sound admits stepped
  obtain ⟨next, same, still, -⟩ := sound.step keeps admits
  rw [Option.some.inj (stepped.symm.trans same)]
  exact still

theorem compares_of_ne_bytes (notBytes : kind ≠ .bytes) (boxes : Nat → Data kind) (key : Nat)
    (tree : Tree Color Pair) : Compares boxes key tree := by
  have right : ∀ other, Right boxes key other := by
    intro other
    cases kind with
    | int => exact .inr trivial
    | str => exact .inr trivial
    | bytes => exact absurd rfl notBytes
  induction tree with
  | nil => trivial
  | node color left pair rightTree leftIh rightIh =>
    refine ⟨right pair.key, ?_⟩
    split
    · exact leftIh
    · split
      · exact rightIh
      · trivial

/-! ## A tree without balancing -/

def blackened : Tree Color Pair → Tree Color Pair
  | .nil => .nil
  | .node _ left pair right => .node .black left pair right

def joined : Tree Color Pair → Tree Color Pair → Tree Color Pair
  | .nil, second => second
  | .node color left pair right, second => .node color left pair (joined right second)

def erased (node : Nat) : Tree Color Pair → Tree Color Pair
  | .nil => .nil
  | .node color left pair right =>
    if pair.node = node then joined left right
    else .node color (erased node left) pair (erased node right)

/-- On a root with a child on its right this does what the red-black tree does. -/
def unbalanced : Rbtree where
  insertColor _ tree := blackened tree
  erase := erased
  first tree := tree.inorder[0]?
  next node tree := (tree.inorder.dropWhile fun pair => pair.node ≠ node)[1]?

theorem blackened_inorder (tree : Tree Color Pair) : (blackened tree).inorder = tree.inorder := by
  cases tree with
  | nil => rfl
  | node color left pair right => rfl

theorem joined_inorder (first second : Tree Color Pair) :
    (joined first second).inorder = first.inorder ++ second.inorder := by
  induction first with
  | nil => rfl
  | node color left pair right leftIh rightIh => simp [joined, Tree.inorder, rightIh]

theorem filter_absent {node : Nat} {pairs : List Pair} (absent : node ∉ pairs.map Pair.node) :
    pairs.filter (fun other => other.node ≠ node) = pairs := by
  rw [filter_eq_self]
  intro other member
  apply decide_eq_true
  rintro rfl
  exact absent (mem_map_of_mem member)

theorem erased_inorder {node : Nat} (nodup : (tree.inorder.map Pair.node).Nodup) :
    (erased node tree).inorder = tree.inorder.filter fun other => other.node ≠ node := by
  induction tree with
  | nil => rfl
  | node color left pair right leftIh rightIh =>
    rw [Tree.inorder, map_append, map_cons, nodup_append, nodup_cons] at nodup
    obtain ⟨leftNodup, ⟨notRight, rightNodup⟩, apart⟩ := nodup
    rw [erased, Tree.inorder, filter_append]
    split
    · next here =>
        rw [joined_inorder, filter_cons_of_neg (by simp [here]), ← here,
          filter_absent notRight, filter_absent]
        intro member
        exact apart _ member _ mem_cons_self rfl
    · next elsewhere =>
        rw [Tree.inorder, filter_cons_of_pos (by simp [elsewhere]), leftIh leftNodup,
          rightIh rightNodup]

theorem dropWhile_nodup {pairs : List Pair} (nodup : (pairs.map Pair.node).Nodup) {place : Nat}
    {pair : Pair} (here : pairs[place]? = some pair) :
    pairs.dropWhile (fun other => other.node ≠ pair.node) = pairs.drop place := by
  induction pairs generalizing place with
  | nil => cases here
  | cons first rest ih =>
    rw [map_cons, nodup_cons] at nodup
    cases place with
    | zero =>
      rw [Option.some.inj here, dropWhile_cons_of_neg (by simp)]
      rfl
    | succ place =>
      have behind : rest[place]? = some pair := here
      have differs : first.node ≠ pair.node := by
        intro same
        rw [same] at nodup
        exact nodup.1 (mem_map_of_mem (mem_of_getElem? behind))
      rw [dropWhile_cons_of_pos (by simpa using differs), ih nodup.2 behind]
      rfl

theorem unbalanced_keepsOrder : KeepsOrder unbalanced fun _ => True where
  nil := trivial
  insertColor tree pair linked _ _ _ := ⟨trivial, blackened_inorder linked⟩
  erase tree pair _ nodup _ := ⟨trivial, erased_inorder nodup⟩
  update tree change _ _ := trivial
  first tree _ := rfl
  next tree place pair _ nodup here := by
    change (tree.inorder.dropWhile fun other => other.node ≠ pair.node)[1]? = _
    rw [dropWhile_nodup nodup here, List.getElem?_drop]

/-- Before anything is allocated. -/
def unallocated (data : Data kind) : Heap kind := ⟨fun _ => data, fun _ => [], fun _ => none⟩

/-- Two integer keys with their values: one of them is read with its own box, of which a reference
is held for it, and the other one deleted with a box of its own. -/
theorem sboxDict_refines_two : ∃ last : System .int,
    Runs (Admits 2) (Steps unbalanced 2) (sboxNewDict (@unallocated .int (0 : Int)))
      [@Action.new .int 1 (5 : Int) [] 0, @Action.new .int 2 (7 : Int) [] 0,
        @Action.new .int 10 (0 : Int) [] 0, @Action.new .int 11 (0 : Int) [] 0,
        .insert 1 (some 10) (some 100), .insert 2 (some 11) (some 101), .hold 1, .get 1,
        @Action.new .int 3 (7 : Int) [] 0, .del 3, .hold 1] last ∧
      Refines unbalanced 2 (Admits 2) last ∧
      (sboxDictGet 2 last 1).map Prod.fst = some (some 10) ∧ last.dict.inorder = [⟨100, 1, 10⟩] ∧
      ¬Allocated last.heap 2 := by
  have admits {system : System .int} {action : Action .int} (allowed : Allowed 2 system action) :
      Admits 2 system action :=
    ⟨allowed, fun key _ => compares_of_ne_bytes (nofun : Kind.int ≠ .bytes) _ key _⟩
  have run : Runs (Admits 2) (Steps unbalanced 2) (sboxNewDict (@unallocated .int (0 : Int)))
      [@Action.new .int 1 (5 : Int) [] 0, @Action.new .int 2 (7 : Int) [] 0,
        @Action.new .int 10 (0 : Int) [] 0, @Action.new .int 11 (0 : Int) [] 0,
        .insert 1 (some 10) (some 100), .insert 2 (some 11) (some 101), .hold 1, .get 1,
        @Action.new .int 3 (7 : Int) [] 0, .del 3, .hold 1] _ :=
    .cons (admits ⟨fun used => used rfl, trivial⟩) rfl
      (.cons (admits ⟨fun used => used rfl, trivial⟩) rfl
      (.cons (admits ⟨fun used => used rfl, trivial⟩) rfl
      (.cons (admits ⟨fun used => used rfl, trivial⟩) rfl
      (.cons (admits ⟨⟨rfl, .inl rfl, by decide⟩, by decide,
        fun _ stored => Option.some.inj stored ▸ Option.some_ne_none _⟩) rfl
      (.cons (admits ⟨⟨rfl, .inl rfl, by decide⟩, by decide,
        fun _ stored => Option.some.inj stored ▸ Option.some_ne_none _⟩) rfl
      (.cons (admits ⟨trivial, Option.some_ne_none _⟩) rfl
      (.cons (admits ⟨trivial, by decide, _, rfl, by decide⟩) rfl
      (.cons (admits ⟨fun used => used rfl, trivial⟩) rfl
      (.cons (admits ⟨trivial, by decide, _, rfl, by decide⟩) rfl
      (.cons (admits ⟨trivial, Option.some_ne_none _⟩) rfl (.nil _)))))))))))
  exact ⟨_, run, sboxDict_refines unbalanced_keepsOrder run, by decide, by decide, by decide⟩

/-- A dictionary with one byte key does not find the key again. -/
theorem sboxDict_loses : ¬∀ (kind : Kind) (rbtree : Rbtree) (valid : Tree Color Pair → Prop),
    KeepsOrder rbtree valid → ∀ (fuel : Nat) (heap : Heap kind) (actions : List (Action kind)) last,
      Runs (Allowed fuel) (Steps rbtree fuel) (sboxNewDict heap) actions last →
      Refines rbtree fuel (Allowed fuel) last := by
  intro refines
  have run : Runs (Allowed 2) (Steps unbalanced 2) (sboxNewDict (@unallocated .bytes ([] : List Nat)))
      [@Action.new .bytes 1 ([5] : List Nat) [] 0, @Action.new .bytes 2 ([5] : List Nat) [] 0,
        @Action.new .bytes 10 ([] : List Nat) [] 0, .insert 1 (some 10) (some 100)] _ :=
    .cons ⟨fun used => used rfl, trivial⟩ rfl
      (.cons ⟨fun used => used rfl, trivial⟩ rfl
      (.cons ⟨fun used => used rfl, trivial⟩ rfl
      (.cons ⟨⟨rfl, .inl rfl, by decide⟩, by decide,
        fun _ stored => Option.some.inj stored ▸ Option.some_ne_none _⟩ rfl (.nil _))))
  obtain ⟨after, found⟩ := (refines .bytes unbalanced _ unbalanced_keepsOrder _ _ _ _ run).get 2
    ⟨trivial, by decide, _, rfl, by decide⟩
  have missed : some none = some (some 10) := congrArg (Option.map Prod.fst) found
  cases missed

end CLibs.Sbox
