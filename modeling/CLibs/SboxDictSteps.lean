import CLibs.SboxDicts

/-!
# Calls of a dictionary

As long as the comparisons are right a dictionary is the finite map of the calls: the
descents of `__dict_get` and `__dict_insert` are those of a search tree, and leave the boxes
alone.  As long as the calls spare its boxes, none of them is freed.
-/

namespace CLibs.Sbox

open SearchTrees List

variable {kind : Kind} {boxes : Nat → Data kind} {heap : Heap kind} {key fuel : Nat}
  {tree dict : Tree Color Pair} {live : Data kind → Option Nat} {rbtree : Rbtree}
  {valid : Tree Color Pair → Prop} {system : System kind}

/-! ## Descents -/

theorem dictGet_eq (compares : Compares heap.data key tree) (passed : Allocated heap key)
    (stored : ∀ pair ∈ tree.inorder, Allocated heap pair.key) :
    dictGet heap key tree = some (search (keyOf heap.data) (heap.data key) tree, heap) := by
  induction tree with
  | nil => rfl
  | node color left pair right leftIh rightIh =>
    rw [Tree.inorder, forall_mem_append, forall_mem_cons] at stored
    obtain ⟨leftStored, hereStored, rightStored⟩ := stored
    obtain ⟨here, below⟩ := compares
    obtain ⟨order, compared, negative, positive⟩ := sboxCmp_eq here passed hereStored
    rw [dictGet, compared, search]
    dsimp only [keyOf, Option.bind_eq_bind, Option.bind_some]
    by_cases smaller : heap.data key < heap.data pair.key
    · rw [if_pos smaller] at below
      rw [if_pos (negative.mpr smaller), if_pos smaller]
      exact leftIh below leftStored
    · rw [if_neg smaller] at below
      rw [if_neg (mt negative.mp smaller), if_neg smaller]
      by_cases greater : heap.data pair.key < heap.data key
      · rw [if_pos greater] at below
        rw [if_pos (positive.mpr greater), if_pos greater]
        exact rightIh below rightStored
      · rw [if_neg (mt positive.mp greater), if_neg greater]

theorem dictInsert_eq {new : Pair} (compares : Compares heap.data new.key tree)
    (passed : Allocated heap new.key) (stored : ∀ pair ∈ tree.inorder, Allocated heap pair.key)
    (absent : ∀ pair ∈ tree.inorder, heap.data pair.key ≠ heap.data new.key) :
    dictInsert heap new tree = some (some (link (keyOf heap.data) .red new tree), heap) := by
  induction tree with
  | nil => rfl
  | node color left pair right leftIh rightIh =>
    rw [Tree.inorder, forall_mem_append, forall_mem_cons] at stored absent
    obtain ⟨leftStored, hereStored, rightStored⟩ := stored
    obtain ⟨leftAbsent, hereAbsent, rightAbsent⟩ := absent
    obtain ⟨here, below⟩ := compares
    obtain ⟨order, compared, negative, positive⟩ := sboxCmp_eq here passed hereStored
    rw [dictInsert, compared, link]
    dsimp only [keyOf, Option.bind_eq_bind, Option.bind_some]
    by_cases smaller : heap.data new.key < heap.data pair.key
    · rw [if_pos smaller] at below
      rw [if_pos (negative.mpr smaller), if_pos smaller, leftIh below leftStored leftAbsent]
      rfl
    · have greater : heap.data pair.key < heap.data new.key :=
        lt_of_le_of_ne (not_lt.mp smaller) hereAbsent
      rw [if_neg smaller, if_pos greater] at below
      rw [if_neg (mt negative.mp smaller), if_neg smaller, if_pos (positive.mpr greater),
        rightIh below rightStored rightAbsent]
      rfl

/-! ## Releases -/

variable {after : Heap kind}

theorem foldlM_data {release : Heap kind → Nat → Option (Heap kind)}
    (kept : ∀ heap box after, release heap box = some after → after.data = heap.data)
    {released : List Nat} (done : released.foldlM release heap = some after) :
    after.data = heap.data := by
  induction released generalizing heap with
  | nil => rw [← Option.some.inj done]
  | cons box rest ih =>
    obtain ⟨middle, first, later⟩ := Option.bind_eq_some_iff.mp done
    rw [ih later, kept heap box middle first]

theorem foldlM_one (release : Heap kind → Nat → Option (Heap kind)) (heap : Heap kind) (box : Nat) :
    [box].foldlM release heap = release heap box := by
  simp only [foldlM_cons, foldlM_nil, bind_pure]

theorem sboxRelease_data {box : Nat}
    (done : sboxRelease fuel heap box = some after) : after.data = heap.data := by
  induction fuel generalizing heap box after with
  | zero => cases done
  | succ fuel ih =>
    obtain ⟨count, -, done⟩ := Option.bind_eq_some_iff.mp done
    dsimp only at done
    split at done
    · obtain ⟨middle, parts, done⟩ := Option.bind_eq_some_iff.mp done
      have kept := foldlM_data (fun _ _ _ => ih) parts
      rw [← Option.some.inj done]
      exact kept
    · rw [← Option.some.inj done]
      rfl

theorem Spares.releases {released : List Nat} {pairs : List Pair}
    (spares : Spares fuel heap released pairs) :
    ∃ after, released.foldlM (sboxRelease fuel) heap = some after ∧ after.data = heap.data ∧
      ∀ pair ∈ pairs, Allocated after pair.key ∧ Allocated after pair.value := by
  obtain ⟨after, done, stored⟩ := spares
  exact ⟨after, done, foldlM_data (fun _ _ _ => sboxRelease_data) done, stored⟩

/-! ## Steps -/

/-- The tree is a search tree, and its pairs are the entries of the map. -/
structure Maps (valid : Tree Color Pair → Prop) (boxes : Nat → Data kind) (dict : Tree Color Pair)
    (live : Data kind → Option Nat) : Prop where
  valid : valid dict
  nodes : (dict.inorder.map Pair.node).Nodup
  ascending : Ascending (keyOf boxes) dict.inorder
  entries : ∀ data value, live data = some value ↔
    ∃ pair ∈ dict.inorder, boxes pair.key = data ∧ pair.value = value

/-- In addition no box of the dictionary has been freed. -/
structure Sound (valid : Tree Color Pair → Prop) (system : System kind) : Prop
    extends Maps valid system.heap.data system.dict system.live where
  stored : ∀ pair ∈ system.dict.inorder,
    Allocated system.heap pair.key ∧ Allocated system.heap pair.value

theorem sboxNewDict_sound (keeps : KeepsOrder rbtree valid) (heap : Heap kind) :
    Sound valid (sboxNewDict heap) where
  valid := keeps.nil
  nodes := nodup_nil
  ascending := List.Pairwise.nil
  entries _ _ := ⟨nofun, fun ⟨_, member, _⟩ => absurd member not_mem_nil⟩
  stored _ member := absurd member not_mem_nil

theorem Maps.node_inj (maps : Maps valid boxes dict live) {first second : Pair}
    (one : first ∈ dict.inorder) (two : second ∈ dict.inorder)
    (same : first.node = second.node) : first = second :=
  inj_on_of_nodup_map maps.nodes one two same

theorem Maps.key_inj (maps : Maps valid boxes dict live) {first second : Pair}
    (one : first ∈ dict.inorder) (two : second ∈ dict.inorder)
    (same : boxes first.key = boxes second.key) : first = second := by
  have found := (search_eq_some_iff maps.ascending).mpr ⟨one, same⟩
  have other := (search_eq_some_iff maps.ascending).mpr
    ⟨two, (rfl : keyOf boxes second = boxes second.key)⟩
  exact Option.some.inj (found.symm.trans other)

theorem Maps.search_eq (maps : Maps valid boxes dict live) (data : Data kind) :
    (search (keyOf boxes) data dict).map Pair.value = live data := by
  cases found : search (keyOf boxes) data dict with
  | some pair =>
    obtain ⟨member, same⟩ := (search_eq_some_iff maps.ascending).mp found
    exact ((maps.entries data pair.value).mpr ⟨pair, member, same, rfl⟩).symm
  | none =>
    have absent := (search_eq_none_iff maps.ascending).mp found
    rw [Option.map_none, eq_comm, Option.eq_none_iff_forall_not_mem]
    intro value present
    obtain ⟨pair, member, same, -⟩ := (maps.entries data value).mp present
    exact absent pair member same

theorem Maps.new (maps : Maps valid boxes dict live) {box : Nat} (data : Data kind)
    (fresh : box ∉ dict.inorder.map Pair.key) :
    Maps valid (fun other => if other = box then data else boxes other) dict live := by
  have kept : ∀ pair ∈ dict.inorder,
      (if pair.key = box then data else boxes pair.key) = boxes pair.key := by
    intro pair member
    apply if_neg
    rintro rfl
    exact fresh (mem_map_of_mem member)
  exact { maps with
    ascending := by
      apply maps.ascending.imp_of_mem
      intro first second one two below
      unfold keyOf
      dsimp only
      rw [kept first one, kept second two]
      exact below
    entries := by
      intro other value
      rw [maps.entries]
      constructor
      · rintro ⟨pair, member, same, stored⟩
        exact ⟨pair, member, (kept pair member).trans same, stored⟩
      · rintro ⟨pair, member, same, stored⟩
        exact ⟨pair, member, (kept pair member).symm.trans same, stored⟩ }

theorem Maps.overwrites (keeps : KeepsOrder rbtree valid) (maps : Maps valid boxes dict live)
    {pair : Pair} (member : pair ∈ dict.inorder)
    (same : boxes pair.key = boxes key) (value : Nat) :
    Maps valid boxes (dict.map (overwrite pair.node key value))
      (assign (boxes key) (some value) live) := by
  have node : ∀ other, (overwrite pair.node key value other).node = other.node := by
    intro other
    unfold overwrite
    split
    · next here => exact here.symm
    · rfl
  have kept : ∀ other ∈ dict.inorder,
      boxes (overwrite pair.node key value other).key = boxes other.key := by
    intro other listed
    unfold overwrite
    split
    · next here => rw [maps.node_inj listed member here, same]
    · rfl
  have list : (dict.map (overwrite pair.node key value)).inorder =
      dict.inorder.map (overwrite pair.node key value) := Tree.inorder_map _ _
  exact {
    valid := keeps.update _ _ maps.valid node
    nodes := by
      have nodes : Pair.node ∘ overwrite pair.node key value = Pair.node := funext node
      rw [list, map_map, nodes]
      exact maps.nodes
    ascending := by
      rw [list, Ascending, pairwise_map]
      apply maps.ascending.imp_of_mem
      intro first second one two below
      unfold keyOf
      rw [kept first one, kept second two]
      exact below
    entries := by
      intro data stored
      unfold assign
      rw [list]
      constructor
      · intro present
        split at present
        · next here =>
            refine ⟨overwrite pair.node key value pair, mem_map_of_mem member, ?_, ?_⟩
            · rw [kept pair member, same, here]
            · rw [overwrite, if_pos rfl]
              exact Option.some.inj present
        · next elsewhere =>
            obtain ⟨other, listed, found, holds⟩ := (maps.entries data stored).mp present
            refine ⟨overwrite pair.node key value other, mem_map_of_mem listed, ?_, ?_⟩
            · rw [kept other listed, found]
            · rw [overwrite, if_neg]
              · exact holds
              · intro here
                rw [maps.node_inj listed member here, same] at found
                exact elsewhere found.symm
      · rintro ⟨changed, mapped, found, holds⟩
        obtain ⟨other, listed, rfl⟩ := mem_map.mp mapped
        rw [kept other listed] at found
        by_cases here : other.node = pair.node
        · rw [maps.node_inj listed member here, same] at found
          rw [overwrite, if_pos here] at holds
          rw [if_pos found.symm, ← holds]
        · rw [overwrite, if_neg here] at holds
          rw [if_neg]
          · exact (maps.entries data stored).mpr ⟨other, listed, found, holds⟩
          · intro equal
            apply here
            rw [maps.key_inj listed member ((found.trans equal).trans same.symm)] }

theorem Maps.nodes_link (maps : Maps valid boxes dict live) {new : Pair}
    (fresh : new.node ∉ dict.inorder.map Pair.node) :
    ((link (keyOf boxes) .red new dict).inorder.map Pair.node).Nodup := by
  have perm := (link_linked (keyOf boxes) .red new dict).perm
  exact (perm.map Pair.node).nodup_iff.mpr (nodup_cons.mpr ⟨fresh, maps.nodes⟩)

theorem Maps.links (keeps : KeepsOrder rbtree valid) (maps : Maps valid boxes dict live) {new : Pair}
    (absent : ∀ pair ∈ dict.inorder, boxes pair.key ≠ boxes new.key)
    (fresh : new.node ∉ dict.inorder.map Pair.node) :
    Maps valid boxes (rbtree.insertColor new.node (link (keyOf boxes) .red new dict))
      (assign (boxes new.key) (some new.value) live) := by
  have linked := link_linked (keyOf boxes) .red new dict
  have perm := linked.perm
  have nodes := maps.nodes_link fresh
  obtain ⟨stillValid, inorder⟩ := keeps.insertColor _ _ _ maps.valid linked nodes
  exact {
    valid := stillValid
    nodes := by
      rw [inorder]
      exact nodes
    ascending := by
      rw [inorder]
      exact link_ascending maps.ascending absent
    entries := by
      intro data value
      unfold assign
      rw [inorder]
      constructor
      · intro present
        split at present
        · next here =>
            exact ⟨new, perm.mem_iff.mpr mem_cons_self, here.symm, Option.some.inj present⟩
        · obtain ⟨pair, member, rest⟩ := (maps.entries data value).mp present
          exact ⟨pair, perm.mem_iff.mpr (mem_cons_of_mem _ member), rest⟩
      · rintro ⟨pair, member, rfl, rfl⟩
        rcases mem_cons.mp (perm.mem_iff.mp member) with rfl | member
        · exact if_pos rfl
        · rw [if_neg (absent pair member)]
          exact (maps.entries _ _).mpr ⟨pair, member, rfl, rfl⟩ }

theorem Maps.erases (keeps : KeepsOrder rbtree valid) (maps : Maps valid boxes dict live) {pair : Pair}
    (member : pair ∈ dict.inorder) :
    Maps valid boxes (rbtree.erase pair.node dict) (assign (boxes pair.key) none live) := by
  obtain ⟨stillValid, inorder⟩ := keeps.erase _ _ maps.valid maps.nodes member
  have sublist : (dict.inorder.filter fun other => other.node ≠ pair.node).Sublist
      dict.inorder := filter_sublist
  exact {
    valid := stillValid
    nodes := by
      rw [inorder]
      exact (sublist.map Pair.node).nodup maps.nodes
    ascending := by
      rw [inorder]
      exact maps.ascending.sublist sublist
    entries := by
      intro data value
      unfold assign
      rw [inorder]
      constructor
      · intro present
        split at present
        · cases present
        · next elsewhere =>
            obtain ⟨other, listed, found, holds⟩ := (maps.entries data value).mp present
            refine ⟨other, mem_filter.mpr ⟨listed, decide_eq_true ?_⟩, found, holds⟩
            intro here
            rw [maps.node_inj listed member here] at found
            exact elsewhere found.symm
      · rintro ⟨other, kept, found, holds⟩
        obtain ⟨listed, differs⟩ := mem_filter.mp kept
        rw [if_neg]
        · exact (maps.entries data value).mpr ⟨other, listed, found, holds⟩
        · intro equal
          apply of_decide_eq_true differs
          rw [maps.key_inj listed member (found.trans equal)] }

theorem Maps.forgets (maps : Maps valid boxes dict live)
    (found : search (keyOf boxes) (boxes key) dict = none) :
    Maps valid boxes dict (assign (boxes key) none live) := by
  have absent := maps.search_eq (boxes key)
  rw [found] at absent
  have same : assign (boxes key) none live = live := by
    ext data : 1
    unfold assign
    split
    · next here => rw [here]; exact absent
    · rfl
  rw [same]
  exact maps

/-! ## Calls -/

theorem Sound.dictGet_eq (sound : Sound valid system) (passed : Allocated system.heap key)
    (right : Compares system.heap.data key system.dict) :
    dictGet system.heap key system.dict =
      some (search (keyOf system.heap.data) (system.heap.data key) system.dict, system.heap) :=
  Sbox.dictGet_eq right passed fun pair member => (sound.stored pair member).1

/-- A state with the same keys, in which the boxes of the dictionary are allocated. -/
theorem Maps.sound (maps : Maps valid boxes dict live)
    (same : after.data = boxes)
    (stored : ∀ pair ∈ dict.inorder, Allocated after pair.key ∧ Allocated after pair.value) :
    Sound valid ⟨after, dict, live⟩ := by
  subst same
  exact { maps with stored := stored }

theorem overwrite_inorder (tree : Tree Color Pair) (node key value : Nat) :
    (tree.map (overwrite node key value)).inorder = tree.inorder.map (overwrite node key value) :=
  Tree.inorder_map _ _

theorem Sound.insert (keeps : KeepsOrder rbtree valid) (sound : Sound valid system)
    {value malloc : Option Nat} (admits : Admits fuel system (.insert key value malloc)) :
    ∃ after, step rbtree fuel system (.insert key value malloc) = some after ∧
      Sound valid after ∧ after.heap.data = system.heap.data := by
  obtain ⟨⟨⟨hasValue, memory, fresh⟩, passed, owned⟩, compares⟩ := admits
  obtain ⟨value, rfl⟩ := Option.isSome_iff_exists.mp hasValue
  have right : Compares system.heap.data key system.dict := compares key rfl
  have owned := owned value rfl
  rw [step, sboxDictInsert, sound.dictGet_eq passed right]
  dsimp only [Option.bind_eq_bind, Option.bind_some]
  cases found : search (keyOf system.heap.data) (system.heap.data key) system.dict with
  | some pair =>
    obtain ⟨member, same⟩ := (search_eq_some_iff sound.ascending).mp found
    have same : system.heap.data pair.key = system.heap.data key := same
    rw [found] at owned
    dsimp only at owned ⊢
    split
    · next differs =>
        obtain ⟨after, done, kept, stored⟩ := (owned.resolve_left differs).releases
        obtain ⟨middle, first, second⟩ := Option.bind_eq_some_iff.mp done
        rw [foldlM_one] at second
        rw [first, Option.bind_some, second]
        have maps := sound.overwrites keeps member same value
        refine ⟨_, rfl, maps.sound kept ?_, kept⟩
        rw [overwrite_inorder]
        exact stored
    · next equal =>
        have stored : system.live (system.heap.data key) = some value := by
          rw [← sound.search_eq, found, Option.map_some, not_not.mp equal]
        have live : assign (system.heap.data key) (some value) system.live = system.live := by
          ext data : 1
          unfold assign
          split
          · next here => rw [here, stored]
          · rfl
        refine ⟨_, rfl, ?_, rfl⟩
        rw [live]
        exact sound
  | none =>
    have absent := (search_eq_none_iff sound.ascending).mp found
    have some : malloc.isSome := memory.resolve_right fun ⟨pair, member, same⟩ =>
      absent pair member same
    obtain ⟨node, rfl⟩ := Option.isSome_iff_exists.mp some
    let new : Pair := ⟨node, key, value⟩
    have nodes : new.node ∉ system.dict.inorder.map Pair.node := fresh node rfl
    rw [found] at owned
    dsimp only at owned ⊢
    rw [@dictInsert_eq _ _ _ new right passed (fun pair member => (sound.stored pair member).1)
      absent]
    have linked := link_linked (keyOf system.heap.data) .red new system.dict
    have inorder := (keeps.insertColor _ _ _ sound.valid linked (sound.nodes_link nodes)).2
    have maps := @Maps.links _ _ _ _ _ _ keeps sound.toMaps new absent nodes
    refine ⟨_, rfl, maps.sound rfl ?_, rfl⟩
    intro pair member
    rw [inorder, linked.perm.mem_iff, mem_cons] at member
    rcases member with rfl | member
    · exact ⟨passed, owned⟩
    · exact sound.stored pair member

theorem Sound.get (sound : Sound valid system) (admits : Admits fuel system (.get key)) :
    ∃ after, sboxDictGet fuel system key = some (system.live (system.heap.data key), after) ∧
      Sound valid { system with heap := after } ∧ after.data = system.heap.data := by
  obtain ⟨⟨-, passed, spares⟩, compares⟩ := admits
  obtain ⟨after, done, kept, stored⟩ := spares.releases
  rw [foldlM_one] at done
  rw [sboxDictGet, sound.dictGet_eq passed (compares key rfl), ← sound.search_eq]
  dsimp only [Option.bind_eq_bind, Option.bind_some]
  rw [done]
  exact ⟨after, rfl, sound.toMaps.sound kept stored, kept⟩

theorem Sound.del (keeps : KeepsOrder rbtree valid) (sound : Sound valid system)
    (admits : Admits fuel system (.del key)) :
    ∃ after, step rbtree fuel system (.del key) = some after ∧
      Sound valid after ∧ after.heap.data = system.heap.data := by
  obtain ⟨⟨-, passed, spares⟩, compares⟩ := admits
  rw [step, sboxDictDel, sound.dictGet_eq passed (compares key rfl)]
  dsimp only [Option.bind_eq_bind, Option.bind_some]
  cases found : search (keyOf system.heap.data) (system.heap.data key) system.dict with
  | some pair =>
    obtain ⟨member, same⟩ := (search_eq_some_iff sound.ascending).mp found
    have same : system.heap.data pair.key = system.heap.data key := same
    rw [found] at spares
    obtain ⟨after, done, kept, stored⟩ := spares.releases
    obtain ⟨middle, first, done⟩ := Option.bind_eq_some_iff.mp done
    obtain ⟨last, second, third⟩ := Option.bind_eq_some_iff.mp done
    rw [foldlM_one] at third
    dsimp only
    rw [first, Option.bind_some, second, Option.bind_some, third, ← same]
    refine ⟨_, rfl, (sound.erases keeps member).sound kept ?_, kept⟩
    rw [(keeps.erase _ _ sound.valid sound.nodes member).2]
    exact stored
  | none =>
    rw [found] at spares
    obtain ⟨after, done, kept, stored⟩ := spares.releases
    rw [foldlM_one] at done
    dsimp only
    rw [done]
    exact ⟨_, rfl, (sound.forgets found).sound kept stored, kept⟩

end CLibs.Sbox
