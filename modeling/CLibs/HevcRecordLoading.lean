import CLibs.HevcRecords

/-!
# What a saved record is loaded as

Each turn of the loop takes a NAL unit off the input and puts it behind the others.  It asserts
the type of the byte behind the length, so that a NAL unit without bytes is not loaded: neither
the next length nor the next array begins with such a byte.
-/

namespace CLibs.Hevc

open List

open Avc (byteAt byteAt_eq setText setsText setsText_cons setsText_nil setText_length)

variable {input rest string : List UInt8} {strings : List (List UInt8)} {nalutype type : UInt8}
  {types : List UInt8} {state next : Loading} {contents done more : List (Nalu × List UInt8)} {n k : Nat}

/-- The entries so far, and the bytes that they point to. -/
structure Loaded (state : Loading) (contents : List (Nalu × List UInt8)) : Prop where
  count : state.numOfArrays.toNat = contents.length
  few : contents.length ≤ naluSize
  naluSized : state.nalu.size = naluSize
  dataSized : state.data.size = dataSize
  stored : ∀ j nalu string, contents[j]? = some (nalu, string) →
    state.nalu.cells j = some nalu ∧ nalu.bytes = string.length ∧
      nalu.data + nalu.bytes ≤ state.dst ∧ state.data.Holds nalu.data string

def BeginsWith (type : UInt8) (string : List UInt8) : Prop :=
  string.head?.map naluType = some type

def Loading.entry (state : Loading) (nalutype : UInt8) (string : List UInt8) : Nalu :=
  ⟨⟨string.length, state.dst⟩, (nalutype >>> 7) &&& 0x01, nalutype &&& 0x3F⟩

/-- The state behind a NAL unit. -/
def Loading.taken (state : Loading) (nalutype : UInt8) (string : List UInt8) : Loading where
  p := state.p + (2 + string.length)
  dst := state.dst + string.length
  numOfArrays := state.numOfArrays + 1
  nalu := state.nalu.written state.numOfArrays.toNat [state.entry nalutype string]
  data := state.data.written state.dst string

theorem Loaded.taken (loaded : Loaded state done) (few : done.length < naluSize)
    (fits : state.dst + string.length ≤ dataSize) :
    Loaded (state.taken nalutype string) (done ++ [(state.entry nalutype string, string)]) where
  count := by
    rw [Loading.taken, length_append, length_singleton, UInt8.toNat_add, loaded.count]
    rw [naluSize] at few
    have one : (1 : UInt8).toNat = 1 := rfl
    exact Nat.mod_eq_of_lt (by omega)
  few := by
    rw [length_append, length_singleton]
    exact few
  naluSized := loaded.naluSized
  dataSized := loaded.dataSized
  stored := by
    intro j nalu other found
    rcases Nat.lt_or_ge j done.length with before | behind
    · rw [List.getElem?_append_left before] at found
      obtain ⟨cell, width, inside, holds⟩ := loaded.stored j nalu other found
      refine ⟨?_, width, Nat.le_trans inside (Nat.le_add_right _ _), holds.written (.inl (by omega))⟩
      dsimp only [Loading.taken, Buffer.written]
      rw [loaded.count, if_neg (by omega)]
      exact cell
    · rw [List.getElem?_append_right behind] at found
      obtain ⟨here, same⟩ := List.getElem?_eq_some_iff.mp found
      rw [length_singleton] at here
      have place : j = done.length := by omega
      rw [getElem_singleton] at same
      obtain ⟨rfl, rfl⟩ := Prod.mk.inj same
      refine ⟨?_, rfl, Nat.le_refl _, Buffer.written_holds _ _ (by rw [loaded.dataSized]; exact fits)⟩
      dsimp only [Loading.taken, Buffer.written]
      rw [loaded.count, place, if_pos ⟨Nat.le_refl _, Nat.lt_succ_self _⟩, Nat.sub_self]
      rfl

theorem loadNalus_turn (loaded : Loaded state done)
    (text : input.drop state.p = setText string ++ rest) (few : done.length < naluSize)
    (fits : state.dst + string.length ≤ dataSize) (begins : BeginsWith (nalutype &&& 0x3F) string) :
    loadNalus false input nalutype (n + 1) state =
      loadNalus false input nalutype n (state.taken nalutype string) ∧
    input.drop (state.taken nalutype string).p = rest := by
  have size : dataSize = 4096 := rfl
  have lengths := congrArg List.length text
  rw [length_drop, length_append, setText_length] at lengths
  have bytes : setText string = UInt8.ofNat (string.length / 256) :: UInt8.ofNat string.length ::
      string := rfl
  rw [bytes] at text
  have high : input[state.p]? = some (UInt8.ofNat (string.length / 256)) := by
    rw [← Nat.add_zero state.p, ← List.getElem?_drop, text]
    rfl
  have low : input[state.p + 1]? = some (UInt8.ofNat string.length) := by
    rw [← List.getElem?_drop, text]
    rfl
  have len : (UInt8.ofNat (string.length / 256)).toNat * 256 + (UInt8.ofNat string.length).toNat =
      string.length := by
    rw [UInt8.toNat_ofNat', UInt8.toNat_ofNat']
    omega
  have after : input.drop (state.p + 2) = string ++ rest := by
    rw [← drop_drop, text]
    rfl
  cases string with
  | nil => exact absurd begins nofun
  | cons header tail =>
    have first : input[state.p + 2]? = some header := by
      rw [← Nat.add_zero (state.p + 2), ← List.getElem?_drop, after]
      rfl
    have same : nalutype &&& 0x3F = naluType header := (Option.some.inj begins).symm
    have typed : assertType false (nalutype &&& 0x3F) (byteAt input (state.p + 2)) = .ok () := by
      rw [byteAt_eq first]
      exact check_eq same
    constructor
    · have free := loaded.count
      rw [loadNalus, if_neg (by omega), if_neg (by omega), byteAt_eq high, ok_bind, byteAt_eq low,
        ok_bind]
      dsimp only
      rw [len, if_neg (by omega), typed, ok_bind, after, take_left' rfl,
        Buffer.store_eq (by rw [loaded.naluSized, length_singleton]; omega), ok_bind,
        Buffer.store_eq (by rw [loaded.dataSized]; exact fits), ok_bind]
      rfl
    · rw [Loading.taken, ← Nat.add_assoc, ← drop_drop, after, drop_left' rfl]

theorem loadNalus_eq (loaded : Loaded state done) (text : input.drop state.p = setsText strings ++ rest)
    (few : done.length + strings.length ≤ naluSize)
    (fits : state.dst + strings.flatten.length ≤ dataSize)
    (begins : ∀ string ∈ strings, BeginsWith (nalutype &&& 0x3F) string) :
    ∃ next more, loadNalus false input nalutype strings.length state = .ok (true, next) ∧
      Loaded next (done ++ more) ∧ more.map Prod.snd = strings ∧
      (∀ item ∈ more, item.1.type = nalutype &&& 0x3F) ∧ input.drop next.p = rest ∧
      next.p = state.p + (setsText strings).length ∧ next.dst = state.dst + strings.flatten.length := by
  induction strings generalizing state done with
  | nil =>
    refine ⟨state, [], rfl, ?_, rfl, nofun, text, rfl, rfl⟩
    rw [append_nil]
    exact loaded
  | cons string strings ih =>
    rw [setsText_cons, append_assoc] at text
    rw [length_cons] at few
    rw [flatten_cons, length_append] at fits
    obtain ⟨turn, behind⟩ := @loadNalus_turn input (setsText strings ++ rest) string nalutype state done
      strings.length loaded text (by omega) (by omega) (begins string mem_cons_self)
    have after := @Loaded.taken string nalutype state done loaded (by omega) (by omega)
    obtain ⟨next, more, returned, nextLoaded, same, typed, left, forward, filled⟩ :=
      ih after behind (by rw [length_append, length_singleton]; omega)
        (by rw [Loading.taken]; dsimp only; omega)
        (forall_mem_cons.mp begins).2
    rw [append_assoc] at nextLoaded
    refine ⟨next, (state.entry nalutype string, string) :: more, ?_, nextLoaded, ?_, ?_, left, ?_, ?_⟩
    · rw [length_cons, turn, returned]
    · rw [map_cons, same]
    · exact forall_mem_cons.mpr ⟨rfl, typed⟩
    · rw [forward, setsText_cons, length_append, setText_length, Loading.taken]
      dsimp only
      omega
    · rw [filled, flatten_cons, length_append, Loading.taken]
      dsimp only
      omega

/-! ## Whole records -/

theorem completeness_bit (arrayCompleteness : UInt8) :
    arrayCompleteness <<< 7 = 0 ∨ arrayCompleteness <<< 7 = 128 := by
  have all : ∀ value : Fin 256, UInt8.ofNat value <<< 7 = 0 ∨ UInt8.ofNat value <<< 7 = 128 := by
    decide +kernel
  have known := all ⟨arrayCompleteness.toNat, arrayCompleteness.toNat_lt⟩
  rwa [UInt8.ofNat_toNat] at known

theorem saved_type (listed : type ∈ naluTypes) (arrayCompleteness : UInt8) :
    (arrayCompleteness <<< 7 ||| type &&& 0x3F) &&& 0x3F = type := by
  rcases completeness_bit arrayCompleteness with clear | set
  · rw [clear]
    revert type
    decide +kernel
  · rw [set]
    revert type
    decide +kernel

theorem saved_header (listed : type ∈ naluTypes) (arrayCompleteness : UInt8) :
    naluType (arrayCompleteness <<< 7 ||| type &&& 0x3F) ∉ naluTypes := by
  rcases completeness_bit arrayCompleteness with clear | set
  · rw [clear]
    revert type
    decide +kernel
  · rw [set]
    revert type
    decide +kernel

theorem length_header {length : Nat} (small : length ≤ dataSize) :
    naluType (UInt8.ofNat (length / 256)) ∉ naluTypes := by
  have all : ∀ value : Fin 17, naluType (UInt8.ofNat value) ∉ naluTypes := by
    decide +kernel
  rw [dataSize] at small
  exact all ⟨length / 256, by omega⟩

/-- The strings in the order of their types. -/
def regrouped (types : List UInt8) (contents : List (Nalu × List UInt8)) : List (List UInt8) :=
  types.flatMap fun type => ofType type contents

theorem loadArrays_eq (ahead : input.drop state.p = nalutype :: (bigEndian 2 n ++ rest))
    (short : n < 2 ^ 16) (k : Nat) :
    loadArrays false input (k + 1) state =
      (loadNalus false input nalutype n { state with p := state.p + 3 } >>= fun result =>
        if result.1 then loadArrays false input k result.2 else return (false, result.2)) ∧
    input.drop (state.p + 3) = rest := by
  have lengths := congrArg List.length ahead
  rw [length_drop, length_cons, length_append, bigEndian_length] at lengths
  have bytes : bigEndian 2 n = [UInt8.ofNat (n / 256), UInt8.ofNat n] := rfl
  rw [bytes] at ahead
  have first : input[state.p]? = some nalutype := by
    rw [← Nat.add_zero state.p, ← List.getElem?_drop, ahead]
    rfl
  have high : input[state.p + 1]? = some (UInt8.ofNat (n / 256)) := by
    rw [← List.getElem?_drop, ahead]
    rfl
  have low : input[state.p + 2]? = some (UInt8.ofNat n) := by
    rw [← List.getElem?_drop, ahead]
    rfl
  have count : (UInt8.ofNat (n / 256)).toNat * 256 + (UInt8.ofNat n).toNat = n := by
    rw [UInt8.toNat_ofNat', UInt8.toNat_ofNat']
    omega
  constructor
  · rw [loadArrays, if_neg (by omega), byteAt_eq first, ok_bind, byteAt_eq high, ok_bind,
      byteAt_eq low, ok_bind, count]
  · rw [← drop_drop, ahead]
    rfl

theorem ofType_append (type : UInt8) (first second : List (Nalu × List UInt8)) :
    ofType type (first ++ second) = ofType type first ++ ofType type second := by
  rw [ofType, filter_append, map_append]
  rfl

theorem ofType_eq (typed : ∀ item ∈ more, item.1.type = nalutype) :
    ofType type more = if type = nalutype then more.map Prod.snd else [] := by
  by_cases same : type = nalutype
  · rw [if_pos same, ofType, filter_eq_self.mpr]
    intro item member
    rw [same, typed item member, decide_eq_true rfl]
  · rw [if_neg same, ofType, filter_eq_nil_iff.mpr, map_nil]
    intro item member
    rw [typed item member, decide_eq_true_eq]
    exact Ne.symm same

theorem regrouped_absent (absent : ofType type contents = []) :
    regrouped (type :: types) contents = regrouped types contents := by
  rw [regrouped, flatMap_cons, absent]
  rfl

theorem Loaded.seek (loaded : Loaded state done) (p : Nat) : Loaded { state with p := p } done :=
  { loaded with }

variable {text : List UInt8}

/-- The arrays are loaded in the order of their types. -/
theorem IsArrays.load (arrays : IsArrays contents types k text)
    (known : ∀ type ∈ types, type ∈ naluTypes) (distinct : types.Nodup) (loaded : Loaded state done)
    (ahead : input.drop state.p = text) (few : done.length + (regrouped types contents).length ≤ naluSize)
    (fits : state.dst + (regrouped types contents).flatten.length ≤ dataSize)
    (begins : ∀ type ∈ types, ∀ string ∈ ofType type contents, BeginsWith type string) :
    ∃ next more, loadArrays false input k state = .ok (true, next) ∧ Loaded next (done ++ more) ∧
      (∀ type, ofType type more = if type ∈ types then ofType type contents else []) ∧
      next.p = state.p + text.length := by
  induction arrays generalizing state done with
  | nil =>
    refine ⟨state, [], rfl, ?_, fun type => by simp [ofType], rfl⟩
    rw [append_nil]
    exact loaded
  | @skip type types k text absent arrays ih =>
    rw [regrouped_absent absent] at few fits
    obtain ⟨next, more, returned, nextLoaded, typed, forward⟩ :=
      ih (forall_mem_cons.mp known).2
        (nodup_cons.mp distinct).2 loaded ahead few fits
        (forall_mem_cons.mp begins).2
    refine ⟨next, more, returned, nextLoaded, fun other => ?_, forward⟩
    rw [typed other]
    by_cases equal : other = type
    · rw [equal, absent, ite_self, ite_self]
    · simp [equal]
  | @array type types k text arrayCompleteness present arrays ih =>
    have listed := known type mem_cons_self
    have header := saved_type listed arrayCompleteness
    obtain ⟨fresh, others⟩ := nodup_cons.mp distinct
    have split : regrouped (type :: types) contents =
        ofType type contents ++ regrouped types contents := flatMap_cons
    rw [split, length_append] at few
    rw [split, flatten_append, length_append] at fits
    rw [cons_append, cons_append, append_assoc] at ahead
    rw [naluSize] at few
    obtain ⟨entered, behind⟩ := loadArrays_eq ahead (by omega) k
    obtain ⟨middle, first, array, middleLoaded, same, typed, left, forward, filled⟩ :=
      @loadNalus_eq input text (ofType type contents) (arrayCompleteness <<< 7 ||| type &&& 0x3F)
        { state with p := state.p + 3 } done (loaded.seek _) behind (by rw [naluSize]; omega)
        (by dsimp only; omega) (by rw [header]; exact begins type mem_cons_self)
    rw [header] at typed
    dsimp only at forward filled
    have taken : first.length = (ofType type contents).length := by
      rw [← same, length_map]
    obtain ⟨next, more, returned, nextLoaded, regroups, through⟩ :=
      ih (forall_mem_cons.mp known).2 others middleLoaded left
        (by rw [length_append, taken, naluSize]; omega) (by omega)
        (forall_mem_cons.mp begins).2
    rw [append_assoc] at nextLoaded
    refine ⟨next, first ++ more, ?_, nextLoaded, fun other => ?_, ?_⟩
    · rw [entered, array, ok_bind]
      exact returned
    · rw [ofType_append, ofType_eq typed, same, regroups other]
      by_cases equal : other = type
      · rw [equal, if_pos rfl, if_neg fresh, if_pos mem_cons_self, append_nil]
      · simp [equal]
    · rw [through, forward]
      simp only [cons_append, append_assoc, length_cons, length_append,
        bigEndian_length]
      omega

/-! ## NAL units without bytes -/

theorem loadNalus_header
    (returned : loadNalus false input nalutype (n + 1) state = .ok (true, next)) :
    ∃ header, input[state.p + 2]? = some header ∧ nalutype &&& 0x3F = naluType header := by
  rw [loadNalus] at returned
  by_cases full : state.numOfArrays.toNat ≥ naluSize
  · rw [if_pos full] at returned
    cases returned
  rw [if_neg full] at returned
  by_cases short : state.p + 2 > input.length
  · rw [if_pos short] at returned
    cases returned
  rw [if_neg short] at returned
  obtain ⟨high, -, returned⟩ := ok_of_bind returned
  obtain ⟨low, -, returned⟩ := ok_of_bind returned
  dsimp only at returned
  by_cases outside : state.p + 2 + (high.toNat * 256 + low.toNat) > input.length ∨
      state.dst + (high.toNat * 256 + low.toNat) > dataSize
  · rw [if_pos outside] at returned
    cases returned
  rw [if_neg outside] at returned
  obtain ⟨_, typed, -⟩ := ok_of_bind returned
  rw [assertType, if_neg Bool.false_ne_true] at typed
  obtain ⟨header, found, checked⟩ := ok_of_bind typed
  refine ⟨header, ?_, ?_⟩
  · rw [byteAt] at found
    cases ahead : input[state.p + 2]? with
    | none =>
      rw [ahead] at found
      cases found
    | some byte =>
      rw [ahead] at found
      rw [Except.ok.inj found]
  · by_contra different
    rw [check_error different] at checked
    cases checked

/-- What follows NAL units of a type does not look like one more of them. -/
def Quiet (type : UInt8) (rest : List UInt8) : Prop :=
  ∀ header, rest.head? = some header → naluType header ≠ type

theorem loadNalus_nonempty (loaded : Loaded state done)
    (text : input.drop state.p = setsText strings ++ rest)
    (few : done.length + strings.length ≤ naluSize)
    (fits : state.dst + strings.flatten.length ≤ dataSize) (listed : nalutype &&& 0x3F ∈ naluTypes)
    (begins : ∀ string ∈ strings, string ≠ [] → BeginsWith (nalutype &&& 0x3F) string)
    (quiet : Quiet (nalutype &&& 0x3F) rest)
    (returned : loadNalus false input nalutype strings.length state = .ok (true, next)) :
    ∀ string ∈ strings, string ≠ [] := by
  induction strings generalizing state done with
  | nil => exact fun string member => absurd member not_mem_nil
  | cons string strings ih =>
    rw [setsText_cons, append_assoc] at text
    rw [length_cons] at few
    rw [flatten_cons, length_append] at fits
    have some : string ≠ [] := by
      rintro rfl
      obtain ⟨header, found, same⟩ := loadNalus_header returned
      rw [← Nat.add_zero (state.p + 2), ← List.getElem?_drop, ← drop_drop, text] at found
      change (setsText strings ++ rest)[0]? = _ at found
      rw [← List.head?_eq_getElem?] at found
      cases strings with
      | nil => exact quiet header found same.symm
      | cons second strings =>
        have first : header = UInt8.ofNat (second.length / 256) := (Option.some.inj found).symm
        have small : second.length ≤ dataSize := by
          rw [flatten_cons, length_append] at fits
          omega
        rw [first] at same
        exact length_header small (same ▸ listed)
    obtain ⟨turn, behind⟩ := @loadNalus_turn input (setsText strings ++ rest) string nalutype state
      done strings.length loaded text (by omega) (by omega) (begins string mem_cons_self some)
    have after := @Loaded.taken string nalutype state done loaded (by omega) (by omega)
    rw [length_cons, turn] at returned
    intro other member
    rcases mem_cons.mp member with rfl | member
    · exact some
    · exact ih after behind (by rw [length_append, length_singleton]; omega)
        (by rw [Loading.taken]; dsimp only; omega)
        (forall_mem_cons.mp begins).2 returned other member

theorem IsArrays.quiet (arrays : IsArrays contents types k text)
    (known : ∀ type ∈ types, type ∈ naluTypes) (listed : type ∈ naluTypes) : Quiet type text := by
  induction arrays with
  | nil => exact nofun
  | @skip other types k text absent arrays ih =>
    exact ih (forall_mem_cons.mp known).2
  | @array other types k text arrayCompleteness present arrays ih =>
    intro header found same
    have first : header = _ := (Option.some.inj found).symm
    rw [first] at same
    exact saved_header (known other mem_cons_self) arrayCompleteness (same ▸ listed)

theorem IsArrays.nonempty (arrays : IsArrays contents types k text)
    (known : ∀ type ∈ types, type ∈ naluTypes) (loaded : Loaded state done)
    (ahead : input.drop state.p = text) (few : done.length + (regrouped types contents).length ≤ naluSize)
    (fits : state.dst + (regrouped types contents).flatten.length ≤ dataSize)
    (begins : ∀ type ∈ types, ∀ string ∈ ofType type contents, string ≠ [] → BeginsWith type string)
    (returned : loadArrays false input k state = .ok (true, next)) :
    ∀ type ∈ types, ∀ string ∈ ofType type contents, string ≠ [] := by
  induction arrays generalizing state done with
  | nil => exact fun type member => absurd member not_mem_nil
  | @skip type types k text absent arrays ih =>
    rw [regrouped_absent absent] at few fits
    have later := ih (forall_mem_cons.mp known).2 loaded ahead
      few fits (forall_mem_cons.mp begins).2 returned
    intro other member string present
    rcases mem_cons.mp member with rfl | member
    · rw [absent] at present
      exact absurd present not_mem_nil
    · exact later other member string present
  | @array type types k text arrayCompleteness present arrays ih =>
    have listed := known type mem_cons_self
    have header := saved_type listed arrayCompleteness
    have split : regrouped (type :: types) contents =
        ofType type contents ++ regrouped types contents := flatMap_cons
    rw [split, length_append] at few
    rw [split, flatten_append, length_append] at fits
    rw [cons_append, cons_append, append_assoc] at ahead
    rw [naluSize] at few
    obtain ⟨entered, behind⟩ := loadArrays_eq ahead (by omega) k
    rw [entered] at returned
    obtain ⟨⟨through, middle⟩, array, returned⟩ := ok_of_bind returned
    cases through with
    | false => cases returned
    | true =>
      have quiet := arrays.quiet (forall_mem_cons.mp known).2
        listed
      have whole := @loadNalus_nonempty input text (ofType type contents)
        (arrayCompleteness <<< 7 ||| type &&& 0x3F) { state with p := state.p + 3 } middle done
        (loaded.seek _) behind (by rw [naluSize]; omega) (by dsimp only; omega)
        (by rw [header]; exact listed) (by rw [header]; exact begins type mem_cons_self)
        (by rw [header]; exact quiet) array
      have ones : ∀ string ∈ ofType type contents,
          BeginsWith ((arrayCompleteness <<< 7 ||| type &&& 0x3F) &&& 0x3F) string := by
        rw [header]
        exact fun string member => begins type mem_cons_self string member (whole string member)
      obtain ⟨reached, first, again, middleLoaded, same, typed, left, forward, filled⟩ :=
        @loadNalus_eq input text (ofType type contents)
          (arrayCompleteness <<< 7 ||| type &&& 0x3F) { state with p := state.p + 3 } done
          (loaded.seek _) behind (by rw [naluSize]; omega) (by dsimp only; omega) ones
      rw [array] at again
      obtain rfl : middle = reached := (Prod.mk.inj (Except.ok.inj again)).2
      have taken : first.length = (ofType type contents).length := by
        rw [← same, length_map]
      dsimp only at filled
      have later := ih (forall_mem_cons.mp known).2
        middleLoaded left (by rw [length_append, taken, naluSize]; omega) (by omega)
        (forall_mem_cons.mp begins).2 returned
      exact forall_mem_cons.mpr ⟨whole, later⟩

end CLibs.Hevc
