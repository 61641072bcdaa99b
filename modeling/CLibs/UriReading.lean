import CLibs.UriFragments

/-!
# The byte behind the text

The loop of the fragment reads one byte too many, so the parser keeps to its text exactly when it
does not come to a fragment or a zero ends the fragment inside the text.
-/

namespace CLibs.Uris

/-! ## The parser uses only its text -/

def uriParseReading (malloc : Bool) (text : List UInt8) (readAfter : Except Fault UInt8) :
    Except Fault (Option Uri) :=
  if text = [] ∨ text.head? = some 0 ∨ ¬ malloc then .ok none
  else do
    match ← uriCheck text with
    | none => pure none
    | some items => uriParseItemsReading items text readAfter

theorem uriParseReading_ok (malloc : Bool) (text : List UInt8) (after : UInt8) :
    uriParseReading malloc text (.ok after) = uriParse malloc text after := by
  simp only [uriParseReading, uriParseItemsReading_ok]
  rfl

theorem uriCheckFrom_faults (state : State) (items : Items) (text : List UInt8) {fault : Fault}
    (failed : uriCheckFrom state items text = .error fault) : fault = .assertion := by
  fun_induction uriCheckFrom state items text <;> simp_all

theorem uriCheck_faults {text : List UInt8} {fault : Fault}
    (failed : uriCheck text = .error fault) : fault = .assertion := by
  cases text with
  | nil => cases failed
  | cons c rest =>
    simp only [uriCheck] at failed
    split at failed
    · cases failed
    · split at failed
      · cases failed
      · split at failed
        · exact uriCheckFrom_faults _ _ _ failed
        · exact uriCheckFrom_faults _ _ _ failed

/-- The result does not depend on the byte behind the text, which need not be readable, and the
components stay in the block of `len + 5` bytes. -/
def UsesOnly (text : List UInt8) : Prop :=
  ∀ malloc,
    (∀ first second, uriParse malloc text first = uriParse malloc text second) ∧
    uriParseReading malloc text (.error .outside) ≠ .error .outside ∧
    ∀ after, uriParse malloc text after ≠ .error .outside

theorem uriParseReading_eq {text : List UInt8} {items : Items}
    (checked : uriCheck text = .ok (some items)) (readAfter : Except Fault UInt8) :
    uriParseReading true text readAfter =
      if text = [] then .ok none else uriParseItemsReading items text readAfter := by
  have first : text.head? ≠ some 0 := by
    cases text with
    | nil => exact nofun
    | cons c rest =>
      intro zero
      obtain rfl := Option.some.inj zero
      have refused : uriCheck (0 :: rest) = .ok none := rfl
      rw [refused] at checked
      cases checked
  by_cases nothing : text = []
  · simp [uriParseReading, nothing]
  · simp only [uriParseReading, nothing, first, checked, ok_bind, not_true_eq_false, or_self,
      if_false]

theorem uriParseItemsReading_same {items : Items} {text : List UInt8}
    (ends : ∀ fragment, HasFragment items text fragment → 0 ∈ fragment) :
    ∃ result, result ≠ .error .outside ∧
      ∀ readAfter, uriParseItemsReading items text readAfter = result := by
  by_cases something : items.hasHost = true ∧ hostStart items text = []
  · exact ⟨.error .assertion, nofun, uriParseItems_asserts something.1 something.2⟩
  rcases uriParseItems_cases something with ⟨-, refused⟩ | ⟨rest, uri, used, start, fits, -, parsed⟩
  · exact ⟨.ok none, nofun, refused⟩
  by_cases sign : rest.head? = some number
  · cases rest with
    | nil => cases sign
    | cons c fragment =>
      obtain rfl := Option.some.inj sign
      have zero := ends fragment (fragmentStart_iff.mp start)
      have short := length_takeWhile (fun c => decide (c ≠ 0)) fragment
      rw [List.length_cons] at fits
      refine ⟨.ok (some (uri (some (fragment.takeWhile fun c => decide (c ≠ 0))))), nofun,
        fun readAfter => ?_⟩
      rw [parsed, parseFragmentReading, if_pos sign, List.drop_one, List.tail_cons,
        fragmentFrom_zero zero, ok_bind, keep_eq (by omega)]
      rfl
  · refine ⟨.ok (some (uri none)), nofun, fun readAfter => ?_⟩
    rw [parsed, parseFragmentReading, if_neg sign]
    rfl

theorem uriParseItemsReading_outside {items : Items} {text fragment : List UInt8}
    (has : HasFragment items text fragment) (free : 0 ∉ fragment) :
    uriParseItemsReading items text (.error .outside) = .error .outside := by
  have something : ¬(items.hasHost = true ∧ hostStart items text = []) :=
    fun nothing => has.hostStart_ne_nil nothing.2
  have start := fragmentStart_iff.mpr has
  rcases uriParseItems_cases something with ⟨none, -⟩ | ⟨rest, uri, used, found, -, -, parsed⟩
  · rw [start] at none
    cases none
  · obtain rfl := Option.some.inj (start.symm.trans found)
    rw [parsed, parseFragmentReading, if_pos List.head?_cons, List.drop_one, List.tail_cons,
      fragmentFrom_unread free]
    rfl

/-- The parser uses only the bytes of its text exactly when its components do not stand in front
of a fragment that no zero ends inside the text. -/
theorem uri_parse_uses_only_iff (text : List UInt8) :
    UsesOnly text ↔
      ¬∃ items fragment, uriCheck text = .ok (some items) ∧ HasFragment items text fragment ∧
        0 ∉ fragment := by
  constructor
  · rintro uses ⟨items, fragment, checked, has, free⟩
    have nonempty : text ≠ [] := by
      rintro rfl
      obtain ⟨scheme, userinfo, host, port, path, query, whole, -⟩ := has
      simp at whole
    apply (uses true).2.1
    rw [uriParseReading_eq checked, if_neg nonempty, uriParseItemsReading_outside has free]
  · intro without malloc
    have same : ∃ result, result ≠ .error .outside ∧
        ∀ readAfter, uriParseReading malloc text readAfter = result := by
      cases malloc with
      | false => exact ⟨.ok none, nofun, fun _ => by simp [uriParseReading]⟩
      | true =>
        cases checked : uriCheck text with
        | error fault =>
          obtain rfl := uriCheck_faults checked
          by_cases early : text = [] ∨ text.head? = some 0
          · exact ⟨.ok none, nofun, fun _ => if_pos (by tauto)⟩
          · refine ⟨.error .assertion, nofun, fun readAfter => ?_⟩
            rw [uriParseReading, if_neg (by tauto), checked]
            rfl
        | ok found =>
          cases found with
          | none =>
            refine ⟨.ok none, nofun, fun readAfter => ?_⟩
            rw [uriParseReading, checked]
            split <;> rfl
          | some items =>
            obtain ⟨result, fine, all⟩ := @uriParseItemsReading_same items text
              fun fragment has => by_contra fun free =>
                without ⟨items, fragment, checked, has, free⟩
            by_cases nothing : text = []
            · exact ⟨.ok none, nofun, fun readAfter => by
                rw [uriParseReading_eq checked, if_pos nothing]⟩
            · exact ⟨result, fine, fun readAfter => by
                rw [uriParseReading_eq checked, if_neg nothing, all]⟩
    obtain ⟨result, fine, all⟩ := same
    refine ⟨fun first second => ?_, by rwa [all], fun after => ?_⟩
    · rw [← uriParseReading_ok, ← uriParseReading_ok, all, all]
    · rwa [← uriParseReading_ok, all]

/-- The path `/` and a fragment of one letter: the fragment takes the byte behind the text. -/
theorem uri_parse_reads_behind :
    ¬UsesOnly [slash, number, 0x78] ∧
      uriParse true [slash, number, 0x78] 0 ≠ uriParse true [slash, number, 0x78] 0x79 := by
  have differ : uriParse true [slash, number, 0x78] 0 ≠ uriParse true [slash, number, 0x78] 0x79 := by
    decide
  exact ⟨fun uses => differ ((uses true).1 0 0x79), differ⟩

end CLibs.Uris
