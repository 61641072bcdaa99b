import Mathlib.Data.List.Infix

/-!
# Paths below a directory

`path_concat` writes a path behind a directory, has the text resolved, and compares the result with
the resolved directory as text.  A name that goes on behind the name of the directory passes the
comparison as well; `path_concat_confines_iff` says that nothing else does.
-/

namespace CLibs.Paths

abbrev Path := List UInt8

def pathMax : Nat := 4096

def slash : UInt8 := 0x2F

/-- `realpath`: the resolved path, or `errno`. -/
abbrev Realpath := Path → Except Int Path

/-- `strncmp` of two strings, which end with a NUL. -/
def strncmp : (n : Nat) → (first second : Path) → Int
  | 0, _, _ => 0
  | n + 1, first, second =>
    let c := first.headD 0
    let d := second.headD 0
    if c ≠ d then (c.toNat : Int) - d.toNat
    else if c = 0 then 0
    else strncmp n first.tail second.tail

/-- `path_realpath`: what is returned, and the resolved path if there is one. -/
def pathRealpath (realpath : Realpath) (path : Path) : Int × Option Path :=
  match realpath path with
  | .ok resolved => (0, some resolved)
  | .error errno => (errno, none)

/-- `path_concat`: what is returned, and what `fullpath` holds if it has been written. -/
def pathConcat (realpath : Realpath) (path localdir : Path) : Int × Option Path :=
  let userpath := localdir ++ path
  let (r, fullpath) :=
    if 0 < userpath.length ∧ userpath.length < pathMax - 1 then pathRealpath realpath userpath
    else (-1, none)
  let (r, userpath) := if r ≠ 0 then (r, none) else pathRealpath realpath localdir
  if r ≠ 0 then (r, fullpath)
  else
    let userpath := userpath.getD []
    (strncmp userpath.length userpath (fullpath.getD []), fullpath)

/-! ## What the program relies on -/

/-- What `realpath` returns. -/
structure Resolved (path : Path) : Prop where
  absolute : path.head? = some slash
  noSlash : path = [slash] ∨ path.getLast? ≠ some slash
  noNul : (0 : UInt8) ∉ path

/-- What `realpath` is documented to return. -/
structure Resolves (realpath : Realpath) : Prop where
  resolved : ∀ path resolved, realpath path = .ok resolved → Resolved resolved
  errno : ∀ path errno, realpath path = .error errno → errno ≠ 0

/-- The directory itself, or something in it. -/
def Inside (directory path : Path) : Prop :=
  path = directory ∨ directory = [slash] ∧ path.head? = some slash ∨
    directory ++ [slash] <+: path

/-- What `path_concat` lets through lies inside the directory. -/
def Confines (realpath : Realpath) (path localdir : Path) : Prop :=
  ∀ fullpath, pathConcat realpath path localdir = (0, fullpath) →
    ∃ directory full, realpath localdir = .ok directory ∧ fullpath = some full ∧
      Inside directory full

/-- The path begins with the directory and goes on in the middle of a name. -/
def GoesOn (directory path : Path) : Prop :=
  directory ≠ [slash] ∧ ∃ c rest, path = directory ++ c :: rest ∧ c ≠ slash

/-! ## The comparison -/

theorem strncmp_eq_zero_iff {first second : Path} (noNul : (0 : UInt8) ∉ first) :
    strncmp first.length first second = 0 ↔ first <+: second := by
  induction first generalizing second with
  | nil => simp [strncmp]
  | cons c first ih =>
    rw [List.mem_cons, not_or] at noNul
    have visible : c ≠ 0 := Ne.symm noNul.1
    cases second with
    | nil =>
      have positive : c.toNat ≠ 0 := fun zero => visible (UInt8.toNat_inj.mp zero)
      simp [strncmp, visible, positive]
    | cons d second =>
      by_cases same : c = d
      · subst same
        simp [strncmp, visible, ih noNul.2]
      · have differ : (c.toNat : Int) - d.toNat ≠ 0 := by
          intro zero
          exact same (UInt8.toNat_inj.mp (by omega))
        simp [strncmp, same, differ]

theorem prefix_iff {directory path : Path} (resolved : Resolved directory) (full : Resolved path) :
    directory <+: path ↔ Inside directory path ∨ GoesOn directory path := by
  constructor
  · rintro ⟨behind, rfl⟩
    by_cases root : directory = [slash]
    · exact .inl (.inr (.inl ⟨root, full.absolute⟩))
    · cases behind with
      | nil => exact .inl (.inl (List.append_nil directory))
      | cons c rest =>
        by_cases inside : c = slash
        · subst inside
          exact .inl (.inr (.inr ⟨rest, by simp⟩))
        · exact .inr ⟨root, c, rest, rfl, inside⟩
  · rintro ((rfl | ⟨rfl, absolute⟩ | ⟨rest, rfl⟩) | ⟨-, c, rest, rfl, -⟩)
    · exact List.prefix_rfl
    · cases path with
      | nil => cases absolute
      | cons c rest =>
        obtain rfl := Option.some.inj absolute
        exact ⟨rest, rfl⟩
    · exact ⟨slash :: rest, by simp⟩
    · exact ⟨c :: rest, rfl⟩

theorem not_inside_of_goesOn {directory path : Path} (goesOn : GoesOn directory path) :
    ¬Inside directory path := by
  obtain ⟨noRoot, c, rest, rfl, other⟩ := goesOn
  rintro (same | ⟨root, -⟩ | ⟨more, same⟩)
  · have length := congrArg List.length same
    simp at length
  · exact noRoot root
  · rw [List.append_assoc] at same
    have behind := List.append_cancel_left same
    exact other (List.cons.inj behind).1.symm

/-! ## The function -/

theorem pathConcat_zero_iff {realpath : Realpath} (resolves : Resolves realpath)
    {path localdir : Path} {fullpath : Option Path} :
    pathConcat realpath path localdir = (0, fullpath) ↔
      (0 < (localdir ++ path).length ∧ (localdir ++ path).length < pathMax - 1) ∧
      ∃ directory full, realpath localdir = .ok directory ∧
        realpath (localdir ++ path) = .ok full ∧ fullpath = some full ∧ directory <+: full := by
  unfold pathConcat
  by_cases fits : 0 < (localdir ++ path).length ∧ (localdir ++ path).length < pathMax - 1
  · simp only [fits, and_self, if_true, true_and]
    cases found : realpath (localdir ++ path) with
    | error errno =>
      have nonzero := resolves.errno _ _ found
      simp [pathRealpath, found, nonzero]
    | ok full =>
      cases known : realpath localdir with
      | error errno =>
        have nonzero := resolves.errno _ _ known
        simp [pathRealpath, found, known, nonzero]
      | ok directory =>
        have compared := @strncmp_eq_zero_iff directory full
          (resolves.resolved _ _ known).noNul
        simp only [pathRealpath, found, known]
        constructor
        · intro returned
          obtain ⟨zero, written⟩ := Prod.mk.inj returned
          exact ⟨directory, full, rfl, rfl, written.symm, compared.mp zero⟩
        · rintro ⟨_, _, same, sameFull, rfl, begins⟩
          obtain rfl := Except.ok.inj same
          obtain rfl := Except.ok.inj sameFull
          exact congrArg (fun r => (r, some full)) (compared.mpr begins)
  · dsimp only
    rw [if_neg fits]
    constructor
    · intro returned
      cases returned
    · intro both
      exact absurd both.1 fits

/-- The path is confined unless it resolves to a name that goes on behind the directory's. -/
theorem path_concat_confines_iff {realpath : Realpath} (resolves : Resolves realpath)
    (path localdir : Path) :
    Confines realpath path localdir ↔
      ¬((0 < (localdir ++ path).length ∧ (localdir ++ path).length < pathMax - 1) ∧
        ∃ directory full, realpath localdir = .ok directory ∧
          realpath (localdir ++ path) = .ok full ∧ GoesOn directory full) := by
  constructor
  · rintro confines ⟨fits, directory, full, known, found, goesOn⟩
    have begins := (prefix_iff (resolves.resolved _ _ known) (resolves.resolved _ _ found)).mpr
      (.inr goesOn)
    obtain ⟨other, whole, same, written, inside⟩ := confines (some full)
      ((pathConcat_zero_iff resolves).mpr ⟨fits, directory, full, known, found, rfl, begins⟩)
    rw [known] at same
    obtain rfl := Except.ok.inj same
    obtain rfl := Option.some.inj written
    exact not_inside_of_goesOn goesOn inside
  · intro confined fullpath returned
    obtain ⟨fits, directory, full, known, found, written, begins⟩ :=
      (pathConcat_zero_iff resolves).mp returned
    refine ⟨directory, full, known, written, ?_⟩
    rcases (prefix_iff (resolves.resolved _ _ known) (resolves.resolved _ _ found)).mp begins with
      inside | goesOn
    · exact inside
    · exact absurd ⟨fits, directory, full, known, found, goesOn⟩ confined

/-- A file system with `/d` and `/d/x` only. -/
def oneDirectory : Realpath := fun path =>
  if path = [slash, 0x64] ∨ path = [slash, 0x64, slash] then .ok [slash, 0x64]
  else if path = [slash, 0x64, slash, 0x78] then .ok [slash, 0x64, slash, 0x78]
  else .error 2

/-- A file system in which two kinds of paths are known. -/
theorem resolves_ite {first second : Path} {isFirst isSecond : Path → Prop}
    [DecidablePred isFirst] [DecidablePred isSecond] (firstResolved : Resolved first)
    (secondResolved : Resolved second) :
    Resolves fun path =>
      if isFirst path then .ok first else if isSecond path then .ok second else .error 2 where
  resolved := by
    intro path resolved returned
    split at returned
    · rwa [← Except.ok.inj returned]
    · split at returned
      · rwa [← Except.ok.inj returned]
      · cases returned
  errno := by
    intro path errno returned
    split at returned
    · cases returned
    · split at returned
      · cases returned
      · obtain rfl := Except.error.inj returned
        decide

theorem oneDirectory_resolves : Resolves oneDirectory :=
  resolves_ite ⟨rfl, by decide, by decide⟩ ⟨rfl, by decide, by decide⟩

/-- The path `x` in the directory `/d/`. -/
theorem path_concat_confines_iff_file :
    Resolves oneDirectory ∧ Confines oneDirectory [0x78] [slash, 0x64, slash] := by
  refine ⟨oneDirectory_resolves, (path_concat_confines_iff oneDirectory_resolves _ _).mpr ?_⟩
  rintro ⟨-, directory, full, known, found, -, c, rest, whole, other⟩
  obtain rfl := Except.ok.inj known
  obtain rfl := Except.ok.inj found
  exact other (List.cons.inj (@List.append_cancel_left _ [slash, 0x64] _ _ whole)).1.symm

/-- A file system with the directories `/d` and `/dx`. -/
def twoDirectories : Realpath := fun path =>
  if path = [slash, 0x64] then .ok [slash, 0x64]
  else if path = [slash, 0x64, 0x78] then .ok [slash, 0x64, 0x78]
  else .error 2

/-- The path `x` in the directory `/d` gets to `/dx`. -/
theorem path_concat_goes_on :
    ¬∀ realpath : Realpath, Resolves realpath → ∀ path localdir : Path,
      Confines realpath path localdir := by
  intro confines
  have resolves : Resolves twoDirectories :=
    resolves_ite ⟨rfl, by decide, by decide⟩ ⟨rfl, by decide, by decide⟩
  have through : pathConcat twoDirectories [0x78] [slash, 0x64] = (0, some [slash, 0x64, 0x78]) := by
    decide
  obtain ⟨directory, full, known, written, inside⟩ :=
    confines twoDirectories resolves [0x78] [slash, 0x64] _ through
  obtain rfl := Except.ok.inj known
  obtain rfl := Option.some.inj written
  exact not_inside_of_goesOn ⟨by decide, 0x78, [], rfl, by decide⟩ inside

end CLibs.Paths
