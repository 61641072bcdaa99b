import Mathlib.Data.List.Basic

/-!
# Rotation of log files

`do_file_rotate_by_size` of `file_output.c` and `mmap_output.c`, which have the same text.
A directory maps names to files.  A name is cut to 254 characters, so that long paths make
names equal.
-/

namespace CLibs.Logs

variable {File : Type}

/-- What the names of the rotated files are made of. -/
structure Rotation where
  filePath : List Char
  logName : List Char
  numFiles : Int

variable {rotation : Rotation}

/-- `"%s/%s.log"` in `MAX_FILE_PATH - 1` bytes -/
def Rotation.current (rotation : Rotation) : List Char :=
  (rotation.filePath ++ '/' :: rotation.logName ++ ".log".toList).take 254

def Rotation.backup (rotation : Rotation) (i : Nat) : List Char :=
  (rotation.filePath ++ '/' :: rotation.logName ++ ".log.".toList ++ Nat.toDigits 10 i).take 254

abbrev Directory (File : Type) := List Char → Option File

def Directory.put (files : Directory File) (name : List Char) (file : File) : Directory File :=
  fun other => if other = name then some file else files other

/-- `rename`; without an old file, or to itself, it changes nothing. -/
def rename (files : Directory File) (old new : List Char) : Directory File :=
  match files old with
  | none => files
  | some file =>
    if old = new then files
    else fun other => if other = new then some file else if other = old then none else files other

/-- The first loop: how many backups there are, at most the given number more. -/
def countBackups (rotation : Rotation) (files : Directory File) : Nat → Nat → Nat
  | 0, i => i
  | limit + 1, i =>
    match files (rotation.backup i) with
    | none => i
    | some _ => countBackups rotation files limit (i + 1)

/-- The second loop, downwards from the given number. -/
def renameFiles (rotation : Rotation) (files : Directory File) : Nat → Directory File
  | 0 =>
    if 0 = rotation.numFiles then files
    else rename files rotation.current (rotation.backup 0)
  | i + 1 =>
    renameFiles rotation
      (if ((i + 1 : Nat) : Int) = rotation.numFiles then files
        else rename files (rotation.backup i) (rotation.backup (i + 1))) i

def doFileRotateBySize (rotation : Rotation) (files : Directory File) : Directory File :=
  if rotation.numFiles ≤ 0 then files
  else renameFiles rotation files (countBackups rotation files rotation.numFiles.toNat 0)

/-! ## What a directory holds -/

/-- The names of the log and of its backups are different. -/
structure Rotation.Distinct (rotation : Rotation) : Prop where
  current : ∀ i < rotation.numFiles.toNat, rotation.backup i ≠ rotation.current
  backups : ∀ i < rotation.numFiles.toNat, ∀ j < rotation.numFiles.toNat,
    rotation.backup i = rotation.backup j → i = j

/-- The log, the backups with the newest one first, and nothing else. -/
structure Rotation.Holds (rotation : Rotation) (files : Directory File) (backups : List File)
    (log : Option File) : Prop where
  log : files rotation.current = log
  stored : ∀ i < rotation.numFiles.toNat, files (rotation.backup i) = backups[i]?
  few : backups.length ≤ rotation.numFiles.toNat
  others : ∀ name, name ≠ rotation.current →
    (∀ i < rotation.numFiles.toNat, name ≠ rotation.backup i) → files name = none

variable {files : Directory File} {backups : List File} {log : Option File}

theorem Rotation.Holds.put (holds : rotation.Holds files backups log)
    (distinct : rotation.Distinct) (file : File) :
    rotation.Holds (files.put rotation.current file) backups (some file) where
  log := if_pos rfl
  stored i small := (if_neg (distinct.current i small)).trans (holds.stored i small)
  few := holds.few
  others name notCurrent notBackup := (if_neg notCurrent).trans (holds.others name notCurrent notBackup)

theorem Rotation.Holds.countBackups_eq (holds : rotation.Holds files backups log) {limit i : Nat}
    (bound : limit + i = rotation.numFiles.toNat) (below : i ≤ backups.length) :
    countBackups rotation files limit i = backups.length := by
  have few := holds.few
  induction limit generalizing i with
  | zero =>
    rw [countBackups]
    omega
  | succ limit ih =>
    rw [countBackups, holds.stored i (by omega)]
    by_cases inside : i < backups.length
    · rw [List.getElem?_eq_getElem inside]
      exact ih (by omega) inside
    · rw [List.getElem?_eq_none (by omega)]
      dsimp only
      omega

/-! ## Renaming -/

theorem rename_apply {old new name : List Char} {file : File} (found : files old = some file)
    (ne : old ≠ new) :
    rename files old new name =
      if name = new then some file else if name = old then none else files name := by
  rw [rename, found]
  dsimp only
  rw [if_neg ne]

theorem renameFiles_apply (distinct : rotation.Distinct) {i : Nat}
    (inside : i < rotation.numFiles.toNat)
    (present : ∀ j < i, (files (rotation.backup j)).isSome) {file : File}
    (log : files rotation.current = some file) :
    renameFiles rotation files i rotation.current = none ∧
      (∀ j < rotation.numFiles.toNat, renameFiles rotation files i (rotation.backup j) =
        if j = 0 then some file else if j ≤ i then files (rotation.backup (j - 1))
          else files (rotation.backup j)) ∧
      ∀ name, name ≠ rotation.current → (∀ j < rotation.numFiles.toNat, name ≠ rotation.backup j) →
        renameFiles rotation files i name = files name := by
  induction i generalizing files with
  | zero =>
    have ne := (distinct.current 0 inside).symm
    rw [renameFiles, if_neg (by omega)]
    refine ⟨?_, ?_, ?_⟩
    · rw [rename_apply log ne, if_neg ne, if_pos rfl]
    · intro j small
      rw [rename_apply log ne]
      by_cases first : j = 0
      · rw [if_pos (congrArg rotation.backup first), if_pos first]
      · rw [if_neg fun same => first (distinct.backups j small 0 inside same),
          if_neg (distinct.current j small), if_neg first, if_neg (by omega)]
    · intro name notCurrent notBackup
      rw [rename_apply log ne, if_neg (notBackup 0 inside), if_neg notCurrent]
  | succ i ih =>
    obtain ⟨moved, found⟩ := Option.isSome_iff_exists.mp (present i (Nat.lt_succ_self i))
    have ne : rotation.backup i ≠ rotation.backup (i + 1) := fun same =>
      Nat.succ_ne_self i (distinct.backups i (by omega) (i + 1) inside same).symm
    have apply := fun name => @rename_apply _ _ _ _ name _ found ne
    have lower : ∀ j < i, rename files (rotation.backup i) (rotation.backup (i + 1))
        (rotation.backup j) = files (rotation.backup j) := by
      intro j below
      rw [apply, if_neg fun same => by
          have := distinct.backups j (by omega) (i + 1) inside same
          omega,
        if_neg fun same => by
          have := distinct.backups j (by omega) i (by omega) same
          omega]
    have current : rename files (rotation.backup i) (rotation.backup (i + 1)) rotation.current =
        files rotation.current := by
      rw [apply, if_neg (distinct.current (i + 1) inside).symm,
        if_neg (distinct.current i (by omega)).symm]
    obtain ⟨emptied, shifted, others⟩ := @ih
      (rename files (rotation.backup i) (rotation.backup (i + 1))) (by omega)
      (fun j below => by rw [lower j below]; exact present j (by omega)) (current.trans log)
    rw [renameFiles, if_neg (by omega)]
    refine ⟨emptied, ?_, ?_⟩
    · intro j small
      rw [shifted j small]
      by_cases first : j = 0
      · rw [if_pos first, if_pos first]
      · rw [if_neg first, if_neg first]
        by_cases below : j ≤ i
        · rw [if_pos below, if_pos (by omega), lower (j - 1) (by omega)]
        · rw [if_neg below, apply]
          by_cases last : j = i + 1
          · rw [if_pos (congrArg rotation.backup last), if_pos (by omega), last,
              Nat.add_sub_cancel, found]
          · rw [if_neg fun same => last (distinct.backups j small (i + 1) inside same),
              if_neg fun same => by
                have := distinct.backups j small i (by omega) same
                omega,
              if_neg (by omega)]
    · intro name notCurrent notBackup
      rw [others name notCurrent notBackup, apply, if_neg (notBackup (i + 1) inside),
        if_neg (notBackup i (by omega))]

theorem Rotation.Holds.rotate {file : File} (holds : rotation.Holds files backups (some file))
    (distinct : rotation.Distinct) (positive : 0 < rotation.numFiles) :
    rotation.Holds (doFileRotateBySize rotation files)
      ((file :: backups).take rotation.numFiles.toNat) none := by
  have few := holds.few
  have count := holds.countBackups_eq (Nat.add_zero _) (Nat.zero_le _)
  -- the place of the backup that becomes the last one
  obtain ⟨place, bound, renamed⟩ : ∃ place, place = min backups.length (rotation.numFiles.toNat - 1) ∧
      doFileRotateBySize rotation files = renameFiles rotation files place := by
    refine ⟨_, rfl, ?_⟩
    rw [doFileRotateBySize, if_neg (by omega), count]
    by_cases full : backups.length = rotation.numFiles.toNat
    · obtain ⟨least, succ⟩ : ∃ least, backups.length = least + 1 := ⟨backups.length - 1, by omega⟩
      rw [succ, renameFiles, if_pos (by omega), Nat.min_eq_right (by omega)]
      congr 1
      omega
    · rw [Nat.min_eq_left (by omega)]
  have present : ∀ j < place, (files (rotation.backup j)).isSome := by
    intro j below
    rw [holds.stored j (by omega), List.getElem?_eq_getElem (by omega)]
    rfl
  obtain ⟨emptied, shifted, others⟩ := renameFiles_apply distinct (by omega) present holds.log
  rw [renamed]
  exact {
    log := emptied
    stored := by
      intro j small
      rw [shifted j small, List.getElem?_take_of_lt small]
      cases j with
      | zero => rfl
      | succ j =>
        rw [if_neg (Nat.succ_ne_zero j), List.getElem?_cons_succ]
        split
        · exact holds.stored j (by omega)
        · rw [holds.stored (j + 1) small, List.getElem?_eq_none (by omega),
            List.getElem?_eq_none (by omega)]
    few := List.length_take_le _ _
    others := by
      intro name notCurrent notBackup
      rw [others name notCurrent notBackup]
      exact holds.others name notCurrent notBackup }

end CLibs.Logs
