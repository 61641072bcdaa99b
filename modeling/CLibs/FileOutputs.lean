import CLibs.CallRefinement
import CLibs.ChannelFifo
import CLibs.LogRotation

/-!
# The file output of `file_output.c`

The output with rotation by size.  Calls of the system succeed and the directory exists.
A stream is the name of its file; what has been written to it counts as being in the file,
as `fclose` comes before every look at the size.  `log_vprintf` emits no empty message, and
a message buffer has at most 4 MiB.
-/

namespace CLibs.Logs

open List

open Channels (int32)

variable {Byte : Type}

/-- The fields that do not change. -/
structure FileConfig extends Rotation where
  fileSize : Nat

/-- The state of the output: its files and the open one. -/
structure FileOutput (Byte : Type) where
  files : Directory (List Byte)
  dataOffset : Nat
  fp : Option (List Char)

/-- `fwrite`, which appends to the file of the stream. -/
def FileOutput.fwrite (output : FileOutput Byte) (bytes : List Byte) : FileOutput Byte :=
  match output.fp with
  | none => output
  | some name =>
    { output with
      files := output.files.put name ((output.files name).getD [] ++ bytes)
      dataOffset := output.dataOffset + bytes.length }

/-- What `check_can_write_bytes` gives for a message of the given length. -/
def checkCanWriteBytes (config : FileConfig) (output : FileOutput Byte) (len : Nat) : Nat :=
  if config.fileSize > 0 then
    if config.fileSize > output.dataOffset then config.fileSize - output.dataOffset else 0
  else len

def openEmpty (config : FileConfig) (files : Directory (List Byte)) : FileOutput Byte :=
  ⟨files.put config.current [], 0, some config.current⟩

def fileRotateBySize (config : FileConfig) (files : Directory (List Byte)) : FileOutput Byte :=
  match files config.current with
  | none => openEmpty config files
  | some log =>
    if config.fileSize > 0 ∧ config.numFiles > 0 ∧ config.fileSize ≤ log.length then
      openEmpty config (doFileRotateBySize config.toRotation files)
    else if config.fileSize > 0 ∧ config.numFiles ≤ 0 ∧ config.fileSize ≤ log.length then
      openEmpty config files
    else ⟨files, log.length, some config.current⟩

def fileOpenLogfile (config : FileConfig) (output : FileOutput Byte) : FileOutput Byte :=
  fileRotateBySize config output.files

/-- The loop of `file_emit`, with the number of bytes that have been written and the number of those
that fit in the file. -/
def emitLoop (config : FileConfig) :
    Nat → FileOutput Byte → List Byte → Nat → Nat → Except Fault (Int × FileOutput Byte)
  | 0, _, _, _, _ => .error .fuel
  | fuel + 1, output, rest, totalWrite, fileLeft =>
    let nwrite := if rest.length > fileLeft then fileLeft else rest.length
    let output := if nwrite > 0 then output.fwrite (rest.take nwrite) else output
    let totalWrite := totalWrite + nwrite
    if nwrite ≥ rest.length then .ok (int32 totalWrite, output)
    else
      let output := fileOpenLogfile config output
      let rest := rest.drop nwrite
      let fileLeft := checkCanWriteBytes config output (totalWrite + rest.length)
      if fileLeft = 0 then .ok (int32 totalWrite, output)
      else emitLoop config fuel output rest totalWrite fileLeft

/-- `fwrite` of no bytes counts as a failure. -/
def fileEmit (config : FileConfig) (message : List Byte) (output : FileOutput Byte) :
    Except Fault (Int × FileOutput Byte) :=
  let output := if output.fp = none then fileOpenLogfile config output else output
  let fileLeft := checkCanWriteBytes config output message.length
  if fileLeft ≥ message.length then
    if message.length = 0 then .ok (-1, output)
    else .ok (int32 message.length, output.fwrite message)
  else emitLoop config (message.length + 1) output message 0 fileLeft

/-- `file_ctx_init` with an empty directory. -/
def fileCtxInit (config : FileConfig) : FileOutput Byte :=
  fileOpenLogfile config ⟨fun _ => none, 0, none⟩

end CLibs.Logs

/-!
## Runs of the file output

As long as the names of the log and of its backups are different, the files are the newest
bytes of all messages: what is missing are whole backups, the oldest ones, and only when
there are as many as there may be.
-/

namespace CLibs.Logs

open List

open Channels (int32 int32_eq)

variable {Byte : Type} {config : FileConfig} {output : FileOutput Byte} {pending : Nat}
  {emitted log bytes : List Byte} {backups : List (List Byte)}

/-- The files one behind the other, with the oldest backup first. -/
def concatenation (backups : List (List Byte)) (log : List Byte) : List Byte :=
  backups.reverse.flatten ++ log

/-- What is in the files when some of a message is still to be written. -/
structure Kept (config : FileConfig) (pending : Nat) (emitted : List Byte)
    (output : FileOutput Byte) (backups : List (List Byte)) (log : List Byte) : Prop where
  holds : config.Holds output.files backups (some log)
  offset : output.dataOffset = log.length
  stream : output.fp = some config.current
  full : ∀ backup ∈ backups, backup.length = config.fileSize
  small : log.length ≤ config.fileSize
  suffix : concatenation backups log <:+ emitted
  room : backups.length < config.numFiles.toNat → concatenation backups log = emitted
  all : emitted.length + pending ≤
    config.numFiles.toNat * config.fileSize + config.fileSize →
      concatenation backups log = emitted

theorem length_concatenation (full : ∀ backup ∈ backups, backup.length = config.fileSize)
    (log : List Byte) :
    (concatenation backups log).length = backups.length * config.fileSize + log.length := by
  have lengths : backups.reverse.map List.length =
      List.replicate backups.length config.fileSize := by
    rw [eq_replicate_iff]
    constructor
    · rw [length_map, length_reverse]
    · intro length member
      obtain ⟨backup, listed, rfl⟩ := mem_map.mp member
      exact full backup (mem_reverse.mp listed)
  rw [concatenation, length_append, length_flatten, lengths, sum_replicate_nat]

theorem Kept.fwrite (kept : Kept config pending emitted output backups log)
    (distinct : config.Distinct) (fits : log.length + bytes.length ≤ config.fileSize)
    (less : bytes.length ≤ pending) :
    Kept config (pending - bytes.length) (emitted ++ bytes) (output.fwrite bytes) backups
      (log ++ bytes) := by
  have written : output.fwrite bytes =
      { output with
        files := output.files.put config.current (log ++ bytes)
        dataOffset := output.dataOffset + bytes.length } := by
    rw [FileOutput.fwrite, kept.stream]
    dsimp only
    rw [kept.holds.log]
    rfl
  have longer : concatenation backups (log ++ bytes) = concatenation backups log ++ bytes :=
    (append_assoc _ _ _).symm
  rw [written]
  exact {
    holds := kept.holds.put distinct _
    offset := by
      dsimp only
      rw [kept.offset, length_append]
    stream := kept.stream
    full := kept.full
    small := by
      rw [length_append]
      exact fits
    suffix := by
      obtain ⟨lost, split⟩ := kept.suffix
      exact ⟨lost, by rw [longer, ← append_assoc, split]⟩
    room := fun free => by rw [longer, kept.room free]
    all := by
      intro few
      rw [length_append] at few
      rw [longer, kept.all (by omega)] }

theorem Kept.rotates (kept : Kept config pending emitted output backups log)
    (distinct : config.Distinct) (positive : 0 < config.fileSize) (some : 0 < config.numFiles)
    (full : log.length = config.fileSize) (more : 0 < pending) :
    Kept config pending emitted (fileOpenLogfile config output)
      ((log :: backups).take config.numFiles.toNat) [] := by
  have opened : fileOpenLogfile config output =
      openEmpty config (doFileRotateBySize config.toRotation output.files) := by
    rw [fileOpenLogfile, fileRotateBySize, kept.holds.log]
    dsimp only
    rw [if_pos ⟨positive, some, full.ge⟩]
  have few := kept.holds.few
  have lengths := length_concatenation kept.full log
  have le := kept.suffix.length_le
  -- without a free place the oldest backup goes
  have dropped : ∃ lost, concatenation backups log =
      lost ++ concatenation ((log :: backups).take config.numFiles.toNat) [] ∧
        (backups.length < config.numFiles.toNat → lost = []) := by
    have whole : concatenation backups log = (log :: backups).reverse.flatten := by
      rw [concatenation, reverse_cons, flatten_append, flatten_singleton]
    refine ⟨((log :: backups).drop config.numFiles.toNat).reverse.flatten, ?_, ?_⟩
    · rw [whole, concatenation, append_nil, ← flatten_append, ← reverse_append,
        take_append_drop]
    · intro free
      rw [drop_eq_nil_of_le (by rw [length_cons]; omega)]
      rfl
  obtain ⟨lost, split, free⟩ := dropped
  rw [opened]
  exact {
    holds := (kept.holds.rotate distinct some).put distinct []
    offset := rfl
    stream := rfl
    full := by
      intro backup member
      rcases mem_cons.mp (mem_of_mem_take member) with rfl | earlier
      · exact full
      · exact kept.full backup earlier
    small := Nat.zero_le _
    suffix := by
      refine List.IsSuffix.trans ?_ kept.suffix
      exact ⟨lost, split.symm⟩
    room := by
      intro fewer
      rw [length_take, length_cons] at fewer
      have place : backups.length < config.numFiles.toNat := by omega
      rw [free place, nil_append] at split
      rw [← split, kept.room place]
    all := by
      intro bound
      by_cases place : backups.length < config.numFiles.toNat
      · rw [free place, nil_append] at split
        rw [← split, kept.all bound]
      · have count : backups.length = config.numFiles.toNat := by omega
        rw [count, full] at lengths
        omega }

/-! ## Messages -/

/-- All of a message is in the files, and its length is returned. -/
def Emits (config : FileConfig) (emitted : List Byte) (length : Nat) :
    Int × FileOutput Byte → Prop := fun (answer, output) =>
  answer = (length : Int) ∧ ∃ backups log, Kept config 0 emitted output backups log

theorem checkCanWriteBytes_eq (positive : 0 < config.fileSize)
    (kept : Kept config pending emitted output backups log) (len : Nat) :
    checkCanWriteBytes config output len = config.fileSize - log.length := by
  have small := kept.small
  rw [checkCanWriteBytes, if_pos positive, kept.offset]
  split
  · rfl
  · omega

theorem emitLoop_emits (distinct : config.Distinct) (positive : 0 < config.fileSize)
    (some : 0 < config.numFiles) {fuel totalWrite fileLeft : Nat} {rest : List Byte}
    (kept : Kept config rest.length emitted output backups log)
    (left : fileLeft = config.fileSize - log.length) (nonempty : 0 < rest.length)
    (enough : rest.length < fuel ∨ rest.length ≤ fuel ∧ 0 < fileLeft)
    (int : totalWrite + rest.length < 2 ^ 31) :
    Yields (emitLoop config fuel output rest totalWrite fileLeft)
      (Emits config (emitted ++ rest) (totalWrite + rest.length)) := by
  induction fuel generalizing emitted output backups log totalWrite fileLeft rest with
  | zero => omega
  | succ fuel ih =>
    have small := kept.small
    rw [emitLoop]
    by_cases fits : rest.length > fileLeft
    · -- the file is filled up, and the next one is opened
      have taken : (rest.take fileLeft).length = fileLeft := by
        rw [length_take]
        omega
      have dropped : (rest.drop fileLeft).length = rest.length - fileLeft := length_drop
      obtain ⟨next, written, filled⟩ : ∃ next,
          (if fileLeft > 0 then output.fwrite (rest.take fileLeft) else output) = next ∧
            Kept config (rest.length - fileLeft) (emitted ++ rest.take fileLeft) next backups
              (log ++ rest.take fileLeft) := by
        refine ⟨_, rfl, ?_⟩
        split
        · have after := @Kept.fwrite _ _ _ _ _ _ (rest.take fileLeft) _ kept distinct
            (by omega) (by omega)
          rw [taken] at after
          exact after
        · next none =>
            obtain rfl : fileLeft = 0 := by omega
            rw [take_zero, append_nil, append_nil]
            exact kept
      have opened := filled.rotates distinct positive some
        (by rw [length_append, taken]; omega) (by omega)
      have fresh := checkCanWriteBytes_eq positive opened
      dsimp only
      rw [if_pos fits, written, if_neg (by omega), fresh, if_neg (by
        rw [length_nil]
        omega)]
      have rounds := @ih _ _ _ _ (totalWrite + fileLeft) _ (rest.drop fileLeft)
        (by rw [dropped]; exact opened) rfl (by omega)
        (.inr ⟨by omega, by rw [length_nil]; omega⟩) (by omega)
      rw [append_assoc, take_append_drop, dropped,
        show totalWrite + fileLeft + (rest.length - fileLeft) = totalWrite + rest.length by omega]
        at rounds
      exact rounds
    · have whole := @Kept.fwrite _ _ _ _ _ _ rest _ kept distinct (by omega) le_rfl
      dsimp only
      rw [if_neg fits, if_pos nonempty, if_pos le_rfl, take_length]
      rw [Nat.sub_self] at whole
      exact ⟨_, rfl, int32_eq (by omega) (by omega), _, _, whole⟩

theorem Kept.pend (kept : Kept config 0 emitted output backups log) (pending : Nat) :
    Kept config pending emitted output backups log :=
  { kept with all := fun few => kept.all (by omega) }

theorem fileEmit_emits (distinct : config.Distinct) (positive : 0 < config.fileSize)
    (some : 0 < config.numFiles) {message : List Byte}
    (kept : Kept config 0 emitted output backups log) (nonempty : message ≠ [])
    (int : message.length < 2 ^ 31) :
    Yields (fileEmit config message output) (Emits config (emitted ++ message) message.length) := by
  have length := length_pos_iff.mpr nonempty
  have left := checkCanWriteBytes_eq positive kept message.length
  have small := kept.small
  have stream : ¬output.fp = none := by
    rw [kept.stream]
    exact Option.some_ne_none _
  rw [fileEmit, if_neg stream, left]
  by_cases fits : config.fileSize - log.length ≥ message.length
  · have whole := (kept.pend message.length).fwrite distinct (by omega) le_rfl
    rw [Nat.sub_self] at whole
    rw [if_pos fits, if_neg (by omega)]
    exact ⟨_, rfl, int32_eq (by omega) (by omega), _, _, whole⟩
  · have rounds := emitLoop_emits distinct positive some (kept.pend message.length) rfl length
      (.inl (Nat.lt_succ_self _)) (by rw [Nat.zero_add]; exact int)
    rw [if_neg fits]
    rw [Nat.zero_add] at rounds
    exact rounds

/-! ## Runs -/

theorem holds_empty (rotation : Rotation) :
    rotation.Holds (fun _ => none : Directory (List Byte)) [] none where
  log := rfl
  stored _ _ := rfl
  few := Nat.zero_le _
  others _ _ _ := rfl

theorem fileCtxInit_kept (distinct : config.Distinct) :
    Kept config 0 ([] : List Byte) (fileCtxInit config) [] [] where
  holds := (holds_empty config.toRotation).put distinct []
  offset := rfl
  stream := rfl
  full := nofun
  small := Nat.zero_le _
  suffix := suffix_rfl
  room _ := rfl
  all _ := rfl

/-- The files are full backups and a log, and together the newest bytes of what was emitted; all of
it, as long as it fits. -/
structure Newest (config : FileConfig) (emitted : List Byte) (output : FileOutput Byte)
    (backups : List (List Byte)) (log : List Byte) : Prop where
  holds : config.Holds output.files backups (some log)
  few : backups.length ≤ config.numFiles.toNat
  full : ∀ backup ∈ backups, backup.length = config.fileSize
  small : log.length ≤ config.fileSize
  suffix : concatenation backups log <:+ emitted
  all : emitted.length ≤ config.numFiles.toNat * config.fileSize + config.fileSize →
    concatenation backups log = emitted
  oldest : concatenation backups log ≠ emitted → backups.length = config.numFiles.toNat

theorem modelCalls_lengths (messages : List (List Byte)) (emitted : List Byte) :
    modelCalls (fun message emitted => ((message.length : Int), emitted ++ message)) messages
      emitted = (messages.map fun message => (message.length : Int), emitted ++ messages.flatten) := by
  induction messages generalizing emitted with
  | nil => simp [modelCalls]
  | cons message messages ih => simp [modelCalls, ih]

/-- Every sequence of messages is emitted, and the files are the newest bytes of it. -/
theorem fileEmit_newest (distinct : config.Distinct) (positive : 0 < config.fileSize)
    (some : 0 < config.numFiles) {messages : List (List Byte)}
    (emittable : ∀ message ∈ messages, message ≠ [] ∧ message.length < 2 ^ 31) :
    Yields (runCalls (fileEmit config) messages (fileCtxInit config)) fun (answers, output) =>
      answers = messages.map (fun message => (message.length : Int)) ∧
        ∃ backups log, Newest config messages.flatten output backups log := by
  have run := @runCalls_simulates _ _ _ _ (fileEmit config)
    (fun message emitted => ((message.length : Int), emitted ++ message))
    (fun output emitted => ∃ backups log, Kept config 0 emitted output backups log)
    (fun message => message ≠ [] ∧ message.length < 2 ^ 31)
    (fun message output emitted allowed related => by
      obtain ⟨backups, log, kept⟩ := related
      exact fileEmit_emits distinct positive some kept allowed.1 allowed.2)
    messages (fileCtxInit config) [] emittable ⟨[], [], fileCtxInit_kept distinct⟩
  rw [modelCalls_lengths] at run
  refine run.mono ?_
  rintro ⟨answers, output⟩ ⟨same, backups, log, kept⟩
  refine ⟨same, backups, log, ?_⟩
  exact {
    holds := kept.holds
    few := kept.holds.few
    full := kept.full
    small := kept.small
    suffix := kept.suffix
    all := fun bound => kept.all bound
    oldest := by
      intro lost
      have few := kept.holds.few
      by_contra free
      exact lost (kept.room (by omega)) }

/-- Two backups of two bytes. -/
theorem fileEmit_newest_two :
    Yields (runCalls (fileEmit ⟨⟨['d'], ['a'], 2⟩, 2⟩) [[1, 2, 3], [4], [5, 6, 7, 8]]
      (fileCtxInit ⟨⟨['d'], ['a'], 2⟩, 2⟩)) fun (answers, output) => answers = [3, 1, 4] ∧
        ∃ backups log, Newest ⟨⟨['d'], ['a'], 2⟩, 2⟩ [1, 2, 3, 4, 5, 6, 7, 8] output backups log :=
  fileEmit_newest ⟨by decide, by decide⟩ (by decide) (by decide) (by decide)

/-- One backup of one byte, in a directory whose path has 300 characters. -/
def longConfig : FileConfig where
  filePath := '/' :: List.replicate 99 'a' ++ '/' :: List.replicate 99 'b' ++
    '/' :: List.replicate 99 'c'
  logName := ['a']
  numFiles := 1
  fileSize := 1

/-- There the log and its backup have one name, so that the first of two bytes is lost. -/
theorem fileEmit_loses : ¬∀ (config : FileConfig) (messages : List (List Nat)),
    0 < config.fileSize → 0 < config.numFiles →
    (∀ message ∈ messages, message ≠ [] ∧ message.length < 2 ^ 31) →
    Yields (runCalls (fileEmit config) messages (fileCtxInit config)) fun (answers, output) =>
      answers = messages.map (fun message => (message.length : Int)) ∧
        ∃ backups log, Newest config messages.flatten output backups log := by
  intro newest
  obtain ⟨⟨answers, output⟩, -, -, backups, log, kept⟩ :=
    newest longConfig [[1], [2]] (by decide) (by decide) (by decide)
  have same : longConfig.backup 0 = longConfig.current := by decide +kernel
  have first : backups[0]? = some log := by
    rw [← kept.holds.stored 0 (by decide), same, kept.holds.log]
  have few : backups.length ≤ 1 := kept.few
  cases backups with
  | nil => cases first
  | cons backup rest =>
    obtain rfl : backup = log := Option.some.inj first
    obtain rfl : rest = [] := eq_nil_of_length_eq_zero (Nat.le_zero.mp (Nat.le_of_succ_le_succ few))
    have all : [backup].reverse.flatten ++ backup = [1, 2] := kept.all (by decide)
    have full : backup.length = 1 := kept.full backup mem_cons_self
    obtain ⟨byte, rfl⟩ := length_eq_one_iff.mp full
    cases all

end CLibs.Logs
