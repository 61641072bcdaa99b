import CLibs.CallRefinement
import CLibs.ChannelFifo
import CLibs.LogRotation
import Mathlib.Data.Nat.Bitwise

/-!
# The mapped output of `mmap_output.c`

The output with rotation by size.  Calls of the system succeed and the directory exists.  A
directory has the lengths of the files; an offset is a length that `ftruncate` has made, so
that sums of offsets do not overflow.  The events of a call are the mappings, with their
offsets, and the copies into the window.  `log_vprintf` emits no message of more than 4 MiB.
-/

namespace CLibs.Logs

open List

open Channels (int32)

variable {Byte : Type}

/-- The fields that do not change. -/
structure MmapConfig extends Rotation where
  fileSize : Nat
  mapSize : Nat
  pageSize : Nat

/-- The state of the output: its files and the window into the open one. -/
structure MmapOutput where
  files : Directory Nat
  isOpen : Bool
  mmapOffset : Nat
  windowSize : Nat
  dataOffset : Nat

/-- A window that is mapped, and bytes that are copied into it. -/
inductive Event (Byte : Type)
  | map (offset : Nat)
  | copy (windowSize offset : Nat) (bytes : List Byte)

def roundUp (size pageSize : Nat) : Nat := Nat.ldiff (size + pageSize - 1) (pageSize - 1)

/-- The same for the 32 bits of `map_size`. -/
def windowOf (config : MmapConfig) : Nat :=
  Nat.ldiff ((config.mapSize + config.pageSize - 1) % 2 ^ 32) (config.pageSize - 1)

/-- `mmap_map_file`, and whether it succeeds; the difference of the sizes wraps around. -/
def mmapMapFile (config : MmapConfig) (output : MmapOutput) : Bool × MmapOutput :=
  let mmapOffset := roundUp output.mmapOffset config.pageSize
  let left := (config.fileSize + 2 ^ 64 - mmapOffset) % 2 ^ 64
  let windowSize :=
    if config.fileSize > 0 ∧ windowOf config > left then roundUp left config.pageSize
    else windowOf config
  if windowSize = 0 then
    (false, { output with mmapOffset := mmapOffset, windowSize := 0, dataOffset := 0 })
  else
    (true, { output with
      files := output.files.put config.current (mmapOffset + windowSize)
      mmapOffset := mmapOffset + windowSize
      windowSize := windowSize % 2 ^ 32
      dataOffset := 0 })

/-- `open` of the log, which makes an empty file if there is none. -/
def openLog (config : MmapConfig) (files : Directory Nat) (offset : Nat) : MmapOutput :=
  ⟨files.put config.current ((files config.current).getD 0), true, offset, 0, 0⟩

def mmapRotateBySize (config : MmapConfig) (files : Directory Nat) : MmapOutput :=
  match files config.current with
  | none => openLog config files 0
  | some length =>
    if config.fileSize > 0 ∧ config.numFiles > 0 ∧ config.fileSize ≤ length then
      openLog config (doFileRotateBySize config.toRotation files) 0
    else if config.fileSize > 0 ∧ config.numFiles ≤ 0 ∧ config.fileSize ≤ length then
      openLog config (files.put config.current 0) 0
    else openLog config files length

/-- `file_open_logfile`; when the mapping fails the file is closed again. -/
def mmapOpenLogfile (config : MmapConfig) (output : MmapOutput) : Bool × MmapOutput :=
  match mmapMapFile config (mmapRotateBySize config output.files) with
  | (true, output) => (true, output)
  | (false, output) => (false, { output with isOpen := false })

/-- What `check_can_write_bytes` gives for a message of the given length. -/
def mmapFileLeft (config : MmapConfig) (output : MmapOutput) (len : Nat) : Nat :=
  if config.fileSize > 0 then
    if config.fileSize > output.mmapOffset then config.fileSize - output.mmapOffset else 0
  else len

def MmapOutput.mmapLeft (output : MmapOutput) : Nat := output.windowSize - output.dataOffset

/-- `memcpy` to the place in the window -/
def MmapOutput.memcpy (output : MmapOutput) (bytes : List Byte) : Event Byte × MmapOutput :=
  (.copy output.windowSize output.dataOffset bytes,
    { output with dataOffset := output.dataOffset + bytes.length })

/-- The loop of `mmap_emit`, with the bytes that are left to write and the number of those written. -/
def mmapLoop (config : MmapConfig) : Nat → MmapOutput → List Byte → Nat → Nat → Nat →
    Except Fault ((Int × List (Event Byte)) × MmapOutput)
  | 0, _, _, _, _, _ => .error .fuel
  | fuel + 1, output, rest, totalWrite, fileLeft, mmapLeft =>
    let nwrite := if rest.length > fileLeft then fileLeft else rest.length
    let nwrite := if mmapLeft > nwrite then nwrite else mmapLeft
    let (copies, output) :=
      if nwrite > 0 then
        let (copy, output) := output.memcpy (rest.take nwrite)
        ([copy], output)
      else ([], output)
    let totalWrite := totalWrite + nwrite
    if nwrite ≥ rest.length then .ok ((int32 totalWrite, copies), output)
    else
      let rest := rest.drop nwrite
      let (mapped, output) :=
        if fileLeft = 0 then mmapOpenLogfile config output else mmapMapFile config output
      if mapped then
        let copies := copies ++ [.map (output.mmapOffset - output.windowSize)]
        let mmapLeft := output.mmapLeft
        let fileLeft := mmapFileLeft config output (totalWrite + rest.length)
        if fileLeft = 0 then .ok ((int32 totalWrite, copies), output)
        else do
          let ((answer, events), output) ←
            mmapLoop config fuel output rest totalWrite fileLeft mmapLeft
          .ok ((answer, copies ++ events), output)
      else .ok ((int32 totalWrite, copies), output)

def mmapEmit (config : MmapConfig) (message : List Byte) (output : MmapOutput) :
    Except Fault ((Int × List (Event Byte)) × MmapOutput) :=
  let (isOpen, output) := if output.isOpen then (true, output) else mmapOpenLogfile config output
  if isOpen then
    let fileLeft := mmapFileLeft config output message.length
    if fileLeft ≥ message.length ∧ output.mmapLeft ≥ message.length then
      let (copy, output) := output.memcpy message
      .ok ((int32 message.length, [copy]), output)
    else mmapLoop config (message.length + 1) output message 0 fileLeft output.mmapLeft
  else .ok ((-1, []), output)

/-- `mmap_ctx_init` with an empty directory; without a window there is no output. -/
def mmapCtxInit (config : MmapConfig) : Option MmapOutput :=
  match mmapOpenLogfile config ⟨fun _ => none, false, 0, 0, 0⟩ with
  | (true, output) => some output
  | (false, _) => none

end CLibs.Logs

/-!
## Runs of the mapped output

The bytes behind the end of the window count as free, but not those of a window that ends
at or behind the end of the file: a message is cut at the last window that ends before it.
-/

namespace CLibs.Logs

open List

open Channels (int32 int32_eq)

variable {Byte : Type} {config : MmapConfig} {output : MmapOutput} {message : List Byte}

/-! ## Pages -/

theorem ldiff_mask (size bits : Nat) : Nat.ldiff size (2 ^ bits - 1) = size / 2 ^ bits * 2 ^ bits := by
  apply Nat.eq_of_testBit_eq
  intro bit
  rw [Nat.testBit_ldiff, Nat.testBit_two_pow_sub_one, Nat.testBit_mul_two_pow, Nat.testBit_div_two_pow]
  by_cases low : bit < bits
  · simp [low]
  · simp [low, Nat.le_of_not_lt low]

/-- The sizes fit their types, and a page has a power of two many bytes. -/
structure MmapConfig.Proper (config : MmapConfig) : Prop where
  page : ∃ bits, config.pageSize = 2 ^ bits
  file : 0 < config.fileSize
  fits : config.fileSize < 2 ^ 64
  files : 0 < config.numFiles

theorem MmapConfig.Proper.pos (proper : config.Proper) : 0 < config.pageSize := by
  obtain ⟨bits, page⟩ := proper.page
  rw [page]
  exact Nat.two_pow_pos bits

theorem MmapConfig.Proper.roundUp_eq (proper : config.Proper) (size : Nat) :
    roundUp size config.pageSize = (size + config.pageSize - 1) / config.pageSize * config.pageSize := by
  obtain ⟨bits, page⟩ := proper.page
  rw [roundUp, page, ldiff_mask]

theorem MmapConfig.Proper.le_roundUp (proper : config.Proper) (size : Nat) :
    size ≤ roundUp size config.pageSize := by
  have pos := proper.pos
  have division := Nat.div_add_mod (size + config.pageSize - 1) config.pageSize
  have small := Nat.mod_lt (size + config.pageSize - 1) pos
  rw [proper.roundUp_eq, Nat.mul_comm]
  omega

theorem MmapConfig.Proper.dvd_roundUp (proper : config.Proper) (size : Nat) :
    config.pageSize ∣ roundUp size config.pageSize := by
  rw [proper.roundUp_eq]
  exact Nat.dvd_mul_left _ _

theorem MmapConfig.Proper.roundUp_le (proper : config.Proper) {size bound : Nat} (le : size ≤ bound)
    (pages : config.pageSize ∣ bound) : roundUp size config.pageSize ≤ bound := by
  have pos := proper.pos
  obtain ⟨count, rfl⟩ := pages
  rw [proper.roundUp_eq, Nat.mul_comm]
  apply Nat.mul_le_mul_left
  rw [Nat.div_le_iff_le_mul_add_pred pos]
  omega

theorem MmapConfig.Proper.roundUp_self (proper : config.Proper) {size : Nat}
    (pages : config.pageSize ∣ size) : roundUp size config.pageSize = size :=
  Nat.le_antisymm (proper.roundUp_le le_rfl pages) (proper.le_roundUp size)

theorem MmapConfig.Proper.dvd_windowOf (proper : config.Proper) :
    config.pageSize ∣ windowOf config := by
  obtain ⟨bits, page⟩ := proper.page
  rw [windowOf, page, ldiff_mask]
  exact Nat.dvd_mul_left _ _

theorem MmapConfig.Proper.windowOf_lt (proper : config.Proper) : windowOf config < 2 ^ 32 := by
  obtain ⟨bits, page⟩ := proper.page
  rw [windowOf, page, ldiff_mask]
  exact (Nat.div_mul_le_self _ _).trans_lt (Nat.mod_lt _ (Nat.two_pow_pos 32))

/-! ## Windows -/

structure Mapped (config : MmapConfig) (output : MmapOutput) : Prop where
  isOpen : output.isOpen = true
  length : output.files config.current = some output.mmapOffset
  pages : config.pageSize ∣ output.mmapOffset
  inside : output.dataOffset ≤ output.windowSize
  window : 0 < windowOf config

theorem mmapMapFile_eq (proper : config.Proper) (window : 0 < windowOf config)
    (pages : config.pageSize ∣ output.mmapOffset) (inside : output.mmapOffset < config.fileSize)
    (isOpen : output.isOpen = true) :
    ∃ next, mmapMapFile config output = (true, next) ∧ Mapped config next ∧ next.dataOffset = 0 ∧
      next.mmapOffset = output.mmapOffset + next.windowSize ∧
      (output.mmapOffset + windowOf config < config.fileSize →
        next.windowSize = windowOf config) ∧
      (config.fileSize ≤ output.mmapOffset + windowOf config →
        config.fileSize ≤ next.mmapOffset) := by
  have fits := proper.fits
  have left : (config.fileSize + 2 ^ 64 - output.mmapOffset) % 2 ^ 64 =
      config.fileSize - output.mmapOffset := by
    omega
  obtain ⟨size, is⟩ : ∃ size, size =
      if config.fileSize > 0 ∧ windowOf config > config.fileSize - output.mmapOffset then
        roundUp (config.fileSize - output.mmapOffset) config.pageSize
      else windowOf config := ⟨_, rfl⟩
  have small := proper.windowOf_lt
  have sizes : 0 < size ∧ size < 2 ^ 32 ∧ config.pageSize ∣ size ∧
      (output.mmapOffset + windowOf config < config.fileSize → size = windowOf config) ∧
      (config.fileSize ≤ output.mmapOffset + windowOf config →
        config.fileSize ≤ output.mmapOffset + size) := by
    rw [is]
    split
    · next shorter =>
        have least := proper.le_roundUp (config.fileSize - output.mmapOffset)
        have most := proper.roundUp_le (Nat.le_of_lt shorter.2) proper.dvd_windowOf
        refine ⟨by omega, by omega, proper.dvd_roundUp _, by omega, by omega⟩
    · next notShorter =>
        refine ⟨window, small, proper.dvd_windowOf, fun _ => rfl, by omega⟩
  obtain ⟨positive, few, paged, whole, last⟩ := sizes
  refine ⟨{ output with
    files := output.files.put config.current (output.mmapOffset + size)
    mmapOffset := output.mmapOffset + size
    windowSize := size % 2 ^ 32
    dataOffset := 0 }, ?_, ?_⟩
  · rw [mmapMapFile, proper.roundUp_self pages, left]
    rw [← is, if_neg (by omega)]
  · rw [Nat.mod_eq_of_lt few]
    exact ⟨⟨isOpen, if_pos rfl, (Nat.dvd_add_right pages).mpr paged, Nat.zero_le _, window⟩, rfl, rfl,
      whole, last⟩

theorem mmapOpenLogfile_eq (proper : config.Proper) (mapped : Mapped config output)
    (past : config.fileSize ≤ output.mmapOffset) :
    ∃ next, mmapOpenLogfile config output = (true, next) ∧ Mapped config next ∧ next.dataOffset = 0 ∧
      next.mmapOffset = next.windowSize ∧
      (windowOf config < config.fileSize → next.windowSize = windowOf config) ∧
      (config.fileSize ≤ windowOf config → config.fileSize ≤ next.mmapOffset) := by
  have rotated : mmapRotateBySize config output.files =
      openLog config (doFileRotateBySize config.toRotation output.files) 0 := by
    rw [mmapRotateBySize, mapped.length]
    dsimp only
    rw [if_pos ⟨proper.file, proper.files, past⟩]
  obtain ⟨next, opened, fresh, start, finish, whole, last⟩ := @mmapMapFile_eq config
    (openLog config (doFileRotateBySize config.toRotation output.files) 0) proper mapped.window
    (Nat.dvd_zero _) proper.file rfl
  rw [show (openLog config (doFileRotateBySize config.toRotation output.files) 0).mmapOffset = 0
    from rfl, Nat.zero_add] at finish whole last
  refine ⟨next, ?_, fresh, start, finish, whole, last⟩
  rw [mmapOpenLogfile, rotated, opened]

/-! ## Messages -/

/-- The number of bytes of a message that are written before it is cut. -/
def room (config : MmapConfig) (output : MmapOutput) : Nat :=
  if config.fileSize ≤ output.mmapOffset then config.fileSize - windowOf config
  else
    min (config.fileSize - output.mmapOffset) (output.windowSize - output.dataOffset) +
      (config.fileSize - output.mmapOffset - windowOf config)

def copied (events : List (Event Byte)) : List Byte :=
  events.flatMap fun
    | .map _ => []
    | .copy _ _ bytes => bytes

/-- Neither file nor window is exceeded. -/
def Inside (config : MmapConfig) : Event Byte → Prop
  | .map offset => offset ≤ config.fileSize
  | .copy windowSize offset bytes => offset + bytes.length ≤ windowSize

/-- The first bytes of the message are written, and their number is returned. -/
def Sends (config : MmapConfig) (sent : List Byte) (total : Nat) :
    (Int × List (Event Byte)) × MmapOutput → Prop := fun ((answer, events), output) =>
  answer = (total : Int) ∧ copied events = sent ∧ (∀ event ∈ events, Inside config event) ∧
    Mapped config output

theorem copied_append (first second : List (Event Byte)) :
    copied (first ++ second) = copied first ++ copied second :=
  flatMap_append

theorem mmapFileLeft_eq (proper : config.Proper) (output : MmapOutput) (len : Nat) :
    mmapFileLeft config output len = config.fileSize - output.mmapOffset := by
  rw [mmapFileLeft, if_pos proper.file]
  split <;> omega

theorem Mapped.memcpy (mapped : Mapped config output) {bytes : List Byte}
    (fits : output.dataOffset + bytes.length ≤ output.windowSize) :
    Mapped config (output.memcpy bytes).2 :=
  { mapped with inside := fits }

theorem Mapped.copy (mapped : Mapped config output) {nwrite : Nat} {rest : List Byte}
    (fits : output.dataOffset + nwrite ≤ output.windowSize) (enough : nwrite ≤ rest.length) :
    ∃ copies next,
      (if nwrite > 0 then
        let (copy, output) := output.memcpy (rest.take nwrite)
        ([copy], output)
      else ([], output)) = (copies, next) ∧
        copied copies = rest.take nwrite ∧ (∀ event ∈ copies, Inside config event) ∧
        Mapped config next ∧ next.mmapOffset = output.mmapOffset := by
  have length : (rest.take nwrite).length = nwrite := by
    rw [length_take]
    omega
  by_cases some : nwrite > 0
  · refine ⟨_, _, if_pos some, ?_, ?_, mapped.memcpy (by rw [length]; exact fits), rfl⟩
    · exact append_nil _
    · intro event member
      rw [mem_singleton.mp member]
      change output.dataOffset + (rest.take nwrite).length ≤ output.windowSize
      rw [length]
      exact fits
  · obtain rfl : nwrite = 0 := by omega
    exact ⟨_, _, if_neg some, rfl, nofun, mapped, rfl⟩

theorem room_mapped {start : Nat} {next : MmapOutput} (fresh : next.dataOffset = 0)
    (finish : next.mmapOffset = start + next.windowSize)
    (whole : start + windowOf config < config.fileSize → next.windowSize = windowOf config)
    (more : next.mmapOffset < config.fileSize)
    (last : config.fileSize ≤ start + windowOf config → config.fileSize ≤ next.mmapOffset) :
    room config next = config.fileSize - start - windowOf config := by
  have size := whole (by omega)
  rw [room, if_neg (by omega), fresh]
  omega

theorem add_min_rest {total taken length later : Nat} (few : taken ≤ length) :
    total + taken + min (length - taken) later = total + min length (taken + later) := by
  omega

theorem min_of_done {taken length left window extra : Nat}
    (is : taken = min (min length left) window) (done : taken ≥ length) :
    min length (min left window + extra) = taken ∧ taken = length := by
  omega

theorem min_of_more {taken length left window : Nat}
    (is : taken = min (min length left) window) (more : ¬taken ≥ length) :
    taken = min left window := by
  omega

theorem mmapLoop_sends (proper : config.Proper) {fuel totalWrite mmapLeft : Nat} {rest : List Byte}
    (mapped : Mapped config output) (inFile : output.mmapOffset < config.fileSize)
    (window : mmapLeft = output.windowSize - output.dataOffset) (nonempty : 0 < rest.length)
    (enough : rest.length < fuel ∨ rest.length ≤ fuel ∧ 0 < mmapLeft)
    (int : totalWrite + rest.length < 2 ^ 31) :
    Yields (mmapLoop config fuel output rest totalWrite (config.fileSize - output.mmapOffset) mmapLeft)
      (Sends config (rest.take (room config output))
        (totalWrite + min rest.length (room config output))) := by
  induction fuel generalizing output totalWrite mmapLeft rest with
  | zero => omega
  | succ fuel ih =>
    have capacity : room config output =
        min (config.fileSize - output.mmapOffset) mmapLeft +
          (config.fileSize - output.mmapOffset - windowOf config) := by
      rw [room, if_neg (by omega), window]
    obtain ⟨nwrite, is⟩ : ∃ nwrite, nwrite = min (min rest.length
      (config.fileSize - output.mmapOffset)) mmapLeft := ⟨_, rfl⟩
    have smaller : (if rest.length > config.fileSize - output.mmapOffset then
        config.fileSize - output.mmapOffset else rest.length) =
          min rest.length (config.fileSize - output.mmapOffset) := by
      split <;> omega
    have smallest : (if mmapLeft > min rest.length (config.fileSize - output.mmapOffset) then
        min rest.length (config.fileSize - output.mmapOffset) else mmapLeft) = nwrite := by
      split <;> omega
    have bounds := mapped.inside
    have fits : output.dataOffset + nwrite ≤ output.windowSize := by omega
    have few : nwrite ≤ rest.length := by omega
    obtain ⟨copies, after, written, bytes, insides, still, offset⟩ := mapped.copy fits few
    rw [mmapLoop]
    dsimp only
    rw [smaller, smallest, written]
    dsimp only
    by_cases done : nwrite ≥ rest.length
    · obtain ⟨whole, isLength⟩ := min_of_done is done
      rw [if_pos done]
      refine ⟨_, rfl, ?_, ?_, insides, still⟩
      · rw [int32_eq (by omega) (by omega), capacity, whole]
      · rw [bytes, capacity, take_of_length_le isLength.ge, take_of_length_le]
        omega
    · have cut := min_of_more is done
      clear is smaller smallest bounds
      have dropped : (rest.drop nwrite).length = rest.length - nwrite := length_drop
      obtain ⟨next, maps, afresh, fresh, finish, whole, last⟩ :=
        mmapMapFile_eq proper still.window still.pages (offset ▸ inFile) still.isOpen
      have unfilled : ¬config.fileSize - output.mmapOffset = 0 := by omega
      rw [if_neg done, if_neg unfilled, maps]
      dsimp only
      rw [if_pos rfl, mmapFileLeft_eq proper, capacity, ← cut]
      rw [offset] at finish whole last
      have begins : Inside config (.map (next.mmapOffset - next.windowSize) : Event Byte) := by
        change next.mmapOffset - next.windowSize ≤ config.fileSize
        omega
      have events : ∀ event ∈ copies ++ [.map (next.mmapOffset - next.windowSize)],
          Inside config event := by
        exact forall_mem_append.mpr ⟨insides, forall_mem_singleton.mpr begins⟩
      by_cases more : config.fileSize - next.mmapOffset = 0
      · have full : config.fileSize - output.mmapOffset - windowOf config = 0 := by
          by_contra shorter
          have size := whole (by omega)
          omega
        rw [if_pos more, full, Nat.add_zero, Nat.min_eq_right few]
        refine ⟨_, rfl, ?_, ?_, events, afresh⟩
        · rw [int32_eq (by omega) (by omega)]
        · rw [copied_append, bytes]
          exact append_nil _
      · have rooms := room_mapped fresh finish whole (by omega) last
        have someWindow : 0 < next.mmapLeft := by
          have window := afresh.window
          rw [MmapOutput.mmapLeft]
          omega
        have rounds := @ih next (totalWrite + nwrite) next.mmapLeft (rest.drop nwrite) afresh
          (by omega) rfl (by omega) (.inr ⟨by omega, someWindow⟩) (by omega)
        rw [if_neg more]
        apply rounds.bind
        rintro ⟨⟨answer, laters⟩, reached⟩ ⟨answered, sent, laterInside, mappedStill⟩
        refine ⟨_, rfl, ?_, ?_, ?_, mappedStill⟩
        · rw [dropped, rooms, add_min_rest few] at answered
          exact answered
        · rw [copied_append, copied_append, bytes, sent, rooms]
          change (_ ++ []) ++ _ = _
          rw [append_nil, ← take_add]
        · exact forall_mem_append.mpr ⟨events, laterInside⟩

theorem mmapLoop_rotates (proper : config.Proper) {fuel mmapLeft : Nat} {rest : List Byte}
    (mapped : Mapped config output) (past : config.fileSize ≤ output.mmapOffset)
    (nonempty : 0 < rest.length) (enough : rest.length ≤ fuel) (int : rest.length < 2 ^ 31) :
    Yields (mmapLoop config (fuel + 1) output rest 0 0 mmapLeft)
      (Sends config (rest.take (room config output)) (min rest.length (room config output))) := by
  obtain ⟨next, opens, afresh, fresh, finish, whole, last⟩ := mmapOpenLogfile_eq proper mapped past
  have capacity : room config output = config.fileSize - windowOf config := by
    rw [room, if_pos past]
  have nothing : (if mmapLeft > (if rest.length > 0 then 0 else rest.length) then
      (if rest.length > 0 then 0 else rest.length) else mmapLeft) = 0 := by
    rw [if_pos nonempty]
    split <;> omega
  have undone : ¬0 ≥ rest.length := by omega
  have begins : ∀ event ∈ [.map (next.mmapOffset - next.windowSize)],
      Inside config (event : Event Byte) := by
    intro event member
    rw [mem_singleton.mp member]
    change next.mmapOffset - next.windowSize ≤ config.fileSize
    omega
  rw [mmapLoop]
  dsimp only
  rw [nothing, if_neg (Nat.lt_irrefl 0)]
  dsimp only
  rw [if_neg undone, if_pos rfl, opens]
  dsimp only
  rw [if_pos rfl, mmapFileLeft_eq proper, drop_zero, nil_append]
  by_cases more : config.fileSize - next.mmapOffset = 0
  · have none : config.fileSize ≤ windowOf config := by
      by_contra shorter
      have size := whole (by omega)
      omega
    rw [if_pos more]
    refine ⟨_, rfl, ?_, ?_, begins, afresh⟩
    · rw [int32_eq (by omega) (by omega)]
      omega
    · rw [capacity, Nat.sub_eq_zero_of_le none]
      rfl
  · have rooms := @room_mapped config 0 next fresh (by omega)
      (fun shorter => whole (by omega)) (by omega) (fun longer => last (by omega))
    rw [Nat.sub_zero, ← capacity] at rooms
    have rounds := @mmapLoop_sends _ _ next proper fuel (0 + 0) next.mmapLeft rest afresh (by omega)
      rfl nonempty (.inr ⟨enough, by rw [MmapOutput.mmapLeft]; have := afresh.window; omega⟩)
      (by omega)
    rw [rooms] at rounds
    rw [if_neg more]
    apply rounds.bind
    rintro ⟨⟨answer, laters⟩, reached⟩ ⟨answered, sent, laterInside, mappedStill⟩
    refine ⟨_, rfl, ?_, ?_, ?_, mappedStill⟩
    · dsimp only at answered ⊢
      omega
    · rw [copied_append, sent]
      rfl
    · exact forall_mem_append.mpr ⟨begins, laterInside⟩

theorem mmapEmit_sends (proper : config.Proper) (mapped : Mapped config output)
    (int : message.length < 2 ^ 31) :
    Yields (mmapEmit config message output)
      (Sends config (message.take (room config output)) (min message.length (room config output))) := by
  have inside := mapped.inside
  rw [mmapEmit, if_pos mapped.isOpen]
  dsimp only
  rw [if_pos rfl, mmapFileLeft_eq proper]
  by_cases fits : config.fileSize - output.mmapOffset ≥ message.length ∧
      output.mmapLeft ≥ message.length
  · have place : output.dataOffset + message.length ≤ output.windowSize := by
      rw [MmapOutput.mmapLeft] at fits
      omega
    have whole : message.length ≤ room config output := by
      rw [MmapOutput.mmapLeft] at fits
      rw [room]
      split <;> omega
    rw [if_pos fits]
    refine ⟨_, rfl, ?_, ?_, ?_, mapped.memcpy place⟩
    · rw [int32_eq (by omega) (by omega), Nat.min_eq_left whole]
    · rw [take_of_length_le whole]
      exact append_nil _
    · intro event member
      rw [mem_singleton.mp member]
      exact place
  · have nonempty : 0 < message.length := by omega
    rw [if_neg fits]
    by_cases past : config.fileSize ≤ output.mmapOffset
    · rw [Nat.sub_eq_zero_of_le past]
      exact mmapLoop_rotates proper mapped past nonempty le_rfl int
    · have rounds := @mmapLoop_sends _ _ output proper (message.length + 1) 0 output.mmapLeft message
        mapped (by omega) rfl nonempty (.inl (Nat.lt_succ_self _)) (by omega)
      rw [Nat.zero_add] at rounds
      exact rounds

/-! ## Runs -/

theorem mmapCtxInit_eq (proper : config.Proper) (window : 0 < windowOf config) :
    ∃ started, mmapCtxInit config = some started ∧ Mapped config started ∧
      (config.fileSize ≤ windowOf config → config.fileSize ≤ started.mmapOffset) := by
  have opened : mmapRotateBySize config (fun _ => none) = openLog config (fun _ => none) 0 := rfl
  obtain ⟨started, maps, mapped, -, -, -, last⟩ := @mmapMapFile_eq config
    (openLog config (fun _ => none) 0) proper window (Nat.dvd_zero _) proper.file rfl
  refine ⟨started, ?_, mapped, fun longer => last (by omega)⟩
  rw [mmapCtxInit, mmapOpenLogfile, opened, maps]

theorem mmapCtxInit_none (noWindow : windowOf config = 0) : mmapCtxInit config = none := by
  have opened : mmapRotateBySize config (fun _ => none) = openLog config (fun _ => none) 0 := rfl
  have failed : (mmapMapFile config (openLog config (fun _ => none) 0)).1 = false := by
    simp [mmapMapFile, noWindow]
  rw [mmapCtxInit, mmapOpenLogfile, opened]
  generalize mmapMapFile config (openLog config (fun _ => none) 0) = result at failed
  obtain ⟨succeeds, reached⟩ := result
  subst failed
  rfl

theorem mmapCtxInit_mapped (proper : config.Proper) {started : MmapOutput}
    (starts : mmapCtxInit config = some started) : Mapped config started := by
  by_cases window : 0 < windowOf config
  · obtain ⟨first, known, mapped, -⟩ := mmapCtxInit_eq proper window
    rw [known] at starts
    rw [← Option.some.inj starts]
    exact mapped
  · rw [mmapCtxInit_none (by omega)] at starts
    exact absurd starts nofun

theorem runCalls_mapped (proper : config.Proper) (messages : List (List Byte))
    (mapped : Mapped config output) (ints : ∀ message ∈ messages, message.length < 2 ^ 31) :
    Yields (runCalls (mmapEmit config) messages output) fun (_, reached) =>
      Mapped config reached := by
  induction messages generalizing output with
  | nil => exact .pure mapped
  | cons message messages ih =>
    apply Yields.bind (mmapEmit_sends proper mapped (ints message mem_cons_self))
    rintro ⟨answer, next⟩ ⟨-, -, -, still⟩
    apply Yields.bind (ih still (forall_mem_cons.mp ints).2)
    rintro ⟨answers, reached⟩ last
    exact .pure last

/-- The full length is returned, the bytes are copied in order and once into windows that they fit,
and no window begins behind the end of the file. -/
def Writes (config : MmapConfig) (message : List Byte) (output : MmapOutput) : Prop :=
  Yields (mmapEmit config message output) fun ((answer, events), _) =>
    answer = (message.length : Int) ∧ copied events = message ∧
      ∀ event ∈ events, Inside config event

theorem Mapped.writes_iff (mapped : Mapped config output) (proper : config.Proper)
    (int : message.length < 2 ^ 31) :
    Writes config message output ↔ message.length ≤ room config output := by
  obtain ⟨⟨⟨answer, events⟩, next⟩, emitted, answered, sent, inside, -⟩ :=
    mmapEmit_sends proper mapped int
  constructor
  · rintro ⟨value, same, whole, -⟩
    rw [emitted] at same
    obtain rfl := Except.ok.inj same
    dsimp only at whole
    omega
  · intro fits
    refine ⟨_, emitted, ?_, ?_, inside⟩
    · rw [answered, Nat.min_eq_left fits]
    · rw [sent, take_of_length_le fits]

/-- In every state that is reached, exactly the messages are written for which there is room. -/
theorem mmapEmit_writes (proper : config.Proper) {started : MmapOutput}
    (starts : mmapCtxInit config = some started) {messages : List (List Byte)}
    (ints : ∀ message ∈ messages, message.length < 2 ^ 31) :
    Yields (runCalls (mmapEmit config) messages started) fun (_, reached) =>
      ∀ message : List Byte, message.length < 2 ^ 31 →
        (Writes config message reached ↔ message.length ≤ room config reached) := by
  refine (runCalls_mapped proper messages (mmapCtxInit_mapped proper starts) ints).mono ?_
  rintro ⟨answers, reached⟩ mapped message int
  exact mapped.writes_iff proper int

/-- A file of three pages of four bytes, with windows of one page. -/
theorem mmapEmit_writes_pages : ∃ started,
    mmapCtxInit ⟨⟨['d'], ['a'], 1⟩, 12, 4, 4⟩ = some started ∧
    Yields (runCalls (mmapEmit ⟨⟨['d'], ['a'], 1⟩, 12, 4, 4⟩) [[1, 2, 3], [4, 5, 6]] started)
      fun (_, reached) => ∀ message : List Nat, message.length < 2 ^ 31 →
        (Writes ⟨⟨['d'], ['a'], 1⟩, 12, 4, 4⟩ message reached ↔
          message.length ≤ room ⟨⟨['d'], ['a'], 1⟩, 12, 4, 4⟩ reached) := by
  have proper : MmapConfig.Proper ⟨⟨['d'], ['a'], 1⟩, 12, 4, 4⟩ :=
    ⟨⟨2, rfl⟩, by decide, by decide, by decide⟩
  have window : windowOf ⟨⟨['d'], ['a'], 1⟩, 12, 4, 4⟩ = 4 := ldiff_mask 7 2
  obtain ⟨started, starts, -⟩ := mmapCtxInit_eq proper (by omega)
  exact ⟨started, starts, mmapEmit_writes proper starts (by decide)⟩

/-- One byte for a log of 100 bytes in windows of a page: nothing is ever written. -/
theorem mmapEmit_cuts : ¬∀ (config : MmapConfig) (started : MmapOutput)
    (messages : List (List Nat)) (message : List Nat), config.Proper →
    mmapCtxInit config = some started → (∀ earlier ∈ messages, earlier.length < 2 ^ 31) →
    message.length < 2 ^ 31 →
    Yields (runCalls (mmapEmit config) messages started) fun (_, reached) =>
      Writes config message reached := by
  intro always
  have proper : MmapConfig.Proper ⟨⟨['d'], ['a'], 1⟩, 100, 4096, 4096⟩ :=
    ⟨⟨12, rfl⟩, by decide, by decide, by decide⟩
  have window : windowOf ⟨⟨['d'], ['a'], 1⟩, 100, 4096, 4096⟩ = 4096 := ldiff_mask 8191 12
  obtain ⟨started, starts, mapped, last⟩ := mmapCtxInit_eq proper (by omega)
  obtain ⟨⟨answers, reached⟩, ran, writes⟩ :=
    always _ started [] [0] proper starts (by decide) (by decide)
  obtain ⟨rfl, rfl⟩ := Prod.mk.inj (Except.ok.inj ran)
  have fits := (mapped.writes_iff proper (by decide)).mp writes
  rw [room, if_pos (last (by rw [window]; decide)), window] at fits
  exact absurd fits (by decide)

end CLibs.Logs
