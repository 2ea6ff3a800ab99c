/-
  NucleoBase.Libc.NorFlash

  Programming the NOR flash (libc/storage_media.cpp): `qspi_write` of the
  STM32, page by page, and of the simulation on Linux, in chunks of 256 bytes
  of a file.

  What the chip makes of the commands of the STM32 is in `Flash`.  Every
  command and every access to the file may fail.
-/

import NucleoBase.Lib.NorCells
import NucleoBase.Libc.Path

namespace NucleoBase
namespace Libc
namespace NorFlash

open Lib NorCells

/-- `flash_bytes`. -/
def flashBytes : Nat := 16 * 1024 * 1024

/-- The test that both versions begin with. -/
def InDevice (offset bytes : Nat) : Prop := offset ≤ flashBytes ∧ bytes ≤ flashBytes - offset

instance (offset bytes : Nat) : Decidable (InDevice offset bytes) :=
  inferInstanceAs (Decidable (_ ∧ _))

/-! ## The STM32 -/

inductive Command
  /-- `qspi_write_enable`. -/
  | writeEnable
  /-- `qspi_command` with `w25q_quad_page_program`, and `HAL_QSPI_Transmit`. -/
  | pageProgram (address : Nat) (data : Bytes)
  /-- `qspi_wait_ready`. -/
  | waitReady
  deriving DecidableEq, Repr

/-- A computation that issues commands. -/
abbrev Issue := StateM (List Command)

/-- Issue a command, which succeeds or not; `fails` says which ones do not. -/
def issue (fails : Nat → Bool) (c : Command) : Issue Bool := fun issued =>
  (!fails issued.length, issued ++ [c])

/-- `page_bytes`. -/
def pageBytes (offset bytes : Nat) : Nat := min bytes (256 - offset % 256)

theorem pageBytes_pos {offset bytes : Nat} (h : 0 < bytes) : 0 < pageBytes offset bytes := by
  have hmod := Nat.mod_lt offset (show 0 < 256 by decide)
  simp only [pageBytes]
  omega

/-- The loop of the STM32 `qspi_write`. -/
def programLoop (fails : Nat → Bool) (offset : Nat) (input : Bytes) : Issue Bool := do
  if hempty : input = [] then pure true
  else do
    let count := pageBytes offset input.length
    if ← issue fails .writeEnable then
      if ← issue fails (.pageProgram (offset % 2 ^ 32) (input.take count)) then
        if ← issue fails .waitReady then
          programLoop fails (offset + count) (input.drop count)
        else pure false
      else pure false
    else pure false
termination_by input.length
decreasing_by
  have hlength := List.length_pos_iff.mpr hempty
  have hcount : 0 < pageBytes offset input.length := pageBytes_pos hlength
  rw [List.length_drop]
  omega

/-- `qspi_write` on the STM32. -/
def stm32QspiWrite (fails : Nat → Bool) (offset : Nat) (source : Bytes) : Issue Bool :=
  if InDevice offset source.length then programLoop fails offset source else pure false

/-! ## The chip -/

structure Flash where
  cells : Cells
  /-- The write enable latch. -/
  writeEnabled : Bool

/-- The chip takes 24 bits of an address; it programs only after a write enable, within a page
    of 256 bytes. -/
def Flash.execute (f : Flash) : Command → Flash
  | .writeEnable => { f with writeEnabled := true }
  | .pageProgram address data =>
      if f.writeEnabled then ⟨programPage 256 f.cells (address % 2 ^ 24) data, false⟩ else f
  | .waitReady => f

def Flash.run (f : Flash) (commands : List Command) : Flash := commands.foldl Flash.execute f

/-! ## Linux -/

/-- The image file. -/
structure File where
  image : Cells
  accesses : Nat

abbrev Access := StateM File

/-- Which accesses fail, and what one that fails does to the image. -/
abbrev Fault := Nat → Option (Cells → Cells)

/-- `file_read`. -/
def fileRead (fault : Fault) (offset bytes : Nat) : Access (Option Bytes) := fun f =>
  match fault f.accesses with
  | none => (some (readRange f.image offset bytes), { f with accesses := f.accesses + 1 })
  | some _ => (none, { f with accesses := f.accesses + 1 })

/-- `file_write`. -/
def fileWrite (fault : Fault) (offset : Nat) (data : Bytes) : Access Bool := fun f =>
  match fault f.accesses with
  | none => (true, ⟨store f.image offset data, f.accesses + 1⟩)
  | some effect => (false, ⟨effect f.image, f.accesses + 1⟩)

/-- The loop over `current` and `input`: no bit would have to be set. -/
def programmable (current input : Bytes) : Bool :=
  (current.zip input).all fun (c, b) => c &&& b == b

/-- The loop of the Linux `qspi_write`. -/
def simulateLoop (fault : Fault) (offset : Nat) (input : Bytes) : Access Bool := do
  if hempty : input = [] then pure true
  else do
    let count := min input.length 256
    match ← fileRead fault offset count with
    | none => pure false
    | some current =>
        if programmable current (input.take count) then
          if ← fileWrite fault offset (input.take count) then
            simulateLoop fault (offset + count) (input.drop count)
          else pure false
        else pure false
termination_by input.length
decreasing_by
  have hlength := List.length_pos_iff.mpr hempty
  rw [List.length_drop]
  omega

/-- `qspi_write` on Linux. -/
def linuxQspiWrite (fault : Fault) (offset : Nat) (source : Bytes) : Access Bool :=
  if InDevice offset source.length then simulateLoop fault offset source else pure false

/-- `qspi_read` on Linux. -/
def linuxQspiRead (fault : Fault) (offset bytes : Nat) : Access (Option Bytes) :=
  if InDevice offset bytes then fileRead fault offset bytes else pure none

/-- No command fails. -/
def noFailure : Nat → Bool := fun _ => false

/-- No access to the file fails. -/
def noFault : Fault := fun _ => none

/-! ## The pages of a write -/

/-- Page programs that cover the data from `offset` on in order: each one is not empty, begins
    where the last one ended and stays within a page. -/
inductive Covers : Nat → Bytes → List (Nat × Bytes) → Prop
  | done (offset : Nat) : Covers offset [] []
  | page {offset : Nat} {data rest : Bytes} {pages : List (Nat × Bytes)} (hpos : data ≠ [])
      (hpage : offset % 256 + data.length ≤ 256) (h : Covers (offset + data.length) rest pages) :
      Covers offset (data ++ rest) ((offset, data) :: pages)

/-- The commands of one page program. -/
def commandsOf (p : Nat × Bytes) : List Command :=
  [.writeEnable, .pageProgram p.1 p.2, .waitReady]

/-- The image after programming, cell by cell. -/
def programmed (image : Cells) (offset : Nat) (data : Bytes) : Cells := fun a =>
  match byteAt data offset a with
  | some b => image a &&& b
  | none => image a

/-! ## The commands of the STM32 -/

section Stm32

variable {offset : Nat} {input : Bytes} {issued : List Command}

theorem programLoop_nil (fails : Nat → Bool) (offset : Nat) :
    programLoop fails offset [] = pure true := by
  rw [programLoop, dif_pos rfl]

/-- One round without a failure. -/
theorem programLoop_round (hempty : input ≠ []) (hbound : offset < 2 ^ 32) :
    (programLoop noFailure offset input).run issued =
      (programLoop noFailure (offset + pageBytes offset input.length)
        (input.drop (pageBytes offset input.length))).run
        (issued ++ commandsOf (offset, input.take (pageBytes offset input.length))) := by
  have hround : (programLoop noFailure offset input).run issued =
      (programLoop noFailure (offset + pageBytes offset input.length)
        (input.drop (pageBytes offset input.length))).run
        (((issued ++ [.writeEnable]) ++ [.pageProgram (offset % 2 ^ 32)
          (input.take (pageBytes offset input.length))]) ++ [.waitReady]) := by
    conv => lhs; rw [programLoop, dif_neg hempty]
    rfl
  rw [hround, Nat.mod_eq_of_lt hbound, List.append_assoc, List.append_assoc]
  rfl

/-- The loop issues page programs that cover the data.  The induction is on the bytes left. -/
theorem programLoop_covers (n : Nat) :
    ∀ (offset : Nat) (input : Bytes) (issued : List Command), input.length ≤ n →
      offset + input.length ≤ flashBytes →
      ∃ pages, Covers offset input pages ∧
        (programLoop noFailure offset input).run issued =
          (true, issued ++ pages.flatMap commandsOf) := by
  induction n with
  | zero =>
      intro offset input issued hlength _
      obtain rfl := List.length_eq_zero_iff.mp (Nat.le_zero.mp hlength)
      refine ⟨[], .done offset, ?_⟩
      rw [programLoop_nil, List.flatMap_nil, List.append_nil]
      rfl
  | succ n ih =>
      intro offset input issued hlength hbound
      by_cases hempty : input = []
      · subst hempty
        refine ⟨[], .done offset, ?_⟩
        rw [programLoop_nil, List.flatMap_nil, List.append_nil]
        rfl
      have hpositive := List.length_pos_iff.mpr hempty
      have hcount : 0 < pageBytes offset input.length := pageBytes_pos hpositive
      have hle : pageBytes offset input.length ≤ input.length := Nat.min_le_left _ _
      have hpage : pageBytes offset input.length ≤ 256 - offset % 256 := Nat.min_le_right _ _
      have hmod := Nat.mod_lt offset (show 0 < 256 by decide)
      have hword : offset < 2 ^ 32 := by
        simp only [flashBytes] at hbound
        omega
      have hround := @programLoop_round offset input issued hempty hword
      generalize pageBytes offset input.length = count at hcount hle hpage hround
      have htake : (input.take count).length = count := List.length_take_of_le hle
      have hdrop : (input.drop count).length = input.length - count := List.length_drop
      obtain ⟨pages, hcovers, hrun⟩ := ih (offset + count) (input.drop count)
        (issued ++ commandsOf (offset, input.take count)) (by omega) (by omega)
      refine ⟨(offset, input.take count) :: pages, ?_, ?_⟩
      · have htaken : input.take count ≠ [] := by
          rw [← List.length_pos_iff, htake]
          exact hcount
        have hnext : Covers (offset + (input.take count).length) (input.drop count) pages := by
          rw [htake]
          exact hcovers
        have hall := Covers.page htaken (by omega) hnext
        rwa [List.take_append_drop] at hall
      · rw [hround, hrun, List.flatMap_cons, List.append_assoc]

/-- What the chip makes of one page program. -/
theorem run_commandsOf (f : Flash) (p : Nat × Bytes) :
    f.run (commandsOf p) = ⟨programPage 256 f.cells (p.1 % 2 ^ 24) p.2, false⟩ := rfl

/-- What the chip makes of page programs that cover the data. -/
theorem run_covers {data : Bytes} {pages : List (Nat × Bytes)} (h : Covers offset data pages)
    (hbound : offset + data.length ≤ flashBytes) (f : Flash) :
    (f.run (pages.flatMap commandsOf)).cells = program f.cells offset data := by
  induction h generalizing f with
  | done offset => rfl
  | @page offset data rest pages hpos hpage _ ih =>
      rw [List.length_append] at hbound
      have hpositive := List.length_pos_iff.mpr hpos
      have haddress : offset % 2 ^ 24 = offset := by
        simp only [flashBytes] at hbound
        exact Nat.mod_eq_of_lt (by omega)
      rw [List.flatMap_cons, Flash.run, List.foldl_append]
      show (Flash.run (f.run (commandsOf (offset, data))) _).cells = _
      rw [ih (by omega), run_commandsOf, haddress, program_append, programPage_eq hpage]

end Stm32

/-! ## The simulation -/

section Linux

variable {offset : Nat} {input : Bytes} {f : File}

theorem simulateLoop_nil (fault : Fault) (offset : Nat) :
    simulateLoop fault offset [] = pure true := by
  rw [simulateLoop, dif_pos rfl]

/-- A chunk that would have to set a bit is refused. -/
theorem simulateLoop_refuses (hempty : input ≠ [])
    (hrise : programmable (readRange f.image offset (min input.length 256))
      (input.take (min input.length 256)) = false) :
    ((simulateLoop noFault offset input).run f).1 = false := by
  rw [simulateLoop, dif_neg hempty]
  show ((if programmable (readRange f.image offset (min input.length 256))
    (input.take (min input.length 256)) then _ else pure false : Access Bool).run _).1 = false
  rw [if_neg (by rw [hrise]; decide)]
  rfl

theorem simulateLoop_round (hempty : input ≠ [])
    (hok : programmable (readRange f.image offset (min input.length 256))
      (input.take (min input.length 256)) = true) :
    (simulateLoop noFault offset input).run f =
      (simulateLoop noFault (offset + min input.length 256)
        (input.drop (min input.length 256))).run
        ⟨store f.image offset (input.take (min input.length 256)), f.accesses + 1 + 1⟩ := by
  conv => lhs; rw [simulateLoop, dif_neg hempty]
  show (if programmable (readRange f.image offset (min input.length 256))
    (input.take (min input.length 256)) then _ else pure false : Access Bool).run _ = _
  rw [if_pos hok]
  rfl

/-- The loop succeeds if no bit has to be set, and then overwrites the range. -/
theorem simulateLoop_spec (n : Nat) :
    ∀ (offset : Nat) (input : Bytes) (f : File), input.length ≤ n →
      (((simulateLoop noFault offset input).run f).1 = true ↔ NoRise f.image offset input) ∧
        (((simulateLoop noFault offset input).run f).1 = true →
          ((simulateLoop noFault offset input).run f).2.image = store f.image offset input) := by
  have hnil : ∀ offset (f : File),
      (((simulateLoop noFault offset []).run f).1 = true ↔ NoRise f.image offset []) ∧
        (((simulateLoop noFault offset []).run f).1 = true →
          ((simulateLoop noFault offset []).run f).2.image = store f.image offset []) := by
    intro offset f
    rw [simulateLoop_nil]
    refine ⟨⟨fun _ a b hb => ?_, fun _ => rfl⟩, fun _ => rfl⟩
    rw [byteAt_nil] at hb
    exact absurd hb (by simp)
  induction n with
  | zero =>
      intro offset input f hlength
      obtain rfl := List.length_eq_zero_iff.mp (Nat.le_zero.mp hlength)
      exact hnil offset f
  | succ n ih =>
      intro offset input f hlength
      by_cases hempty : input = []
      · subst hempty
        exact hnil offset f
      have hpositive := List.length_pos_iff.mpr hempty
      have hround := @simulateLoop_round offset input f hempty
      have hrefuses := @simulateLoop_refuses offset input f hempty
      have hle : min input.length 256 ≤ input.length := Nat.min_le_left _ _
      have hcount : 0 < min input.length 256 := by omega
      generalize min input.length 256 = count at hround hrefuses hle hcount
      have htake : (input.take count).length = count := List.length_take_of_le hle
      have hdrop : (input.drop count).length = input.length - count := List.length_drop
      have hchunk := @all_readRange_iff f.image offset (input.take count)
      rw [htake] at hchunk
      have hsplit := @noRise_append f.image offset (input.take count) (input.drop count)
      rw [List.take_append_drop, htake] at hsplit
      by_cases hok : programmable (readRange f.image offset count) (input.take count) = true
      · have hfirst := hchunk.mp hok
        obtain ⟨hiff, himage⟩ := ih (offset + count) (input.drop count)
          ⟨store f.image offset (input.take count), f.accesses + 1 + 1⟩ (by omega)
        have hrest := noRise_store f.image offset (input.take count) (input.drop count)
        have hall := store_append f.image offset (input.take count) (input.drop count)
        rw [htake] at hrest hall
        rw [List.take_append_drop] at hall
        rw [hround hok]
        refine ⟨?_, fun h => ?_⟩
        · rw [hiff, hsplit]
          exact ⟨fun h => ⟨hfirst, hrest.mp h⟩, fun h => hrest.mpr h.2⟩
        · rw [himage h, hall]
      · have hfalse := hrefuses (Bool.eq_false_iff.mpr hok)
        have hrise : ¬ NoRise f.image offset input :=
          fun h => hok (hchunk.mpr (hsplit.mp h).1)
        rw [hfalse]
        exact ⟨⟨fun h => absurd h (by decide), fun h => absurd h hrise⟩,
          fun h => absurd h (by decide)⟩

end Linux

/-! ## The results -/

theorem program_eq_programmed (image : Cells) (offset : Nat) (data : Bytes) :
    program image offset data = programmed image offset data :=
  funext (program_apply image offset data)

/-- For every image, range and data: the STM32 issues no command for a range outside the device,
    and else page programs that cover the range, of which the chip makes the AND of image and
    data; Linux succeeds if no bit has to be set, and then has the same image, from which the
    range reads back as the data. -/
theorem qspiWrite_correct (image : Cells) (offset : Nat) (data : Bytes) :
    (¬ InDevice offset data.length → ∀ fails issued,
      (stm32QspiWrite fails offset data).run issued = (false, issued)) ∧
    (InDevice offset data.length → ∃ pages, Covers offset data pages ∧
      (stm32QspiWrite noFailure offset data).run [] = (true, pages.flatMap commandsOf) ∧
      ∀ latch, ((⟨image, latch⟩ : Flash).run (pages.flatMap commandsOf)).cells =
        programmed image offset data) ∧
    ∀ accesses, let result := (linuxQspiWrite noFault offset data).run ⟨image, accesses⟩
      (result.1 = true ↔ InDevice offset data.length ∧ NoRise image offset data) ∧
      (result.1 = true → result.2.image = programmed image offset data ∧
        ((linuxQspiRead noFault offset data.length).run result.2).1 = some data) := by
  refine ⟨fun houtside fails issued => ?_, fun hinside => ?_, fun accesses => ?_⟩
  · rw [stm32QspiWrite, if_neg houtside]
    rfl
  · have hbound : offset + data.length ≤ flashBytes := by
      have hoffset := hinside.1
      have hbytes := hinside.2
      omega
    obtain ⟨pages, hcovers, hrun⟩ :=
      programLoop_covers data.length offset data [] (Nat.le_refl _) hbound
    refine ⟨pages, hcovers, ?_, fun latch => ?_⟩
    · rw [stm32QspiWrite, if_pos hinside]
      exact hrun
    · rw [run_covers hcovers hbound, program_eq_programmed]
  · by_cases hinside : InDevice offset data.length
    · obtain ⟨hiff, himage⟩ :=
        simulateLoop_spec data.length offset data ⟨image, accesses⟩ (Nat.le_refl _)
      rw [linuxQspiWrite, if_pos hinside, linuxQspiRead, if_pos hinside]
      refine ⟨⟨fun h => ⟨hinside, hiff.mp h⟩, fun h => hiff.mpr h.2⟩, fun h => ?_⟩
      have hstore := himage h
      refine ⟨?_, ?_⟩
      · rw [hstore, ← program_eq_programmed, program_eq_store (hiff.mp h)]
      · have hread : readRange ((simulateLoop noFault offset data).run ⟨image, accesses⟩).2.image
            offset data.length = data := by
          rw [hstore, readRange_store]
        exact congrArg some hread
    · rw [linuxQspiWrite, if_neg hinside]
      exact ⟨⟨fun h => absurd h Bool.false_ne_true, fun h => absurd h.1 hinside⟩,
        fun h => absurd h Bool.false_ne_true⟩

end NorFlash
end Libc
end NucleoBase
