/-
  NucleoBase.Libc.Filesystem

  The calls of the file-system adapter (libc/filesystem.cpp) over a FileX and
  the state the adapter keeps itself: its descriptors, the directory streams'
  paths, the current directory and the number of the next backup name.

  A call runs under the registry mutex from beginning to end, so it is one
  program here.  Its error is what it leaves in `errno`; `none` is 0, where a
  status that counts as no error is returned as a failure.
-/

import Mathlib.Data.Fintype.Basic
import Mathlib.Data.List.FinRange
import NucleoBase.Libc.Chrono
import NucleoBase.Libc.FileX

namespace NucleoBase
namespace Libc

open Lib Lib.Program

/-! ## State -/

/-- `FileDescriptor`, without its block. -/
structure Descriptor where
  media : Option Volume
  path : Bytes
  position : Nat
  allocated : Bool
  readable : Bool
  writable : Bool
  append : Bool
  flushOnClose : Bool
  openMode : Option OpenMode
  deriving DecidableEq, Repr

/-- `FileDescriptor{}`. -/
def Descriptor.empty : Descriptor :=
  ⟨none, [], 0, false, false, false, false, false, none⟩

/-- What a rename reads and writes of a `runtime_filex_directory_stream`. -/
structure DirectoryStream where
  allocated : Bool
  path : Bytes
  deriving DecidableEq, Repr

/-- `MAXIMUM_OPEN_DIRECTORIES`. -/
def maximumOpenDirectories : Nat := 8

/-- What the adapter depends on beside FileX. -/
structure Platform where
  /-- `storage::mounted`, which does not change after the start. -/
  mounted : Volume → Bool
  /-- The maximum of `off_t`. -/
  maximumOffset : Nat
  /-- The rounds after which a loop that depends on FileX counts as one that does not end. -/
  rounds : Nat
  /-- What `_read` does with the console, for a number of bytes that is not 0. -/
  consoleRead : Nat → Except (Option Errno) Bytes
  /-- What `_write` does with the console, for bytes that are not empty. -/
  consoleWrite : Bytes → Except (Option Errno) Nat

structure State (σ : Type) where
  fx : σ
  descriptors : Block → Descriptor
  directories : Fin maximumOpenDirectories → DirectoryStream
  currentDirectory : Bytes
  renameBackupSequence : UInt32

/-- The state after `runtime_filex_initialize` has found a volume. -/
def State.initial {σ : Type} (platform : Platform) (fx : σ) : State σ where
  fx := fx
  descriptors := fun _ => .empty
  directories := fun _ => ⟨false, []⟩
  currentDirectory := mountName (if platform.mounted .flash then .flash else .sd)
  renameBackupSequence := 0

abbrev FS (σ : Type) : Type → Type := Program (State σ) (Option Errno)

section

variable {σ α : Type} (X : FileX σ) (platform : Platform)

/-- A call of FileX. -/
def call (f : σ → α × σ) : FS σ α :=
  step fun s => ((f s.fx).1, { s with fx := (f s.fx).2 })

/-- Go on if `filex_errno` of a status is 0. -/
def check (status : Status) : FS σ Unit :=
  match filexErrno status with
  | none => pure ()
  | some e => fail (some e)

/-- A call of FileX that fails unless `filex_errno` of its status is 0. -/
def checked (f : σ → Status × σ) : FS σ Unit := do check (← call f)

def raise : Except Errno α → FS σ α
  | .ok a => pure a
  | .error e => fail (some e)

def fails (e : Errno) : FS σ α := fail (some e)

/-- Change one descriptor. -/
def updateDescriptor (b : Block) (f : Descriptor → Descriptor) : FS σ Unit :=
  modify fun s =>
    { s with descriptors := Function.update s.descriptors b (f (s.descriptors b)) }

/-! ## Paths and entries -/

/-- `ResolvedPath::media`. -/
def ResolvedPath.media (resolved : ResolvedPath) : Option Volume :=
  if resolved.virtualRoot then none else some resolved.volume

/-- `flush_media_unlocked`. -/
def flushMedia : Option Volume → FS σ Unit
  | none => fails Errno.EIO
  | some volume => checked (X.mediaFlush volume)

def normalize (path : Option Bytes) : FS σ Bytes := do
  raise (normalizePath (← get).currentDirectory path)

def resolve (normalized : Bytes) : FS σ ResolvedPath :=
  raise (resolveNormalizedPath platform.mounted normalized)

/-- `resolve_path_unlocked`. -/
def resolvePath (path : Option Bytes) : FS σ (Bytes × ResolvedPath) := do
  let normalized ← normalize path
  let resolved ← resolve platform normalized
  pure (normalized, resolved)

/-- The conversions to the fields of `EntryInformation`. -/
def Stamp.narrow (stamp : Stamp) : Stamp :=
  ⟨stamp.year % 2 ^ 16, stamp.month % 2 ^ 8, stamp.day % 2 ^ 8, stamp.hour % 2 ^ 8,
    stamp.minute % 2 ^ 8, stamp.second % 2 ^ 8⟩

/-- The part of `information_unlocked` after the path is resolved. -/
def entryInformation (resolved : ResolvedPath) : FS σ EntryInformation := do
  let (status, info) ← call (X.directoryInformationGet resolved.volume resolved.path)
  if status = .success then pure { info with stamp := info.stamp.narrow }
  else do
    -- the result keeps the zeroes it came with where the status counts as no error
    check status
    pure .empty

/-- `information_unlocked`. -/
def information (path : Option Bytes) : FS σ EntryInformation := do
  let normalized ← normalize path
  if normalized = [slash] then pure .root
  else do
    let resolved ← resolve platform normalized
    if resolved.mountRoot then pure .root else entryInformation X resolved

/-- `rename_entry_unlocked`. -/
def renameEntry (directory : Bool) (oldPath newPath : Bytes) : FS σ Unit := do
  let old ← resolve platform oldPath
  let new ← resolve platform newPath
  if old.media ≠ new.media then fails .EXDEV
  else checked (if directory then X.directoryRename old.volume old.path new.path
    else X.fileRename old.volume old.path new.path)

/-- `delete_entry_unlocked`. -/
def deleteEntry (directory : Bool) (path : Bytes) : FS σ Unit := do
  let resolved ← resolve platform path
  checked (if directory then X.directoryDelete resolved.volume resolved.path
    else X.fileDelete resolved.volume resolved.path)

/-- The loop of `require_empty_directory_unlocked` past `"."` and `".."`. -/
def skipDots (volume : Volume) : Nat → Status × Bytes → FS σ Status
  | 0, _ => diverge
  | rounds + 1, (status, name) =>
      if status = .success ∧ (name = [dot] ∨ name = [dot, dot]) then do
        let found ← call (X.directoryNextFullEntryFind volume)
        skipDots volume rounds found
      else pure status

/-- The part of `require_empty_directory_unlocked` before the default path is set back. -/
def findNoEntry (resolved : ResolvedPath) : FS σ Unit := do
  checked (X.directoryDefaultSet resolved.volume resolved.path)
  let found ← call (X.directoryFirstFullEntryFind resolved.volume)
  let status ← skipDots X resolved.volume platform.rounds found
  if status = .noMoreEntries then pure ()
  else if status = .success then fails .ENOTEMPTY
  else check status

/-- `require_empty_directory_unlocked`. -/
def requireEmptyDirectory (path : Bytes) : FS σ Unit := do
  let resolved ← resolve platform path
  let found ← observe (findNoEntry X platform resolved)
  let reset ← call (X.directoryDefaultSet resolved.volume [slash])
  ofExcept found
  check reset

/-! ## Backup names -/

/-- `hexadecimal[digit]`. -/
def hexadecimal (digit : Nat) : UInt8 :=
  if digit < 10 then (48 + digit).toUInt8 else (55 + digit).toUInt8

/-- `"FXR"`, five digits of the sequence number, and `".TMP"`. -/
def backupComponent (sequence : UInt32) : Bytes :=
  [70, 88, 82] ++
    [4, 3, 2, 1, 0].map (fun place => hexadecimal (sequence.toNat % 2 ^ 20 / 16 ^ place % 16)) ++
    [46, 84, 77, 80]

def backupName (volume : Volume) (sequence : UInt32) : Bytes :=
  mountName volume ++ slash :: backupComponent sequence

/-- The loop of `find_rename_backup_unlocked` with so many attempts left. -/
def findBackup (volume : Volume) : Nat → FS σ Bytes
  | 0 => fails .ENOSPC
  | attempts + 1 => do
      let sequence ← step fun s : State σ => (s.renameBackupSequence,
        { s with renameBackupSequence := s.renameBackupSequence + 1 })
      let found ← observe (information X platform (some (backupName volume sequence)))
      match found with
      | .error e =>
          if e = some .ENOENT then pure (backupName volume sequence) else fail e
      | .ok _ => findBackup volume attempts

/-- `find_rename_backup_unlocked`. -/
def findRenameBackup (volume : Volume) : FS σ Bytes := findBackup X platform volume 256

/-! ## Handles -/

/-- `fx_file_extended_seek` on the block of a descriptor. -/
def seek (b : Block) (position : Nat) : FS σ Unit := checked (X.fileExtendedSeek b position)

/-- The block is cleared. -/
def clearBlock (b : Block) : FS σ Unit :=
  modify fun s => { s with fx := X.clear b s.fx }

/-- `*descriptor = FileDescriptor{}`. -/
def release (b : Block) : FS σ Unit := do
  clearBlock X b
  updateDescriptor b fun _ => .empty

/-- The first part of `switch_mode`: whether it goes on. -/
def closeForSwitch (b : Block) : FS σ Bool := do
  if ((← get).descriptors b).openMode = none then pure true
  else do
    let status ← call (X.fileClose b)
    updateDescriptor b fun d => { d with openMode := none }
    if status = .success then pure true
    else do
      check status
      pure false

/-- Some descriptor has the file of a path open for write. -/
def HasWriter (s : State σ) (path : Bytes) : Prop :=
  ∃ c : Block, (s.descriptors c).allocated ∧ (s.descriptors c).openMode = some .forWrite ∧
    pathsEqual (s.descriptors c).path path

instance (s : State σ) (path : Bytes) : Decidable (HasWriter s path) :=
  inferInstanceAs (Decidable (∃ _, _))

/-- The second part of `switch_mode`. -/
def reopen (b : Block) (requested : OpenMode) : FS σ Unit := do
  clearBlock X b
  let s ← get
  let resolved ← resolve platform (s.descriptors b).path
  if resolved.virtualRoot ∨ resolved.mountRoot then fails .EISDIR
  else do
    when (requested = .forRead ∧ HasWriter s (s.descriptors b).path)
      (flushMedia X resolved.media)
    let status ← call (X.fileOpen resolved.volume b resolved.path requested)
    if status ≠ .success then check status
    else do
      updateDescriptor b fun d => { d with openMode := some requested }
      seek X b (((← get).descriptors b).position)

/-- `switch_mode`. -/
def switchMode (b : Block) (requested : OpenMode) : FS σ Unit := do
  if ((← get).descriptors b).openMode = some requested then pure ()
  else do
    let closed ← closeForSwitch X b
    when closed (reopen X platform b requested)

/-- The loop of `extend_with_zeroes`, in chunks of a sector. -/
def writeZeroes (b : Block) (size : Nat) : Nat → FS σ Unit
  | 0 => diverge
  | rounds + 1 => do
      let s ← get
      if X.currentFileSize s.fx b < size then do
        let chunk := min (size - X.currentFileSize s.fx b) 512
        checked (X.fileWrite b (List.replicate chunk 0))
        writeZeroes b size rounds
      else pure ()

/-- `extend_with_zeroes`. -/
def extendWithZeroes (b : Block) (size : Nat) : FS σ Unit := do
  let s ← get
  if size ≤ X.currentFileSize s.fx b then pure ()
  else do
    seek X b (X.currentFileSize s.fx b)
    writeZeroes X b size platform.rounds

/-- `descriptor_for`. -/
def descriptorFor (file : Int) : FS σ Block := do
  let s ← get
  if file < 3 then fails .EBADF
  else if h : (file - 3).toNat < maximumOpenFiles then
    if (s.descriptors ⟨(file - 3).toNat, h⟩).allocated then pure ⟨(file - 3).toNat, h⟩
    else fails .EBADF
  else fails .EBADF

/-- The number of a descriptor. -/
def fileNumber (b : Block) : Int := 3 + b.val

end

end Libc
end NucleoBase
