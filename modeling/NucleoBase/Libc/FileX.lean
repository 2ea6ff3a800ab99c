/-
  NucleoBase.Libc.FileX

  The file system the adapter is built on, as a parameter: its calls over a
  state of its own, with a status each, and what the adapter reads and writes
  in the blocks (`FX_FILE`) of its descriptors directly.  Nothing is assumed of
  them here; what FileX documents is stated where it is used.
-/

import NucleoBase.Lib.Program
import NucleoBase.Libc.Path

namespace NucleoBase
namespace Libc

/-- The statuses that `filex_errno` tells apart. -/
inductive Status
  | success | notFound | notOpen | mediaNotOpen | alreadyCreated | invalidName | invalidPath
  | invalidOption | ptrError | notAFile | notDirectory | dirNotEmpty | noMoreSpace
  | notEnoughMemory | accessError | writeProtect | endOfFile | noMoreEntries | notImplemented
  | other (code : Nat)
  deriving DecidableEq, Repr

/-- `filex_errno`; `none` is 0. -/
def filexErrno : Status → Option Errno
  | .success => none
  | .notFound | .notOpen | .mediaNotOpen => some .ENOENT
  | .alreadyCreated => some .EEXIST
  | .invalidName | .invalidPath | .invalidOption | .ptrError => some .EINVAL
  | .notAFile => some .EISDIR
  | .notDirectory => some .ENOTDIR
  | .dirNotEmpty => some .ENOTEMPTY
  | .noMoreSpace | .notEnoughMemory => some .ENOSPC
  | .accessError | .writeProtect => some .EACCES
  | .endOfFile | .noMoreEntries => none
  | .notImplemented => some .ENOTSUP
  | .other _ => some Errno.EIO

/-- `FX_OPEN_FOR_READ` and `FX_OPEN_FOR_WRITE`. -/
inductive OpenMode
  | forRead | forWrite
  deriving DecidableEq, Repr

/-- `MAXIMUM_OPEN_FILES`. -/
def maximumOpenFiles : Nat := 16

/-- The block in a descriptor, by the index of the descriptor. -/
abbrev Block := Fin maximumOpenFiles

/-- The date and time of a directory entry. -/
structure Stamp where
  year : Nat
  month : Nat
  day : Nat
  hour : Nat
  minute : Nat
  second : Nat
  deriving DecidableEq, Repr

structure EntryInformation where
  size : Nat
  /-- `FX_DIRECTORY` and `FX_READ_ONLY` of the attributes. -/
  directory : Bool
  readOnly : Bool
  stamp : Stamp
  deriving DecidableEq, Repr

/-- `EntryInformation{}`. -/
def EntryInformation.empty : EntryInformation := ⟨0, false, false, ⟨0, 0, 0, 0, 0, 0⟩⟩

/-- What the adapter gives for the virtual root and for mount points. -/
def EntryInformation.root : EntryInformation := { EntryInformation.empty with directory := true }

/-- The calls of FileX over its state; names are paths within the volume. -/
structure FileX (σ : Type) where
  fileOpen : Volume → Block → Bytes → OpenMode → σ → Status × σ
  fileClose : Block → σ → Status × σ
  fileRead : Block → Nat → σ → (Status × Bytes) × σ
  fileWrite : Block → Bytes → σ → Status × σ
  fileExtendedSeek : Block → Nat → σ → Status × σ
  fileExtendedTruncateRelease : Block → Nat → σ → Status × σ
  fileCreate : Volume → Bytes → σ → Status × σ
  fileDelete : Volume → Bytes → σ → Status × σ
  fileRename : Volume → Bytes → Bytes → σ → Status × σ
  fileDateTimeSet : Volume → Bytes → Stamp → σ → Status × σ
  directoryCreate : Volume → Bytes → σ → Status × σ
  directoryDelete : Volume → Bytes → σ → Status × σ
  directoryRename : Volume → Bytes → Bytes → σ → Status × σ
  directoryInformationGet : Volume → Bytes → σ → (Status × EntryInformation) × σ
  directoryDefaultSet : Volume → Bytes → σ → Status × σ
  directoryFirstFullEntryFind : Volume → σ → (Status × Bytes) × σ
  directoryNextFullEntryFind : Volume → σ → (Status × Bytes) × σ
  mediaFlush : Volume → σ → Status × σ
  /-- `fx_file_current_file_size` of a block. -/
  currentFileSize : σ → Block → Nat
  /-- `fx_file_current_file_offset` of a block. -/
  currentFileOffset : σ → Block → Nat
  /-- The block is overwritten with zeroes. -/
  clear : Block → σ → σ
  /-- The packed date and time in `fx_file_dir_entry` of a block are overwritten. -/
  setEntryDateTime : Block → Nat → Nat → σ → σ

end Libc
end NucleoBase
