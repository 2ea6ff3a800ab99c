/-
  NucleoBase.Libc.FileCalls

  The system calls of the file-system adapter (libc/filesystem.cpp), each as
  one program, and runs of them.
-/

import NucleoBase.Libc.Filesystem

namespace NucleoBase
namespace Libc

open Lib Lib.Program

/-- `flags & O_ACCMODE`. -/
inductive Access
  | readOnly | writeOnly | readWrite | invalid
  deriving DecidableEq, Repr

/-- The flags of `_open`. -/
structure OpenFlags where
  access : Access
  create : Bool
  exclusive : Bool
  truncate : Bool
  append : Bool
  deriving DecidableEq, Repr

/-- The third argument of `_lseek`. -/
inductive Origin
  | set | current | fileEnd
  | other (value : Int)
  deriving DecidableEq, Repr

/-- The fields of `struct stat` that are not always 0. -/
structure FileStat where
  mode : Nat
  links : Nat
  inode : UInt32
  size : Nat
  blockSize : Nat
  blocks : Nat
  /-- `st_mtime`, `st_atime` and `st_ctime`. -/
  time : Int
  deriving DecidableEq, Repr

section

variable {σ : Type} (X : FileX σ) (platform : Platform)

/-! ## Open and close -/

def freeDescriptor (s : State σ) : Option Block :=
  (List.finRange maximumOpenFiles).find? fun b => !(s.descriptors b).allocated

/-- The descriptor that `_open` fills in. -/
def openedDescriptor (normalized : Bytes) (resolved : ResolvedPath) (flags : OpenFlags)
    (created : Bool) (size : Nat) : Descriptor where
  media := resolved.media
  path := normalized
  position := if flags.append then size else 0
  allocated := true
  readable := flags.access ≠ .writeOnly
  writable := flags.access ≠ .readOnly
  append := flags.append
  flushOnClose := created ∨ flags.access ≠ .readOnly
  openMode := none

/-- The handle of a new descriptor is opened, and the file truncated if so asked. -/
def openHandle (b : Block) (flags : OpenFlags) : FS σ Unit := do
  switchMode X platform b (if flags.access ≠ .readOnly then .forWrite else .forRead)
  when (flags.access ≠ .readOnly ∧ flags.truncate) do
    let status ← call (X.fileExtendedTruncateRelease b 0)
    updateDescriptor b fun d => { d with position := 0 }
    check status

/-- The error path at the end of `_open`. -/
def abandon (b : Block) (e : Option Errno) : FS σ Int := do
  let s ← get
  when ((s.descriptors b).openMode ≠ none) (do let _ ← call (X.fileClose b))
  release X b
  fail e

/-- `_open` from the point where the file exists. -/
def openSlot (b : Block) (normalized : Bytes) (resolved : ResolvedPath) (flags : OpenFlags)
    (created : Bool) (size : Nat) : FS σ Int := do
  clearBlock X b
  updateDescriptor b fun _ => openedDescriptor normalized resolved flags created size
  let opened ← observe (openHandle X platform b flags)
  match opened with
  | .ok () => pure (fileNumber b)
  | .error e => abandon X b e

/-- `_open` of a file that does not exist. -/
def createFile (b : Block) (normalized : Bytes) (resolved : ResolvedPath) (flags : OpenFlags) :
    FS σ Int := do
  if flags.create then do
    let status ← call (X.fileCreate resolved.volume resolved.path)
    if status ≠ .success then fail (filexErrno status)
    else openSlot X platform b normalized resolved flags true 0
  else fails .ENOENT

/-- `_open`. -/
def open_ (path : Option Bytes) (flags : OpenFlags) : FS σ Int := do
  if flags.access = .invalid then fails .EINVAL
  else do
    let (normalized, resolved) ← resolvePath platform path
    if resolved.virtualRoot ∨ resolved.mountRoot then fails .EISDIR
    else
      match freeDescriptor (← get) with
      | none => fails .EMFILE
      | some b => do
          let found ← observe (information X platform (some normalized))
          match found with
          | .error e =>
              if e = some .ENOENT then createFile X platform b normalized resolved flags
              else fail e
          | .ok info =>
              if info.directory then fails .EISDIR
              else if flags.create ∧ flags.exclusive then fails .EEXIST
              else openSlot X platform b normalized resolved flags false info.size

/-- The handle of a descriptor is closed, and the volume flushed if need be. -/
def closeHandle (b : Block) : FS σ Unit := do
  let d := (← get).descriptors b
  when (d.openMode ≠ none) (checked (X.fileClose b))
  when d.flushOnClose (flushMedia X d.media)

/-- `_close`. -/
def close (file : Int) : FS σ Unit := do
  if 0 ≤ file ∧ file ≤ 2 then pure ()
  else do
    let b ← descriptorFor file
    let closed ← observe (closeHandle X b)
    release X b
    ofExcept closed

/-! ## Reading and writing -/

/-- The offset of the block becomes that of the descriptor. -/
def keepOffset (b : Block) : FS σ Unit :=
  modify fun s => { s with
    descriptors := Function.update s.descriptors b
      { s.descriptors b with position := X.currentFileOffset s.fx b } }

/-- `_read` with a handle open for read. -/
def readHandle (b : Block) (length : Nat) : FS σ Bytes := do
  let s ← get
  if X.currentFileSize s.fx b ≤ (s.descriptors b).position then pure []
  else do
    seek X b (s.descriptors b).position
    let (status, bytes) ← call (X.fileRead b length)
    keepOffset X b
    if status ≠ .success ∧ status ≠ .endOfFile then fail (filexErrno status) else pure bytes

/-- `_read` into a buffer that may be null. -/
def read (file : Int) (buffer : Bool) (length : Int) : FS σ Bytes := do
  if length < 0 then fails .EINVAL
  else if ¬ buffer ∧ length ≠ 0 then fails .EFAULT
  else if file = 0 then
    if length = 0 then pure [] else ofExcept (platform.consoleRead length.toNat)
  else do
    let b ← descriptorFor file
    if ¬ ((← get).descriptors b).readable then fails .EBADF
    else if length = 0 then pure []
    else do
      switchMode X platform b .forRead
      readHandle X b length.toNat

/-- `_write` with a handle open for write. -/
def writeHandle (b : Block) (bytes : Bytes) : FS σ Unit := do
  let s ← get
  when (s.descriptors b).append (updateDescriptor b fun d =>
    { d with position := X.currentFileSize s.fx b })
  let position := ((← get).descriptors b).position
  extendWithZeroes X platform b position
  seek X b position
  let status ← call (X.fileWrite b bytes)
  keepOffset X b
  if status ≠ .success then fail (filexErrno status) else pure ()

/-- `_write` of the first bytes of a buffer that may be null. -/
def write (file : Int) (buffer : Option Bytes) (length : Int) : FS σ Int := do
  if length < 0 then fails .EINVAL
  else if buffer = none ∧ length ≠ 0 then fails .EFAULT
  else
    let bytes := (buffer.getD []).take length.toNat
    if file = 1 ∨ file = 2 then
      if length = 0 then pure 0 else do pure (← ofExcept (platform.consoleWrite bytes))
    else do
      let b ← descriptorFor file
      if ¬ ((← get).descriptors b).writable then fails .EBADF
      else if length = 0 then pure 0
      else do
        switchMode X platform b .forWrite
        writeHandle X platform b bytes
        pure length

/-- The position that `_lseek` goes to from a base. -/
def seekTarget (base : Nat) (offset : Int) : Except Errno Nat :=
  if platform.maximumOffset < base then .error .EOVERFLOW
  else if 0 ≤ offset then
    if platform.maximumOffset - base < offset.toNat then .error .EOVERFLOW
    else .ok (base + offset.toNat)
  else if base < offset.natAbs then .error .EINVAL
  else .ok (base - offset.natAbs)

/-- The base of `_lseek`. -/
def seekBase (s : State σ) (b : Block) : Origin → Except Errno Nat
  | .set => .ok 0
  | .current => .ok (s.descriptors b).position
  | .fileEnd => .ok (X.currentFileSize s.fx b)
  | .other _ => .error .EINVAL

/-- `_lseek`. -/
def lseek (file : Int) (offset : Int) (origin : Origin) : FS σ Int := do
  let b ← descriptorFor file
  let d := (← get).descriptors b
  when (d.openMode = none)
    (switchMode X platform b (if d.readable then .forRead else .forWrite))
  let base ← raise (seekBase X (← get) b origin)
  let target ← raise (seekTarget platform base offset)
  let status ← call (X.fileExtendedSeek b target)
  if status ≠ .success then fail (filexErrno status)
  else do
    updateDescriptor b fun d => { d with position := target }
    pure target

/-- The size of the file of an open handle is changed. -/
def resize (b : Block) (length : Nat) : FS σ Unit := do
  let size := X.currentFileSize (← get).fx b
  if length < size then checked (X.fileExtendedTruncateRelease b length)
  else when (size < length) (extendWithZeroes X platform b length)

/-- `_ftruncate`. -/
def ftruncate (file : Int) (length : Int) : FS σ Unit := do
  if length < 0 then fails .EINVAL
  else do
    let b ← descriptorFor file
    if ¬ ((← get).descriptors b).writable then fails .EBADF
    else do
      switchMode X platform b .forWrite
      resize X platform b length.toNat
      -- the offset of the descriptor is not changed
      seek X b ((← get).descriptors b).position

/-- `_fsync`. -/
def fsync (file : Int) : FS σ Unit := do
  let b ← descriptorFor file
  let d := (← get).descriptors b
  let resolved ← resolve platform d.path
  let status ← call (X.mediaFlush resolved.volume)
  if status ≠ .success then fail (filexErrno status) else pure ()

/-! ## Status -/

/-- The inode number of `fill_stat`. -/
def inodeOf (path : Bytes) : UInt32 :=
  path.foldl (fun inode c => (inode ^^^ (foldAsciiCase c).toUInt32) * 16777619) 2166136261

/-- The time stamp of `fill_stat`; 0 unless the date exists. -/
def timeOf (stamp : Stamp) : Int :=
  let date : Date := ⟨stamp.year, stamp.month, stamp.day⟩
  if date.ok then
    date.sysDays * 86400 + stamp.hour * 3600 + stamp.minute * 60 + stamp.second
  else 0

/-- `fill_stat`. -/
def fillStat (path : Bytes) (info : EntryInformation) : FileStat where
  mode := (if info.directory then 0o040000 else 0o100000) ||| (if info.readOnly then 0o444 else 0o666)
    ||| (if info.directory then 0o111 else 0)
  links := 1
  inode := inodeOf path
  size := info.size
  blockSize := 512
  blocks := (info.size + 511) / 512
  time := timeOf info.stamp

/-- `_fstat` into a structure that may be null. -/
def fstat (file : Int) (value : Bool) : FS σ FileStat := do
  if ¬ value then fails .EFAULT
  else if 0 ≤ file ∧ file ≤ 2 then pure ⟨0o020000 ||| 0o666, 0, 0, 0, 0, 0, 0⟩
  else do
    let b ← descriptorFor file
    let d := (← get).descriptors b
    let info ← information X platform (some d.path)
    let s ← get
    pure (fillStat d.path
      (if (s.descriptors b).openMode = none then info
        else { info with size := X.currentFileSize s.fx b }))

/-- The loop of `_stat` over the descriptors. -/
def reportedSize (s : State σ) (normalized : Bytes) : Nat → List Block → Nat
  | size, [] => size
  | size, b :: rest =>
      let d := s.descriptors b
      if d.allocated ∧ d.openMode ≠ none ∧ pathsEqual d.path normalized then
        -- the writer is authoritative
        if d.openMode = some .forWrite then X.currentFileSize s.fx b
        else reportedSize s normalized (max size (X.currentFileSize s.fx b)) rest
      else reportedSize s normalized size rest

/-- `_stat` into a structure that may be null. -/
def stat (path : Option Bytes) (value : Bool) : FS σ FileStat := do
  if ¬ value then fails .EFAULT
  else do
    let info ← information X platform path
    let normalized ← normalize path
    let s ← get
    pure (fillStat normalized
      { info with size := reportedSize X s normalized info.size (List.finRange _) })

/-! ## Names -/

/-- `_unlink`. -/
def unlink (path : Option Bytes) : FS σ Unit := do
  let (normalized, resolved) ← resolvePath platform path
  let info ← information X platform (some normalized)
  if info.directory then fails .EISDIR
  else if resolved.virtualRoot ∨ resolved.mountRoot then fails .EBUSY
  else do
    checked (X.fileDelete resolved.volume resolved.path)
    flushMedia X resolved.media

/-- `_mkdir`. -/
def mkdir (path : Option Bytes) : FS σ Unit := do
  let (_, resolved) ← resolvePath platform path
  if resolved.virtualRoot ∨ resolved.mountRoot then fails .EEXIST
  else do
    checked (X.directoryCreate resolved.volume resolved.path)
    flushMedia X resolved.media

/-- `_rmdir`. -/
def rmdir (path : Option Bytes) : FS σ Unit := do
  let (normalized, resolved) ← resolvePath platform path
  let info ← information X platform (some normalized)
  if ¬ info.directory then fails .ENOTDIR
  else if resolved.virtualRoot ∨ resolved.mountRoot then fails .EBUSY
  else if pathHasPrefix (← get).currentDirectory normalized true then fails .EBUSY
  else do
    checked (X.directoryDelete resolved.volume resolved.path)
    flushMedia X resolved.media

/-- `_chdir`. -/
def chdir (path : Option Bytes) : FS σ Unit := do
  let normalized ← normalize path
  let info ← information X platform (some normalized)
  if ¬ info.directory then fails .ENOTDIR
  else modify fun s => { s with currentDirectory := normalized }

/-! ## Rename -/

/-- Some path that a rename rewrites becomes too long. -/
def TooLong (s : State σ) (oldName newName : Bytes) (directory : Bool) : Prop :=
  (∃ b : Block, (s.descriptors b).allocated ∧
      maximumPath ≤ migratedPathLength (s.descriptors b).path oldName newName directory) ∨
    directory ∧
      (maximumPath ≤ migratedPathLength s.currentDirectory oldName newName true ∨
        ∃ i, (s.directories i).allocated ∧
          maximumPath ≤ migratedPathLength (s.directories i).path oldName newName true)

instance (s : State σ) (oldName newName : Bytes) (directory : Bool) :
    Decidable (TooLong s oldName newName directory) :=
  inferInstanceAs (Decidable (_ ∨ _))

/-- Some descriptor has a path at a name, or below it. -/
def InUse (s : State σ) (name : Bytes) (descendants : Bool) : Prop :=
  ∃ b : Block, (s.descriptors b).allocated ∧ pathHasPrefix (s.descriptors b).path name descendants

/-- Some descriptor with a handle has a path at a name, or below it. -/
def IsOpen (s : State σ) (name : Bytes) (descendants : Bool) : Prop :=
  ∃ b : Block, (s.descriptors b).allocated ∧ (s.descriptors b).openMode ≠ none ∧
    pathHasPrefix (s.descriptors b).path name descendants

instance (s : State σ) (name : Bytes) (descendants : Bool) : Decidable (InUse s name descendants) :=
  inferInstanceAs (Decidable (∃ _, _))

instance (s : State σ) (name : Bytes) (descendants : Bool) :
    Decidable (IsOpen s name descendants) :=
  inferInstanceAs (Decidable (∃ _, _))

/-- Whether the destination of a rename exists, which has then to be of the same kind. -/
def destinationExists (oldName newName : Bytes) (directory : Bool) : FS σ Bool := do
  let found ← observe (information X platform (some newName))
  match found with
  | .error e => if e = some .ENOENT then pure false else fail e
  | .ok info => do
      let s ← get
      if directory ≠ info.directory then fails (if directory then .ENOTDIR else .EISDIR)
      else if ¬ pathsEqual oldName newName ∧ directory ∧
          pathHasPrefix s.currentDirectory newName true then
        fails .EBUSY
      else if ¬ pathsEqual oldName newName ∧ InUse s newName info.directory then fails .EBUSY
      else pure true

/-- The destination is moved out of the way; its backup name. -/
def backUpDestination (volume : Volume) (newName : Bytes) (directory : Bool) : FS σ Bytes := do
  let backup ← findRenameBackup X platform volume
  renameEntry X platform directory newName backup
  pure backup

/-- The same, if there is a destination to be replaced. -/
def setAside (volume : Volume) (newName : Bytes) (directory replaced : Bool) :
    FS σ (Option Bytes) :=
  if replaced then do pure (some (← backUpDestination X platform volume newName directory))
  else pure none

/-- The source is renamed; if it fails, the destination is put back. -/
def moveSource (oldName newName : Bytes) (directory : Bool) (backup : Option Bytes) :
    FS σ Unit := do
  let moved ← observe (renameEntry X platform directory oldName newName)
  match moved, backup with
  | .ok (), _ => pure ()
  | .error e, none => fail e
  | .error e, some backup => do
      let restored ← observe (renameEntry X platform directory backup newName)
      match restored with
      | .ok () => fail e
      | .error e' => fail e'

/-- The paths that name the source, or something below it, follow it. -/
def migrated (oldName newName : Bytes) (directory : Bool) (s : State σ) : State σ :=
  { s with
    descriptors := fun b =>
      if (s.descriptors b).allocated then
        { s.descriptors b with
          path := migratePath (s.descriptors b).path oldName newName directory }
      else s.descriptors b
    currentDirectory :=
      if directory then migratePath s.currentDirectory oldName newName true
      else s.currentDirectory
    directories := fun i =>
      if directory ∧ (s.directories i).allocated then
        { s.directories i with path := migratePath (s.directories i).path oldName newName true }
      else s.directories i }

/-- `_rename` to another spelling, once the destination has been looked at. -/
def replace (volume : Volume) (oldName newName : Bytes) (directory replaced : Bool) :
    FS σ Unit := do
  when (replaced ∧ directory) (requireEmptyDirectory X platform newName)
  let s ← get
  when (IsOpen s oldName directory) (checked (X.mediaFlush volume))
  let backup ← setAside X platform volume newName directory replaced
  moveSource X platform oldName newName directory backup
  let deleted ← observe (match backup with
    | none => pure ()
    | some backup => deleteEntry X platform directory backup)
  modify (migrated oldName newName directory)
  ofExcept deleted
  flushMedia X (some volume)

/-- `_rename` once both names are resolved. -/
def renameResolved (volume : Volume) (oldName newName : Bytes) (directory : Bool) :
    FS σ Unit := do
  let s ← get
  if directory ∧ ¬ pathsEqual oldName newName ∧ pathHasPrefix newName oldName true then
    fails .EINVAL
  else if TooLong s oldName newName directory then fails .ENAMETOOLONG
  else if oldName = newName then pure ()
  else do
    let destination ← destinationExists X platform oldName newName directory
    replace X platform volume oldName newName directory
      (destination && !pathsEqual oldName newName)

/-- `_rename`. -/
def rename (oldPath newPath : Option Bytes) : FS σ Unit := do
  let (oldName, oldResolved) ← resolvePath platform oldPath
  let (newName, newResolved) ← resolvePath platform newPath
  let info ← information X platform (some oldName)
  if oldResolved.virtualRoot ∨ oldResolved.mountRoot ∨ newResolved.virtualRoot ∨
      newResolved.mountRoot then
    fails .EBUSY
  else if oldResolved.media ≠ newResolved.media then fails .EXDEV
  else renameResolved X platform oldResolved.volume oldName newName info.directory

/-! ## Time stamps -/

/-- The date and time of a number of seconds since 1970. -/
def stampOf (time : Int) : Stamp :=
  let date := yearMonthDay (time / 86400)
  let seconds := (time % 86400).toNat
  ⟨date.year.toNat, date.month, date.day, seconds / 3600, seconds / 60 % 60, seconds % 60⟩

/-- The date and the time of a directory entry. -/
def packDate (stamp : Stamp) : Nat := (stamp.year - 1980) <<< 9 ||| stamp.month <<< 5 ||| stamp.day

def packTime (stamp : Stamp) : Nat :=
  stamp.hour <<< 11 ||| stamp.minute <<< 5 ||| stamp.second / 2

/-- The handles that have a path open are given its time stamp. -/
def stampHandles (normalized : Bytes) (stamp : Stamp) : List Block → FS σ Unit
  | [] => pure ()
  | b :: rest => do
      let d := (← get).descriptors b
      when (d.allocated ∧ d.openMode ≠ none ∧ pathsEqual d.path normalized)
        (modify fun s =>
          { s with fx := X.setEntryDateTime b (packDate stamp) (packTime stamp) s.fx })
      stampHandles normalized stamp rest

/-- `_utime`, to `now` if no times are given. -/
def utime (path : Option Bytes) (times : Option Int) (now : Int) : FS σ Unit := do
  let (normalized, resolved) ← resolvePath platform path
  if resolved.virtualRoot ∨ resolved.mountRoot then fails .EROFS
  else do
    let _ ← information X platform (some normalized)
    let time := times.getD now
    if time < Date.sysDays ⟨1980, 1, 1⟩ * 86400 ∨ Date.sysDays ⟨2108, 1, 1⟩ * 86400 ≤ time then
      fails .EOVERFLOW
    else do
      let stamp := stampOf time
      flushMedia X resolved.media
      checked (X.fileDateTimeSet resolved.volume resolved.path stamp)
      stampHandles X normalized stamp (List.finRange _)
      flushMedia X resolved.media

/-! ## Runs -/

/-- A system call with its arguments. -/
inductive Request
  | open_ (path : Option Bytes) (flags : OpenFlags)
  | close (file : Int)
  | read (file : Int) (buffer : Bool) (length : Int)
  | write (file : Int) (buffer : Option Bytes) (length : Int)
  | lseek (file : Int) (offset : Int) (origin : Origin)
  | fstat (file : Int) (value : Bool)
  | stat (path : Option Bytes) (value : Bool)
  | unlink (path : Option Bytes)
  | rename (oldPath newPath : Option Bytes)
  | mkdir (path : Option Bytes)
  | rmdir (path : Option Bytes)
  | chdir (path : Option Bytes)
  | fsync (file : Int)
  | ftruncate (file : Int) (length : Int)
  | utime (path : Option Bytes) (times : Option Int) (now : Int)
  deriving DecidableEq, Repr

/-- What a call that does not fail returns. -/
inductive Reply
  | done
  | number (value : Int)
  | bytes (value : Bytes)
  | status (value : FileStat)
  deriving DecidableEq, Repr

def serve : Request → FS σ Reply
  | .open_ path flags => do pure (.number (← open_ X platform path flags))
  | .close file => do
      close X file
      pure .done
  | .read file buffer length => do pure (.bytes (← read X platform file buffer length))
  | .write file buffer length => do pure (.number (← write X platform file buffer length))
  | .lseek file offset origin => do pure (.number (← lseek X platform file offset origin))
  | .fstat file value => do pure (.status (← fstat X platform file value))
  | .stat path value => do pure (.status (← stat X platform path value))
  | .unlink path => do
      unlink X platform path
      pure .done
  | .rename oldPath newPath => do
      rename X platform oldPath newPath
      pure .done
  | .mkdir path => do
      mkdir X platform path
      pure .done
  | .rmdir path => do
      rmdir X platform path
      pure .done
  | .chdir path => do
      chdir X platform path
      pure .done
  | .fsync file => do
      fsync X platform file
      pure .done
  | .ftruncate file length => do
      ftruncate X platform file length
      pure .done
  | .utime path times now => do
      utime X platform path times now
      pure .done

/-- One call after the other; a call that does not return has no next state. -/
def request (s : State σ) (r : Request) : Option (State σ) :=
  (serve X platform r s).map (·.2)

end

end Libc
end NucleoBase
