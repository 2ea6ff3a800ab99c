/-
  NucleoBase.Libc.Path

  The path functions of the file-system adapter (libc/filesystem.cpp): making a
  path absolute and normal, finding the volume it is on, comparing paths, and
  rewriting a path when one of its ancestors is renamed.

  A C string is the list of its bytes before the terminator; a character array
  is the string it holds.
-/

import Mathlib.Data.UInt
import Mathlib.Data.List.SplitOn
import Mathlib.Tactic.Common

namespace NucleoBase
namespace Libc

abbrev Bytes := List UInt8

/-- The error numbers of the adapter. -/
inductive Errno
  | EACCES | EBADF | EBUSY | EEXIST | EFAULT | EINTR | EINVAL | EIO | EISDIR | EMFILE
  | ENAMETOOLONG | ENODEV | ENOENT | ENOSPC | ENOTDIR | ENOTEMPTY | ENOTSUP | EOVERFLOW
  | EROFS | EXDEV
  deriving DecidableEq, Repr

/-- `MAXIMUM_PATH`. -/
def maximumPath : Nat := 256

/-- `'/'`. -/
def slash : UInt8 := 47

/-- `'\\'`. -/
def backslash : UInt8 := 92

/-- `'.'`. -/
def dot : UInt8 := 46

def isSeparator (c : UInt8) : Bool := c == slash || c == backslash

/-! ## Normalization -/

/-- The loop that goes back over one component of `output`, last byte first. -/
def backUp : Bytes → Bytes
  | [] => []
  | [c] => [c]
  | c :: d :: rest => if c = slash then c :: d :: rest else backUp (d :: rest)

/-- What `".."` does to `output`. -/
def parentOf (output : Bytes) : Bytes :=
  match backUp output.reverse.tail with
  | [] => []
  | [c] => [c]
  | _ :: rest => rest.reverse

/-- One round of the loop of `normalize_path_unlocked`. -/
def pushComponent (output component : Bytes) : Except Errno Bytes :=
  if component = [] ∨ component = [dot] then .ok output
  else if component = [dot, dot] then
    if output.length = 1 then .error .EACCES else .ok (parentOf output)
  else if output.length ≠ 1 then
    if output.length + 1 ≥ maximumPath then .error .ENAMETOOLONG
    else if component.length ≥ maximumPath - (output.length + 1) then .error .ENAMETOOLONG
    else .ok (output ++ slash :: component)
  else if component.length ≥ maximumPath - output.length then .error .ENAMETOOLONG
  else .ok (output ++ component)

/-- The loop of `normalize_path_unlocked` over the components of the source. -/
def pushComponents : Bytes → List Bytes → Except Errno Bytes
  | output, [] => .ok output
  | output, component :: rest => (pushComponent output component).bind (pushComponents · rest)

/-- What the path is appended to: the current directory, unless it is absolute. -/
def startOf (currentDirectory : Bytes) (first : UInt8) : Except Errno Bytes :=
  if isSeparator first then .ok []
  else if currentDirectory.length ≥ maximumPath then .error .ENAMETOOLONG
  else if currentDirectory.length > 1 ∧ currentDirectory.getLast? ≠ some slash then
    .ok (currentDirectory ++ [slash])
  else .ok currentDirectory

/-- `normalize_path_unlocked`, of a path that may be null. -/
def normalizePath (currentDirectory : Bytes) : Option Bytes → Except Errno Bytes
  | none => .error .ENOENT
  | some [] => .error .ENOENT
  | some (first :: rest) =>
      (startOf currentDirectory first).bind fun start =>
        if (first :: rest).length ≥ maximumPath - start.length then .error .ENAMETOOLONG
        else pushComponents [slash] ((start ++ first :: rest).splitOnP isSeparator)

/-! ## Comparison -/

def foldAsciiCase (c : UInt8) : UInt8 := if 97 ≤ c ∧ c ≤ 122 then c - 97 + 65 else c

def pathHasPrefix : Bytes → Bytes → Bool → Bool
  | [], [], _ => true
  | c :: _, [], includeDescendants => includeDescendants && c == slash
  | [], _ :: _, _ => false
  | c :: path, d :: pre, includeDescendants =>
      foldAsciiCase c == foldAsciiCase d && pathHasPrefix path pre includeDescendants

def pathsEqual (first second : Bytes) : Bool := pathHasPrefix first second false

/-! ## Volumes -/

inductive Volume
  | flash | sd
  deriving DecidableEq, Repr

/-- `"/flash"` or `"/sd"`. -/
def mountName : Volume → Bytes
  | .flash => [47, 102, 108, 97, 115, 104]
  | .sd => [47, 115, 100]

structure ResolvedPath where
  volume : Volume
  /-- The path within the volume. -/
  path : Bytes
  virtualRoot : Bool
  mountRoot : Bool
  deriving DecidableEq, Repr

/-- One round of the loop of `resolve_normalized_path`. -/
def resolveOn (mounted : Volume → Bool) (normalized : Bytes) (volume : Volume) :
    Except Errno ResolvedPath :=
  if mounted volume then
    match normalized.drop (mountName volume).length with
    | [] => .ok ⟨volume, [slash], false, true⟩
    | rest => .ok ⟨volume, rest, false, false⟩
  else .error .ENODEV

def resolveNormalizedPath (mounted : Volume → Bool) (normalized : Bytes) :
    Except Errno ResolvedPath :=
  if normalized = [slash] then .ok ⟨.flash, [slash], true, false⟩
  else if pathHasPrefix normalized (mountName .flash) true then
    resolveOn mounted normalized .flash
  else if pathHasPrefix normalized (mountName .sd) true then
    resolveOn mounted normalized .sd
  else .error .ENOENT

/-! ## Migration -/

def migratedPathLength (path oldPrefix newPrefix : Bytes) (includeDescendants : Bool) : Nat :=
  if pathHasPrefix path oldPrefix includeDescendants then
    newPrefix.length + (path.drop oldPrefix.length).length
  else path.length

def migratePath (path oldPrefix newPrefix : Bytes) (includeDescendants : Bool) : Bytes :=
  if pathHasPrefix path oldPrefix includeDescendants then
    newPrefix ++ path.drop oldPrefix.length
  else path

end Libc
end NucleoBase
