/-
  NucleoBase.Libc.Rename

  What `_rename` does to the names of the volumes, whichever calls of FileX fail:
  the source takes the destination's place, or names stay as they are.  Only if
  a call fails that should have tidied up is the old destination left under a
  backup name.
-/

import NucleoBase.Libc.CurrentDirectory

namespace NucleoBase
namespace Libc

open Lib Lib.Program

variable {σ : Type} {X : FileX σ} {names : σ → Forest} {platform : Platform} {u : State σ}

/-- The names after an entry has taken the place of another. -/
def Forest.rename (ns : Forest) (v : Volume) (src dst : List Bytes) : Forest :=
  Function.update ns v ((ns v).replace src dst)

/-- The names after an entry has moved. -/
def Forest.shift (ns : Forest) (v : Volume) (src dst : List Bytes) : Forest :=
  Function.update ns v ((ns v).move src dst)

/-! ## Looking around -/

/-- What the adapter itself keeps of files, but for the number of the next backup name. -/
structure SameBooks (u s : State σ) : Prop where
  descriptors : s.descriptors = u.descriptors
  directories : s.directories = u.directories
  current : s.currentDirectory = u.currentDirectory

/-- Names have been looked up, and nothing else. -/
structure Looks (names : σ → Forest) (u s : State σ) : Prop where
  books : SameBooks u s
  names : names s.fx = names u.fx

instance : Std.Refl (Looks names) := ⟨fun _ => ⟨⟨rfl, rfl, rfl⟩, rfl⟩⟩

instance : IsTrans (State σ) (Looks names) := ⟨fun _ _ _ h h' =>
  ⟨⟨h'.books.descriptors.trans h.books.descriptors, h'.books.directories.trans h.books.directories,
    h'.books.current.trans h.books.current⟩, h'.names.trans h.names⟩⟩

theorem Looks.refl (u : State σ) : Looks names u u := Std.Refl.refl u

theorem Looks.fx {s : State σ} (h : Looks names u s) {fx : σ} (hfx : names fx = names s.fx) :
    Looks names u { s with fx := fx } :=
  ⟨⟨h.books.descriptors, h.books.directories, h.books.current⟩, hfx.trans h.names⟩

section

variable {α : Type}

end

section Names

variable (hN : X.Keeps names)

include hN

theorem FileX.Keeps.quiet {fx fx' : σ} (h : Quiet X fx fx') : names fx' = names fx :=
  hN.data fx fx' (.quiet h)

end Names

/-! ## The outcomes -/

/-- What is replaced is of the same kind, has nothing below it and is open in no descriptor. -/
structure Replaceable (ns : Forest) (u : State σ) (new : Bytes) (v : Volume) (dst : List Bytes)
    (directory : Bool) : Prop where
  kind : ∀ m, ns v (key dst) = some m → (m.IsDirectory ↔ directory = true)
  empty : ∀ q, key dst <+: q → key dst ≠ q → ns v q = none
  unused : ns v (key dst) ≠ none → ¬ InUse u new directory

/-- How a rename can end, and whether it has returned 0. -/
inductive Ending (X : FileX σ) (names : σ → Forest) (u : State σ) (old new : Bytes) (v : Volume)
    (src dst : List Bytes) (directory : Bool) : Bool → State σ → Prop
  /-- It was refused, or failed with nothing to put back, or with all of it put back. -/
  | unchanged {s : State σ} : Looks names u s →
      Ending X names u old new v src dst directory false s
  /-- The new name is the old one. -/
  | same {s : State σ} : old = new → Looks names u s →
      Ending X names u old new v src dst directory true s
  /-- It is done; it fails then only if the volume could not be flushed. -/
  | renamed {s : State σ} {returned : Bool} :
      (key src ≠ key dst → Replaceable (names u.fx) u new v dst directory) →
      names s.fx = (names u.fx).rename v (key src) (key dst) →
      SameBooks (migrated old new directory u) s →
      (returned = false → ∃ fx, (X.mediaFlush v fx).1 ≠ .success) →
      Ending X names u old new v src dst directory returned s
  /-- The old destination could not be deleted and is there under a backup name. -/
  | left {s : State σ} {a : Bytes} : names u.fx v [a] = none → names u.fx v (key dst) ≠ none →
      names s.fx = ((names u.fx).shift v (key dst) [a]).shift v (key src) (key dst) →
      SameBooks (migrated old new directory u) s →
      (∃ name fx, (X.entryDelete directory v name fx).1 ≠ .success) →
      Ending X names u old new v src dst directory false s
  /-- The source could not be renamed, nor the destination put back. -/
  | stranded {s : State σ} {a : Bytes} : names u.fx v [a] = none → names u.fx v (key dst) ≠ none →
      names s.fx = (names u.fx).shift v (key dst) [a] → SameBooks u s →
      (∃ name fx, (X.entryRename directory v name (render dst) fx).1 ≠ .success) →
      Ending X names u old new v src dst directory false s

section Replace

variable {v : Volume} {old new : Bytes} {src dst : List Bytes} {directory : Bool}

variable (hX : X.Documented) (hN : X.Keeps names)
  (hrename : Renaming platform u v old new src dst directory)

include hX hN hrename

omit hX hN hrename in
theorem SameBooks.migrated {s : State σ} (h : SameBooks u s) (old new : Bytes) (directory : Bool) :
    SameBooks (migrated old new directory u) (migrated old new directory s) := by
  refine ⟨?_, ?_, ?_⟩
  · simp only [Libc.migrated, h.descriptors]
  · simp only [Libc.migrated, h.directories]
  · simp only [Libc.migrated, h.current]

end Replace

section

variable {v : Volume} {old new : Bytes} {src dst : List Bytes} {directory returned : Bool}
  {s : State σ} (hsource : names u.fx v (key src) ≠ none)
  (h : Ending X names u old new v src dst directory returned s)

include hsource h

end

end Libc
end NucleoBase
