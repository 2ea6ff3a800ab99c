/-
  NucleoBase.Lib.ByteFile

  Files as POSIX has them: a list of bytes and an offset that may lie past its
  end.  What is written past the end leaves padding behind it.
-/

import Mathlib.Data.List.Basic
import Mathlib.Tactic.Common

namespace NucleoBase
namespace Lib

variable {α : Type*}

/-- The list made at least `n` long. -/
def padTo (pad : α) (bytes : List α) (n : Nat) : List α :=
  bytes ++ List.replicate (n - bytes.length) pad

/-- The list with a run from `offset` on replaced, or added behind its end. -/
def overwrite (bytes : List α) (offset : Nat) (new : List α) : List α :=
  bytes.take offset ++ new ++ bytes.drop (offset + new.length)

section Lists

variable {pad : α} {bytes new : List α} {offset m n : Nat}

@[simp]
theorem length_padTo : (padTo pad bytes n).length = max bytes.length n := by
  simp only [padTo, List.length_append, List.length_replicate]
  omega

theorem padTo_of_le (h : n ≤ bytes.length) : padTo pad bytes n = bytes := by
  simp [padTo, Nat.sub_eq_zero_of_le h]

theorem padTo_padTo (h : m ≤ n) : padTo pad (padTo pad bytes m) n = padTo pad bytes n := by
  rw [padTo, length_padTo, padTo, padTo, List.append_assoc, List.replicate_append_replicate]
  congr 2
  omega

theorem length_overwrite (h : offset ≤ bytes.length) :
    (overwrite bytes offset new).length = max bytes.length (offset + new.length) := by
  simp only [overwrite, List.length_append, List.length_take, List.length_drop]
  omega

/-- Padding is what is written at the end. -/
theorem overwrite_end (bytes : List α) (n : Nat) :
    overwrite bytes bytes.length (List.replicate n pad) = padTo pad bytes (bytes.length + n) := by
  simp [overwrite, padTo]

end Lists

structure ByteFile (α : Type*) where
  bytes : List α
  offset : Nat
  deriving DecidableEq

namespace ByteFile

/-- Up to `n` bytes from the offset on. -/
def read (f : ByteFile α) (n : Nat) : List α × ByteFile α :=
  ((f.bytes.drop f.offset).take n,
    { f with offset := f.offset + ((f.bytes.drop f.offset).take n).length })

def write (pad : α) (f : ByteFile α) (new : List α) : ByteFile α :=
  ⟨overwrite (padTo pad f.bytes f.offset) f.offset new, f.offset + new.length⟩

/-- The file is made `n` bytes long. -/
def resize (pad : α) (f : ByteFile α) (n : Nat) : ByteFile α :=
  { f with bytes := (padTo pad f.bytes n).take n }

variable {pad : α} {f : ByteFile α} {new : List α} {n : Nat}

theorem read_past_end (h : f.bytes.length ≤ f.offset) : f.read n = ([], f) := by
  simp [read, List.drop_eq_nil_of_le h]

theorem resize_shrink (h : n ≤ f.bytes.length) :
    f.resize pad n = { f with bytes := f.bytes.take n } := by
  simp [resize, padTo_of_le h]

theorem resize_grow (h : f.bytes.length ≤ n) :
    f.resize pad n = { f with bytes := padTo pad f.bytes n } := by
  rw [resize, List.take_of_length_le]
  rw [length_padTo]
  omega

end ByteFile

end Lib
end NucleoBase
