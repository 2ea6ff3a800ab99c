/-
  NucleoBase.Lib.CharArray

  Character arrays, and the strings in them that end at a null character.

  An access outside of the array has no result.  What an array holds is said by
  a prefix of it; the rest of the array is whatever it was before.
-/

import Mathlib.Data.List.Infix
import Mathlib.Tactic.Common

namespace NucleoBase
namespace Lib

/-- A string without the null character that ends it. -/
structure CString (α : Type*) [Zero α] where
  bytes : List α
  ended : 0 ∉ bytes

namespace CharArray

variable {α : Type*}

/-! ## Accesses -/

/-- `a[i] = c`. -/
def store (a : List α) (i : Nat) (c : α) : Option (List α) :=
  if i < a.length then some (a.set i c) else none

/-- `memcpy(a + i, bs, n)`. -/
def copy (a : List α) (i : Nat) (bs : List α) : Option (List α) :=
  if i + bs.length ≤ a.length then some (a.take i ++ bs ++ a.drop (i + bs.length)) else none

/-- The `n` characters from `a + i` on. -/
def load (a : List α) (i n : Nat) : Option (List α) :=
  if i + n ≤ a.length then some ((a.drop i).take n) else none

/-- `while (p(a[i])) ++i;`. -/
def scan (p : α → Bool) (a : List α) (i : Nat) : Option Nat :=
  if h : i < a.length then
    if p a[i] then scan p a (i + 1) else some i
  else none
  termination_by a.length - i

/-- `strlen(a)`. -/
def strlen [Zero α] [DecidableEq α] (a : List α) : Option Nat := scan (fun c => c ≠ 0) a 0

/-- The string in an array. -/
structure Holds [Zero α] (a s : List α) : Prop where
  ended : 0 ∉ s
  start : s ++ [0] <+: a

/-! ## Accesses to what is there -/

variable {a s t m : List α} {c d : α}

theorem getElem?_of_prefix (h : s ++ c :: t <+: a) : a[s.length]? = some c := by
  obtain ⟨rest, rfl⟩ := h
  rw [List.append_assoc, List.getElem?_append_right (Nat.le_refl _), Nat.sub_self]
  rfl

theorem length_of_prefix (h : s <+: a) : s.length ≤ a.length := h.length_le

theorem store_of_prefix (h : s <+: a) (hlt : s.length < a.length) (c : α) :
    ∃ b, store a s.length c = some b ∧ s ++ [c] <+: b ∧ b.length = a.length := by
  obtain ⟨rest, rfl⟩ := h
  refine ⟨_, if_pos hlt, ?_, List.length_set⟩
  rw [List.set_append_right _ _ (Nat.le_refl _), Nat.sub_self]
  cases rest with
  | nil => simp at hlt
  | cons d rest => exact ⟨rest, by simp⟩

theorem copy_of_prefix (h : s <+: a) (hle : s.length + t.length ≤ a.length) :
    ∃ b, copy a s.length t = some b ∧ s ++ t <+: b ∧ b.length = a.length := by
  obtain ⟨rest, rfl⟩ := h
  refine ⟨_, if_pos hle, ?_, ?_⟩
  · rw [List.take_left]
    exact List.prefix_append _ _
  · simp only [List.length_append, List.length_take, List.length_drop] at hle ⊢
    omega

theorem load_of_prefix (h : s ++ t <+: a) : load a s.length t.length = some t := by
  have hle := h.length_le
  obtain ⟨rest, rfl⟩ := h
  rw [load, if_pos (by simpa using hle), List.append_assoc, List.drop_left, List.take_left]

/-- A loop ends at the first character that it does not pass over. -/
theorem scan_of_prefix {p : α → Bool} (h : s ++ m ++ c :: t <+: a) (hm : ∀ d ∈ m, p d = true)
    (hc : p c = false) : scan p a s.length = some (s.length + m.length) := by
  induction m generalizing s with
  | nil =>
      rw [List.append_nil] at h
      have hget := getElem?_of_prefix h
      obtain ⟨hlt, hget⟩ := List.getElem?_eq_some_iff.mp hget
      rw [scan, dif_pos hlt, hget, hc]
      rfl
  | cons d m ih =>
      have hget : a[s.length]? = some d :=
        getElem?_of_prefix (t := m ++ c :: t) (by simpa using h)
      obtain ⟨hlt, hget⟩ := List.getElem?_eq_some_iff.mp hget
      have hrest := ih (s := s ++ [d]) (by simpa using h)
        (fun e he => hm e (List.mem_cons_of_mem d he))
      rw [List.length_append, List.length_singleton] at hrest
      rw [scan, dif_pos hlt, hget, hm d List.mem_cons_self, if_pos rfl, hrest, List.length_cons]
      congr 1
      omega

/-! ## Ranges -/

/-- The `n` characters from the `i`-th on. -/
def slice (a : List α) (i n : Nat) : List α := (a.drop i).take n

/-- An array with other characters from the `i`-th on. -/
def patch (a : List α) (i : Nat) (bs : List α) : List α :=
  a.take i ++ bs ++ a.drop (i + bs.length)

variable {i n : Nat}

theorem load_eq (h : i + n ≤ a.length) : load a i n = some (slice a i n) := if_pos h

theorem copy_eq (h : i + t.length ≤ a.length) : copy a i t = some (patch a i t) := if_pos h

theorem length_slice (h : i + n ≤ a.length) : (slice a i n).length = n := by
  rw [slice, List.length_take, List.length_drop]
  omega

theorem length_patch (h : i + t.length ≤ a.length) : (patch a i t).length = a.length := by
  simp only [patch, List.length_append, List.length_take, List.length_drop]
  omega

@[simp] theorem slice_zero (a : List α) (i : Nat) : slice a i 0 = [] := List.take_zero

@[simp] theorem patch_nil (a : List α) (i : Nat) : patch a i [] = a := by
  rw [patch, List.append_nil, List.length_nil, Nat.add_zero, List.take_append_drop]

/-- A range is its first part and the rest. -/
theorem slice_add (a : List α) (i m n : Nat) :
    slice a i (m + n) = slice a i m ++ slice a (i + m) n := by
  rw [slice, slice, slice, List.take_add, List.drop_drop]

/-- Ranges written one after the other are one range. -/
theorem patch_patch (h : i + s.length ≤ a.length) :
    patch (patch a i s) (i + s.length) t = patch a i (s ++ t) := by
  have hlen : (a.take i ++ s).length = i + s.length := by
    rw [List.length_append, List.length_take]
    omega
  have htake : (a.take i ++ s ++ a.drop (i + s.length)).take (i + s.length) = a.take i ++ s := by
    rw [← hlen, List.take_left]
  have hdrop : (a.take i ++ s ++ a.drop (i + s.length)).drop (i + s.length + t.length) =
      a.drop (i + (s ++ t).length) := by
    rw [← List.drop_drop, ← hlen, List.drop_left, hlen, List.drop_drop, List.length_append,
      Nat.add_assoc]
  rw [patch, patch, htake, hdrop, patch, List.append_assoc (a.take i)]

/-! ## Strings -/

variable [Zero α]

theorem Holds.length_lt (h : Holds a s) : s.length < a.length := by
  have := h.start.length_le
  rw [List.length_append, List.length_singleton] at this
  omega

theorem Holds.strlen [DecidableEq α] (h : Holds a s) : strlen a = some s.length := by
  have hscan := scan_of_prefix (s := []) (m := s) (t := []) (p := fun c => decide (c ≠ 0))
    h.start (fun c hc => decide_eq_true fun hzero => h.ended (hzero ▸ hc)) (by simp)
  rwa [List.length_nil, Nat.zero_add] at hscan

theorem Holds.load (h : Holds a s) : load a 0 s.length = some s :=
  load_of_prefix (s := []) ((List.prefix_append s [0]).trans h.start)

/-- A null character after a prefix makes it the string. -/
theorem Holds.of_store (h : s <+: a) (hlt : s.length < a.length) (hs : 0 ∉ s) :
    ∃ b, store a s.length 0 = some b ∧ Holds b s ∧ b.length = a.length := by
  obtain ⟨b, hstore, hb, hlen⟩ := store_of_prefix h hlt 0
  exact ⟨b, hstore, ⟨hs, hb⟩, hlen⟩

end CharArray

end Lib
end NucleoBase
