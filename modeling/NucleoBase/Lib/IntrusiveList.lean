/-
  NucleoBase.Lib.IntrusiveList

  Doubly linked lists whose nodes carry the links themselves.

  `Links` is the pointer structure: the ends of the list and, in every node,
  the pointers to its neighbours.  `Represents d l` says that the pointers
  spell the list `l`, read in either direction.  Appending and removing a
  node do to `l` what they should, wherever in the list the node is.
-/

import Mathlib.Data.List.Nodup
import Mathlib.Logic.Function.Basic

namespace NucleoBase
namespace Lib

/-- The ends of a list of nodes and the links in the nodes. -/
structure Links (α : Type*) where
  first : Option α
  last : Option α
  next : α → Option α
  previous : α → Option α

namespace Links

variable {α : Type*}

/-- The links spell the list `l`: the ends are its ends, the neighbours of
    each node are its neighbours, and no node occurs twice. -/
structure Represents (d : Links α) (l : List α) : Prop where
  nodup : l.Nodup
  first : d.first = l.head?
  last : d.last = l.getLast?
  next : ∀ l₁ a l₂, l = l₁ ++ a :: l₂ → d.next a = l₂.head?
  previous : ∀ l₁ a l₂, l = l₁ ++ a :: l₂ → d.previous a = l₁.getLast?

/-- Only the nodes of the list matter. -/
theorem Represents.congr {d e : Links α} {l : List α} (h : Represents d l)
    (hfirst : e.first = d.first) (hlast : e.last = d.last)
    (hnext : ∀ a ∈ l, e.next a = d.next a) (hprevious : ∀ a ∈ l, e.previous a = d.previous a) :
    Represents e l where
  nodup := h.nodup
  first := hfirst.trans h.first
  last := hlast.trans h.last
  next l₁ a l₂ hl := (hnext a (by simp [hl])).trans (h.next l₁ a l₂ hl)
  previous l₁ a l₂ hl := (hprevious a (by simp [hl])).trans (h.previous l₁ a l₂ hl)

/-- The empty list, whatever is left in the nodes. -/
theorem represents_nil (next previous : α → Option α) :
    Represents ⟨none, none, next, previous⟩ [] where
  nodup := List.nodup_nil
  first := rfl
  last := rfl
  next l₁ a l₂ hl := by simp at hl
  previous l₁ a l₂ hl := by simp at hl

theorem getLast?_append_cons_concat (l k : List α) (a z : α) :
    (l ++ a :: (k ++ [z])).getLast? = some z := by
  rw [← List.cons_append, ← List.append_assoc, List.getLast?_concat]

/-- A node of `l ++ [x]` is the new one, or splits `l` with `x` at the end. -/
theorem split_append {l l₁ l₂ : List α} {x a : α} (hl : l ++ [x] = l₁ ++ a :: l₂) :
    (l₁ = l ∧ a = x ∧ l₂ = []) ∨ ∃ m, l = l₁ ++ a :: m ∧ l₂ = m ++ [x] := by
  rcases List.eq_nil_or_concat' l₂ with rfl | ⟨m, y, rfl⟩
  · have := List.append_inj' hl rfl
    simp_all
  · have hl : l ++ [x] = (l₁ ++ a :: m) ++ [y] := by simpa using hl
    obtain ⟨h, hxy⟩ := List.append_inj' hl rfl
    exact .inr ⟨m, h, by simp_all⟩

/-- A node that is left when `x` is taken out of `k₁ ++ x :: k₂` stood before
    it or behind it. -/
theorem split_remove {k₁ k₂ l₁ l₂ : List α} {a : α} (hl : k₁ ++ k₂ = l₁ ++ a :: l₂) :
    (∃ m, k₁ = l₁ ++ a :: m ∧ l₂ = m ++ k₂) ∨ ∃ m, k₂ = m ++ a :: l₂ ∧ l₁ = k₁ ++ m := by
  rcases List.append_eq_append_iff.mp hl with ⟨m, rfl, rfl⟩ | ⟨m, rfl, hm⟩
  · exact .inr ⟨m, rfl, rfl⟩
  · cases m with
    | nil => exact .inr ⟨[], by simpa using hm.symm, by simp⟩
    | cons b m =>
        obtain ⟨rfl, rfl⟩ := List.cons.inj hm
        exact .inl ⟨m, rfl, rfl⟩

variable [DecidableEq α]

/-- Link `a` behind the last node. -/
def append (d : Links α) (a : α) : Links α where
  first := if d.last = none then some a else d.first
  last := some a
  next b := if b = a then none else if d.last = some b then some a else d.next b
  previous := Function.update d.previous a d.last

/-- Unlink `a` from its neighbours, or from the ends where it has none. -/
def remove (d : Links α) (a : α) : Links α where
  first := if d.previous a = none then d.next a else d.first
  last := if d.next a = none then d.previous a else d.last
  next b := if d.previous a = some b then d.next a else d.next b
  previous b := if d.next a = some b then d.previous a else d.previous b

theorem Represents.append {d : Links α} {l : List α} (h : Represents d l) {x : α} (hx : x ∉ l) :
    Represents (d.append x) (l ++ [x]) where
  nodup := by
    rw [List.nodup_append]
    exact ⟨h.nodup, List.nodup_singleton x, by grind⟩
  first := by
    simp only [Links.append, h.first, h.last]
    cases l <;> simp
  last := by simp [Links.append]
  next l₁ a l₂ hl := by
    rcases split_append hl with ⟨-, rfl, rfl⟩ | ⟨m, rfl, rfl⟩
    · simp [Links.append]
    · have hax : a ≠ x := fun h => hx (by simp [h])
      have hnext := h.next l₁ a m rfl
      have hnodup := h.nodup
      simp only [Links.append, if_neg hax, h.last]
      rcases List.eq_nil_or_concat' m with rfl | ⟨k, z, rfl⟩
      · simp
      · have hza : z ≠ a := by grind
        rw [getLast?_append_cons_concat, if_neg (by simpa using hza), hnext]
        simp
  previous l₁ a l₂ hl := by
    rcases split_append hl with ⟨rfl, rfl, rfl⟩ | ⟨m, rfl, rfl⟩
    · simp [Links.append, h.last]
    · have hax : a ≠ x := fun h => hx (by simp [h])
      simp [Links.append, hax, h.previous l₁ a m rfl]

theorem Represents.remove {d : Links α} {l : List α} (h : Represents d l) {x : α} (hx : x ∈ l) :
    Represents (d.remove x) (l.erase x) := by
  obtain ⟨k₁, k₂, rfl⟩ := List.append_of_mem hx
  have hnodup := h.nodup
  have hprevious := h.previous k₁ x k₂ rfl
  have hnext := h.next k₁ x k₂ rfl
  have hx₁ : x ∉ k₁ := by grind
  rw [List.erase_append_right _ hx₁, List.erase_cons_head]
  refine ⟨by grind, ?_, ?_, fun l₁ a l₂ hl => ?_, fun l₁ a l₂ hl => ?_⟩
  · simp only [Links.remove, hprevious, hnext, h.first]
    cases k₁ <;> simp
  · simp only [Links.remove, hprevious, hnext, h.last]
    rcases List.eq_nil_or_concat' k₂ with rfl | ⟨m, z, rfl⟩
    · simp
    · rw [getLast?_append_cons_concat, ← List.append_assoc, List.getLast?_concat]
      simp
  · simp only [Links.remove, hprevious, hnext]
    rcases split_remove hl with ⟨m, rfl, rfl⟩ | ⟨m, rfl, rfl⟩
    · -- `a` stands before `x`: its link changes if nothing is between them
      have ha := h.next l₁ a (m ++ x :: k₂) (by simp)
      rcases List.eq_nil_or_concat' m with rfl | ⟨m, z, rfl⟩
      · simp
      · have hza : z ≠ a := by grind
        rw [getLast?_append_cons_concat, if_neg (by simpa using hza), ha]
        simp
    · have ha := h.next (k₁ ++ x :: m) a l₂ (by simp)
      have hlast : k₁.getLast? ≠ some a := fun hk => by
        have := List.mem_of_getLast? hk
        grind
      rw [if_neg hlast, ha]
  · simp only [Links.remove, hprevious, hnext]
    rcases split_remove hl with ⟨m, rfl, rfl⟩ | ⟨m, rfl, rfl⟩
    · have ha := h.previous l₁ a (m ++ x :: k₂) (by simp)
      have hhead : k₂.head? ≠ some a := fun hk => by
        have := List.mem_of_head? hk
        grind
      rw [if_neg hhead, ha]
    · -- `a` stands behind `x`
      have ha := h.previous (k₁ ++ x :: m) a l₂ (by simp)
      cases m with
      | nil => simp
      | cons b m =>
          have hba : b ≠ a := by grind
          rw [List.cons_append, List.head?_cons, if_neg (by simpa using hba), ha]
          simp [List.getLast?_append, List.getLast?_cons]

end Links

end Lib
end NucleoBase
