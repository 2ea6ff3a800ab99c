/-
  NucleoBase.Backend.ConditionList

  The waiter list of a condition: `append_waiter` and `remove_waiter` are the
  operations of an intrusive list, and they touch nothing else.
-/

import NucleoBase.Backend.Condition

namespace NucleoBase
namespace Backend
namespace Condition

open Lib ThreadX

variable {Thread M : Type*}

/-- The pointers of the waiter list. -/
def State.links (s : State Thread M) : Links Thread where
  first := s.first
  last := s.last
  next t := (s.waiter t).next
  previous t := (s.waiter t).previous

variable [DecidableEq Thread] {s : State Thread M} {t : Thread} {l : List Thread}

/-! ## What the operations leave alone -/

@[simp] theorem waiter_modify (f : Waiter Thread → Waiter Thread) (u : Thread) :
    (s.modify t f).waiter u = if u = t then f (s.waiter t) else s.waiter u := by
  simp [State.modify, Function.update_apply]

@[simp] theorem modify_frame (f : Waiter Thread → Waiter Thread) :
    (s.modify t f).life = s.life ∧ (s.modify t f).mutex = s.mutex ∧
      (s.modify t f).userMutex = s.userMutex ∧ (s.modify t f).pc = s.pc :=
  ⟨rfl, rfl, rfl, rfl⟩

/-- An update of the semaphore leaves the list alone. -/
theorem links_modify {f : Waiter Thread → Waiter Thread} {n : Option Nat}
    (hf : ∀ w, f w = { w with semaphore := n }) : (s.modify t f).links = s.links := by
  simp only [State.links, Links.mk.injEq]
  refine ⟨rfl, rfl, funext fun u => ?_, funext fun u => ?_⟩ <;> grind [waiter_modify]

theorem linked_modify {f : Waiter Thread → Waiter Thread} {n : Option Nat}
    (hf : ∀ w, f w = { w with semaphore := n }) (u : Thread) :
    ((s.modify t f).waiter u).linked = (s.waiter u).linked := by
  grind [waiter_modify]

@[simp] theorem appendWaiter_frame :
    (s.appendWaiter t).life = s.life ∧ (s.appendWaiter t).mutex = s.mutex ∧
      (s.appendWaiter t).userMutex = s.userMutex ∧ (s.appendWaiter t).pc = s.pc := by
  simp only [State.appendWaiter]
  split <;> exact ⟨rfl, rfl, rfl, rfl⟩

@[simp] theorem removeWaiter_frame :
    (s.removeWaiter t).life = s.life ∧ (s.removeWaiter t).mutex = s.mutex ∧
      (s.removeWaiter t).userMutex = s.userMutex ∧ (s.removeWaiter t).pc = s.pc := by
  simp only [State.removeWaiter]
  split
  · exact ⟨rfl, rfl, rfl, rfl⟩
  · split <;> split <;> exact ⟨rfl, rfl, rfl, rfl⟩

@[simp] theorem semaphore_appendWaiter (u : Thread) :
    ((s.appendWaiter t).waiter u).semaphore = (s.waiter u).semaphore := by
  simp only [State.appendWaiter]
  split <;> grind [waiter_modify]

@[simp] theorem semaphore_removeWaiter (u : Thread) :
    ((s.removeWaiter t).waiter u).semaphore = (s.waiter u).semaphore := by
  simp only [State.removeWaiter]
  split
  · rfl
  · split <;> split <;> grind [waiter_modify]

@[simp] theorem linked_appendWaiter (u : Thread) :
    ((s.appendWaiter t).waiter u).linked = if u = t then true else (s.waiter u).linked := by
  simp only [State.appendWaiter]
  split <;> grind [waiter_modify]

@[simp] theorem linked_removeWaiter (u : Thread) :
    ((s.removeWaiter t).waiter u).linked = if u = t then false else (s.waiter u).linked := by
  simp only [State.removeWaiter]
  split
  · grind
  · split <;> split <;> grind [waiter_modify]

/-! ## The operations on the list -/

theorem links_appendWaiter (ht : s.last ≠ some t) :
    (s.appendWaiter t).links = s.links.append t := by
  simp only [State.links, Links.append, Links.mk.injEq]
  refine ⟨?_, ?_, funext fun u => ?_, funext fun u => ?_⟩ <;>
  · simp only [State.appendWaiter]
    split <;> grind [waiter_modify, Function.update_apply, State.modify]

theorem represents_appendWaiter (h : s.links.Represents l) (ht : t ∉ l) :
    (s.appendWaiter t).links.Represents (l ++ [t]) := by
  rw [links_appendWaiter]
  · exact h.append ht
  · intro hlast
    exact ht (List.mem_of_getLast? (h.last.symm.trans hlast))

theorem links_removeWaiter (hlinked : (s.waiter t).linked = true)
    (hnext : (s.waiter t).next ≠ some t) (hprevious : (s.waiter t).previous ≠ some t) :
    (s.removeWaiter t).links = s.links.remove t := by
  simp only [State.links, Links.remove, Links.mk.injEq]
  refine ⟨?_, ?_, funext fun u => ?_, funext fun u => ?_⟩ <;>
  · simp only [State.removeWaiter, hlinked, Bool.true_eq_false, if_false]
    split <;> split <;> grind [waiter_modify, State.modify]

theorem represents_removeWaiter (h : s.links.Represents l) (ht : t ∈ l)
    (hlinked : (s.waiter t).linked = true) :
    (s.removeWaiter t).links.Represents (l.erase t) := by
  obtain ⟨k₁, k₂, rfl⟩ := List.append_of_mem ht
  have hnodup := h.nodup
  rw [links_removeWaiter hlinked]
  · exact h.remove ht
  · intro hself
    have := List.mem_of_head? ((h.next k₁ t k₂ rfl).symm.trans hself)
    grind
  · intro hself
    have := List.mem_of_getLast? ((h.previous k₁ t k₂ rfl).symm.trans hself)
    grind

end Condition
end Backend
end NucleoBase
