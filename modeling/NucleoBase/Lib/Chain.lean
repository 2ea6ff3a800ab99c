/-
  NucleoBase.Lib.Chain

  Singly linked chains: `Chain next p l` says that following `next` from the
  pointer `p` visits the nodes `l` and ends.  A loop over a chain that is given
  as many rounds as the chain has nodes folds over the nodes in their order.
-/

import Mathlib.Data.List.Nodup
import Mathlib.Logic.Function.Basic

namespace NucleoBase
namespace Lib

variable {α β : Type*}

def Chain (next : α → Option α) : Option α → List α → Prop
  | p, [] => p = none
  | p, a :: l => p = some a ∧ Chain next (next a) l

/-- `for (; p != nullptr; p = p->next) b = f(b, p)`, for at most as many rounds. -/
def foldChain (next : α → Option α) (f : β → α → β) : Nat → β → Option α → Option β
  | _, b, none => some b
  | 0, _, some _ => none
  | k + 1, b, some a => foldChain next f k (f b a) (next a)

namespace Chain

variable {next next' : α → Option α} {p : Option α} {l : List α}

/-- Only the links of the chain's own nodes matter. -/
theorem congr (h : Chain next p l) (hsame : ∀ a ∈ l, next' a = next a) : Chain next' p l := by
  induction l generalizing p with
  | nil => exact h
  | cons a l ih =>
      obtain ⟨hp, hl⟩ := h
      refine ⟨hp, ?_⟩
      rw [hsame a List.mem_cons_self]
      exact ih hl fun b hb => hsame b (List.mem_cons_of_mem a hb)

theorem of_none (h : Chain next none l) : l = [] := by
  cases l with
  | nil => rfl
  | cons a l => cases h.1

/-- The last node's link is null. -/
theorem next_last (h : Chain next p l) {z : α} (hz : l.getLast? = some z) : next z = none := by
  induction l generalizing p with
  | nil => cases hz
  | cons a l ih =>
      cases l with
      | nil =>
          simp only [List.getLast?_singleton, Option.some.injEq] at hz
          subst hz
          exact h.2
      | cons b l => exact ih h.2 (by simpa using hz)

/-- A node is linked behind the last one. -/
theorem concat [DecidableEq α] (h : Chain next p l) (hnodup : l.Nodup) {z x : α}
    (hz : l.getLast? = some z) (hx : x ∉ l) :
    Chain (Function.update (Function.update next x none) z (some x)) p (l ++ [x]) := by
  induction l generalizing p with
  | nil => cases hz
  | cons a l ih =>
      obtain ⟨rfl, hl⟩ := h
      refine ⟨rfl, ?_⟩
      cases l with
      | nil =>
          simp only [List.getLast?_singleton, Option.some.injEq] at hz
          subst hz
          have hne : x ≠ a := fun h => hx (by simp [h])
          exact ⟨by simp, by simp [hne, Chain]⟩
      | cons b l =>
          have hz' : (b :: l).getLast? = some z := by simpa using hz
          have hxl : x ∉ b :: l := fun h => hx (List.mem_cons_of_mem a h)
          have hza : a ≠ z := by
            rintro rfl
            exact (List.nodup_cons.mp hnodup).1 (List.mem_of_getLast? hz')
          have hxa : a ≠ x := fun h => hx (by simp [h])
          rw [Function.update_of_ne hza, Function.update_of_ne hxa]
          exact ih hl (List.nodup_cons.mp hnodup).2 hz' hxl

/-- A loop over the chain. -/
theorem fold (h : Chain next p l) {f : β → α → β} {k : Nat} {b : β} (hk : l.length ≤ k) :
    foldChain next f k b p = some (l.foldl f b) := by
  induction l generalizing p k b with
  | nil =>
      obtain rfl : p = none := h
      cases k <;> rfl
  | cons a l ih =>
      obtain ⟨rfl, hl⟩ := h
      cases k with
      | zero => simp at hk
      | succ k => exact ih hl (Nat.le_of_succ_le_succ hk)

end Chain

end Lib
end NucleoBase
