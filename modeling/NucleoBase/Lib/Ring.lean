/-
  NucleoBase.Lib.Ring

  Ring buffers over an array of `n` slots: the elements from index `head` on,
  `count` of them, wrapping around at `n`.

  `window` reads them off as a list, oldest first.  Storing behind the last one
  and moving the head past the first one are appending to that list and taking
  its head; a queue kept in a ring is verified by these two facts.
-/

import Mathlib.Data.List.Basic
import Mathlib.Data.Nat.ModEq
import Mathlib.Logic.Function.Basic

namespace NucleoBase
namespace Lib
namespace Ring

variable {α : Type*}

/-- The `count` elements of `slots` from `head` on, oldest first. -/
def window (n : Nat) (slots : Nat → α) (head : Nat) : Nat → List α
  | 0 => []
  | count + 1 => window n slots head count ++ [slots ((head + count) % n)]

variable {n head count : Nat} {slots : Nat → α}

@[simp] theorem length_window : (window n slots head count).length = count := by
  induction count with
  | zero => rfl
  | succ count ih => simp [window, ih]

/-- Offsets less than `n` apart are different slots. -/
theorem offset_ne {i j : Nat} (hij : i < j) (hj : j < n) : (head + i) % n ≠ (head + j) % n := by
  intro h
  have hmod : i ≡ j [MOD n] := Nat.ModEq.add_left_cancel' head h
  have heq : i = j := hmod.eq_of_lt_of_lt (Nat.lt_trans hij hj) hj
  omega

/-- A store outside the window is not seen in it. -/
theorem window_update {x : α} (hc : count < n) :
    window n (Function.update slots ((head + count) % n) x) head count =
      window n slots head count := by
  have hpre : ∀ k, k ≤ count →
      window n (Function.update slots ((head + count) % n) x) head k =
        window n slots head k := by
    intro k
    induction k with
    | zero => exact fun _ => rfl
    | succ k ih =>
        intro hk
        have hne : (head + k) % n ≠ (head + count) % n := offset_ne hk hc
        rw [window, window, ih (by omega), Function.update_of_ne hne]
  exact hpre count (Nat.le_refl _)

/-- Storing behind the last element appends it. -/
theorem window_push {x : α} (hc : count < n) :
    window n (Function.update slots ((head + count) % n) x) head (count + 1) =
      window n slots head count ++ [x] := by
  rw [window, window_update hc, Function.update_self]

/-- Moving the head past the first element takes it off. -/
theorem window_pop :
    window n slots head (count + 1) =
      slots (head % n) :: window n slots ((head + 1) % n) count := by
  induction count with
  | zero => simp [window]
  | succ count ih =>
      rw [window, ih, List.cons_append, window]
      have hidx : ((head + 1) % n + count) % n = (head + (count + 1)) % n := by
        rw [Nat.mod_add_mod]
        congr 1
        omega
      rw [hidx]

/-! ## A ring kept by two indices -/

/-- The number of elements from the consumer's index `a` to the producer's `b`. -/
def distance (n a b : Nat) : Nat := (b + n - a) % n

section Indices

variable {a b : Nat}

theorem distance_eq (ha : a < n) (hb : b < n) :
    distance n a b = if a ≤ b then b - a else b + n - a := by
  unfold distance
  split
  · have h : b + n - a = b - a + n := by omega
    rw [h, Nat.add_mod_right, Nat.mod_eq_of_lt (by omega)]
  · rw [Nat.mod_eq_of_lt (by omega)]

theorem next_eq (hb : b < n) : (b + 1) % n = if b + 1 = n then 0 else b + 1 := by
  split
  · rename_i h
    rw [h, Nat.mod_self]
  · exact Nat.mod_eq_of_lt (by omega)

theorem distance_lt (hn : 0 < n) : distance n a b < n := Nat.mod_lt _ hn

/-- The producer's index is the one behind the last element. -/
theorem index_distance (ha : a < n) (hb : b < n) : (a + distance n a b) % n = b := by
  rw [distance_eq ha hb]
  split
  · rw [Nat.add_sub_cancel' (by assumption), Nat.mod_eq_of_lt hb]
  · have h : a + (b + n - a) = b + n := by omega
    rw [h, Nat.add_mod_right, Nat.mod_eq_of_lt hb]

theorem distance_eq_zero (ha : a < n) (hb : b < n) : distance n a b = 0 ↔ a = b := by
  rw [distance_eq ha hb]
  split <;> omega

/-- The producer's index advances unless it would meet the consumer's. -/
theorem distance_produce (ha : a < n) (hb : b < n) (h : (b + 1) % n ≠ a) :
    distance n a ((b + 1) % n) = distance n a b + 1 := by
  have hlt : (b + 1) % n < n := Nat.mod_lt _ (by omega)
  have hnext := next_eq hb
  rw [distance_eq ha hlt, distance_eq ha hb]
  generalize (b + 1) % n = c at *
  split at hnext <;> split <;> split <;> omega

/-- It would meet it when all slots but one are taken. -/
theorem distance_full (ha : a < n) (hb : b < n) (h : (b + 1) % n = a) :
    distance n a b = n - 1 := by
  have hnext := next_eq hb
  rw [distance_eq ha hb]
  generalize (b + 1) % n = c at *
  split at hnext <;> split <;> omega

/-- The consumer's index advances over one element. -/
theorem distance_consume (ha : a < n) (hb : b < n) (h : a ≠ b) :
    distance n a b = distance n ((a + 1) % n) b + 1 := by
  have hlt : (a + 1) % n < n := Nat.mod_lt _ (by omega)
  have hnext := next_eq ha
  rw [distance_eq ha hb, distance_eq hlt hb]
  generalize (a + 1) % n = c at *
  split at hnext <;> split <;> split <;> omega

end Indices

end Ring
end Lib
end NucleoBase
