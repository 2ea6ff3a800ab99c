/-
  NucleoBase.Lib.FixedWidth

  Arithmetic on machine words that also says whether it has wrapped.

  An operation on words of `w` bits gives the word the machine gives, and
  notes if that is not the exact result.  A computation equal to `pure v` has
  the value `v`, and none of its operations has wrapped.
-/

import Mathlib.Tactic.Ring

namespace NucleoBase
namespace Lib

/-- A value, and whether every operation on the way to it was exact. -/
structure Wrapped (α : Type) where
  value : α
  exact : Bool
  deriving DecidableEq, Repr

namespace Wrapped

variable {α β : Type}

instance : Monad Wrapped where
  pure a := ⟨a, true⟩
  bind x f := ⟨(f x.value).value, x.exact && (f x.value).exact⟩

instance : LawfulMonad Wrapped := by
  refine LawfulMonad.mk' Wrapped ?_ ?_ ?_
  · intro α x
    change (⟨x.value, x.exact && true⟩ : Wrapped α) = x
    rw [Bool.and_true]
  · intro α β a f
    change (⟨(f a).value, true && (f a).exact⟩ : Wrapped β) = f a
    rw [Bool.true_and]
  · intro α β γ x f g
    simp only [bind, Bool.and_assoc]

@[simp] theorem value_pure (a : α) : (pure a : Wrapped α).value = a := rfl

@[simp] theorem exact_pure (a : α) : (pure a : Wrapped α).exact = true := rfl

@[simp] theorem value_bind (x : Wrapped α) (f : α → Wrapped β) :
    (x >>= f).value = (f x.value).value := rfl

/-! ## Unsigned words -/

def add (w a b : Nat) : Wrapped Nat := ⟨(a + b) % 2 ^ w, a + b < 2 ^ w⟩

def sub (w a b : Nat) : Wrapped Nat := ⟨(a + 2 ^ w - b) % 2 ^ w, b ≤ a⟩

def mul (w a b : Nat) : Wrapped Nat := ⟨a * b % 2 ^ w, a * b < 2 ^ w⟩

/-- A conversion to a word, as `static_cast` does it. -/
def narrow (w a : Nat) : Wrapped Nat := ⟨a % 2 ^ w, a < 2 ^ w⟩

variable {w a b : Nat}

@[simp] theorem value_add : (add w a b).value = (a + b) % 2 ^ w := rfl

theorem add_eq (h : a + b < 2 ^ w) : add w a b = pure (a + b) := by
  rw [add, Nat.mod_eq_of_lt h, decide_eq_true h]
  rfl

theorem sub_eq (ha : a < 2 ^ w) (h : b ≤ a) : sub w a b = pure (a - b) := by
  have hvalue : (a + 2 ^ w - b) % 2 ^ w = a - b := by
    rw [Nat.sub_add_comm h, Nat.add_mod_right, Nat.mod_eq_of_lt (by omega)]
  rw [sub, hvalue, decide_eq_true h]
  rfl

theorem mul_eq (h : a * b < 2 ^ w) : mul w a b = pure (a * b) := by
  rw [mul, Nat.mod_eq_of_lt h, decide_eq_true h]
  rfl

theorem narrow_eq (h : a < 2 ^ w) : narrow w a = pure a := by
  rw [narrow, Nat.mod_eq_of_lt h, decide_eq_true h]
  rfl

/-! ## Signed words -/

/-- The integers of `w` bits. -/
def InRange (w : Nat) (n : Int) : Prop := -2 ^ (w - 1) ≤ n ∧ n < 2 ^ (w - 1)

instance (w : Nat) (n : Int) : Decidable (InRange w n) := inferInstanceAs (Decidable (_ ∧ _))

/-- An exact signed result, cut down to the word. -/
def signed (w : Nat) (n : Int) : Wrapped Int := ⟨n.bmod (2 ^ w), InRange w n⟩

theorem signed_eq {n : Int} (hw : 0 < w) (h : InRange w n) : signed w n = pure n := by
  obtain ⟨v, rfl⟩ : ∃ v, w = v + 1 := ⟨w - 1, by omega⟩
  obtain ⟨hlow, hhigh⟩ := h
  rw [Nat.add_sub_cancel] at hlow hhigh
  have hpow : ((2 ^ (v + 1) : Nat) : Int) = 2 * 2 ^ v := by
    push_cast
    rw [Int.pow_succ]
    omega
  have hvalue : n.bmod (2 ^ (v + 1)) = n :=
    Int.bmod_eq_of_le_mul_two (by rw [hpow]; omega) (by rw [hpow]; omega)
  rw [signed, hvalue, decide_eq_true (show InRange (v + 1) n from ⟨hlow, hhigh⟩)]
  rfl

/-- A conversion of a signed value to an unsigned word. -/
def unsigned (w : Nat) (n : Int) : Wrapped Nat := ⟨(n % 2 ^ w).toNat, 0 ≤ n ∧ n < 2 ^ w⟩

theorem unsigned_eq {n : Nat} (h : n < 2 ^ w) : unsigned w (n : Int) = pure n := by
  have hbound : (n : Int) < 2 ^ w := by exact_mod_cast h
  rw [unsigned, Int.emod_eq_of_lt (Int.natCast_nonneg n) hbound, Int.toNat_natCast,
    decide_eq_true (show 0 ≤ (n : Int) ∧ (n : Int) < 2 ^ w from ⟨Int.natCast_nonneg n, hbound⟩)]
  rfl

end Wrapped

end Lib
end NucleoBase
