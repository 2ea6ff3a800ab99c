/-
  NucleoBase.Lib.Memory

  Memory as allocators hand it out: cells that hold bytes or parts of pointers,
  and blocks that are live, by their base addresses, no two of which overlap.
-/

import Mathlib.Data.Nat.Bitwise
import Mathlib.Data.UInt
import Mathlib.Logic.Function.Basic
import Mathlib.Tactic.Common

namespace NucleoBase
namespace Lib

/-! ## Cells -/

/-- A byte, or the byte with an index of a pointer. -/
inductive Cell
  | byte (x : UInt8)
  | pointer (p : Nat) (i : Nat)
  deriving DecidableEq, Repr

/-- A pointer takes this many cells. -/
def pointerSize : Nat := 4

abbrev Memory : Type := Nat → Cell

namespace Memory

variable {m m' : Memory} {a p n : Nat} {bytes : List UInt8}

def storePointer (m : Memory) (a p : Nat) : Memory := fun x =>
  if a ≤ x ∧ x < a + pointerSize then .pointer p (x - a) else m x

/-- The pointer at an address, if one has been stored there and is still whole. -/
def loadPointer (m : Memory) (a : Nat) : Option Nat :=
  match m a with
  | .pointer p 0 =>
      if m (a + 1) = .pointer p 1 ∧ m (a + 2) = .pointer p 2 ∧ m (a + 3) = .pointer p 3 then some p
      else none
  | _ => none

def storeBytes (m : Memory) (a : Nat) (bytes : List UInt8) : Memory := fun x =>
  if a ≤ x then
    match bytes[x - a]? with
    | some b => .byte b
    | none => m x
  else m x

/-- The cells from an address on. -/
def load (m : Memory) (a n : Nat) : List Cell := (List.range n).map fun i => m (a + i)

theorem loadPointer_storePointer : (m.storePointer a p).loadPointer a = some p := by
  simp [loadPointer, storePointer, pointerSize]

theorem loadPointer_congr (h : ∀ x, a ≤ x → x < a + pointerSize → m x = m' x) :
    m.loadPointer a = m'.loadPointer a := by
  have hcell : ∀ i < 4, m (a + i) = m' (a + i) := by
    intro i hi
    exact h _ (by omega) (by simp only [pointerSize]; omega)
  unfold loadPointer
  rw [show m a = m' a from hcell 0 (by omega), hcell 1 (by omega), hcell 2 (by omega),
    hcell 3 (by omega)]

theorem load_congr (h : ∀ x, a ≤ x → x < a + n → m x = m' x) : m.load a n = m'.load a n := by
  refine List.map_congr_left fun i hi => ?_
  rw [List.mem_range] at hi
  exact h _ (by omega) (by omega)

theorem length_load : (m.load a n).length = n := by simp [load]

theorem storePointer_other {x : Nat} (h : x < a ∨ a + pointerSize ≤ x) :
    m.storePointer a p x = m x := by
  rw [storePointer, if_neg (by omega)]

theorem storeBytes_other {x : Nat} (h : x < a ∨ a + bytes.length ≤ x) :
    m.storeBytes a bytes x = m x := by
  unfold storeBytes
  split
  · rw [List.getElem?_eq_none (by omega)]
  · rfl

theorem load_storeBytes : (m.storeBytes a bytes).load a bytes.length = bytes.map .byte := by
  apply List.ext_getElem
  · simp [length_load]
  · intro i hi _
    rw [length_load] at hi
    simp [load, storeBytes, hi]

theorem load_update {i : Nat} {cell : Cell} :
    load (Function.update m (a + i) cell) a n = (m.load a n).set i cell := by
  apply List.ext_getElem
  · simp [length_load]
  · intro j hj _
    by_cases hij : i = j
    · subst hij
      simp [load]
    · have hne : a + j ≠ a + i := by omega
      simp [load, List.getElem_set_ne hij, Function.update_of_ne hne]

end Memory

/-! ## Blocks -/

/-- The live blocks: the size of each, by its base address. -/
abbrev Blocks : Type := Nat → Option Nat

namespace Blocks

/-- Blocks below a limit that do not overlap. -/
structure Sound (limit : Nat) (live : Blocks) : Prop where
  within : ∀ p n, live p = some n → 0 < p ∧ 0 < n ∧ p + n ≤ limit
  apart : ∀ p n q m, live p = some n → live q = some m → p ≠ q → p + n ≤ q ∨ q + m ≤ p

/-- What an allocator promises of a new block. -/
structure Fresh (limit : Nat) (live : Blocks) (p n : Nat) : Prop where
  within : 0 < p ∧ 0 < n ∧ p + n ≤ limit
  apart : ∀ q m, live q = some m → p + n ≤ q ∨ q + m ≤ p

variable {limit p q n m : Nat} {live : Blocks}

theorem Sound.empty : Sound limit fun _ => none where
  within _ _ h := by cases h
  apart _ _ _ _ h := by cases h

theorem Fresh.not_live (h : Fresh limit live p n) (hs : Sound limit live) : live p = none := by
  by_contra hlive
  obtain ⟨m, hm⟩ := Option.ne_none_iff_exists'.mp hlive
  have hwithin := hs.within p m hm
  have happart := h.apart p m hm
  have := h.within
  omega

theorem Fresh.ne (h : Fresh limit live p n) (hs : Sound limit live) (hq : live q = some m) :
    q ≠ p := by
  rintro rfl
  rw [h.not_live hs] at hq
  cases hq

theorem Fresh.empty (h : 0 < p ∧ 0 < n ∧ p + n ≤ limit) : Fresh limit (fun _ => none) p n :=
  ⟨h, fun _ _ h => by cases h⟩

/-- A block that is new beside one more block. -/
theorem Fresh.update (h : Fresh limit live p n) (happart : p + n ≤ q ∨ q + m ≤ p) :
    Fresh limit (Function.update live q (some m)) p n where
  within := h.within
  apart r k hr := by
    by_cases hrq : r = q
    · subst hrq
      rw [Function.update_self] at hr
      cases hr
      exact happart
    · rw [Function.update_of_ne hrq] at hr
      exact h.apart r k hr

theorem Sound.alloc (hs : Sound limit live) (h : Fresh limit live p n) :
    Sound limit (Function.update live p (some n)) where
  within q m hq := by
    by_cases hqp : q = p
    · subst hqp
      rw [Function.update_self] at hq
      cases hq
      exact h.within
    · rw [Function.update_of_ne hqp] at hq
      exact hs.within q m hq
  apart q m r k hq hr hne := by
    by_cases hqp : q = p
    · subst hqp
      rw [Function.update_self] at hq
      rw [Function.update_of_ne (Ne.symm hne)] at hr
      cases hq
      exact h.apart r k hr
    · rw [Function.update_of_ne hqp] at hq
      by_cases hrp : r = p
      · subst hrp
        rw [Function.update_self] at hr
        cases hr
        exact (h.apart q m hq).symm
      · rw [Function.update_of_ne hrp] at hr
        exact hs.apart q m r k hq hr hne

theorem update_none_some {l : Blocks} (h : Function.update l p none q = some m) :
    q ≠ p ∧ l q = some m := by
  by_cases hqp : q = p
  · subst hqp
    rw [Function.update_self] at h
    cases h
  · rw [Function.update_of_ne hqp] at h
    exact ⟨hqp, h⟩

theorem Sound.free (hs : Sound limit live) : Sound limit (Function.update live p none) where
  within q m hq := hs.within q m (update_none_some hq).2
  apart q m r k hq hr hne := hs.apart q m r k (update_none_some hq).2 (update_none_some hr).2 hne

end Blocks

/-! ## Alignment -/

/-- `(x + a - 1) & ~(a - 1)` in words of `w` bits. -/
def alignUp (w x a : Nat) : Nat :=
  (BitVec.ofNat w (x + a - 1) &&& ~~~BitVec.ofNat w (a - 1)).toNat

/-- Clearing the low bits. -/
theorem and_not_low {w k y : Nat} (hk : k ≤ w) (hy : y < 2 ^ w) :
    y &&& (2 ^ w - 1 - (2 ^ k - 1)) = y / 2 ^ k * 2 ^ k := by
  apply Nat.eq_of_testBit_eq
  intro i
  have hle : 2 ^ k ≤ 2 ^ w := Nat.pow_le_pow_right (by omega) hk
  have hpos : 0 < 2 ^ k := Nat.two_pow_pos k
  have hmask : 2 ^ w - 1 - (2 ^ k - 1) = 2 ^ w - (2 ^ k - 1 + 1) := by omega
  rw [Nat.testBit_and, hmask, Nat.testBit_two_pow_sub_succ (by omega),
    Nat.testBit_two_pow_sub_one, Nat.testBit_mul_two_pow, Nat.testBit_div_two_pow]
  by_cases hi : k ≤ i
  · have hnot : ¬ i < k := by omega
    by_cases hiw : i < w
    · simp [hi, hnot, hiw]
    · have hzero : y.testBit i = false := Nat.testBit_lt_two_pow
        (hy.trans_le (Nat.pow_le_pow_right (by omega) (by omega)))
      simp [hi, hzero]
  · have hlt : i < k := by omega
    simp [hi, hlt]

theorem alignUp_eq {w x k : Nat} (hk : k < w) (hx : x + 2 ^ k - 1 < 2 ^ w) :
    alignUp w x (2 ^ k) = (x + 2 ^ k - 1) / 2 ^ k * 2 ^ k := by
  have hpos : 0 < 2 ^ k := Nat.two_pow_pos k
  have hlow : 2 ^ k - 1 < 2 ^ w := by
    have : 2 ^ k ≤ 2 ^ w := Nat.pow_le_pow_right (by omega) hk.le
    omega
  rw [alignUp, BitVec.toNat_and, BitVec.toNat_not, BitVec.toNat_ofNat, BitVec.toNat_ofNat,
    Nat.mod_eq_of_lt hx, Nat.mod_eq_of_lt hlow, and_not_low hk.le hx]

/-- The next multiple of a power of two. -/
theorem alignUp_spec {w x a : Nat} (ha : a.isPowerOfTwo) (haw : a < 2 ^ w)
    (hx : x + a - 1 < 2 ^ w) : x ≤ alignUp w x a ∧ alignUp w x a < x + a ∧ a ∣ alignUp w x a := by
  obtain ⟨k, rfl⟩ := ha
  have hk : k < w := (Nat.pow_lt_pow_iff_right (by omega)).mp haw
  have hpos : 0 < 2 ^ k := Nat.two_pow_pos k
  rw [alignUp_eq hk hx]
  have hmod := Nat.div_add_mod (x + 2 ^ k - 1) (2 ^ k)
  have hlt := Nat.mod_lt (x + 2 ^ k - 1) hpos
  rw [Nat.mul_comm] at hmod
  exact ⟨by omega, by omega, Nat.dvd_mul_left _ _⟩

end Lib
end NucleoBase
