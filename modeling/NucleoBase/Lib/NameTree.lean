/-
  NucleoBase.Lib.NameTree

  Trees of names: partial functions from paths to nodes in which every node but
  the root lies in an inner node, and what becomes of the nodes when a subtree
  moves to another path.
-/

import Mathlib.Data.List.Basic
import Mathlib.Data.List.Infix
import Mathlib.Data.Set.Function
import Mathlib.Logic.Function.Basic
import Mathlib.Tactic.Common

namespace NucleoBase
namespace Lib

variable {κ ν : Type*}

/-- What each path leads to. -/
abbrev NameTree (κ ν : Type*) : Type _ := List κ → Option ν

namespace NameTree

/-- The root is an inner node, and every other node lies in one. -/
structure Closed (inner : ν → Prop) (t : NameTree κ ν) : Prop where
  root : ∃ n, t [] = some n ∧ inner n
  parent : ∀ p c n, t (p ++ [c]) = some n → ∃ m, t p = some m ∧ inner m

variable {inner : ν → Prop} {t : NameTree κ ν} {p q k : List κ} {n : ν}

/-- Every prefix of the path to a node leads to a node, and to an inner one if it is
    shorter. -/
theorem Closed.of_prefix (h : t.Closed inner) (hq : t q = some n) (hle : p <+: q) :
    ∃ m, t p = some m ∧ (p ≠ q → inner m) := by
  obtain ⟨rest, rfl⟩ := hle
  induction rest using List.reverseRecOn generalizing n with
  | nil =>
      rw [List.append_nil] at hq
      exact ⟨n, hq, fun hne => absurd (List.append_nil p).symm hne⟩
  | append_singleton rest c ih =>
      rw [← List.append_assoc] at hq
      obtain ⟨m, hm, hinner⟩ := h.parent _ _ _ hq
      obtain ⟨m', hm', hinner'⟩ := ih hm
      refine ⟨m', hm', fun _ => ?_⟩
      by_cases hrest : rest = []
      · subst hrest
        rw [List.append_nil] at hm
        obtain rfl : m' = m := Option.some.inj (hm'.symm.trans hm)
        exact hinner
      · exact hinner' (by simpa using hrest)

/-- Nothing lies below a path that leads nowhere. -/
theorem Closed.none_below (h : t.Closed inner) (hp : t p = none) (hle : p <+: q) : t q = none := by
  cases hq : t q with
  | none => rfl
  | some n =>
      obtain ⟨m, hm, -⟩ := h.of_prefix hq hle
      rw [hp] at hm
      cases hm

/-- Nothing lies below a leaf. -/
theorem Closed.none_in_leaf (h : t.Closed inner) (hp : t p = some n) (hn : ¬ inner n)
    (hle : p <+: q) (hne : p ≠ q) : t q = none := by
  cases hq : t q with
  | none => rfl
  | some m =>
      obtain ⟨n', hn', hinner⟩ := h.of_prefix hq hle
      obtain rfl : n' = n := Option.some.inj (hn'.symm.trans hp)
      exact absurd (hinner hne) hn

/-! ## Moving a subtree -/

variable [DecidableEq κ]

/-- The tree after the subtree at `src` has moved to `dst`. -/
def move (t : NameTree κ ν) (src dst : List κ) : NameTree κ ν := fun k =>
  if dst <+: k then t (src ++ k.drop dst.length) else if src <+: k then none else t k

/-- Where a path leads to the same node after that. -/
def follow (src dst k : List κ) : List κ :=
  if src <+: k then dst ++ k.drop src.length else k

/-- A subtree moves to a path that leads nowhere, and not into itself. -/
structure Movable (t : NameTree κ ν) (src dst : List κ) : Prop where
  free : src ≠ dst → t dst = none
  outside : src ≠ dst → ¬ src <+: dst

theorem move_follow (h : t.Closed inner) {src dst : List κ} (hmove : t.Movable src dst)
    (hk : t k = some n) : t.move src dst (follow src dst k) = some n := by
  rw [follow]
  split
  · rename_i hsrc
    obtain ⟨rest, rfl⟩ := hsrc
    rw [List.drop_left, move, if_pos (List.prefix_append dst rest), List.drop_left]
    exact hk
  · rename_i hsrc
    have hdst : ¬ dst <+: k := by
      intro hle
      by_cases heq : src = dst
      · exact hsrc (heq ▸ hle)
      · rw [h.none_below (hmove.free heq) hle] at hk
        cases hk
    rw [move, if_neg hdst, if_neg hsrc]
    exact hk

/-- Moving a subtree to its own path changes nothing. -/
theorem move_self (t : NameTree κ ν) (p : List κ) : t.move p p = t := by
  funext k
  rw [move]
  split
  · rename_i hle
    obtain ⟨rest, rfl⟩ := hle
    rw [List.drop_left]
  · rfl

/-- The tree after the subtree at `src` has taken the place of what was at `dst`. -/
def replace (t : NameTree κ ν) (src dst : List κ) : NameTree κ ν :=
  (if src = dst then t else Function.update t dst none).move src dst

variable {src dst : List κ} {a : κ}

/-- Every node on the paths that are kept has a path of its own in another tree. -/
def Embeds (t t' : NameTree κ ν) (kept : List κ → Prop) : Prop :=
  ∃ f : List κ → List κ, Set.InjOn f {k | t k ≠ none ∧ kept k} ∧
    ∀ k n, t k = some n → kept k → t' (f k) = some n

variable {t' t'' : NameTree κ ν} {kept : List κ → Prop}

omit [DecidableEq κ] in
theorem Embeds.trans (h : t.Embeds t' kept) (h' : t'.Embeds t'' fun _ => True) :
    t.Embeds t'' kept := by
  obtain ⟨f, hf, hkept⟩ := h
  obtain ⟨g, hg, hkept'⟩ := h'
  have hthere : ∀ k, t k ≠ none ∧ kept k → t' (f k) ≠ none := by
    intro k hk
    obtain ⟨n, hn⟩ := Option.ne_none_iff_exists'.mp hk.1
    simp [hkept k n hn hk.2]
  refine ⟨g ∘ f, fun k hk l hl heq => ?_, fun k n hn hk => hkept' _ n (hkept k n hn hk) trivial⟩
  exact hf hk hl (hg ⟨hthere k hk, trivial⟩ ⟨hthere l hl, trivial⟩ heq)

omit [DecidableEq κ] in
theorem Embeds.mono {kept' : List κ → Prop} (h : t.Embeds t' kept)
    (hle : ∀ k, kept' k → kept k) : t.Embeds t' kept' := by
  obtain ⟨f, hf, hkept⟩ := h
  refine ⟨f, fun k hk l hl => ?_, fun k n hn hk => hkept k n hn (hle k hk)⟩
  exact hf ⟨hk.1, hle k hk.2⟩ ⟨hl.1, hle l hl.2⟩

end NameTree

end Lib
end NucleoBase
