/-
  NucleoBase.Lib.Program

  Sequential programs over a state that may fail, keeping the state they have
  reached, or never return.

  `Triple P m Q E` is partial correctness with a postcondition for either end:
  run from a state with `P`, the program returns with `Q`, fails with `E`, or
  does not end.  `Stays R m` relates the state before to the state after,
  however the program ends; for a preorder `R` it composes by itself, which is
  how frame conditions are proved.
-/

import Mathlib.Tactic.Common

namespace NucleoBase
namespace Lib

def Program (σ ε α : Type) : Type := σ → Option (Except ε α × σ)

namespace Program

variable {σ ε α β : Type}

/-- Continue after an outcome: an error is passed on. -/
def continue_ (f : α → Program σ ε β) : Option (Except ε α × σ) → Option (Except ε β × σ)
  | none => none
  | some (.error e, s) => some (.error e, s)
  | some (.ok a, s) => f a s

instance : Monad (Program σ ε) where
  pure a := fun s => some (.ok a, s)
  bind m f := fun s => continue_ f (m s)

theorem continue_pure (r : Option (Except ε α × σ)) :
    continue_ (fun a => (Pure.pure a : Program σ ε α)) r = r := by
  rcases r with _ | ⟨o, t⟩
  · rfl
  · cases o with
    | ok a => rfl
    | error e => rfl

theorem continue_continue {γ : Type} (f : α → Program σ ε β) (g : β → Program σ ε γ)
    (r : Option (Except ε α × σ)) :
    continue_ g (continue_ f r) = continue_ (fun a => f a >>= g) r := by
  rcases r with _ | ⟨o, t⟩
  · rfl
  · cases o with
    | ok a => rfl
    | error e => rfl

instance : LawfulMonad (Program σ ε) := by
  refine LawfulMonad.mk' (Program σ ε) ?_ ?_ ?_
  · exact fun m => funext fun s => continue_pure (m s)
  · exact fun a f => rfl
  · exact fun m f g => funext fun s => continue_continue f g (m s)

def fail (e : ε) : Program σ ε α := fun s => some (.error e, s)

def get : Program σ ε σ := fun s => some (.ok s, s)

def modify (f : σ → σ) : Program σ ε Unit := fun s => some (.ok (), f s)

/-- A step that computes a result and a new state. -/
def step (f : σ → α × σ) : Program σ ε α := fun s => some (.ok (f s).1, (f s).2)

/-- The outcome of a program as a value. -/
def observe (m : Program σ ε α) : Program σ ε (Except ε α) := fun s =>
  (m s).map fun r => (.ok r.1, r.2)

def diverge : Program σ ε α := fun _ => none

/-- Run only under a condition. -/
def when (c : Prop) [Decidable c] (m : Program σ ε Unit) : Program σ ε Unit :=
  if c then m else pure ()

/-- A pure computation that may fail. -/
def ofExcept : Except ε α → Program σ ε α
  | .ok a => pure a
  | .error e => fail e

/-! ## Partial correctness -/

/-- What holds of an outcome. -/
def Post (Q : α → σ → Prop) (E : ε → σ → Prop) : Except ε α → σ → Prop
  | .ok a, s => Q a s
  | .error e, s => E e s

def Triple (P : σ → Prop) (m : Program σ ε α) (Q : α → σ → Prop) (E : ε → σ → Prop) : Prop :=
  ∀ s o s', P s → m s = some (o, s') → Post Q E o s'

section Triples

variable {P P' : σ → Prop} {Q Q' : α → σ → Prop} {R : β → σ → Prop} {E E' : ε → σ → Prop}
  {m : Program σ ε α} {f : α → Program σ ε β}

theorem Triple.weaken (h : Triple P m Q E) (hP : ∀ s, P' s → P s) (hQ : ∀ a s, Q a s → Q' a s)
    (hE : ∀ e s, E e s → E' e s) : Triple P' m Q' E' := by
  intro s o s' hs hm
  have := h s o s' (hP s hs) hm
  cases o with
  | ok a => exact hQ a s' this
  | error e => exact hE e s' this

theorem Triple.pre (h : Triple P m Q E) (hP : ∀ s, P' s → P s) : Triple P' m Q E :=
  h.weaken hP (fun _ _ h => h) fun _ _ h => h

theorem Triple.pure {a : α} (h : ∀ s, P s → Q a s) : Triple P (Pure.pure a) Q E := by
  intro s o s' hs hm
  cases hm
  exact h s hs

theorem Triple.fail {e : ε} (h : ∀ s, P s → E e s) :
    Triple P (Program.fail e : Program σ ε α) Q E := by
  intro s o s' hs hm
  cases hm
  exact h s hs

theorem Triple.step {g : σ → α × σ} (h : ∀ s, P s → Q (g s).1 (g s).2) :
    Triple P (Program.step g) Q E := by
  intro s o s' hs hm
  cases hm
  exact h s hs

theorem Triple.modify {g : σ → σ} {Q : Unit → σ → Prop} (h : ∀ s, P s → Q () (g s)) :
    Triple P (Program.modify g) Q E := by
  intro s o s' hs hm
  cases hm
  exact h s hs

theorem Triple.bind (hm : Triple P m Q E) (hf : ∀ a, Triple (Q a) (f a) R E) :
    Triple P (m >>= f) R E := by
  intro s o s' hs hrun
  have hrun : continue_ f (m s) = some (o, s') := hrun
  cases h : m s with
  | none =>
      rw [h] at hrun
      cases hrun
  | some r =>
      obtain ⟨o', t⟩ := r
      have hpost := hm s o' t hs h
      rw [h] at hrun
      cases o' with
      | ok a => exact hf a t o s' hpost hrun
      | error e =>
          cases hrun
          exact hpost

/-- The state is read before the rest of the program. -/
theorem Triple.get_bind {k : σ → Program σ ε β} (h : ∀ s, P s → Triple (· = s) (k s) R E) :
    Triple P (Program.get >>= k) R E := by
  intro s o s' hs hrun
  exact h s hs s o s' rfl hrun

theorem Triple.observe {Q : Except ε α → σ → Prop}
    (h : Triple P m (fun a s => Q (.ok a) s) fun e s => Q (.error e) s) :
    Triple P (Program.observe m) Q E := by
  intro s o s' hs hrun
  simp only [Program.observe, Option.map_eq_some_iff] at hrun
  obtain ⟨⟨o', t⟩, hm, heq⟩ := hrun
  cases heq
  have hpost := h s o' t hs hm
  cases o' with
  | ok a => exact hpost
  | error e => exact hpost

theorem Triple.ofExcept {x : Except ε α} (hok : ∀ a s, x = .ok a → P s → Q a s)
    (herror : ∀ e s, x = .error e → P s → E e s) : Triple P (Program.ofExcept x) Q E := by
  cases x with
  | ok a => exact Triple.pure fun s hs => hok a s rfl hs
  | error e => exact Triple.fail fun s hs => herror e s rfl hs

theorem Triple.diverge : Triple P (Program.diverge : Program σ ε α) Q E := by
  intro s o s' _ hm
  cases hm

theorem Triple.ite {c : Prop} [Decidable c] {m' : Program σ ε α} (ht : c → Triple P m Q E)
    (hf : ¬ c → Triple P m' Q E) : Triple P (if c then m else m') Q E := by
  split
  · next h => exact ht h
  · next h => exact hf h

theorem Triple.when {c : Prop} [Decidable c] {m : Program σ ε Unit} {Q : Unit → σ → Prop}
    (ht : c → Triple P m Q E) (hf : ¬ c → ∀ s, P s → Q () s) :
    Triple P (Program.when c m) Q E :=
  Triple.ite ht fun h => Triple.pure (hf h)

/-- A fact about the state before that does not change is kept at hand. -/
theorem Triple.of_forall (h : ∀ t, P t → Triple (· = t) m Q E) : Triple P m Q E := by
  intro s o s' hs hm
  exact h s hs s o s' rfl hm

end Triples

/-! ## Frame conditions -/

def Stays (R : σ → σ → Prop) (m : Program σ ε α) : Prop :=
  ∀ s o s', m s = some (o, s') → R s s'

section Frames

variable {R R' : σ → σ → Prop} {m : Program σ ε α} {f : α → Program σ ε β}

theorem Stays.mono (h : Stays R m) (hR : ∀ s s', R s s' → R' s s') : Stays R' m :=
  fun s o s' hm => hR s s' (h s o s' hm)

theorem Stays.pure [Std.Refl R] (a : α) : Stays R (Pure.pure a : Program σ ε α) := by
  intro s o s' hm
  cases hm
  exact Std.Refl.refl s

theorem Stays.fail [Std.Refl R] (e : ε) : Stays R (Program.fail e : Program σ ε α) := by
  intro s o s' hm
  cases hm
  exact Std.Refl.refl s

theorem Stays.get [Std.Refl R] : Stays R (Program.get : Program σ ε σ) := by
  intro s o s' hm
  cases hm
  exact Std.Refl.refl s

theorem Stays.ofExcept [Std.Refl R] (x : Except ε α) :
    Stays R (Program.ofExcept x : Program σ ε α) := by
  cases x with
  | ok a => exact Stays.pure a
  | error e => exact Stays.fail e

theorem Stays.modify {g : σ → σ} (h : ∀ s, R s (g s)) :
    Stays R (Program.modify g : Program σ ε Unit) := by
  intro s o s' hm
  cases hm
  exact h s

theorem Stays.step {g : σ → α × σ} (h : ∀ s, R s (g s).2) :
    Stays R (Program.step g : Program σ ε α) := by
  intro s o s' hm
  cases hm
  exact h s

theorem Stays.diverge : Stays R (Program.diverge : Program σ ε α) := by
  intro s o s' hm
  cases hm

theorem Stays.bind [IsTrans σ R] (hm : Stays R m) (hf : ∀ a, Stays R (f a)) :
    Stays R (m >>= f) := by
  intro s o s' hrun
  have hrun : continue_ f (m s) = some (o, s') := hrun
  cases h : m s with
  | none =>
      rw [h] at hrun
      cases hrun
  | some r =>
      obtain ⟨o', t⟩ := r
      have hfirst := hm s o' t h
      rw [h] at hrun
      cases o' with
      | ok a => exact IsTrans.trans s t s' hfirst (hf a t o s' hrun)
      | error e =>
          cases hrun
          exact hfirst

theorem Stays.ite {c : Prop} [Decidable c] {m' : Program σ ε α} (ht : Stays R m)
    (hf : Stays R m') : Stays R (if c then m else m') := by
  split
  · exact ht
  · exact hf

theorem Stays.when [Std.Refl R] {c : Prop} [Decidable c] {m : Program σ ε Unit}
    (h : Stays R m) : Stays R (Program.when c m) :=
  Stays.ite h (Stays.pure ())

theorem Stays.observe (h : Stays R m) : Stays R (Program.observe m) := by
  intro s o s' hrun
  simp only [Program.observe, Option.map_eq_some_iff] at hrun
  obtain ⟨⟨o', t⟩, hm, heq⟩ := hrun
  cases heq
  exact h s o' t hm

/-- A frame condition added to a triple. -/
theorem Triple.and_stays {P : σ → Prop} {Q : α → σ → Prop} {E : ε → σ → Prop}
    (h : Triple P m Q E) (hR : Stays R m) (t : σ) :
    Triple (fun s => P s ∧ s = t) m (fun a s => Q a s ∧ R t s) fun e s => E e s ∧ R t s := by
  rintro s o s' ⟨hs, rfl⟩ hm
  have hpost := h s o s' hs hm
  have hstay := hR s o s' hm
  cases o with
  | ok a => exact ⟨hpost, hstay⟩
  | error e => exact ⟨hpost, hstay⟩

end Frames

end Program

end Lib
end NucleoBase
