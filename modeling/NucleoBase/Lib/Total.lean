/-
  NucleoBase.Lib.Total

  Total correctness of programs: run from a state with the precondition, the
  program ends, with the postcondition of the end it comes to.
-/

import NucleoBase.Lib.Program

namespace NucleoBase
namespace Lib
namespace Program

variable {σ ε α β : Type}

def TotalTriple (P : σ → Prop) (m : Program σ ε α) (Q : α → σ → Prop) (E : ε → σ → Prop) : Prop :=
  ∀ s, P s → ∃ o s', m s = some (o, s') ∧ Post Q E o s'

section Rules

variable {P P' : σ → Prop} {Q Q' : α → σ → Prop} {R : β → σ → Prop} {E E' : ε → σ → Prop}
  {m : Program σ ε α} {f : α → Program σ ε β}

theorem TotalTriple.weaken (h : TotalTriple P m Q E) (hP : ∀ s, P' s → P s) (hQ : ∀ a s, Q a s → Q' a s)
    (hE : ∀ e s, E e s → E' e s) : TotalTriple P' m Q' E' := by
  intro s hs
  obtain ⟨o, s', hrun, hpost⟩ := h s (hP s hs)
  refine ⟨o, s', hrun, ?_⟩
  cases o with
  | ok a => exact hQ a s' hpost
  | error e => exact hE e s' hpost

theorem TotalTriple.pre (h : TotalTriple P m Q E) (hP : ∀ s, P' s → P s) : TotalTriple P' m Q E :=
  h.weaken hP (fun _ _ h => h) fun _ _ h => h

theorem TotalTriple.pure {a : α} (h : ∀ s, P s → Q a s) : TotalTriple P (Pure.pure a) Q E :=
  fun s hs => ⟨.ok a, s, rfl, h s hs⟩

theorem TotalTriple.fail {e : ε} (h : ∀ s, P s → E e s) :
    TotalTriple P (Program.fail e : Program σ ε α) Q E :=
  fun s hs => ⟨.error e, s, rfl, h s hs⟩

theorem TotalTriple.step {g : σ → α × σ} (h : ∀ s, P s → Q (g s).1 (g s).2) :
    TotalTriple P (Program.step g) Q E :=
  fun s hs => ⟨.ok (g s).1, (g s).2, rfl, h s hs⟩

theorem TotalTriple.modify {g : σ → σ} {Q : Unit → σ → Prop} (h : ∀ s, P s → Q () (g s)) :
    TotalTriple P (Program.modify g) Q E :=
  fun s hs => ⟨.ok (), g s, rfl, h s hs⟩

theorem TotalTriple.bind (hm : TotalTriple P m Q E) (hf : ∀ a, TotalTriple (Q a) (f a) R E) :
    TotalTriple P (m >>= f) R E := by
  intro s hs
  obtain ⟨o, t, hrun, hpost⟩ := hm s hs
  have hbind : (m >>= f) s = continue_ f (some (o, t)) := congrArg (continue_ f) hrun
  cases o with
  | ok a =>
      obtain ⟨o', s', hrest, hpost'⟩ := hf a t hpost
      exact ⟨o', s', hbind.trans hrest, hpost'⟩
  | error e => exact ⟨.error e, t, hbind, hpost⟩

theorem TotalTriple.get_bind {k : σ → Program σ ε β} (h : ∀ s, P s → TotalTriple (· = s) (k s) R E) :
    TotalTriple P (Program.get >>= k) R E :=
  fun s hs => h s hs s rfl

theorem TotalTriple.ite {c : Prop} [Decidable c] {m' : Program σ ε α} (ht : c → TotalTriple P m Q E)
    (hf : ¬ c → TotalTriple P m' Q E) : TotalTriple P (if c then m else m') Q E := by
  split
  · next h => exact ht h
  · next h => exact hf h

theorem TotalTriple.when {c : Prop} [Decidable c] {m : Program σ ε Unit} {Q : Unit → σ → Prop}
    (ht : c → TotalTriple P m Q E) (hf : ¬ c → ∀ s, P s → Q () s) :
    TotalTriple P (Program.when c m) Q E :=
  TotalTriple.ite ht fun h => TotalTriple.pure (hf h)

theorem TotalTriple.of_forall (h : ∀ t, P t → TotalTriple (· = t) m Q E) : TotalTriple P m Q E :=
  fun s hs => h s hs s rfl

/-- A precondition that does not hold of any state. -/
theorem TotalTriple.absurd (h : ∀ s, ¬ P s) : TotalTriple P m Q E :=
  fun s hs => (h s hs).elim

end Rules

end Program
end Lib
end NucleoBase
