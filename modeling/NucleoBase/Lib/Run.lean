/-
  NucleoBase.Lib.Run

  Guarded, executable transition systems and their runs.

  A system is a partial step function `step : σ → ℓ → Option σ`: `step s l`
  is `some s'` when the label `l` is enabled in `s`.  `Run` records a finite
  run together with its history, the labels of the steps taken, most recent
  first.  A guard restricts the steps a run may take; `anyStep` is the guard
  that refuses nothing.

  The induction rules (`Run.invariant`, `Run.history_invariant`) are the only
  inductions over runs that the protocol developments need: each of them
  proves what one step preserves and obtains the whole run from here.
-/

import Mathlib.Data.List.Basic
import Mathlib.Logic.Function.Basic

namespace NucleoBase
namespace Lib

variable {σ ℓ : Type*}

/-- The guard that lets every step through. -/
def anyStep : List ℓ → σ → ℓ → Prop := fun _ _ _ => True

/-- Finite runs from an initial state in which every step satisfies the guard
    at the moment it is taken.  The list is the history, newest label first. -/
inductive Run (step : σ → ℓ → Option σ) (guard : List ℓ → σ → ℓ → Prop)
    (init : σ → Prop) : List ℓ → σ → Prop
  | start {s : σ} : init s → Run step guard init [] s
  | step {h : List ℓ} {s s' : σ} {l : ℓ} :
      Run step guard init h s → guard h s l → step s l = some s' →
      Run step guard init (l :: h) s'

/-- Replay labels in the order they happen; `none` if one is not enabled. -/
def replay (step : σ → ℓ → Option σ) (s : σ) : List ℓ → Option σ
  | [] => some s
  | l :: ls => (step s l).bind fun s' => replay step s' ls

/-- Every step of a replay from `s` with history `h` satisfies the guard. -/
def Guarded (step : σ → ℓ → Option σ) (guard : List ℓ → σ → ℓ → Prop) :
    List ℓ → σ → List ℓ → Prop
  | _, _, [] => True
  | h, s, l :: ls => guard h s l ∧ ∀ s' ∈ step s l, Guarded step guard (l :: h) s' ls

instance instDecidableGuarded {step : σ → ℓ → Option σ} {guard : List ℓ → σ → ℓ → Prop}
    [∀ h s l, Decidable (guard h s l)] :
    ∀ h s ls, Decidable (Guarded step guard h s ls)
  | _, _, [] => isTrue trivial
  | h, _, l :: ls =>
      have : ∀ s', Decidable (Guarded step guard (l :: h) s' ls) :=
        fun s' => instDecidableGuarded (l :: h) s' ls
      inferInstanceAs (Decidable (_ ∧ _))

section Rules

variable {step : σ → ℓ → Option σ} {guard guard' : List ℓ → σ → ℓ → Prop}
  {init : σ → Prop}

/-- The invariant rule with the history in view: what holds initially and is
    preserved by every guarded step holds in every run. -/
theorem Run.history_invariant {I : List ℓ → σ → Prop}
    (hinit : ∀ s, init s → I [] s)
    (hstep : ∀ h s l s', I h s → guard h s l → step s l = some s' → I (l :: h) s')
    {h : List ℓ} {s : σ} (hrun : Run step guard init h s) : I h s := by
  induction hrun with
  | start h0 => exact hinit _ h0
  | step _ hg hs ih => exact hstep _ _ _ _ ih hg hs

/-- The invariant rule for a predicate on states alone. -/
theorem Run.invariant {I : σ → Prop}
    (hinit : ∀ s, init s → I s)
    (hstep : ∀ s l s', I s → step s l = some s' → I s')
    {h : List ℓ} {s : σ} (hrun : Run step guard init h s) : I s :=
  Run.history_invariant (I := fun _ s => I s) hinit
    (fun _ s l s' hi _ hs => hstep s l s' hi hs) hrun

/-- A guarded replay that succeeds extends any run. -/
theorem Run.append_replay {h : List ℓ} {s s' : σ} {ls : List ℓ}
    (hrun : Run step guard init h s) (hg : Guarded step guard h s ls)
    (hls : replay step s ls = some s') : Run step guard init (ls.reverse ++ h) s' := by
  induction ls generalizing h s with
  | nil =>
      simp only [replay, Option.some.injEq] at hls
      subst hls
      simpa using hrun
  | cons l ls ih =>
      simp only [replay, Option.bind_eq_some_iff] at hls
      obtain ⟨t, ht, hls⟩ := hls
      have hnext : Run step guard init (l :: h) t := hrun.step hg.1 ht
      simpa using ih hnext (hg.2 t ht) hls

/-- A guarded replay that succeeds from an initial state is a run. -/
theorem Run.of_replay {s s' : σ} {ls : List ℓ} (h0 : init s)
    (hg : Guarded step guard [] s ls) (hls : replay step s ls = some s') :
    Run step guard init ls.reverse s' := by
  simpa using (Run.start h0).append_replay hg hls

theorem guarded_anyStep (h : List ℓ) (s : σ) (ls : List ℓ) : Guarded step anyStep h s ls := by
  induction ls generalizing h s with
  | nil => trivial
  | cons l ls ih => exact ⟨trivial, fun s' _ => ih (l :: h) s'⟩

/-- A guard on states alone does not care about the history. -/
theorem Guarded.any_history {G : σ → ℓ → Prop} {h : List ℓ} {s : σ} {ls : List ℓ}
    (hg : Guarded step (fun _ => G) h s ls) (k : List ℓ) : Guarded step (fun _ => G) k s ls := by
  induction ls generalizing h k s with
  | nil => trivial
  | cons l ls ih => exact ⟨hg.1, fun s' hs' => ih (hg.2 s' hs') (l :: k)⟩

/-- What every step preserves a replay preserves. -/
theorem replay_history_invariant {I : List ℓ → σ → Prop}
    (hstep : ∀ h s l s', I h s → step s l = some s' → I (l :: h) s')
    {h : List ℓ} {s s' : σ} {ls : List ℓ} (hi : I h s) (hls : replay step s ls = some s') :
    I (ls.reverse ++ h) s' := by
  induction ls generalizing h s with
  | nil =>
      simp only [replay, Option.some.injEq] at hls
      subst hls
      simpa using hi
  | cons l ls ih =>
      simp only [replay, Option.bind_eq_some_iff] at hls
      obtain ⟨t, ht, hls⟩ := hls
      simpa using ih (hstep h s l t hi ht) hls

/-- Two replays, one after the other. -/
theorem replay_append {s t u : σ} {ls ls' : List ℓ} (h : replay step s ls = some t)
    (h' : replay step t ls' = some u) : replay step s (ls ++ ls') = some u := by
  induction ls generalizing s with
  | nil =>
      simp only [replay, Option.some.injEq] at h
      subst h
      exact h'
  | cons l ls ih =>
      simp only [replay, Option.bind_eq_some_iff] at h
      obtain ⟨v, hv, h⟩ := h
      simp only [List.cons_append, replay, hv, Option.bind_some]
      exact ih h

/-- The state a successful replay ends in is the end of a run. -/
theorem Run.of_replay_isSome {s : σ} {ls : List ℓ} (h0 : init s)
    (hls : (replay step s ls).isSome = true) :
    Run step anyStep init ls.reverse ((replay step s ls).get hls) :=
  Run.of_replay h0 (guarded_anyStep [] s ls) (Option.some_get hls).symm

end Rules

end Lib
end NucleoBase
