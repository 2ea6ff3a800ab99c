/-
  NucleoBase.Backend.ConditionDestroy

  When a condition may be destroyed.

  A wait whose semaphore wait has failed goes back to the implementation's
  mutex even if a signal has unlinked its waiter meanwhile, and a signal holds
  on to the implementation from its first step to its last.
  `condition_destroy` looks at the waiter list alone, which says nothing about
  either of them.
-/

import NucleoBase.Backend.ConditionCorrect
import Mathlib.Data.Fintype.Basic

namespace NucleoBase
namespace Backend
namespace Condition

open Lib ThreadX

variable {Thread M : Type*}

/-! ## What the callers promise, and the condition -/

/-- The waiter has not been appended yet. -/
def Pc.early : Pc Thread M → Bool
  | .wait _ _ .create | .wait _ _ .lock | .wait _ _ .append => true
  | _ => false

/-- A wait whose semaphore wait has failed is not past the implementation's
    mutex yet, or a signal or a broadcast is under way. -/
def Pc.returning : Pc Thread M → Bool
  | .wait _ _ (.lateLock _) | .wait _ _ (.lateTest _) | .wait _ _ (.latePut _) => true
  | .notify _ _ => true
  | _ => false

/-- `condition_destroy` has not been called. -/
def Undestroyed (h : List (Event Thread M)) : Prop := ∀ t, .destroy t ∉ h

variable [DecidableEq Thread]

/-- The callers destroy a condition once, when every waiter has been unlinked,
    and start nothing on it from then on. -/
def Orderly (recursive : M → Bool) (h : List (Event Thread M)) (s : State Thread M) :
    Event Thread M → Prop
  | .enter t m k ok => Undestroyed h ∧ Entitled recursive s (.enter t m k ok)
  | .notify _ _ => Undestroyed h
  | .destroy _ => Undestroyed h ∧ ∀ u, (s.pc u).early = false ∧ u ∉ queue h
  | e => Entitled recursive s e

/-- Nobody is on the way back to the implementation when it is deleted. -/
def Settled (s : State Thread M) : Event Thread M → Prop
  | .delete _ _ => ∀ u, (s.pc u).returning = false
  | _ => True

theorem Orderly.entitled {recursive : M → Bool} {h : List (Event Thread M)} {s : State Thread M}
    {e : Event Thread M} (ho : Orderly recursive h s e) : Entitled recursive s e := by
  cases e with
  | enter t m k ok => exact ho.2
  | notify | destroy => trivial
  | _ => exact ho

/-! ## The end of a condition -/

/-- The thread is done with the condition, or has not begun. -/
def Pc.outside : Pc Thread M → Bool
  | .idle | .wait _ _ (.leave _) => true
  | _ => false

/-- The thread no longer needs the implementation, if it has been signalled. -/
def Pc.harmless : Pc Thread M → Bool
  | .idle | .wait _ _ .suspend | .wait _ _ (.delete _) | .wait _ _ (.relock _)
  | .wait _ _ (.leave _) => true
  | _ => false

structure Ending (h : List (Event Thread M)) (s : State Thread M) : Prop where
  uncreated : s.life = .uncreated → ∀ t, (s.pc t).outside = true
  destroyer : ∀ t p, s.pc t = .destroy p → .destroy t ∈ h
  unique : ∀ t u, .destroy t ∈ h → .destroy u ∈ h → t = u
  retired : ¬ Undestroyed h → ∀ t, (s.pc t).early = false ∧ t ∉ queue h
  deleted : s.life = .deleted → ¬ Undestroyed h ∧ ∀ t, (s.pc t).harmless = true

section Steps

variable {recursive : M → Bool} {h : List (Event Thread M)} {s s' : State Thread M}
  {e : Event Thread M} {t : Thread}

theorem Ending.initial (h0 : init s) : Ending [] s := by
  obtain ⟨hlife, -, -, -, -, -, hidle⟩ := h0
  refine ⟨fun _ t => by rw [hidle]; rfl, fun t p hp => ?_, by simp, fun h => ?_, fun h => ?_⟩
  · rw [hidle] at hp
    cases hp
  · exact absurd (fun t => List.not_mem_nil) h
  · rw [hlife] at h
    cases h

/-- A step that moves one thread on and starts nothing. -/
theorem Ending.move (en : Ending h s) (hother : ∀ u, u ≠ e.thread → s'.pc u = s.pc u)
    (hlife : s'.life = s.life) (hdestroy : ∀ u, e ≠ .destroy u)
    (hqueue : ∀ u ∈ queue (e :: h), u ∈ queue h ∨ (s.pc e.thread).early = true)
    (houtside : (s.pc e.thread).outside = true → (s'.pc e.thread).outside = true)
    (hdestroyer : ∀ p, s'.pc e.thread = .destroy p → ∃ p, s.pc e.thread = .destroy p)
    (hearly : (s'.pc e.thread).early = true → (s.pc e.thread).early = true)
    (hharmless : s.life = .deleted → (s'.pc e.thread).harmless = true) :
    Ending (e :: h) s' := by
  have hun : Undestroyed (e :: h) ↔ Undestroyed h := by
    simp [Undestroyed, fun u => Ne.symm (hdestroy u)]
  have hmem : ∀ u, .destroy u ∈ e :: h ↔ .destroy u ∈ h := by
    simp [fun u => Ne.symm (hdestroy u)]
  refine ⟨fun hl u => ?_, fun u p hp => ?_, fun u v hu hv => ?_, fun hu u => ?_, fun hl => ?_⟩
  · rw [hlife] at hl
    by_cases hue : u = e.thread
    · rw [hue]
      exact houtside (en.uncreated hl _)
    · rw [hother u hue]
      exact en.uncreated hl u
  · rw [hmem]
    by_cases hue : u = e.thread
    · rw [hue] at hp ⊢
      obtain ⟨q, hq⟩ := hdestroyer p hp
      exact en.destroyer _ q hq
    · rw [hother u hue] at hp
      exact en.destroyer u p hp
  · exact en.unique u v ((hmem u).mp hu) ((hmem v).mp hv)
  · have hret := en.retired (mt hun.mpr hu)
    refine ⟨?_, fun hq => ?_⟩
    · by_cases hue : u = e.thread
      · rw [hue]
        by_contra hne
        have := hearly (by simpa using hne)
        rw [(hret _).1] at this
        cases this
      · rw [hother u hue]
        exact (hret u).1
    · rcases hqueue u hq with hq | he
      · exact (hret u).2 hq
      · rw [(hret _).1] at he
        cases he
  · rw [hlife] at hl
    obtain ⟨hu, hh⟩ := en.deleted hl
    refine ⟨mt hun.mp hu, fun u => ?_⟩
    by_cases hue : u = e.thread
    · rw [hue]
      exact hharmless hl
    · rw [hother u hue]
      exact hh u

theorem Ending.goto (en : Ending h s) {p pc : Pc Thread M} (hp : s.pc e.thread = p)
    (hpc : s'.pc = s.pc) (hlife : s'.life = s.life) (hdestroy : ∀ u, e ≠ .destroy u)
    (hqueue : ∀ u ∈ queue (e :: h), u ∈ queue h ∨ p.early = true)
    (houtside : p.outside = true → pc.outside = true)
    (hdestroyer : ∀ q, pc = .destroy q → ∃ q, p = .destroy q)
    (hearly : pc.early = true → p.early = true)
    (hharmless : s.life = .deleted → p.harmless = true → pc.harmless = true) :
    Ending (e :: h) (s'.goto e.thread pc) := by
  have hself : (s'.goto e.thread pc).pc e.thread = pc := by simp
  refine en.move (fun u hu => by rw [pc_goto, if_neg hu, hpc]) hlife hdestroy ?_ ?_ ?_ ?_ ?_ <;>
    simp only [hself, hp]
  · exact hqueue
  · exact houtside
  · exact hdestroyer
  · exact hearly
  · exact fun hl => hharmless hl (hp ▸ (en.deleted hl).2 _)

/-- What getting or releasing the implementation's mutex leads to. -/
theorem Pc.afterGet_facts {p pc : Pc Thread M} (hpc : p.afterGet = some pc) :
    p.outside = false ∧ p.harmless = false ∧ (pc.early = true → p.early = true) ∧
      ∀ q, pc = .destroy q → ∃ q, p = .destroy q := by
  cases p with
  | idle => cases hpc
  | wait m k p => cases p <;> cases hpc <;> simp [outside, harmless, early]
  | notify all p => cases p <;> cases hpc <;> simp [outside, harmless, early]
  | destroy p => cases p <;> cases hpc <;> simp [outside, harmless, early]

theorem Pc.afterPut_facts {p pc : Pc Thread M} (hpc : p.afterPut = some pc) :
    p.outside = false ∧ p.harmless = false ∧ (pc.early = true → p.early = true) ∧
      ∀ q, pc = .destroy q → ∃ q, p = .destroy q := by
  cases p with
  | idle => cases hpc
  | wait m k p =>
      cases p with
      | put e => cases e <;> cases hpc <;> simp [outside, harmless, early]
      | _ => cases hpc <;> simp [outside, harmless, early]
  | notify all p => cases p <;> cases hpc <;> simp [outside, harmless, early]
  | destroy p =>
      cases p with
      | put busy => cases busy <;> cases hpc <;> simp [outside, harmless, early]
      | _ => cases hpc

/-- After the destruction a wait that is still suspended has been signalled. -/
theorem Ending.suspended (en : Ending h s) (inv : Inv recursive h s) (hl : s.life = .deleted)
    {m : M} {k : Kind} (hpc : s.pc t = .wait m k .suspend) :
    (s.waiter t).semaphore = some 1 := by
  obtain ⟨hu, hharm⟩ := en.deleted hl
  have hq := (en.retired hu t).2
  have hpost : posting h ≠ some t := fun hp => by
    obtain ⟨u, all, hu⟩ := inv.posting t hp
    have := hharm u
    rw [hu] at this
    cases this
  have hpend := (inv.at hpc).1
  have hn : (view h s t).notified = true := by
    have := hpend.queued_iff
    simpa [view, hq] using this
  have := hpend.semaphore_eq (by simp [view, hpost])
  rwa [hn] at this

/-- The semaphore wait can no longer fail once the implementation is gone. -/
theorem Ending.getSemaphore (en : Ending h s) (inv : Inv recursive h s) {m : M} {k : Kind}
    (hpc : s.pc t = .wait m k .suspend) {wake : Wake}
    (hs : s.getSemaphore t m k wake = some s') : Ending (.getSemaphore t wake :: h) s' := by
  obtain ⟨count, hcount, hs⟩ := Option.bind_eq_some_iff.mp hs
  have hlate : ∀ r, count = 0 →
      Ending (.getSemaphore t wake :: h) (s.goto t (.wait m k (.lateLock r))) := by
    rintro r rfl
    refine en.goto hpc rfl rfl (by simp) (fun u hu => .inl hu) (by simp [Pc.outside]) (by simp)
      (by simp [Pc.early]) fun hl _ => ?_
    rw [en.suspended inv hl hpc] at hcount
    cases hcount
  cases count with
  | succ n =>
      cases wake with
      | success =>
          cases hs
          exact en.goto hpc rfl rfl (by simp) (fun u hu => .inl hu) (by simp [Pc.outside])
            (by simp) (by simp [Pc.early]) (by simp [Pc.harmless])
      | again | expired | aborted => cases hs
  | zero =>
      cases wake with
      | success => cases hs
      | again =>
          obtain ⟨-, hs⟩ := Option.ite_none_right_eq_some.mp hs
          cases hs
          rw [← goto_self hpc]
          exact en.goto hpc rfl rfl (by simp) (fun u hu => .inl hu) id (by simp) id fun _ => id
      | expired =>
          obtain ⟨-, hs⟩ := Option.ite_none_right_eq_some.mp hs
          cases hs
          exact hlate _ rfl
      | aborted =>
          cases hs
          exact hlate _ rfl

theorem Ending.begin (en : Ending h s) (hu : Undestroyed (e :: h))
    (hother : ∀ u, u ≠ e.thread → s'.pc u = s.pc u)
    (hself : ∀ p, s'.pc e.thread ≠ .destroy p) (hlife : s'.life ≠ .deleted)
    (hout : s'.life = .uncreated → s.life = .uncreated ∧ (s'.pc e.thread).outside = true) :
    Ending (e :: h) s' := by
  refine ⟨fun hl u => ?_, fun u p hp => ?_, fun u v huh => absurd huh (hu u),
    fun hn => absurd hu hn, fun hl => absurd hl hlife⟩
  · obtain ⟨hl, ho⟩ := hout hl
    by_cases hue : u = e.thread
    · rw [hue]
      exact ho
    · rw [hother u hue]
      exact en.uncreated hl u
  · by_cases hue : u = e.thread
    · exact absurd (hue ▸ hp) (hself p)
    · rw [hother u hue] at hp
      exact List.mem_cons_of_mem _ (en.destroyer u p hp)

theorem Ending.destroy (en : Ending h s) (hu : Undestroyed h)
    (hret : ∀ u, (s.pc u).early = false ∧ u ∉ queue h) (hpc : s.pc t = .idle) :
    Ending (.destroy t :: h) (if s.life = .live then s.goto t (.destroy .lock) else s) := by
  have honly : ∀ u, .destroy u ∈ .destroy t :: h → u = t := fun u hmem => by
    rcases List.mem_cons.mp hmem with hut | hmem
    · cases hut
      rfl
    · exact absurd hmem (hu u)
  have hdel : s.life ≠ .deleted := fun hl => (en.deleted hl).1 hu
  split
  · rename_i hl
    refine ⟨fun h => by simp [hl] at h, fun u p hp => ?_, fun u v hmu hmv => ?_, fun _ u => ?_,
      fun h => by simp [hl] at h⟩
    · rcases eq_or_ne u t with rfl | hut
      · exact List.mem_cons_self
      · exact List.mem_cons_of_mem _ (en.destroyer u p (by simpa [hut] using hp))
    · rw [honly u hmu, honly v hmv]
    · refine ⟨?_, (hret u).2⟩
      rcases eq_or_ne u t with rfl | hut
      · simp [Pc.early]
      · simpa [hut] using (hret u).1
  · exact ⟨en.uncreated, fun u p hp => List.mem_cons_of_mem _ (en.destroyer u p hp),
      fun u v hmu hmv => by rw [honly u hmu, honly v hmv], fun _ => hret, fun hl => absurd hl hdel⟩

/-- When the implementation goes, everybody else is past it. -/
theorem Ending.delete (en : Ending h s) (inv : Inv recursive h s)
    (hpc : s.pc t = .destroy .delete) (hset : ∀ u, (s.pc u).returning = false) :
    Ending (.delete t true :: h) ({ s with life := .deleted }.goto t .idle) := by
  have ht := en.destroyer t _ hpc
  have hun : ¬ Undestroyed h := fun hu => hu t ht
  have hun' : ¬ Undestroyed (.delete t true :: h) := fun hu => hu t (List.mem_cons_of_mem _ ht)
  have hret := en.retired hun
  have hharm : ∀ u, u ≠ t → (s.pc u).harmless = true := fun u hut => by
    have hok := inv.ok u
    have hearly := (hret u).1
    have hreturn := hset u
    have hq : (view h s u).queued = false := by simpa [view] using (hret u).2
    cases hp : s.pc u with
    | idle => rfl
    | notify all p =>
        rw [hp] at hreturn
        cases hreturn
    | destroy p => exact absurd (en.unique u t (en.destroyer u p hp) ht) hut
    | wait m k p =>
        rw [hp] at hok hearly hreturn
        cases p with
        | suspend | delete | relock | leave => rfl
        | create | lock | append => cases hearly
        | lateLock | lateTest | latePut => cases hreturn
        | unlockMutex | put =>
            rw [hok.2.2.1] at hq
            cases hq
        | cancelLock | cancelRemove | cancelPut | cancelDelete => exact hok.elim
  have hpcs : ∀ u, (({ s with life := .deleted }.goto t .idle).pc u).harmless = true := fun u => by
    rcases eq_or_ne u t with rfl | hut
    · simp [Pc.harmless]
    · simpa [hut] using hharm u hut
  refine ⟨fun h => by simp at h, fun u p hp => ?_, fun u v hu hv => ?_, fun _ u => ⟨?_, (hret u).2⟩,
    fun _ => ⟨hun', hpcs⟩⟩
  · have := hpcs u
    rw [hp] at this
    cases this
  · exact en.unique u v (by simpa using hu) (by simpa using hv)
  · rcases eq_or_ne u t with rfl | hut
    · simp [Pc.early]
    · simpa [hut] using (hret u).1

end Steps

/-! ## Runs -/

section Runs

variable [DecidableEq M] {recursive : M → Bool} {h : List (Event Thread M)}
  {s s' : State Thread M} {e : Event Thread M} {t : Thread} {m : M}

theorem lockMutex_frame {r : Bool} {st : Status} (hs : s.lockMutex t m r = some (s', st)) :
    s'.pc = s.pc ∧ s'.life = s.life := by
  rcases lockMutex_eq_some hs with ⟨rfl, -⟩ | ⟨-, n, rfl, -⟩ <;> exact ⟨rfl, rfl⟩

theorem unlockMutex_frame (s : State Thread M) (t : Thread) (m : M) :
    (s.unlockMutex t m).1.pc = s.pc ∧ (s.unlockMutex t m).1.life = s.life := by
  rcases unlockMutex_cases s t m with ⟨hu, -⟩ | ⟨x, n, -, hu, -⟩ <;> rw [hu] <;> exact ⟨rfl, rfl⟩

theorem Ending.preserve (en : Ending h s) (inv : Inv recursive h s)
    (ho : Orderly recursive h s e) (hset : Settled s e) (hs : step s e = some s') :
    Ending (e :: h) s' := by
  obtain ⟨hstep, hs⟩ := Option.ite_none_left_eq_some.mp hs
  cases e with
  | lock t m r =>
      obtain ⟨hpc, hs⟩ := Option.ite_none_right_eq_some.mp hs
      obtain ⟨⟨s₁, st⟩, hlock, rfl⟩ := Option.map_eq_some_iff.mp hs
      obtain ⟨hpcs, hlife⟩ := lockMutex_frame hlock
      rw [← goto_self (show s₁.pc t = .idle by rw [hpcs, hpc])]
      exact en.goto hpc hpcs hlife (by simp) (fun u hu => .inl hu) id (by simp) id fun _ => id
  | unlock t m =>
      obtain ⟨hpc, hs⟩ := Option.ite_none_right_eq_some.mp hs
      cases hs
      obtain ⟨hpcs, hlife⟩ := unlockMutex_frame s t m
      rw [← goto_self (show (s.unlockMutex t m).1.pc t = .idle by rw [hpcs, hpc])]
      exact en.goto hpc hpcs hlife (by simp) (fun u hu => .inl hu) id (by simp) id fun _ => id
  | enter t m k ok =>
      obtain ⟨hpc, hs⟩ := Option.ite_none_right_eq_some.mp hs
      have hdel : s.life ≠ .deleted := fun hl => (en.deleted hl).1 ho.1
      have hmove : ∀ l p, (l = s.life ∧ (Pc.wait m k p : Pc Thread M).outside = true) ∨ l = .live →
          Ending (.enter t m k ok :: h) ({ s with life := l }.goto t (.wait m k p)) := by
        intro l p hl
        refine en.begin (by simpa [Undestroyed] using ho.1) (fun u hu => ?_)
          (by simp [Event.thread]) ?_ (fun hu => ?_)
        · exact (pc_goto _).trans (if_neg hu)
        · rcases hl with ⟨rfl, -⟩ | rfl
          · exact hdel
          · simp
        · rcases hl with ⟨rfl, hp⟩ | rfl
          · exact ⟨hu, by simpa [Event.thread] using hp⟩
          · simp at hu
      simp only [State.enterWait] at hs
      split at hs
      · cases hs
        exact hmove s.life _ (.inl ⟨rfl, rfl⟩)
      · split at hs
        · cases hs
          exact hmove s.life _ (.inl ⟨rfl, rfl⟩)
        · cases hs
          exact hmove .live _ (.inr rfl)
        · cases hs
          exact hmove .live _ (.inr rfl)
        · cases hs
  | createSemaphore t ok =>
      simp only [perform] at hs
      split at hs
      · rename_i m k hpc
        cases ok <;> cases hs <;>
          exact en.goto hpc rfl rfl (by simp) (fun u hu => .inl hu)
            (by simp [Pc.outside]) (by simp) (by simp [Pc.early]) (by simp [Pc.harmless])
      · cases hs
  | getMutex t =>
      obtain ⟨pc, hpc, hs⟩ := Option.bind_eq_some_iff.mp hs
      obtain ⟨x, hx, rfl⟩ := Option.map_eq_some_iff.mp hs
      obtain ⟨hout, hharm, hearly, hdes⟩ := Pc.afterGet_facts hpc
      exact en.goto rfl rfl rfl (by simp) (fun u hu => .inl hu)
        (by simp [Event.thread, hout]) hdes hearly (by simp [Event.thread, hharm])
  | append t =>
      simp only [perform] at hs
      split at hs
      · rename_i m k hpc
        cases hs
        exact en.goto hpc (by simp) (by simp) (by simp)
          (fun u _ => .inr rfl) (by simp [Pc.outside]) (by simp) (by simp [Pc.early])
          (by simp [Pc.harmless])
      · cases hs
  | unlockMutex t =>
      simp only [perform] at hs
      split at hs
      · rename_i m k hpc
        cases hs
        obtain ⟨hpcs, hlife⟩ := unlockMutex_frame s t m
        exact en.goto hpc hpcs hlife (by simp)
          (fun u hu => .inl hu) (by simp [Pc.outside]) (by simp) (by simp [Pc.early])
          (by simp [Pc.harmless])
      · cases hs
  | putMutex t =>
      obtain ⟨pc, hpc, hs⟩ := Option.bind_eq_some_iff.mp hs
      obtain ⟨x, hx, rfl⟩ := Option.map_eq_some_iff.mp hs
      obtain ⟨hout, hharm, hearly, hdes⟩ := Pc.afterPut_facts hpc
      exact en.goto rfl rfl rfl (by simp) (fun u hu => .inl hu)
        (by simp [Event.thread, hout]) hdes hearly (by simp [Event.thread, hharm])
  | getSemaphore t wake =>
      simp only [perform] at hs
      split at hs
      · rename_i m k hpc
        exact en.getSemaphore inv hpc hs
      · cases hs
  | withdraw t =>
      simp only [perform] at hs
      split at hs
      · rename_i m k r hpc
        exact (inv.at hpc).elim
      · rename_i m k r hpc
        obtain ⟨hl, hs⟩ := Option.ite_none_right_eq_some.mp hs
        cases hs
        exact en.goto hpc (by simp) (by simp) (by simp)
          (fun u hu => .inl (List.mem_of_mem_erase hu)) (by simp [Pc.outside]) (by simp)
          (by simp [Pc.early]) (by simp [Pc.harmless])
      · cases hs
  | reclaim t =>
      simp only [perform] at hs
      split at hs
      · rename_i m k r hpc
        obtain ⟨hl, hs⟩ := Option.ite_none_left_eq_some.mp hs
        obtain ⟨count, hcount, rfl⟩ := Option.map_eq_some_iff.mp hs
        cases count <;>
          exact en.goto hpc rfl rfl (by simp) (fun u hu => .inl hu)
            (by simp [Pc.outside]) (by simp) (by simp [Pc.early]) (by simp [Pc.harmless])
      · cases hs
  | deleteSemaphore t =>
      simp only [perform] at hs
      obtain ⟨-, hs⟩ := Option.ite_none_left_eq_some.mp hs
      split at hs
      · rename_i m k r hpc
        exact (inv.at hpc).elim
      · rename_i m k r hpc
        cases hs
        exact en.goto hpc rfl rfl (by simp) (fun u hu => .inl hu)
          (by simp [Pc.outside]) (by simp) (by simp [Pc.early]) (by simp [Pc.harmless])
      · cases hs
  | relock t =>
      simp only [perform] at hs
      split at hs
      · rename_i m k r hpc
        obtain ⟨⟨s₁, st⟩, hlock, rfl⟩ := Option.map_eq_some_iff.mp hs
        obtain ⟨hpcs, hlife⟩ := lockMutex_frame hlock
        exact en.goto hpc hpcs hlife (by simp)
          (fun u hu => .inl hu) (by simp [Pc.outside]) (by simp) (by simp [Pc.early])
          (by simp [Pc.harmless])
      · cases hs
  | leave t r =>
      simp only [perform] at hs
      split at hs
      · rename_i m k r' hpc
        obtain ⟨-, hs⟩ := Option.ite_none_right_eq_some.mp hs
        cases hs
        exact en.goto hpc rfl rfl (by simp) (fun u hu => .inl hu)
          (by simp [Pc.outside]) (by simp) (by simp [Pc.early]) (by simp [Pc.harmless])
      · cases hs
  | notify t all =>
      obtain ⟨hpc, hs⟩ := Option.ite_none_right_eq_some.mp hs
      have hdel : s.life ≠ .deleted := fun hl => (en.deleted hl).1 ho
      have hu : Undestroyed (.notify t all :: h) := by
        simpa [Undestroyed] using (show Undestroyed h from ho)
      cases hs
      split
      · rename_i hl
        exact en.begin hu (fun u hu => (pc_goto _).trans (if_neg hu)) (by simp [Event.thread])
          (by simp [hl]) (by simp [hl])
      · exact en.begin hu (fun _ _ => rfl) (by simp [Event.thread, hpc]) hdel
          fun hl => ⟨hl, en.uncreated hl t⟩
  | unlink t w =>
      simp only [perform] at hs
      split at hs
      · rename_i all hpc
        obtain ⟨hw, hs⟩ := Option.ite_none_right_eq_some.mp hs
        cases hs
        exact en.goto hpc (by simp) (by simp) (by simp)
          (fun u hu => .inl (List.mem_of_mem_erase hu)) (by simp [Pc.outside]) (by simp)
          (by simp [Pc.early]) (by simp [Pc.harmless])
      · cases hs
  | noWaiter t =>
      simp only [perform] at hs
      split at hs
      · rename_i all hpc
        obtain ⟨hnone, hs⟩ := Option.ite_none_right_eq_some.mp hs
        cases hs
        exact en.goto hpc rfl rfl (by simp) (fun u hu => .inl hu)
          (by simp [Pc.outside]) (by simp) (by simp [Pc.early]) (by simp [Pc.harmless])
      · cases hs
  | post t =>
      simp only [perform] at hs
      split at hs
      · rename_i all w hpc
        obtain ⟨n, hn, rfl⟩ := Option.map_eq_some_iff.mp hs
        exact en.goto hpc rfl rfl (by simp) (fun u hu => .inl hu)
          (by simp [Pc.outside]) (by simp) (by simp [Pc.early]) (by simp [Pc.harmless])
      · cases hs
  | destroy t =>
      obtain ⟨hpc, hs⟩ := Option.ite_none_right_eq_some.mp hs
      cases hs
      exact en.destroy ho.1 ho.2 hpc
  | test t =>
      simp only [perform] at hs
      split at hs
      · rename_i hpc
        cases hs
        exact en.goto hpc rfl rfl (by simp) (fun u hu => .inl hu)
          (by simp [Pc.outside]) (by simp) (by simp [Pc.early]) (by simp [Pc.harmless])
      · cases hs
  | delete t ok =>
      simp only [perform] at hs
      split at hs
      · rename_i hpc
        cases ok with
        | true =>
            cases hs
            exact en.delete inv hpc hset
        | false =>
            cases hs
            exact en.goto hpc rfl rfl (by simp) (fun u hu => .inl hu)
              (by simp [Pc.outside]) (by simp) (by simp [Pc.early]) (by simp [Pc.harmless])
      · cases hs

/-- The runs in which the callers keep their promise, and nobody is on the way
    back to the implementation when it is deleted. -/
def Careful (recursive : M → Bool) (h : List (Event Thread M)) (s : State Thread M)
    (e : Event Thread M) : Prop :=
  Orderly recursive h s e ∧ Settled s e

theorem ending_of_run (hrun : Run step (Careful recursive) init h s) :
    Inv recursive h s ∧ Ending h s :=
  Run.history_invariant (I := fun h s => Inv recursive h s ∧ Ending h s)
    (fun _ h0 => ⟨Inv.initial h0, Ending.initial h0⟩)
    (fun _ _ _ _ hi hg hs =>
      ⟨hi.1.preserve hg.1.entitled hs, hi.2.preserve hi.1 hg.1 hg.2 hs⟩) hrun

/-- Once `condition_destroy` has deleted the implementation, nobody's next step
    reads, locks or unlocks it. -/
def Safe (s : State Thread M) : Prop := s.life ≠ .live → ∀ t, (s.pc t).accesses = false

/-- Nobody touches the implementation of a condition after its destruction,
    if nobody is on the way back to it when it is deleted. -/
theorem destroy_guarantee (hrun : Run step (Careful recursive) init h s) : Safe s := by
  obtain ⟨inv, en⟩ := ending_of_run hrun
  intro hlife t
  cases hl : s.life with
  | live => exact absurd hl hlife
  | uncreated =>
      have hout := en.uncreated hl t
      revert hout
      cases s.pc t with
      | wait m k p => cases p <;> simp [Pc.outside, Pc.accesses]
      | _ => simp [Pc.outside, Pc.accesses]
  | deleted =>
      have hharm := (en.deleted hl).2 t
      revert hharm
      cases s.pc t with
      | wait m k p => cases p <;> simp [Pc.harmless, Pc.accesses]
      | _ => simp [Pc.harmless, Pc.accesses]

end Runs

/-! ## Two destructions -/

section Examples

variable [Fintype Thread] [DecidableEq M] {recursive : M → Bool} {h : List (Event Thread M)}
  {s : State Thread M}

instance : Decidable (Undestroyed h) := inferInstanceAs (Decidable (∀ _, _))

instance instDecidableOrderly : ∀ e, Decidable (Orderly recursive h s e)
  | .enter _ _ _ _ | .destroy _ => inferInstanceAs (Decidable (_ ∧ _))
  | .notify _ _ => inferInstanceAs (Decidable (Undestroyed h))
  | .lock t m r => inferInstanceAs (Decidable (Entitled recursive s (.lock t m r)))
  | .unlock _ _ | .createSemaphore _ _ | .getMutex _ | .append _ | .unlockMutex _ | .putMutex _
  | .getSemaphore _ _ | .withdraw _ | .reclaim _ | .deleteSemaphore _ | .relock _ | .leave _ _
  | .unlink _ _ | .noWaiter _ | .post _ | .test _ | .delete _ _ => isTrue trivial

instance instDecidableSettled : ∀ e, Decidable (Settled s e)
  | .delete _ _ => inferInstanceAs (Decidable (∀ _, _))
  | .enter _ _ _ _ | .destroy _ | .notify _ _ | .lock _ _ _ | .unlock _ _ | .createSemaphore _ _
  | .getMutex _ | .append _ | .unlockMutex _ | .putMutex _ | .getSemaphore _ _ | .withdraw _
  | .reclaim _ | .deleteSemaphore _ | .relock _ | .leave _ _ | .unlink _ _ | .noWaiter _
  | .post _ | .test _ => isTrue trivial

instance (e : Event Thread M) : Decidable (Careful recursive h s e) :=
  inferInstanceAs (Decidable (_ ∧ _))

end Examples

instance : Fintype Role := ⟨{.waiter, .signaller}, fun r => by cases r <;> simp⟩

/-- The signaller destroys the condition after its signal has returned. -/
def destruction : List (Event Role Unit) :=
  [.destroy .signaller, .getMutex .signaller, .test .signaller, .putMutex .signaller,
   .delete .signaller true]

/-- The waiter is signalled before its deadline. -/
def inTime : List (Event Role Unit) :=
  [.lock .waiter () false, .enter .waiter () .timed true, .createSemaphore .waiter true,
   .getMutex .waiter, .append .waiter, .unlockMutex .waiter, .putMutex .waiter,
   .notify .signaller false, .getMutex .signaller, .unlink .signaller .waiter,
   .post .signaller, .putMutex .signaller]

theorem destroy_guarantee_inTime :
    ∃ s, replay step unused (inTime ++ destruction ++ [.getSemaphore .waiter .success]) = some s ∧
      s.life = .deleted ∧ Safe s :=
  ⟨_, rfl, rfl, destroy_guarantee (Run.of_replay init_unused
    (by decide +kernel : Guarded step (Careful fun _ => false) [] unused
      (inTime ++ destruction ++ [.getSemaphore .waiter .success])) rfl)⟩

/-- If the deadline passes before the signal, the signalled wait is about to
    lock the mutex of an implementation that is gone. -/
theorem destroy_unsafe :
    ∃ (h : List (Event Role Unit)) (s : State Role Unit),
      Run step (Orderly fun _ => false) init h s ∧ ¬ Safe s := by
  refine ⟨_, _, Run.of_replay init_unused (by decide +kernel :
    Guarded step (Orderly fun _ => false) [] unused (lateSignal ++ destruction)) rfl,
    fun hsafe => ?_⟩
  exact absurd (hsafe (by decide) .waiter) (by decide)

end Condition
end Backend
end NucleoBase
