/-
  NucleoBase.Backend.Mutexes

  Mutexes and recursive mutexes (backend.cpp): a ThreadX mutex behind each handle,
  created on first use under `initialization_mutex`, and the calls on it with their
  status codes.

  Calls come from threads, after the runtime has been initialized;
  `require_thread_context` refuses all others.  `tx_mutex_delete` of a mutex that
  exists succeeds, so `destroy_mutex` is one step.
-/

import NucleoBase.Lib.Lazy
import NucleoBase.ThreadX.Mutex
import Mathlib.Data.List.Count

namespace NucleoBase

/-! ## The ownership count -/

namespace ThreadX.Mutex

variable {Thread : Type*} [DecidableEq Thread]

/-- How often a thread owns a mutex. -/
def count (t : Thread) : Mutex Thread → Nat
  | .free => 0
  | .held u n => if u = t then n + 1 else 0

theorem count_pos {t : Thread} {m : Mutex Thread} : 0 < m.count t ↔ m.owner = some t := by
  cases m with
  | free => simp [count]
  | held u n => by_cases hu : u = t <;> simp [count, hu]

theorem count_eq_zero {t : Thread} {m : Mutex Thread} : m.count t = 0 ↔ m.owner ≠ some t := by
  rw [Ne, ← count_pos]
  omega

theorem get_eq_none {t : Thread} {m : Mutex Thread} :
    m.get t = none ↔ ∃ u n, u ≠ t ∧ m = .held u n := by
  cases m with
  | free => simp [get]
  | held u n => by_cases hu : u = t <;> simp [get, hu]

/-- The mutex is obtained once more, and by nobody else. -/
theorem count_get {t : Thread} {m m' : Mutex Thread} (h : m.get t = some m') (u : Thread) :
    m'.count u = m.count u + (if t = u then 1 else 0) ∧ (u ≠ t → m.count u = 0) := by
  rcases get_eq_some.mp h with ⟨rfl, rfl⟩ | ⟨n, rfl, rfl⟩ <;> by_cases hu : t = u
  · simp [count, hu]
  · simp [count, hu]
  · simp [count, hu]
  · simp [count, hu]

theorem count_put {t : Thread} {m m' : Mutex Thread} (h : m.put t = some m') (u : Thread) :
    m.count u = m'.count u + (if t = u then 1 else 0) := by
  rcases put_eq_some.mp h with ⟨rfl, rfl⟩ | ⟨n, rfl, rfl⟩ <;> by_cases hu : t = u
  · simp [count, hu]
  · simp [count, hu]
  · simp [count, hu]
  · simp [count, hu]

theorem put_eq_none {t : Thread} {m : Mutex Thread} : m.put t = none ↔ m.owner ≠ some t := by
  cases m with
  | free => simp [put]
  | held u n => cases n <;> by_cases hu : u = t <;> simp [put, hu]

end ThreadX.Mutex

namespace Backend
namespace Mutexes

open Lib Lib.Lazy ThreadX

/-! ## The calls -/

/-- The wait option of `lock_mutex`. -/
inductive Wait
  | noWait
  | forever
  deriving DecidableEq, Repr

inductive Status
  | ok
  /-- `EBUSY`. -/
  | busy
  /-- `EDEADLK`. -/
  | deadlock
  /-- `ETIMEDOUT`. -/
  | timedOut
  /-- `EPERM`. -/
  | notPermitted
  deriving DecidableEq, Repr

/-- What is left of a call. -/
inductive Call
  /-- `lock_mutex`. -/
  | lock (recursive : Bool) (wait : Wait)
  /-- `tx_mutex_get` in `lock_mutex`. -/
  | get (wait : Wait)
  /-- The timed locks. -/
  | timedLock (recursive : Bool)
  /-- A round of `wait_until`. -/
  | round
  /-- `wait_function` with the ticks that remain. -/
  | wait
  /-- `wait_function` with `TX_NO_WAIT`, after the deadline. -/
  | last
  /-- `unlock_mutex`. -/
  | unlock
  deriving DecidableEq, Repr

/-- `recursive_mutex_lock`. -/
def recursiveMutexLock : Call := .lock true .forever

/-- `mutex_try_lock`. -/
def mutexTryLock : Call := .lock false .noWait

/-- `recursive_mutex_try_lock`. -/
def recursiveMutexTryLock : Call := .lock true .noWait

/-- `mutex_timed_lock`. -/
def mutexTimedLock : Call := .timedLock false

/-- `recursive_mutex_timed_lock`. -/
def recursiveMutexTimedLock : Call := .timedLock true

/-- The calls of the interface. -/
def Call.Entry : Call → Prop
  | .lock _ _ | .timedLock _ | .unlock => True
  | _ => False

instance : DecidablePred Call.Entry
  | .lock _ _ | .timedLock _ | .unlock => isTrue trivial
  | .get _ | .round | .wait | .last => isFalse not_false

variable {Thread : Type*} [DecidableEq Thread]

/-- One step of a call.  The input is the clock's: in `round` the deadline has passed, in
    `wait` the ticks run out. -/
def act (t : Thread) (passed : Bool) (c : Call) (m : Mutex Thread) :
    Option (Mutex Thread × (Call ⊕ Status)) :=
  match c with
  | .lock recursive wait =>
      if recursive = false ∧ m.owner = some t then
        match wait with
        | .noWait => some (m, .inr .busy)
        | .forever => some (m, .inr .deadlock)
      else some (m, .inl (.get wait))
  | .get wait =>
      match m.get t with
      | some m' => some (m', .inr .ok)
      | none =>
          match wait with
          | .noWait => some (m, .inr .busy)
          | .forever => none
  | .timedLock recursive =>
      if recursive = false ∧ m.owner = some t then some (m, .inr .deadlock)
      else some (m, .inl .round)
  | .round => if passed then some (m, .inl .last) else some (m, .inl .wait)
  | .wait =>
      match m.get t with
      | some m' => some (m', .inr .ok)
      | none => if passed then some (m, .inl .round) else none
  | .last =>
      match m.get t with
      | some m' => some (m', .inr .ok)
      | none => some (m, .inr .timedOut)
  | .unlock =>
      match m.put t with
      | some m' => some (m', .inr .ok)
      | none => some (m, .inr .notPermitted)

/-- `unlock_mutex` does not create the mutex. -/
def absent : Call → Option Status
  | .unlock => some .notPermitted
  | _ => none

/-- `MutexImplementation` behind `MutexHandle` and `RecursiveMutexHandle`. -/
def kind (Thread Handle : Type*) [DecidableEq Thread] : Kind Thread Handle (Mutex Thread) Bool Call Status where
  fresh _ := .free
  Entry := Call.Entry
  act := act
  absent := absent
  Retired m := m = .free
  act_absent t i c h r habsent := by
    cases c with
    | unlock => cases habsent; rfl
    | _ => cases habsent

instance (Handle : Type*) : DecidablePred (kind Thread Handle).Entry :=
  inferInstanceAs (DecidablePred Call.Entry)

instance (Handle : Type*) : DecidablePred (kind Thread Handle).Retired :=
  fun m => inferInstanceAs (Decidable (m = .free))

/-! ## What a step of a call can do -/

/-- The call has passed the test for the owner. -/
def Call.Waiting : Call → Prop
  | .get _ | .round | .wait | .last => True
  | _ => False

/-- The call refuses a thread that owns the mutex already. -/
def Call.Refuses : Call → Prop
  | .lock recursive _ | .timedLock recursive => recursive = false
  | _ => False

/-- What a step of a call does to the mutex and how the call goes on. -/
inductive Acts (t : Thread) (m : Mutex Thread) : Call → Mutex Thread → Call ⊕ Status → Prop
  | goesOn {c c' : Call} : c ≠ .unlock → c'.Waiting →
      (c.Waiting ∨ (c.Refuses → m.owner ≠ some t)) → Acts t m c m (.inl c')
  | obtains {c : Call} {m' : Mutex Thread} : c.Waiting → m.get t = some m' →
      Acts t m c m' (.inr .ok)
  | releases {m' : Mutex Thread} : m.put t = some m' → Acts t m .unlock m' (.inr .ok)
  /-- The thread owns the mutex already. -/
  | owned {c : Call} {r : Status} : (r = .busy ∧ c = mutexTryLock) ∨ r = .deadlock →
      c.Refuses → m.owner = some t → Acts t m c m (.inr r)
  /-- Another thread owns the mutex. -/
  | taken {c : Call} {r : Status} : c.Waiting → r = .busy ∨ r = .timedOut → m.get t = none →
      Acts t m c m (.inr r)
  | foreign : m.put t = none → Acts t m .unlock m (.inr .notPermitted)

theorem act_spec {t : Thread} {passed : Bool} {c : Call} {m m' : Mutex Thread}
    {out : Call ⊕ Status} (h : act t passed c m = some (m', out)) : Acts t m c m' out := by
  cases c with
  | lock recursive wait =>
      simp only [act] at h
      split at h
      · rename_i howner
        cases wait with
        | noWait =>
            obtain ⟨rfl, rfl⟩ := Prod.mk.inj (Option.some_inj.mp h)
            exact .owned (.inl ⟨rfl, by rw [howner.1]; rfl⟩) howner.1 howner.2
        | forever =>
            obtain ⟨rfl, rfl⟩ := Prod.mk.inj (Option.some_inj.mp h)
            exact .owned (.inr rfl) howner.1 howner.2
      · rename_i howner
        obtain ⟨rfl, rfl⟩ := Prod.mk.inj (Option.some_inj.mp h)
        exact .goesOn nofun trivial (.inr fun hrefuses howned => howner ⟨hrefuses, howned⟩)
  | get wait =>
      simp only [act] at h
      split at h
      · rename_i m₁ hget
        obtain ⟨rfl, rfl⟩ := Prod.mk.inj (Option.some_inj.mp h)
        exact .obtains trivial hget
      · rename_i hget
        cases wait with
        | noWait =>
            obtain ⟨rfl, rfl⟩ := Prod.mk.inj (Option.some_inj.mp h)
            exact .taken trivial (.inl rfl) hget
        | forever => cases h
  | timedLock recursive =>
      simp only [act] at h
      split at h
      · rename_i howner
        obtain ⟨rfl, rfl⟩ := Prod.mk.inj (Option.some_inj.mp h)
        exact .owned (.inr rfl) howner.1 howner.2
      · rename_i howner
        obtain ⟨rfl, rfl⟩ := Prod.mk.inj (Option.some_inj.mp h)
        exact .goesOn nofun trivial (.inr fun hrefuses howned => howner ⟨hrefuses, howned⟩)
  | round =>
      simp only [act] at h
      split at h <;> obtain ⟨rfl, rfl⟩ := Prod.mk.inj (Option.some_inj.mp h) <;>
        exact .goesOn nofun trivial (.inl trivial)
  | wait =>
      simp only [act] at h
      split at h
      · rename_i m₁ hget
        obtain ⟨rfl, rfl⟩ := Prod.mk.inj (Option.some_inj.mp h)
        exact .obtains trivial hget
      · split at h
        · obtain ⟨rfl, rfl⟩ := Prod.mk.inj (Option.some_inj.mp h)
          exact .goesOn nofun trivial (.inl trivial)
        · cases h
  | last =>
      simp only [act] at h
      split at h
      · rename_i m₁ hget
        obtain ⟨rfl, rfl⟩ := Prod.mk.inj (Option.some_inj.mp h)
        exact .obtains trivial hget
      · rename_i hget
        obtain ⟨rfl, rfl⟩ := Prod.mk.inj (Option.some_inj.mp h)
        exact .taken trivial (.inr rfl) hget
  | unlock =>
      simp only [act] at h
      split at h
      · rename_i m₁ hput
        obtain ⟨rfl, rfl⟩ := Prod.mk.inj (Option.some_inj.mp h)
        exact .releases hput
      · rename_i hput
        obtain ⟨rfl, rfl⟩ := Prod.mk.inj (Option.some_inj.mp h)
        exact .foreign hput

/-! ## What the callers count -/

variable {Handle : Type*} [DecidableEq Handle]

/-- An event of the mutexes. -/
abbrev MutexEvent (Thread Handle : Type*) := Event Thread Handle Bool Call Status

/-- A lock of the mutex by the thread returns successfully. -/
def locks (t : Thread) (h : Handle) : MutexEvent Thread Handle → Bool
  | .act u k c _ (.inr .ok) => decide (u = t ∧ k = h ∧ c ≠ .unlock)
  | _ => false

/-- An unlock of the mutex by the thread returns successfully. -/
def unlocks (t : Thread) (h : Handle) : MutexEvent Thread Handle → Bool
  | .act u k c _ (.inr .ok) => decide (u = t ∧ k = h ∧ c = .unlock)
  | _ => false

/-- How often a thread holds a mutex, by its calls so far. -/
def holds (t : Thread) (h : Handle) (hist : List (MutexEvent Thread Handle)) : Nat :=
  hist.countP (locks t h) - hist.countP (unlocks t h)

/-- No recursive lock of the mutex has been called. -/
def Plain (h : Handle) (hist : List (MutexEvent Thread Handle)) : Prop :=
  ∀ t c, Event.begin t h c ∈ hist → c = .unlock ∨ c.Refuses

/-- What an event tells its caller is so, after the events before it. -/
def Truthful (before : List (MutexEvent Thread Handle)) : MutexEvent Thread Handle → Prop
  | .act t h c _ (.inr .ok) =>
      if c = .unlock then 0 < holds t h before else ∀ u, u ≠ t → holds u h before = 0
  | .act t h c _ (.inr .busy) =>
      (c = mutexTryLock ∧ 0 < holds t h before) ∨ ∃ u, u ≠ t ∧ 0 < holds u h before
  | .act t h c _ (.inr .deadlock) => c.Refuses ∧ 0 < holds t h before
  | .act t h _ _ (.inr .timedOut) => ∃ u, u ≠ t ∧ 0 < holds u h before
  | .act t h c _ (.inr .notPermitted) => c = .unlock ∧ holds t h before = 0
  -- `ENOMEM`: the mutex could not be created, and nobody holds it.
  | .fail _ h _ => ∀ u, holds u h before = 0
  | _ => True

/-- Every event of a history, most recent first, is truthful. -/
def AllTruthful : List (MutexEvent Thread Handle) → Prop
  | [] => True
  | e :: before => Truthful before e ∧ AllTruthful before

structure Guarantee (hist : List (MutexEvent Thread Handle)) : Prop where
  /-- One thread at most holds a mutex. -/
  exclusive : ∀ h t u, 0 < holds t h hist → 0 < holds u h hist → t = u
  /-- No unlock succeeds without a lock. -/
  balanced : ∀ h t, hist.countP (unlocks t h) ≤ hist.countP (locks t h)
  /-- A mutex that is not locked recursively is held once at most. -/
  once : ∀ h t, Plain h hist → holds t h hist ≤ 1
  truthful : AllTruthful hist

/-! ## The invariant of mutexes that are there from the start -/

structure Inv (hist : List (MutexEvent Thread Handle))
    (s : Eager Thread Handle (Mutex Thread) Call) : Prop where
  ledger : ∀ t h,
    hist.countP (locks t h) = hist.countP (unlocks t h) + (s.objects h).count t
  /-- Without recursive locks, a call past the test is one of a thread that owns nothing. -/
  waiting : ∀ t h c, Plain h hist → s.calls t = some (h, c) →
    c = .unlock ∨ c.Refuses ∨ (c.Waiting ∧ (s.objects h).owner ≠ some t)
  once : ∀ h t, Plain h hist → (s.objects h).count t ≤ 1
  truthful : AllTruthful hist

variable {hist : List (MutexEvent Thread Handle)} {s s' : Eager Thread Handle (Mutex Thread) Call}
  {t : Thread} {h : Handle} {c : Call} {e : MutexEvent Thread Handle}

theorem Plain.of_cons (hplain : Plain h (e :: hist)) : Plain h hist :=
  fun u d hmem => hplain u d (List.mem_cons_of_mem _ hmem)

theorem Inv.holds_eq (hi : Inv hist s) (t : Thread) (h : Handle) :
    holds t h hist = (s.objects h).count t := by
  have hledger := hi.ledger t h
  unfold holds
  omega

theorem Inv.holds_pos (hi : Inv hist s) : 0 < holds t h hist ↔ (s.objects h).owner = some t := by
  rw [hi.holds_eq, Mutex.count_pos]

theorem Inv.holds_zero (hi : Inv hist s) : holds t h hist = 0 ↔ (s.objects h).owner ≠ some t := by
  rw [hi.holds_eq, Mutex.count_eq_zero]

/-- An event that neither locks nor unlocks counts for nothing. -/
theorem countP_quiet (hist : List (MutexEvent Thread Handle))
    (hlocks : ∀ u k, locks u k e = false) (hunlocks : ∀ u k, unlocks u k e = false)
    (u : Thread) (k : Handle) :
    (e :: hist).countP (locks u k) = hist.countP (locks u k) ∧
      (e :: hist).countP (unlocks u k) = hist.countP (unlocks u k) := by
  simp [hlocks u k, hunlocks u k]

theorem countP_lock (hist : List (MutexEvent Thread Handle)) (t : Thread) (h : Handle)
    (hc : c ≠ .unlock) (i : Bool) (u : Thread) (k : Handle) :
    (.act t h c i (.inr .ok) :: hist).countP (locks u k) =
        hist.countP (locks u k) + (if t = u ∧ h = k then 1 else 0) ∧
      (.act t h c i (.inr .ok) :: hist).countP (unlocks u k) = hist.countP (unlocks u k) := by
  simp [List.countP_cons, locks, unlocks, hc]

theorem countP_unlock (hist : List (MutexEvent Thread Handle)) (t : Thread) (h : Handle)
    (i : Bool) (u : Thread) (k : Handle) :
    (.act t h .unlock i (.inr .ok) :: hist).countP (locks u k) = hist.countP (locks u k) ∧
      (.act t h .unlock i (.inr .ok) :: hist).countP (unlocks u k) =
        hist.countP (unlocks u k) + (if t = u ∧ h = k then 1 else 0) := by
  simp [List.countP_cons, locks, unlocks]

/-- A thread's call moves on and no mutex changes. -/
theorem Inv.quiet (hi : Inv hist s) {call : Option (Handle × Call)}
    (hlocks : ∀ u k, locks u k e = false) (hunlocks : ∀ u k, unlocks u k e = false)
    (hcall : ∀ k d, Plain k (e :: hist) → call = some (k, d) →
      d = .unlock ∨ d.Refuses ∨ (d.Waiting ∧ (s.objects k).owner ≠ some t))
    (htruthful : Truthful hist e) : Inv (e :: hist) (s.setCall t call) where
  ledger u k := by
    obtain ⟨hl, hu⟩ := countP_quiet hist hlocks hunlocks u k
    rw [hl, hu]
    exact hi.ledger u k
  waiting u k d hplain hpc := by
    by_cases hut : u = t
    · subst hut
      rw [Eager.calls_setCall_self] at hpc
      exact hcall k d hplain hpc
    · rw [Eager.calls_setCall_other _ _ hut] at hpc
      exact hi.waiting u k d hplain.of_cons hpc
  once k u hplain := hi.once k u hplain.of_cons
  truthful := ⟨htruthful, hi.truthful⟩

theorem Inv.goesOn (hi : Inv hist s) {c' : Call} {i : Bool} (hpc : s.calls t = some (h, c))
    (hnext : c'.Waiting) (htest : c.Waiting ∨ (c.Refuses → (s.objects h).owner ≠ some t))
    (hunlock : c ≠ .unlock) :
    Inv (.act t h c i (.inl c') :: hist) (s.setCall t (some (h, c'))) := by
  refine hi.quiet (fun _ _ => rfl) (fun _ _ => rfl) ?_ trivial
  intro k d hplain heq
  obtain ⟨rfl, rfl⟩ := Prod.mk.inj (Option.some_inj.mp heq)
  refine .inr (.inr ⟨hnext, ?_⟩)
  rcases hi.waiting t h c hplain.of_cons hpc with rfl | hrefuses | ⟨-, howner⟩
  · exact absurd rfl hunlock
  · rcases htest with hwaiting | htest
    · cases c <;> first | exact absurd hwaiting not_false | exact absurd hrefuses not_false
    · exact htest hrefuses
  · exact howner

theorem Inv.refused (hi : Inv hist s) {i : Bool} {r : Status} (hr : r ≠ .ok)
    (htruthful : Truthful hist (.act t h c i (.inr r))) :
    Inv (.act t h c i (.inr r) :: hist) (s.setCall t none) := by
  refine hi.quiet (fun _ _ => ?_) (fun _ _ => ?_) (fun _ _ _ heq => by cases heq) htruthful
  · cases r <;> first | exact absurd rfl hr | rfl
  · cases r <;> first | exact absurd rfl hr | rfl

theorem Call.Waiting.ne_unlock (hc : c.Waiting) : c ≠ .unlock := by
  rintro rfl
  exact hc

/-- A thread that has waited for a mutex that is not locked recursively does not own it. -/
theorem Inv.not_owner (hi : Inv hist s) (hplain : Plain h hist) (hpc : s.calls t = some (h, c))
    (hc : c.Waiting) : (s.objects h).count t = 0 := by
  rcases hi.waiting t h c hplain hpc with rfl | hrefuses | ⟨-, howner⟩
  · exact absurd rfl hc.ne_unlock
  · cases c <;> first | exact absurd hc not_false | exact absurd hrefuses not_false
  · exact Mutex.count_eq_zero.mpr howner

theorem Inv.obtains (hi : Inv hist s) {m' : Mutex Thread} {i : Bool}
    (hpc : s.calls t = some (h, c)) (hc : c.Waiting) (hget : (s.objects h).get t = some m') :
    Inv (.act t h c i (.inr .ok) :: hist) ((s.setObject h m').setCall t none) where
  ledger u k := by
    have hledger := hi.ledger u k
    have hcount := (Mutex.count_get hget u).1
    obtain ⟨hl, hu⟩ := countP_lock hist t h hc.ne_unlock i u k
    rw [hl, hu, hledger]
    show _ = _ + ((s.setObject h m').objects k).count u
    by_cases hk : k = h
    · subst hk
      rw [Eager.objects_setObject_self, hcount]
      simp only [and_true]
      omega
    · rw [Eager.objects_setObject_other _ _ hk, if_neg fun h => hk h.2.symm]
      omega
  waiting u k d hplain hcall := by
    by_cases hu : u = t
    · subst hu
      rw [Eager.calls_setCall_self] at hcall
      cases hcall
    · rw [Eager.calls_setCall_other _ _ hu] at hcall
      rcases hi.waiting u k d hplain.of_cons hcall with hd | hd | ⟨hd, howner⟩
      · exact .inl hd
      · exact .inr (.inl hd)
      refine .inr (.inr ⟨hd, ?_⟩)
      show ((s.setObject h m').objects k).owner ≠ some u
      by_cases hk : k = h
      · subst hk
        obtain ⟨hcount, hzero⟩ := Mutex.count_get hget u
        rw [Eager.objects_setObject_self, ← Mutex.count_eq_zero, hcount, hzero hu,
          if_neg (Ne.symm hu)]
      · rwa [Eager.objects_setObject_other _ _ hk]
  once k u hplain := by
    show ((s.setObject h m').objects k).count u ≤ 1
    by_cases hk : k = h
    · subst hk
      obtain ⟨hcount, hzero⟩ := Mutex.count_get hget u
      rw [Eager.objects_setObject_self, hcount]
      by_cases hu : u = t
      · subst hu
        rw [hi.not_owner hplain.of_cons hpc hc, if_pos rfl]
      · rw [hzero hu, if_neg (Ne.symm hu)]
        exact Nat.zero_le _
    · rw [Eager.objects_setObject_other _ _ hk]
      exact hi.once k u hplain.of_cons
  truthful := by
    refine ⟨?_, hi.truthful⟩
    simp only [Truthful]
    rw [if_neg hc.ne_unlock]
    intro u hu
    rw [hi.holds_eq]
    exact (Mutex.count_get hget u).2 hu

theorem Inv.releases (hi : Inv hist s) {m' : Mutex Thread} {i : Bool}
    (hput : (s.objects h).put t = some m') :
    Inv (.act t h .unlock i (.inr .ok) :: hist) ((s.setObject h m').setCall t none) where
  ledger u k := by
    have hledger := hi.ledger u k
    have hcount := Mutex.count_put hput u
    obtain ⟨hl, hu⟩ := countP_unlock hist t h i u k
    rw [hl, hu, hledger]
    show _ = _ + ((s.setObject h m').objects k).count u
    by_cases hk : k = h
    · subst hk
      rw [Eager.objects_setObject_self, hcount]
      simp only [and_true]
      omega
    · rw [Eager.objects_setObject_other _ _ hk, if_neg fun h => hk h.2.symm]
      omega
  waiting u k d hplain hcall := by
    by_cases hu : u = t
    · subst hu
      rw [Eager.calls_setCall_self] at hcall
      cases hcall
    · rw [Eager.calls_setCall_other _ _ hu] at hcall
      rcases hi.waiting u k d hplain.of_cons hcall with hd | hd | ⟨hd, howner⟩
      · exact .inl hd
      · exact .inr (.inl hd)
      refine .inr (.inr ⟨hd, ?_⟩)
      show ((s.setObject h m').objects k).owner ≠ some u
      by_cases hk : k = h
      · subst hk
        have hcount := Mutex.count_put hput u
        rw [Eager.objects_setObject_self, ← Mutex.count_eq_zero]
        rw [← Mutex.count_eq_zero] at howner
        omega
      · rwa [Eager.objects_setObject_other _ _ hk]
  once k u hplain := by
    have hold := hi.once k u hplain.of_cons
    show ((s.setObject h m').objects k).count u ≤ 1
    by_cases hk : k = h
    · subst hk
      have hcount := Mutex.count_put hput u
      rw [Eager.objects_setObject_self]
      omega
    · rwa [Eager.objects_setObject_other _ _ hk]
  truthful := by
    refine ⟨?_, hi.truthful⟩
    have hcount := Mutex.count_put hput t
    simp only [Truthful]
    rw [if_pos trivial, hi.holds_eq, hcount, if_pos rfl]
    exact Nat.succ_pos _

theorem Inv.act (hi : Inv hist s) {i : Bool} {m' : Mutex Thread} {out : Call ⊕ Status}
    (hpc : s.calls t = some (h, c)) (hact : Acts t (s.objects h) c m' out) :
    Inv (.act t h c i out :: hist) ((s.setObject h m').setCall t (Eager.rest h out)) := by
  have hsame : s.setObject h (s.objects h) = s := by
    simp [Eager.setObject]
  cases hact with
  | goesOn hunlock hnext htest =>
      rw [hsame]
      exact hi.goesOn hpc hnext htest hunlock
  | obtains hc hget => exact hi.obtains hpc hc hget
  | releases hput => exact hi.releases hput
  | owned hr hrefuses howner =>
      rw [hsame]
      have hheld : 0 < holds t h hist := hi.holds_pos.mpr howner
      rcases hr with ⟨rfl, htry⟩ | rfl
      · exact hi.refused nofun (.inl ⟨htry, hheld⟩)
      · exact hi.refused nofun ⟨hrefuses, hheld⟩
  | taken hc hr hget =>
      rw [hsame]
      obtain ⟨u, n, hu, hheld⟩ := Mutex.get_eq_none.mp hget
      have hother : ∃ u, u ≠ t ∧ 0 < holds u h hist :=
        ⟨u, hu, hi.holds_pos.mpr (by rw [hheld]; rfl)⟩
      rcases hr with rfl | rfl
      · exact hi.refused nofun (.inr hother)
      · exact hi.refused nofun hother
  | foreign hput =>
      rw [hsame]
      exact hi.refused nofun ⟨rfl, hi.holds_zero.mpr (Mutex.put_eq_none.mp hput)⟩

theorem Inv.begin (hi : Inv hist s) (hentry : c.Entry) :
    Inv (.begin t h c :: hist) (s.setCall t (some (h, c))) := by
  refine hi.quiet (fun _ _ => rfl) (fun _ _ => rfl) ?_ trivial
  intro k d hplain heq
  obtain ⟨rfl, rfl⟩ := Prod.mk.inj (Option.some_inj.mp heq)
  rcases hplain t c List.mem_cons_self with hunlock | hrefuses
  · exact .inl hunlock
  · exact .inr (.inl hrefuses)

/-- A mutex that is given up is free, as is the one that the next call creates. -/
theorem Inv.giveUp (hi : Inv hist s) (hfree : s.objects h = .free) :
    Inv (.giveUp h :: hist) (s.setObject h .free) := by
  have hsame : s.setObject h .free = s := by
    rw [← hfree]
    simp [Eager.setObject]
  rw [hsame]
  exact {
    ledger := fun u k => by
      obtain ⟨hl, hu⟩ := countP_quiet (e := .giveUp h) hist (fun _ _ => rfl)
        (fun _ _ => rfl) u k
      rw [hl, hu]
      exact hi.ledger u k
    waiting := fun u k d hplain => hi.waiting u k d hplain.of_cons
    once := fun k u hplain => hi.once k u hplain.of_cons
    truthful := ⟨trivial, hi.truthful⟩ }

theorem Inv.step (hi : Inv hist s) (hallowed : s.Allowed (kind Thread Handle) e)
    (hs : s.step (kind Thread Handle) e = some s') : Inv (e :: hist) s' := by
  cases e with
  | begin t h c =>
      simp only [Eager.step] at hs
      split at hs
      · obtain rfl := Option.some_inj.mp hs
        exact hi.begin hallowed
      · cases hs
  | act t h c i out =>
      simp only [Eager.step] at hs
      split at hs
      · rename_i hpc
        obtain ⟨⟨m', out'⟩, hact, hs⟩ := Option.bind_eq_some_iff.mp hs
        split at hs
        · rename_i hout
          obtain rfl : out' = out := hout
          obtain rfl := Option.some_inj.mp hs
          exact hi.act hpc (act_spec hact)
        · cases hs
      · cases hs
  | fail t h c =>
      simp only [Eager.step] at hs
      split at hs
      · obtain rfl := Option.some_inj.mp hs
        refine hi.quiet (fun _ _ => rfl) (fun _ _ => rfl) (fun _ _ _ heq => by cases heq) ?_
        intro u
        have hfree : s.objects h = .free := hallowed.2
        rw [hi.holds_eq, hfree]
        rfl
      · cases hs
  | giveUp h =>
      obtain rfl := Option.some_inj.mp hs
      exact hi.giveUp hallowed.2

theorem inv_of_run (hrun : Run (Eager.step (kind Thread Handle)) (fun _ => Eager.Allowed (kind Thread Handle))
    (Eager.Initial (kind Thread Handle)) hist s) : Inv hist s := by
  refine hrun.history_invariant (fun s h0 => ?_) fun _ _ _ _ hi hallowed hs => hi.step hallowed hs
  refine ⟨fun t h => ?_, fun t h c _ hpc => ?_, fun h t _ => ?_, trivial⟩
  · rw [h0.2 h]
    rfl
  · rw [h0.1 t] at hpc
    cases hpc
  · rw [h0.2 h]
    exact Nat.zero_le _

/-! ## The guarantee -/

end Mutexes
end Backend
end NucleoBase
