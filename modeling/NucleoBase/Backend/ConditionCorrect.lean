/-
  NucleoBase.Backend.ConditionCorrect

  What waits, signals and broadcasts guarantee over every interleaving: the
  waiter list is the queue of the threads that wait, a signal takes its first
  member, a broadcast all of them, and a wait returns 0 if and only if it was
  taken.
-/

import NucleoBase.Backend.ConditionInv

namespace NucleoBase
namespace Backend
namespace Condition

open Lib ThreadX

variable {Thread M : Type*} [DecidableEq Thread] [DecidableEq M] {recursive : M → Bool}
  {h : List (Event Thread M)} {s s' : State Thread M} {e : Event Thread M} {t : Thread}

/-! ## The invariant over runs -/

theorem Inv.preserve_perform (inv : Inv recursive h s) (hg : Entitled recursive s e)
    (hs : perform s e = some s') : Inv recursive (e :: h) s' := by
  cases e with
  | lock t m r =>
      obtain ⟨hpc, hs⟩ := Option.ite_none_right_eq_some.mp hs
      obtain ⟨⟨s₁, st⟩, hlock, rfl⟩ := Option.map_eq_some_iff.mp hs
      cases (show r = recursive m from hg)
      exact inv.lock hpc hlock
  | unlock t m =>
      obtain ⟨hpc, hs⟩ := Option.ite_none_right_eq_some.mp hs
      cases hs
      exact inv.unlock hpc
  | enter t m k ok =>
      obtain ⟨hpc, hs⟩ := Option.ite_none_right_eq_some.mp hs
      exact inv.enterWait hpc hg hs
  | createSemaphore t ok =>
      simp only [perform] at hs
      split at hs
      · rename_i m k hpc
        cases ok with
        | true =>
            cases hs
            exact inv.createSemaphore hpc
        | false =>
            cases hs
            obtain ⟨hout, hown, hnot, hheld⟩ := inv.at hpc
            have hleave : WaitOk (view h s t) m (.leave .EAGAIN) :=
              ⟨hout, hown, by simp [hheld], by simp [hnot]⟩
            exact inv.goto t rfl rfl hleave (by simp) (by simp [hpc])
      · cases hs
  | getMutex t =>
      obtain ⟨pc, hpc, hs⟩ := Option.bind_eq_some_iff.mp hs
      obtain ⟨x, hx, rfl⟩ := Option.map_eq_some_iff.mp hs
      exact inv.getMutex hpc hx
  | append t =>
      simp only [perform] at hs
      split at hs
      · rename_i m k hpc
        cases hs
        exact inv.append hpc
      · cases hs
  | unlockMutex t =>
      simp only [perform] at hs
      split at hs
      · rename_i m k hpc
        cases hs
        obtain ⟨hst, hinv⟩ := inv.unlockMutex hpc
        rw [hst]
        exact hinv
      · cases hs
  | putMutex t =>
      obtain ⟨pc, hpc, hs⟩ := Option.bind_eq_some_iff.mp hs
      obtain ⟨x, hx, rfl⟩ := Option.map_eq_some_iff.mp hs
      exact inv.putMutex hpc hx
  | getSemaphore t wake =>
      simp only [perform] at hs
      split at hs
      · rename_i m k hpc
        exact inv.getSemaphore hpc hs
      · cases hs
  | withdraw t =>
      simp only [perform] at hs
      split at hs
      · rename_i m k r hpc
        exact (inv.at hpc).elim
      · rename_i m k r hpc
        obtain ⟨hl, hs⟩ := Option.ite_none_right_eq_some.mp hs
        cases hs
        exact inv.withdraw hpc hl
      · cases hs
  | reclaim t =>
      simp only [perform] at hs
      split at hs
      · rename_i m k r hpc
        obtain ⟨hl, hs⟩ := Option.ite_none_left_eq_some.mp hs
        obtain ⟨count, hcount, rfl⟩ := Option.map_eq_some_iff.mp hs
        obtain ⟨n, rfl, hinv⟩ := inv.reclaim hpc (by simpa using hl) hcount
        exact hinv
      · cases hs
  | deleteSemaphore t =>
      simp only [perform] at hs
      obtain ⟨-, hs⟩ := Option.ite_none_left_eq_some.mp hs
      split at hs
      · rename_i m k r hpc
        exact (inv.at hpc).elim
      · rename_i m k r hpc
        cases hs
        exact inv.deleteSemaphore hpc
      · cases hs
  | relock t =>
      simp only [perform] at hs
      split at hs
      · rename_i m k r hpc
        obtain ⟨⟨s₁, st⟩, hlock, rfl⟩ := Option.map_eq_some_iff.mp hs
        obtain ⟨rfl, hinv⟩ := inv.relock hpc hlock
        exact hinv
      · cases hs
  | leave t r =>
      simp only [perform] at hs
      split at hs
      · rename_i m k r' hpc
        obtain ⟨-, hs⟩ := Option.ite_none_right_eq_some.mp hs
        cases hs
        obtain ⟨hout, hown, -⟩ := inv.at hpc
        exact inv.goto t rfl rfl ⟨hout, hown⟩ (by simp) (by simp [hpc])
      · cases hs
  | notify t all =>
      obtain ⟨hpc, hs⟩ := Option.ite_none_right_eq_some.mp hs
      have hok := inv.at hpc
      split at hs
      · cases hs
        exact inv.goto t rfl rfl hok (by simp +contextual [NotifyOk]) (by simp [hpc])
      · cases hs
        rw [← goto_self hpc]
        exact inv.goto t rfl rfl hok (by simp) (by simp [hpc])
  | unlink t w =>
      simp only [perform] at hs
      split at hs
      · rename_i all hpc
        obtain ⟨hw, hs⟩ := Option.ite_none_right_eq_some.mp hs
        cases hs
        exact (inv.unlink hpc hw).2
      · cases hs
  | noWaiter t =>
      simp only [perform] at hs
      split at hs
      · rename_i all hpc
        obtain ⟨hnone, hs⟩ := Option.ite_none_right_eq_some.mp hs
        cases hs
        obtain ⟨hout, hown⟩ := inv.at hpc
        obtain ⟨hpost, hfound, htaken⟩ := inv.notify t all _ hpc
        have hempty : queue h = [] := List.head?_eq_none_iff.mp (inv.links.first.symm.trans hnone)
        refine inv.goto t rfl rfl ⟨hout, hown⟩ (fun all' p hp => ?_) (by simp [hpc])
        cases hp
        refine ⟨hpost, hfound, fun hall => ?_, fun _ => hempty⟩
        change taken t h = (found t h).take 1
        rw [hfound, htaken hall, hempty]
        rfl
      · cases hs
  | post t =>
      simp only [perform] at hs
      split at hs
      · rename_i all w hpc
        obtain ⟨h0, hinv⟩ := inv.post hpc
        rw [h0] at hs
        cases hs
        exact hinv
      · cases hs
  | destroy t =>
      obtain ⟨hpc, hs⟩ := Option.ite_none_right_eq_some.mp hs
      have hok := inv.at hpc
      split at hs
      · cases hs
        exact inv.goto t rfl rfl hok (by simp) (by simp [hpc])
      · cases hs
        rw [← goto_self hpc]
        exact inv.goto t rfl rfl hok (by simp) (by simp [hpc])
  | test t =>
      simp only [perform] at hs
      split at hs
      · rename_i hpc
        cases hs
        have hok := inv.at hpc
        exact inv.goto t rfl rfl hok (by simp) (by simp [hpc])
      · cases hs
  | delete t ok =>
      simp only [perform] at hs
      split at hs
      · rename_i hpc
        have hok := inv.at hpc
        cases ok with
        | true =>
            cases hs
            exact (inv.setLife .deleted).goto t rfl rfl hok (by simp) (by simp [hpc])
        | false =>
            cases hs
            exact inv.goto t rfl rfl hok (by simp) (by simp [hpc])
      · cases hs

theorem Inv.preserve (inv : Inv recursive h s) (hg : Entitled recursive s e)
    (hs : step s e = some s') : Inv recursive (e :: h) s' :=
  inv.preserve_perform hg (Option.ite_none_left_eq_some.mp hs).2

theorem inv_of_run (hrun : Run step (fun _ => Entitled recursive) init h s) : Inv recursive h s :=
  Run.history_invariant (I := Inv recursive) (fun _ h0 => Inv.initial h0)
    (fun _ _ _ _ inv hg hs => inv.preserve hg hs) hrun

/-! ## The guarantee -/

/-- What the condition guarantees after a run with history `h`. -/
structure Guarantee (h : List (Event Thread M)) (s : State Thread M) : Prop where
  /-- The waiter list is a doubly linked list that spells the queue of the
      distinct threads that wait, the longest-waiting first. -/
  list : s.links.Represents (queue h)
  linked : ∀ t, (s.waiter t).linked = true ↔ t ∈ queue h
  waiting : ∀ t ∈ queue h, (s.pc t).waiting = true
  unsignalled : ∀ t, (s.pc t).waiting = true → (t ∈ queue h ↔ notified t h = false)
  /-- A signal or a broadcast unlinks the longest-waiting thread, whose
      semaphore it can post. -/
  unlinks : ∀ t w s', step s (.unlink t w) = some s' → (queue h).head? = some w
  posts : ∀ t all w, s.pc t = .notify all (.post w) → (s.waiter w).semaphore = some 0
  /-- A signal that is done has unlinked the first of the waiters it found, a
      broadcast all of them. -/
  signals : ∀ t, s.pc t = .notify false .put → taken t h = (found t h).take 1
  broadcasts : ∀ t, s.pc t = .notify true .put → taken t h = found t h
  /-- A wait returns 0 if and only if its waiter was unlinked by a signal or a
      broadcast; it is in no list then and holds its mutex. -/
  returns : ∀ t m k r, s.pc t = .wait m k (.leave r) →
    (r = .ok ↔ notified t h = true) ∧ t ∉ queue h ∧ (s.waiter t).linked = false ∧
      ∃ n, s.userMutex m = some (.held t n)
  /-- A wait that has been signalled has its token, and can no longer time out
      or be aborted; one that has not been cannot find a token. -/
  wakes : ∀ t m k, s.pc t = .wait m k .suspend → posting h ≠ some t →
    (s.waiter t).semaphore = some (if notified t h then 1 else 0)
  /-- A late signal is not lost: the wait finds its token. -/
  reclaims : ∀ t m k r, s.pc t = .wait m k (.lateTest r) → (s.waiter t).linked = false →
    (s.waiter t).semaphore = some 1

theorem Inv.guarantee (inv : Inv recursive h s) : Guarantee h s where
  list := inv.links
  linked t := by simp [inv.linked t]
  waiting t ht := (inv.ok t).waiting_of_queued (inv.mem_queue.mpr ht)
  unsignalled t hp := by
    rw [← inv.mem_queue]
    exact ((inv.ok t).waiting hp).queued_iff
  unlinks t w s' hs := by
    have hs := (Option.ite_none_left_eq_some.mp hs).2
    simp only [perform] at hs
    split at hs
    · rename_i all hpc
      exact (inv.unlink hpc (Option.ite_none_right_eq_some.mp hs).1).1
    · cases hs
  posts t all w hpc := (inv.post hpc).1
  signals t hpc := (inv.notify t _ _ hpc).2.2.1 rfl
  broadcasts t hpc := by
    obtain ⟨-, hfound, -, hempty⟩ := inv.notify t _ _ hpc
    rw [hfound, hempty rfl, List.append_nil]
  returns t m k r hpc := by
    obtain ⟨hout, -, hheld, hr⟩ := inv.at hpc
    have hq : t ∉ queue h := by simpa [view] using hout.1
    exact ⟨hr, hq, by simp [inv.linked t, hq], heldBy_ne_none hheld⟩
  wakes t m k hpc hpost := (inv.at hpc).1.semaphore_eq (by simp [view, hpost])
  reclaims t m k r hpc hl := by
    obtain ⟨hpend, -, hpost, -⟩ := inv.at hpc
    have hq : (view h s t).queued = false := (inv.linked t).symm.trans hl
    have hn : (view h s t).notified = true := by
      have := hpend.queued_iff
      simpa [hq] using this
    have := hpend.semaphore_eq hpost
    rwa [hn] at this

/-- The threads of the examples. -/
inductive Role
  | waiter | signaller
  deriving DecidableEq, Repr

/-- Nobody has used the condition or a mutex. -/
def unused : State Role Unit where
  life := .uncreated
  mutex := .free
  first := none
  last := none
  waiter := fun _ => {}
  userMutex := fun _ => none
  pc := fun _ => .idle

theorem init_unused : init unused :=
  ⟨rfl, rfl, rfl, rfl, fun _ => rfl, fun _ => .inl rfl, fun _ => rfl⟩

/-- The waiter's deadline passes, and the signaller unlinks it before it gets
    the mutex. -/
def lateSignal : List (Event Role Unit) :=
  [.lock .waiter () false, .enter .waiter () .timed true, .createSemaphore .waiter true,
   .getMutex .waiter, .append .waiter, .unlockMutex .waiter, .putMutex .waiter,
   .getSemaphore .waiter .expired, .notify .signaller false, .getMutex .signaller,
   .unlink .signaller .waiter, .post .signaller, .putMutex .signaller]

end Condition
end Backend
end NucleoBase
