/-
  NucleoBase.Backend.ConditionInv

  The invariant of a condition and what each step does to it.

  The invariant says of each thread what its program point allows, in terms
  of the little of the state that concerns the thread (`View`).  A step of one
  thread changes the view of another only where it unlinks its waiter or posts
  its semaphore.
-/

import NucleoBase.Backend.ConditionList

namespace NucleoBase
namespace Backend
namespace Condition

open Lib ThreadX

variable {Thread M : Type*} [DecidableEq Thread]

/-! ## The history -/

/-- The waiters that have been appended and neither unlinked nor withdrawn,
    in the order of their arrival. -/
def queue : List (Event Thread M) → List Thread
  | [] => []
  | .append t :: h => queue h ++ [t]
  | .unlink _ w :: h => (queue h).erase w
  | .withdraw t :: h => (queue h).erase t
  | _ :: h => queue h

/-- A signal or a broadcast has unlinked the waiter of `t` since its last wait
    began. -/
def notified (t : Thread) : List (Event Thread M) → Bool
  | [] => false
  | .enter u _ _ _ :: h => if u = t then false else notified t h
  | .unlink _ w :: h => if w = t then true else notified t h
  | _ :: h => notified t h

/-- The waiter that has been unlinked and whose semaphore is about to be
    posted. -/
def posting : List (Event Thread M) → Option Thread
  | [] => none
  | .unlink _ w :: _ => some w
  | .post _ :: _ => none
  | _ :: h => posting h

/-- The queue when `t` last got the implementation's mutex. -/
def found (t : Thread) : List (Event Thread M) → List Thread
  | [] => []
  | .getMutex u :: h => if u = t then queue h else found t h
  | _ :: h => found t h

/-- What `t` has unlinked since then, as a signal or a broadcast. -/
def taken (t : Thread) : List (Event Thread M) → List Thread
  | [] => []
  | .getMutex u :: h => if u = t then [] else taken t h
  | .unlink u w :: h => if u = t then taken t h ++ [w] else taken t h
  | _ :: h => taken t h

/-! ## One thread's view -/

/-- How often `t` holds a mutex beyond the first time. -/
def heldBy (t : Thread) : Option (Mutex Thread) → Option Nat
  | some (.held u n) => if u = t then some n else none
  | _ => none

/-- What concerns one thread. -/
structure View (M : Type*) where
  queued : Bool
  notified : Bool
  /-- Its waiter has been unlinked and its semaphore not posted yet. -/
  posting : Bool
  semaphore : Option Nat
  /-- It owns the implementation's mutex. -/
  owner : Bool
  held : M → Option Nat

def view (h : List (Event Thread M)) (s : State Thread M) (t : Thread) : View M where
  queued := decide (t ∈ queue h)
  notified := notified t h
  posting := decide (posting h = some t)
  semaphore := (s.waiter t).semaphore
  owner := decide (s.mutex.owner = some t)
  held m := heldBy t (s.userMutex m)

/-- The waiter is linked, or it has been unlinked and is about to be posted,
    or it has been posted. -/
def View.Pending (v : View M) : Prop :=
  (v.queued = true ∧ v.notified = false ∧ v.posting = false ∧ v.semaphore = some 0) ∨
  (v.queued = false ∧ v.notified = true ∧ v.posting = true ∧ v.semaphore = some 0) ∨
  (v.queued = false ∧ v.notified = true ∧ v.posting = false ∧ v.semaphore = some 1)

/-- No waiter of the thread is in the queue or in the hands of a signal. -/
def View.Out (v : View M) : Prop := v.queued = false ∧ v.posting = false

/-- What holds of a thread in a wait on the mutex `m`. -/
def WaitOk (v : View M) (m : M) : WaitPc → Prop
  | .create => v.Out ∧ v.owner = false ∧ v.notified = false ∧ v.held m = some 0
  | .lock =>
      v.Out ∧ v.owner = false ∧ v.notified = false ∧ v.held m = some 0 ∧ v.semaphore = some 0
  | .append =>
      v.Out ∧ v.owner = true ∧ v.notified = false ∧ v.held m = some 0 ∧ v.semaphore = some 0
  | .unlockMutex => v.Pending ∧ v.owner = true ∧ v.queued = true ∧ v.held m = some 0
  | .put e => v.Pending ∧ v.owner = true ∧ v.queued = true ∧ v.held m = none ∧ e = .ok
  | .suspend => v.Pending ∧ v.owner = false ∧ v.held m = none
  | .lateLock e => v.Pending ∧ v.owner = false ∧ v.held m = none ∧ e ≠ .ok
  | .lateTest e => v.Pending ∧ v.owner = true ∧ v.posting = false ∧ v.held m = none ∧ e ≠ .ok
  | .latePut e =>
      v.Out ∧ v.owner = true ∧ v.semaphore = some 0 ∧ v.held m = none ∧
        (e = .ok ↔ v.notified = true)
  | .delete e =>
      v.Out ∧ v.owner = false ∧ v.semaphore = some 0 ∧ v.held m = none ∧
        (e = .ok ↔ v.notified = true)
  | .relock e => v.Out ∧ v.owner = false ∧ v.held m = none ∧ (e = .ok ↔ v.notified = true)
  | .leave e => v.Out ∧ v.owner = false ∧ v.held m ≠ none ∧ (e = .ok ↔ v.notified = true)
  | .cancelLock _ | .cancelRemove _ | .cancelPut _ | .cancelDelete _ => False

/-- What holds of a thread at its program point. -/
def Ok (v : View M) : Pc Thread M → Prop
  | .idle => v.Out ∧ v.owner = false
  | .wait m _ pc => WaitOk v m pc
  | .notify _ pc => v.Out ∧ v.owner = decide (pc ≠ .lock)
  | .destroy pc => v.Out ∧ v.owner = decide (pc ≠ .lock ∧ pc ≠ .delete)

/-- What a signal or a broadcast has done since it got the mutex. -/
def NotifyOk (h : List (Event Thread M)) (t : Thread) (all : Bool) : NotifyPc Thread → Prop
  | .lock => True
  | .unlink =>
      posting h = none ∧ found t h = taken t h ++ queue h ∧ (all = false → taken t h = [])
  | .post w =>
      posting h = some w ∧ found t h = taken t h ++ queue h ∧ (all = false → taken t h = [w])
  | .put =>
      posting h = none ∧ found t h = taken t h ++ queue h ∧
        (all = false → taken t h = (found t h).take 1) ∧ (all = true → queue h = [])

structure Inv (recursive : M → Bool) (h : List (Event Thread M)) (s : State Thread M) : Prop where
  ok : ∀ t, Ok (view h s t) (s.pc t)
  notify : ∀ t all pc, s.pc t = .notify all pc → NotifyOk h t all pc
  links : s.links.Represents (queue h)
  linked : ∀ t, (s.waiter t).linked = decide (t ∈ queue h)
  posting : ∀ w, posting h = some w → ∃ t all, s.pc t = .notify all (.post w)
  /-- Neither the implementation's mutex nor a plain one is held twice. -/
  once : ∀ t n, s.mutex = .held t n → n = 0
  plain : ∀ m t n, recursive m = false → s.userMutex m = some (.held t n) → n = 0

theorem Inv.initial {recursive : M → Bool} {s : State Thread M} (h0 : init s) :
    Inv recursive [] s := by
  obtain ⟨-, hfree, hfirst, hlast, hlinked, huser, hidle⟩ := h0
  refine ⟨fun t => ?_, fun t all pc hpc => ?_, ?_, fun t => ?_, fun w hw => ?_, fun t n hn => ?_,
    fun m t n _ hn => ?_⟩
  · rw [hidle]
    exact ⟨⟨rfl, rfl⟩, by simp [view, hfree]⟩
  · rw [hidle] at hpc
    cases hpc
  · simp only [State.links, hfirst, hlast]
    exact Links.represents_nil _ _
  · simp [hlinked, queue]
  · cases hw
  · rw [hfree] at hn
    cases hn
  · rcases huser m with hm | hm <;> rw [hm] at hn <;> cases hn

/-! ## Waiting threads -/

/-- A thread is in a wait, with its waiter in the queue. -/
def Pc.waiting : Pc Thread M → Bool
  | .wait _ _ (.unlockMutex) | .wait _ _ (.put _) | .wait _ _ .suspend | .wait _ _ (.lateLock _)
  | .wait _ _ (.lateTest _) => true
  | _ => false

/-- What the invariant says of a waiting thread. -/
theorem Ok.waiting {v : View M} {p : Pc Thread M} (hok : Ok v p) (hp : p.waiting = true) :
    v.Pending := by
  cases p with
  | wait m k p =>
      cases p with
      | unlockMutex | put | suspend | lateLock | lateTest => exact hok.1
      | _ => cases hp
  | _ => cases hp

theorem Ok.waiting_of_queued {v : View M} {p : Pc Thread M} (hok : Ok v p)
    (hq : v.queued = true) : p.waiting = true := by
  have hin : ¬ v.Out := fun hout => by
    rw [hout.1] at hq
    cases hq
  cases p with
  | wait m k p =>
      cases p with
      | unlockMutex | put | suspend | lateLock | lateTest => rfl
      | cancelLock | cancelRemove | cancelPut | cancelDelete => exact hok.elim
      | create | lock | append | latePut | delete | relock | leave => exact absurd hok.1 hin
  | idle | notify | destroy => exact absurd hok.1 hin

theorem View.Pending.queued_iff {v : View M} (hp : v.Pending) :
    v.queued = true ↔ v.notified = false := by
  rcases hp with ⟨hq, hn, -⟩ | ⟨hq, hn, -⟩ | ⟨hq, hn, -⟩ <;> simp [hq, hn]

theorem View.Pending.semaphore_eq {v : View M} (hp : v.Pending) (hpost : v.posting = false) :
    v.semaphore = some (if v.notified then 1 else 0) := by
  rcases hp with ⟨-, hn, -, hs⟩ | ⟨-, -, hpost', -⟩ | ⟨-, hn, -, hs⟩
  · simp [hn, hs]
  · rw [hpost] at hpost'
    cases hpost'
  · simp [hn, hs]

theorem heldBy_ne_none {t : Thread} {x : Option (Mutex Thread)} (hx : heldBy t x ≠ none) :
    ∃ n, x = some (.held t n) := by
  cases x with
  | none => exact absurd rfl hx
  | some x =>
      cases x with
      | free => exact absurd rfl hx
      | held u n =>
          by_cases hut : u = t
          · exact ⟨n, by rw [hut]⟩
          · exact absurd (if_neg hut) hx

/-! ## Steps that leave the queue alone -/

section Steps

variable {recursive : M → Bool} {h : List (Event Thread M)}
  {s s' : State Thread M} {e : Event Thread M} {t u w : Thread} {m : M} {k : Kind}

/-- The event changes neither the queue nor what a signal has done. -/
def Event.quiet : Event Thread M → Bool
  | .append _ | .unlink _ _ | .withdraw _ | .post _ => false
  | _ => true

theorem queue_quiet (he : e.quiet = true) : queue (e :: h) = queue h := by
  cases e <;> first | rfl | cases he

theorem posting_quiet (he : e.quiet = true) : posting (e :: h) = posting h := by
  cases e <;> first | rfl | cases he

theorem found_quiet (he : e.quiet = true) (ht : t ≠ e.thread) :
    found t (e :: h) = found t h := by
  cases e with
  | getMutex u => exact if_neg (Ne.symm ht)
  | append | unlink | withdraw | post => cases he
  | _ => rfl

theorem taken_quiet (he : e.quiet = true) (ht : t ≠ e.thread) :
    taken t (e :: h) = taken t h := by
  cases e with
  | getMutex u => exact if_neg (Ne.symm ht)
  | append | unlink | withdraw | post => cases he
  | _ => rfl

theorem notified_quiet (he : e.quiet = true) (ht : t ≠ e.thread) :
    notified t (e :: h) = notified t h := by
  cases e with
  | enter u m k ok => exact if_neg (Ne.symm ht)
  | append | unlink | withdraw | post => cases he
  | _ => rfl

theorem notifyOk_quiet (he : e.quiet = true) (ht : t ≠ e.thread) {all : Bool} {pc : NotifyPc Thread} :
    NotifyOk (e :: h) t all pc ↔ NotifyOk h t all pc := by
  cases pc <;>
    simp only [NotifyOk, posting_quiet he, found_quiet he ht, taken_quiet he ht, queue_quiet he]

/-- What a step leaves alone of a thread that does not take it. -/
structure Untouched (s s' : State Thread M) (u : Thread) : Prop where
  pc : s'.pc u = s.pc u
  semaphore : (s'.waiter u).semaphore = (s.waiter u).semaphore
  owner : s'.mutex.owner = some u ↔ s.mutex.owner = some u
  held : ∀ m, heldBy u (s'.userMutex m) = heldBy u (s.userMutex m)

theorem Inv.quiet (inv : Inv recursive h s) (he : e.quiet = true)
    (hother : ∀ u, u ≠ e.thread → Untouched s s' u)
    (hself : Ok (view (e :: h) s' e.thread) (s'.pc e.thread))
    (hnotify : ∀ all pc, s'.pc e.thread = .notify all pc → NotifyOk (e :: h) e.thread all pc)
    (hpost : ∀ all w, s.pc e.thread ≠ .notify all (.post w))
    (hlinks : s'.links.Represents (queue h))
    (hlinked : ∀ u, (s'.waiter u).linked = (s.waiter u).linked)
    (honce : ∀ t n, s'.mutex = .held t n → n = 0)
    (hplain : ∀ m t n, recursive m = false → s'.userMutex m = some (.held t n) → n = 0) :
    Inv recursive (e :: h) s' where
  ok u := by
    by_cases hu : u = e.thread
    · rw [hu]
      exact hself
    · have hview : view (e :: h) s' u = view h s u := by
        simp only [view, queue_quiet he, posting_quiet he, notified_quiet he hu,
          (hother u hu).semaphore, (hother u hu).owner, (hother u hu).held]
      rw [hview, (hother u hu).pc]
      exact inv.ok u
  notify u all pc hpc := by
    by_cases hu : u = e.thread
    · rw [hu] at hpc ⊢
      exact hnotify all pc hpc
    · rw [(hother u hu).pc] at hpc
      exact (notifyOk_quiet he hu).mpr (inv.notify u all pc hpc)
  links := by
    rw [queue_quiet he]
    exact hlinks
  linked u := by rw [hlinked, inv.linked, queue_quiet he]
  posting w hw := by
    rw [posting_quiet he] at hw
    obtain ⟨u, all, hu⟩ := inv.posting w hw
    have hne : u ≠ e.thread := fun hue => hpost all w (hue ▸ hu)
    exact ⟨u, all, by rw [(hother u hne).pc]; exact hu⟩
  once := honce
  plain := hplain

@[simp] theorem goto_frame (pc : Pc Thread M) :
    (s.goto t pc).life = s.life ∧ (s.goto t pc).mutex = s.mutex ∧
      (s.goto t pc).userMutex = s.userMutex ∧ (s.goto t pc).waiter = s.waiter ∧
      (s.goto t pc).links = s.links :=
  ⟨rfl, rfl, rfl, rfl, rfl⟩

@[simp] theorem view_goto (pc : Pc Thread M) : view h (s.goto t pc) = view h s := rfl

@[simp] theorem pc_goto (pc : Pc Thread M) : (s.goto t pc).pc u = if u = t then pc else s.pc u := by
  simp [State.goto, Function.update_apply]

theorem goto_self {pc : Pc Thread M} (hpc : s.pc t = pc) : s.goto t pc = s := by
  subst hpc
  simp [State.goto]

/-- What the invariant says of a thread at its program point. -/
theorem Inv.at (inv : Inv recursive h s) {pc : Pc Thread M} (hpc : s.pc t = pc) :
    Ok (view h s t) pc :=
  hpc ▸ inv.ok t

theorem Untouched.goto (hu : Untouched s s' u) (hut : u ≠ t) (pc : Pc Thread M) :
    Untouched s (s'.goto t pc) u :=
  { hu with pc := by rw [pc_goto, if_neg hut, hu.pc] }

theorem Untouched.refl (s : State Thread M) (u : Thread) : Untouched s s u :=
  ⟨rfl, rfl, Iff.rfl, fun _ => rfl⟩

theorem Untouched.modify (hut : u ≠ t) (f : Waiter Thread → Waiter Thread) :
    Untouched s (s.modify t f) u :=
  { Untouched.refl s u with semaphore := by rw [waiter_modify, if_neg hut] }

theorem Inv.owned (inv : Inv recursive h s) (ht : s.mutex.owner = some t) :
    s.mutex = .held t 0 := by
  cases hm : s.mutex with
  | free => rw [hm] at ht; cases ht
  | held u n =>
      rw [hm] at ht
      cases ht
      rw [inv.once t n hm]

/-- A step that moves `t` on and changes at most the count of its semaphore. -/
theorem Inv.goto (inv : Inv recursive h s) (t : Thread) (he : e.quiet = true) (ht : e.thread = t)
    {pc : Pc Thread M} (hself : Ok (view (e :: h) s t) pc)
    (hnotify : ∀ all p, pc = .notify all p → NotifyOk (e :: h) t all p)
    (hpost : ∀ all w, s.pc t ≠ .notify all (.post w)) : Inv recursive (e :: h) (s.goto t pc) := by
  subst ht
  refine inv.quiet he (fun u hu => (Untouched.refl s u).goto hu pc) ?_ (fun all p hp => ?_) hpost
    inv.links (fun _ => rfl) inv.once inv.plain
  · simpa using hself
  · exact hnotify all p (by simpa using hp)

theorem Inv.setSemaphore (inv : Inv recursive h s) (t : Thread) (he : e.quiet = true) (ht : e.thread = t)
    {f : Waiter Thread → Waiter Thread} {n : Option Nat}
    (hf : ∀ w, f w = { w with semaphore := n })
    {k : Kind} {p p' : WaitPc} (hp : s.pc t = .wait m k p)
    (hself : WaitOk { view (e :: h) s t with semaphore := n } m p') :
    Inv recursive (e :: h) ((s.modify t f).goto t (.wait m k p')) := by
  subst ht
  refine inv.quiet he (fun u hu => (Untouched.modify hu f).goto hu _) ?_ (by simp)
    (by simp [hp]) ?_ (fun u => ?_) inv.once inv.plain
  · have hview : view (e :: h) (s.modify e.thread f) e.thread =
        { view (e :: h) s e.thread with semaphore := n } := by
      simp [view, hf, State.modify]
    simpa [Ok, hview] using hself
  · exact (links_modify (s := s) (t := e.thread) hf).symm ▸ inv.links
  · exact linked_modify hf u

end Steps

/-! ## The callers' mutexes -/

section UserMutex

variable [DecidableEq M] {recursive : M → Bool} {h : List (Event Thread M)}
  {s s' : State Thread M} {e : Event Thread M} {t u : Thread} {m : M} {st : Status}

@[simp] theorem heldBy_held (u : Thread) (n : Nat) :
    heldBy t (some (.held u n)) = if u = t then some n else none := rfl

/-- A lock fails because the caller owns the mutex, or succeeds with one more
    ownership, from none if the lock is not recursive. -/
theorem lockMutex_eq_some {r : Bool} (hs : s.lockMutex t m r = some (s', st)) :
    (s' = s ∧ st = .EDEADLK ∧ heldBy t (s.userMutex m) ≠ none) ∨
    (st = .ok ∧ ∃ n, s' = { s with userMutex := Function.update s.userMutex m (some (.held t n)) } ∧
      (∀ u, u ≠ t → heldBy u (s.userMutex m) = none) ∧
      (n = 0 ∧ heldBy t (s.userMutex m) = none ∨ r = true)) := by
  simp only [State.lockMutex] at hs
  split at hs
  · rename_i hown
    simp only [Option.some.injEq, Prod.mk.injEq] at hs
    refine .inl ⟨hs.1.symm, hs.2.symm, ?_⟩
    cases hm : s.userMutex m with
    | none => simp [hm] at hown
    | some x => cases x <;> simp_all
  · rename_i hown
    simp only [Option.map_eq_some_iff, Prod.mk.injEq] at hs
    obtain ⟨x, hx, rfl, rfl⟩ := hs
    refine .inr ⟨rfl, ?_⟩
    cases hm : s.userMutex m with
    | none =>
        simp only [hm, Option.getD_none, Mutex.get_free, Option.some.injEq] at hx
        exact ⟨0, by rw [← hx], fun _ _ => rfl, .inl ⟨rfl, rfl⟩⟩
    | some y =>
        rw [hm, Option.getD_some] at hx hown
        rcases Mutex.get_eq_some.mp hx with ⟨rfl, rfl⟩ | ⟨n, rfl, rfl⟩
        · exact ⟨0, rfl, fun _ _ => rfl, .inl ⟨rfl, rfl⟩⟩
        · refine ⟨n + 1, rfl, fun u hu => if_neg (Ne.symm hu), .inr ?_⟩
          simpa using hown

/-- An unlock releases one ownership of the caller, or fails. -/
theorem unlockMutex_cases (s : State Thread M) (t : Thread) (m : M) :
    (s.unlockMutex t m = (s, .EPERM) ∧ heldBy t (s.userMutex m) = none) ∨
    ∃ x n, s.userMutex m = some (.held t n) ∧
      s.unlockMutex t m =
        ({ s with userMutex := Function.update s.userMutex m (some x) }, .ok) ∧
      (n = 0 ∧ x = .free ∨ ∃ n', n = n' + 1 ∧ x = .held t n') := by
  simp only [State.unlockMutex]
  split
  · rename_i x hx
    obtain ⟨y, hy, hx⟩ := Option.bind_eq_some_iff.mp hx
    rcases Mutex.put_eq_some.mp hx with ⟨rfl, rfl⟩ | ⟨n, rfl, rfl⟩
    · exact .inr ⟨_, 0, hy, rfl, .inl ⟨rfl, rfl⟩⟩
    · exact .inr ⟨_, n + 1, hy, rfl, .inr ⟨n, rfl, rfl⟩⟩
  · rename_i hx
    refine .inl ⟨rfl, ?_⟩
    cases hm : s.userMutex m with
    | none => rfl
    | some y =>
        cases y with
        | free => rfl
        | held v n =>
            by_cases hv : v = t
            · subst hv
              rw [hm, Option.bind_some] at hx
              cases n <;> simp [Mutex.put] at hx
            · simp [hv]

/-- Another thread's ownerships are untouched when a mutex that it does not
    hold goes to `x`, which it does not hold either. -/
theorem Untouched.update {x : Mutex Thread} (hold : heldBy u (s.userMutex m) = none)
    (hx : heldBy u (some x) = none) :
    Untouched s { s with userMutex := Function.update s.userMutex m (some x) } u :=
  { Untouched.refl s u with
    held := fun m' => by
      by_cases hm : m' = m
      · subst hm
        simp [hold, hx]
      · simp [Function.update_of_ne hm] }

theorem Inv.update (inv : Inv recursive h s) (t : Thread) (he : e.quiet = true) (ht : e.thread = t)
    {x : Mutex Thread} (hold : ∀ u, u ≠ t → heldBy u (s.userMutex m) = none)
    (hx : ∀ u, u ≠ t → heldBy u (some x) = none)
    (hplain : ∀ u n, recursive m = false → x = .held u n → n = 0)
    {pc : Pc Thread M}
    (hself : Ok { view (e :: h) s t with
      held := fun m' => if m' = m then heldBy t (some x) else heldBy t (s.userMutex m') } pc)
    (hnotify : ∀ all p, pc ≠ .notify all p) (hpost : ∀ all w, s.pc t ≠ .notify all (.post w)) :
    Inv recursive (e :: h)
      ({ s with userMutex := Function.update s.userMutex m (some x) }.goto t pc) := by
  subst ht
  refine inv.quiet he (fun u hu => (Untouched.update (hold u hu) (hx u hu)).goto hu _) ?_
    (fun all p hp => ?_) hpost inv.links (fun _ => rfl) inv.once fun m' u n hr hm => ?_
  · have hheld : (fun m' => heldBy e.thread (Function.update s.userMutex m (some x) m')) =
        fun m' => if m' = m then heldBy e.thread (some x) else heldBy e.thread (s.userMutex m') := by
      funext m'
      by_cases hm : m' = m <;> simp [hm]
    simpa [view, hheld] using hself
  · exact absurd (by simpa using hp) (hnotify all p)
  · by_cases hm' : m' = m
    · subst hm'
      simp only [goto_frame, Function.update_self, Option.some.injEq] at hm
      exact hplain u n hr hm
    · simp only [goto_frame, Function.update_of_ne hm'] at hm
      exact inv.plain m' u n hr hm

theorem heldBy_other (hu : u ≠ t) (n : Nat) : heldBy u (some (.held t n)) = none :=
  if_neg (Ne.symm hu)

/-- A plain mutex is never held twice. -/
theorem Inv.held_eq_zero (inv : Inv recursive h s) (hm : recursive m = false)
    (ht : heldBy t (s.userMutex m) ≠ none) : heldBy t (s.userMutex m) = some 0 := by
  cases hx : s.userMutex m with
  | none => simp [hx, heldBy] at ht
  | some x =>
      cases x with
      | free => simp [hx, heldBy] at ht
      | held u n =>
          have hut : u = t := by
            by_contra hne
            simp [hx, hne] at ht
          rw [inv.plain m u n hm hx]
          simp [hut]

theorem Inv.lock (inv : Inv recursive h s) (hpc : s.pc t = .idle)
    (hs : s.lockMutex t m (recursive m) = some (s', st)) :
    Inv recursive (.lock t m (recursive m) :: h) s' := by
  have hok := inv.at hpc
  rcases lockMutex_eq_some hs with ⟨rfl, -, -⟩ | ⟨-, n, rfl, hother, hn⟩
  · rw [← goto_self hpc]
    exact inv.goto t rfl rfl hok (by simp) (by simp [hpc])
  · rw [← goto_self (s := { s with userMutex := Function.update s.userMutex m _ }) hpc]
    refine inv.update t rfl rfl hother (fun u hu => heldBy_other hu n) (fun u k hr hx => ?_)
      hok (by simp) (by simp [hpc])
    cases hx
    exact (hn.resolve_right (by simp [hr])).1

theorem Inv.unlock (inv : Inv recursive h s) (hpc : s.pc t = .idle) :
    Inv recursive (.unlock t m :: h) (s.unlockMutex t m).1 := by
  have hok := inv.at hpc
  rcases unlockMutex_cases s t m with ⟨hu, -⟩ | ⟨x, n, hm, hu, hx⟩
  · rw [hu, ← goto_self hpc]
    exact inv.goto t rfl rfl hok (by simp) (by simp [hpc])
  · rw [hu]
    change Inv _ _ { s with userMutex := Function.update s.userMutex m (some x) }
    rw [← goto_self (s := { s with userMutex := Function.update s.userMutex m (some x) }) hpc]
    refine inv.update t rfl rfl (fun u hu => by simp [hm, Ne.symm hu]) (fun u hut => ?_)
      (fun u k hr hxk => ?_) hok (by simp) (by simp [hpc])
    · rcases hx with ⟨-, rfl⟩ | ⟨n', -, rfl⟩
      · rfl
      · exact heldBy_other hut n'
    · rcases hx with ⟨-, rfl⟩ | ⟨n', rfl, rfl⟩
      · cases hxk
      · exact absurd (inv.plain m t _ hr hm) (Nat.succ_ne_zero n')

theorem Inv.relock (inv : Inv recursive h s) {k : Kind} {r : Status}
    (hpc : s.pc t = .wait m k (.relock r)) (hs : s.lockMutex t m false = some (s', st)) :
    st = .ok ∧ Inv recursive (.relock t :: h) (s'.goto t (.wait m k (.leave r))) := by
  obtain ⟨hout, hown, hheld, hr⟩ := inv.at hpc
  rcases lockMutex_eq_some hs with ⟨-, -, hne⟩ | ⟨rfl, n, rfl, hother, hn⟩
  · exact absurd hheld hne
  · refine ⟨rfl, inv.update t rfl rfl hother (fun u hu => heldBy_other hu n)
      (fun u k hr hx => ?_) ⟨hout, hown, by simp, hr⟩ (by simp) (by simp [hpc])⟩
    cases hx
    exact (hn.resolve_right (by simp)).1

theorem Inv.unlockMutex (inv : Inv recursive h s) {k : Kind}
    (hpc : s.pc t = .wait m k .unlockMutex) :
    (s.unlockMutex t m).2 = .ok ∧
      Inv recursive (.unlockMutex t :: h)
        ((s.unlockMutex t m).1.goto t (.wait m k (.put .ok))) := by
  obtain ⟨hpend, hown, hq, hheld⟩ := inv.at hpc
  rcases unlockMutex_cases s t m with ⟨-, hnone⟩ | ⟨x, n, hm, hu, hx⟩
  · exact absurd (hheld.symm.trans hnone) (by simp)
  · have hn : n = 0 := by simpa [view, hm] using hheld
    have hx : x = .free := by
      rcases hx with ⟨-, rfl⟩ | ⟨n', hn', -⟩
      · rfl
      · omega
    subst hx
    rw [hu]
    exact ⟨rfl, inv.update t rfl rfl (fun u hu => by simp [hm, Ne.symm hu]) (fun _ _ => rfl)
      (by simp) ⟨hpend, hown, hq, by simp [heldBy], rfl⟩ (by simp) (by simp [hpc])⟩

end UserMutex

/-! ## The other steps that leave the queue alone -/

section Quiet

variable {recursive : M → Bool} {h : List (Event Thread M)} {s s' : State Thread M} {t : Thread}
  {m : M} {k : Kind} {pc : Pc Thread M}

theorem Inv.setLife (inv : Inv recursive h s) (l : Life) :
    Inv recursive h { s with life := l } :=
  ⟨inv.ok, inv.notify, inv.links, inv.linked, inv.posting, inv.once, inv.plain⟩

theorem Inv.enterWait [DecidableEq M] (inv : Inv recursive h s) (hpc : s.pc t = .idle) {ok : Bool}
    (hg : Entitled recursive s (.enter t m k ok)) (hs : s.enterWait t m k ok = some s') :
    Inv recursive (.enter t m k ok :: h) s' := by
  obtain ⟨hout, hown⟩ := inv.at hpc
  have hview : view (.enter t m k ok :: h) s t = { view h s t with notified := false } := by
    simp only [view, notified, if_true]
    rfl
  have hheld : heldBy t (s.userMutex m) ≠ none := by
    obtain ⟨x, hx, hxt⟩ := (Option.any_eq_true _ _).mp hg.1
    cases x with
    | free => simp at hxt
    | held u n =>
        have hut : u = t := by simpa using hxt
        simp [hx, hut]
  have hleave : Inv recursive (.enter t m k ok :: h) (s.goto t (.wait m k (.leave .EINVAL))) := by
    refine inv.goto t rfl rfl ?_ (by simp) (by simp [hpc])
    rw [hview]
    exact ⟨hout, hown, hheld, by simp⟩
  simp only [State.enterWait] at hs
  split at hs
  · cases hs
    exact hleave
  · rename_i hrec
    have hzero : heldBy t (s.userMutex m) = some 0 := by
      by_cases hk : k = .recursive
      · simp only [hk, true_and, ne_eq, not_not] at hrec
        simp [hrec]
      · exact inv.held_eq_zero (by simp [hg.2, hk]) hheld
    have hcreate : Inv recursive (.enter t m k ok :: h) ({ s with life := .live }.goto t
        (.wait m k (if s.userMutex m = none then .leave .EINVAL else .create))) := by
      rw [if_neg (fun hn => hheld (by simp [hn, heldBy]))]
      refine (inv.setLife .live).goto t rfl rfl ?_ (by simp) (by simp [hpc])
      rw [show view _ { s with life := .live } t = _ from hview]
      exact ⟨hout, hown, rfl, hzero⟩
    split at hs
    · cases hs
      exact hleave
    · cases hs
      exact hcreate
    · cases hs
      exact hcreate
    · cases hs

theorem Inv.createSemaphore (inv : Inv recursive h s) (hpc : s.pc t = .wait m k .create)
    {ok : Bool} : Inv recursive (.createSemaphore t ok :: h)
      ((s.modify t fun _ => { semaphore := some 0 }).goto t (.wait m k .lock)) := by
  obtain ⟨hout, hown, hnot, hheld⟩ := inv.at hpc
  have hq : t ∉ queue h := by simpa [view] using hout.1
  have hl := inv.linked t
  refine inv.quiet rfl (fun u hu => (Untouched.modify hu _).goto hu _) ?_ (by simp [Event.thread])
    (by simp [Event.thread, hpc]) ?_ (fun u => ?_) inv.once inv.plain
  · simpa [Ok, Event.thread] using ⟨hout, hown, hnot, hheld, by simp [view]⟩
  · refine inv.links.congr rfl rfl (fun u hu => ?_) fun u hu => ?_
    · have hut : u ≠ t := fun hut => hq (hut ▸ hu)
      simp [State.links, hut]
    · have hut : u ≠ t := fun hut => hq (hut ▸ hu)
      simp [State.links, hut]
  · simp
    grind

theorem Inv.getSemaphore (inv : Inv recursive h s) (hpc : s.pc t = .wait m k .suspend)
    {wake : Wake} (hs : s.getSemaphore t m k wake = some s') :
    Inv recursive (.getSemaphore t wake :: h) s' := by
  have hok := inv.at hpc
  obtain ⟨hpend, hown, hheld⟩ := id hok
  obtain ⟨count, hcount, hs⟩ := Option.bind_eq_some_iff.mp hs
  have hlate : ∀ r, r ≠ .ok →
      Inv recursive (.getSemaphore t wake :: h) (s.goto t (.wait m k (.lateLock r))) :=
    fun r hr => inv.goto t rfl rfl ⟨hpend, hown, hheld, hr⟩ (by simp) (by simp [hpc])
  cases wake with
  | success =>
      cases count with
      | zero => cases hs
      | succ n =>
          cases hs
          -- the count is positive only once the waiter has been posted
          have hsem : (view h s t).semaphore = some (n + 1) := hcount
          rcases hpend with ⟨-, -, -, h0⟩ | ⟨-, -, -, h0⟩ | ⟨hq, hn, hp, h1⟩
          · rw [hsem] at h0
            cases h0
          · rw [hsem] at h0
            cases h0
          · rw [hsem] at h1
            cases h1
            exact inv.setSemaphore t rfl rfl (fun _ => rfl) hpc
              ⟨⟨hq, hp⟩, hown, rfl, hheld, fun _ => hn, fun _ => rfl⟩
  | again =>
      cases count with
      | zero =>
          obtain ⟨-, hs⟩ := Option.ite_none_right_eq_some.mp hs
          cases hs
          rw [← goto_self hpc]
          exact inv.goto t rfl rfl hok (by simp) (by simp [hpc])
      | succ n => cases hs
  | expired =>
      cases count with
      | zero =>
          obtain ⟨-, hs⟩ := Option.ite_none_right_eq_some.mp hs
          cases hs
          exact hlate _ (by simp)
      | succ n => cases hs
  | aborted =>
      cases count with
      | zero =>
          cases hs
          exact hlate _ (by simp)
      | succ n => cases hs

theorem Inv.reclaim (inv : Inv recursive h s) {r : Status}
    (hpc : s.pc t = .wait m k (.lateTest r)) (hl : (s.waiter t).linked = false) {count : Nat}
    (hcount : (s.waiter t).semaphore = some count) :
    ∃ n, count = n + 1 ∧ Inv recursive (.reclaim t :: h)
      ((s.modify t fun w => { w with semaphore := some n }).goto t
        (.wait m k (.latePut .ok))) := by
  obtain ⟨hpend, hown, hp, hheld, hr⟩ := inv.at hpc
  have hq : (view h s t).queued = false := (inv.linked t).symm.trans hl
  have hsem : (view h s t).semaphore = some count := hcount
  rcases hpend with ⟨hq', -⟩ | ⟨-, -, hp', -⟩ | ⟨-, hn, -, h1⟩
  · rw [hq] at hq'; cases hq'
  · rw [hp] at hp'; cases hp'
  · rw [hsem] at h1
    cases h1
    exact ⟨0, rfl, inv.setSemaphore t rfl rfl (fun _ => rfl) hpc
      ⟨⟨hq, hp⟩, hown, rfl, hheld, fun _ => hn, fun _ => rfl⟩⟩

theorem Inv.deleteSemaphore (inv : Inv recursive h s) {r : Status}
    (hpc : s.pc t = .wait m k (.delete r)) : Inv recursive (.deleteSemaphore t :: h)
      ((s.modify t fun w => { w with semaphore := none }).goto t (.wait m k (.relock r))) := by
  obtain ⟨hout, hown, -, hheld, hr⟩ := inv.at hpc
  exact inv.setSemaphore t rfl rfl (fun _ => rfl) hpc ⟨hout, hown, hheld, hr⟩

/-- Nobody is between an unlink and its post while the mutex is free. -/
theorem Inv.posting_none (inv : Inv recursive h s) (hfree : s.mutex = .free) :
    Condition.posting h = none := by
  cases hp : Condition.posting h with
  | none => rfl
  | some w =>
      obtain ⟨u, all, hu⟩ := inv.posting w hp
      have hown : (view h s u).owner = decide (NotifyPc.post w ≠ .lock) := (inv.at hu).2
      simp [view, hfree] at hown

/-- A thread in a critical section owns the implementation's mutex. -/
theorem Inv.afterPut_owner (inv : Inv recursive h s) (hpc : (s.pc t).afterPut = some pc) :
    s.mutex.owner = some t := by
  have hok := inv.ok t
  cases hst : s.pc t with
  | idle => simp [hst, Pc.afterPut] at hpc
  | wait m k p =>
      rw [hst] at hok hpc
      cases p <;> simp_all [Pc.afterPut, Ok, WaitOk, view]
  | notify all p =>
      rw [hst] at hok hpc
      cases p <;> simp_all [Pc.afterPut, Ok, view]
  | destroy p =>
      rw [hst] at hok hpc
      cases p <;> simp_all [Pc.afterPut, Ok, view]

theorem Inv.afterGet_owner (inv : Inv recursive h s) (hpc : (s.pc t).afterGet = some pc) :
    s.mutex.owner ≠ some t := by
  have hok := inv.ok t
  cases hst : s.pc t with
  | idle => simp [hst, Pc.afterGet] at hpc
  | wait m k p =>
      rw [hst] at hok hpc
      cases p <;> simp_all [Pc.afterGet, Ok, WaitOk, view]
  | notify all p =>
      rw [hst] at hok hpc
      cases p <;> simp_all [Pc.afterGet, Ok, view]
  | destroy p =>
      rw [hst] at hok hpc
      cases p <;> simp_all [Pc.afterGet, Ok, view]

theorem Ok.afterGet {v : View M} {p : Pc Thread M} (hok : Ok v p) (hp : v.posting = false)
    (hpc : p.afterGet = some pc) : Ok { v with owner := true } pc := by
  cases p with
  | idle => cases hpc
  | wait m k p =>
      cases p with
      | lock =>
          cases hpc
          obtain ⟨hout, -, hrest⟩ := hok
          exact ⟨hout, rfl, hrest⟩
      | lateLock r =>
          cases hpc
          obtain ⟨hpend, -, hheld, hr⟩ := hok
          exact ⟨hpend, rfl, hp, hheld, hr⟩
      | cancelLock r => exact hok.elim
      | _ => cases hpc
  | notify all p =>
      cases p with
      | lock =>
          cases hpc
          exact ⟨hok.1, rfl⟩
      | _ => cases hpc
  | destroy p =>
      cases p with
      | lock =>
          cases hpc
          exact ⟨hok.1, rfl⟩
      | _ => cases hpc

theorem Ok.afterPut {v : View M} {p : Pc Thread M} (hok : Ok v p)
    (hpc : p.afterPut = some pc) : Ok { v with owner := false } pc := by
  cases p with
  | idle => cases hpc
  | wait m k p =>
      cases p with
      | put r =>
          obtain ⟨hpend, -, -, hheld, rfl⟩ := hok
          cases hpc
          exact ⟨hpend, rfl, hheld⟩
      | latePut r =>
          cases hpc
          obtain ⟨hout, -, hsem, hheld, hr⟩ := hok
          exact ⟨hout, rfl, hsem, hheld, hr⟩
      | cancelPut r => exact hok.elim
      | _ => cases hpc
  | notify all p =>
      cases p with
      | put =>
          cases hpc
          exact ⟨hok.1, rfl⟩
      | _ => cases hpc
  | destroy p =>
      cases p with
      | put busy =>
          cases hpc
          cases busy <;> exact ⟨hok.1, rfl⟩
      | _ => cases hpc

theorem Inv.getMutex (inv : Inv recursive h s) (hpc : (s.pc t).afterGet = some pc)
    {x : Mutex Thread} (hx : s.mutex.get t = some x) :
    Inv recursive (.getMutex t :: h) ({ s with mutex := x }.goto t pc) := by
  obtain ⟨hfree, rfl⟩ := Mutex.get_of_owner_ne (inv.afterGet_owner hpc) hx
  have hpost := inv.posting_none hfree
  have hok : Ok { view h s t with owner := true } pc :=
    (inv.ok t).afterGet (by simp [view, hpost]) hpc
  have hview : view (.getMutex t :: h) { s with mutex := .held t 0 } t =
      { view h s t with owner := true } := by
    simp [view, queue, notified, Condition.posting]
    exact ⟨rfl, rfl⟩
  refine inv.quiet rfl (fun u hu => ?_) ?_ (fun all p hp => ?_) (fun all w hw => ?_) inv.links
    (fun _ => rfl) (fun u n hn => ?_) inv.plain
  · have hut : u ≠ t := hu
    exact ⟨by rw [pc_goto, if_neg hut], rfl, by simp [hfree, Ne.symm hut], fun _ => rfl⟩
  · simpa [Event.thread, hview] using hok
  · -- a signal or a broadcast starts with the queue as it is
    have hp : pc = .notify all p := by simpa [Event.thread] using hp
    subst hp
    have hp : p = .unlink := by
      revert hpc
      cases s.pc t with
      | idle => simp [Pc.afterGet]
      | wait m k q => cases q <;> simp [Pc.afterGet]
      | notify all q => cases q <;> simp [Pc.afterGet, eq_comm]
      | destroy q => cases q <;> simp [Pc.afterGet]
    subst hp
    simp [NotifyOk, Event.thread, Condition.posting, found, taken, queue, hpost]
  · rw [show s.pc t = _ from hw] at hpc
    cases hpc
  · cases hn
    rfl

theorem Inv.putMutex (inv : Inv recursive h s) (hpc : (s.pc t).afterPut = some pc)
    {x : Mutex Thread} (hx : s.mutex.put t = some x) :
    Inv recursive (.putMutex t :: h) ({ s with mutex := x }.goto t pc) := by
  have hown := inv.afterPut_owner hpc
  have hheld := inv.owned hown
  have hfree : x = .free := by simpa [hheld, eq_comm] using hx
  subst hfree
  have hview : view (.putMutex t :: h) { s with mutex := .free } t =
      { view h s t with owner := false } := by
    simp [view, queue, notified, Condition.posting]
    exact ⟨rfl, rfl⟩
  refine inv.quiet rfl (fun u hu => ?_) ?_ (fun all p hp => ?_) (fun all w hw => ?_) inv.links
    (fun _ => rfl) (fun u n hn => ?_) inv.plain
  · have hut : u ≠ t := hu
    exact ⟨by rw [pc_goto, if_neg hut], rfl, by simp [hheld, Ne.symm hut], fun _ => rfl⟩
  · simpa [Event.thread, hview] using (inv.ok t).afterPut hpc
  · have hp : pc = .notify all p := by simpa [Event.thread] using hp
    subst hp
    exfalso
    revert hpc
    cases s.pc t with
    | idle => simp [Pc.afterPut]
    | wait m k q => cases q <;> simp [Pc.afterPut]
    | notify all q => cases q <;> simp [Pc.afterPut]
    | destroy q =>
        cases q with
        | put busy => cases busy <;> simp [Pc.afterPut]
        | _ => simp [Pc.afterPut]
  · rw [show s.pc t = _ from hw] at hpc
    cases hpc
  · cases hn

end Quiet

/-! ## Steps on the queue -/

section Queue

variable {recursive : M → Bool} {h : List (Event Thread M)} {s s' : State Thread M}
  {t u w : Thread} {m : M} {k : Kind} {all : Bool}

theorem Inv.mem_queue (inv : Inv recursive h s) : (view h s t).queued = true ↔ t ∈ queue h := by
  simp [view]

/-- While `t` owns the mutex nobody else does. -/
theorem view_exclusive (ht : (view h s t).owner = true) (hu : u ≠ t) :
    (view h s u).owner = false := by
  have hown : s.mutex.owner = some t := by simpa [view] using ht
  simp [view, hown, Ne.symm hu]

/-- While `t` owns the mutex no other signal or broadcast has begun. -/
theorem Inv.notify_lock (inv : Inv recursive h s) (ht : (view h s t).owner = true) (hu : u ≠ t)
    {p : NotifyPc Thread} (hpc : s.pc u = .notify all p) : p = .lock := by
  have hp : (view h s u).owner = decide (p ≠ .lock) := (inv.at hpc).2
  rw [view_exclusive ht hu] at hp
  simpa using hp

/-- An unlinked waiter is posted by the one who owns the mutex. -/
theorem Inv.posting_owner (inv : Inv recursive h s) (ht : (view h s t).owner = true)
    (hw : Condition.posting h = some w) : ∃ all, s.pc t = .notify all (.post w) := by
  obtain ⟨u, all, hu⟩ := inv.posting w hw
  rcases eq_or_ne u t with rfl | hut
  · exact ⟨all, hu⟩
  · cases inv.notify_lock ht hut hu

theorem Inv.append (inv : Inv recursive h s) (hpc : s.pc t = .wait m k .append) :
    Inv recursive (.append t :: h) ((s.appendWaiter t).goto t (.wait m k .unlockMutex)) := by
  obtain ⟨hout, hown, hnot, hheld, hsem⟩ := inv.at hpc
  have hq : t ∉ queue h := by simpa [view] using hout.1
  have hpost : Condition.posting h = none := by
    cases hp : Condition.posting h with
    | none => rfl
    | some w =>
        obtain ⟨all, hall⟩ := inv.posting_owner hown hp
        simp [hpc] at hall
  have hview : ∀ u, view (.append t :: h) (s.appendWaiter t) u =
      { view h s u with queued := decide (u ∈ queue h ∨ u = t) } := by
    intro u
    simp [view, queue, notified, Condition.posting]
    rfl
  refine ⟨fun u => ?_, fun u all p hp => ?_, represents_appendWaiter inv.links hq, fun u => ?_,
    fun w hw => ?_, by simpa using inv.once, by simpa using inv.plain⟩
  · rcases eq_or_ne u t with rfl | hu
    · simp only [view_goto, pc_goto, if_true, hview]
      exact ⟨.inl ⟨by simp, hnot, hout.2, hsem⟩, hown, by simp, hheld⟩
    · have hsame : view (.append t :: h) (s.appendWaiter t) u = view h s u := by
        rw [hview]
        simp [view, hu]
      simpa [hsame, hu] using inv.ok u
  · rcases eq_or_ne u t with rfl | hu
    · simp at hp
    · cases inv.notify_lock hown hu (by simpa [hu] using hp)
      trivial
  · simp [queue, inv.linked u]
    grind
  · simp [Condition.posting, hpost] at hw

theorem Inv.withdraw (inv : Inv recursive h s) {r : Status}
    (hpc : s.pc t = .wait m k (.lateTest r)) (hl : (s.waiter t).linked = true) :
    Inv recursive (.withdraw t :: h) ((s.removeWaiter t).goto t (.wait m k (.latePut r))) := by
  obtain ⟨hpend, hown, hpost, hheld, hr⟩ := inv.at hpc
  have hq : t ∈ queue h := by simpa [inv.linked t] using hl
  have hnodup := inv.links.nodup
  have hview : ∀ u, view (.withdraw t :: h) (s.removeWaiter t) u =
      { view h s u with queued := decide (u ∈ (queue h).erase t) } := by
    intro u
    simp [view, queue, notified, Condition.posting]
    exact ⟨rfl, rfl⟩
  refine ⟨fun u => ?_, fun u all p hp => ?_, represents_removeWaiter inv.links hq hl, fun u => ?_,
    fun w hw => ?_, by simpa using inv.once, by simpa using inv.plain⟩
  · rcases eq_or_ne u t with rfl | hu
    · simp only [view_goto, pc_goto, if_true, hview]
      rcases hpend with ⟨-, hn, -, hsem⟩ | ⟨hq', -⟩ | ⟨hq', -⟩
      · exact ⟨⟨by simp [hnodup.mem_erase_iff], hpost⟩, hown, hsem, hheld,
          fun h => absurd h hr, fun h => by simp [hn] at h⟩
      · simp [view, hq] at hq'
      · simp [view, hq] at hq'
    · have hsame : view (.withdraw t :: h) (s.removeWaiter t) u = view h s u := by
        rw [hview]
        simp [view, List.mem_erase_of_ne hu]
      simpa [hsame, hu] using inv.ok u
  · rcases eq_or_ne u t with rfl | hu
    · simp at hp
    · cases inv.notify_lock hown hu (by simpa [hu] using hp)
      trivial
  · simp [queue, inv.linked u, hnodup.mem_erase_iff]
  · obtain ⟨all, hall⟩ := inv.posting_owner hown (by simpa [Condition.posting] using hw)
    simp [hpc] at hall

/-- A waiter in the queue of a condition whose mutex is owned by another
    thread waits for its semaphore, or for the mutex. -/
theorem Inv.pending_pc (inv : Inv recursive h s) (hown : (view h s u).owner = false)
    (hp : (view h s u).queued = true ∨ (view h s u).posting = true) :
    ∃ m k, (s.pc u = .wait m k .suspend ∨ ∃ r, s.pc u = .wait m k (.lateLock r)) ∧
      (view h s u).Pending := by
  have hok := inv.ok u
  have hin : ¬ (view h s u).Out := fun hout => by
    rcases hp with hq | hp
    · rw [hout.1] at hq
      cases hq
    · rw [hout.2] at hp
      cases hp
  cases hpc : s.pc u with
  | idle =>
      rw [hpc] at hok
      exact absurd hok.1 hin
  | notify all p =>
      rw [hpc] at hok
      exact absurd hok.1 hin
  | destroy p =>
      rw [hpc] at hok
      exact absurd hok.1 hin
  | wait m k p =>
      rw [hpc] at hok
      cases p with
      | suspend => exact ⟨m, k, .inl rfl, hok.1⟩
      | lateLock r => exact ⟨m, k, .inr ⟨r, rfl⟩, hok.1⟩
      | create | lock | append | latePut | delete | relock | leave => exact absurd hok.1 hin
      | unlockMutex | put | lateTest =>
          have := hok.2.1
          rw [hown] at this
          cases this
      | cancelLock | cancelRemove | cancelPut | cancelDelete => exact hok.elim

theorem Ok.pending {v v' : View M} {p : Pc Thread M}
    (hp : p = .wait m k .suspend ∨ ∃ r, p = .wait m k (.lateLock r)) (hok : Ok v p)
    (hpend : v'.Pending) (hown : v'.owner = v.owner) (hheld : v'.held = v.held) : Ok v' p := by
  rcases hp with rfl | ⟨r, rfl⟩
  · exact ⟨hpend, hown.trans hok.2.1, by rw [hheld]; exact hok.2.2⟩
  · exact ⟨hpend, hown.trans hok.2.1, by rw [hheld]; exact hok.2.2.1, hok.2.2.2⟩

theorem Inv.unlink (inv : Inv recursive h s) (hpc : s.pc t = .notify all .unlink)
    (hw : s.first = some w) :
    (queue h).head? = some w ∧
      Inv recursive (.unlink t w :: h) ((s.removeWaiter w).goto t (.notify all (.post w))) := by
  have hhead : (queue h).head? = some w := inv.links.first.symm.trans hw
  refine ⟨hhead, ?_⟩
  obtain ⟨hout, hown⟩ := inv.at hpc
  obtain ⟨hpost, hfound, htaken⟩ := inv.notify t all _ hpc
  have hq : w ∈ queue h := List.mem_of_head? hhead
  have hl : (s.waiter w).linked = true := by simpa [inv.linked w] using hq
  have hnodup := inv.links.nodup
  have hwt : w ≠ t := by
    rintro rfl
    simp [View.Out, view, hq] at hout
  have hview : ∀ u, view (.unlink t w :: h) (s.removeWaiter w) u =
      { view h s u with
        queued := decide (u ∈ (queue h).erase w)
        notified := if w = u then true else notified u h
        posting := decide (w = u) } := by
    intro u
    simp [view, queue, notified, Condition.posting]
    rfl
  refine ⟨fun u => ?_, fun u all' p hp => ?_, represents_removeWaiter inv.links hq hl, fun u => ?_,
    fun w' hw' => ⟨t, all, ?_⟩, by simpa using inv.once, by simpa using inv.plain⟩
  · rcases eq_or_ne u t with rfl | hu
    · simp only [view_goto, pc_goto, if_true]
      rw [hview]
      refine ⟨⟨?_, by simp [hwt]⟩, hown⟩
      have := hout.1
      simp [view] at this ⊢
      exact fun hmem => this (List.mem_of_mem_erase hmem)
    · simp only [view_goto, pc_goto, if_neg hu, removeWaiter_frame]
      rcases eq_or_ne u w with rfl | huw
      · -- the waiter that is unlinked
        have hq' : (view h s u).queued = true := inv.mem_queue.mpr hq
        obtain ⟨m, k, hat, hpend⟩ := inv.pending_pc (view_exclusive hown hu) (.inl hq')
        have hsem : (view h s u).semaphore = some 0 := by
          rcases hpend with ⟨-, -, -, h0⟩ | ⟨-, -, -, h0⟩ | ⟨hq'', -⟩
          · exact h0
          · exact h0
          · rw [hq'] at hq''
            cases hq''
        rw [hview]
        exact (inv.ok u).pending hat
          (.inr (.inl ⟨by simp [hnodup.mem_erase_iff], if_pos rfl, by simp, hsem⟩)) rfl rfl
      · have hsame : view (.unlink t w :: h) (s.removeWaiter w) u = view h s u := by
          rw [hview]
          simp [view, List.mem_erase_of_ne huw, Ne.symm huw, hpost]
        rw [hsame]
        exact inv.ok u
  · rcases eq_or_ne u t with rfl | hu
    · simp only [pc_goto, if_true, Pc.notify.injEq] at hp
      obtain ⟨rfl, rfl⟩ := hp
      refine ⟨rfl, ?_, fun hall => ?_⟩
      · -- the head of the queue moves to what has been taken
        obtain ⟨l, hl⟩ : ∃ l, queue h = w :: l := by
          cases hqueue : queue h with
          | nil => simp [hqueue] at hq
          | cons a l => simp_all
        simp [found, taken, queue, hfound, hl]
      · simp [taken, htaken hall]
    · cases inv.notify_lock hown hu (by simpa [hu] using hp)
      trivial
  · simp [queue, inv.linked u, hnodup.mem_erase_iff]
  · have hw' : w = w' := by simpa [Condition.posting] using hw'
    simp [hw']

theorem Inv.post (inv : Inv recursive h s) (hpc : s.pc t = .notify all (.post w)) :
    (s.waiter w).semaphore = some 0 ∧ Inv recursive (.post t :: h)
      ((s.modify w fun w => { w with semaphore := some (0 + 1) }).goto t
        (.notify all (if all then .unlink else .put))) := by
  obtain ⟨hout, hown⟩ := inv.at hpc
  obtain ⟨hpost, hfound, htaken⟩ := inv.notify t all _ hpc
  have hwt : w ≠ t := by
    rintro rfl
    simp [View.Out, view, hpost] at hout
  have hp' : (view h s w).posting = true := by simp [view, hpost]
  obtain ⟨m, k, hat, hpend⟩ := inv.pending_pc (view_exclusive hown hwt) (.inr hp')
  have hsem : (view h s w).queued = false ∧ (view h s w).notified = true ∧
      (view h s w).semaphore = some 0 := by
    rcases hpend with ⟨-, -, h0, -⟩ | ⟨hq, hn, -, h0⟩ | ⟨-, -, h0, -⟩
    · rw [hp'] at h0
      cases h0
    · exact ⟨hq, hn, h0⟩
    · rw [hp'] at h0
      cases h0
  obtain ⟨hq, hn, h0⟩ := hsem
  have hview : ∀ u, view (.post t :: h) (s.modify w fun w => { w with semaphore := some (0 + 1) }) u =
      { view h s u with
        posting := false
        semaphore := if u = w then some 1 else (view h s u).semaphore } := by
    intro u
    by_cases huw : u = w
    · simp [view, queue, notified, Condition.posting, huw]
    · simp [view, queue, notified, Condition.posting, huw]
      rfl
  refine ⟨h0, fun u => ?_, fun u all' p hp => ?_, ?_, fun u => ?_, fun w' hw' => ?_, inv.once,
    inv.plain⟩
  · rcases eq_or_ne u t with rfl | hu
    · simp only [view_goto, pc_goto, if_true]
      rw [hview]
      cases all <;> exact ⟨⟨hout.1, rfl⟩, hown⟩
    · simp only [view_goto, pc_goto, if_neg hu]
      rcases eq_or_ne u w with rfl | huw
      · rw [hview]
        exact (inv.ok u).pending hat (.inr (.inr ⟨hq, hn, rfl, if_pos rfl⟩)) rfl rfl
      · have hsame : view (.post t :: h) (s.modify w fun w => { w with semaphore := some (0 + 1) })
            u = view h s u := by
          rw [hview]
          simp [view, huw, hpost, Ne.symm huw]
        rw [hsame]
        exact inv.ok u
  · rcases eq_or_ne u t with rfl | hu
    · simp only [pc_goto, if_true, Pc.notify.injEq] at hp
      obtain ⟨rfl, rfl⟩ := hp
      cases all with
      | true => exact ⟨rfl, hfound, by simp⟩
      | false =>
          have hone : taken u h = [w] := htaken rfl
          refine ⟨rfl, hfound, fun _ => ?_, by simp⟩
          change taken u h = (found u h).take 1
          rw [hfound, hone]
          rfl
    · cases inv.notify_lock hown hu (by simpa [hu] using hp)
      trivial
  · exact (links_modify (s := s) (t := w) fun _ => rfl).symm ▸ inv.links
  · exact (linked_modify (s := s) (t := w) (fun _ => rfl) u).trans (inv.linked u)
  · cases hw'

end Queue

end Condition
end Backend
end NucleoBase
