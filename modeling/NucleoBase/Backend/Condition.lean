/-
  NucleoBase.Backend.Condition

  Condition variables (backend.cpp): `condition_wait_common` with its three
  entry points, `condition_signal`, `condition_broadcast` and
  `condition_destroy`, on one condition and any number of mutexes.

  One event is one step of one thread: a ThreadX call, or what it does to the
  waiter list between two of them while it owns the implementation's mutex.
  A timeout or an abort of the semaphore wait is an outcome of that step, and
  it is possible only while the semaphore's count is 0.

  A waiter lives on the stack of the waiting thread, which is in at most one
  wait, so waiters are named by their threads.  The condition is followed up
  to the end of its implementation: a step that would touch a deleted
  implementation is no step at all, and neither is one that ends in
  `fatal_error`.
-/

import NucleoBase.Lib.Run
import NucleoBase.Lib.IntrusiveList
import NucleoBase.ThreadX.Mutex

namespace NucleoBase
namespace Backend
namespace Condition

open Lib ThreadX

/-! ## State -/

/-- What the functions return; `ok` is 0. -/
inductive Status
  | ok | EINVAL | EAGAIN | EPERM | EDEADLK | ETIMEDOUT
  deriving DecidableEq, Repr

structure Waiter (Thread : Type*) where
  previous : Option Thread := none
  next : Option Thread := none
  /-- The count, once the semaphore has been created. -/
  semaphore : Option Nat := none
  linked : Bool := false
  deriving DecidableEq, Repr

/-- `condition_wait`, `condition_wait_recursive` and `condition_timed_wait`. -/
inductive Kind
  | plain | recursive | timed
  deriving DecidableEq, Repr

/-- Where a wait is in `condition_wait_common`, with its `unlock_status` or
    its `wait_status`. -/
inductive WaitPc
  | create                      -- before `tx_semaphore_create`
  | lock
  | append                      -- owns the implementation's mutex
  | unlockMutex
  | put (status : Status)
  | cancelLock (status : Status)
  | cancelRemove (status : Status)
  | cancelPut (status : Status)
  | cancelDelete (status : Status)
  | suspend                     -- in `tx_semaphore_get`
  | lateLock (status : Status)
  | lateTest (status : Status)
  | latePut (status : Status)
  | delete (status : Status)
  | relock (status : Status)    -- in `mutex_lock(mutex)`
  | leave (status : Status)
  deriving DecidableEq, Repr

/-- Where a call of `condition_signal` or `condition_broadcast` is. -/
inductive NotifyPc (Thread : Type*)
  | lock
  | unlink                      -- owns the implementation's mutex
  | post (waiter : Thread)
  | put
  deriving DecidableEq, Repr

/-- Where a call of `condition_destroy` is. -/
inductive DestroyPc
  | lock
  | test                        -- owns the implementation's mutex
  | put (busy : Bool)
  | delete
  deriving DecidableEq, Repr

/-- Where a thread is; `M` names the mutexes, `all` is true in a broadcast. -/
inductive Pc (Thread M : Type*)
  | idle
  | wait (mutex : M) (kind : Kind) (pc : WaitPc)
  | notify (all : Bool) (pc : NotifyPc Thread)
  | destroy (pc : DestroyPc)
  deriving DecidableEq, Repr

/-- The implementation behind the handle. -/
inductive Life
  | uncreated                   -- the handle is null
  | live
  | deleted                     -- the handle is null again
  deriving DecidableEq, Repr

structure State (Thread M : Type*) where
  life : Life
  mutex : Mutex Thread
  first : Option Thread
  last : Option Thread
  waiter : Thread → Waiter Thread
  /-- The mutexes of the callers; `none` before the first lock. -/
  userMutex : M → Option (Mutex Thread)
  pc : Thread → Pc Thread M

/-- How a step of the semaphore wait ends. -/
inductive Wake
  | success
  | again                       -- timed out a part of a tick before the deadline
  | expired
  | aborted
  deriving DecidableEq, Repr

inductive Event (Thread M : Type*)
  | lock (t : Thread) (m : M) (recursive : Bool)
  | unlock (t : Thread) (m : M)
  | enter (t : Thread) (m : M) (kind : Kind) (ok : Bool)
  | createSemaphore (t : Thread) (ok : Bool)
  | getMutex (t : Thread)       -- `raw_mutex_get(&implementation->mutex)`
  | append (t : Thread)
  | unlockMutex (t : Thread)
  | putMutex (t : Thread)       -- `raw_mutex_put(&implementation->mutex)`
  | getSemaphore (t : Thread) (wake : Wake)
  | withdraw (t : Thread)       -- removes its own waiter
  | reclaim (t : Thread)        -- finds its waiter unlinked
  | deleteSemaphore (t : Thread)
  | relock (t : Thread)
  | leave (t : Thread) (status : Status)
  | notify (t : Thread) (all : Bool)
  | unlink (t : Thread) (waiter : Thread)
  | noWaiter (t : Thread)
  | post (t : Thread)
  | destroy (t : Thread)
  | test (t : Thread)
  | delete (t : Thread) (ok : Bool)
  deriving DecidableEq, Repr

variable {Thread M : Type*}

def Event.thread : Event Thread M → Thread
  | .lock t _ _ | .unlock t _ | .enter t _ _ _ | .createSemaphore t _ | .getMutex t | .append t
  | .unlockMutex t | .putMutex t | .getSemaphore t _ | .withdraw t | .reclaim t
  | .deleteSemaphore t | .relock t | .leave t _ | .notify t _ | .unlink t _ | .noWaiter t
  | .post t | .destroy t | .test t | .delete t _ => t

/-! ## Program points -/

/-- The next step reads, locks, unlocks or deletes the implementation. -/
def Pc.accesses : Pc Thread M → Bool
  | .idle => false
  | .wait _ _ pc =>
      match pc with
      | .lock | .append | .put _ | .cancelLock _ | .cancelRemove _ | .cancelPut _
      | .lateLock _ | .lateTest _ | .latePut _ => true
      | .create | .unlockMutex | .cancelDelete _ | .suspend | .delete _ | .relock _
      | .leave _ => false
  | .notify _ (.post _) => false
  | .notify _ _ | .destroy _ => true

/-- Where a thread goes on once it owns the implementation's mutex. -/
def Pc.afterGet : Pc Thread M → Option (Pc Thread M)
  | .wait m k .lock => some (.wait m k .append)
  | .wait m k (.cancelLock e) => some (.wait m k (.cancelRemove e))
  | .wait m k (.lateLock e) => some (.wait m k (.lateTest e))
  | .notify all .lock => some (.notify all .unlink)
  | .destroy .lock => some (.destroy .test)
  | _ => none

/-- Where a thread goes on once it has released the implementation's mutex. -/
def Pc.afterPut : Pc Thread M → Option (Pc Thread M)
  | .wait m k (.put e) => some (.wait m k (if e = .ok then .suspend else .cancelLock e))
  | .wait m k (.cancelPut e) => some (.wait m k (.cancelDelete e))
  | .wait m k (.latePut e) => some (.wait m k (.delete e))
  | .notify _ .put => some .idle
  | .destroy (.put busy) => some (if busy then .idle else .destroy .delete)
  | _ => none

/-! ## Operations -/

variable [DecidableEq Thread] [DecidableEq M]

namespace State

def goto (s : State Thread M) (t : Thread) (pc : Pc Thread M) : State Thread M :=
  { s with pc := Function.update s.pc t pc }

def modify (s : State Thread M) (t : Thread) (f : Waiter Thread → Waiter Thread) :
    State Thread M :=
  { s with waiter := Function.update s.waiter t (f (s.waiter t)) }

def appendWaiter (s : State Thread M) (t : Thread) : State Thread M :=
  let s := s.modify t fun w => { w with previous := s.last, next := none, linked := true }
  match s.last with
  | some l => { s.modify l fun w => { w with next := some t } with last := some t }
  | none => { s with first := some t, last := some t }

def removeWaiter (s : State Thread M) (t : Thread) : State Thread M :=
  if (s.waiter t).linked = false then s else
  let s := match (s.waiter t).previous with
    | some p => s.modify p fun w => { w with next := (s.waiter t).next }
    | none => { s with first := (s.waiter t).next }
  let s := match (s.waiter t).next with
    | some n => s.modify n fun w => { w with previous := (s.waiter t).previous }
    | none => { s with last := (s.waiter t).previous }
  s.modify t fun w => { w with linked := false }

/-- `mutex_lock` and `recursive_mutex_lock`; `none` while the caller is
    suspended. -/
def lockMutex (s : State Thread M) (t : Thread) (m : M) (recursive : Bool) :
    Option (State Thread M × Status) :=
  let x := (s.userMutex m).getD .free
  if recursive = false ∧ x.owner = some t then some (s, .EDEADLK)
  else (x.get t).map fun x =>
    ({ s with userMutex := Function.update s.userMutex m (some x) }, .ok)

/-- `mutex_unlock` and `recursive_mutex_unlock`. -/
def unlockMutex (s : State Thread M) (t : Thread) (m : M) : State Thread M × Status :=
  match (s.userMutex m).bind fun x => x.put t with
  | some x => ({ s with userMutex := Function.update s.userMutex m (some x) }, .ok)
  | none => (s, .EPERM)

/-- A wait up to `tx_semaphore_create`; `ok` is the outcome of creating the
    implementation. -/
def enterWait (s : State Thread M) (t : Thread) (m : M) (kind : Kind) (ok : Bool) :
    Option (State Thread M) :=
  if kind = .recursive ∧ s.userMutex m ≠ some (.held t 0) then
    some (s.goto t (.wait m kind (.leave .EINVAL)))
  else
    match s.life, ok with
    | .uncreated, false => some (s.goto t (.wait m kind (.leave .EINVAL)))
    | .uncreated, true | .live, _ =>
        some ({ s with life := .live }.goto t
          (.wait m kind (if s.userMutex m = none then .leave .EINVAL else .create)))
    | .deleted, _ => none

/-- The semaphore wait of `t`. -/
def getSemaphore (s : State Thread M) (t : Thread) (m : M) (kind : Kind) (wake : Wake) :
    Option (State Thread M) :=
  (s.waiter t).semaphore.bind fun count =>
    match wake, count with
    | .success, n + 1 =>
        some ((s.modify t fun w => { w with semaphore := some n }).goto t
          (.wait m kind (.delete .ok)))
    | .again, 0 => if kind = .timed then some s else none
    | .expired, 0 =>
        if kind = .timed then some (s.goto t (.wait m kind (.lateLock .ETIMEDOUT))) else none
    | .aborted, 0 => some (s.goto t (.wait m kind (.lateLock .EINVAL)))
    | _, _ => none

end State

/-! ## Steps -/

/-- The event of a thread, which may touch the implementation. -/
def perform (s : State Thread M) : Event Thread M → Option (State Thread M)
  | .lock t m recursive =>
      if s.pc t = .idle then (s.lockMutex t m recursive).map Prod.fst else none
  | .unlock t m => if s.pc t = .idle then some (s.unlockMutex t m).1 else none
  | .enter t m kind ok => if s.pc t = .idle then s.enterWait t m kind ok else none
  | .createSemaphore t ok =>
      match s.pc t with
      | .wait m k .create =>
          if ok then
            some ((s.modify t fun _ => { semaphore := some 0 }).goto t (.wait m k .lock))
          else some (s.goto t (.wait m k (.leave .EAGAIN)))
      | _ => none
  | .getMutex t =>
      (s.pc t).afterGet.bind fun pc =>
        (s.mutex.get t).map fun x => { s with mutex := x }.goto t pc
  | .append t =>
      match s.pc t with
      | .wait m k .append => some ((s.appendWaiter t).goto t (.wait m k .unlockMutex))
      | _ => none
  | .unlockMutex t =>
      match s.pc t with
      | .wait m k .unlockMutex =>
          let r := s.unlockMutex t m
          some (r.1.goto t (.wait m k (.put r.2)))
      | _ => none
  | .putMutex t =>
      (s.pc t).afterPut.bind fun pc =>
        (s.mutex.put t).map fun x => { s with mutex := x }.goto t pc
  | .getSemaphore t wake =>
      match s.pc t with
      | .wait m k .suspend => s.getSemaphore t m k wake
      | _ => none
  | .withdraw t =>
      match s.pc t with
      | .wait m k (.cancelRemove e) => some ((s.removeWaiter t).goto t (.wait m k (.cancelPut e)))
      | .wait m k (.lateTest e) =>
          if (s.waiter t).linked then some ((s.removeWaiter t).goto t (.wait m k (.latePut e)))
          else none
      | _ => none
  | .reclaim t =>
      match s.pc t with
      | .wait m k (.lateTest e) =>
          if (s.waiter t).linked then none else
          (s.waiter t).semaphore.map fun count =>
            match count with
            | n + 1 =>
                (s.modify t fun w => { w with semaphore := some n }).goto t
                  (.wait m k (.latePut .ok))
            | 0 => s.goto t (.wait m k (.latePut e))
      | _ => none
  | .deleteSemaphore t =>
      let s' := s.modify t fun w => { w with semaphore := none }
      if (s.waiter t).semaphore = none then none else
      match s.pc t with
      | .wait m k (.cancelDelete e) => some (s'.goto t (.wait m k (.leave e)))
      | .wait m k (.delete e) => some (s'.goto t (.wait m k (.relock e)))
      | _ => none
  | .relock t =>
      match s.pc t with
      | .wait m k (.relock e) =>
          (s.lockMutex t m false).map fun r =>
            r.1.goto t (.wait m k (.leave (if r.2 = .ok then e else r.2)))
      | _ => none
  | .leave t status =>
      match s.pc t with
      | .wait _ _ (.leave e) => if e = status then some (s.goto t .idle) else none
      | _ => none
  | .notify t all =>
      if s.pc t = .idle then
        some (if s.life = .live then s.goto t (.notify all .lock) else s)
      else none
  | .unlink t w =>
      match s.pc t with
      | .notify all .unlink =>
          if s.first = some w then some ((s.removeWaiter w).goto t (.notify all (.post w)))
          else none
      | _ => none
  | .noWaiter t =>
      match s.pc t with
      | .notify all .unlink => if s.first = none then some (s.goto t (.notify all .put)) else none
      | _ => none
  | .post t =>
      match s.pc t with
      | .notify all (.post w) =>
          (s.waiter w).semaphore.map fun n =>
            (s.modify w fun w => { w with semaphore := some (n + 1) }).goto t
              (.notify all (if all then .unlink else .put))
      | _ => none
  | .destroy t =>
      if s.pc t = .idle then some (if s.life = .live then s.goto t (.destroy .lock) else s)
      else none
  | .test t =>
      match s.pc t with
      | .destroy .test => some (s.goto t (.destroy (.put s.first.isSome)))
      | _ => none
  | .delete t ok =>
      match s.pc t with
      | .destroy .delete =>
          some ((if ok then { s with life := .deleted } else s).goto t .idle)
      | _ => none

/-- One event; nobody gets past an access to a deleted implementation. -/
def step (s : State Thread M) (e : Event Thread M) : Option (State Thread M) :=
  if s.life = .deleted ∧ (s.pc e.thread).accesses = true then none else perform s e

/-- A condition that nobody has used, and mutexes that nobody holds. -/
def init (s : State Thread M) : Prop :=
  s.life = .uncreated ∧ s.mutex = .free ∧ s.first = none ∧ s.last = none ∧
  (∀ t, (s.waiter t).linked = false) ∧ (∀ m, s.userMutex m = none ∨ s.userMutex m = some .free) ∧
  ∀ t, s.pc t = .idle

/-! ## What the callers promise -/

/-- A mutex is locked with the functions for its kind, and the mutex of a wait
    is held by the waiting thread. -/
def Entitled (recursive : M → Bool) (s : State Thread M) : Event Thread M → Prop
  | .lock _ m r => r = recursive m
  | .enter t m kind _ =>
      (s.userMutex m).any (fun x => x.owner = some t) = true ∧
        recursive m = decide (kind = .recursive)
  | _ => True

instance (recursive : M → Bool) (s : State Thread M) :
    ∀ e, Decidable (Entitled recursive s e)
  | .lock _ _ _ => inferInstanceAs (Decidable (_ = _))
  | .enter _ _ _ _ => inferInstanceAs (Decidable (_ ∧ _))
  | .unlock _ _ | .createSemaphore _ _ | .getMutex _ | .append _ | .unlockMutex _ | .putMutex _
  | .getSemaphore _ _ | .withdraw _ | .reclaim _ | .deleteSemaphore _ | .relock _ | .leave _ _
  | .notify _ _ | .unlink _ _ | .noWaiter _ | .post _ | .destroy _ | .test _ | .delete _ _ =>
      isTrue trivial

end Condition
end Backend
end NucleoBase
