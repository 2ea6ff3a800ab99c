/-
  NucleoBase.Backend.CxxGuard

  The guard functions of the C++ ABI (cxx_guard.cpp): `__cxa_guard_acquire`,
  `__cxa_guard_release` and `__cxa_guard_abort` over the two bytes of a guard
  object, with the one mutex that all guard objects share.

  A thread is in at most one of the three functions at a time.  It may be
  initializing any number of objects meanwhile: `initializing` lists the guards
  whose acquire returned 1 to it and whose release or abort has not returned,
  innermost first, and any of them may be released or aborted next.  The events
  are the atomic loads and stores, the mutex operations and the returns, so
  that any interleaving of the threads is a run.
-/

import NucleoBase.Lib.Run
import NucleoBase.ThreadX.Mutex
import Mathlib.Data.UInt

namespace NucleoBase
namespace Backend
namespace CxxGuard

open Lib ThreadX

/-! ## Guard objects and the callers' context -/

/-- The bytes of a guard object that the ABI functions use. -/
structure GuardBytes where
  initialized : UInt8  -- `INITIALIZED_BYTE`
  inProgress : UInt8   -- `IN_PROGRESS_BYTE`
  deriving DecidableEq, Repr

/-- What `locking_required` asks about its caller and the runtime. -/
structure Context where
  interruptContext : Bool
  active : Bool
  threadIdentified : Bool
  cxxGuardMutexReady : Bool
  deriving DecidableEq, Repr

/-- `locking_required`; `none` is a call of `guard_failure`. -/
def lockingRequired (c : Context) : Option Bool :=
  if c.interruptContext then none
  else if !c.active then some false
  else if !c.threadIdentified then some false
  else if !c.cxxGuardMutexReady then none
  else some true

/-- A ThreadX thread that runs while the runtime is active. -/
def Context.threaded : Context := ⟨false, true, true, true⟩

@[simp] theorem lockingRequired_threaded : lockingRequired .threaded = some true := rfl

/-! ## Program points -/

/-- Where a call of one of the three functions stands. -/
inductive Pc
  | fastPath         -- acquire: the load before any lock
  | fastDone         -- that load found the object initialized
  | get              -- top of the loop, about to obtain the mutex
  | testInitialized  -- owns the mutex, about to load `INITIALIZED_BYTE`
  | putDone          -- found it set, about to release and return 0
  | testInProgress   -- owns the mutex, about to load `IN_PROGRESS_BYTE`
  | claim            -- found it clear, about to store 1
  | putClaimed       -- stored 1, about to release and return 1
  | putBusy          -- found it set, about to release
  | asleep           -- in `tx_thread_sleep(1U)`
  | releaseGet       -- release: about to obtain the mutex
  | clear            -- owns the mutex, about to store 0 to `IN_PROGRESS_BYTE`
  | complete         -- about to store 1 to `INITIALIZED_BYTE`
  | releasePut       -- about to release the mutex and return
  | abortGet         -- abort: about to obtain the mutex
  | reopen           -- owns the mutex, about to store 0 to `IN_PROGRESS_BYTE`
  | abortPut         -- about to release the mutex and return
  deriving DecidableEq, Repr

/-- The statements that run under the guard mutex. -/
def Pc.locked : Pc → Bool
  | .testInitialized | .putDone | .testInProgress | .claim | .putClaimed | .putBusy
  | .clear | .complete | .releasePut | .reopen | .abortPut => true
  | _ => false

/-- The statements of `__cxa_guard_acquire`. -/
def Pc.acquiring : Pc → Bool
  | .fastPath | .fastDone | .get | .testInitialized | .putDone | .testInProgress | .claim
  | .putClaimed | .putBusy | .asleep => true
  | _ => false

/-- A call in progress; `locked` is the function's local of that name. -/
structure Call (Guard : Type*) where
  guard : Guard
  locked : Bool
  pc : Pc
  deriving DecidableEq, Repr

structure State (Thread Guard : Type*) where
  cxxGuardMutex : Mutex Thread
  bytes : Guard → GuardBytes
  call : Thread → Option (Call Guard)
  initializing : Thread → List Guard

/-- The calls of the three functions and the statements of their bodies. -/
inductive Stmt
  | acquire          -- `__cxa_guard_acquire` is called
  | release          -- `__cxa_guard_release` is called
  | abort            -- `__cxa_guard_abort` is called
  | fastLoad         -- the load of `INITIALIZED_BYTE` before the loop
  | get              -- `acquire_guard_mutex`
  | loadInitialized  -- the load of `INITIALIZED_BYTE` in the loop
  | loadInProgress   -- the load of `IN_PROGRESS_BYTE`
  | claim            -- acquire stores 1 to `IN_PROGRESS_BYTE`
  | returnZero       -- `release_guard_mutex` where it is held, `return 0`
  | returnOne        -- `release_guard_mutex`, `return 1`
  | backOff          -- `release_guard_mutex`, the sleep begins
  | wake             -- the sleep ends
  | clear            -- release stores 0 to `IN_PROGRESS_BYTE`
  | complete         -- release stores 1 to `INITIALIZED_BYTE`
  | returnReleased   -- `release_guard_mutex`, release returns
  | reopen           -- abort stores 0 to `IN_PROGRESS_BYTE`
  | returnAborted    -- `release_guard_mutex`, abort returns
  deriving DecidableEq, Repr

/-- The statements that call one of the three functions. -/
def Stmt.begins : Stmt → Bool
  | .acquire | .release | .abort => true
  | _ => false

/-- What a statement does to the guard mutex, where the caller has to lock. -/
inductive Lock
  | keep | get | put
  deriving DecidableEq, Repr

/-- The effect of a statement on the mutex, the guard bytes and the call;
    `next = none` leaves the function. -/
structure Effect (Guard : Type*) where
  lock : Lock
  bytes : GuardBytes
  next : Option (Call Guard)
  deriving DecidableEq, Repr

section Body

variable {Guard : Type*}

/-- The bodies of the three functions, statement by statement: in call `c`, the
    guard bytes reading `b` and `locking` what `locking_required` would answer. -/
def body (locking : Option Bool) (b : GuardBytes) (c : Call Guard) :
    Pc → Stmt → Option (Effect Guard)
  | .fastPath, .fastLoad =>
      if b.initialized ≠ 0 then some ⟨.keep, b, some { c with pc := .fastDone }⟩
      else locking.map fun locked => ⟨.keep, b, some { c with locked := locked, pc := .get }⟩
  | .fastDone, .returnZero => some ⟨.keep, b, none⟩
  | .get, .get => some ⟨.get, b, some { c with pc := .testInitialized }⟩
  | .testInitialized, .loadInitialized =>
      if b.initialized ≠ 0 then some ⟨.keep, b, some { c with pc := .putDone }⟩
      else some ⟨.keep, b, some { c with pc := .testInProgress }⟩
  | .putDone, .returnZero => some ⟨.put, b, none⟩
  | .testInProgress, .loadInProgress =>
      if b.inProgress = 0 then some ⟨.keep, b, some { c with pc := .claim }⟩
      else some ⟨.keep, b, some { c with pc := .putBusy }⟩
  | .claim, .claim => some ⟨.keep, { b with inProgress := 1 }, some { c with pc := .putClaimed }⟩
  | .putClaimed, .returnOne => some ⟨.put, b, none⟩
  -- an unlocked caller that finds the initializer running ends in `guard_failure`
  | .putBusy, .backOff =>
      if c.locked then some ⟨.put, b, some { c with pc := .asleep }⟩ else none
  | .asleep, .wake => some ⟨.keep, b, some { c with pc := .get }⟩
  | .releaseGet, .get => some ⟨.get, b, some { c with pc := .clear }⟩
  | .clear, .clear => some ⟨.keep, { b with inProgress := 0 }, some { c with pc := .complete }⟩
  | .complete, .complete =>
      some ⟨.keep, { b with initialized := 1 }, some { c with pc := .releasePut }⟩
  | .releasePut, .returnReleased => some ⟨.put, b, none⟩
  | .abortGet, .get => some ⟨.get, b, some { c with pc := .reopen }⟩
  | .reopen, .reopen => some ⟨.keep, { b with inProgress := 0 }, some { c with pc := .abortPut }⟩
  | .abortPut, .returnAborted => some ⟨.put, b, none⟩
  | _, _ => none

end Body

/-! ## The transition system -/

/-- Statement `stmt` of thread `thread` about the guard object `guard`. -/
structure Event (Thread Guard : Type*) where
  thread : Thread
  guard : Guard
  stmt : Stmt
  deriving DecidableEq, Repr

variable {Thread Guard : Type*} [DecidableEq Thread] [DecidableEq Guard]

/-- `acquire_guard_mutex(locked)` and `release_guard_mutex(locked)`; `none`
    suspends the thread (get) or is a `guard_failure` (put). -/
def Lock.apply (locked : Bool) (t : Thread) (m : Mutex Thread) : Lock → Option (Mutex Thread)
  | .keep => some m
  | .get => if locked then m.get t else some m
  | .put => if locked then m.put t else some m

/-- The guards a thread is initializing after a statement about `g`. -/
def Stmt.turns (g : Guard) (gs : List Guard) : Stmt → List Guard
  | .returnOne => g :: gs
  | .returnReleased | .returnAborted => gs.erase g
  | _ => gs

/-- `t` calls one of the functions. -/
def State.beginCall (s : State Thread Guard) (t : Thread) (c : Call Guard) :
    State Thread Guard :=
  { s with call := Function.update s.call t (some c) }

@[simp] theorem State.beginCall_bytes (s : State Thread Guard) (t : Thread) (c : Call Guard) :
    (s.beginCall t c).bytes = s.bytes := rfl

@[simp] theorem State.beginCall_initializing (s : State Thread Guard) (t : Thread)
    (c : Call Guard) : (s.beginCall t c).initializing = s.initializing := rfl

/-- The call of the event's thread performs `eff`, having left the mutex as `m`. -/
def State.perform (s : State Thread Guard) (e : Event Thread Guard) (m : Mutex Thread)
    (eff : Effect Guard) : State Thread Guard where
  cxxGuardMutex := m
  bytes := Function.update s.bytes e.guard eff.bytes
  call := Function.update s.call e.thread eff.next
  initializing := Function.update s.initializing e.thread
    (e.stmt.turns e.guard (s.initializing e.thread))

/-- One statement of one thread; `none` where it is not the thread's next
    statement, the thread is suspended or the runtime gives up.  Release and
    abort are called by a thread whose acquire returned 1. -/
def step (context : Thread → Context) (s : State Thread Guard) (e : Event Thread Guard) :
    Option (State Thread Guard) :=
  match s.call e.thread with
  | none =>
      match e.stmt with
      | .acquire => some (s.beginCall e.thread ⟨e.guard, false, .fastPath⟩)
      | .release =>
          if e.guard ∈ s.initializing e.thread then
            (lockingRequired (context e.thread)).map fun locked =>
              s.beginCall e.thread ⟨e.guard, locked, .releaseGet⟩
          else none
      | .abort =>
          if e.guard ∈ s.initializing e.thread then
            (lockingRequired (context e.thread)).map fun locked =>
              s.beginCall e.thread ⟨e.guard, locked, .abortGet⟩
          else none
      | _ => none
  | some c =>
      if c.guard = e.guard then
        (body (lockingRequired (context e.thread)) (s.bytes e.guard) c c.pc e.stmt).bind fun eff =>
          (eff.lock.apply c.locked e.thread s.cxxGuardMutex).map fun m => s.perform e m eff
      else none

/-- The runtime has become active with the objects `initialized` completed
    before it and no initializer running. -/
def init (initialized : Guard → Bool) (s : State Thread Guard) : Prop :=
  s.cxxGuardMutex = .free ∧
  (∀ g, s.bytes g = if initialized g then ⟨1, 0⟩ else ⟨0, 0⟩) ∧
  (∀ t, s.call t = none) ∧ ∀ t, s.initializing t = []

end CxxGuard
end Backend
end NucleoBase
