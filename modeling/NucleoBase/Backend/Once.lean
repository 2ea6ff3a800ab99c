/-
  NucleoBase.Backend.Once

  `runtime::detail::once` (backend.cpp): the three-valued control word, the
  initialization mutex that guards it and the polling callers.

  A thread's calls to `once` nest when the function it runs calls `once`
  again, so each thread has a stack of frames; only the innermost frame moves,
  every outer one is inside its function.  The events are the statements of
  `once`, one for each acquisition or release of the mutex and one for each
  read or write of the control word, so that any interleaving of the threads'
  statements is a run.

  The invariant ties the control word to the frames: the word is 1 exactly
  while one frame is between the store of 1 and the store that ends its turn.
-/

import NucleoBase.Lib.Run
import NucleoBase.ThreadX.Mutex
import Mathlib.Data.List.Count
import Mathlib.Data.UInt

namespace NucleoBase
namespace Backend
namespace Once

open Lib ThreadX

/-! ## The model -/

/-- Where a call to `once` stands. -/
inductive Pc
  | entry      -- top of the loop, before `raw_mutex_get`
  | test       -- owns the mutex, about to read `state`
  | finished   -- read 2, about to release and return 0
  | claimed    -- stored 1, about to release and call the function
  | inside     -- the function is running, no lock is held
  | returned   -- the function returned, about to obtain the mutex
  | commit     -- owns the mutex, about to store 2
  | committed  -- stored 2, about to release and return 0
  | threw      -- in `catch (...)`, about to obtain the mutex
  | reopen     -- owns the mutex, about to store 0
  | reopened   -- stored 0, about to release and rethrow
  | busy       -- read 1, about to release
  | asleep     -- in `tx_thread_sleep(1U)`
  deriving DecidableEq, Repr

/-- The statements that run under the initialization mutex. -/
def Pc.locked : Pc → Bool
  | .test | .finished | .claimed | .commit | .committed | .reopen | .reopened | .busy => true
  | _ => false

/-- The turn of a caller: from its store of 1 up to the store of 2 or 0. -/
def Pc.turn : Pc → Bool
  | .claimed | .inside | .returned | .commit | .threw | .reopen => true
  | _ => false

structure Frame (Word : Type*) where
  word : Word
  pc : Pc
  deriving DecidableEq, Repr

structure State (Thread Word : Type*) where
  initializationMutex : Mutex Thread
  state : Word → UInt32
  frames : Thread → List (Frame Word)

/-- The argument check at the head of `once`; 0 lets the call proceed. -/
def onceCheck (EINVAL contextStatus : Int) (onceControlNull functionNull : Bool) : Int :=
  if contextStatus ≠ 0 ∨ onceControlNull ∨ functionNull then
    if contextStatus ≠ 0 then contextStatus else EINVAL
  else 0

theorem onceCheck_eq_zero {EINVAL contextStatus : Int} {c f : Bool} (hE : EINVAL ≠ 0)
    (h : onceCheck EINVAL contextStatus c f = 0) :
    contextStatus = 0 ∧ c = false ∧ f = false := by
  unfold onceCheck at h
  split at h
  · split at h
    · contradiction
    · contradiction
  · rename_i hn
    simp only [not_or, not_not, Bool.not_eq_true] at hn
    exact hn

/-- The statements of `once` and of the function it calls. -/
inductive Stmt
  | call      -- a call whose arguments pass `onceCheck`
  | get       -- `raw_mutex_get(&initialization_mutex)`
  | test      -- the two tests of `state`, with the store of 1
  | enter     -- release, then `function()` begins
  | fnReturn  -- `function()` returns normally
  | fnThrow   -- `function()` throws
  | store     -- `state = 2U`, or `state = 0U` in the handler
  | ret       -- release, `return 0`
  | rethrow   -- release, `throw`
  | backOff   -- release, `tx_thread_sleep(1U)` begins
  | wake      -- the sleep ends
  deriving DecidableEq, Repr

/-- What a statement does to the initialization mutex. -/
inductive Lock
  | keep | get | put
  deriving DecidableEq, Repr

/-- The effect of a statement on the mutex, the control word and the frame;
    `next = none` leaves the call. -/
structure Effect where
  lock : Lock
  store : Option UInt32
  next : Option Pc
  deriving DecidableEq, Repr

/-- The body of `once`, statement by statement: at `pc`, with the control word
    reading `v`. -/
def body (v : UInt32) : Pc → Stmt → Option Effect
  | .entry, .get => some ⟨.get, none, some .test⟩
  | .test, .test =>
      if v = 2 then some ⟨.keep, none, some .finished⟩
      else if v = 0 then some ⟨.keep, some 1, some .claimed⟩
      else some ⟨.keep, none, some .busy⟩
  | .finished, .ret => some ⟨.put, none, none⟩
  | .claimed, .enter => some ⟨.put, none, some .inside⟩
  | .inside, .fnReturn => some ⟨.keep, none, some .returned⟩
  | .returned, .get => some ⟨.get, none, some .commit⟩
  | .commit, .store => some ⟨.keep, some 2, some .committed⟩
  | .committed, .ret => some ⟨.put, none, none⟩
  | .inside, .fnThrow => some ⟨.keep, none, some .threw⟩
  | .threw, .get => some ⟨.get, none, some .reopen⟩
  | .reopen, .store => some ⟨.keep, some 0, some .reopened⟩
  | .reopened, .rethrow => some ⟨.put, none, none⟩
  | .busy, .backOff => some ⟨.put, none, some .asleep⟩
  | .asleep, .wake => some ⟨.keep, none, some .entry⟩
  | _, _ => none

/-- Statement `stmt` of thread `thread` in a call on the control word `word`. -/
structure Event (Thread Word : Type*) where
  thread : Thread
  word : Word
  stmt : Stmt
  deriving DecidableEq, Repr

variable {Thread Word : Type*} [DecidableEq Thread] [DecidableEq Word]

/-- Perform the lock operation of a statement; `none` suspends the thread. -/
def Lock.apply (t : Thread) (m : Mutex Thread) : Lock → Option (Mutex Thread)
  | .keep => some m
  | .get => m.get t
  | .put => m.put t

/-- The control words after a statement on `w`. -/
def storeWord (state : Word → UInt32) (w : Word) : Option UInt32 → Word → UInt32
  | none => state
  | some v => Function.update state w v

/-- The frames a thread is left with when its innermost call continues at `next`. -/
def continueAt (w : Word) (next : Option Pc) (rest : List (Frame Word)) : List (Frame Word) :=
  (next.map (Frame.mk w)).toList ++ rest

/-- `t` calls `once` on `w`. -/
def State.beginCall (s : State Thread Word) (t : Thread) (w : Word) : State Thread Word :=
  { s with frames := Function.update s.frames t (⟨w, .entry⟩ :: s.frames t) }

/-- The innermost call of the event's thread performs `eff`, having left the
    mutex as `m`; `rest` are the calls around it. -/
def State.perform (s : State Thread Word) (e : Event Thread Word) (m : Mutex Thread)
    (eff : Effect) (rest : List (Frame Word)) : State Thread Word where
  initializationMutex := m
  state := storeWord s.state e.word eff.store
  frames := Function.update s.frames e.thread (continueAt e.word eff.next rest)

/-- One statement of one thread; `none` where it is not the thread's next
    statement or the thread is suspended.  A thread calls `once` from its own
    code or from a function that `once` is running. -/
def step (s : State Thread Word) (e : Event Thread Word) : Option (State Thread Word) :=
  match e.stmt, s.frames e.thread with
  | .call, fs =>
      if ∀ f ∈ fs.head?, f.pc = .inside then some (s.beginCall e.thread e.word) else none
  | _, [] => none
  | stmt, f :: rest =>
      if f.word = e.word then
        (body (s.state e.word) f.pc stmt).bind fun eff =>
          (eff.lock.apply e.thread s.initializationMutex).map fun m => s.perform e m eff rest
      else none

/-- No call has begun and every control word is zero-initialised. -/
def init (s : State Thread Word) : Prop :=
  s.initializationMutex = .free ∧ (∀ w, s.state w = 0) ∧ ∀ t, s.frames t = []

end Once
end Backend
end NucleoBase
