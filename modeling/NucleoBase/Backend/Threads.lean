/-
  NucleoBase.Backend.Threads

  The life of `std::thread` control blocks (backend.cpp): `thread_create`,
  `thread_join`, `thread_detach`, the exiting thread's `thread_entry`, and the
  single reaper that frees blocks handed to it through the cleanup queue.

  Agents are application threads and `std` threads; each runs at most one call
  at a time, a `std` thread only from its entry function or its exit callbacks.
  One event is one step of one agent: a ThreadX call, a lock, an unlock, or
  the flag accesses between them.  The registry is touched in one critical
  section of the initialization mutex at a time, so each of `register_thread`,
  `unregister_thread` and `find_thread` is one step.

  A block is named by its registration number.  A step through a block that
  has been freed is no step at all, and neither is one that ends in
  `fatal_error`; that neither happens is a theorem, not an assumption.  The
  message's `block` and the `tally` are bookkeeping for the statements: no
  step reads them.
-/

import NucleoBase.Lib.Run
import NucleoBase.ThreadX.Mutex
import Mathlib.Data.UInt

namespace NucleoBase
namespace Backend
namespace Threads

open Lib ThreadX

/-! ## State -/

/-- A `ThreadControl`, named by its registration number. -/
abbrev Block := Nat

abbrev RegistryId := UInt32

def cleanupQueueDepth : Nat := 16

/-- A thread that can call the thread functions. -/
inductive Agent
  | app (n : Nat)
  | std (block : Block)
  deriving DecidableEq, Repr

/-- Where a `std` thread is in `thread_entry`. -/
inductive EntryPc
  | dormant                     -- `tx_thread_create` has not succeeded yet
  | ready (parameter : RegistryId)
  | body                        -- in `control->entry`
  | callbacks                   -- in `cleanup_thread_runtime`
  | lock
  | mark                        -- owns the lifecycle mutex
  | unlock (enqueue : Bool)
  | putCompletion (enqueue : Bool)
  | send
  | leave
  | completed                   -- `TX_COMPLETED`
  deriving DecidableEq, Repr

structure ThreadControl where
  registryId : RegistryId
  thread : EntryPc := .dormant
  /-- The local `control` of this thread's `thread_entry`. -/
  control : Block := 0
  lifecycleMutex : Mutex Agent := .free
  completion : Nat := 0
  /-- The joiner whose acknowledgement semaphore is stored here. -/
  cleanupAck : Option Agent := none
  detached : Bool := false
  finished : Bool := false
  cleanupQueued : Bool := false
  deriving DecidableEq, Repr

/-- Where a call of `thread_create`, `thread_join` or `thread_detach` is. -/
inductive CallPc
  | create                      -- registered, before `tx_thread_create`
  | unregister                  -- `tx_thread_create` failed
  | discard
  | joinWait                    -- in `tx_semaphore_get(&control->completion)`
  | joinCreateAck
  | joinLock
  | joinTest                    -- owns the lifecycle mutex
  | joinUnlock (granted : Bool)
  | joinSend
  | joinAwait                   -- in `tx_semaphore_get(&acknowledgement)`
  | detachLock
  | detachTest                  -- owns the lifecycle mutex
  | detachUnlock (granted enqueue : Bool)
  | detachSend
  deriving DecidableEq, Repr

/-- A call in progress, the block it is about and the count of its local
    acknowledgement semaphore. -/
structure Call where
  block : Block
  pc : CallPc
  acknowledgement : Nat := 0
  deriving DecidableEq, Repr

/-- A message of the cleanup queue. -/
structure Message where
  registryId : RegistryId
  block : Block
  deriving DecidableEq, Repr

/-- Where the reaper is in its loop, with its locals. -/
inductive ReaperPc
  | receive
  | find (message : Message)
  | poll (control : Block)
  | readAck (control : Block)
  | destroy (control : Block) (cleanupAck : Option Agent)
  | unregister (control : Block) (cleanupAck : Option Agent)
  | free (control : Block) (cleanupAck : Option Agent)
  | putAck (control : Block) (cleanupAck : Option Agent)
  deriving DecidableEq, Repr

/-- Who has set `cleanup_queued` and has yet to send. -/
inductive Sender
  | thread
  | call (agent : Agent)
  deriving DecidableEq, Repr

/-- How far the cleanup of a block has come. -/
inductive Stage
  | unclaimed
  | claimed (sender : Sender)
  | queued
  | taken                       -- received by the reaper
  | released
  deriving DecidableEq, Repr

/-- What the owner of a thread may still do with its handle. -/
inductive Owner
  | absent                      -- no handle yet
  | available
  | calling (agent : Agent)
  | spent                       -- a join or detach has succeeded
  deriving DecidableEq, Repr

structure Tally where
  stage : Stage := .unclaimed
  owner : Owner := .absent
  enqueued : Nat := 0
  released : Nat := 0
  /-- Runs of the exit callbacks and thread-specific destructors. -/
  cleaned : Nat := 0
  deriving DecidableEq, Repr

structure State where
  control : Block → Option ThreadControl
  registry : List Block         -- from `registry_head` on
  nextRegistryId : RegistryId
  nextBlock : Block
  cleanupQueue : List Message
  call : Agent → Option Call
  reaper : ReaperPc
  tally : Block → Tally

/-! ## The registry and the cleanup queue -/

/-- `next_registry_id` after one more registration. -/
def succId (n : RegistryId) : RegistryId :=
  if n + 1 = 0 then 1 else n + 1

namespace State

def modify (s : State) (b : Block) (f : ThreadControl → ThreadControl) : State :=
  { s with control := Function.update s.control b ((s.control b).map f) }

def setThread (s : State) (b : Block) (pc : EntryPc) : State :=
  s.modify b fun c => { c with thread := pc }

def setCall (s : State) (a : Agent) (c : Option Call) : State :=
  { s with call := Function.update s.call a c }

def record (s : State) (b : Block) (f : Tally → Tally) : State :=
  { s with tally := Function.update s.tally b (f (s.tally b)) }

def registerThread (s : State) : State :=
  { s with
    control := Function.update s.control s.nextBlock (some { registryId := s.nextRegistryId })
    registry := s.nextBlock :: s.registry
    nextRegistryId := succId s.nextRegistryId
    nextBlock := s.nextBlock + 1 }

def unregisterThread (s : State) (b : Block) : State :=
  { s with registry := s.registry.erase b }

def findThread (s : State) (registryId : RegistryId) : Option Block :=
  s.registry.find? fun b => (s.control b).any fun c => c.registryId = registryId

/-- `enqueue_cleanup`; `none` while the queue is full. -/
def enqueueCleanup (s : State) (b : Block) : Option State :=
  (s.control b).bind fun c =>
    if s.cleanupQueue.length < cleanupQueueDepth then
      some ({ s with cleanupQueue := s.cleanupQueue ++ [Message.mk c.registryId b] }.record b
        fun t => { t with stage := .queued, enqueued := t.enqueued + 1 })
    else none

/-- `raw_mutex_get(&control->lifecycle_mutex)`. -/
def lock (s : State) (b : Block) (a : Agent) : Option State :=
  (s.control b).bind fun c =>
    (c.lifecycleMutex.get a).map fun m => s.modify b fun c => { c with lifecycleMutex := m }

/-- `raw_mutex_put(&control->lifecycle_mutex)`. -/
def unlock (s : State) (b : Block) (a : Agent) : Option State :=
  (s.control b).bind fun c =>
    (c.lifecycleMutex.put a).map fun m => s.modify b fun c => { c with lifecycleMutex := m }

/-- `k` sets `cleanup_queued` and is the one to send. -/
def claim (s : State) (b : Block) (k : Sender) : State :=
  (s.modify b fun c => { c with cleanupQueued := true }).record b
    fun t => { t with stage := .claimed k }

/-! ## The exiting thread and the reaper -/

/-- One step of `thread_entry` in the thread of block `b`, which is not in a
    call of its own. -/
def threadEntry (s : State) (b : Block) : Option State :=
  (s.control b).bind fun self =>
    if s.call (.std b) ≠ none then none else
    match self.thread with
    | .dormant | .completed => none
    | .ready parameter =>
        (s.findThread parameter).map fun d =>
          s.modify b fun c => { c with thread := .body, control := d }
    | .body => some (s.setThread b .callbacks)
    | .callbacks =>
        (s.control self.control).map fun _ =>
          (s.setThread b .lock).record self.control fun t => { t with cleaned := t.cleaned + 1 }
    | .lock => (s.lock self.control (.std b)).map fun s => s.setThread b .mark
    | .mark =>
        (s.control self.control).map fun c =>
          let enqueue := c.detached && !c.cleanupQueued
          let s := s.modify self.control fun c => { c with finished := true }
          (if enqueue then s.claim self.control .thread else s).setThread b (.unlock enqueue)
    | .unlock enqueue =>
        (s.unlock self.control (.std b)).map fun s => s.setThread b (.putCompletion enqueue)
    | .putCompletion enqueue =>
        (s.control self.control).map fun _ =>
          (s.modify self.control fun c => { c with completion := c.completion + 1 }).setThread b
            (if enqueue then .send else .leave)
    | .send => (s.enqueueCleanup self.control).map fun s => s.setThread b .leave
    | .leave => some (s.setThread b .completed)

/-- One step of `reaper_entry`. -/
def reaperEntry (s : State) : Option State :=
  match s.reaper with
  | .receive =>
      match s.cleanupQueue with
      | [] => none
      | m :: queue =>
          some ({ s with cleanupQueue := queue, reaper := .find m }.record m.block
            fun t => { t with stage := .taken })
  | .find m => (s.findThread m.registryId).map fun d => { s with reaper := .poll d }
  | .poll d =>
      (s.control d).map fun c =>
        if c.thread = .completed then { s with reaper := .readAck d }
        else s                                          -- `tx_thread_sleep(1U)`
  | .readAck d => (s.control d).map fun c => { s with reaper := .destroy d c.cleanupAck }
  | .destroy d ack => (s.control d).map fun _ => { s with reaper := .unregister d ack }
  | .unregister d ack => some { s.unregisterThread d with reaper := .free d ack }
  | .free d ack =>
      (s.control d).map fun _ =>
        { s with control := Function.update s.control d none, reaper := .putAck d ack }.record d
          fun t => { t with stage := .released, released := t.released + 1 }
  | .putAck _ none => some { s with reaper := .receive }
  | .putAck _ (some a) =>
      (s.call a).map fun c =>
        { s with reaper := .receive }.setCall a
          (some { c with acknowledgement := c.acknowledgement + 1 })

/-! ## The calls -/

/-- A join or detach returns an error; the handle stays usable. -/
def refuse (s : State) (a : Agent) (b : Block) : State :=
  (s.setCall a none).record b fun t => { t with owner := .available }

/-- A join or detach returns 0. -/
def succeed (s : State) (a : Agent) (b : Block) : State :=
  (s.setCall a none).record b fun t => { t with owner := .spent }

/-- The next step of the call `f` of agent `a`; `ok` is the outcome of a
    ThreadX call that may fail. -/
def callStep (s : State) (a : Agent) (f : Call) (ok : Bool) : Option State :=
  let b := f.block
  let continue_ (s : State) (pc : CallPc) : State := s.setCall a (some { f with pc })
  match f.pc with
  -- thread_create
  | .create =>
      (s.control b).map fun c =>
        if ok then
          ((s.setThread b (.ready c.registryId)).setCall a none).record b
            fun t => { t with owner := .available }
        else continue_ s .unregister
  | .unregister => some (continue_ (s.unregisterThread b) .discard)
  | .discard =>
      (s.control b).map fun _ => { s with control := Function.update s.control b none }.setCall a none
  -- thread_join
  | .joinWait =>
      if ok then
        (s.control b).bind fun c =>
          if 0 < c.completion then
            some (continue_ (s.modify b fun c => { c with completion := c.completion - 1 })
              .joinCreateAck)
          else none
      else some (s.refuse a b)                          -- wait aborted: `EINVAL`
  | .joinCreateAck =>
      if ok then some (s.setCall a (some { block := b, pc := .joinLock }))
      else some (s.refuse a b)                          -- `EAGAIN`
  | .joinLock => (s.lock b a).map fun s => continue_ s .joinTest
  | .joinTest =>
      (s.control b).map fun c =>
        if c.detached || c.cleanupQueued then continue_ s (.joinUnlock false)
        else
          continue_ ((s.modify b fun c => { c with cleanupAck := some a }).claim b (.call a))
            (.joinUnlock true)
  | .joinUnlock granted =>
      (s.unlock b a).map fun s => if granted then continue_ s .joinSend else s.refuse a b
  | .joinSend => (s.enqueueCleanup b).map fun s => continue_ s .joinAwait
  | .joinAwait => if 0 < f.acknowledgement then some (s.succeed a b) else none
  -- thread_detach
  | .detachLock => (s.lock b a).map fun s => continue_ s .detachTest
  | .detachTest =>
      (s.control b).map fun c =>
        if c.detached || c.cleanupQueued then continue_ s (.detachUnlock false false)
        else
          let s := s.modify b fun c => { c with detached := true }
          continue_ (if c.finished then s.claim b (.call a) else s) (.detachUnlock true c.finished)
  | .detachUnlock granted enqueue =>
      (s.unlock b a).map fun s =>
        if granted then if enqueue then continue_ s .detachSend else s.succeed a b
        else s.refuse a b
  | .detachSend => (s.enqueueCleanup b).map fun s => s.succeed a b

/-- `a` is not in a call, and a `std` thread is in its entry function or its
    exit callbacks. -/
def mayCall (s : State) : Agent → Bool
  | .app n => (s.call (.app n)).isNone
  | .std b =>
      (s.call (.std b)).isNone &&
        (s.control b).any fun c => c.thread = .body || c.thread = .callbacks

/-- `a` calls `thread_join` or `thread_detach` on `b`. -/
def beginCall (s : State) (a : Agent) (b : Block) (pc : CallPc) : State :=
  (s.setCall a (some { block := b, pc })).record b fun t => { t with owner := .calling a }

end State

/-! ## Steps -/

inductive Event
  | create (a : Agent)          -- `thread_create` up to `register_thread`
  | join (a : Agent) (b : Block)
  | detach (a : Agent) (b : Block)
  | call (a : Agent) (ok : Bool)
  | thread (b : Block)
  | reaper
  deriving DecidableEq, Repr

/-- One event.  Nobody has the handle of a block that was never registered. -/
def step (s : State) : Event → Option State
  | .create a =>
      if s.mayCall a then
        some (s.registerThread.setCall a (some { block := s.nextBlock, pc := .create }))
      else none
  | .join a b =>
      if s.mayCall a ∧ b < s.nextBlock then
        if a = .std b then some s                       -- `EDEADLK`
        else some (s.beginCall a b .joinWait)
      else none
  | .detach a b =>
      if s.mayCall a ∧ b < s.nextBlock then some (s.beginCall a b .detachLock) else none
  | .call a ok => (s.call a).bind fun f => s.callStep a f ok
  | .thread b => s.threadEntry b
  | .reaper => s.reaperEntry

/-- The backend as `initialize` leaves it. -/
def start : State where
  control := fun _ => none
  registry := []
  nextRegistryId := 1
  nextBlock := 0
  cleanupQueue := []
  call := fun _ => none
  reaper := .receive
  tally := fun _ => {}

def init (s : State) : Prop := s = start

/-- The callers' promise: a join or a detach begins only while the handle is
    available, that is, there is one of them at a time and none after one has
    succeeded.  A join of the calling thread itself changes nothing. -/
def Disciplined (s : State) : Event → Prop
  | .join a b => a = .std b ∨ (s.tally b).owner = .available
  | .detach _ b => (s.tally b).owner = .available
  | _ => True

instance (s : State) (e : Event) : Decidable (Disciplined s e) := by
  cases e <;> unfold Disciplined <;> infer_instance

end Threads
end Backend
end NucleoBase
