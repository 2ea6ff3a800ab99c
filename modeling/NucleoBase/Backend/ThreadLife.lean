/-
  NucleoBase.Backend.ThreadLife

  The life of one control block: what can happen to it between its
  registration and its release, seen apart from every other block.

  `Life` is all of the system's state that concerns one block, and `Life.Step`
  is the abstract machine it runs.  `Good` and `Owned` say what holds of a
  block in every state the machine reaches: `Good` whatever its callers do,
  `Owned` when a join or detach begins only while the handle is available.
-/

import NucleoBase.Backend.Threads
import Mathlib.Data.Nat.ModEq

namespace NucleoBase
namespace Backend
namespace Threads

open Lib ThreadX

/-! ## Registry ids -/

/-- The number of registry ids: 32 bits, 0 skipped. -/
def registryPeriod : Nat := 2 ^ 32 - 1

/-- The id of the `b`-th registration. -/
def idOf (b : Block) : RegistryId := UInt32.ofNat (b % registryPeriod + 1)

theorem idOf_toNat (b : Block) : (idOf b).toNat = b % registryPeriod + 1 := by
  simp only [idOf, registryPeriod, UInt32.toNat_ofNat']
  omega

theorem idOf_ne_zero (b : Block) : idOf b ≠ 0 := by
  intro h
  have := idOf_toNat b
  rw [h] at this
  simp at this

theorem succId_idOf (b : Block) : succId (idOf b) = idOf (b + 1) := by
  have hb := idOf_toNat b
  have hsum : (idOf b + 1).toNat = (b % registryPeriod + 2) % 2 ^ 32 := by
    rw [UInt32.toNat_add, hb]
    rfl
  apply UInt32.toNat.inj
  rw [idOf_toNat, succId]
  simp only [registryPeriod] at hsum ⊢
  split
  · rename_i h0
    rw [h0] at hsum
    simp at hsum ⊢
    omega
  · rename_i h0
    have hne : (idOf b + 1).toNat ≠ 0 := fun hn => h0 (UInt32.toNat.inj (by simpa using hn))
    rw [hsum] at hne ⊢
    omega

/-- Two registrations get the same id if and only if they are whole periods
    apart. -/
theorem idOf_eq_iff {b c : Block} (hcb : c < b) : idOf c = idOf b ↔ registryPeriod ∣ b - c := by
  rw [← UInt32.toNat_inj, idOf_toNat, idOf_toNat, Nat.add_right_cancel_iff,
    ← Nat.modEq_iff_dvd' (Nat.le_of_lt hcb)]
  rfl

/-! ## Program points -/

/-- `finished` has been stored. -/
def EntryPc.pastMark : EntryPc → Bool
  | .unlock _ | .putCompletion _ | .send | .leave | .completed => true
  | _ => false

/-- The exit callbacks have run. -/
def EntryPc.pastCallbacks : EntryPc → Bool
  | .lock | .mark | .unlock _ | .putCompletion _ | .send | .leave | .completed => true
  | _ => false

/-- The exiting thread has claimed the cleanup and not sent it. -/
def EntryPc.pending : EntryPc → Bool
  | .unlock enqueue | .putCompletion enqueue => enqueue
  | .send => true
  | _ => false

/-- The exiting thread owns its lifecycle mutex. -/
def EntryPc.holds : EntryPc → Bool
  | .mark | .unlock _ => true
  | _ => false

/-- The thread has found its block. -/
def EntryPc.started : EntryPc → Bool
  | .dormant | .ready _ => false
  | _ => true

/-- The thread runs its entry function or its exit callbacks. -/
def EntryPc.running : EntryPc → Bool
  | .body | .callbacks => true
  | _ => false

def CallPc.creating : CallPc → Bool
  | .create | .unregister | .discard => true
  | _ => false

/-- The call has claimed the cleanup and not sent it. -/
def CallPc.pending : CallPc → Bool
  | .joinUnlock granted => granted
  | .joinSend | .detachSend => true
  | .detachUnlock granted enqueue => granted && enqueue
  | _ => false

/-- The caller owns the lifecycle mutex. -/
def CallPc.holds : CallPc → Bool
  | .joinTest | .joinUnlock _ | .detachTest | .detachUnlock _ _ => true
  | _ => false

/-- A join that has consumed the completion and not tested the flags. -/
def CallPc.sawCompletion : CallPc → Bool
  | .joinCreateAck | .joinLock | .joinTest => true
  | _ => false

/-- A join whose acknowledgement semaphore is stored in the block. -/
def CallPc.acked : CallPc → Bool
  | .joinUnlock granted => granted
  | .joinSend | .joinAwait => true
  | _ => false

/-- A join or detach that has not tested the flags. -/
def CallPc.early : CallPc → Bool
  | .joinWait | .joinCreateAck | .joinLock | .joinTest | .detachLock | .detachTest => true
  | _ => false

/-- A detach that has stored `detached`. -/
def CallPc.detaching : CallPc → Bool
  | .detachUnlock granted _ => granted
  | .detachSend => true
  | _ => false

/-- A join or detach about to fail its test. -/
def CallPc.refused : CallPc → Bool
  | .joinUnlock granted | .detachUnlock granted _ => !granted
  | _ => false

/-- The block a reaper step is about. -/
def ReaperPc.block : ReaperPc → Option Block
  | .receive => none
  | .find m => some m.block
  | .poll d | .readAck d | .destroy d _ | .unregister d _ | .free d _ | .putAck d _ => some d

theorem ReaperPc.block_eq_none {r : ReaperPc} : r.block = none ↔ r = .receive := by
  cases r <;> simp [ReaperPc.block]

/-- The reaper works on a block that it has not freed. -/
def ReaperPc.working : ReaperPc → Bool
  | .receive | .putAck _ _ => false
  | _ => true

/-- The reaper has found the block's thread completed. -/
def ReaperPc.pastPoll : ReaperPc → Bool
  | .readAck _ | .destroy _ _ | .unregister _ _ | .free _ _ => true
  | _ => false

/-- The reaper has taken the block off the registry and not freed it. -/
def ReaperPc.unregistered : ReaperPc → Bool
  | .free _ _ => true
  | _ => false

/-- The acknowledgement the reaper has read from a block it has not freed. -/
def ReaperPc.readFrom : ReaperPc → Option (Option Agent)
  | .destroy _ ack | .unregister _ ack | .free _ ack => some ack
  | _ => none

theorem EntryPc.not_holds_of_running {pc : EntryPc} (h : pc.running = true) : pc.holds = false := by
  cases pc <;> simp_all [EntryPc.running, EntryPc.holds]

theorem CallPc.acked_iff {pc : CallPc} (hp : pc.pending = false) :
    pc.acked = true ↔ pc = .joinAwait := by
  cases pc <;> simp_all [CallPc.acked, CallPc.pending]

theorem ReaperPc.working_of_readFrom {r : ReaperPc} {ack : Option Agent}
    (h : r.readFrom = some ack) : r.working = true := by
  cases r <;> simp_all [ReaperPc.readFrom, ReaperPc.working]

/-! ## One block -/

structure Life where
  control : Option ThreadControl := none
  registered : Bool := false
  /-- The calls on this block. -/
  call : Agent → Option Call := fun _ => none
  /-- Its messages in the cleanup queue. -/
  queued : Nat := 0
  /-- The reaper while it works on this block, `receive` otherwise. -/
  reaper : ReaperPc := .receive
  tally : Tally := {}

namespace Life

/-- The block's contents become `c`. -/
def put (l : Life) (c : ThreadControl) : Life :=
  { l with control := some c }

def setCall (l : Life) (a : Agent) (c : Option Call) : Life :=
  { l with call := Function.update l.call a c }

def record (l : Life) (f : Tally → Tally) : Life :=
  { l with tally := f l.tally }

def claim (l : Life) (k : Sender) : Life :=
  l.record fun t => { t with stage := .claimed k }

def enqueue (l : Life) : Life :=
  { l with queued := l.queued + 1 }.record
    fun t => { t with stage := .queued, enqueued := t.enqueued + 1 }

def setOwner (l : Life) (o : Owner) : Life :=
  l.record fun t => { t with owner := o }

/-- What can happen to block `b`.  `idle` is that its thread is not in a call,
    `mayBegin` what the callers promise when they begin a join or a detach. -/
inductive Step (b : Block) (idle : Prop) (mayBegin : Life → Prop) : Life → Life → Prop
  | register (a : Agent) : a ≠ .std b →
      Step b idle mayBegin {}
        { control := some { registryId := idOf b }, registered := true
          call := Function.update (fun _ => none) a (some { block := b, pc := .create }) }
  -- thread_entry
  | start {l c p} : idle → l.control = some c → l.call (.std b) = none → c.thread = .ready p →
      Step b idle mayBegin l (l.put { c with thread := .body, control := b })
  | bodyEnd {l c} : idle → l.control = some c → l.call (.std b) = none → c.thread = .body →
      Step b idle mayBegin l (l.put { c with thread := .callbacks })
  | callbacksEnd {l c} : idle → l.control = some c → l.call (.std b) = none → c.thread = .callbacks →
      Step b idle mayBegin l
        ((l.put { c with thread := .lock }).record fun t => { t with cleaned := t.cleaned + 1 })
  | lock {l c m} : idle → l.control = some c → l.call (.std b) = none → c.thread = .lock →
      c.lifecycleMutex.get (.std b) = some m →
      Step b idle mayBegin l (l.put { c with lifecycleMutex := m, thread := .mark })
  | mark {l c} : idle → l.control = some c → l.call (.std b) = none → c.thread = .mark →
      (c.detached && !c.cleanupQueued) = false →
      Step b idle mayBegin l (l.put { c with finished := true, thread := .unlock false })
  | markClaim {l c} : idle → l.control = some c → l.call (.std b) = none → c.thread = .mark →
      (c.detached && !c.cleanupQueued) = true →
      Step b idle mayBegin l ((l.put { c with
        finished := true, cleanupQueued := true, thread := .unlock true }).claim .thread)
  | unlock {l c m e} : idle → l.control = some c → l.call (.std b) = none → c.thread = .unlock e →
      c.lifecycleMutex.put (.std b) = some m →
      Step b idle mayBegin l (l.put { c with lifecycleMutex := m, thread := .putCompletion e })
  | putCompletion {l c e} : idle → l.control = some c → l.call (.std b) = none →
      c.thread = .putCompletion e →
      Step b idle mayBegin l (l.put { c with
        completion := c.completion + 1, thread := if e then .send else .leave })
  | send {l c} : idle → l.control = some c → l.call (.std b) = none → c.thread = .send →
      Step b idle mayBegin l (l.put { c with thread := .leave }).enqueue
  | leave {l c} : idle → l.control = some c → l.call (.std b) = none → c.thread = .leave →
      Step b idle mayBegin l (l.put { c with thread := .completed })
  -- thread_create
  | created {l a f c} : l.call a = some f → f.pc = .create → l.control = some c →
      Step b idle mayBegin l (((l.put { c with thread := .ready c.registryId }).setCall a none).setOwner
        .available)
  | createFailed {l a f c} : l.call a = some f → f.pc = .create → l.control = some c →
      Step b idle mayBegin l (l.setCall a (some { f with pc := .unregister }))
  | unregister {l a f} : l.call a = some f → f.pc = .unregister →
      Step b idle mayBegin l ({ l with registered := false }.setCall a (some { f with pc := .discard }))
  | discard {l a f c} : l.call a = some f → f.pc = .discard → l.control = some c →
      Step b idle mayBegin l ({ l with control := none }.setCall a none)
  -- thread_join and thread_detach
  | beginCall {l a pc} : l.call a = none → pc = .joinWait ∨ pc = .detachLock → mayBegin l →
      (∀ c, a = .std b → l.control = some c → c.thread.running = true) →
      Step b idle mayBegin l ((l.setCall a (some { block := b, pc })).setOwner (.calling a))
  | refuse {l a f} : l.call a = some f → f.pc = .joinWait ∨ f.pc = .joinCreateAck →
      Step b idle mayBegin l ((l.setCall a none).setOwner .available)
  | joinWait {l a f c} : l.call a = some f → f.pc = .joinWait → l.control = some c →
      0 < c.completion →
      Step b idle mayBegin l ((l.put { c with completion := c.completion - 1 }).setCall a
        (some { f with pc := .joinCreateAck }))
  | joinCreateAck {l a f} : l.call a = some f → f.pc = .joinCreateAck →
      Step b idle mayBegin l (l.setCall a (some { block := b, pc := .joinLock }))
  | callLock {l a f c m pc} : l.call a = some f → l.control = some c →
      f.pc = .joinLock ∧ pc = .joinTest ∨ f.pc = .detachLock ∧ pc = .detachTest →
      c.lifecycleMutex.get a = some m →
      Step b idle mayBegin l ((l.put { c with lifecycleMutex := m }).setCall a (some { f with pc }))
  | testRefused {l a f c pc} : l.call a = some f → l.control = some c →
      f.pc = .joinTest ∧ pc = .joinUnlock false ∨
        f.pc = .detachTest ∧ pc = .detachUnlock false false →
      (c.detached || c.cleanupQueued) = true →
      Step b idle mayBegin l (l.setCall a (some { f with pc }))
  | joinTest {l a f c} : l.call a = some f → l.control = some c → f.pc = .joinTest →
      (c.detached || c.cleanupQueued) = false →
      Step b idle mayBegin l (((l.put { c with cleanupAck := some a, cleanupQueued := true }).claim
        (.call a)).setCall a (some { f with pc := .joinUnlock true }))
  | detachTest {l a f c} : l.call a = some f → l.control = some c → f.pc = .detachTest →
      (c.detached || c.cleanupQueued) = false → c.finished = false →
      Step b idle mayBegin l ((l.put { c with detached := true }).setCall a
        (some { f with pc := .detachUnlock true false }))
  | detachClaim {l a f c} : l.call a = some f → l.control = some c → f.pc = .detachTest →
      (c.detached || c.cleanupQueued) = false → c.finished = true →
      Step b idle mayBegin l (((l.put { c with detached := true, cleanupQueued := true }).claim
        (.call a)).setCall a (some { f with pc := .detachUnlock true true }))
  | unlockRefuse {l a f c m} : l.call a = some f → l.control = some c →
      f.pc = .joinUnlock false ∨ (∃ e, f.pc = .detachUnlock false e) →
      c.lifecycleMutex.put a = some m →
      Step b idle mayBegin l (((l.put { c with lifecycleMutex := m }).setCall a none).setOwner
        .available)
  | unlockSend {l a f c m pc} : l.call a = some f → l.control = some c →
      f.pc = .joinUnlock true ∧ pc = .joinSend ∨ f.pc = .detachUnlock true true ∧ pc = .detachSend →
      c.lifecycleMutex.put a = some m →
      Step b idle mayBegin l ((l.put { c with lifecycleMutex := m }).setCall a (some { f with pc }))
  | unlockDetached {l a f c m} : l.call a = some f → l.control = some c →
      f.pc = .detachUnlock true false → c.lifecycleMutex.put a = some m →
      Step b idle mayBegin l (((l.put { c with lifecycleMutex := m }).setCall a none).setOwner .spent)
  | joinSend {l a f c} : l.call a = some f → l.control = some c → f.pc = .joinSend →
      Step b idle mayBegin l (l.enqueue.setCall a (some { f with pc := .joinAwait }))
  | detachSend {l a f c} : l.call a = some f → l.control = some c → f.pc = .detachSend →
      Step b idle mayBegin l ((l.enqueue.setCall a none).setOwner .spent)
  | joinAwait {l a f} : l.call a = some f → f.pc = .joinAwait → 0 < f.acknowledgement →
      Step b idle mayBegin l ((l.setCall a none).setOwner .spent)
  -- reaper_entry
  | receive {l m} : l.reaper = .receive → 0 < l.queued → m.block = b →
      Step b idle mayBegin l ({ l with queued := l.queued - 1, reaper := .find m }.record
        fun t => { t with stage := .taken })
  | find {l m} : l.reaper = .find m → Step b idle mayBegin l { l with reaper := .poll b }
  | poll {l c} : l.reaper = .poll b → l.control = some c → c.thread = .completed →
      Step b idle mayBegin l { l with reaper := .readAck b }
  | readAck {l c} : l.reaper = .readAck b → l.control = some c →
      Step b idle mayBegin l { l with reaper := .destroy b c.cleanupAck }
  | destroy {l ack} : l.reaper = .destroy b ack →
      Step b idle mayBegin l { l with reaper := .unregister b ack }
  | reaperUnregister {l ack} : l.reaper = .unregister b ack →
      Step b idle mayBegin l { l with registered := false, reaper := .free b ack }
  | free {l ack c} : l.reaper = .free b ack → l.control = some c →
      Step b idle mayBegin l ({ l with control := none, reaper := .putAck b ack }.record
        fun t => { t with stage := .released, released := t.released + 1 })
  | putNoAck {l} : l.reaper = .putAck b none → Step b idle mayBegin l { l with reaper := .receive }
  | putAck {l a f} : l.reaper = .putAck b (some a) → l.call a = some f →
      Step b idle mayBegin l ({ l with reaper := .receive }.setCall a
        (some { f with acknowledgement := f.acknowledgement + 1 }))

end Life

/-! ## What holds of every block -/

/-- What holds of a block `b` that has not been freed; `c` is its contents. -/
structure Live (b : Block) (c : ThreadControl) (l : Life) : Prop where
  ident : c.registryId = idOf b
  parameter : ∀ p, c.thread = .ready p → p = idOf b
  self : c.thread.started = true → c.control = b
  found : l.registered = false → l.reaper.unregistered = true ∨ c.thread = .dormant
  creating : ∀ a f, l.call a = some f → f.pc.creating = true → c.thread = .dormant
  inCall : ∀ f, l.call (.std b) = some f → c.thread.running = true
  finished : c.finished = c.thread.pastMark
  /-- The mutex is held exactly by the agent inside a critical section. -/
  held : ∀ a n, c.lifecycleMutex = .held a n →
    n = 0 ∧ (a = .std b ∧ c.thread.holds = true ∨ (l.call a).any (·.pc.holds) = true)
  entryHolds : c.thread.holds = true → c.lifecycleMutex = .held (.std b) 0
  callHolds : ∀ a f, l.call a = some f → f.pc.holds = true → c.lifecycleMutex = .held a 0
  flag : c.cleanupQueued = true ↔ l.tally.stage ≠ .unclaimed
  flagFinished : c.cleanupQueued = true → c.finished = true
  detached : c.detached = true → c.finished = true → c.cleanupQueued = true
  entrySends : c.thread.pending = true ↔ l.tally.stage = .claimed .thread
  unreleased : l.tally.stage ≠ .released
  completion : 0 < c.completion → c.finished = true
  sawCompletion : ∀ a f, l.call a = some f → f.pc.sawCompletion = true → c.finished = true
  ack : ∀ a, c.cleanupAck = some a →
    (l.call a).any (fun f => f.pc.acked && f.acknowledgement == 0) = true
  completed : l.reaper.pastPoll = true → c.thread = .completed
  readAck : ∀ ack, l.reaper.readFrom = some ack → c.cleanupAck = ack
  cleaned : l.tally.cleaned = if c.thread.pastCallbacks = true then 1 else 0

/-- What holds of every block `b`, whatever its callers do. -/
structure Good (b : Block) (l : Life) : Prop where
  live : ∀ c, l.control = some c → Live b c l
  gone : l.control = none → l.tally.stage = .unclaimed ∨ l.tally.stage = .released
  registered : l.registered = true → l.control ≠ none
  creating : ∀ a f, l.call a = some f → f.pc.creating = true → l.control ≠ none
  created : ∀ a f, l.call a = some f → f.pc = .create → l.registered = true
  discarding : ∀ a f, l.call a = some f → f.pc = .discard → l.registered = false
  creator : ∀ a a' f f', l.call a = some f → l.call a' = some f' → f.pc.creating = true →
    f'.pc.creating = true → a = a'
  /-- Exactly one sender has claimed a block in stage `claimed`. -/
  callSends : ∀ a f, l.call a = some f → f.pc.pending = true → l.tally.stage = .claimed (.call a)
  sender : ∀ a, l.tally.stage = .claimed (.call a) → (l.call a).any (·.pc.pending) = true
  awaiting : ∀ a f, l.call a = some f → f.pc = .joinAwait →
    l.tally.stage = .queued ∨ l.tally.stage = .taken ∨ l.tally.stage = .released
  posted : ∀ a f, l.call a = some f → 0 < f.acknowledgement →
    f.pc = .joinAwait ∧ l.tally.stage = .released
  queue : l.queued = if l.tally.stage = .queued then 1 else 0
  reaper : l.reaper.working = true ↔ l.tally.stage = .taken
  freeing : l.reaper.unregistered = true → l.registered = false
  putAck : ∀ d a, l.reaper = .putAck d (some a) →
    l.tally.stage = .released ∧
      (l.call a).any (fun f => f.pc == .joinAwait && f.acknowledgement == 0) = true
  enqueued : l.tally.enqueued =
    if l.tally.stage = .queued ∨ l.tally.stage = .taken ∨ l.tally.stage = .released then 1 else 0
  releasedOnce : l.tally.released = if l.tally.stage = .released then 1 else 0

/-- The handle of the block can be used to begin a join or a detach. -/
def Life.Available (l : Life) : Prop := l.tally.owner = .available

/-- What holds of every block in addition when its owner begins a join or a
    detach only while the handle is available. -/
structure Owned (l : Life) : Prop where
  creating : ∀ a f, l.call a = some f → f.pc.creating = true → l.tally.owner = .absent
  busy : ∀ a f, l.call a = some f → f.pc.creating = false → l.tally.owner = .calling a
  idle : l.tally.owner = .absent ∨ l.tally.owner = .available →
    l.tally.stage = .unclaimed ∧ ∀ c, l.control = some c → c.detached = false
  early : ∀ a f, l.call a = some f → f.pc.early = true →
    l.tally.stage = .unclaimed ∧ ∀ c, l.control = some c → c.detached = false
  detaching : ∀ a f, l.call a = some f → f.pc.detaching = true →
    ∀ c, l.control = some c → c.detached = true
  leaving : ∀ a f, l.call a = some f → f.pc = .detachUnlock true false →
    l.tally.stage = .unclaimed ∧ ∀ c, l.control = some c → c.finished = false
  granted : ∀ a f, l.call a = some f → f.pc.refused = false
  live : l.tally.owner ≠ .absent → l.tally.stage = .unclaimed → l.control ≠ none
  spent : l.tally.owner = .spent → ∀ c, l.control = some c → c.detached = true

end Threads
end Backend
end NucleoBase
