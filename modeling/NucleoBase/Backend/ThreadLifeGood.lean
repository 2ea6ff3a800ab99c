/-
  NucleoBase.Backend.ThreadLifeGood

  `Good` is kept by everything that can happen to a block: one lemma for each
  step of the exiting thread, of a call and of the reaper, each of which names
  only the facts its step changes.
-/

import NucleoBase.Backend.ThreadLife
import Mathlib.Tactic.Common

namespace NucleoBase
namespace Backend
namespace Threads

open Lib ThreadX

/-! ## Steps keep `Good` -/

section Preservation

variable {b : Block} {l l' : Life} {a : Agent} {f : Call} {c : ThreadControl}
  {m : Mutex Agent} {pc : CallPc} {e : EntryPc}

attribute [local grind =] EntryPc.pastMark EntryPc.pastCallbacks EntryPc.pending EntryPc.holds
  EntryPc.running EntryPc.started CallPc.creating CallPc.pending CallPc.holds CallPc.sawCompletion CallPc.acked
  ReaperPc.working ReaperPc.pastPoll ReaperPc.unregistered ReaperPc.readFrom
  Function.update_apply Option.any_some Option.any_none

/-- Changing the contents of a block keeps `Good` if it keeps `Live`. -/
theorem Good.put (g : Good b l) (hl : Live b c l) : Good b (l.put c) :=
  { g with
    live := fun c' hc' => by cases hc'; exact { hl with }
    gone := fun hn => by cases hn
    registered := fun _ hn => by cases hn
    creating := fun _ _ _ _ hn => by cases hn }

/-- Whose turn it is to use the handle is bookkeeping. -/
theorem Good.setOwner (g : Good b l) (o : Owner) : Good b (l.setOwner o) :=
  { g with live := fun c hc => { g.live c hc with } }

/-! ### The exiting thread -/

/-- A move of the thread that changes nothing others look at. -/
theorem Live.moveThread (hl : Live b c l) (idle : l.call (.std b) = none)
    (hs : c.thread.started = true) (he : e.started = true) (hc : c.thread ≠ .completed)
    (hm : e.pastMark = c.thread.pastMark) (hh : e.holds = c.thread.holds)
    (hp : e.pending = c.thread.pending) (hcb : e.pastCallbacks = c.thread.pastCallbacks) :
    Live b { c with thread := e } l :=
  { hl with
    parameter := fun p hp => by
      change e = _ at hp
      rw [hp] at he
      cases he
    self := fun _ => hl.self hs
    found := fun h => .inl ((hl.found h).resolve_right (by rintro hd; rw [hd] at hs; cases hs))
    creating := fun a f ha hf => by rw [hl.creating a f ha hf] at hs; cases hs
    inCall := by simp [idle]
    finished := by rw [hm]; exact hl.finished
    held := by rw [hh]; exact hl.held
    entryHolds := by rw [hh]; exact hl.entryHolds
    entrySends := by rw [hp]; exact hl.entrySends
    completed := fun h => absurd (hl.completed h) hc
    cleaned := by rw [hcb]; exact hl.cleaned }

theorem Good.start (g : Good b l) (h : l.control = some c) (idle : l.call (.std b) = none)
    {p : RegistryId} (ht : c.thread = .ready p) :
    Good b (l.put { c with thread := .body, control := b }) := by
  have hl := g.live c h
  exact g.put { hl with
    parameter := by simp
    self := fun _ => rfl
    found := by have := hl.found; grind
    creating := by have := hl.creating; grind
    inCall := by simp [idle]
    finished := by have := hl.finished; grind
    held := by have := hl.held; grind
    entryHolds := by grind
    entrySends := by have := hl.entrySends; grind
    completed := by have := hl.completed; grind
    cleaned := by have := hl.cleaned; grind }

theorem Good.callbacksEnd (g : Good b l) (h : l.control = some c) (idle : l.call (.std b) = none) (ht : c.thread = .callbacks) :
    Good b ((l.put { c with thread := .lock }).record fun t => { t with cleaned := t.cleaned + 1 }) := by
  have hl := g.live c h
  simp only [Life.put, Life.record]
  exact { g with
    live := fun c' hc' => by
      cases hc'
      exact { hl with
        parameter := by grind
        self := by have := hl.self; grind
        found := by have := hl.found; grind
        creating := by have := hl.creating; grind
        inCall := by simp [idle]
        finished := by have := hl.finished; grind
        held := by have := hl.held; grind
        entryHolds := by grind
        entrySends := by have := hl.entrySends; grind
        completed := by have := hl.completed; grind
        cleaned := by have := hl.cleaned; grind }
    gone := fun hn => by cases hn
    registered := fun _ hn => by cases hn
    creating := fun _ _ _ _ hn => by cases hn }

/-- An agent outside the critical section gets the mutex only when it is free. -/
theorem Live.get_free (hl : Live b c l) (ht : ¬ (a = .std b ∧ c.thread.holds = true))
    (hc : ¬ (l.call a).any (·.pc.holds) = true) (hm : c.lifecycleMutex.get a = some m) :
    c.lifecycleMutex = .free ∧ m = .held a 0 := by
  rcases Mutex.get_eq_some.mp hm with h | ⟨n, hn, -⟩
  · exact h
  · rcases (hl.held a n hn).2 with h | h
    · exact absurd h ht
    · exact absurd h hc

/-- The agent inside the critical section frees the mutex. -/
theorem put_free (hh : c.lifecycleMutex = .held a 0) (hm : c.lifecycleMutex.put a = some m) :
    m = .free := by
  rw [hh] at hm
  simpa using hm.symm

theorem Good.lock (g : Good b l) (h : l.control = some c) (idle : l.call (.std b) = none)
    (ht : c.thread = .lock) (hm : c.lifecycleMutex.get (.std b) = some m) :
    Good b (l.put { c with lifecycleMutex := m, thread := .mark }) := by
  have hl := g.live c h
  obtain ⟨hfree, rfl⟩ := hl.get_free (by simp [ht, EntryPc.holds]) (by simp [idle]) hm
  exact g.put { hl with
    parameter := by grind
    self := by have := hl.self; grind
    found := by have := hl.found; grind
    creating := by have := hl.creating; grind
    inCall := by simp [idle]
    finished := by have := hl.finished; grind
    held := by grind
    entryHolds := fun _ => rfl
    callHolds := by have := hl.callHolds; grind
    entrySends := by have := hl.entrySends; grind
    completed := by have := hl.completed; grind
    cleaned := by have := hl.cleaned; grind }

theorem Good.mark (g : Good b l) (h : l.control = some c) (idle : l.call (.std b) = none) (ht : c.thread = .mark)
    (hq : (c.detached && !c.cleanupQueued) = false) :
    Good b (l.put { c with finished := true, thread := .unlock false }) := by
  have hl := g.live c h
  have hqueued : c.cleanupQueued = false := by
    have := hl.flagFinished
    have := hl.finished
    grind
  exact g.put { hl with
    parameter := by grind
    self := by have := hl.self; grind
    found := by have := hl.found; grind
    creating := by have := hl.creating; grind
    inCall := by simp [idle]
    finished := rfl
    held := by have := hl.held; grind
    entryHolds := fun _ => hl.entryHolds (by simp [ht, EntryPc.holds])
    flagFinished := fun _ => rfl
    detached := by grind
    entrySends := by have := hl.entrySends; grind
    completion := fun _ => rfl
    sawCompletion := fun _ _ _ _ => rfl
    completed := by have := hl.completed; grind
    cleaned := by have := hl.cleaned; grind }

theorem Good.markClaim (g : Good b l) (h : l.control = some c) (idle : l.call (.std b) = none) (ht : c.thread = .mark)
    (hq : (c.detached && !c.cleanupQueued) = true) :
    Good b ((l.put { c with
      finished := true, cleanupQueued := true, thread := .unlock true }).claim .thread) := by
  have hl := g.live c h
  have hunclaimed : l.tally.stage = .unclaimed := by
    have := hl.flag
    grind
  simp only [Life.put, Life.claim, Life.record]
  exact { g with
    live := fun c' hc' => by
      cases hc'
      exact { hl with
        parameter := by grind
        self := by have := hl.self; grind
        found := by have := hl.found; grind
        creating := by have := hl.creating; grind
        inCall := by simp [idle]
        finished := rfl
        held := by have := hl.held; grind
        entryHolds := fun _ => hl.entryHolds (by simp [ht, EntryPc.holds])
        flag := by simp
        flagFinished := fun _ => rfl
        detached := fun _ _ => rfl
        entrySends := by simp [EntryPc.pending]
        unreleased := by simp
        completion := fun _ => rfl
        sawCompletion := fun _ _ _ _ => rfl
        completed := by have := hl.completed; grind
        cleaned := by have := hl.cleaned; grind }
    gone := fun hn => by cases hn
    registered := fun _ hn => by cases hn
    creating := fun _ _ _ _ hn => by cases hn
    callSends := by have := g.callSends; grind
    sender := by grind
    awaiting := by have := g.awaiting; grind
    posted := by have := g.posted; grind
    queue := by have := g.queue; grind
    reaper := by have := g.reaper; grind
    putAck := by have := g.putAck; grind
    enqueued := by have := g.enqueued; grind
    releasedOnce := by have := g.releasedOnce; grind }

theorem Good.unlock (g : Good b l) (h : l.control = some c) {e : Bool}
    (idle : l.call (.std b) = none) (ht : c.thread = .unlock e)
    (hm : c.lifecycleMutex.put (.std b) = some m) :
    Good b (l.put { c with lifecycleMutex := m, thread := .putCompletion e }) := by
  have hl := g.live c h
  have hmine := hl.entryHolds (by simp [ht, EntryPc.holds])
  obtain rfl := put_free hmine hm
  exact g.put { hl with
    parameter := by grind
    self := by have := hl.self; grind
    found := by have := hl.found; grind
    creating := by have := hl.creating; grind
    inCall := by simp [idle]
    finished := by have := hl.finished; grind
    held := by grind
    entryHolds := by grind
    -- the mutex has one owner, and the exiting thread is in no call
    callHolds := by have := hl.callHolds; grind
    entrySends := by have := hl.entrySends; grind
    completed := by have := hl.completed; grind
    cleaned := by have := hl.cleaned; grind }

theorem Good.putCompletion (g : Good b l) (h : l.control = some c) {e : Bool}
    (idle : l.call (.std b) = none) (ht : c.thread = .putCompletion e) :
    Good b (l.put { c with
      completion := c.completion + 1, thread := if e then .send else .leave }) := by
  have hl := g.live c h
  exact g.put { hl with
    parameter := by grind
    self := by have := hl.self; grind
    found := by have := hl.found; grind
    creating := by have := hl.creating; grind
    inCall := by simp [idle]
    finished := by have := hl.finished; grind
    held := by have := hl.held; grind
    entryHolds := by grind
    entrySends := by have := hl.entrySends; grind
    completion := by have := hl.finished; grind
    completed := by have := hl.completed; grind
    cleaned := by have := hl.cleaned; grind }

/-! ### Sending the block to the reaper -/

/-- A block that somebody has claimed is live. -/
theorem Good.claimed_live (g : Good b l) {k : Sender} (hk : l.tally.stage = .claimed k) :
    ∃ c, l.control = some c := by
  cases h : l.control with
  | some c => exact ⟨c, rfl⟩
  | none => rcases g.gone h with h' | h' <;> simp [hk] at h'

theorem Good.send (g : Good b l) (h : l.control = some c) (idle : l.call (.std b) = none) (ht : c.thread = .send) :
    Good b (l.put { c with thread := .leave }).enqueue := by
  have hl := g.live c h
  have hk : l.tally.stage = .claimed .thread := hl.entrySends.mp (by simp [ht, EntryPc.pending])
  simp only [Life.put, Life.enqueue, Life.record]
  exact { g with
    live := fun c' hc' => by
      cases hc'
      exact { hl with
        parameter := by grind
        self := by have := hl.self; grind
        found := by have := hl.found; grind
        creating := by have := hl.creating; grind
        inCall := by simp [idle]
        finished := by have := hl.finished; grind
        held := by have := hl.held; grind
        entryHolds := by grind
        flag := by have := hl.flag; grind
        entrySends := by grind
        unreleased := by grind
        completed := by have := hl.completed; grind
        cleaned := by have := hl.cleaned; grind }
    gone := fun hn => by cases hn
    registered := fun _ hn => by cases hn
    creating := fun _ _ _ _ hn => by cases hn
    callSends := by have := g.callSends; grind
    sender := by grind
    awaiting := by grind
    posted := by have := g.posted; grind
    queue := by have := g.queue; grind
    reaper := by have := g.reaper; grind
    putAck := by have := g.putAck; grind
    enqueued := by have := g.enqueued; grind
    releasedOnce := by have := g.releasedOnce; grind }

/-- A join waits for its acknowledgement once it has sent, a detach returns. -/
theorem Good.callSend (g : Good b l) (ha : l.call a = some f) {x : Option Call}
    (hx : f.pc = .joinSend ∧ x = some { f with pc := .joinAwait } ∨ f.pc = .detachSend ∧ x = none) :
    Good b (l.enqueue.setCall a x) := by
  have hk : l.tally.stage = .claimed (.call a) := by
    have := g.callSends a f ha
    grind
  simp only [Life.enqueue, Life.record, Life.setCall]
  exact { g with
    live := fun c h => by
      have hl := g.live c h
      exact { hl with
        creating := by have := hl.creating; grind
        inCall := by have := hl.inCall; grind
        held := by have := hl.held; grind
        callHolds := by have := hl.callHolds; grind
        flag := by have := hl.flag; grind
        entrySends := by have := hl.entrySends; grind
        unreleased := by grind
        sawCompletion := by have := hl.sawCompletion; grind
        ack := by have := hl.ack; grind }
    gone := by have := g.gone; grind
    creating := by have := g.creating; grind
    created := by have := g.created; grind
    discarding := by have := g.discarding; grind
    creator := by have := g.creator; grind
    callSends := by have := g.callSends; grind
    sender := by grind
    awaiting := by grind
    posted := by have := g.posted; grind
    queue := by have := g.queue; grind
    reaper := by have := g.reaper; grind
    putAck := by have := g.putAck; grind
    enqueued := by have := g.enqueued; grind
    releasedOnce := by have := g.releasedOnce; grind }

/-! ### Creating a thread -/

theorem Good.absent : Good b {} where
  live := fun _ h => by cases h
  gone := fun _ => .inl rfl
  registered := fun h => by cases h
  creating := fun _ _ h => by cases h
  created := fun _ _ h => by cases h
  discarding := fun _ _ h => by cases h
  creator := fun _ _ _ _ h => by cases h
  callSends := fun _ _ h => by cases h
  sender := fun _ h => by cases h
  awaiting := fun _ _ h => by cases h
  posted := fun _ _ h => by cases h
  queue := rfl
  reaper := by simp [ReaperPc.working]
  freeing := by simp [ReaperPc.unregistered]
  putAck := fun _ _ h => by cases h
  enqueued := rfl
  releasedOnce := rfl

theorem Good.register (hab : a ≠ .std b) :
    Good b { control := some { registryId := idOf b }, registered := true
             call := Function.update (fun _ => none) a (some { block := b, pc := .create }) } where
  live := fun c hc => by
    cases hc
    exact {
      ident := rfl
      parameter := by simp
      self := by simp [EntryPc.started]
      found := by grind
      creating := by grind
      inCall := by grind
      finished := rfl
      held := by grind
      entryHolds := by grind
      callHolds := by grind
      flag := by simp
      flagFinished := by simp
      detached := by simp
      entrySends := by grind
      unreleased := by simp
      completion := by simp
      sawCompletion := by grind
      ack := by simp
      completed := by simp [ReaperPc.pastPoll]
      readAck := by simp [ReaperPc.readFrom]
      cleaned := by grind }
  gone := fun _ => .inl rfl
  registered := by simp
  creating := by simp
  created := by simp
  discarding := by grind
  creator := by grind
  callSends := by grind
  sender := by grind
  awaiting := by grind
  posted := by grind
  queue := rfl
  reaper := by simp [ReaperPc.working]
  freeing := by simp [ReaperPc.unregistered]
  putAck := by grind
  enqueued := rfl
  releasedOnce := rfl

/-- A block whose thread does not exist yet has been claimed by nobody. -/
theorem Live.dormant_unclaimed (hl : Live b c l) (hd : c.thread = .dormant) :
    l.tally.stage = .unclaimed ∧ c.finished = false := by
  have hfinished : c.finished = false := by rw [hl.finished, hd]; rfl
  refine ⟨?_, hfinished⟩
  have := hl.flag
  have := hl.flagFinished
  grind

theorem Good.created_ (g : Good b l) (ha : l.call a = some f) (hf : f.pc = .create)
    (h : l.control = some c) :
    Good b ((l.put { c with thread := .ready c.registryId }).setCall a none) := by
  have hl := g.live c h
  have hd := hl.creating a f ha (by simp [hf, CallPc.creating])
  have hr := g.created a f ha hf
  simp only [Life.put, Life.setCall]
  exact { g with
    live := fun c' hc' => by
      cases hc'
      exact { hl with
        parameter := by have := hl.ident; grind
        self := by simp [EntryPc.started]
        found := by grind
        creating := by have := g.creator; grind
        inCall := by have := hl.inCall; grind
        finished := by have := hl.finished; grind
        held := by have := hl.held; grind
        entryHolds := by grind
        callHolds := by have := hl.callHolds; grind
        entrySends := by have := hl.entrySends; grind
        sawCompletion := by have := hl.sawCompletion; grind
        ack := by have := hl.ack; grind
        completed := by have := hl.completed; grind
        cleaned := by have := hl.cleaned; grind }
    gone := fun hn => by cases hn
    registered := fun _ hn => by cases hn
    creating := fun _ _ _ _ hn => by cases hn
    created := by have := g.created; grind
    discarding := by have := g.discarding; grind
    creator := by have := g.creator; grind
    callSends := by have := g.callSends; grind
    sender := by have := g.sender; grind
    awaiting := by have := g.awaiting; grind
    posted := by have := g.posted; grind
    putAck := by have := g.putAck; grind }

theorem Good.unregister (g : Good b l) (ha : l.call a = some f) (hf : f.pc = .unregister) :
    Good b ({ l with registered := false }.setCall a (some { f with pc := .discard })) := by
  simp only [Life.setCall]
  exact { g with
    live := fun c h => by
      have hl := g.live c h
      exact { hl with
        found := by have := hl.creating; grind
        creating := by have := hl.creating; grind
        inCall := by have := hl.inCall; grind
        held := by have := hl.held; grind
        callHolds := by have := hl.callHolds; grind
        sawCompletion := by have := hl.sawCompletion; grind
        ack := by have := hl.ack; grind }
    registered := by simp
    creating := by have := g.creating; grind
    created := by have := g.creator; grind
    discarding := by grind
    freeing := fun _ => rfl
    creator := by have := g.creator; grind
    callSends := by have := g.callSends; grind
    sender := by have := g.sender; grind
    awaiting := by have := g.awaiting; grind
    posted := by have := g.posted; grind
    putAck := by have := g.putAck; grind }

/-- The creator frees the block of a thread that was never created; nobody
    else has claimed it. -/
theorem Good.discard (g : Good b l) (ha : l.call a = some f) (hf : f.pc = .discard)
    (h : l.control = some c) : Good b ({ l with control := none }.setCall a none) := by
  have hl := g.live c h
  have hr := g.discarding a f ha hf
  have hd := hl.creating a f ha (by simp [hf, CallPc.creating])
  have hk := (hl.dormant_unclaimed hd).1
  simp only [Life.setCall]
  exact { g with
    live := fun _ h => by cases h
    gone := fun _ => .inl hk
    registered := by simp [hr]
    creating := by have := g.creator; grind
    created := by have := g.created; grind
    discarding := by have := g.discarding; grind
    creator := by have := g.creator; grind
    callSends := by have := g.callSends; grind
    sender := by have := g.sender; grind
    awaiting := by have := g.awaiting; grind
    posted := by have := g.posted; grind
    putAck := by have := g.putAck; grind }

/-! ### Joining and detaching -/

/-- Moves of a call that nobody else notices. -/
def CallPc.quietTo (pc pc' : CallPc) : Bool :=
  pc' != .create && pc' != .discard && (!pc'.creating || pc.creating) &&
    pc'.holds == pc.holds && pc'.pending == pc.pending && (!pc'.sawCompletion || pc.sawCompletion) &&
    (!pc.acked || pc'.acked) && pc' != .joinAwait && pc != .joinAwait

/-- Only a join that waits can have been acknowledged. -/
theorem Good.ack_eq_zero (g : Good b l) (ha : l.call a = some f) (hf : f.pc ≠ .joinAwait) :
    f.acknowledgement = 0 := by
  have := g.posted a f ha
  grind

theorem Good.moveCall (g : Good b l) (ha : l.call a = some f) {f' : Call}
    (hpc : f.pc.quietTo f'.pc = true) (hack : f'.acknowledgement = 0) :
    Good b (l.setCall a (some f')) := by
  simp only [CallPc.quietTo, Bool.and_eq_true, Bool.or_eq_true, Bool.not_eq_true', bne_iff_ne,
    beq_iff_eq] at hpc
  obtain ⟨⟨⟨⟨⟨⟨⟨⟨hcreate, hdiscard⟩, hcreating⟩, hholds⟩, hpending⟩, hsaw⟩, hacked⟩, ht⟩, hf⟩ := hpc
  simp only [Life.setCall]
  exact { g with
    live := fun c h => by
      have hl := g.live c h
      exact { hl with
        creating := by have := hl.creating; grind
        inCall := by have := hl.inCall; grind
        held := by have := hl.held; grind
        callHolds := by have := hl.callHolds; grind
        sawCompletion := by have := hl.sawCompletion; grind
        ack := by have := hl.ack; grind }
    creating := by have := g.creating; grind
    created := by have := g.created; grind
    discarding := by have := g.discarding; grind
    creator := by have := g.creator; grind
    callSends := by have := g.callSends; grind
    sender := by have := g.sender; grind
    awaiting := by have := g.awaiting; grind
    posted := by have := g.posted; grind
    putAck := by have := g.putAck; grind }

/-- A call ends outside the critical section, with nothing left to send and
    its acknowledgement posted if it waited for one. -/
theorem Good.endCall (g : Good b l) (ha : l.call a = some f) (hh : f.pc.holds = false) (hp : f.pc.pending = false)
    (hk : f.pc.acked = false ∨ 0 < f.acknowledgement) : Good b (l.setCall a none) := by
  simp only [Life.setCall]
  exact { g with
    live := fun c h => by
      have hl := g.live c h
      exact { hl with
        creating := by have := hl.creating; grind
        inCall := by have := hl.inCall; grind
        held := by have := hl.held; grind
        callHolds := by have := hl.callHolds; grind
        sawCompletion := by have := hl.sawCompletion; grind
        ack := by have := hl.ack; grind }
    creating := by have := g.creating; grind
    created := by have := g.created; grind
    discarding := by have := g.discarding; grind
    creator := by have := g.creator; grind
    callSends := by have := g.callSends; grind
    sender := by have := g.sender; grind
    awaiting := by have := g.awaiting; grind
    posted := by have := g.posted; grind
    putAck := by
      have := g.putAck
      have := g.posted
      grind }

theorem Good.beginCall (g : Good b l) (ha : l.call a = none)
    (hpc : pc = .joinWait ∨ pc = .detachLock)
    (hself : ∀ c, a = .std b → l.control = some c → c.thread.running = true) :
    Good b (l.setCall a (some { block := b, pc })) := by
  simp only [Life.setCall]
  exact { g with
    live := fun c h => by
      have hl := g.live c h
      exact { hl with
        creating := by have := hl.creating; grind
        inCall := by have := hl.inCall; grind
        held := by have := hl.held; grind
        callHolds := by have := hl.callHolds; grind
        sawCompletion := by have := hl.sawCompletion; grind
        ack := by have := hl.ack; grind }
    creating := by have := g.creating; grind
    created := by have := g.created; grind
    discarding := by have := g.discarding; grind
    creator := by have := g.creator; grind
    callSends := by have := g.callSends; grind
    sender := by have := g.sender; grind
    awaiting := by have := g.awaiting; grind
    posted := by have := g.posted; grind
    putAck := by have := g.putAck; grind }

theorem Good.joinWait (g : Good b l) (ha : l.call a = some f) (hf : f.pc = .joinWait)
    (h : l.control = some c) (hc : 0 < c.completion) :
    Good b ((l.put { c with completion := c.completion - 1 }).setCall a
      (some { f with pc := .joinCreateAck })) := by
  have hl := g.live c h
  have hfinished := hl.completion hc
  simp only [Life.put, Life.setCall]
  exact { g with
    live := fun c' hc' => by
      cases hc'
      exact { hl with
        creating := by have := hl.creating; grind
        inCall := by have := hl.inCall; grind
        held := by have := hl.held; grind
        callHolds := by have := hl.callHolds; grind
        completion := fun _ => hfinished
        sawCompletion := fun _ _ _ _ => hfinished
        ack := by have := hl.ack; grind }
    gone := fun hn => by cases hn
    registered := fun _ hn => by cases hn
    creating := fun _ _ _ _ hn => by cases hn
    created := by have := g.created; grind
    discarding := by have := g.discarding; grind
    creator := by have := g.creator; grind
    callSends := by have := g.callSends; grind
    sender := by have := g.sender; grind
    awaiting := by have := g.awaiting; grind
    posted := by have := g.posted; grind
    putAck := by have := g.putAck; grind }

theorem Good.callLock (g : Good b l) (ha : l.call a = some f) (h : l.control = some c)
    (hpc : f.pc = .joinLock ∧ pc = .joinTest ∨ f.pc = .detachLock ∧ pc = .detachTest)
    (hm : c.lifecycleMutex.get a = some m) :
    Good b ((l.put { c with lifecycleMutex := m }).setCall a (some { f with pc })) := by
  have hl := g.live c h
  obtain ⟨hfree, rfl⟩ := hl.get_free
    (by have := hl.inCall; grind [EntryPc.not_holds_of_running]) (by grind) hm
  simp only [Life.put, Life.setCall]
  exact { g with
    live := fun c' hc' => by
      cases hc'
      exact { hl with
        creating := by have := hl.creating; grind
        inCall := by have := hl.inCall; grind
        held := by grind
        entryHolds := by have := hl.entryHolds; grind
        callHolds := by have := hl.callHolds; grind
        sawCompletion := by have := hl.sawCompletion; grind
        ack := by have := hl.ack; grind }
    gone := fun hn => by cases hn
    registered := fun _ hn => by cases hn
    creating := fun _ _ _ _ hn => by cases hn
    created := by have := g.created; grind
    discarding := by have := g.discarding; grind
    creator := by have := g.creator; grind
    callSends := by have := g.callSends; grind
    sender := by have := g.sender; grind
    awaiting := by have := g.awaiting; grind
    posted := by have := g.posted; grind
    putAck := by have := g.putAck; grind }

/-- Leaving the critical section, to send, or to return. -/
theorem Good.callUnlock (g : Good b l) (ha : l.call a = some f) (h : l.control = some c)
    {x : Option Call}
    (hx : f.pc = .joinUnlock true ∧ x = some { f with pc := .joinSend } ∨
      f.pc = .detachUnlock true true ∧ x = some { f with pc := .detachSend } ∨
      (f.pc = .joinUnlock false ∨
        ∃ granted e, f.pc = .detachUnlock granted e ∧ (granted && e) = false) ∧ x = none)
    (hm : c.lifecycleMutex.put a = some m) :
    Good b ((l.put { c with lifecycleMutex := m }).setCall a x) := by
  have hl := g.live c h
  have hmine : c.lifecycleMutex = .held a 0 := by
    have := hl.callHolds a f ha
    grind
  obtain rfl := put_free hmine hm
  simp only [Life.put, Life.setCall]
  exact { g with
    live := fun c' hc' => by
      cases hc'
      exact { hl with
        creating := by have := hl.creating; grind
        inCall := by have := hl.inCall; grind
        held := by grind
        entryHolds := by
          have := hl.inCall
          have := hl.entryHolds
          grind [EntryPc.not_holds_of_running]
        callHolds := by have := hl.callHolds; grind
        sawCompletion := by have := hl.sawCompletion; grind
        ack := by have := hl.ack; grind }
    gone := fun hn => by cases hn
    registered := fun _ hn => by cases hn
    creating := fun _ _ _ _ hn => by cases hn
    created := by have := g.created; grind
    discarding := by have := g.discarding; grind
    creator := by have := g.creator; grind
    callSends := by have := g.callSends; grind
    sender := by have := g.sender; grind
    awaiting := by have := g.awaiting; grind
    posted := by have := g.posted; grind
    putAck := by have := g.putAck; grind }

/-- A call that tests the flags of an unclaimed block claims it. -/
theorem Good.callClaim (g : Good b l) (ha : l.call a = some f) (h : l.control = some c)
    {c' : ThreadControl}
    (hpc : f.pc = .joinTest ∧ pc = .joinUnlock true ∧
        c' = { c with cleanupAck := some a, cleanupQueued := true } ∨
      f.pc = .detachTest ∧ pc = .detachUnlock true true ∧
        c' = { c with detached := true, cleanupQueued := true })
    (hq : (c.detached || c.cleanupQueued) = false) (hfinished : c.finished = true) :
    Good b (((l.put c').claim (.call a)).setCall a (some { f with pc })) := by
  have hl := g.live c h
  have hk : l.tally.stage = .unclaimed := by
    have := hl.flag
    grind
  have hpending : c.thread.pending = false := by
    have := hl.entrySends
    grind
  have hack := g.posted a f ha
  simp only [Life.put, Life.claim, Life.record, Life.setCall]
  exact { g with
    live := fun c'' hc' => by
      cases hc'
      exact {
        ident := by have := hl.ident; grind
        parameter := by have := hl.parameter; grind
        self := by have := hl.self; grind
        found := by have := hl.found; grind
        creating := by have := hl.creating; grind
        inCall := by have := hl.inCall; grind
        finished := by have := hl.finished; grind
        held := by have := hl.held; grind
        entryHolds := by have := hl.entryHolds; grind
        callHolds := by have := hl.callHolds; grind
        flag := by grind
        flagFinished := by grind
        detached := by grind
        entrySends := by grind
        unreleased := by simp
        completion := by have := hl.completion; grind
        sawCompletion := by grind
        ack := by have := hl.ack; grind
        completed := by have := hl.completed; grind
        readAck := fun ack' hr => by
          have := g.reaper.mp (ReaperPc.working_of_readFrom hr)
          simp [hk] at this
        cleaned := by have := hl.cleaned; grind }
    gone := fun hn => by cases hn
    registered := fun _ hn => by cases hn
    creating := fun _ _ _ _ hn => by cases hn
    created := by have := g.created; grind
    discarding := by have := g.discarding; grind
    creator := by have := g.creator; grind
    callSends := by have := g.callSends; grind
    sender := by have := g.sender; grind
    awaiting := by have := g.awaiting; grind
    posted := by have := g.posted; grind
    queue := by have := g.queue; grind
    reaper := by have := g.reaper; grind
    putAck := by have := g.putAck; grind
    enqueued := by have := g.enqueued; grind
    releasedOnce := by have := g.releasedOnce; grind }

theorem Good.detachTest (g : Good b l) (ha : l.call a = some f) (h : l.control = some c)
    (hf : f.pc = .detachTest) (hfinished : c.finished = false) :
    Good b ((l.put { c with detached := true }).setCall a
      (some { f with pc := .detachUnlock true false })) := by
  have hl := g.live c h
  simp only [Life.put, Life.setCall]
  exact { g with
    live := fun c' hc' => by
      cases hc'
      exact { hl with
        creating := by have := hl.creating; grind
        inCall := by have := hl.inCall; grind
        held := by have := hl.held; grind
        callHolds := by have := hl.callHolds; grind
        detached := by grind
        sawCompletion := by have := hl.sawCompletion; grind
        ack := by have := hl.ack; grind }
    gone := fun hn => by cases hn
    registered := fun _ hn => by cases hn
    creating := fun _ _ _ _ hn => by cases hn
    created := by have := g.created; grind
    discarding := by have := g.discarding; grind
    creator := by have := g.creator; grind
    callSends := by have := g.callSends; grind
    sender := by have := g.sender; grind
    awaiting := by have := g.awaiting; grind
    posted := by have := g.posted; grind
    putAck := by have := g.putAck; grind }

/-! ### The reaper -/

/-- A move of the reaper within its work on one block. -/
theorem Good.moveReaper (g : Good b l) {r : ReaperPc} (hw : r.working = l.reaper.working)
    (hput : ∀ d ack, r ≠ .putAck d ack) (hu : l.reaper.unregistered = false)
    (hu' : r.unregistered = false)
    (hp : ∀ c, l.control = some c → r.pastPoll = true → c.thread = .completed)
    (hack : ∀ c ack, l.control = some c → r.readFrom = some ack → c.cleanupAck = ack) :
    Good b { l with reaper := r } :=
  { g with
    live := fun c h => { g.live c h with
      found := fun hr => ((g.live c h).found hr).imp_left (by simp [hu])
      completed := hp c h
      readAck := fun ack => hack c ack h }
    reaper := by rw [hw]; exact g.reaper
    freeing := by simp [hu']
    putAck := fun d a hr => absurd hr (hput d _) }

theorem Good.receive (g : Good b l) {msg : Message} (hr : l.reaper = .receive)
    (hq : 0 < l.queued) :
    Good b ({ l with queued := l.queued - 1, reaper := .find msg }.record
      fun t => { t with stage := .taken }) := by
  have hk : l.tally.stage = .queued := by
    have := g.queue
    grind
  simp only [Life.record]
  exact { g with
    live := fun c h => by
      have hl := g.live c h
      exact { hl with
        found := by have := hl.found; grind
        flag := by have := hl.flag; grind
        entrySends := by have := hl.entrySends; grind
        unreleased := by simp
        completed := by simp [ReaperPc.pastPoll]
        readAck := by simp [ReaperPc.readFrom] }
    gone := by have := g.gone; grind
    callSends := by have := g.callSends; grind
    sender := by have := g.sender; grind
    awaiting := by grind
    posted := by have := g.posted; grind
    queue := by have := g.queue; grind
    reaper := by simp [ReaperPc.working]
    freeing := by simp [ReaperPc.unregistered]
    putAck := by simp
    enqueued := by have := g.enqueued; grind
    releasedOnce := by have := g.releasedOnce; grind }

theorem Good.reaperUnregister (g : Good b l) {d : Block} {ack : Option Agent}
    (hr : l.reaper = .unregister d ack) :
    Good b { l with registered := false, reaper := .free d ack } := by
  have hk := g.reaper.mp (by simp [hr, ReaperPc.working])
  exact { g with
    live := fun c h => by
      have hl := g.live c h
      exact { hl with
        found := fun _ => .inl rfl
        completed := by have := hl.completed; grind
        readAck := by have := hl.readAck; grind }
    registered := by simp
    -- a block the reaper works on is past its creation
    created := fun a f ha hf => by
      obtain ⟨c, h⟩ := Option.ne_none_iff_exists'.mp (g.creating a f ha (by simp [hf, CallPc.creating]))
      have hl := g.live c h
      have := (hl.dormant_unclaimed (hl.creating a f ha (by simp [hf, CallPc.creating]))).1
      simp [hk] at this
    discarding := fun _ _ _ _ => rfl
    reaper := by simp [ReaperPc.working, hk]
    freeing := fun _ => rfl
    putAck := by simp }

theorem Good.free (g : Good b l) {d : Block} {ack : Option Agent} (hr : l.reaper = .free d ack)
    (h : l.control = some c) :
    Good b ({ l with control := none, reaper := .putAck d ack }.record
      fun t => { t with stage := .released, released := t.released + 1 }) := by
  have hl := g.live c h
  have hk := g.reaper.mp (by simp [hr, ReaperPc.working])
  have hdone := hl.completed (by simp [hr, ReaperPc.pastPoll])
  have hreg := g.freeing (by simp [hr, ReaperPc.unregistered])
  simp only [Life.record]
  exact { g with
    live := fun _ h => by cases h
    gone := fun _ => .inr rfl
    registered := by simp [hreg]
    creating := by have := hl.creating; grind
    callSends := by have := g.callSends; grind
    sender := by grind
    awaiting := by grind
    posted := by have := g.posted; grind
    queue := by have := g.queue; grind
    reaper := by simp [ReaperPc.working]
    freeing := by simp [ReaperPc.unregistered]
    -- the joiner has sent the block, so it waits for the acknowledgement
    putAck := fun d' a hput => by
      cases hput
      refine ⟨rfl, ?_⟩
      have hack := hl.ack a (hl.readAck (some a) (by simp [hr, ReaperPc.readFrom]))
      obtain ⟨f, ha, hf⟩ := (Option.any_eq_true _ _).mp hack
      have hp : f.pc.pending = false := by
        have := g.callSends a f ha
        grind
      simpa [ha, CallPc.acked_iff hp] using hf
    enqueued := by have := g.enqueued; grind
    releasedOnce := by have := g.releasedOnce; grind }

/-- The reaper is done with a block nobody waits for. -/
theorem Good.putNoAck (g : Good b l) {d : Block} (hr : l.reaper = .putAck d none) :
    Good b { l with reaper := .receive } :=
  { g with
    live := fun c h => by
      have hl := g.live c h
      exact { hl with
        found := by have := hl.found; grind
        completed := by simp [ReaperPc.pastPoll]
        readAck := by simp [ReaperPc.readFrom] }
    reaper := by have := g.reaper; grind
    freeing := by simp [ReaperPc.unregistered]
    putAck := by simp }

theorem Good.putAck_ (g : Good b l) {d : Block} (hr : l.reaper = .putAck d (some a))
    (ha : l.call a = some f) :
    Good b ({ l with reaper := .receive }.setCall a
      (some { f with acknowledgement := f.acknowledgement + 1 })) := by
  obtain ⟨hk, hf⟩ := g.putAck d a hr
  simp only [ha, Option.any_some, Bool.and_eq_true, beq_iff_eq] at hf
  simp only [Life.setCall]
  exact { g with
    live := fun c h => absurd hk (g.live c h).unreleased
    creating := by have := g.creating; grind
    created := by have := g.created; grind
    discarding := by have := g.discarding; grind
    creator := by have := g.creator; grind
    callSends := by have := g.callSends; grind
    sender := by grind
    awaiting := by have := g.awaiting; grind
    posted := by have := g.posted; grind
    reaper := by simp [ReaperPc.working, hk]
    freeing := by simp [ReaperPc.unregistered]
    putAck := by simp }

/-- Whatever happens to a block, `Good` is kept. -/
theorem Good.step {idle : Prop} {mayBegin : Life → Prop} (g : Good b l)
    (hs : Life.Step b idle mayBegin l l') : Good b l' := by
  cases hs with
  | register a hab => exact Good.register hab
  | start _ h idle ht =>
      exact g.start h idle ht
  | bodyEnd _ h idle ht =>
      exact g.put ((g.live _ h).moveThread idle (by rw [ht]; rfl) rfl (by simp [ht])
        (by simp [ht, EntryPc.pastMark]) (by simp [ht, EntryPc.holds])
        (by simp [ht, EntryPc.pending]) (by simp [ht, EntryPc.pastCallbacks]))
  | callbacksEnd _ h idle ht => exact g.callbacksEnd h idle ht
  | lock _ h idle ht hm => exact g.lock h idle ht hm
  | mark _ h idle ht hq => exact g.mark h idle ht hq
  | markClaim _ h idle ht hq => exact g.markClaim h idle ht hq
  | unlock _ h idle ht hm => exact g.unlock h idle ht hm
  | putCompletion _ h idle ht => exact g.putCompletion h idle ht
  | send _ h idle ht => exact g.send h idle ht
  | leave _ h idle ht =>
      exact g.put ((g.live _ h).moveThread idle (by rw [ht]; rfl) rfl (by simp [ht])
        (by simp [ht, EntryPc.pastMark]) (by simp [ht, EntryPc.holds])
        (by simp [ht, EntryPc.pending]) (by simp [ht, EntryPc.pastCallbacks]))
  | created ha hf h => exact (g.created_ ha hf h).setOwner _
  | createFailed ha hf h =>
      have hack := g.ack_eq_zero ha (by simp [hf])
      exact g.moveCall ha (by rw [hf]; rfl) hack
  | unregister ha hf => exact g.unregister ha hf
  | discard ha hf h => exact g.discard ha hf h
  | beginCall ha hpc _ hself => exact (g.beginCall ha hpc hself).setOwner _
  | refuse ha hf =>
      refine (g.endCall ha ?_ ?_ (.inl ?_)).setOwner _ <;>
        rcases hf with hf | hf <;> rw [hf] <;> rfl
  | joinWait ha hf h hc => exact g.joinWait ha hf h hc
  | joinCreateAck ha hf => exact g.moveCall ha (by rw [hf]; rfl) rfl
  | callLock ha h hpc hm => exact g.callLock ha h hpc hm
  | testRefused ha h hpc hq =>
      have hack := g.ack_eq_zero ha (by rcases hpc with ⟨hf, -⟩ | ⟨hf, -⟩ <;> simp [hf])
      rcases hpc with ⟨hf, rfl⟩ | ⟨hf, rfl⟩ <;> exact g.moveCall ha (by rw [hf]; rfl) hack
  | joinTest ha h hf hq =>
      have hfinished := (g.live _ h).sawCompletion _ _ ha (by rw [hf]; rfl)
      exact g.callClaim ha h (.inl ⟨hf, rfl, rfl⟩) hq hfinished
  | detachTest ha h hf hq hfin => exact g.detachTest ha h hf hfin
  | detachClaim ha h hf hq hfin => exact g.callClaim ha h (.inr ⟨hf, rfl, rfl⟩) hq hfin
  | unlockRefuse ha h hf hm =>
      refine (g.callUnlock ha h (.inr (.inr ⟨hf.imp_right ?_, rfl⟩)) hm).setOwner _
      exact fun ⟨e, he⟩ => ⟨false, e, he, rfl⟩
  | unlockSend ha h hpc hm =>
      rcases hpc with ⟨hf, rfl⟩ | ⟨hf, rfl⟩
      · exact g.callUnlock ha h (.inl ⟨hf, rfl⟩) hm
      · exact g.callUnlock ha h (.inr (.inl ⟨hf, rfl⟩)) hm
  | unlockDetached ha h hf hm =>
      exact (g.callUnlock ha h (.inr (.inr ⟨.inr ⟨_, _, hf, rfl⟩, rfl⟩)) hm).setOwner _
  | joinSend ha h hf => exact g.callSend ha (.inl ⟨hf, rfl⟩)
  | detachSend ha h hf => exact (g.callSend ha (.inr ⟨hf, rfl⟩)).setOwner _
  | joinAwait ha hf hack =>
      exact (g.endCall ha (by rw [hf]; rfl) (by rw [hf]; rfl) (.inr hack)).setOwner _
  | receive hr hq hm => exact g.receive hr hq
  | find hr =>
      exact g.moveReaper (by rw [hr]; rfl) (by simp) (by rw [hr]; rfl) rfl
        (by simp [ReaperPc.pastPoll]) (by simp [ReaperPc.readFrom])
  | poll hr h ht =>
      refine g.moveReaper (by rw [hr]; rfl) (by simp) (by rw [hr]; rfl) rfl (fun c hc _ => ?_)
        (by simp [ReaperPc.readFrom])
      rw [h] at hc
      cases hc
      exact ht
  | readAck hr h =>
      refine g.moveReaper (by rw [hr]; rfl) (by simp) (by rw [hr]; rfl) rfl
        (fun c hc _ => (g.live c hc).completed (by rw [hr]; rfl)) (fun c ack hc hack => ?_)
      rw [h] at hc
      cases hc
      simpa [ReaperPc.readFrom] using hack
  | destroy hr =>
      refine g.moveReaper (by rw [hr]; rfl) (by simp) (by rw [hr]; rfl) rfl
        (fun c hc _ => (g.live c hc).completed (by rw [hr]; rfl))
        (fun c ack hc hack => (g.live c hc).readAck ack (by rw [hr]; exact hack))
  | reaperUnregister hr => exact g.reaperUnregister hr
  | free hr h => exact g.free hr h
  | putNoAck hr => exact g.putNoAck hr
  | putAck hr ha => exact g.putAck_ hr ha

end Preservation

end Threads
end Backend
end NucleoBase
