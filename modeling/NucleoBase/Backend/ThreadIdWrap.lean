/-
  NucleoBase.Backend.ThreadIdWrap

  Runs in which one thread lives on while others are created, joined and
  released for as long as one likes.  The registry ids go round in them; after
  a whole period the next registration gets the id of the thread that is still
  alive.
-/

import NucleoBase.Backend.ThreadLife

namespace NucleoBase
namespace Backend
namespace Threads

open Lib ThreadX

/-! ## The states of a cycle -/

/-- The tally of a block that has been joined and released. -/
def doneTally : Tally :=
  { stage := .released, owner := .spent, enqueued := 1, released := 1, cleaned := 1 }

/-- The control block of a thread in its entry function. -/
def veteran : ThreadControl := { registryId := idOf 0, thread := .body, control := 0 }

/-- The thread of block 0 is in its entry function; the blocks `1` to `m - 1`
    have been released. -/
def base (m : Block) : State where
  control := fun b => if b = 0 then some veteran else none
  registry := [0]
  nextRegistryId := idOf m
  nextBlock := m
  cleanupQueue := []
  call := fun _ => none
  reaper := .receive
  tally := fun b => if b = 0 then { owner := .available } else if b < m then doneTally else {}

/-- Block `m` is on its way from creation to release. -/
def during (m : Block) (c : Option ThreadControl) (registry : List Block) (queue : List Message)
    (f : Option Call) (r : ReaperPc) (t : Tally) : State where
  control := Function.update (base m).control m c
  registry := registry
  nextRegistryId := idOf (m + 1)
  nextBlock := m + 1
  cleanupQueue := queue
  call := Function.update (fun _ => none) (.app 0) f
  reaper := r
  tally := Function.update (base m).tally m t

/-- The control block of a thread that has completed. -/
def completed (m : Block) : ThreadControl :=
  { registryId := idOf m, thread := .completed, control := m, completion := 1, finished := true }

/-- The thread of block `m` has run its exit callbacks. -/
def exiting (m : Block) : State :=
  during m (some { registryId := idOf m, thread := .lock, control := m }) [m, 0] [] none .receive
    { owner := .available, cleaned := 1 }

/-- The thread of block `m` has completed and nobody has joined it. -/
def exited (m : Block) : State :=
  during m (some (completed m)) [m, 0] [] none .receive { owner := .available, cleaned := 1 }

/-- Application thread 0 has called `thread_join` on block `m`. -/
def joining (m : Block) : State :=
  (exited m).beginCall (.app 0) m .joinWait

/-- The joiner has sent block `m` and waits for the acknowledgement. -/
def sent (m : Block) : State :=
  during m
    (some { completed m with completion := 0, cleanupAck := some (.app 0), cleanupQueued := true })
    [m, 0] [⟨idOf m, m⟩] (some { block := m, pc := .joinAwait }) .receive
    { stage := .queued, owner := .calling (.app 0), enqueued := 1, cleaned := 1 }

/-! ## The events of a cycle -/

/-- The creation of block `m`, its entry function and its exit callbacks. -/
def bodyEvents (m : Block) : List Event :=
  [.create (.app 0), .call (.app 0) true, .thread m, .thread m, .thread m]

/-- `thread_entry` from the lifecycle mutex to its return. -/
def exitEvents (m : Block) : List Event := List.replicate 5 (.thread m)

/-- `thread_join` from its wait for the completion to the cleanup queue. -/
def joinEvents : List Event := List.replicate 6 (.call (.app 0) true)

/-- The reaper's round and the return of the join. -/
def releaseEvents : List Event := List.replicate 8 .reaper ++ [.call (.app 0) true]

section Cycle

variable {m : Block}

theorem body_replay (hm : m ≠ 0) : replay step (base m) (bodyEvents m) = some (exiting m) := by
  simp [replay, bodyEvents, step, State.mayCall, State.registerThread, base, State.setCall,
    State.callStep, State.setThread, State.modify, State.record, State.threadEntry,
    State.findThread, exiting, during, hm, succId_idOf]

theorem exit_replay : replay step (exiting m) (exitEvents m) = some (exited m) := by
  simp [replay, exitEvents, step, exiting, exited, completed, during, State.setThread,
    State.modify, State.threadEntry, State.lock, State.unlock, Mutex.get, Mutex.put]

theorem join_replay : replay step (joining m) joinEvents = some (sent m) := by
  simp [replay, joinEvents, step, joining, State.beginCall, exited, completed, during,
    State.setCall, State.callStep, State.modify, State.record, State.claim, State.enqueueCleanup,
    State.lock, State.unlock, sent, cleanupQueueDepth, Mutex.get, Mutex.put]

theorem release_replay (hm : m ≠ 0) : replay step (sent m) releaseEvents = some (base (m + 1)) := by
  have hcontrol : Function.update (base m).control m none = (base (m + 1)).control := by
    funext b
    by_cases hb : b = m <;> simp [base, hb, hm]
  have htally : Function.update (base m).tally m doneTally = (base (m + 1)).tally := by
    funext b
    rcases Nat.lt_trichotomy b m with hb | rfl | hb
    · simp only [base, Function.update_of_ne (Nat.ne_of_lt hb), if_pos hb,
        if_pos (Nat.lt_succ_of_lt hb)]
    · simp [base, hm]
    · have hb' : ¬ b < m + 1 := Nat.not_lt_of_ge hb
      simp only [base, Function.update_of_ne (Nat.ne_of_gt hb), if_neg (Nat.not_lt_of_gt hb),
        if_neg hb']
  simp [replay, releaseEvents, step, sent, completed, during, State.setCall, State.callStep,
    State.record, State.reaperEntry, State.findThread, State.unregisterThread, State.succeed]
  rw [doneTally] at htally
  rw [hcontrol, htally]
  rfl

/-- A join or a detach is the only event the callers answer for. -/
theorem guarded_disciplined {h : List Event} {s : State} {es : List Event}
    (hes : ∀ e ∈ es, ∀ a b, e ≠ .join a b ∧ e ≠ .detach a b) :
    Guarded step (fun _ s e => Disciplined s e) h s es := by
  induction es generalizing h s with
  | nil => trivial
  | cons e es ih =>
      refine ⟨?_, fun s' _ => ih fun e he => hes e (List.mem_cons_of_mem _ he)⟩
      cases e with
      | join a b => exact absurd rfl (hes _ List.mem_cons_self a b).1
      | detach a b => exact absurd rfl (hes _ List.mem_cons_self a b).2
      | _ => trivial

/-- One more block is created, joined and released, and the callers keep the
    rules. -/
theorem cycle_run {h : List Event} (hm : m ≠ 0)
    (hrun : Run step (fun _ s e => Disciplined s e) init h (base m)) :
    ∃ h', Run step (fun _ s e => Disciplined s e) init h' (base (m + 1)) := by
  have hbody := hrun.append_replay (guarded_disciplined (by simp [bodyEvents])) (body_replay hm)
  have hexit := hbody.append_replay (guarded_disciplined (by simp [exitEvents])) exit_replay
  have havail : Disciplined (exited m) (.join (.app 0) m) := .inr (by simp [exited, during])
  have hjoin := hexit.step havail
    (show _ = some (joining m) by simp [step, joining, exited, during, State.mayCall])
  have hsent := hjoin.append_replay (guarded_disciplined (by simp [joinEvents])) join_replay
  exact ⟨_, hsent.append_replay (guarded_disciplined (by simp [releaseEvents]))
    (release_replay hm)⟩

end Cycle

/-- Any number of blocks can come and go while block 0 lives. -/
theorem base_run (n : Nat) :
    ∃ h, Run step (fun _ s e => Disciplined s e) init h (base (n + 1)) := by
  induction n with
  | zero =>
      have hcontrol : Function.update (fun _ => none) 0
          (some { registryId := 1, thread := .body }) = (base 1).control := by
        funext b
        by_cases hb : b = 0
        · simp [base, hb, veteran, show idOf 0 = 1 by rfl]
        · simp [base, hb]
      have htally : Function.update (fun _ => {}) 0 { owner := .available } = (base 1).tally := by
        funext b
        by_cases hb : b = 0 <;> simp [base, hb]
      have hstart : replay step start [.create (.app 0), .call (.app 0) true, .thread 0] =
          some (base 1) := by
        simp [replay, step, start, State.mayCall, State.registerThread, State.setCall,
          State.callStep, State.setThread, State.modify, State.record, State.threadEntry,
          State.findThread]
        rw [hcontrol, htally]
        rfl
      exact ⟨_, Run.of_replay rfl (guarded_disciplined (by simp)) hstart⟩
  | succ n ih =>
      obtain ⟨h, hrun⟩ := ih
      exact cycle_run (Nat.succ_ne_zero n) hrun

end Threads
end Backend
end NucleoBase
