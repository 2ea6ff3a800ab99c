/-
  NucleoBase.Backend.ThreadsCorrect

  What the thread functions guarantee over every interleaving of creations,
  exits, joins, detaches and the reaper, as long as no thread outlives a whole
  period of the registry ids.

  The life of each block is lifted to runs of the system; the registry, whose
  ids wrap, is where the lives meet.
-/

import NucleoBase.Backend.ThreadsRefine
import NucleoBase.Backend.ThreadLifeOwned
import NucleoBase.Backend.ThreadIdWrap

namespace NucleoBase
namespace Backend
namespace Threads

open Lib ThreadX

variable {s s' : State} {e : Event} {h : List Event} {a : Agent} {b c d : Block}
  {mayBegin : Life → Prop}

/-! ## Fresh registrations -/

/-- No registered block was registered a whole number of periods before the
    next one. -/
def Fresh (s : State) : Event → Prop
  | .create _ => ∀ c ∈ s.registry, ¬ registryPeriod ∣ s.nextBlock - c
  | _ => True

instance instDecidableFresh : ∀ s e, Decidable (Fresh s e)
  | s, .create _ =>
      List.decidableBAll (fun c => ¬ registryPeriod ∣ s.nextBlock - c) s.registry
  | _, .join _ _ | _, .detach _ _ | _, .call _ _ | _, .thread _ | _, .reaper => isTrue trivial

/-! ## The invariant over runs -/

theorem Inv.initial (h0 : init s) : Inv s := by
  rw [show s = start from h0]
  exact {
    good := fun _ => Good.absent
    next := rfl
    fresh := fun _ _ => rfl
    sorted := List.Pairwise.nil
    distinct := List.Pairwise.nil
    messages := by simp [start]
    found := by simp [start]
    inCall := by simp [start] }

/-- Registered blocks were registered before the next one. -/
theorem Inv.registered_lt (inv : Inv s) (hb : b ∈ s.registry) : b < s.nextBlock := by
  obtain ⟨c, hc⟩ := inv.registered_live hb
  exact inv.lt_nextBlock hc

/-- A thread that is running its entry function or its callbacks goes on doing
    so, unless it takes a step itself. -/
theorem Life.Step.running {idle : Prop} {l l' : Life} {c : ThreadControl} (g : Good b l)
    (hs : Life.Step b idle mayBegin l l') (hc : l.control = some c)
    (hr : c.thread.running = true) :
    (∃ c', l'.control = some c' ∧ c'.thread.running = true) ∨ idle ∧ l'.call = l.call := by
  have hl := g.live c hc
  cases hs with
  | register => cases hc
  | start hidle => exact .inr ⟨hidle, rfl⟩
  | bodyEnd hidle => exact .inr ⟨hidle, rfl⟩
  | callbacksEnd hidle => exact .inr ⟨hidle, rfl⟩
  | lock hidle => exact .inr ⟨hidle, rfl⟩
  | mark hidle => exact .inr ⟨hidle, rfl⟩
  | markClaim hidle => exact .inr ⟨hidle, rfl⟩
  | unlock hidle => exact .inr ⟨hidle, rfl⟩
  | putCompletion hidle => exact .inr ⟨hidle, rfl⟩
  | send hidle => exact .inr ⟨hidle, rfl⟩
  | leave hidle => exact .inr ⟨hidle, rfl⟩
  | created ha hf h =>
      rw [hl.creating _ _ ha (by rw [hf]; rfl)] at hr
      cases hr
  | discard ha hf h =>
      rw [hl.creating _ _ ha (by rw [hf]; rfl)] at hr
      cases hr
  | free hreap h =>
      rw [hl.completed (by rw [hreap]; rfl)] at hr
      cases hr
  | joinWait ha hf h hpos =>
      rw [hc] at h
      cases h
      exact .inl ⟨_, rfl, hr⟩
  | callLock ha h hpc hm =>
      rw [hc] at h
      cases h
      exact .inl ⟨_, rfl, hr⟩
  | joinTest ha h hf hq =>
      rw [hc] at h
      cases h
      exact .inl ⟨_, rfl, hr⟩
  | detachTest ha h hf hq hfin =>
      rw [hc] at h
      cases h
      exact .inl ⟨_, rfl, hr⟩
  | detachClaim ha h hf hq hfin =>
      rw [hc] at h
      cases h
      exact .inl ⟨_, rfl, hr⟩
  | unlockRefuse ha h hf hm =>
      rw [hc] at h
      cases h
      exact .inl ⟨_, rfl, hr⟩
  | unlockSend ha h hpc hm =>
      rw [hc] at h
      cases h
      exact .inl ⟨_, rfl, hr⟩
  | unlockDetached ha h hf hm =>
      rw [hc] at h
      cases h
      exact .inl ⟨_, rfl, hr⟩
  | createFailed | unregister | beginCall | refuse | joinCreateAck | testRefused | joinSend
  | detachSend | joinAwait | receive | find | poll | readAck | destroy | reaperUnregister
  | putNoAck | putAck => exact .inl ⟨c, hc, hr⟩

/-- A thread in a call stays in its entry function or its callbacks. -/
theorem Inv.inCall_step (inv : Inv s) (hk : Keeps s s')
    (hne : ∀ b, b ≠ d → s'.life b = s.life b)
    (hd : Life.Step d (s.call (.std d) = none) mayBegin (s.life d) (s'.life d)) {f : Call}
    (hf : s'.call (.std b) = some f) : ∃ c, s'.control b = some c ∧ c.thread.running = true := by
  obtain ⟨c, hc, hr⟩ : ∃ c, s.control b = some c ∧ c.thread.running = true := by
    cases h : s.call (.std b) with
    | none => exact hk.call b f hf h
    | some f' => exact inv.inCall b f' h
  rcases eq_or_ne b d with rfl | hbd
  · rcases hd.running (inv.good b) hc hr with hkept | ⟨hidle, hcall⟩
    · exact hkept
    · -- the thread itself moved, so it has begun no call
      exfalso
      have hown : (s'.life f.block).call (.std b) = some f := life_call_of_block hf
      have hnone : ∀ x, (s.life x).call (.std b) = none := fun x =>
        life_call_eq_none (by simp [hidle])
      rcases eq_or_ne f.block b with hfb | hfb
      · rw [hfb, hcall, hnone] at hown
        cases hown
      · rw [hne _ hfb, hnone] at hown
        cases hown
  · exact ⟨c, by rw [← life_control, hne b hbd]; exact hc, hr⟩

/-- The registration of a fresh id keeps the invariant. -/
theorem Inv.create (inv : Inv s) (hmay : s.mayCall a = true) (hfresh : Fresh s (.create a)) :
    Inv (s.registerThread.setCall a (some { block := s.nextBlock, pc := .create })) := by
  obtain ⟨hne, hnew⟩ := @life_create s a (fun _ => True) inv hmay
  obtain ⟨hidle, hself⟩ := mayCall_iff.mp hmay
  refine ⟨fun b => ?_, ?_, fun b hb => ?_, ?_, ?_, inv.messages, inv.found, fun b f hf => ?_⟩
  · rcases eq_or_ne b s.nextBlock with rfl | hb
    · exact (inv.good _).step hnew
    · rw [hne b hb]
      exact inv.good b
  · change succId s.nextRegistryId = idOf (s.nextBlock + 1)
    rw [inv.next, succId_idOf]
  · have hb : s.nextBlock < b := hb
    rw [hne b (Nat.ne_of_gt hb)]
    exact inv.fresh b (Nat.le_of_lt hb)
  · exact List.pairwise_cons.mpr ⟨fun b hb => inv.registered_lt hb, inv.sorted⟩
  · refine List.pairwise_cons.mpr ⟨fun b hb => ?_, inv.distinct⟩
    exact Ne.symm (mt (idOf_eq_iff (inv.registered_lt hb)).mp (hfresh b hb))
  · obtain ⟨c, hc, hr⟩ : ∃ c, s.control b = some c ∧ c.thread.running = true := by
      rcases eq_or_ne (.std b) a with rfl | hab
      · exact hself b rfl
      · simp only [State.setCall, Function.update_of_ne hab] at hf
        exact inv.inCall b f hf
    refine ⟨c, ?_, hr⟩
    rw [← life_control, hne b (Nat.ne_of_lt (inv.lt_nextBlock hc))]
    exact hc

theorem Inv.live_step (inv : Inv s) (href : Refines mayBegin s s') : Inv s' := by
  cases href with
  | stutter h =>
      rw [h]
      exact inv
  | live d hlt hk hne hd =>
      refine ⟨fun b => ?_, ?_, fun b hb => ?_, inv.sorted.sublist hk.registry,
        inv.distinct.sublist hk.registry, fun m hm => ?_, fun m hm => ?_,
        fun b f hf => inv.inCall_step hk hne hd hf⟩
      · rcases eq_or_ne b d with rfl | hb
        · exact (inv.good _).step hd
        · rw [hne b hb]
          exact inv.good b
      · rw [hk.nextRegistryId, hk.nextBlock]
        exact inv.next
      · rw [hk.nextBlock] at hb
        rw [hne b (Nat.ne_of_gt (Nat.lt_of_lt_of_le hlt hb))]
        exact inv.fresh b hb
      · rcases hk.messages m hm with h | h
        · exact inv.messages m h
        · exact h
      · rcases hk.found m hm with h | h
        · exact inv.messages m h
        · exact inv.found m h

theorem Inv.preserve (inv : Inv s) (hfresh : Fresh s e) (hs : step s e = some s') : Inv s' := by
  by_cases hcreate : ∃ a, e = .create a
  · obtain ⟨a, rfl⟩ := hcreate
    simp only [step, Option.ite_none_right_eq_some, Option.some.injEq] at hs
    obtain ⟨hmay, rfl⟩ := hs
    exact inv.create hmay hfresh
  · have href : Refines (fun _ => True) s s' :=
      step_refines inv (fun a h => hcreate ⟨a, h⟩) (fun _ _ _ => trivial) hs
    exact inv.live_step href

/-- Every block's owner keeps the rules. -/
def AllOwned (s : State) : Prop := ∀ b, Owned (s.life b)

theorem AllOwned.initial (h0 : init s) : AllOwned s := by
  rw [show s = start from h0]
  exact fun _ => Owned.absent

theorem AllOwned.preserve (inv : Inv s) (o : AllOwned s) (hd : Disciplined s e)
    (hs : step s e = some s') : AllOwned s' := by
  by_cases hcreate : ∃ a, e = .create a
  · obtain ⟨a, rfl⟩ := hcreate
    simp only [step, Option.ite_none_right_eq_some, Option.some.injEq] at hs
    obtain ⟨hmay, rfl⟩ := hs
    obtain ⟨hne, hnew⟩ := life_create inv hmay
    intro b
    rcases eq_or_ne b s.nextBlock with rfl | hb
    · exact (o _).step (inv.good _) hnew
    · rw [hne b hb]
      exact o b
  · have hbegin : ∀ a b, e = .join a b ∧ a ≠ .std b ∨ e = .detach a b → (s.life b).Available := by
      rintro a b (⟨rfl, hself⟩ | rfl)
      · exact hd.resolve_left hself
      · exact hd
    cases step_refines inv (fun a h => hcreate ⟨a, h⟩) hbegin hs with
    | stutter h =>
        rw [h]
        exact o
    | live d hlt hk hne hstep =>
        intro b
        rcases eq_or_ne b d with rfl | hb
        · exact (o b).step (inv.good b) hstep
        · rw [hne b hb]
          exact o b

theorem inv_of_run (hrun : Run step (fun _ s e => Fresh s e) init h s) : Inv s :=
  Run.history_invariant (I := fun _ s => Inv s) (fun _ h0 => Inv.initial h0)
    (fun _ _ e _ inv hg hs => inv.preserve (e := e) hg hs) hrun

/-- The runs in which the callers keep the rules and no id is reused while its
    old block is registered. -/
def Proper (_ : List Event) (s : State) (e : Event) : Prop := Fresh s e ∧ Disciplined s e

instance (h : List Event) (s : State) (e : Event) : Decidable (Proper h s e) :=
  inferInstanceAs (Decidable (_ ∧ _))

theorem owned_of_run (hrun : Run step Proper init h s) : Inv s ∧ AllOwned s :=
  Run.history_invariant (I := fun _ s => Inv s ∧ AllOwned s)
    (fun _ h0 => ⟨Inv.initial h0, AllOwned.initial h0⟩)
    (fun _ _ _ _ hi hg hs => ⟨hi.1.preserve hg.1 hs, hi.2.preserve hi.1 hg.2 hs⟩) hrun

/-! ## The registry -/

/-- What the registry guarantees in a state. -/
structure RegistryGuarantee (s : State) : Prop where
  /-- Every registered block has an id, and it is not 0. -/
  nonzero : ∀ b ∈ s.registry, ∃ c, s.control b = some c ∧ c.registryId ≠ 0
  distinct : s.registry.Pairwise fun b d =>
    (s.control b).map ThreadControl.registryId ≠ (s.control d).map ThreadControl.registryId
  /-- `find_thread` finds the registered block of an id. -/
  find : ∀ b ∈ s.registry, ∀ c, s.control b = some c → s.findThread c.registryId = some b
  /-- A starting thread finds its own block, and runs its own entry. -/
  starts : ∀ b c p, s.control b = some c → c.thread = .ready p → s.findThread p = some b
  runs : ∀ b c, s.control b = some c → c.thread.started = true → c.control = b
  /-- The reaper finds the block that was queued, and frees no other. -/
  reaps : ∀ m, s.reaper = .find m → s.findThread m.registryId = some m.block
  frees : ∀ d ack, s.reaper = .free d ack → (s.tally d).stage = .taken ∧ (s.tally d).enqueued = 1

theorem Inv.registryGuarantee (inv : Inv s) : RegistryGuarantee s := by
  refine ⟨fun b hb => ?_, ?_, fun b hb c hc => ?_, fun b c p hc ht => ?_, fun b c hc ht => ?_,
    fun m hm => ?_, fun d ack hr => ?_⟩
  · obtain ⟨c, hc⟩ := inv.registered_live hb
    exact ⟨c, hc, by rw [(inv.live hc).ident]; exact idOf_ne_zero b⟩
  · refine inv.distinct.imp_of_mem fun {b d} hb hd hne => ?_
    obtain ⟨c, hc⟩ := inv.registered_live hb
    obtain ⟨c', hc'⟩ := inv.registered_live hd
    rw [hc, hc', Option.map_some, Option.map_some, (inv.live hc).ident, (inv.live hc').ident]
    exact fun h => hne (Option.some.inj h)
  · rw [(inv.live hc).ident]
    exact inv.findThread_idOf hb
  · rw [(inv.live hc).parameter p ht]
    exact inv.findThread_idOf (inv.ready_registered hc ht)
  · exact (inv.live hc).self ht
  · rw [inv.found m hm]
    exact inv.findThread_idOf (inv.taken_registered hm)
  · have hk := (inv.good d).reaper.mp (by rw [life_reaper hr rfl]; rfl)
    refine ⟨hk, ?_⟩
    have := (inv.good d).enqueued
    rw [hk] at this
    exact this

/-- The registry keeps its guarantee in every run in which every registration
    is fresh, and a registration that is not fresh breaks it. -/
theorem registry_guarantee (hrun : Run step (fun _ s e => Fresh s e) init h s) :
    RegistryGuarantee s ∧ ∀ a s', step s (.create a) = some s' →
      (RegistryGuarantee s' ↔ Fresh s (.create a)) := by
  have inv := inv_of_run hrun
  refine ⟨inv.registryGuarantee, fun a s' hs => ⟨fun g c hc hdvd => ?_, fun hfresh => ?_⟩⟩
  · simp only [step, Option.ite_none_right_eq_some, Option.some.injEq] at hs
    obtain ⟨-, rfl⟩ := hs
    obtain ⟨x, hx⟩ := inv.registered_live hc
    have hlt := inv.registered_lt hc
    refine (List.pairwise_cons.mp g.distinct).1 c hc ?_
    have hne : c ≠ s.nextBlock := Nat.ne_of_lt hlt
    simp only [State.setCall, State.registerThread, Function.update_self, Option.map_some,
      Function.update_of_ne hne, hx, inv.next, (inv.live hx).ident, Option.some.injEq]
    exact ((idOf_eq_iff hlt).mpr hdvd).symm
  · exact (inv.preserve hfresh hs).registryGuarantee

/-- Two threads in their entry functions. -/
def twoThreads : List Event :=
  [.create (.app 0), .call (.app 0) true, .create (.app 1), .thread 0, .call (.app 1) true,
   .thread 1]

theorem registry_guarantee_twoThreads :
    ∃ s, replay step start twoThreads = some s ∧ s.registry = [1, 0] ∧ RegistryGuarantee s :=
  ⟨_, rfl, rfl, (registry_guarantee (Run.of_replay rfl
    (by decide +kernel : Guarded step (fun _ s e => Fresh s e) [] start twoThreads) rfl)).1⟩

/-- After a whole period the next registration gets the id of a block that is
    still registered, however well the callers behave. -/
theorem registry_ids_collide :
    ∃ h s, Run step (fun _ s e => Disciplined s e) init h s ∧ ¬ RegistryGuarantee s := by
  obtain ⟨h, hrun⟩ := base_run (registryPeriod - 1)
  have hcreate : Disciplined (base registryPeriod) (.create (.app 0)) := trivial
  have hmay : (base registryPeriod).mayCall (.app 0) = true := rfl
  refine ⟨_, _, hrun.step hcreate (by rw [step, if_pos]; exact hmay), fun g => ?_⟩
  exact (List.pairwise_cons.mp g.distinct).1 0 List.mem_cons_self (by decide +kernel)

/-! ## The life cycle -/

/-- `thread_entry` reads or writes its block at the next step. -/
def EntryPc.accesses : EntryPc → Bool
  | .callbacks | .lock | .mark | .unlock _ | .putCompletion _ | .send => true
  | _ => false

/-- A call reads or writes its block at the next step. -/
def CallPc.accesses : CallPc → Bool
  | .joinCreateAck | .joinAwait => false
  | _ => true

/-- The block a step of the event's agent reads or writes. -/
def State.accesses (s : State) : Event → Option Block
  | .create _ | .join _ _ | .detach _ _ => none
  | .call a _ => (s.call a).bind fun f => if f.pc.accesses then some f.block else none
  | .thread b => (s.control b).bind fun c => if c.thread.accesses then some c.control else none
  | .reaper =>
      match s.reaper with
      | .poll d | .readAck d | .destroy d _ | .unregister d _ | .free d _ => some d
      | .receive | .find _ | .putAck _ _ => none

/-- What the thread functions guarantee in a state. -/
structure LifecycleGuarantee (s : State) : Prop where
  /-- A block is put on the cleanup queue at most once, and exactly once when
      its thread has completed and its owner has joined or detached it. -/
  queued_once : ∀ b, (s.tally b).enqueued ≤ 1
  queued : ∀ b, (s.tally b).owner = .spent →
    (∀ c, s.control b = some c → c.thread = .completed) → (s.tally b).enqueued = 1
  /-- The reaper finds the block it has dequeued, still registered. -/
  finds : ∀ m, s.reaper = .find m → s.findThread m.registryId = some m.block ∧
    m.block ∈ s.registry
  /-- A block is released at most once, and a queued block is not lost. -/
  released_once : ∀ b, (s.tally b).released ≤ 1
  released : ∀ b, (s.tally b).enqueued = 1 → (s.tally b).released = 1 ∨
    (∃ m ∈ s.cleanupQueue, m.block = b) ∨ s.reaper.working = true ∧ s.reaper.block = some b
  /-- What the reaper destroys was queued, has completed and has run its exit
      callbacks; nobody else touches it. -/
  destroys : ∀ d, s.reaper.pastPoll = true → s.reaper.block = some d →
    (∃ c, s.control d = some c ∧ c.thread = .completed) ∧ (s.tally d).enqueued = 1 ∧
    (s.tally d).released = 0 ∧ (s.tally d).cleaned = 1 ∧ ∀ e, e ≠ .reaper → s.accesses e ≠ some d
  /-- `thread_join` returns 0 only once the block has been released. -/
  joined : ∀ a f ok s', s.call a = some f → f.pc = .joinAwait →
    step s (.call a ok) = some s' → (s.tally f.block).released = 1
  /-- No step reads or writes a block that has been released. -/
  accesses : ∀ e b, s.accesses e = some b → s.control b ≠ none
  registry : ∀ b ∈ s.registry, s.control b ≠ none
  /-- The thread the reaper waits for is not waiting for room in the queue: it
      has completed or its next step is enabled. -/
  waits : ∀ d, s.reaper = .poll d → ∃ c, s.control d = some c ∧ c.thread ≠ .send ∧
    s.call (.std d) = none ∧ (c.thread = .completed ∨ (step s (.thread d)).isSome = true)

section Lifecycle

variable {f : Call} {x : ThreadControl}

/-- Whoever accesses the block in a call is its creator, or has not tested the
    flags, or has claimed the cleanup, or is leaving a detach without claim. -/
theorem CallPc.accesses_cases {pc : CallPc} (ha : pc.accesses = true) (hr : pc.refused = false) :
    pc.creating = true ∨ pc.early = true ∨ pc.pending = true ∨ pc = .detachUnlock true false := by
  cases pc with
  | joinUnlock granted => cases granted <;> simp_all [refused, pending]
  | detachUnlock granted enqueue =>
      cases granted <;> cases enqueue <;> simp_all [refused, pending]
  | _ => simp_all [accesses, creating, early, pending]

/-- A block accessed by a call is live, and not in the hands of the reaper. -/
theorem call_accesses {l : Life} (g : Good b l) (o : Owned l) (ha : l.call a = some f)
    (hacc : f.pc.accesses = true) : l.control ≠ none ∧ l.tally.stage ≠ .taken := by
  have hclaimed : ∀ k, l.tally.stage = .claimed k → l.control ≠ none ∧ l.tally.stage ≠ .taken := by
    intro k hk
    obtain ⟨c, hc⟩ := g.claimed_live hk
    exact ⟨by rw [hc]; simp, by rw [hk]; simp⟩
  have hunclaimed : f.pc.creating = false → l.tally.stage = .unclaimed →
      l.control ≠ none ∧ l.tally.stage ≠ .taken := fun hc hk =>
    ⟨o.live (by rw [o.busy a f ha hc]; simp) hk, by rw [hk]; simp⟩
  rcases CallPc.accesses_cases hacc (o.granted a f ha) with hc | he | hp | hd
  · refine ⟨g.creating a f ha hc, ?_⟩
    rw [(o.idle (.inl (o.creating a f ha hc))).1]
    simp
  · refine hunclaimed ?_ (o.early a f ha he).1
    revert he
    cases f.pc <;> simp [CallPc.early, CallPc.creating]
  · exact hclaimed _ (g.callSends a f ha hp)
  · exact hunclaimed (by rw [hd]; rfl) (o.leaving a f ha hd).1

/-- A thread whose block has been queued is about to complete. -/
theorem Live.finishing {l : Life} (hl : Live b x l) (hk : l.tally.stage = .taken) :
    x.thread = .unlock false ∨ x.thread = .putCompletion false ∨ x.thread = .leave ∨
      x.thread = .completed := by
  have hq := hl.flag.mpr (by rw [hk]; simp)
  have hm : x.thread.pastMark = true := by rw [← hl.finished]; exact hl.flagFinished hq
  have hp : x.thread.pending = false := by
    have := hl.entrySends
    rw [hk] at this
    simpa using this
  cases ht : x.thread with
  | unlock e => simpa [ht, EntryPc.pending] using hp
  | putCompletion e => simpa [ht, EntryPc.pending] using hp
  | leave => simp
  | completed => simp
  | _ => simp [ht, EntryPc.pastMark, EntryPc.pending] at hm hp

/-- Such a thread takes its next step as soon as it is scheduled. -/
theorem Inv.finishing_enabled (inv : Inv s) (hx : s.control d = some x)
    (hk : (s.life d).tally.stage = .taken) :
    s.call (.std d) = none ∧ x.thread ≠ .send ∧
      (x.thread = .completed ∨ (step s (.thread d)).isSome = true) := by
  have hl := inv.live hx
  have hfin := hl.finishing hk
  have hcall : s.call (.std d) = none := by
    by_contra hn
    obtain ⟨f, hf⟩ := Option.ne_none_iff_exists'.mp hn
    obtain ⟨c, hc, hr⟩ := inv.inCall d f hf
    rw [hx] at hc
    cases hc
    rcases hfin with h | h | h | h <;> rw [h] at hr <;> cases hr
  have hself : x.control = d := hl.self (by rcases hfin with h | h | h | h <;> rw [h] <;> rfl)
  refine ⟨hcall, by rcases hfin with h | h | h | h <;> simp [h], ?_⟩
  rcases hfin with h | h | h | h
  · have hheld := hl.entryHolds (by rw [h]; rfl)
    exact .inr (by simp [step, State.threadEntry, hx, hcall, h, hself, State.unlock, hheld])
  · exact .inr (by simp [step, State.threadEntry, hx, hcall, h, hself])
  · exact .inr (by simp [step, State.threadEntry, hx, hcall, h])
  · exact .inl h

/-- The reaper works on a block exactly while it is taken. -/
theorem Inv.taken_iff (inv : Inv s) :
    (s.tally d).stage = .taken ↔ s.reaper.working = true ∧ s.reaper.block = some d := by
  have hr := (inv.good d).reaper
  constructor
  · intro hk
    have hw := hr.mpr hk
    by_cases hb : s.reaper.block = some d
    · rw [life_reaper rfl hb] at hw
      exact ⟨hw, hb⟩
    · simp [State.life, hb, ReaperPc.working] at hw
  · rintro ⟨hw, hb⟩
    exact hr.mp (by rw [life_reaper rfl hb]; exact hw)

/-- A block whose thread has completed, with its handle spent, has been sent. -/
theorem queued_of_spent {l : Life} (g : Good b l) (o : Owned l) (hs : l.tally.owner = .spent)
    (hx : ∀ c, l.control = some c → c.thread = .completed) : l.tally.enqueued = 1 := by
  rw [g.enqueued]
  cases hk : l.tally.stage with
  | unclaimed =>
      -- completed and detached, so somebody has claimed it
      exfalso
      obtain ⟨c, hc⟩ := Option.ne_none_iff_exists'.mp (o.live (by rw [hs]; simp) hk)
      have hl := g.live c hc
      have hfin : c.finished = true := by rw [hl.finished, hx c hc]; rfl
      exact hl.flag.mp (hl.detached (o.spent hs c hc) hfin) hk
  | claimed k =>
      exfalso
      cases k with
      | thread =>
          obtain ⟨c, hc⟩ := g.claimed_live hk
          have hp := (g.live c hc).entrySends.mpr hk
          rw [hx c hc] at hp
          cases hp
      | call a =>
          obtain ⟨f, ha, hp⟩ := (Option.any_eq_true _ _).mp (g.sender a hk)
          have hbusy := o.busy a f ha (by revert hp; cases f.pc <;> simp [CallPc.pending, CallPc.creating])
          rw [hs] at hbusy
          cases hbusy
  | queued => rfl
  | taken => rfl
  | released => rfl

theorem Inv.enqueued_eq (inv : Inv s) (b : Block) : (s.tally b).enqueued =
    if (s.tally b).stage = .queued ∨ (s.tally b).stage = .taken ∨ (s.tally b).stage = .released
    then 1 else 0 :=
  (inv.good b).enqueued

theorem Inv.released_eq (inv : Inv s) (b : Block) :
    (s.tally b).released = if (s.tally b).stage = .released then 1 else 0 :=
  (inv.good b).releasedOnce

/-- A taken block has not been freed. -/
theorem Inv.taken_live (inv : Inv s) (hk : (s.tally d).stage = .taken) :
    ∃ c, s.control d = some c := by
  refine Option.ne_none_iff_exists'.mp fun hn => ?_
  rcases (inv.good d).gone hn with h' | h' <;> rw [life_tally, hk] at h' <;> cases h'

/-- A taken block whose thread has completed is touched by the reaper alone. -/
theorem Inv.exclusive (inv : Inv s) (o : AllOwned s) (hk : (s.tally d).stage = .taken)
    (hx : s.control d = some x) (hdone : x.thread = .completed) (he : e ≠ .reaper) :
    s.accesses e ≠ some d := by
  intro hacc
  cases e with
  | create | join | detach => cases hacc
  | reaper => exact he rfl
  | call a ok =>
      simp only [State.accesses, Option.bind_eq_some_iff, Option.ite_none_right_eq_some,
        Option.some.injEq] at hacc
      obtain ⟨f, ha, hf, rfl⟩ := hacc
      exact (call_accesses (inv.good _) (o _) (life_call_of_block ha) hf).2 hk
  | thread b =>
      simp only [State.accesses, Option.bind_eq_some_iff, Option.ite_none_right_eq_some,
        Option.some.injEq] at hacc
      obtain ⟨y, hy, hacc, hyd⟩ := hacc
      have hself : y.control = b := (inv.live hy).self (by
        revert hacc
        cases y.thread <;> simp [EntryPc.accesses, EntryPc.started])
      rw [← hyd, hself, hy] at hx
      cases hx
      rw [hdone] at hacc
      cases hacc

/-- Whatever a step accesses is live. -/
theorem Inv.accesses_live (inv : Inv s) (o : AllOwned s) (hacc : s.accesses e = some b) :
    s.control b ≠ none := by
  cases e with
  | create | join | detach => cases hacc
  | reaper =>
      have hw : s.reaper.working = true ∧ s.reaper.block = some b := by
        revert hacc
        simp only [State.accesses]
        cases s.reaper <;> simp [ReaperPc.working, ReaperPc.block]
      obtain ⟨c, hc⟩ := inv.taken_live (inv.taken_iff.mpr hw)
      rw [hc]
      simp
  | call a ok =>
      simp only [State.accesses, Option.bind_eq_some_iff, Option.ite_none_right_eq_some,
        Option.some.injEq] at hacc
      obtain ⟨f, ha, hf, rfl⟩ := hacc
      exact (call_accesses (inv.good _) (o _) (life_call_of_block ha) hf).1
  | thread d =>
      simp only [State.accesses, Option.bind_eq_some_iff, Option.ite_none_right_eq_some,
        Option.some.injEq] at hacc
      obtain ⟨y, hy, hacc, rfl⟩ := hacc
      have hself : y.control = d := (inv.live hy).self (by
        revert hacc
        cases y.thread <;> simp [EntryPc.accesses, EntryPc.started])
      rw [hself, hy]
      simp

theorem Inv.lifecycleGuarantee (inv : Inv s) (o : AllOwned s) : LifecycleGuarantee s := by
  refine ⟨fun b => ?_, fun b hs hx => queued_of_spent (inv.good b) (o b) hs hx, fun m hm => ?_,
    fun b => ?_, fun b hb => ?_, fun d hp hd => ?_, fun a f ok s' ha hf hs => ?_,
    fun e b he => inv.accesses_live o he,
    fun b hb => (inv.good b).registered (by simp [State.life, hb]), fun d hd => ?_⟩
  · rw [inv.enqueued_eq b]
    split <;> omega
  · rw [inv.found m hm]
    exact ⟨inv.findThread_idOf (inv.taken_registered hm), inv.taken_registered hm⟩
  · rw [inv.released_eq b]
    split <;> omega
  · rw [inv.enqueued_eq b] at hb
    split at hb
    · rename_i hk
      rcases hk with hk | hk | hk
      · have hq : (s.cleanupQueue.map Message.block).count b = 1 := by
          have hq : _ = if (s.tally b).stage = .queued then 1 else 0 := (inv.good b).queue
          rwa [if_pos hk] at hq
        have hmem := List.count_pos_iff.mp (Nat.lt_of_lt_of_eq Nat.one_pos hq.symm)
        exact .inr (.inl (List.mem_map.mp hmem))
      · exact .inr (.inr (inv.taken_iff.mp hk))
      · exact .inl (by rw [inv.released_eq b, if_pos hk])
    · cases hb
  · have hw : s.reaper.working = true := by
      revert hp
      cases s.reaper <;> simp [ReaperPc.pastPoll, ReaperPc.working]
    have hk := inv.taken_iff.mpr ⟨hw, hd⟩
    obtain ⟨x, hx⟩ := inv.taken_live hk
    have hdone := (inv.live hx).completed (by rw [life_reaper rfl hd]; exact hp)
    have hclean := (inv.live hx).cleaned
    rw [hdone] at hclean
    exact ⟨⟨x, hx, hdone⟩, by rw [inv.enqueued_eq d, hk]; rfl, by rw [inv.released_eq d, hk]; rfl,
      hclean, fun e he => inv.exclusive o hk hx hdone he⟩
  · simp only [step, State.callStep, ha, Option.bind_some, hf, Option.ite_none_right_eq_some] at hs
    have hk : (s.tally f.block).stage = .released :=
      ((inv.good f.block).posted a f (life_call_of_block ha) hs.1).2
    rw [inv.released_eq, if_pos hk]
  · have hk := inv.taken_iff.mpr ⟨by rw [hd]; rfl, by rw [hd]; rfl⟩
    obtain ⟨x, hx⟩ := inv.taken_live hk
    obtain ⟨h1, h2, h3⟩ := inv.finishing_enabled hx hk
    exact ⟨x, hx, h2, h1, h3⟩

/-- The thread functions keep their guarantee in every run in which the
    callers keep the rules and every registration is fresh. -/
theorem lifecycle_guarantee (hrun : Run step Proper init h s) : LifecycleGuarantee s :=
  (owned_of_run hrun).1.lifecycleGuarantee (owned_of_run hrun).2

/-- The life of a joined thread, from its creation to the return of the join. -/
def joinedLife : List Event :=
  bodyEvents 0 ++ exitEvents 0 ++ [.join (.app 0) 0] ++ joinEvents ++ releaseEvents

theorem lifecycle_guarantee_joinedLife :
    ∃ s, replay step start joinedLife = some s ∧ (s.tally 0).released = 1 ∧
      LifecycleGuarantee s :=
  ⟨_, rfl, rfl, lifecycle_guarantee (Run.of_replay rfl
    (by decide +kernel : Guarded step Proper [] start joinedLife) rfl)⟩

/-- Block `registryPeriod` is registered while block 0 still is; block 0 is
    detached and its thread exits, and so does the new one. -/
def mixUp : List Event :=
  [.create (.app 0), .call (.app 0) true, .thread registryPeriod] ++
    [.detach (.app 0) 0, .call (.app 0) true, .call (.app 0) true, .call (.app 0) true] ++
    List.replicate 8 (.thread 0) ++ List.replicate 7 (.thread registryPeriod) ++
    -- the reaper receives block 0 and finds the other one
    List.replicate 7 .reaper ++ [.join (.app 0) registryPeriod]

/-- With the id of block 0 the reaper frees another block, which its owner has
    neither joined nor detached yet. -/
theorem lifecycle_broken :
    ∃ h s, Run step (fun _ s e => Disciplined s e) init h s ∧ ¬ LifecycleGuarantee s := by
  obtain ⟨h, hrun⟩ := base_run (registryPeriod - 1)
  have hg : Guarded step (fun _ s e => Disciplined s e) [] (base registryPeriod) mixUp := by
    decide +kernel
  -- the join is about to wait on a semaphore of the freed block
  have hdangling : (replay step (base registryPeriod) mixUp).any fun s =>
      (s.accesses (.call (.app 0) true)).any fun b => (s.control b).isNone := by decide +kernel
  obtain ⟨s, hs, hdangling⟩ := (Option.any_eq_true _ _).mp hdangling
  obtain ⟨b, hb, hnone⟩ := (Option.any_eq_true _ _).mp hdangling
  exact ⟨_, _, hrun.append_replay (hg.any_history h) hs,
    fun g => g.accesses _ _ hb (Option.isNone_iff_eq_none.mp hnone)⟩

end Lifecycle

end Threads
end Backend
end NucleoBase
