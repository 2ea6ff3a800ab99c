/-
  NucleoBase.Backend.ThreadsRefine

  Every step of the system is at most one step in the life of one block.

  `State.life` cuts out of a state what concerns one block.  The operations
  of the model commute with it, so that a step of `thread_entry`, of a call or
  of the reaper shows in the life of its own block as the step of the same
  name and in every other life not at all.
-/

import NucleoBase.Backend.ThreadLifeGood

namespace NucleoBase
namespace Backend
namespace Threads

open Lib ThreadX

/-! ## The life of a block -/

/-- What of the state concerns block `b`. -/
def State.life (s : State) (b : Block) : Life where
  control := s.control b
  registered := decide (b ∈ s.registry)
  call := fun a => (s.call a).filter fun f => f.block = b
  queued := (s.cleanupQueue.map Message.block).count b
  reaper := if s.reaper.block = some b then s.reaper else .receive
  tally := s.tally b

section Projection

variable {s s' : State} {a : Agent} {b d : Block} {f : Call} {c : ThreadControl}

@[simp] theorem life_control : (s.life b).control = s.control b := rfl

@[simp] theorem life_tally : (s.life b).tally = s.tally b := rfl

theorem life_call_eq_some : (s.life b).call a = some f ↔ s.call a = some f ∧ f.block = b := by
  simp [State.life, Option.filter_eq_some_iff]

theorem life_call_of_block (h : s.call a = some f) : (s.life f.block).call a = some f :=
  life_call_eq_some.mpr ⟨h, rfl⟩

theorem life_call_eq_none (h : ∀ f, s.call a = some f → f.block ≠ b) :
    (s.life b).call a = none :=
  Option.eq_none_iff_forall_ne_some.mpr fun f hf =>
    h f (life_call_eq_some.mp hf).1 (life_call_eq_some.mp hf).2

theorem life_modify (h : s.control d = some c) (k : ThreadControl → ThreadControl) :
    (s.modify d k).life d = (s.life d).put (k c) := by
  simp only [State.life, State.modify, Life.put, h, Option.map_some, Function.update_self]

theorem control_modify (h : s.control d = some c) (k : ThreadControl → ThreadControl) :
    (s.modify d k).control d = some (k c) := by
  simp [State.modify, h]

theorem life_modify_ne (hb : b ≠ d) (k : ThreadControl → ThreadControl) :
    (s.modify d k).life b = s.life b := by
  simp only [State.life, State.modify, Function.update_of_ne hb]
  rfl

theorem life_record (k : Tally → Tally) : (s.record d k).life d = (s.life d).record k := by
  simp only [State.life, State.record, Life.record, Function.update_self]
  rfl

theorem life_record_ne (hb : b ≠ d) (k : Tally → Tally) : (s.record d k).life b = s.life b := by
  simp only [State.life, State.record, Function.update_of_ne hb]
  rfl

theorem life_setCall (x : Option Call) :
    (s.setCall a x).life b = (s.life b).setCall a (x.filter fun f => f.block = b) := by
  have hcall : (fun a' => (Function.update s.call a x a').filter fun f => f.block = b) =
      Function.update (s.life b).call a (x.filter fun f => f.block = b) := by
    funext a'
    rcases eq_or_ne a' a with rfl | hne
    · simp
    · simp [State.life, hne]
  simp only [State.life, State.setCall, Life.setCall, hcall]
  rfl

theorem Life.setCall_self {l : Life} {x : Option Call} (h : l.call a = x) : l.setCall a x = l := by
  subst h
  simp [Life.setCall]

theorem life_setCall_some (h : f.block = b) :
    (s.setCall a (some f)).life b = (s.life b).setCall a (some f) := by
  rw [life_setCall, Option.filter_some_pos (by simpa using h)]

theorem life_setCall_none : (s.setCall a none).life b = (s.life b).setCall a none := by
  rw [life_setCall, Option.filter_none]

/-- What an agent does in a call on another block is nothing to this one. -/
theorem life_setCall_ne {x : Option Call} (h : ∀ f, s.call a = some f → f.block ≠ b)
    (hx : ∀ f ∈ x, f.block ≠ b) : (s.setCall a x).life b = s.life b := by
  have hfilter : (x.filter fun f => f.block = b) = none := by
    rw [Option.filter_eq_none_iff]
    simpa using hx
  rw [life_setCall, hfilter, Life.setCall_self (life_call_eq_none h)]

theorem life_registerThread : s.registerThread.life s.nextBlock =
    { s.life s.nextBlock with
      control := some { registryId := s.nextRegistryId }, registered := true } := by
  simp only [State.life, State.registerThread, Function.update_self, List.mem_cons_self,
    decide_true]
  rfl

theorem life_registerThread_ne (hb : b ≠ s.nextBlock) :
    s.registerThread.life b = s.life b := by
  simp only [State.life, State.registerThread, Function.update_of_ne hb, List.mem_cons, hb,
    false_or]
  rfl

theorem life_setControl (c : Option ThreadControl) :
    { s with control := Function.update s.control d c }.life d = { s.life d with control := c } := by
  simp only [State.life, Function.update_self]

theorem life_setControl_ne (hb : b ≠ d) (c : Option ThreadControl) :
    { s with control := Function.update s.control d c }.life b = s.life b := by
  simp only [State.life, Function.update_of_ne hb]

theorem life_setReaper (r : ReaperPc) :
    { s with reaper := r }.life b =
      { s.life b with reaper := if r.block = some b then r else .receive } := rfl

/-- The reaper works on one block at a time. -/
theorem life_setReaper_ne {r : ReaperPc} (hs : ∀ d, s.reaper.block = some d → d ≠ b)
    (hr : ∀ d, r.block = some d → d ≠ b) : { s with reaper := r }.life b = s.life b := by
  have h1 : ¬ s.reaper.block = some b := fun h => hs b h rfl
  have h2 : ¬ r.block = some b := fun h => hr b h rfl
  simp only [State.life, if_neg h1, if_neg h2]

theorem life_reaper {r : ReaperPc} (h : s.reaper = r) (hb : r.block = some b) :
    (s.life b).reaper = r := by
  simp [State.life, h, hb]

theorem life_unregisterThread (hn : s.registry.Nodup) :
    (s.unregisterThread d).life d = { s.life d with registered := false } := by
  simp only [State.life, State.unregisterThread, hn.not_mem_erase, decide_false]
  rfl

theorem life_unregisterThread_ne (hb : b ≠ d) : (s.unregisterThread d).life b = s.life b := by
  simp only [State.life, State.unregisterThread, List.mem_erase_of_ne hb]
  rfl

theorem enqueueCleanup_eq_some (h : s.enqueueCleanup d = some s') :
    ∃ c, s.control d = some c ∧ s.cleanupQueue.length < cleanupQueueDepth ∧
      s' = { s with cleanupQueue := s.cleanupQueue ++ [Message.mk c.registryId d] }.record d
        fun t => { t with stage := .queued, enqueued := t.enqueued + 1 } := by
  simp only [State.enqueueCleanup, Option.bind_eq_some_iff, Option.ite_none_right_eq_some,
    Option.some.injEq] at h
  obtain ⟨c, hc, hlen, rfl⟩ := h
  exact ⟨c, hc, hlen, rfl⟩

theorem life_enqueueCleanup (h : s.enqueueCleanup d = some s') :
    s'.life d = (s.life d).enqueue := by
  obtain ⟨c, -, -, rfl⟩ := enqueueCleanup_eq_some h
  rw [life_record]
  simp only [State.life, Life.enqueue, List.map_append, List.count_append, List.map_cons,
    List.map_nil, List.count_singleton_self]

theorem life_enqueueCleanup_ne (h : s.enqueueCleanup d = some s') (hb : b ≠ d) :
    s'.life b = s.life b := by
  obtain ⟨c, -, -, rfl⟩ := enqueueCleanup_eq_some h
  rw [life_record_ne hb]
  simp only [State.life, List.map_append, List.count_append, List.map_cons, List.map_nil,
    List.count_singleton, beq_iff_eq, Ne.symm hb, if_false, Nat.add_zero]

theorem control_enqueueCleanup (h : s.enqueueCleanup d = some s') : s'.control = s.control := by
  obtain ⟨c, -, -, rfl⟩ := enqueueCleanup_eq_some h
  rfl

theorem lock_eq_some (h : s.lock d a = some s') :
    ∃ c m, s.control d = some c ∧ c.lifecycleMutex.get a = some m ∧
      s' = s.modify d fun c => { c with lifecycleMutex := m } := by
  simp only [State.lock, Option.bind_eq_some_iff, Option.map_eq_some_iff] at h
  obtain ⟨c, hc, m, hm, rfl⟩ := h
  exact ⟨c, m, hc, hm, rfl⟩

theorem unlock_eq_some (h : s.unlock d a = some s') :
    ∃ c m, s.control d = some c ∧ c.lifecycleMutex.put a = some m ∧
      s' = s.modify d fun c => { c with lifecycleMutex := m } := by
  simp only [State.unlock, Option.bind_eq_some_iff, Option.map_eq_some_iff] at h
  obtain ⟨c, hc, m, hm, rfl⟩ := h
  exact ⟨c, m, hc, hm, rfl⟩

theorem control_claim (h : s.control d = some c) (k : Sender) :
    (s.claim d k).control d = some { c with cleanupQueued := true } :=
  control_modify h _

theorem life_claim (h : s.control d = some c) (k : Sender) :
    (s.claim d k).life d = ((s.life d).put { c with cleanupQueued := true }).claim k := by
  rw [State.claim, life_record, life_modify h]
  rfl

theorem life_claim_ne (hb : b ≠ d) (k : Sender) : (s.claim d k).life b = s.life b := by
  rw [State.claim, life_record_ne hb, life_modify_ne hb]

end Projection

/-! ## Refinement -/

/-- The part of the state that belongs to no block. -/
def State.shared (s : State) :
    List Block × RegistryId × Block × List Message × ReaperPc × (Agent → Option Call) :=
  (s.registry, s.nextRegistryId, s.nextBlock, s.cleanupQueue, s.reaper, s.call)

/-- What a step that registers nothing does to the shared part. -/
structure Keeps (s s' : State) : Prop where
  nextRegistryId : s'.nextRegistryId = s.nextRegistryId
  nextBlock : s'.nextBlock = s.nextBlock
  registry : s'.registry.Sublist s.registry
  messages : ∀ m ∈ s'.cleanupQueue, m ∈ s.cleanupQueue ∨ m.registryId = idOf m.block
  found : ∀ m, s'.reaper = .find m → m ∈ s.cleanupQueue ∨ s.reaper = .find m
  call : ∀ b f, s'.call (.std b) = some f → s.call (.std b) = none →
    ∃ c, s.control b = some c ∧ c.thread.running = true

theorem Keeps.of_shared {s s' : State} (h : s'.shared = s.shared) : Keeps s s' := by
  simp only [State.shared, Prod.mk.injEq] at h
  obtain ⟨hr, hid, hn, hq, hre, hc⟩ := h
  exact {
    nextRegistryId := hid
    nextBlock := hn
    registry := by rw [hr]
    messages := fun m hm => .inl (by rwa [hq] at hm)
    found := fun m hm => .inr (by rwa [hre] at hm)
    call := fun b f hf hnone => by
      rw [hc, hnone] at hf
      cases hf }

/-- The step from `s` to `s'` registers no block and changes the life of at
    most one, and that one by a step of its own machine. -/
inductive Refines (mayBegin : Life → Prop) (s s' : State) : Prop
  | stutter : s' = s → Refines mayBegin s s'
  | live (d : Block) : d < s.nextBlock → Keeps s s' → (∀ b, b ≠ d → s'.life b = s.life b) →
      Life.Step d (s.call (.std d) = none) mayBegin (s.life d) (s'.life d) →
      Refines mayBegin s s'

/-- What holds of the system as a whole: of every block, and of the ids by
    which the blocks find each other. -/
structure Inv (s : State) : Prop where
  good : ∀ b, Good b (s.life b)
  next : s.nextRegistryId = idOf s.nextBlock
  fresh : ∀ b, s.nextBlock ≤ b → s.life b = {}
  sorted : s.registry.Pairwise (· > ·)
  distinct : s.registry.Pairwise fun b d => idOf b ≠ idOf d
  messages : ∀ m ∈ s.cleanupQueue, m.registryId = idOf m.block
  found : ∀ m, s.reaper = .find m → m.registryId = idOf m.block
  inCall : ∀ b f, s.call (.std b) = some f → ∃ c, s.control b = some c ∧ c.thread.running = true

section Refinement

variable {s s' : State} {a : Agent} {b d : Block} {f : Call} {c : ThreadControl}
  {mayBegin : Life → Prop}

theorem Inv.live (inv : Inv s) (h : s.control b = some c) : Live b c (s.life b) :=
  (inv.good b).live c h

theorem Inv.lt_nextBlock (inv : Inv s) (h : s.control b = some c) : b < s.nextBlock := by
  by_contra hn
  have hfresh := congrArg Life.control (inv.fresh b (Nat.le_of_not_lt hn))
  rw [life_control, h] at hfresh
  cases hfresh

theorem Inv.registered_live (inv : Inv s) (h : b ∈ s.registry) : ∃ c, s.control b = some c :=
  Option.ne_none_iff_exists'.mp ((inv.good b).registered (by simp [State.life, h]))

/-- `find_thread` finds the block whose id it is given. -/
theorem Inv.findThread_idOf (inv : Inv s) (h : b ∈ s.registry) :
    s.findThread (idOf b) = some b := by
  obtain ⟨c, hc⟩ := inv.registered_live h
  have hmatch : (s.control b).any (fun c => c.registryId = idOf b) = true := by
    simp [hc, (inv.live hc).ident]
  obtain ⟨l₁, l₂, hsplit⟩ := List.append_of_mem h
  rw [State.findThread, hsplit, List.find?_append, List.find?_cons, hmatch]
  have hnone : l₁.find? (fun d => (s.control d).any fun c => c.registryId = idOf b) = none := by
    rw [List.find?_eq_none]
    intro d hd hany
    obtain ⟨c', hc', hid⟩ := (Option.any_eq_true _ _).mp hany
    have hne : idOf d ≠ idOf b := by
      have hp := inv.distinct
      rw [hsplit, List.pairwise_append] at hp
      exact hp.2.2 d hd b List.mem_cons_self
    exact hne ((inv.live hc').ident.symm.trans (of_decide_eq_true hid))
  rw [hnone]
  rfl

/-- A thread that has not exited is on the registry. -/
theorem Inv.ready_registered (inv : Inv s) (h : s.control b = some c) {p : RegistryId}
    (ht : c.thread = .ready p) : b ∈ s.registry := by
  by_contra hn
  have hl := inv.live h
  rcases hl.found (by simp [State.life, hn]) with hr | hr
  · have := hl.completed (by
      revert hr
      cases (s.life b).reaper <;> simp [ReaperPc.unregistered, ReaperPc.pastPoll])
    rw [ht] at this
    cases this
  · rw [ht] at hr
    cases hr

theorem Keeps.refl (s : State) : Keeps s s := .of_shared rfl

theorem Refines.intro (hlt : d < s.nextBlock) (hk : Keeps s s')
    (hne : ∀ b, b ≠ d → s'.life b = s.life b) {l : Life} (hd : s'.life d = l)
    (hstep : Life.Step d (s.call (.std d) = none) mayBegin (s.life d) l) :
    Refines mayBegin s s' :=
  .live d hlt hk hne (by rw [hd]; exact hstep)

theorem Keeps.enqueueCleanup (inv : Inv s) (h : s.enqueueCleanup d = some s') : Keeps s s' := by
  obtain ⟨c, hc, -, rfl⟩ := enqueueCleanup_eq_some h
  exact { Keeps.refl s with
    messages := fun m hm => by
      rcases List.mem_append.mp hm with hm | hm
      · exact .inl hm
      · rw [List.mem_singleton] at hm
        subst hm
        exact .inr (inv.live hc).ident }

theorem Keeps.unregisterThread (d : Block) : Keeps s (s.unregisterThread d) :=
  { Keeps.refl s with registry := List.erase_sublist }

theorem threadEntry_refines (inv : Inv s) (hs : s.threadEntry d = some s') :
    Refines mayBegin s s' := by
  simp only [State.threadEntry, Option.bind_eq_some_iff] at hs
  obtain ⟨self, h, hs⟩ := hs
  split at hs
  · cases hs
  rename_i hidle
  rw [not_not] at hidle
  have hl := inv.live h
  have hlt := inv.lt_nextBlock h
  have hcall : (s.life d).call (.std d) = none := life_call_eq_none (by simp [hidle])
  have hself : self.thread.started = true → self.control = d := hl.self
  cases ht : self.thread with
  | dormant => simp [ht] at hs
  | completed => simp [ht] at hs
  | ready p =>
      obtain rfl := hl.parameter p ht
      simp only [ht, inv.findThread_idOf (inv.ready_registered h ht), Option.map_some,
        Option.some.injEq] at hs
      subst hs
      exact Refines.intro hlt (.of_shared rfl) (fun b hb => life_modify_ne hb _) (life_modify h _)
        (.start hidle h hcall ht)
  | body =>
      simp only [ht, Option.some.injEq] at hs
      subst hs
      exact Refines.intro hlt (.of_shared rfl) (fun b hb => life_modify_ne hb _) (life_modify h _)
        (.bodyEnd hidle h hcall ht)
  | callbacks =>
      simp only [ht, hself (by rw [ht]; rfl), h, Option.map_some, Option.some.injEq] at hs
      subst hs
      refine Refines.intro hlt (.of_shared rfl) (fun b hb => ?_) ?_ (.callbacksEnd hidle h hcall ht)
      · rw [life_record_ne hb, State.setThread, life_modify_ne hb]
      · rw [life_record, State.setThread, life_modify h]
  | lock =>
      simp only [ht, hself (by rw [ht]; rfl), Option.map_eq_some_iff] at hs
      obtain ⟨s₁, hlock, rfl⟩ := hs
      obtain ⟨c, m, hc, hm, rfl⟩ := lock_eq_some hlock
      rw [h] at hc
      cases hc
      refine Refines.intro hlt (.of_shared rfl) (fun b hb => ?_) ?_ (.lock hidle h hcall ht hm)
      · rw [State.setThread, life_modify_ne hb, life_modify_ne hb]
      · rw [State.setThread, life_modify (control_modify h _), life_modify h]
        rfl
  | mark =>
      simp only [ht, hself (by rw [ht]; rfl), h, Option.map_some, Option.some.injEq] at hs
      subst hs
      cases hq : self.detached && !self.cleanupQueued with
      | false =>
          refine Refines.intro hlt (.of_shared rfl) (fun b hb => ?_) ?_ (.mark hidle h hcall ht hq)
          · simp only [Bool.false_eq_true, if_false, State.setThread, life_modify_ne hb]
          · simp only [Bool.false_eq_true, if_false, State.setThread]
            rw [life_modify (control_modify h _), life_modify h]
            rfl
      | true =>
          refine Refines.intro hlt (.of_shared rfl) (fun b hb => ?_) ?_ (.markClaim hidle h hcall ht hq)
          · simp only [if_true, State.setThread, life_modify_ne hb, life_claim_ne hb]
          · simp only [if_true, State.setThread]
            rw [life_modify (control_claim (control_modify h _) _),
              life_claim (control_modify h _), life_modify h]
            rfl
  | unlock e =>
      simp only [ht, hself (by rw [ht]; rfl), Option.map_eq_some_iff] at hs
      obtain ⟨s₁, hunlock, rfl⟩ := hs
      obtain ⟨c, m, hc, hm, rfl⟩ := unlock_eq_some hunlock
      rw [h] at hc
      cases hc
      refine Refines.intro hlt (.of_shared rfl) (fun b hb => ?_) ?_ (.unlock hidle h hcall ht hm)
      · rw [State.setThread, life_modify_ne hb, life_modify_ne hb]
      · rw [State.setThread, life_modify (control_modify h _), life_modify h]
        rfl
  | putCompletion e =>
      simp only [ht, hself (by rw [ht]; rfl), h, Option.map_some, Option.some.injEq] at hs
      subst hs
      refine Refines.intro hlt (.of_shared rfl) (fun b hb => ?_) ?_ (.putCompletion hidle h hcall ht)
      · rw [State.setThread, life_modify_ne hb, life_modify_ne hb]
      · rw [State.setThread, life_modify (control_modify h _), life_modify h]
        rfl
  | send =>
      simp only [ht, hself (by rw [ht]; rfl), Option.map_eq_some_iff] at hs
      obtain ⟨s₁, hsend, rfl⟩ := hs
      have hc := control_enqueueCleanup hsend
      refine Refines.intro hlt ?_ (fun b hb => ?_) ?_ (.send hidle h hcall ht)
      · exact { Keeps.enqueueCleanup inv hsend with }
      · rw [State.setThread, life_modify_ne hb, life_enqueueCleanup_ne hsend hb]
      · rw [State.setThread, life_modify (by rw [hc, h]), life_enqueueCleanup hsend]
        rfl
  | leave =>
      simp only [ht, Option.some.injEq] at hs
      subst hs
      exact Refines.intro hlt (.of_shared rfl) (fun b hb => life_modify_ne hb _) (life_modify h _)
        (.leave hidle h hcall ht)

/-- An agent that is in a call may go on with it or end it. -/
theorem Keeps.setCall {s₁ : State} (hk : Keeps s s₁) (hcall : s₁.call = s.call)
    (ha : s.call a = some f) {x : Option Call} : Keeps s (s₁.setCall a x) :=
  { hk with
    call := fun b f' hf' hnone => by
      have hne : .std b ≠ a := by
        rintro rfl
        rw [ha] at hnone
        cases hnone
      simp only [State.setCall, Function.update_of_ne hne, hcall, hnone] at hf'
      cases hf' }

/-- A step of a call: whatever else it does to its block (`t`), the call then
    goes on or ends. -/
theorem Refines.ofCall (ha : s.call a = some f) (hlt : f.block < s.nextBlock) {t : State}
    {x : Option Call} (hcall : t.call = s.call) (hk : Keeps s t)
    (hne : ∀ b, b ≠ f.block → t.life b = s.life b) (hx : ∀ f' ∈ x, f'.block = f.block)
    (hstep : Life.Step f.block (s.call (.std f.block) = none) mayBegin (s.life f.block)
      ((t.life f.block).setCall a x)) : Refines mayBegin s (t.setCall a x) := by
  have hx' : x.filter (fun f' => f'.block = f.block) = x := by
    cases x with
    | none => rfl
    | some f' => exact Option.filter_some_pos (by simpa using hx f' rfl)
  refine Refines.intro hlt (hk.setCall hcall ha) (fun b hb => ?_) (by rw [life_setCall, hx']) hstep
  rw [← hne b hb]
  refine life_setCall_ne (fun f' hf' => ?_) fun f' hf' => ?_
  · rw [hcall, ha] at hf'
    cases hf'
    exact Ne.symm hb
  · rw [hx f' hf']
    exact Ne.symm hb

/-- A call that ends passes the handle on. -/
theorem Refines.ofCallEnd (ha : s.call a = some f) (hlt : f.block < s.nextBlock) {s₁ : State}
    {k : Tally → Tally} (hcall : s₁.call = s.call) (hk : Keeps s s₁)
    (hne : ∀ b, b ≠ f.block → s₁.life b = s.life b)
    (hstep : Life.Step f.block (s.call (.std f.block) = none) mayBegin (s.life f.block)
      (((s₁.life f.block).setCall a none).record k)) :
    Refines mayBegin s ((s₁.setCall a none).record f.block k) := by
  refine Refines.intro hlt { hk.setCall hcall ha with } (fun b hb => ?_)
    (by rw [life_record, life_setCall_none]) hstep
  rw [life_record_ne hb, ← hne b hb]
  refine life_setCall_ne (fun f' hf' => ?_) (by simp)
  rw [hcall, ha] at hf'
  cases hf'
  exact Ne.symm hb

theorem callStep_refines (inv : Inv s) {ok : Bool} (hlt : f.block < s.nextBlock)
    (ha : s.call a = some f) (hs : s.callStep a f ok = some s') : Refines mayBegin s s' := by
  have hcall := life_call_of_block ha
  cases hpc : f.pc with
  | create =>
      simp only [State.callStep, hpc, Option.map_eq_some_iff] at hs
      obtain ⟨c, h, rfl⟩ := hs
      cases ok with
      | true =>
          simp only [if_true]
          refine Refines.ofCallEnd ha hlt rfl (.of_shared rfl) (fun b hb => life_modify_ne hb _) ?_
          rw [State.setThread, life_modify h]
          exact .created hcall hpc h
      | false =>
          simp only [Bool.false_eq_true, if_false]
          exact Refines.ofCall ha hlt rfl (.of_shared rfl) (fun _ _ => rfl) (by simp)
            (.createFailed hcall hpc h)
  | unregister =>
      simp only [State.callStep, hpc, Option.some.injEq] at hs
      subst hs
      have hn : s.registry.Nodup := inv.sorted.imp Nat.ne_of_gt
      refine Refines.ofCall ha hlt rfl (.unregisterThread _) (fun b hb => life_unregisterThread_ne hb)
        (by simp) ?_
      rw [life_unregisterThread hn]
      exact .unregister hcall hpc
  | discard =>
      simp only [State.callStep, hpc, Option.map_eq_some_iff] at hs
      obtain ⟨c, h, rfl⟩ := hs
      refine Refines.ofCall (t := { s with control := Function.update s.control f.block none })
        ha hlt rfl (.of_shared rfl) (fun b hb => life_setControl_ne hb _) (by simp) ?_
      rw [life_setControl]
      exact .discard hcall hpc h
  | joinWait =>
      cases ok with
      | true =>
          simp only [State.callStep, hpc, if_true, Option.bind_eq_some_iff,
            Option.ite_none_right_eq_some, Option.some.injEq] at hs
          obtain ⟨c, h, hpos, rfl⟩ := hs
          refine Refines.ofCall ha hlt rfl (.of_shared rfl) (fun b hb => life_modify_ne hb _) (by simp) ?_
          rw [life_modify h]
          exact .joinWait hcall hpc h hpos
      | false =>
          simp only [State.callStep, hpc, Bool.false_eq_true, if_false, Option.some.injEq] at hs
          subst hs
          exact Refines.ofCallEnd ha hlt rfl (.of_shared rfl) (fun _ _ => rfl) (.refuse hcall (.inl hpc))
  | joinCreateAck =>
      cases ok with
      | true =>
          simp only [State.callStep, hpc, if_true, Option.some.injEq] at hs
          subst hs
          exact Refines.ofCall ha hlt rfl (.of_shared rfl) (fun _ _ => rfl) (by simp) (.joinCreateAck hcall hpc)
      | false =>
          simp only [State.callStep, hpc, Bool.false_eq_true, if_false, Option.some.injEq] at hs
          subst hs
          exact Refines.ofCallEnd ha hlt rfl (.of_shared rfl) (fun _ _ => rfl) (.refuse hcall (.inr hpc))
  | joinLock =>
      simp only [State.callStep, hpc, Option.map_eq_some_iff] at hs
      obtain ⟨s₁, hlock, rfl⟩ := hs
      obtain ⟨c, m, h, hm, rfl⟩ := lock_eq_some hlock
      refine Refines.ofCall ha hlt rfl (.of_shared rfl) (fun b hb => life_modify_ne hb _) (by simp) ?_
      rw [life_modify h]
      exact .callLock hcall h (.inl ⟨hpc, rfl⟩) hm
  | joinTest =>
      simp only [State.callStep, hpc, Option.map_eq_some_iff] at hs
      obtain ⟨c, h, rfl⟩ := hs
      cases hq : c.detached || c.cleanupQueued with
      | true =>
          simp only [if_true]
          exact Refines.ofCall ha hlt rfl (.of_shared rfl) (fun _ _ => rfl) (by simp)
            (.testRefused hcall h (.inl ⟨hpc, rfl⟩) hq)
      | false =>
          simp only [Bool.false_eq_true, if_false]
          refine Refines.ofCall ha hlt rfl (.of_shared rfl) (fun b hb => ?_) (by simp) ?_
          · rw [life_claim_ne hb, life_modify_ne hb]
          · rw [life_claim (control_modify h _), life_modify h]
            exact Life.Step.joinTest (l := s.life f.block) (c := c) hcall h hpc hq
  | joinUnlock granted =>
      simp only [State.callStep, hpc, Option.map_eq_some_iff] at hs
      obtain ⟨s₁, hunlock, rfl⟩ := hs
      obtain ⟨c, m, h, hm, rfl⟩ := unlock_eq_some hunlock
      cases granted with
      | true =>
          simp only [if_true]
          refine Refines.ofCall ha hlt rfl (.of_shared rfl) (fun b hb => life_modify_ne hb _) (by simp) ?_
          rw [life_modify h]
          exact .unlockSend hcall h (.inl ⟨hpc, rfl⟩) hm
      | false =>
          simp only [Bool.false_eq_true, if_false]
          refine Refines.ofCallEnd ha hlt rfl (.of_shared rfl) (fun b hb => life_modify_ne hb _) ?_
          rw [life_modify h]
          exact .unlockRefuse hcall h (.inl hpc) hm
  | joinSend =>
      simp only [State.callStep, hpc, Option.map_eq_some_iff] at hs
      obtain ⟨s₁, hsend, rfl⟩ := hs
      obtain ⟨c, h, -, hs₁⟩ := enqueueCleanup_eq_some hsend
      refine Refines.ofCall ha hlt (by rw [hs₁]; rfl) (.enqueueCleanup inv hsend)
        (fun b hb => life_enqueueCleanup_ne hsend hb) (by simp) ?_
      rw [life_enqueueCleanup hsend]
      exact .joinSend hcall h hpc
  | joinAwait =>
      simp only [State.callStep, hpc, Option.ite_none_right_eq_some, Option.some.injEq] at hs
      obtain ⟨hack, rfl⟩ := hs
      exact Refines.ofCallEnd ha hlt rfl (.of_shared rfl) (fun _ _ => rfl) (.joinAwait hcall hpc hack)
  | detachLock =>
      simp only [State.callStep, hpc, Option.map_eq_some_iff] at hs
      obtain ⟨s₁, hlock, rfl⟩ := hs
      obtain ⟨c, m, h, hm, rfl⟩ := lock_eq_some hlock
      refine Refines.ofCall ha hlt rfl (.of_shared rfl) (fun b hb => life_modify_ne hb _) (by simp) ?_
      rw [life_modify h]
      exact .callLock hcall h (.inr ⟨hpc, rfl⟩) hm
  | detachTest =>
      simp only [State.callStep, hpc, Option.map_eq_some_iff] at hs
      obtain ⟨c, h, rfl⟩ := hs
      cases hq : c.detached || c.cleanupQueued with
      | true =>
          simp only [if_true]
          exact Refines.ofCall ha hlt rfl (.of_shared rfl) (fun _ _ => rfl) (by simp)
            (.testRefused hcall h (.inr ⟨hpc, rfl⟩) hq)
      | false =>
          cases hfin : c.finished with
          | true =>
              simp only [Bool.false_eq_true, if_false, if_true]
              refine Refines.ofCall ha hlt rfl (.of_shared rfl) (fun b hb => ?_) (by simp) ?_
              · rw [life_claim_ne hb, life_modify_ne hb]
              · rw [life_claim (control_modify h _), life_modify h]
                exact Life.Step.detachClaim (l := s.life f.block) (c := c) hcall h hpc hq hfin
          | false =>
              simp only [Bool.false_eq_true, if_false]
              refine Refines.ofCall ha hlt rfl (.of_shared rfl) (fun b hb => life_modify_ne hb _) (by simp) ?_
              rw [life_modify h]
              exact .detachTest hcall h hpc hq hfin
  | detachUnlock granted enqueue =>
      simp only [State.callStep, hpc, Option.map_eq_some_iff] at hs
      obtain ⟨s₁, hunlock, rfl⟩ := hs
      obtain ⟨c, m, h, hm, rfl⟩ := unlock_eq_some hunlock
      cases granted with
      | true =>
          cases enqueue with
          | true =>
              simp only [if_true]
              refine Refines.ofCall ha hlt rfl (.of_shared rfl) (fun b hb => life_modify_ne hb _) (by simp) ?_
              rw [life_modify h]
              exact .unlockSend hcall h (.inr ⟨hpc, rfl⟩) hm
          | false =>
              simp only [if_true, Bool.false_eq_true, if_false]
              refine Refines.ofCallEnd ha hlt rfl (.of_shared rfl) (fun b hb => life_modify_ne hb _) ?_
              rw [life_modify h]
              exact .unlockDetached hcall h hpc hm
      | false =>
          simp only [Bool.false_eq_true, if_false]
          refine Refines.ofCallEnd ha hlt rfl (.of_shared rfl) (fun b hb => life_modify_ne hb _) ?_
          rw [life_modify h]
          exact .unlockRefuse hcall h (.inr ⟨_, hpc⟩) hm
  | detachSend =>
      simp only [State.callStep, hpc, Option.map_eq_some_iff] at hs
      obtain ⟨s₁, hsend, rfl⟩ := hs
      obtain ⟨c, h, -, hs₁⟩ := enqueueCleanup_eq_some hsend
      refine Refines.ofCallEnd ha hlt (by rw [hs₁]; rfl) (.enqueueCleanup inv hsend)
        (fun b hb => life_enqueueCleanup_ne hsend hb) ?_
      rw [life_enqueueCleanup hsend]
      exact .detachSend hcall h hpc

/-- A block the reaper works on has been registered. -/
theorem Inv.reaper_lt (inv : Inv s) (h : s.reaper.block = some d) : d < s.nextBlock := by
  by_contra hn
  have hr := life_reaper rfl h
  rw [inv.fresh d (Nat.le_of_not_lt hn)] at hr
  rw [← hr] at h
  cases h

theorem Inv.message_lt (inv : Inv s) {m : Message} (h : m ∈ s.cleanupQueue) :
    m.block < s.nextBlock := by
  by_contra hn
  have hq := congrArg Life.queued (inv.fresh m.block (Nat.le_of_not_lt hn))
  have hpos : 0 < (s.cleanupQueue.map Message.block).count m.block :=
    List.count_pos_iff.mpr (List.mem_map_of_mem h)
  exact absurd hq (Nat.ne_of_gt hpos)

/-- A block whose cleanup is under way is registered until the reaper takes
    it off the registry. -/
theorem Inv.taken_registered (inv : Inv s) {m : Message} (h : s.reaper = .find m) :
    m.block ∈ s.registry := by
  have hr := life_reaper h rfl
  have hk := (inv.good m.block).reaper.mp (by rw [hr]; rfl)
  obtain ⟨c, hc⟩ : ∃ c, s.control m.block = some c := by
    refine Option.ne_none_iff_exists'.mp fun hn => ?_
    rcases (inv.good m.block).gone hn with h' | h' <;> rw [hk] at h' <;> cases h'
  have hl := inv.live hc
  by_contra hn
  rcases hl.found (by simp [State.life, hn]) with h' | h'
  · rw [hr] at h'
    cases h'
  · have := (hl.dormant_unclaimed h').1
    rw [hk] at this
    cases this

/-- A step of the reaper in its work on block `d`: whatever it does to the
    block (`s₁`), it goes on to `r`. -/
theorem Refines.ofReaper (inv : Inv s) (h : s.reaper.block = some d) {s₁ : State} {r : ReaperPc}
    (hsr : s₁.reaper = s.reaper) (hk : Keeps s s₁) (hf : ∀ m, r ≠ .find m)
    (hne : ∀ b, b ≠ d → s₁.life b = s.life b) (hr : ∀ d', r.block = some d' → d' = d)
    (hstep : Life.Step d (s.call (.std d) = none) mayBegin (s.life d)
      { s₁.life d with reaper := r }) : Refines mayBegin s { s₁ with reaper := r } := by
  refine Refines.intro (inv.reaper_lt h)
    { hk with found := fun m hm => absurd hm (hf m) } (fun b hb => ?_) ?_ hstep
  · rw [← hne b hb]
    refine life_setReaper_ne (fun d' hd' => ?_) fun d' hd' => ?_
    · rw [hsr, h] at hd'
      cases hd'
      exact Ne.symm hb
    · rw [hr d' hd']
      exact Ne.symm hb
  · rw [life_setReaper]
    split
    · rfl
    · rename_i hrd
      cases hrb : r.block with
      | some d' => exact absurd (by rw [hrb, hr d' hrb]) hrd
      | none => rw [(ReaperPc.block_eq_none.mp hrb)]

theorem receive_refines (inv : Inv s) (hr : s.reaper = .receive) {m : Message} {q : List Message}
    (hq : s.cleanupQueue = m :: q) :
    Refines mayBegin s ({ s with cleanupQueue := q, reaper := .find m }.record m.block
      fun t => { t with stage := .taken }) := by
  have hlife : (s.life m.block).reaper = .receive := by simp [State.life, hr]
  have hcount : (s.life m.block).queued = (q.map Message.block).count m.block + 1 := by
    simp [State.life, hq]
  have hk : Keeps s ({ s with cleanupQueue := q, reaper := .find m }.record m.block
      fun t => { t with stage := .taken }) :=
    { Keeps.refl s with
      messages := fun m' hm' => .inl (by rw [hq]; exact List.mem_cons_of_mem m hm')
      found := fun m' hm' => .inl (by cases hm'; rw [hq]; exact List.mem_cons_self) }
  refine Refines.intro (inv.message_lt (by simp [hq])) hk (fun b hb => ?_) ?_
    (.receive hlife (by omega) rfl)
  · rw [life_record_ne hb]
    have hne : ¬ m.block = b := Ne.symm hb
    simp [State.life, hr, hq, ReaperPc.block, hne]
  · rw [life_record]
    simp [State.life, hq, ReaperPc.block, Life.record]

theorem reaperEntry_refines (inv : Inv s) (hs : s.reaperEntry = some s') :
    Refines mayBegin s s' := by
  cases hr : s.reaper with
  | receive =>
      simp only [State.reaperEntry, hr] at hs
      cases hq : s.cleanupQueue with
      | nil => simp [hq] at hs
      | cons m q =>
          simp only [hq, Option.some.injEq] at hs
          subst hs
          exact receive_refines inv hr hq
  | find m =>
      have hreg := inv.taken_registered hr
      simp only [State.reaperEntry, hr, inv.found m hr, inv.findThread_idOf hreg, Option.map_some,
        Option.some.injEq] at hs
      subst hs
      exact Refines.ofReaper inv (by rw [hr]; rfl) rfl (.of_shared rfl) (by simp) (fun _ _ => rfl)
        (by simp [ReaperPc.block]) (.find (life_reaper hr rfl))
  | poll d =>
      simp only [State.reaperEntry, hr, Option.map_eq_some_iff] at hs
      obtain ⟨c, h, rfl⟩ := hs
      split
      · rename_i hdone
        exact Refines.ofReaper inv (by rw [hr]; rfl) rfl (.of_shared rfl) (by simp) (fun _ _ => rfl)
          (by simp [ReaperPc.block]) (.poll (life_reaper hr rfl) h hdone)
      · exact .stutter rfl
  | readAck d =>
      simp only [State.reaperEntry, hr, Option.map_eq_some_iff] at hs
      obtain ⟨c, h, rfl⟩ := hs
      exact Refines.ofReaper inv (by rw [hr]; rfl) rfl (.of_shared rfl) (by simp) (fun _ _ => rfl)
        (by simp [ReaperPc.block]) (.readAck (life_reaper hr rfl) h)
  | destroy d ack =>
      simp only [State.reaperEntry, hr, Option.map_eq_some_iff] at hs
      obtain ⟨c, h, rfl⟩ := hs
      exact Refines.ofReaper inv (by rw [hr]; rfl) rfl (.of_shared rfl) (by simp) (fun _ _ => rfl)
        (by simp [ReaperPc.block]) (.destroy (life_reaper hr rfl))
  | unregister d ack =>
      simp only [State.reaperEntry, hr, Option.some.injEq] at hs
      subst hs
      refine Refines.ofReaper inv (by rw [hr]; rfl) (by rfl) (.unregisterThread d) (by simp)
        (fun b hb => life_unregisterThread_ne hb) (by simp [ReaperPc.block]) ?_
      rw [life_unregisterThread (inv.sorted.imp Nat.ne_of_gt)]
      exact .reaperUnregister (life_reaper hr rfl)
  | free d ack =>
      simp only [State.reaperEntry, hr, Option.map_eq_some_iff] at hs
      obtain ⟨c, h, rfl⟩ := hs
      have hlife := life_reaper (b := d) hr rfl
      have hk : Keeps s s := .of_shared rfl
      refine Refines.intro (inv.lt_nextBlock h) { hk with found := by simp [State.record] }
        (fun b hb => ?_) ?_ (.free hlife h)
      · rw [life_record_ne hb]
        simp [State.life, hr, ReaperPc.block, hb, Ne.symm hb]
      · rw [life_record]
        simp [State.life, ReaperPc.block, Life.record]
  | putAck d ack =>
      cases ack with
      | none =>
          simp only [State.reaperEntry, hr, Option.some.injEq] at hs
          subst hs
          exact Refines.ofReaper inv (by rw [hr]; rfl) rfl (.of_shared rfl) (by simp) (fun _ _ => rfl)
            (by simp [ReaperPc.block]) (.putNoAck (life_reaper hr rfl))
      | some a =>
          simp only [State.reaperEntry, hr, Option.map_eq_some_iff] at hs
          obtain ⟨f, ha, rfl⟩ := hs
          have hlife := life_reaper (b := d) hr rfl
          obtain ⟨f', hf', -⟩ := (Option.any_eq_true _ _).mp ((inv.good d).putAck d a hlife).2
          obtain ⟨ha', hblock⟩ := life_call_eq_some.mp hf'
          rw [ha] at ha'
          cases ha'
          have hk : Keeps s { s with reaper := .receive } :=
            { Keeps.refl s with found := by simp }
          refine Refines.intro (inv.reaper_lt (by rw [hr]; rfl)) (hk.setCall rfl ha)
            (fun b hb => ?_) ?_ (.putAck hlife hf')
          · rw [life_setCall_ne]
            · exact life_setReaper_ne (by simp [hr, ReaperPc.block, Ne.symm hb])
                (by simp [ReaperPc.block])
            · intro f' hf''
              have : s.call a = some f' := hf''
              rw [ha] at this
              cases this
              rw [hblock]
              exact Ne.symm hb
            · simp [hblock, Ne.symm hb]
          · have hb : { f with acknowledgement := f.acknowledgement + 1 }.block = d := hblock
            rw [life_setCall_some hb, life_setReaper]
            simp [ReaperPc.block]

theorem mayCall_iff : s.mayCall a = true ↔ s.call a = none ∧
    ∀ b, a = .std b → ∃ c, s.control b = some c ∧ c.thread.running = true := by
  have hrunning : ∀ e : EntryPc, (e = .body ∨ e = .callbacks) ↔ e.running = true := fun e => by
    cases e <;> simp [EntryPc.running]
  cases a with
  | app n => simp [State.mayCall]
  | std b => simp [State.mayCall, Option.any_eq_true, hrunning]

/-- A new block begins its life, and no other block notices. -/
theorem life_create (inv : Inv s) (hmay : s.mayCall a = true) :
    let s' := s.registerThread.setCall a (some { block := s.nextBlock, pc := .create })
    (∀ b, b ≠ s.nextBlock → s'.life b = s.life b) ∧
      Life.Step s.nextBlock (s.call (.std s.nextBlock) = none) mayBegin (s.life s.nextBlock)
        (s'.life s.nextBlock) := by
  have hfresh := inv.fresh s.nextBlock (Nat.le_refl _)
  obtain ⟨hidle, hself⟩ := mayCall_iff.mp hmay
  have ha : a ≠ .std s.nextBlock := by
    rintro rfl
    obtain ⟨c, hc, -⟩ := hself _ rfl
    exact absurd (inv.lt_nextBlock hc) (Nat.lt_irrefl _)
  refine ⟨fun b hb => ?_, ?_⟩
  · rw [life_setCall_ne]
    · exact life_registerThread_ne hb
    · intro f hf
      have : s.call a = some f := hf
      rw [hidle] at this
      cases this
    · simp [Ne.symm hb]
  · have hb : (Call.mk s.nextBlock .create 0).block = s.nextBlock := rfl
    rw [life_setCall_some hb, life_registerThread, hfresh, inv.next]
    exact .register a ha

/-- Beginning a join or a detach. -/
theorem beginCall_refines (hlt : d < s.nextBlock) (hmay : s.mayCall a = true) {pc : CallPc}
    (hpc : pc = .joinWait ∨ pc = .detachLock) (hbegin : mayBegin (s.life d)) :
    Refines mayBegin s (s.beginCall a d pc) := by
  obtain ⟨hidle, hself⟩ := mayCall_iff.mp hmay
  have hnone : (s.life d).call a = none := life_call_eq_none (by simp [hidle])
  have hk : Keeps s (s.beginCall a d pc) :=
    { Keeps.refl s with
      call := fun b f hf hnone => by
        rcases eq_or_ne (.std b) a with rfl | hne
        · exact hself b rfl
        · simp only [State.beginCall, State.setCall, State.record, Function.update_of_ne hne,
            hnone] at hf
          cases hf }
  refine Refines.intro hlt hk (fun b hb => ?_) ?_ (.beginCall hnone hpc hbegin ?_)
  · rw [State.beginCall, life_record_ne hb, life_setCall_ne (by simp [hidle]) (by simp [Ne.symm hb])]
  · rw [State.beginCall, life_record, life_setCall_some rfl]
    rfl
  · intro c ha hc
    obtain ⟨c', hc', hrun⟩ := hself d ha
    have : s.control d = some c := hc
    rw [hc'] at this
    cases this
    exact hrun

/-- Every step but a registration is at most one step in the life of one
    block. -/
theorem step_refines (inv : Inv s) {e : Event} (hcreate : ∀ a, e ≠ .create a)
    (hbegin : ∀ a b, e = .join a b ∧ a ≠ .std b ∨ e = .detach a b → mayBegin (s.life b))
    (hs : step s e = some s') : Refines mayBegin s s' := by
  cases e with
  | create a => exact absurd rfl (hcreate a)
  | join a b =>
      simp only [step, Option.ite_none_right_eq_some] at hs
      obtain ⟨⟨hmay, hlt⟩, hs⟩ := hs
      split at hs
      · cases hs
        exact .stutter rfl
      · rename_i hself
        cases hs
        exact beginCall_refines hlt hmay (.inl rfl) (hbegin a b (.inl ⟨rfl, hself⟩))
  | detach a b =>
      simp only [step, Option.ite_none_right_eq_some, Option.some.injEq] at hs
      obtain ⟨⟨hmay, hlt⟩, rfl⟩ := hs
      exact beginCall_refines hlt hmay (.inr rfl) (hbegin a b (.inr rfl))
  | call a ok =>
      simp only [step, Option.bind_eq_some_iff] at hs
      obtain ⟨f, ha, hs⟩ := hs
      have hlt : f.block < s.nextBlock := by
        by_contra hn
        have := congrFun (congrArg Life.call (inv.fresh f.block (Nat.le_of_not_lt hn))) a
        rw [life_call_of_block ha] at this
        cases this
      exact callStep_refines inv hlt ha hs
  | thread b => exact threadEntry_refines inv hs
  | reaper => exact reaperEntry_refines inv hs

end Refinement

end Threads
end Backend
end NucleoBase
