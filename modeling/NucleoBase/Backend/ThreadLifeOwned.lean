/-
  NucleoBase.Backend.ThreadLifeOwned

  `Owned` is kept by everything that can happen to a block whose owner begins
  a join or a detach only while the handle is available.
-/

import NucleoBase.Backend.ThreadLifeGood

namespace NucleoBase
namespace Backend
namespace Threads

open Lib ThreadX

/-! ## Steps keep `Owned` -/

section Ownership

variable {b : Block} {l l' : Life} {a : Agent} {f : Call} {c : ThreadControl}
  {m : Mutex Agent} {pc : CallPc}

attribute [local grind =] EntryPc.holds CallPc.creating CallPc.early CallPc.detaching CallPc.refused
  Function.update_apply

/-- A change of the block's contents that is not about its flags. -/
theorem Owned.put (o : Owned l) (h : l.control = some c) {c' : ThreadControl}
    (hd : c'.detached = c.detached) (hf : c'.finished = c.finished) : Owned (l.put c') :=
  { o with
    idle := fun ho => ⟨(o.idle ho).1, fun x hx => by cases hx; rw [hd]; exact (o.idle ho).2 c h⟩
    early := fun a f ha hp =>
      ⟨(o.early a f ha hp).1, fun x hx => by cases hx; rw [hd]; exact (o.early a f ha hp).2 c h⟩
    detaching := fun a f ha hp x hx => by cases hx; rw [hd]; exact o.detaching a f ha hp c h
    leaving := fun a f ha hp =>
      ⟨(o.leaving a f ha hp).1, fun x hx => by cases hx; rw [hf]; exact (o.leaving a f ha hp).2 c h⟩
    live := fun _ _ hn => by cases hn
    spent := fun ho x hx => by cases hx; rw [hd]; exact o.spent ho c h }

/-- While a detach leaves the critical section the thread is not in it. -/
theorem Good.not_leaving (g : Good b l) (h : l.control = some c) (idle : l.call (.std b) = none)
    (ht : c.thread.holds = true) (ha : l.call a = some f) : f.pc ≠ .detachUnlock true false := by
  intro hf
  have hl := g.live c h
  have h1 := hl.entryHolds ht
  have h2 := hl.callHolds a f ha (by rw [hf]; rfl)
  grind

theorem Owned.mark (g : Good b l) (o : Owned l) (h : l.control = some c)
    (idle : l.call (.std b) = none) (ht : c.thread = .mark) {e : Bool} {t : EntryPc} :
    Owned (l.put { c with finished := true, cleanupQueued := e, thread := t }) :=
  { o with
    idle := fun ho => ⟨(o.idle ho).1, fun x hx => by cases hx; exact (o.idle ho).2 c h⟩
    early := fun a f ha hp =>
      ⟨(o.early a f ha hp).1, fun x hx => by cases hx; exact (o.early a f ha hp).2 c h⟩
    detaching := fun a f ha hp x hx => by cases hx; exact o.detaching a f ha hp c h
    leaving := fun a f ha hp => absurd hp (g.not_leaving h idle (by rw [ht]; rfl) ha)
    live := fun _ _ hn => by cases hn
    spent := fun ho x hx => by cases hx; exact o.spent ho c h }

/-- Once the block is claimed its stage does not matter to the owner. -/
theorem Owned.setStage (o : Owned l) {t : Tally} (hk : l.tally.stage ≠ .unclaimed)
    (ho : t.owner = l.tally.owner) (ht : t.stage ≠ .unclaimed) :
    Owned { l with tally := t } :=
  { o with
    creating := by rw [ho]; exact o.creating
    busy := by rw [ho]; exact o.busy
    idle := fun h => absurd (o.idle (by rwa [ho] at h)).1 hk
    early := fun a f ha hp => absurd (o.early a f ha hp).1 hk
    leaving := fun a f ha hp => absurd (o.leaving a f ha hp).1 hk
    live := fun _ h => absurd h ht
    spent := by rw [ho]; exact o.spent }

/-- A call in progress moves on without touching the flags. -/
theorem Owned.moveCall (o : Owned l) (ha : l.call a = some f) {f' : Call}
    (hc : f'.pc.creating = f.pc.creating) (he : f'.pc.early = true → f.pc.early = true)
    (hd : f'.pc.detaching = true → f.pc.detaching = true) (hr : f'.pc.refused = false)
    (hl : f'.pc ≠ .detachUnlock true false) : Owned (l.setCall a (some f')) := by
  simp only [Life.setCall]
  exact { o with
    creating := by have := o.creating; grind
    busy := by have := o.busy; grind
    early := by have := o.early; grind
    detaching := by have := o.detaching; grind
    leaving := by have := o.leaving; grind
    granted := by have := o.granted; grind }

/-- The owner's call ends and the handle passes to `w`. -/
theorem Owned.endCall (o : Owned l) (ha : l.call a = some f) (hc : f.pc.creating = false)
    {w : Owner} (hw : w = .available ∨ w = .spent)
    (hidle : w = .available → l.tally.stage = .unclaimed ∧
      ∀ c, l.control = some c → c.detached = false)
    (hspent : w = .spent → ∀ c, l.control = some c → c.detached = true) :
    Owned ((l.setCall a none).setOwner w) := by
  have hmine := o.busy a f ha hc
  simp only [Life.setCall, Life.setOwner, Life.record]
  exact { o with
    creating := by have := o.creating; grind
    busy := by have := o.busy; grind
    idle := by grind
    early := by have := o.early; grind
    detaching := by have := o.detaching; grind
    leaving := by have := o.leaving; grind
    granted := by have := o.granted; grind
    live := by have := o.live; grind
    spent := hspent }

/-- Changing counters is no business of the owner's. -/
theorem Owned.setTally (o : Owned l) {t : Tally} (ho : t.owner = l.tally.owner)
    (ht : t.stage = l.tally.stage) : Owned { l with tally := t } :=
  { o with
    creating := by rw [ho]; exact o.creating
    busy := by rw [ho]; exact o.busy
    idle := by rw [ho, ht]; exact o.idle
    early := by rw [ht]; exact o.early
    leaving := by rw [ht]; exact o.leaving
    live := by rw [ho, ht]; exact o.live
    spent := by rw [ho]; exact o.spent }

theorem Owned.absent : Owned {} where
  creating := fun _ _ h => by cases h
  busy := fun _ _ h => by cases h
  idle := fun _ => ⟨rfl, fun _ h => by cases h⟩
  early := fun _ _ h => by cases h
  detaching := fun _ _ h => by cases h
  leaving := fun _ _ h => by cases h
  granted := fun _ _ h => by cases h
  live := fun h => absurd rfl h
  spent := fun h => by cases h

theorem Owned.register :
    Owned { control := some { registryId := idOf b }, registered := true
            call := Function.update (fun _ => none) a (some { block := b, pc := .create }) } where
  creating := fun _ _ _ _ => rfl
  busy := by grind
  idle := fun _ => ⟨rfl, fun c hc => by cases hc; rfl⟩
  early := by grind
  detaching := by grind
  leaving := by grind
  granted := by grind
  live := fun h => absurd rfl h
  spent := by simp

theorem Owned.markClaim (g : Good b l) (o : Owned l) (h : l.control = some c)
    (idle : l.call (.std b) = none) (ht : c.thread = .mark)
    (hq : (c.detached && !c.cleanupQueued) = true) :
    Owned ((l.put { c with
      finished := true, cleanupQueued := true, thread := .unlock true }).claim .thread) := by
  have hd : c.detached = true := by grind
  have hm := o.mark g h idle ht (e := true) (t := .unlock true)
  simp only [Life.put, Life.claim, Life.record] at hm ⊢
  exact { hm with
    -- somebody has detached the block, so the handle is spent or about to be
    idle := fun ho => by simp [(o.idle ho).2 c h] at hd
    early := fun a f ha hp => by simp [(o.early a f ha hp).2 c h] at hd
    leaving := fun a f ha hp => absurd hp (g.not_leaving h idle (by rw [ht]; rfl) ha)
    live := fun _ hk => by cases hk }

theorem Owned.created_ (g : Good b l) (o : Owned l) (ha : l.call a = some f) (hf : f.pc = .create)
    (h : l.control = some c) :
    Owned (((l.put { c with thread := .ready c.registryId }).setCall a none).setOwner
      .available) := by
  have habsent := o.creating a f ha (by rw [hf]; rfl)
  have hidle := o.idle (.inl habsent)
  have hothers : ∀ a' f', l.call a' = some f' → a' = a := fun a' f' ha' => by
    have := o.busy a' f' ha'
    have := g.creator a' a f' f ha' ha
    grind
  simp only [Life.put, Life.setCall, Life.setOwner, Life.record]
  exact {
    creating := by grind
    busy := by grind
    idle := fun _ => ⟨hidle.1, fun x hx => by cases hx; exact hidle.2 c h⟩
    early := by grind
    detaching := by grind
    leaving := by grind
    granted := by grind
    live := by simp
    spent := by simp }

theorem Owned.discard (o : Owned l) (ha : l.call a = some f) (hf : f.pc = .discard) :
    Owned ({ l with control := none }.setCall a none) := by
  have habsent := o.creating a f ha (by rw [hf]; rfl)
  simp only [Life.setCall]
  exact { o with
    creating := by have := o.creating; grind
    busy := by have := o.busy; grind
    idle := fun ho => ⟨(o.idle ho).1, fun x hx => by cases hx⟩
    early := fun a' f' ha' hp => by
      have := o.early a' f'
      grind
    detaching := by simp
    leaving := by have := o.leaving; grind
    granted := by have := o.granted; grind
    live := fun h => absurd habsent h
    spent := by simp }

/-- The owner begins a call while the handle is available. -/
theorem Owned.beginCall (o : Owned l) (hpc : pc = .joinWait ∨ pc = .detachLock)
    (hav : l.Available) :
    Owned ((l.setCall a (some { block := b, pc })).setOwner (.calling a)) := by
  have hidle := o.idle (.inr hav)
  have hnone : ∀ a' f', l.call a' ≠ some f' := fun a' f' ha' => by
    have := o.creating a' f' ha'
    have := o.busy a' f' ha'
    grind [Life.Available]
  simp only [Life.setCall, Life.setOwner, Life.record]
  exact { o with
    creating := by grind
    busy := by grind
    idle := by simp
    early := fun _ _ _ _ => hidle
    detaching := by grind
    leaving := by grind
    granted := by grind
    live := fun _ _ => o.live (by rw [hav]; simp) hidle.1
    spent := by simp }

/-- Passing the test of the flags under the mutex. -/
theorem Owned.test (o : Owned l) (ha : l.call a = some f) (hc : f.pc.creating = false)
    {c' : ThreadControl} {t : Tally} (ho : t.owner = l.tally.owner)
    (hpc : pc = .joinUnlock true ∧ t.stage ≠ .unclaimed ∨
      pc = .detachUnlock true true ∧ t.stage ≠ .unclaimed ∧ c'.detached = true ∨
      pc = .detachUnlock true false ∧ t.stage = .unclaimed ∧ c'.detached = true ∧
        c'.finished = false) :
    Owned ({ l.put c' with tally := t }.setCall a (some { f with pc })) := by
  have hmine := o.busy a f ha hc
  have hothers : ∀ a' f', l.call a' = some f' → a' = a := fun a' f' ha' => by
    have := o.creating a' f' ha'
    have := o.busy a' f' ha'
    grind
  simp only [Life.put, Life.setCall]
  exact { o with
    creating := by grind
    busy := by grind
    idle := by grind
    early := by grind
    detaching := by grind
    leaving := by grind
    granted := by grind
    live := by simp
    spent := by grind }

/-- Sending is no business of the owner's. -/
theorem Owned.enqueue (o : Owned l) (hk : l.tally.stage ≠ .unclaimed) : Owned l.enqueue :=
  have hsent := o.setStage (t := { l.tally with
    stage := .queued, enqueued := l.tally.enqueued + 1 }) hk rfl (by simp)
  { hsent with }

theorem Owned.free (o : Owned l) (hk : l.tally.stage ≠ .unclaimed) {r : ReaperPc} {t : Tally}
    (ho : t.owner = l.tally.owner) (ht : t.stage ≠ .unclaimed) :
    Owned { l with control := none, reaper := r, tally := t } :=
  { o.setStage hk ho ht with
    idle := fun h => absurd (o.idle (by rwa [ho] at h)).1 hk
    early := fun a f ha hp => absurd (o.early a f ha hp).1 hk
    detaching := by simp
    leaving := fun a f ha hp => absurd (o.leaving a f ha hp).1 hk
    live := fun _ h => absurd h ht
    spent := by simp }

/-- Whatever happens to a block whose owner keeps the rules, `Owned` is kept. -/
theorem Owned.step {idle : Prop} (g : Good b l) (o : Owned l)
    (hs : Life.Step b idle Life.Available l l') : Owned l' := by
  cases hs with
  | register a hab => exact Owned.register
  | start _ h idle ht => exact o.put h rfl rfl
  | bodyEnd _ h idle ht => exact o.put h rfl rfl
  | callbacksEnd _ h idle ht => exact Owned.setTally (o.put h (by rfl) (by rfl)) (by rfl) (by rfl)
  | lock _ h idle ht hm => exact o.put h rfl rfl
  | mark _ h idle ht hq => exact o.mark g h idle ht
  | markClaim _ h idle ht hq => exact o.markClaim g h idle ht hq
  | unlock _ h idle ht hm => exact o.put h rfl rfl
  | putCompletion _ h idle ht => exact o.put h rfl rfl
  | send _ h idle ht =>
      have hk := (g.live _ h).entrySends.mp (by rw [ht]; rfl)
      exact Owned.enqueue (o.put h (by rfl) (by rfl)) (by simp [Life.put, hk])
  | leave _ h idle ht => exact o.put h rfl rfl
  | created ha hf h => exact o.created_ g ha hf h
  | createFailed ha hf h =>
      exact o.moveCall ha (by rw [hf]; rfl) (by simp [CallPc.early]) (by simp [CallPc.detaching])
        (by rfl) (by simp)
  | unregister ha hf =>
      exact Owned.moveCall (l := { l with registered := false }) { o with } ha (by rw [hf]; rfl)
        (by simp [CallPc.early]) (by simp [CallPc.detaching]) (by rfl) (by simp)
  | discard ha hf h => exact o.discard ha hf
  | beginCall ha hpc hav hself => exact o.beginCall hpc hav
  | refuse ha hf =>
      refine o.endCall ha ?_ (.inl rfl) (fun _ => o.early _ _ ha ?_) (by simp) <;>
        rcases hf with hf | hf <;> rw [hf] <;> rfl
  | joinWait ha hf h hc =>
      exact Owned.moveCall (o.put h (by rfl) (by rfl)) ha (by rw [hf]; rfl) (by simp [hf, CallPc.early])
        (by simp [CallPc.detaching]) (by rfl) (by simp)
  | joinCreateAck ha hf =>
      exact o.moveCall ha (by rw [hf]; rfl) (by simp [hf, CallPc.early])
        (by simp [CallPc.detaching]) (by rfl) (by simp)
  | callLock ha h hpc hm =>
      refine Owned.moveCall (o.put h (by rfl) (by rfl)) ha ?_ ?_ ?_ ?_ ?_ <;>
        rcases hpc with ⟨hf, rfl⟩ | ⟨hf, rfl⟩ <;> simp [hf, CallPc.creating, CallPc.early,
          CallPc.detaching, CallPc.refused]
  | testRefused ha h hpc hq =>
      -- the block is neither detached nor queued while its owner has not tested it
      have hearly := o.early _ _ ha (by rcases hpc with ⟨hf, -⟩ | ⟨hf, -⟩ <;> rw [hf] <;> rfl)
      have hd := hearly.2 _ h
      have := (g.live _ h).flag
      grind
  | joinTest ha h hf hq =>
      exact Owned.test (t := { l.tally with stage := _ }) o ha (by rw [hf]; rfl) rfl
        (.inl ⟨rfl, by simp⟩)
  | detachTest ha h hf hq hfin =>
      have hearly := o.early _ _ ha (by rw [hf]; rfl)
      exact Owned.test (t := l.tally) o ha (by rw [hf]; rfl) rfl
        (.inr (.inr ⟨rfl, hearly.1, rfl, hfin⟩))
  | detachClaim ha h hf hq hfin =>
      exact Owned.test (t := { l.tally with stage := _ }) o ha (by rw [hf]; rfl) rfl
        (.inr (.inl ⟨rfl, by simp, rfl⟩))
  | unlockRefuse ha h hf hm =>
      have hgranted := o.granted _ _ ha
      rcases hf with hf | ⟨e, hf⟩ <;> simp [hf, CallPc.refused] at hgranted
  | unlockSend ha h hpc hm =>
      refine Owned.moveCall (o.put h (by rfl) (by rfl)) ha ?_ ?_ ?_ ?_ ?_ <;>
        rcases hpc with ⟨hf, rfl⟩ | ⟨hf, rfl⟩ <;> simp [hf, CallPc.creating, CallPc.early,
          CallPc.detaching, CallPc.refused]
  | unlockDetached ha h hf hm =>
      have hd := o.detaching _ _ ha (by rw [hf]; rfl) _ h
      refine Owned.endCall (o.put h (by rfl) (by rfl)) ha (by rw [hf]; rfl) (.inr rfl) (by simp) ?_
      intro _ c hc
      cases hc
      exact hd
  | joinSend ha h hf =>
      have hk := g.callSends _ _ ha (by rw [hf]; rfl)
      exact Owned.moveCall (o.enqueue (by simp [hk])) ha (by rw [hf]; rfl) (by simp [CallPc.early])
        (by simp [CallPc.detaching]) (by rfl) (by simp)
  | detachSend ha h hf =>
      have hk := g.callSends _ _ ha (by rw [hf]; rfl)
      exact Owned.endCall (o.enqueue (by simp [hk])) ha (by rw [hf]; rfl) (.inr rfl) (by simp)
        fun _ c hc => o.detaching _ _ ha (by rw [hf]; rfl) c hc
  | joinAwait ha hf hack =>
      have hk := (g.posted _ _ ha hack).2
      exact o.endCall ha (by rw [hf]; rfl) (.inr rfl) (by simp)
        fun _ c hc => absurd hk (g.live c hc).unreleased
  | receive hr hq hm =>
      have hk : l.tally.stage = .queued := by
        have := g.queue
        grind
      have htaken := o.setStage (t := { l.tally with stage := .taken }) (by simp [hk]) rfl (by simp)
      exact { htaken with }
  | find hr => exact { o with }
  | poll hr h ht => exact { o with }
  | readAck hr h => exact { o with }
  | destroy hr => exact { o with }
  | reaperUnregister hr => exact { o with }
  | free hr h =>
      have hk := g.reaper.mp (by rw [hr]; rfl)
      exact o.free (t := { l.tally with stage := _, released := _ }) (by simp [hk]) rfl (by simp)
  | putNoAck hr => exact { o with }
  | putAck hr ha =>
      have hput := (g.putAck _ _ hr).2
      have hgranted := o.granted _ _ ha
      simp only [ha, Option.any_some, Bool.and_eq_true, beq_iff_eq] at hput
      exact Owned.moveCall (l := { l with reaper := .receive }) { o with } ha (by rfl) (by exact id)
        (by exact id) (by exact hgranted) (by simp [hput.1])

end Ownership

end Threads
end Backend
end NucleoBase
