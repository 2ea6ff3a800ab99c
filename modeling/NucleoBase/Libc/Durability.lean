/-
  NucleoBase.Libc.Durability

  What is on the volumes if the power is lost.  A volume has a volatile state,
  part of which only the handles of open files know of, and a durable copy of
  it, which a flush of the media that succeeds brings up to date.

  The calls that promise durability end with such a flush.  It reaches every
  change unless a handle has been overwritten while FileX had it open.
-/

import NucleoBase.Libc.Handles

namespace NucleoBase
namespace Libc

open Lib Lib.Program

/-! ## Volumes -/

/-- A change of a volume: the number of the call that made it, and the handle that
    holds it while it is not yet in the directory entry of the file. -/
structure Change where
  call : Nat
  volume : Volume
  handle : Option Block
  deriving DecidableEq, Repr

structure Medium where
  /-- The volume on which the file of a block was opened last. -/
  home : Block → Option Volume
  volatile : List Change
  durable : List (Nat × Volume)

/-- What a call changes, if it succeeds. -/
def FxCall.change (home : Block → Option Volume) : FxCall → Option (Volume × Option Block)
  | .fileWrite b status | .truncate b status =>
      if status = .success then (home b).map fun v => (v, some b) else none
  | .setEntryDateTime b => (home b).map fun v => (v, some b)
  | .entry v status => if status = .success then some (v, none) else none
  | _ => none

/-- What a call does with the changes made before it. -/
def Medium.settle (m : Medium) : FxCall → Medium
  | .fileOpen v b _ status =>
      if status = .success then { m with home := Function.update m.home b (some v) } else m
  | .fileClose b status =>
      -- the entry of the file is written back
      if status = .success then
        { m with volatile := m.volatile.map fun c =>
            if c.handle = some b then { c with handle := none } else c }
      else m
  -- what only the handle knows of is lost with it
  | .clear b => { m with volatile := m.volatile.filter fun c => c.handle ≠ some b }
  | .mediaFlush v status =>
      if status = .success then
        { m with
          volatile := m.volatile.map fun c =>
            if c.volume = v then { c with handle := none } else c
          durable := ((m.volatile.filter fun c => c.volume = v).map fun c => (c.call, v)) ++
            m.durable.filter fun c => c.2 ≠ v }
      else m
  | _ => m

def Medium.add (m : Medium) (call : Nat) : Option (Volume × Option Block) → Medium
  | none => m
  | some (v, handle) => { m with volatile := ⟨call, v, handle⟩ :: m.volatile }

/-- The volumes after the calls of a log. -/
def medium : Log → Medium
  | [] => ⟨fun _ => none, [], []⟩
  | e :: log => ((medium log).add log.length (e.change (medium log).home)).settle e

/-- All changes that the calls of a log have made. -/
def changes : Log → List (Nat × Volume)
  | [] => []
  | e :: log =>
      match e.change (medium log).home with
      | none => changes log
      | some (v, _) => (log.length, v) :: changes log

/-! ## Changes are kept -/

variable {log : Log} {e : FxCall}

/-- The volatile state has a change, and a handle that holds it is open. -/
def Holds (m : Medium) (log : Log) (change : Nat × Volume) : Prop :=
  ∃ c ∈ m.volatile, (c.call, c.volume) = change ∧ ∀ b, c.handle = some b → linked b log = true

theorem Holds.settle {m : Medium} {change : Nat × Volume} (h : Holds m log change)
    (hcareful : ∀ b, e.reuses b = true → linked b log = false) :
    Holds (m.settle e) (e :: log) change := by
  obtain ⟨c, hmem, hchange, hlinked⟩ := h
  -- nothing happens to the change or to the list of open files
  have hsame : m.settle e = m → (∀ b, linked b log = true → linked b (e :: log) = true) →
      Holds (m.settle e) (e :: log) change := by
    intro hm hl
    rw [hm]
    exact ⟨c, hmem, hchange, fun b hb => hl b (hlinked b hb)⟩
  cases e with
  | fileOpen v b mode status =>
      by_cases hstatus : status = .success
      · subst hstatus
        refine ⟨c, by simpa [Medium.settle] using hmem, hchange, fun b' hb => ?_⟩
        simp [linked, hlinked b' hb]
      · apply hsame
        · simp only [Medium.settle, if_neg hstatus]
        · intro b' hb
          cases status <;> first | exact hb | exact absurd rfl hstatus
  | fileClose b status =>
      by_cases hstatus : status = .success
      · subst hstatus
        refine ⟨if c.handle = some b then { c with handle := none } else c, ?_, ?_, ?_⟩
        · simp only [Medium.settle, if_true]
          exact List.mem_map_of_mem hmem
        · split <;> exact hchange
        · intro b' hb
          split at hb
          · cases hb
          · rename_i hne
            have hother : b ≠ b' := by
              rintro rfl
              exact hne hb
            simp [linked, hother, hlinked b' hb]
      · apply hsame
        · simp only [Medium.settle, if_neg hstatus]
        · intro b' hb
          cases status <;> first | exact hb | exact absurd rfl hstatus
  | clear b =>
      refine ⟨c, ?_, hchange, fun b' hb => hlinked b' hb⟩
      -- the block is not in the list, so no change waits in it
      have hunlinked : linked b log = false := hcareful b (by simp [FxCall.reuses])
      have hother : c.handle ≠ some b := by
        intro hb
        have := hlinked b hb
        rw [hunlinked] at this
        cases this
      simpa [Medium.settle, hother] using hmem
  | mediaFlush v status =>
      by_cases hstatus : status = .success
      · subst hstatus
        refine ⟨if c.volume = v then { c with handle := none } else c, ?_, ?_, ?_⟩
        · simp only [Medium.settle, if_true]
          exact List.mem_map_of_mem hmem
        · split <;> exact hchange
        · intro b' hb
          split at hb
          · cases hb
          · exact hlinked b' hb
      · apply hsame
        · simp only [Medium.settle, if_neg hstatus]
        · exact fun _ hb => hb
  | fileRead b status => exact hsame rfl fun _ hb => hb
  | fileWrite b status => exact hsame rfl fun _ hb => hb
  | seek b status => exact hsame rfl fun _ hb => hb
  | truncate b status => exact hsame rfl fun _ hb => hb
  | entry v status => exact hsame rfl fun _ hb => hb
  | lookup v status => exact hsame rfl fun _ hb => hb
  | setEntryDateTime b => exact hsame rfl fun _ hb => hb

theorem change_uses {home : Block → Option Volume} {v : Volume} {b : Block}
    (h : e.change home = some (v, some b)) : e.uses b = true := by
  cases e <;> simp [FxCall.change] at h <;> simp [FxCall.uses, h]

/-- If every block has been respected, no change is lost. -/
theorem holds_changes (hcareful : Careful log) (hattached : Attached log) {change : Nat × Volume}
    (hchange : change ∈ changes log) : Holds (medium log) log change := by
  induction log with
  | nil => cases hchange
  | cons e log ih =>
      have hadd : Holds ((medium log).add log.length (e.change (medium log).home)) log change := by
        rw [changes] at hchange
        cases he : e.change (medium log).home with
        | none =>
            rw [he] at hchange
            exact ih hcareful.2 hattached.2 hchange
        | some made =>
            obtain ⟨v, handle⟩ := made
            rw [he] at hchange
            rcases List.mem_cons.mp hchange with rfl | hold
            · refine ⟨⟨log.length, v, handle⟩, List.mem_cons_self, rfl, fun b hb => ?_⟩
              obtain rfl : handle = some b := hb
              exact hattached.1 b (change_uses he)
            · obtain ⟨c, hmem, hc⟩ := ih hcareful.2 hattached.2 hold
              exact ⟨c, List.mem_cons_of_mem _ hmem, hc⟩
      exact hadd.settle hcareful.1

/-- A flush makes every change of its volume durable. -/
theorem durable_flush {v : Volume} (hcareful : Careful log) (hattached : Attached log) {i : Nat}
    (hchange : (i, v) ∈ changes (.mediaFlush v .success :: log)) :
    (i, v) ∈ (medium (.mediaFlush v .success :: log)).durable := by
  have hchange' : (i, v) ∈ changes log := hchange
  obtain ⟨c, hmem, hc, -⟩ := holds_changes hcareful hattached hchange'
  have hdurable : (i, v) ∈ ((medium log).volatile.filter fun c => c.volume = v).map
      fun c => (c.call, v) := by
    obtain ⟨rfl, rfl⟩ := Prod.mk.inj hc
    exact List.mem_map.mpr ⟨c, by simpa using hmem, rfl⟩
  exact List.mem_append_left _ hdurable

/-! ## The calls that promise durability -/

variable {σ : Type} {X : FileX σ} {platform : Platform} {t s : State (σ × Log)}

/-- A descriptor for writing is flushed when it is closed. -/
def Flushes (s : State (σ × Log)) : Prop :=
  ∀ b, (s.descriptors b).writable = true → (s.descriptors b).flushOnClose = true

theorem Flushes.update {s' : State (σ × Log)} {b : Block} {d : Descriptor} (h : Flushes s)
    (hs' : s'.descriptors = Function.update s.descriptors b d)
    (hd : d.writable = true → d.flushOnClose = true) : Flushes s' := by
  intro c
  rw [hs']
  by_cases hcb : c = b
  · subst hcb
    simpa using hd
  · simpa [hcb] using h c

theorem Flushes.migrated (h : Flushes s) (old new : Bytes) (directory : Bool) :
    Flushes (migrated old new directory s) := by
  intro b
  have := h b
  simp only [Libc.migrated]
  split <;> exact this

theorem Flushes.act {s' : State (σ × Log)} (h : Flushes s) (hact : Act X.traced platform may s s') :
    Flushes s' := by
  have hopened : ∀ (name : Bytes) (resolved : ResolvedPath) (flags : OpenFlags) (created : Bool)
      (size : Nat), (openedDescriptor name resolved flags created size).writable = true →
        (openedDescriptor name resolved flags created size).flushOnClose = true := by
    intro name resolved flags created size
    simp only [openedDescriptor, decide_eq_true_eq]
    exact Or.inr
  cases hact with
  | created flags _ _ _ _ => exact h.update rfl (hopened _ _ flags _ _)
  | found flags _ _ _ _ _ => exact h.update rfl (hopened _ _ flags _ _)
  | @closedForSwitch b _ => exact h.update rfl (h b)
  | @reopened b _ _ _ _ _ _ _ _ => exact h.update rfl (h b)
  | @positioned b _ _ => exact h.update rfl (h b)
  | released _ _ => exact h.update rfl fun hno => by cases hno
  | renamed _ hreplaced =>
      cases hreplaced with
      | moved _ => exact Flushes.migrated h _ _ _
      | replaced _ _ _ _ => exact Flushes.migrated h _ _ _
      | _ => exact h
  | _ => exact h

/-- What is known of the states between two calls. -/
structure Ready (platform : Platform) (s : State (σ × Log)) : Prop where
  sound : Sound platform s
  flushes : Flushes s
  tied : ClosesSucceed s.fx.2 → Tied s.descriptors s.fx.2

theorem Ready.ofRun (hX : X.Documented) {h : List Request} {s : State (σ × Log)}
    (hrun : Run (request X.traced platform) anyStep (Started platform) h s) : Ready platform s := by
  obtain ⟨-, hflushes⟩ := run_invariant (I := Flushes) hX.traced
    (fun _ _ _ _ => mayServe_anything) (by
    rintro s ⟨fx, rfl⟩
    exact ⟨Sound.initial platform _, fun b hb => by cases hb⟩)
    (fun _ _ _ hi hact => hi.act hact) (fun _ _ _ hi _ => hi) hrun
  obtain ⟨hsound, htied⟩ := Tied.ofRun hX hrun
  exact ⟨hsound, hflushes, htied⟩

theorem Ready.chained (h : Ready platform t) (hchain : Chained X.traced platform may t s)
    (hclose : ClosesSucceed s.fx.2) : Tied s.descriptors s.fx.2 := by
  have hboth : Sound platform s ∧ (ClosesSucceed s.fx.2 → Tied s.descriptors s.fx.2) := by
    obtain ⟨-, hacts⟩ := hchain
    clear hclose
    induction hacts with
    | refl => exact ⟨h.sound, h.tied⟩
    | tail _ hact ih =>
        exact ⟨hact.sound ih.1, fun hclose => Tied.kept ih.1 ih.2 hact hclose⟩
  exact hboth.2 hclose

/-- The changes of a volume are durable. -/
def Durable (v : Volume) (s : State (σ × Log)) : Prop :=
  ∀ i, (i, v) ∈ changes s.fx.2 → (i, v) ∈ (medium s.fx.2).durable

theorem Committed.durable {v : Volume} {f : σ × Log → Status × σ × Log} (ht : Ready platform t)
    (h : Committed X.traced platform may t v f s) (hclose : ClosesSucceed s.fx.2) : Durable v s := by
  obtain ⟨fx, w, -, -, hw, hflush, rfl⟩ := h
  have hlog : (X.traced.mediaFlush v w.fx).2.2 = .mediaFlush v .success :: w.fx.2 := by
    rw [← hflush]
    rfl
  have htied := ht.chained hw (hclose.of_suffix (hlog ▸ List.suffix_cons _ _))
  intro i hi
  simp only [hlog] at hi ⊢
  exact durable_flush htied.careful htied.attached hi

/-! ## `_close` -/

section Close

variable {Y : FileX σ} {u : State σ} {b : Block} {v : Volume}

/-- What `_close` of a descriptor that is to be flushed has done when it succeeds. -/
def ClosedFlushed (Y : FileX σ) (u : State σ) (b : Block) (v : Volume) (s : State σ) : Prop :=
  (Y.mediaFlush v (closed Y u b)).1 = .success ∧ s.fx = (Y.mediaFlush v (closed Y u b)).2

end Close

theorem ClosedFlushed.durable {v : Volume} {b : Block} {w : State (σ × Log)}
    (ht : Ready platform t) (h : ClosedFlushed X.traced t b v w)
    (hs : s.fx = X.traced.clear b w.fx) (hclose : ClosesSucceed s.fx.2) : Durable v s := by
  obtain ⟨hflush, hw⟩ := h
  have hlog : s.fx.2 = .clear b :: .mediaFlush v .success :: (closed X.traced t b).2 := by
    rw [hs, hw, ← hflush]
    rfl
  rw [hlog] at hclose
  have hclosed : ClosesSucceed (closed X.traced t b).2 :=
    hclose.of_suffix ((List.suffix_cons _ _).trans (List.suffix_cons _ _))
  have ht' : ClosesSucceed t.fx.2 := hclosed.of_suffix (Calls.suffix (calls_closed b))
  have htied := (ht.tied ht').afterClose (e := .empty) rfl hclosed
  intro i hi
  rw [hlog] at hi ⊢
  exact durable_flush htied.careful htied.attached hi

/-! ## Every call -/

end Libc
end NucleoBase
