/-
  NucleoBase.Libc.Handles

  The blocks of the descriptors and the list of open files that FileX links
  them into.  A block belongs in the list exactly while its descriptor has an
  open mode, and may be overwritten or opened only while it is out of it.
-/

import NucleoBase.Lib.Run
import NucleoBase.Libc.Trace

namespace NucleoBase
namespace Libc

open Lib Lib.Program

/-! ## The list of open files -/

/-- FileX has the block in its list: a successful open links it, a successful close
    unlinks it, and a close that fails leaves it. -/
def linked (b : Block) : Log → Bool
  | [] => false
  | .fileOpen _ c _ .success :: log => decide (c = b) || linked b log
  | .fileClose c .success :: log => decide (c ≠ b) && linked b log
  | _ :: log => linked b log

/-- The call overwrites the block, or opens it. -/
def FxCall.reuses (b : Block) : FxCall → Bool
  | .fileOpen _ c _ _ => decide (c = b)
  | .clear c => decide (c = b)
  | _ => false

/-- No block is overwritten or opened while it is in the list. -/
def Careful : Log → Prop
  | [] => True
  | e :: log => (∀ b, e.reuses b = true → linked b log = false) ∧ Careful log

/-- The call is made on the block. -/
def FxCall.uses (b : Block) : FxCall → Bool
  | .fileClose c _ | .fileRead c _ | .fileWrite c _ | .seek c _ | .truncate c _ |
      .setEntryDateTime c => decide (c = b)
  | _ => false

/-- No call is made on a block that is not in the list. -/
def Attached : Log → Prop
  | [] => True
  | e :: log => (∀ b, e.uses b = true → linked b log = true) ∧ Attached log

instance instDecidableCareful : ∀ log, Decidable (Careful log)
  | [] => isTrue trivial
  | _ :: log =>
      have := instDecidableCareful log
      inferInstanceAs (Decidable (_ ∧ _))

/-- No `fx_file_close` has failed. -/
def ClosesSucceed (log : Log) : Prop := ∀ b status, .fileClose b status ∈ log → status = .success

theorem ClosesSucceed.of_suffix {log log' : Log} (h : ClosesSucceed log') (hle : log <:+ log') :
    ClosesSucceed log :=
  fun b status hmem => h b status (hle.subset hmem)

variable {σ : Type} {X : FileX σ} {platform : Platform} {s s' : State (σ × Log)}

theorem Call.suffix {fx fx' : σ × Log} (h : Call X.traced fx fx') : fx.2 <:+ fx'.2 := by
  cases h with
  | quiet h => cases h <;> exact List.suffix_cons _ _
  | entryDelete directory v p fx => cases directory <;> exact List.suffix_cons _ _
  | entryRename directory v p q fx => cases directory <;> exact List.suffix_cons _ _
  | _ => exact List.suffix_cons _ _

theorem Calls.suffix {fx fx' : σ × Log} (h : Calls X.traced fx fx') : fx.2 <:+ fx'.2 := by
  induction h with
  | refl => exact List.suffix_rfl
  | tail _ hcall ih => exact ih.trans hcall.suffix

/-! ## The blocks and the open modes -/

/-- The list is the one the descriptors tell of, and has been respected so far. -/
structure Tied (d : Block → Descriptor) (log : Log) : Prop where
  linked : ∀ b, Libc.linked b log = true ↔ (d b).openMode ≠ none
  careful : Careful log
  attached : Attached log

variable {d d' : Block → Descriptor} {log : Log} {b : Block}

theorem Tied.start : Tied (fun _ => .empty) [] where
  linked b := by simp [Libc.linked, Descriptor.empty]
  careful := trivial
  attached := trivial

theorem Tied.unlinked (h : Tied d log) (hb : (d b).openMode = none) : Libc.linked b log = false := by
  have := h.linked b
  simpa [hb] using this

theorem Tied.modes (h : Tied d log) (hd : ∀ b, (d' b).openMode = (d b).openMode) : Tied d' log where
  linked b := by rw [hd]; exact h.linked b
  careful := h.careful
  attached := h.attached

/-- A call that is made on no block. -/
theorem Tied.pass (h : Tied d log) {e : FxCall} (hl : ∀ b, Libc.linked b (e :: log) = Libc.linked b log)
    (hr : ∀ b, e.reuses b = false) (hu : ∀ b, e.uses b = false) : Tied d (e :: log) where
  linked b := by rw [hl]; exact h.linked b
  careful := ⟨fun b hb => absurd hb (by simp [hr]), h.careful⟩
  attached := ⟨fun b hb => absurd hb (by simp [hu]), h.attached⟩

/-- A call on an open block that leaves it open. -/
theorem Tied.use (h : Tied d log) {e : FxCall} (hb : (d b).openMode ≠ none)
    (hl : ∀ c, Libc.linked c (e :: log) = Libc.linked c log) (hr : ∀ c, e.reuses c = false)
    (hu : ∀ c, e.uses c = decide (b = c)) : Tied d (e :: log) where
  linked c := by rw [hl]; exact h.linked c
  careful := ⟨fun c hc => absurd hc (by simp [hr]), h.careful⟩
  attached := by
    refine ⟨fun c hc => ?_, h.attached⟩
    rw [hu] at hc
    obtain rfl : b = c := of_decide_eq_true hc
    exact (h.linked b).mpr hb

theorem Tied.clear (h : Tied d log) (hb : (d b).openMode = none) : Tied d (.clear b :: log) where
  linked c := h.linked c
  careful := by
    refine ⟨fun c hc => ?_, h.careful⟩
    obtain rfl : b = c := by simpa [FxCall.reuses] using hc
    exact h.unlinked hb
  attached := ⟨fun c hc => by simp [FxCall.uses] at hc, h.attached⟩

theorem Tied.notOpened (h : Tied d log) (hb : (d b).openMode = none) {v : Volume} {mode : OpenMode}
    {status : Status} (hstatus : status ≠ .success) :
    Tied d (.fileOpen v b mode status :: log) where
  linked c := by
    have heq : Libc.linked c (.fileOpen v b mode status :: log) = Libc.linked c log := by
      cases status <;> first | rfl | exact absurd rfl hstatus
    rw [heq]
    exact h.linked c
  careful := by
    refine ⟨fun c hc => ?_, h.careful⟩
    obtain rfl : b = c := by simpa [FxCall.reuses] using hc
    exact h.unlinked hb
  attached := ⟨fun c hc => by simp [FxCall.uses] at hc, h.attached⟩

theorem Tied.opened (h : Tied d log) (hb : (d b).openMode = none) {v : Volume} {mode : OpenMode}
    {e : Descriptor} (he : e.openMode = some mode) :
    Tied (Function.update d b e) (.fileOpen v b mode .success :: log) where
  linked c := by
    by_cases hcb : c = b
    · subst hcb
      simp [Libc.linked, he]
    · simpa [Libc.linked, hcb, Ne.symm hcb] using h.linked c
  careful := by
    refine ⟨fun c hc => ?_, h.careful⟩
    obtain rfl : b = c := by simpa [FxCall.reuses] using hc
    exact h.unlinked hb
  attached := ⟨fun c hc => by simp [FxCall.uses] at hc, h.attached⟩

theorem Tied.closed (h : Tied d log) (hb : (d b).openMode ≠ none) {e : Descriptor} (he : e.openMode = none) :
    Tied (Function.update d b e) (.fileClose b .success :: log) where
  linked c := by
    by_cases hcb : c = b
    · subst hcb
      simp [Libc.linked, he]
    · simpa [Libc.linked, hcb, Ne.symm hcb] using h.linked c
  careful := ⟨fun c hc => by simp [FxCall.reuses] at hc, h.careful⟩
  attached := by
    refine ⟨fun c hc => ?_, h.attached⟩
    obtain rfl : b = c := by simpa [FxCall.uses] using hc
    exact (h.linked b).mpr hb

/-- A descriptor without a handle is filled in, or given back. -/
theorem Tied.update (h : Tied d log) {e : Descriptor} (hb : (d b).openMode = none)
    (he : e.openMode = none) : Tied (Function.update d b e) log := by
  apply h.modes
  intro c
  by_cases hcb : c = b
  · subst hcb
    simp [hb, he]
  · simp [hcb]

theorem Tied.lookups {fx fx' : σ × Log} (h : Tied d fx.2) (hquiet : Quiet X.traced fx fx') :
    Tied d fx'.2 := by
  cases hquiet <;> exact h.pass (fun _ => rfl) (fun _ => rfl) fun _ => rfl

theorem Tied.renames {fx : σ × Log} (h : Tied d fx.2) (directory : Bool) (v : Volume) (p q : Bytes) :
    Tied d (X.traced.entryRename directory v p q fx).2.2 := by
  cases directory <;> exact h.pass (fun _ => rfl) (fun _ => rfl) fun _ => rfl

theorem Tied.deletes {fx : σ × Log} (h : Tied d fx.2) (directory : Bool) (v : Volume) (p : Bytes) :
    Tied d (X.traced.entryDelete directory v p fx).2.2 := by
  cases directory <;> exact h.pass (fun _ => rfl) (fun _ => rfl) fun _ => rfl

theorem Tied.migrated {s : State (σ × Log)} (h : Tied s.descriptors s.fx.2) (old new : Bytes)
    (directory : Bool) :
    Tied (migrated old new directory s).descriptors (migrated old new directory s).fx.2 := by
  apply h.modes
  intro b
  simp only [Libc.migrated]
  split <;> rfl

theorem Tied.replaced {v : Volume} {old new : Bytes} {src dst : List Bytes} {directory : Bool}
    (h : Tied s.descriptors s.fx.2)
    (hact : Replaced X.traced platform s v old new src dst directory s') :
    Tied s'.descriptors s'.fx.2 := by
  cases hact with
  | stayed _ => exact h.renames directory v _ _
  | moved _ => exact Tied.migrated (h.renames directory v _ _) old new directory
  | notBackedUp _ _ _ => exact h.renames directory v _ _
  | @putBack backup aside fx fx' _ _ hback _ hfx =>
      have hfirst : Tied s.descriptors fx.2 := by
        have := h.renames (X := X) directory v (render dst) (render aside)
        rwa [hback] at this
      have hsecond : Tied s.descriptors fx'.2 := hfx ▸ hfirst.renames directory v _ _
      exact hsecond.renames directory v _ _
  | @replaced backup aside fx fx' _ _ hback hmove =>
      have hfirst : Tied s.descriptors fx.2 := by
        have := h.renames (X := X) directory v (render dst) (render aside)
        rwa [hback] at this
      have hsecond : Tied s.descriptors fx'.2 := by
        have := hfirst.renames (X := X) directory v (render src) (render dst)
        rwa [hmove] at this
      exact Tied.migrated (hsecond.deletes directory v _) old new directory

/-- The handle of a descriptor has been closed, unless it had none. -/
theorem Tied.afterClose (h : Tied s.descriptors s.fx.2) {e : Descriptor} (he : e.openMode = none)
    (hclose : ClosesSucceed (Libc.closed X.traced s b).2) :
    Tied (Function.update s.descriptors b e) (Libc.closed X.traced s b).2 := by
  by_cases hb : (s.descriptors b).openMode = none
  · rw [Libc.closed, if_pos hb]
    exact h.update hb he
  · rw [Libc.closed, if_neg hb] at hclose ⊢
    have hlog : (X.traced.fileClose b s.fx).2.2 = .fileClose b (X.fileClose b s.fx.1).1 :: s.fx.2 :=
      rfl
    have hok : (X.fileClose b s.fx.1).1 = .success :=
      hclose b _ (hlog ▸ List.mem_cons_self)
    rw [hlog, hok]
    exact h.closed hb he

theorem Tied.act (h : Tied s.descriptors s.fx.2) (hsound : Sound platform s)
    (hact : Act X.traced platform may s s') (hclose : ClosesSucceed s'.fx.2) :
    Tied s'.descriptors s'.fx.2 := by
  -- a slot that `_open` takes has no handle
  have hslot : ∀ {b}, freeDescriptor s = some b → (s.descriptors b).openMode = none := by
    intro b hb
    rw [hsound.free b (freeDescriptor_free hb)]
    rfl
  -- what FileX does before it opens a file
  have hbefore : ∀ {b} (v : Volume) (mode : OpenMode), (s.descriptors b).openMode = none →
      Tied s.descriptors (beforeOpen X.traced s b v mode).2 := by
    intro b v mode hb
    rw [beforeOpen]
    split
    · exact (h.clear hb).pass (fun _ => rfl) (fun _ => rfl) fun _ => rfl
    · exact h.clear hb
  cases hact with
  | quiet hquiet => exact h.lookups hquiet
  | sequence _ => exact h
  | @created name v rest b flags _ hfree _ _ =>
      have hcreated : Tied s.descriptors (X.traced.fileCreate v (render rest) s.fx).2.2 :=
        h.pass (fun _ => rfl) (fun _ => rfl) fun _ => rfl
      exact (hcreated.clear (hslot hfree)).update (hslot hfree) rfl
  | notCreated _ _ => exact h.pass (fun _ => rfl) (fun _ => rfl) fun _ => rfl
  | @found name v rest b info flags _ hfree _ _ _ =>
      have hfound : Tied s.descriptors
          (X.traced.directoryInformationGet v (render rest) s.fx).2.2 :=
        h.pass (fun _ => rfl) (fun _ => rfl) fun _ => rfl
      exact (hfound.clear (hslot hfree)).update (hslot hfree) rfl
  | @closedForSwitch b hopen =>
      have hclosed := h.afterClose (X := X) (b := b)
        (e := { s.descriptors b with openMode := none }) rfl
      rw [Libc.closed, if_neg hopen] at hclosed
      exact hclosed hclose
  | cleared _ hopen => exact h.clear hopen
  | @reopened b v rest mode _ hopen _ _ hstatus =>
      have hlog : (X.traced.fileOpen v b (render rest) mode (beforeOpen X.traced s b v mode)).2.2 =
          .fileOpen v b mode .success :: (beforeOpen X.traced s b v mode).2 := by
        rw [← hstatus]
        rfl
      show Tied _ (X.traced.fileOpen v b (render rest) mode (beforeOpen X.traced s b v mode)).2.2
      rw [hlog]
      exact (hbefore v mode hopen).opened hopen rfl
  | notReopened _ hopen _ hstatus => exact (hbefore _ _ hopen).notOpened hopen hstatus
  | sought _ hopen => exact h.use hopen (fun _ => rfl) (fun _ => rfl) fun _ => rfl
  | read _ hopen => exact h.use (by simp [hopen]) (fun _ => rfl) (fun _ => rfl) fun _ => rfl
  | written _ hopen => exact h.use (by simp [hopen]) (fun _ => rfl) (fun _ => rfl) fun _ => rfl
  | truncated _ hopen => exact h.use (by simp [hopen]) (fun _ => rfl) (fun _ => rfl) fun _ => rfl
  | @positioned b n _ =>
      apply h.modes
      intro c
      by_cases hcb : c = b
      · subst hcb
        simp
      · simp [hcb]
  | @released b fx _ hflush =>
      have hclosed : ClosesSucceed (Libc.closed X.traced s b).2 := by
        apply hclose.of_suffix
        rcases hflush with rfl | ⟨v, rfl, -⟩
        · exact List.suffix_cons _ _
        · exact (List.suffix_cons _ _).trans (List.suffix_cons _ _)
      have hdone := h.afterClose (e := .empty) rfl hclosed
      have hflushed : Tied (Function.update s.descriptors b .empty) fx.2 := by
        rcases hflush with rfl | ⟨v, rfl, -⟩
        · exact hdone
        · exact hdone.pass (fun _ => rfl) (fun _ => rfl) fun _ => rfl
      exact hflushed.clear (by simp [Descriptor.empty])
  | unlinked _ _ => exact h.pass (fun _ => rfl) (fun _ => rfl) fun _ => rfl
  | madeDirectory _ => exact h.pass (fun _ => rfl) (fun _ => rfl) fun _ => rfl
  | removedDirectory _ _ => exact h.pass (fun _ => rfl) (fun _ => rfl) fun _ => rfl
  | dated _ _ => exact h.pass (fun _ => rfl) (fun _ => rfl) fun _ => rfl
  | datedHandle _ _ hopen => exact h.use hopen (fun _ => rfl) (fun _ => rfl) fun _ => rfl
  | renamed _ hreplaced => exact h.replaced hreplaced

/-! ## Runs -/

/-- After `runtime_filex_initialize`, with nothing logged. -/
def Started (platform : Platform) (s : State (σ × Log)) : Prop :=
  ∃ fx, s = State.initial platform (fx, [])

/-- Every chain of transitions keeps the bookkeeping as long as no `fx_file_close` fails. -/
theorem Tied.kept (hsound : Sound platform s)
    (h : ClosesSucceed s.fx.2 → Tied s.descriptors s.fx.2) (hact : Act X.traced platform may s s')
    (hclose : ClosesSucceed s'.fx.2) : Tied s'.descriptors s'.fx.2 :=
  (h (hclose.of_suffix (Calls.suffix hact.calls))).act hsound hact hclose

theorem Tied.ofRun (hX : X.Documented) {h : List Request} {s : State (σ × Log)}
    (hrun : Run (request X.traced platform) anyStep (Started platform) h s) :
    Sound platform s ∧ (ClosesSucceed s.fx.2 → Tied s.descriptors s.fx.2) := by
  apply run_invariant hX.traced (fun _ _ _ _ => mayServe_anything) ?_ ?_ ?_ hrun
  · rintro s ⟨fx, rfl⟩
    exact ⟨Sound.initial platform _, fun _ => Tied.start⟩
  · intro s s' hsound hi hact hclose
    exact Tied.kept hsound hi hact hclose
  · intro s name _ hi _ hclose
    exact hi hclose

/-- Both volumes are mounted. -/
def mountedPlatform : Platform where
  mounted _ := true
  maximumOffset := 0x7fffffff
  rounds := 0x400000
  consoleRead _ := .ok []
  consoleWrite bytes := .ok bytes.length

/-- `"/flash/a"`. -/
def flashFile : Bytes := mountName .flash ++ [slash, 97]

def firstBlock : Block := ⟨0, by decide⟩

theorem closesSucceed_iff {log : Log} : ClosesSucceed log ↔
    log.all (fun e => match e with
      | .fileClose _ status => decide (status = .success)
      | _ => true) = true := by
  rw [List.all_eq_true]
  constructor
  · intro h e hmem
    cases e with
    | fileClose b status => simpa using h b status hmem
    | _ => rfl
  · intro h b status hmem
    simpa using h _ hmem

instance (log : Log) : Decidable (ClosesSucceed log) :=
  decidable_of_iff _ closesSucceed_iff.symm

end Libc
end NucleoBase
