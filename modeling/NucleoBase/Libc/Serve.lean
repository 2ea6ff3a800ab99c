/-
  NucleoBase.Libc.Serve

  Every system call is a chain of the transitions in `Act`, for a FileX that
  returns the statuses it is documented to.  `_chdir` ends by setting the
  current directory, which is not one of them.
-/

import NucleoBase.Lib.Run
import NucleoBase.Libc.Acts

namespace NucleoBase
namespace Libc

open Lib Lib.Program

variable {σ : Type} {X : FileX σ} {platform : Platform} {may : May σ}
  {t u : State σ}

variable (X platform may) in
/-- A sound state that some transitions lead to. -/
structure Chained (t s : State σ) : Prop where
  sound : Sound platform s
  acts : Relation.ReflTransGen (Act X platform may) t s

theorem Chained.start (h : Sound platform t) : Chained X platform may t t := ⟨h, .refl⟩

theorem Chained.act {s s' : State σ} (h : Chained X platform may t s) (hact : Act X platform may s s') :
    Chained X platform may t s' :=
  ⟨hact.sound h.sound, h.acts.tail hact⟩

theorem Chained.trans {s s' : State σ} (h : Chained X platform may t s)
    (h' : Chained X platform may s s') : Chained X platform may t s' :=
  ⟨h'.sound, h.acts.trans h'.acts⟩

theorem Chained.quiet {s : State σ} {fx : σ} (h : Chained X platform may t s)
    (hquiet : Quiet X s.fx fx) : Chained X platform may t { s with fx := fx } :=
  h.act (.quiet hquiet)

theorem Chained.calls {s : State σ} (h : Chained X platform may t s) : Calls X t.fx s.fx := by
  obtain ⟨-, hacts⟩ := h
  induction hacts with
  | refl => exact .refl
  | tail _ hact ih => exact ih.trans hact.calls

/-! ## Building blocks -/

section Blocks

variable {α : Type} {P : State σ → Prop} {E : Option Errno → State σ → Prop}

theorem Triple.call {f : σ → α × σ} {Q : α → State σ → Prop}
    (h : ∀ s, P s → Q (f s.fx).1 { s with fx := (f s.fx).2 }) : Triple P (call f) Q E :=
  Triple.step h

theorem Triple.check {status : Status} {Q : Unit → State σ → Prop}
    (hok : ∀ s, P s → filexErrno status = none → Q () s)
    (herror : ∀ s e, P s → filexErrno status = some e → E (some e) s) :
    Triple P (check status) Q E := by
  unfold Libc.check
  cases h : filexErrno status with
  | none => exact Triple.pure fun s hs => hok s hs h
  | some e => exact Triple.fail fun s hs => herror s e hs h

theorem Triple.raise {x : Except Errno α} {Q : α → State σ → Prop}
    (hok : ∀ a s, x = .ok a → P s → Q a s)
    (herror : ∀ e s, x = .error e → P s → E (some e) s) : Triple P (raise x) Q E := by
  cases x with
  | ok a => exact Triple.pure fun s hs => hok a s rfl hs
  | error e => exact Triple.fail fun s hs => herror e s rfl hs

theorem Triple.fails {e : Errno} {Q : α → State σ → Prop} (h : ∀ s, P s → E (some e) s) :
    Triple P (fails e) Q E := Triple.fail h

/-- A call and the check of its status. -/
theorem Triple.checked {f : σ → Status × σ} {Q : Unit → State σ → Prop}
    (hplain : ∀ fx, (f fx).1.Plain)
    (hok : ∀ s, P s → (f s.fx).1 = .success → Q () { s with fx := (f s.fx).2 })
    (herror : ∀ s e, P s → (f s.fx).1 ≠ .success → filexErrno (f s.fx).1 = some e →
      E (some e) { s with fx := (f s.fx).2 }) :
    Triple P (Libc.checked f) Q E := by
  refine Triple.bind (Q := fun status s' => ∃ s, P s ∧ status = (f s.fx).1 ∧
    s' = { s with fx := (f s.fx).2 }) (Triple.call fun s hs => ⟨s, hs, rfl, rfl⟩) fun status => ?_
  refine Triple.check ?_ ?_
  · rintro _ ⟨s, hs, rfl, rfl⟩ hnone
    exact hok s hs (hplain s.fx hnone)
  · rintro _ e ⟨s, hs, rfl, rfl⟩ hsome
    refine herror s e hs ?_ hsome
    intro hsuccess
    rw [hsuccess] at hsome
    cases hsome

end Blocks

/-! ## Looking names up -/

theorem normalize_spec (path : Option Bytes) :
    Triple (· = u) (normalize path : FS σ Bytes)
      (fun name s => s = u ∧ normalizePath u.currentDirectory path = .ok name)
      fun _ s => s = u := by
  refine Triple.get_bind ?_
  rintro s rfl
  exact Triple.raise (fun name w hname hw => ⟨hw, hname⟩) fun e w _ hw => hw

theorem resolvePath_spec (path : Option Bytes) :
    Triple (· = u) (resolvePath platform path : FS σ (Bytes × ResolvedPath))
      (fun r s => s = u ∧ normalizePath u.currentDirectory path = .ok r.1 ∧
        resolveNormalizedPath platform.mounted r.1 = .ok r.2) fun _ s => s = u := by
  refine Triple.bind (normalize_spec path) fun name => ?_
  refine Triple.bind (Q := fun resolved s => s = u ∧
    normalizePath u.currentDirectory path = .ok name ∧
    resolveNormalizedPath platform.mounted name = .ok resolved) ?_ fun resolved =>
      Triple.pure fun _ h => h
  refine Triple.raise ?_ ?_
  · rintro resolved s hr ⟨hs, hn⟩
    exact ⟨hs, hn, hr⟩
  · rintro e s - ⟨hs, -⟩
    exact hs

theorem normalize_normal {name : Bytes} {cs : List Bytes} (h : IsNormal name cs) :
    (normalize (some name) : FS σ Bytes) = pure name := by
  funext s
  change (raise (normalizePath s.currentDirectory (some name)) : FS σ Bytes) s = _
  rw [h.normalizePath]
  rfl

theorem Entry.resolve_eq {name : Bytes} {v : Volume} {rest : List Bytes}
    (h : Entry platform name v rest) :
    (Libc.resolve platform name : FS σ ResolvedPath) = pure (entryPath v rest) := by
  rw [Libc.resolve, h.resolve]
  rfl

theorem information_entry {name : Bytes} {v : Volume} {rest : List Bytes}
    (h : Entry platform name v rest) :
    information X platform (some name) = entryInformation X (entryPath v rest) := by
  obtain ⟨cs, hn⟩ := h.normal
  rw [information, normalize_normal hn, pure_bind, if_neg h.ne_root, h.resolve_eq, pure_bind]
  rfl

/-- The virtual root and the mount points are directories without an entry. -/
theorem information_root {name : Bytes} {cs : List Bytes} {resolved : ResolvedPath}
    (hn : IsNormal name cs) (hr : resolveNormalizedPath platform.mounted name = .ok resolved)
    (hroot : resolved.virtualRoot = true ∨ resolved.mountRoot = true) :
    information X platform (some name) = pure .root := by
  rw [information, normalize_normal hn, pure_bind]
  rcases resolve_cases hn hr with ⟨-, hname⟩ | ⟨hmount, hname, -⟩ | ⟨v, rest, -, rfl⟩
  · rw [if_pos hname]
  · rw [if_neg hname, Libc.resolve, hr]
    change (if resolved.mountRoot = true then _ else _) = _
    rw [if_pos hmount]
  · rcases hroot with hroot | hroot <;> cases hroot

/-- The entry that FileX has given, as the adapter passes it on. -/
def Informed (X : FileX σ) (v : Volume) (rest : List Bytes) (u : State σ)
    (info : EntryInformation) (s : State σ) : Prop :=
  s = { u with fx := (X.directoryInformationGet v (render rest) u.fx).2 } ∧
    ∃ raw, (X.directoryInformationGet v (render rest) u.fx).1 = (.success, raw) ∧
      info = { raw with stamp := raw.stamp.narrow }

/-- FileX has given no entry, for this reason. -/
def NotInformed (X : FileX σ) (v : Volume) (rest : List Bytes) (u : State σ)
    (e : Option Errno) (s : State σ) : Prop :=
  s = { u with fx := (X.directoryInformationGet v (render rest) u.fx).2 } ∧
    (X.directoryInformationGet v (render rest) u.fx).1.1 ≠ .success ∧
    e = filexErrno (X.directoryInformationGet v (render rest) u.fx).1.1

theorem entryInformation_spec (hX : X.Documented) (v : Volume) (rest : List Bytes) :
    Triple (· = u) (entryInformation X (entryPath v rest)) (Informed X v rest u)
      (NotInformed X v rest u) := by
  refine Triple.bind (Q := fun r s =>
    s = { u with fx := (X.directoryInformationGet v (render rest) u.fx).2 } ∧
      r = (X.directoryInformationGet v (render rest) u.fx).1)
    (Triple.call (by rintro _ rfl; exact ⟨rfl, rfl⟩)) ?_
  rintro ⟨status, raw⟩
  refine Triple.ite (fun hstatus => Triple.pure ?_) fun hstatus => ?_
  · rintro s ⟨hs, hr⟩
    exact ⟨hs, raw, by rw [← hr, hstatus], rfl⟩
  · refine Triple.bind (Q := fun _ _ => False) (Triple.check ?_ ?_) fun _ =>
      Triple.pure fun _ h => h.elim
    · rintro s ⟨-, hr⟩ hnone
      have hplain := hX.directoryInformationGet v (render rest) u.fx
      rw [← hr] at hplain
      exact hstatus (hplain hnone)
    · rintro s e ⟨hs, hr⟩ hsome
      refine ⟨hs, ?_, ?_⟩
      · rw [← hr]
        exact hstatus
      · rw [← hr]
        exact hsome.symm

theorem Chained.information {s : State σ} {v : Volume} {rest : List Bytes}
    {info : EntryInformation} (h : Chained X platform may t u) (hinfo : Informed X v rest u info s) :
    Chained X platform may t s :=
  hinfo.1 ▸ h.quiet (.information v (render rest) u.fx)

theorem Chained.noInformation {s : State σ} {v : Volume} {rest : List Bytes} {e : Option Errno}
    (h : Chained X platform may t u) (hinfo : NotInformed X v rest u e s) : Chained X platform may t s :=
  hinfo.1 ▸ h.quiet (.information v (render rest) u.fx)

/-! ## Handles -/

variable (X platform may) in
/-- A chain to a state in which a descriptor's handle is open in some mode. -/
def Opened (t : State σ) (b : Block) (mode : OpenMode) (s : State σ) : Prop :=
  Chained X platform may t s ∧ (s.descriptors b).openMode = some mode

variable (X platform may) in
/-- A chain to a state in which a descriptor is in use. -/
def InSlot (t : State σ) (b : Block) (s : State σ) : Prop :=
  Chained X platform may t s ∧ (s.descriptors b).allocated = true

theorem Opened.inSlot {b : Block} {mode : OpenMode} {s : State σ} (h : Opened X platform may t b mode s) :
    InSlot X platform may t b s :=
  ⟨h.1, h.1.sound.allocated (by rw [h.2]; simp)⟩

theorem closeForSwitch_spec (hX : X.Documented) (b : Block) :
    Triple (InSlot X platform may t b) (closeForSwitch X b)
      (fun closed s => closed = true ∧ InSlot X platform may t b s ∧
        (s.descriptors b).openMode = none)
      fun _ => InSlot X platform may t b := by
  refine Triple.get_bind fun u hu => Triple.ite (fun hnone => Triple.pure ?_) fun hopen => ?_
  · rintro s rfl
    exact ⟨rfl, hu, hnone⟩
  refine Triple.bind (Q := fun status s => status = (X.fileClose b u.fx).1 ∧
    s = { u with fx := (X.fileClose b u.fx).2 })
    (Triple.call (by rintro s rfl; exact ⟨rfl, rfl⟩)) fun status => ?_
  refine Triple.bind (Q := fun _ s => status = (X.fileClose b u.fx).1 ∧ InSlot X platform may t b s ∧
    (s.descriptors b).openMode = none) (Triple.modify ?_) fun _ => ?_
  · rintro s ⟨hstatus, rfl⟩
    refine ⟨hstatus, ⟨hu.1.act (.closedForSwitch hopen), ?_⟩, ?_⟩
    · simp [hu.2]
    · simp
  refine Triple.ite (fun _ => Triple.pure ?_) fun hfail => ?_
  · rintro s ⟨-, hs⟩
    exact ⟨rfl, hs⟩
  · refine Triple.bind (Q := fun _ _ => False) (Triple.check ?_ ?_) fun _ =>
      Triple.pure fun _ h => h.elim
    · rintro s ⟨hstatus, -⟩ hnone
      have hplain := hX.fileClose b u.fx
      rw [← hstatus] at hplain
      exact hfail (hplain hnone)
    · rintro s e ⟨-, hs, -⟩ -
      exact hs

theorem seek_spec (hX : X.Documented) (b : Block) (mode : OpenMode) (position : Nat) :
    Triple (Opened X platform may t b mode) (seek X b position)
      (fun _ => Opened X platform may t b mode) fun _ => Opened X platform may t b mode := by
  have hstep : ∀ s, Opened X platform may t b mode s →
      Opened X platform may t b mode { s with fx := (X.fileExtendedSeek b position s.fx).2 } :=
    fun s hs => ⟨hs.1.act (.sought position (by rw [hs.2]; simp)), hs.2⟩
  exact Triple.checked (hX.fileExtendedSeek b position) (fun s hs _ => hstep s hs)
    fun s _ hs _ _ => hstep s hs

theorem flushMedia_spec (hX : X.Documented) (v : Volume) {P : State σ → Prop}
    {Q : Unit → State σ → Prop} {E : Option Errno → State σ → Prop}
    (hok : ∀ s, P s → (X.mediaFlush v s.fx).1 = .success →
      Q () { s with fx := (X.mediaFlush v s.fx).2 })
    (herror : ∀ s e, P s → (X.mediaFlush v s.fx).1 ≠ .success →
      E (some e) { s with fx := (X.mediaFlush v s.fx).2 }) :
    Triple P (flushMedia X (some v)) Q E :=
  Triple.checked (hX.mediaFlush v) hok fun s e hs hfail _ => herror s e hs hfail

/-- The flush that comes before a reader is opened. -/
theorem flushForReader_spec (hX : X.Documented) (b : Block) (mode : OpenMode) (v : Volume)
    (halloc : (u.descriptors b).allocated = true) (hopen : (u.descriptors b).openMode = none)
    (hu : Chained X platform may t u) :
    Triple (· = cleared X u b)
      (Program.when (mode = .forRead ∧ HasWriter (cleared X u b) (u.descriptors b).path)
        (flushMedia X (some v)))
      (fun _ s => s = { u with fx := beforeOpen X u b v mode } ∧
        (mode = .forRead → HasWriter u (u.descriptors b).path →
          (X.mediaFlush v (X.clear b u.fx)).1 = .success))
      fun _ => InSlot X platform may t b := by
  refine Triple.when (fun hwriter => flushMedia_spec hX v ?_ ?_) fun hno => ?_
  · rintro s rfl hstatus
    have hbefore : beforeOpen X u b v mode = (X.mediaFlush v (X.clear b u.fx)).2 := if_pos hwriter
    exact ⟨by rw [hbefore]; rfl, fun _ _ => hstatus⟩
  · rintro s e rfl -
    exact ⟨(hu.act (.cleared halloc hopen)).quiet (.flush v _), halloc⟩
  · rintro s rfl
    have hbefore : beforeOpen X u b v mode = X.clear b u.fx := if_neg hno
    exact ⟨by rw [hbefore]; rfl, fun hmode hwriter => absurd ⟨hmode, hwriter⟩ hno⟩

theorem reopen_spec (hX : X.Documented) (b : Block) (mode : OpenMode) :
    Triple (fun s => InSlot X platform may t b s ∧ (s.descriptors b).openMode = none)
      (reopen X platform b mode) (fun _ => Opened X platform may t b mode)
      fun _ => InSlot X platform may t b := by
  refine Triple.of_forall fun u ⟨⟨hu, halloc⟩, hopen⟩ => ?_
  obtain ⟨v, rest, hentry, -⟩ := hu.sound.entry b halloc
  refine Triple.bind (Q := fun _ s => s = cleared X u b)
    (Triple.modify (by rintro s rfl; rfl)) fun _ => ?_
  refine Triple.get_bind ?_
  rintro s rfl
  have hpath : ((cleared X u b).descriptors b).path = (u.descriptors b).path := rfl
  rw [hpath, hentry.resolve_eq, pure_bind, if_neg (by simp [entryPath])]
  refine Triple.bind (flushForReader_spec hX b mode v halloc hopen hu) fun _ => ?_
  refine Triple.of_forall ?_
  rintro s ⟨rfl, hflush⟩
  refine Triple.bind (Q := fun status s =>
    status = (X.fileOpen v b (render rest) mode (beforeOpen X u b v mode)).1 ∧
      s = { u with fx := (X.fileOpen v b (render rest) mode (beforeOpen X u b v mode)).2 })
    (Triple.call (by rintro s rfl; exact ⟨rfl, rfl⟩)) fun status => ?_
  refine Triple.ite (fun hfail => Triple.check ?_ ?_) fun hok => ?_
  · rintro s ⟨hstatus, -⟩ hnone
    have hplain := hX.fileOpen v b (render rest) mode (beforeOpen X u b v mode)
    rw [← hstatus] at hplain
    exact absurd (hplain hnone) hfail
  · rintro s e ⟨hstatus, rfl⟩ -
    exact ⟨hu.act (.notReopened halloc hopen hentry (hstatus ▸ hfail)), halloc⟩
  · have hok : status = .success := not_not.mp hok
    refine Triple.bind (Q := fun _ => Opened X platform may t b mode) (Triple.modify ?_) fun _ => ?_
    · rintro s ⟨hstatus, rfl⟩
      refine ⟨hu.act (.reopened halloc hopen hentry hflush (hstatus ▸ hok)), ?_⟩
      simp
    · refine Triple.get_bind fun w hw => ?_
      refine (seek_spec hX b mode _).weaken ?_ (fun _ _ h => h) fun _ _ h => h.inSlot
      rintro s rfl
      exact hw

theorem switchMode_spec (hX : X.Documented) (b : Block) (mode : OpenMode) :
    Triple (InSlot X platform may t b) (switchMode X platform b mode)
      (fun _ => Opened X platform may t b mode) fun _ => InSlot X platform may t b := by
  refine Triple.get_bind fun u hu => Triple.ite (fun hmode => Triple.pure ?_) fun _ => ?_
  · rintro s rfl
    exact ⟨hu.1, hmode⟩
  refine Triple.bind ((closeForSwitch_spec hX b).pre (by rintro s rfl; exact hu)) fun closed => ?_
  refine Triple.when (fun _ => (reopen_spec hX b mode).pre fun s hs => hs.2) ?_
  rintro hno s ⟨rfl, -⟩
  exact absurd rfl hno

/-! ## Data -/

theorem writeChunk_spec (hX : X.Documented) (b : Block) (bytes : Bytes) :
    Triple (Opened X platform may t b .forWrite) (checked (X.fileWrite b bytes))
      (fun _ => Opened X platform may t b .forWrite) fun _ => Opened X platform may t b .forWrite := by
  have hstep : ∀ s, Opened X platform may t b .forWrite s →
      Opened X platform may t b .forWrite { s with fx := (X.fileWrite b bytes s.fx).2 } :=
    fun s hs => ⟨hs.1.act (.written bytes hs.2), hs.2⟩
  exact Triple.checked (hX.fileWrite b bytes) (fun s hs _ => hstep s hs)
    fun s _ hs _ _ => hstep s hs

theorem writeZeroes_spec (hX : X.Documented) (b : Block) (size rounds : Nat) :
    Triple (Opened X platform may t b .forWrite) (writeZeroes X b size rounds)
      (fun _ => Opened X platform may t b .forWrite) fun _ => Opened X platform may t b .forWrite := by
  induction rounds with
  | zero => exact Triple.diverge
  | succ rounds ih =>
      refine Triple.get_bind fun u hu => Triple.ite (fun _ => ?_) fun _ => Triple.pure ?_
      · refine Triple.bind ((writeChunk_spec hX b _).pre (by rintro s rfl; exact hu)) fun _ => ?_
        exact ih
      · rintro s rfl
        exact hu

theorem extendWithZeroes_spec (hX : X.Documented) (b : Block) (size : Nat) :
    Triple (Opened X platform may t b .forWrite) (extendWithZeroes X platform b size)
      (fun _ => Opened X platform may t b .forWrite) fun _ => Opened X platform may t b .forWrite := by
  refine Triple.get_bind fun u hu => Triple.ite (fun _ => Triple.pure ?_) fun _ => ?_
  · rintro s rfl
    exact hu
  · refine Triple.bind ((seek_spec hX b .forWrite _).pre (by rintro s rfl; exact hu)) fun _ => ?_
    exact writeZeroes_spec hX b size _

theorem Opened.position {b : Block} {mode : OpenMode} {s : State σ}
    (h : Opened X platform may t b mode s) (n : Nat) :
    Opened X platform may t b mode { s with
      descriptors := Function.update s.descriptors b { s.descriptors b with position := n } } :=
  ⟨h.1.act (.positioned n h.inSlot.2), by simpa using h.2⟩

theorem keepOffset_spec (b : Block) (mode : OpenMode) :
    Triple (Opened X platform may t b mode) (keepOffset X b)
      (fun _ => Opened X platform may t b mode) fun _ => Opened X platform may t b mode :=
  Triple.modify fun _ hs => hs.position _

theorem readHandle_spec (hX : X.Documented) (b : Block) (length : Nat) :
    Triple (Opened X platform may t b .forRead) (readHandle X b length)
      (fun _ => Opened X platform may t b .forRead) fun _ => Opened X platform may t b .forRead := by
  refine Triple.get_bind fun u hu => Triple.ite (fun _ => Triple.pure ?_) fun _ => ?_
  · rintro s rfl
    exact hu
  refine Triple.bind ((seek_spec hX b .forRead _).pre (by rintro s rfl; exact hu)) fun _ => ?_
  refine Triple.bind (Q := fun _ => Opened X platform may t b .forRead) (Triple.call ?_) ?_
  · exact fun s hs => ⟨hs.1.act (.read length hs.2), hs.2⟩
  rintro ⟨status, bytes⟩
  refine Triple.bind (keepOffset_spec b .forRead) fun _ => ?_
  exact Triple.ite (fun _ => Triple.fail fun _ hs => hs) fun _ => Triple.pure fun _ hs => hs

theorem writeHandle_spec (hX : X.Documented) (b : Block) (bytes : Bytes) :
    Triple (Opened X platform may t b .forWrite) (writeHandle X platform b bytes)
      (fun _ => Opened X platform may t b .forWrite) fun _ => Opened X platform may t b .forWrite := by
  refine Triple.get_bind fun u hu => ?_
  refine Triple.bind (Q := fun _ => Opened X platform may t b .forWrite) (Triple.when ?_ ?_) fun _ => ?_
  · refine fun _ => Triple.modify ?_
    rintro s rfl
    exact hu.position _
  · rintro - s rfl
    exact hu
  refine Triple.get_bind fun w hw => ?_
  refine Triple.bind ((extendWithZeroes_spec hX b _).pre (by rintro s rfl; exact hw)) fun _ => ?_
  refine Triple.bind (seek_spec hX b .forWrite _) fun _ => ?_
  refine Triple.bind (Q := fun _ => Opened X platform may t b .forWrite) (Triple.call ?_) fun status => ?_
  · exact fun s hs => ⟨hs.1.act (.written bytes hs.2), hs.2⟩
  refine Triple.bind (keepOffset_spec b .forWrite) fun _ => ?_
  exact Triple.ite (fun _ => Triple.fail fun _ hs => hs) fun _ => Triple.pure fun _ hs => hs

theorem truncate_spec (hX : X.Documented) (b : Block) (n : Nat) :
    Triple (Opened X platform may t b .forWrite)
      (checked (X.fileExtendedTruncateRelease b n))
      (fun _ => Opened X platform may t b .forWrite) fun _ => Opened X platform may t b .forWrite := by
  have hstep : ∀ s, Opened X platform may t b .forWrite s → Opened X platform may t b .forWrite
      { s with fx := (X.fileExtendedTruncateRelease b n s.fx).2 } :=
    fun s hs => ⟨hs.1.act (.truncated n hs.2), hs.2⟩
  exact Triple.checked (hX.fileExtendedTruncateRelease b n) (fun s hs _ => hstep s hs)
    fun s _ hs _ _ => hstep s hs

theorem resize_spec (hX : X.Documented) (b : Block) (length : Nat) :
    Triple (Opened X platform may t b .forWrite) (resize X platform b length)
      (fun _ => Opened X platform may t b .forWrite) fun _ => Opened X platform may t b .forWrite := by
  refine Triple.get_bind fun u hu => Triple.ite (fun _ => ?_) fun _ => Triple.when (fun _ => ?_) ?_
  · exact (truncate_spec hX b length).pre (by rintro s rfl; exact hu)
  · exact (extendWithZeroes_spec hX b length).pre (by rintro s rfl; exact hu)
  · rintro - s rfl
    exact hu

/-! ## Calls on descriptors -/

theorem descriptorFor_spec (file : Int) :
    Triple (· = u) (descriptorFor file : FS σ Block)
      (fun b s => s = u ∧ (u.descriptors b).allocated = true ∧ file = fileNumber b)
      fun _ s => s = u := by
  refine Triple.get_bind ?_
  rintro s rfl
  refine Triple.ite (fun _ => Triple.fails fun _ h => h) fun hthree => ?_
  split
  · next hindex =>
      refine Triple.ite (fun halloc => Triple.pure ?_) fun _ => Triple.fails fun _ h => h
      rintro s rfl
      refine ⟨rfl, halloc, ?_⟩
      simp only [fileNumber]
      omega
  · exact Triple.fails fun _ h => h

/-- A descriptor is looked up from a state that a chain leads to. -/
theorem descriptorFor_chained (file : Int) :
    Triple (Chained X platform may t) (descriptorFor file)
      (fun b => InSlot X platform may t b) fun _ => Chained X platform may t := by
  refine Triple.of_forall fun u hu => ?_
  refine (descriptorFor_spec file).weaken (fun _ h => h) ?_ ?_
  · rintro b s ⟨rfl, halloc, -⟩
    exact ⟨hu, halloc⟩
  · rintro e s rfl
    exact hu

theorem freeDescriptor_free {s : State σ} {b : Block} (h : freeDescriptor s = some b) :
    (s.descriptors b).allocated = false := by
  simpa [freeDescriptor] using List.find?_some h

theorem openHandle_spec (hX : X.Documented) (b : Block) (flags : OpenFlags) :
    Triple (InSlot X platform may t b) (openHandle X platform b flags)
      (fun _ => InSlot X platform may t b) fun _ => InSlot X platform may t b := by
  refine Triple.bind (switchMode_spec hX b _) fun _ => ?_
  refine Triple.when (fun hwrite => ?_) fun _ s hs => hs.inSlot
  rw [if_pos hwrite.1]
  refine Triple.bind (Q := fun _ => Opened X platform may t b .forWrite) (Triple.call ?_) fun status => ?_
  · exact fun s hs => ⟨hs.1.act (.truncated 0 hs.2), hs.2⟩
  refine Triple.bind (Q := fun _ => Opened X platform may t b .forWrite)
    (Triple.modify fun s hs => hs.position 0) fun _ => ?_
  exact Triple.check (fun s hs _ => hs.inSlot) fun s e hs _ => hs.inSlot

/-- A descriptor is given back, closed if need be, without a flush. -/
theorem InSlot.released {b : Block} {s : State σ} (h : InSlot X platform may t b s) :
    Chained X platform may t { s with
      fx := X.clear b (closed X s b)
      descriptors := Function.update s.descriptors b .empty } :=
  h.1.act (.released h.2 (.inl rfl))

theorem abandon_spec (b : Block) (e : Option Errno) :
    Triple (InSlot X platform may t b) (abandon X b e) (fun _ _ => False)
      fun _ => Chained X platform may t := by
  refine Triple.get_bind fun u hu => ?_
  refine Triple.bind (Q := fun _ s => s = { u with fx := closed X u b })
    (Triple.when (fun hopen => ?_) fun hnone => ?_) fun _ => ?_
  · refine Triple.bind (Q := fun _ s => s = { u with fx := closed X u b }) (Triple.call ?_)
      fun _ => Triple.pure fun _ h => h
    rintro s rfl
    rw [closed, if_neg hopen]
  · rintro s rfl
    rw [closed, if_pos (not_not.mp hnone)]
  · refine Triple.bind (Q := fun _ => Chained X platform may t) ?_ fun _ => Triple.fail fun _ h => h
    refine Triple.bind (Q := fun _ s => s = { u with fx := X.clear b (closed X u b) })
      (Triple.modify (by rintro s rfl; rfl)) fun _ => Triple.modify ?_
    rintro s rfl
    exact hu.released

theorem openSlot_spec (hX : X.Documented) {b : Block} {name : Bytes} {resolved : ResolvedPath}
    {flags : OpenFlags} {made : Bool} {size : Nat}
    (hslot : Chained X platform may t { u with
      fx := X.clear b u.fx
      descriptors := Function.update u.descriptors b
        (openedDescriptor name resolved flags made size) }) :
    Triple (· = u) (openSlot X platform b name resolved flags made size)
      (fun _ => Chained X platform may t) fun _ => Chained X platform may t := by
  refine Triple.bind (Q := fun _ s => s = cleared X u b)
    (Triple.modify (by rintro s rfl; rfl)) fun _ => ?_
  refine Triple.bind (Q := fun _ => InSlot X platform may t b) (Triple.modify ?_) fun _ => ?_
  · rintro s rfl
    exact ⟨hslot, by simp [openedDescriptor]⟩
  refine Triple.bind (Triple.observe (Q := fun _ => InSlot X platform may t b)
    (openHandle_spec hX b flags)) fun opened => ?_
  cases opened with
  | ok _ => exact Triple.pure fun s hs => hs.1
  | error e => exact (abandon_spec b e).weaken (fun _ h => h) (fun _ _ h => h.elim) fun _ _ h => h

theorem createFile_spec (hX : X.Documented) {b : Block} {name : Bytes} {v : Volume}
    {rest : List Bytes} (flags : OpenFlags) (hentry : Entry platform name v rest)
    (hfree : freeDescriptor u = some b) (hfill : may.fill b) (hu : Chained X platform may t u) :
    Triple (· = u) (createFile X platform b name (entryPath v rest) flags)
      (fun _ => Chained X platform may t) fun _ => Chained X platform may t := by
  refine Triple.ite (fun _ => ?_) fun _ => Triple.fails (by rintro s rfl; exact hu)
  refine Triple.bind (Q := fun status s => status = (X.fileCreate v (render rest) u.fx).1 ∧
    s = { u with fx := (X.fileCreate v (render rest) u.fx).2 })
    (Triple.call (by rintro s rfl; exact ⟨rfl, rfl⟩)) fun status => ?_
  refine Triple.ite (fun hfail => Triple.fail ?_) fun hok => Triple.of_forall ?_
  · rintro s ⟨rfl, rfl⟩
    exact hu.act (.notCreated hentry hfail)
  · rintro s ⟨rfl, rfl⟩
    exact openSlot_spec hX (hu.act (.created flags hentry hfree hfill (not_not.mp hok)))

/-- The steps of a call do what they may. -/
structure MayServe (may : May σ) (s : State σ) (r : Request) : Prop where
  unlink : ∀ path name fx, r = .unlink path → normalizePath s.currentDirectory path = .ok name →
    may.unlink { s with fx := fx } name
  fill : ∀ path flags b, r = .open_ path flags → freeDescriptor s = some b → may.fill b

theorem mayServe_anything {s : State σ} {r : Request} : MayServe .anything s r :=
  ⟨fun _ _ _ _ _ => trivial, fun _ _ _ _ _ => trivial⟩

theorem open_spec (hX : X.Documented) (path : Option Bytes) (flags : OpenFlags)
    (hu : Chained X platform may t u) (hmay : MayServe may u (.open_ path flags)) :
    Triple (· = u) (open_ X platform path flags)
      (fun _ => Chained X platform may t) fun _ => Chained X platform may t := by
  refine Triple.ite (fun _ => Triple.fails (by rintro s rfl; exact hu)) fun _ => ?_
  refine Triple.bind ((resolvePath_spec path).weaken (fun _ h => h) (fun _ _ h => h)
    (by rintro _ s rfl; exact hu)) ?_
  rintro ⟨name, resolved⟩
  refine Triple.of_forall ?_
  rintro s ⟨rfl, hname, hr⟩
  obtain ⟨cs, hn⟩ := normalizePath_normal hname
  refine Triple.ite (fun _ => Triple.fails (by rintro s rfl; exact hu)) fun hroot => ?_
  rw [not_or] at hroot
  obtain ⟨v, rest, hentry, rfl⟩ : ∃ v rest, Entry platform name v rest ∧
      resolved = entryPath v rest := by
    rcases resolve_cases hn hr with ⟨h, -⟩ | ⟨h, -⟩ | h
    · exact absurd h hroot.1
    · exact absurd h hroot.2
    · exact h
  refine Triple.get_bind ?_
  rintro u rfl
  cases hfree : freeDescriptor u with
  | none => exact Triple.fails (by rintro s rfl; exact hu)
  | some b =>
      have hfill : may.fill b := hmay.fill path flags b rfl hfree
      rw [information_entry hentry]
      refine Triple.bind (Triple.observe (Q := fun r s => match r with
        | .ok info => Informed X v rest u info s
        | .error e => NotInformed X v rest u e s) (entryInformation_spec hX v rest)) fun r => ?_
      cases r with
      | error e =>
          refine Triple.of_forall fun s hs => Triple.ite (fun _ => ?_) fun _ => Triple.fail ?_
          · refine createFile_spec hX flags hentry ?_ hfill (hu.noInformation hs)
            rw [hs.1]
            exact hfree
          · rintro s rfl
            exact hu.noInformation hs
      | ok info =>
          refine Triple.of_forall fun s hs => ?_
          have hs' := hu.information hs
          refine Triple.ite (fun _ => Triple.fails (by rintro s rfl; exact hs')) fun hfile => ?_
          refine Triple.ite (fun _ => Triple.fails (by rintro s rfl; exact hs')) fun _ => ?_
          obtain ⟨rfl, raw, hraw, rfl⟩ := hs
          have hact : Act X platform may _ _ :=
            .found flags hentry hfree hfill hraw (by simpa using hfile)
          exact openSlot_spec hX (hu.act hact)

/-- What `_close` has done to FileX when it gives the descriptor back. -/
def Closing (X : FileX σ) (b : Block) (u : State σ) (s : State σ) : Prop :=
  ∃ fx, s = { u with fx := fx } ∧
    (fx = closed X u b ∨ ∃ v, fx = (X.mediaFlush v (closed X u b)).2 ∧
      ((u.descriptors b).openMode ≠ none → (X.fileClose b u.fx).1 = .success))

theorem closeHandle_spec (hX : X.Documented) (b : Block) :
    Triple (· = u) (closeHandle X b) (fun _ => Closing X b u) fun _ => Closing X b u := by
  refine Triple.get_bind ?_
  rintro u rfl
  refine Triple.bind (Q := fun _ s => s = { u with fx := closed X u b } ∧
    ((u.descriptors b).openMode ≠ none → (X.fileClose b u.fx).1 = .success))
    (Triple.when (fun hopen => Triple.checked (hX.fileClose b) ?_ ?_) fun hnone => ?_) fun _ => ?_
  · rintro s rfl hok
    rw [closed, if_neg hopen]
    exact ⟨rfl, fun _ => hok⟩
  · rintro s e rfl - -
    refine ⟨_, rfl, .inl ?_⟩
    rw [closed, if_neg hopen]
  · rintro s rfl
    rw [closed, if_pos (not_not.mp hnone)]
    exact ⟨rfl, fun hopen => absurd hopen hnone⟩
  refine Triple.of_forall ?_
  rintro s ⟨rfl, hok⟩
  refine Triple.when (fun _ => ?_) fun _ => ?_
  · cases (u.descriptors b).media with
    | none => exact Triple.fails (by rintro s rfl; exact ⟨_, rfl, .inl rfl⟩)
    | some v =>
        refine flushMedia_spec hX v ?_ ?_
        · rintro s rfl -
          exact ⟨_, rfl, .inr ⟨v, rfl, hok⟩⟩
        · rintro s e rfl -
          exact ⟨_, rfl, .inr ⟨v, rfl, hok⟩⟩
  · rintro s rfl
    exact ⟨_, rfl, .inl rfl⟩

theorem close_spec (hX : X.Documented) (file : Int) :
    Triple (Chained X platform may t) (close X file) (fun _ => Chained X platform may t)
      fun _ => Chained X platform may t := by
  refine Triple.ite (fun _ => Triple.pure fun _ h => h) fun _ => ?_
  refine Triple.bind (descriptorFor_chained file) fun b => Triple.of_forall fun u hu => ?_
  refine Triple.bind (Triple.observe (Q := fun _ => Closing X b u) (closeHandle_spec hX b))
    fun closed => ?_
  refine Triple.bind (Q := fun _ => Chained X platform may t) (Triple.of_forall ?_) fun _ =>
    Triple.ofExcept (fun _ _ _ h => h) fun _ _ _ h => h
  rintro s ⟨fx, rfl, hfx⟩
  refine Triple.bind (Q := fun _ s => s = { u with fx := X.clear b fx })
    (Triple.modify (by rintro s rfl; rfl)) fun _ => Triple.modify ?_
  rintro s rfl
  exact hu.1.act (.released hu.2 hfx)

theorem read_spec (hX : X.Documented) (file : Int) (buffer : Bool) (length : Int) :
    Triple (Chained X platform may t) (read X platform file buffer length)
      (fun _ => Chained X platform may t) fun _ => Chained X platform may t := by
  refine Triple.ite (fun _ => Triple.fails fun _ h => h) fun _ => ?_
  refine Triple.ite (fun _ => Triple.fails fun _ h => h) fun _ => ?_
  refine Triple.ite (fun _ => Triple.ite (fun _ => Triple.pure fun _ h => h) fun _ =>
    Triple.ofExcept (fun _ _ _ h => h) fun _ _ _ h => h) fun _ => ?_
  refine Triple.bind (descriptorFor_chained file) fun b => Triple.get_bind fun u hu => ?_
  refine Triple.ite (fun _ => Triple.fails (by rintro s rfl; exact hu.1)) fun _ => ?_
  refine Triple.ite (fun _ => Triple.pure (by rintro s rfl; exact hu.1)) fun _ => ?_
  refine Triple.bind ((switchMode_spec hX b .forRead).weaken (by rintro s rfl; exact hu)
    (fun _ _ h => h) fun _ _ h => h.1) fun _ => ?_
  exact (readHandle_spec hX b _).weaken (fun _ h => h) (fun _ _ h => h.1) fun _ _ h => h.1

theorem write_spec (hX : X.Documented) (file : Int) (buffer : Option Bytes) (length : Int) :
    Triple (Chained X platform may t) (write X platform file buffer length)
      (fun _ => Chained X platform may t) fun _ => Chained X platform may t := by
  refine Triple.ite (fun _ => Triple.fails fun _ h => h) fun _ => ?_
  refine Triple.ite (fun _ => Triple.fails fun _ h => h) fun _ => ?_
  refine Triple.ite (fun _ => Triple.ite (fun _ => Triple.pure fun _ h => h) fun _ => ?_)
    fun _ => ?_
  · exact Triple.bind (Triple.ofExcept (fun _ _ _ h => h) fun _ _ _ h => h) fun _ =>
      Triple.pure fun _ h => h
  refine Triple.bind (descriptorFor_chained file) fun b => Triple.get_bind fun u hu => ?_
  refine Triple.ite (fun _ => Triple.fails (by rintro s rfl; exact hu.1)) fun _ => ?_
  refine Triple.ite (fun _ => Triple.pure (by rintro s rfl; exact hu.1)) fun _ => ?_
  refine Triple.bind ((switchMode_spec hX b .forWrite).weaken (by rintro s rfl; exact hu)
    (fun _ _ h => h) fun _ _ h => h.1) fun _ => ?_
  refine Triple.bind ((writeHandle_spec hX b _).weaken (fun _ h => h) (fun _ _ h => h.1)
    fun _ _ h => h.1) fun _ => Triple.pure fun _ h => h

theorem lseek_spec (hX : X.Documented) (file offset : Int) (origin : Origin) :
    Triple (Chained X platform may t) (lseek X platform file offset origin)
      (fun _ => Chained X platform may t) fun _ => Chained X platform may t := by
  refine Triple.bind (descriptorFor_chained file) fun b => Triple.get_bind fun u hu => ?_
  refine Triple.bind (Q := fun _ s => InSlot X platform may t b s ∧ (s.descriptors b).openMode ≠ none)
    (Triple.when (fun _ => ?_) ?_) fun _ => ?_
  · refine (switchMode_spec hX b _).weaken (by rintro s rfl; exact hu) ?_ fun _ _ h => h.1
    exact fun _ s h => ⟨h.inSlot, by rw [h.2]; simp⟩
  · rintro hopen s rfl
    exact ⟨hu, hopen⟩
  refine Triple.get_bind fun w hw => ?_
  refine Triple.bind (Q := fun _ s => s = w) (Triple.raise (fun _ _ _ h => h)
    (by rintro e s - rfl; exact hw.1.1)) fun base => ?_
  refine Triple.bind (Q := fun _ s => s = w) (Triple.raise (fun _ _ _ h => h)
    (by rintro e s - rfl; exact hw.1.1)) fun target => ?_
  refine Triple.bind (Q := fun _ => InSlot X platform may t b) (Triple.call ?_) fun status => ?_
  · rintro s rfl
    exact ⟨hw.1.1.act (.sought target hw.2), hw.1.2⟩
  refine Triple.ite (fun _ => Triple.fail fun _ h => h.1) fun _ => ?_
  refine Triple.bind (Q := fun _ => Chained X platform may t) (Triple.modify ?_) fun _ =>
    Triple.pure fun _ h => h
  exact fun s hs => hs.1.act (.positioned target hs.2)

theorem ftruncate_spec (hX : X.Documented) (file length : Int) :
    Triple (Chained X platform may t) (ftruncate X platform file length)
      (fun _ => Chained X platform may t) fun _ => Chained X platform may t := by
  refine Triple.ite (fun _ => Triple.fails fun _ h => h) fun _ => ?_
  refine Triple.bind (descriptorFor_chained file) fun b => Triple.get_bind fun u hu => ?_
  refine Triple.ite (fun _ => Triple.fails (by rintro s rfl; exact hu.1)) fun _ => ?_
  refine Triple.bind ((switchMode_spec hX b .forWrite).weaken (by rintro s rfl; exact hu)
    (fun _ _ h => h) fun _ _ h => h.1) fun _ => ?_
  refine Triple.bind ((resize_spec hX b _).weaken (fun _ h => h) (fun _ _ h => h)
    fun _ _ h => h.1) fun _ => Triple.get_bind fun w hw => ?_
  exact (seek_spec hX b .forWrite _).weaken (by rintro s rfl; exact hw) (fun _ _ h => h.1)
    fun _ _ h => h.1

theorem fsync_spec (file : Int) :
    Triple (Chained X platform may t) (fsync X platform file)
      (fun _ => Chained X platform may t) fun _ => Chained X platform may t := by
  refine Triple.bind (descriptorFor_chained file) fun b => Triple.get_bind fun u hu => ?_
  refine Triple.bind (Q := fun _ s => s = u) (Triple.raise (fun _ _ _ h => h)
    (by rintro e s - rfl; exact hu.1)) fun resolved => ?_
  refine Triple.bind (Q := fun _ => Chained X platform may t) (Triple.call ?_) fun status =>
    Triple.ite (fun _ => Triple.fail fun _ h => h) fun _ => Triple.pure fun _ h => h
  rintro s rfl
  exact hu.1.quiet (.flush _ _)

/-! ## Looking a name up, as a chain -/

variable (platform) in
/-- The path of a call leads to an entry. -/
def Names (u : State σ) (path : Option Bytes) (name : Bytes) (v : Volume) (rest : List Bytes) :
    Prop :=
  normalizePath u.currentDirectory path = .ok name ∧ Entry platform name v rest

/-- The state is the same but for calls that look names up. -/
theorem information_chained (hX : X.Documented) {name : Bytes} {cs : List Bytes}
    {resolved : ResolvedPath} (hn : IsNormal name cs)
    (hr : resolveNormalizedPath platform.mounted name = .ok resolved)
    (hu : Chained X platform may t u) :
    Triple (· = u) (information X platform (some name))
      (fun info s => (s = u ∧ info = .root ∧
          (resolved.virtualRoot = true ∨ resolved.mountRoot = true)) ∨
        ∃ v rest, Entry platform name v rest ∧ resolved = entryPath v rest ∧
          Informed X v rest u info s)
      fun _ s => Chained X platform may t s := by
  rcases resolve_cases hn hr with ⟨hroot, -⟩ | ⟨hroot, -⟩ | ⟨v, rest, hentry, rfl⟩
  · rw [information_root hn hr (.inl hroot)]
    exact Triple.pure fun s hs => .inl ⟨hs, rfl, .inl hroot⟩
  · rw [information_root hn hr (.inr hroot)]
    exact Triple.pure fun s hs => .inl ⟨hs, rfl, .inr hroot⟩
  · rw [information_entry hentry]
    refine (entryInformation_spec hX v rest).weaken (fun _ h => h) ?_ ?_
    · exact fun info s hs => .inr ⟨v, rest, hentry, rfl, hs⟩
    · exact fun e s hs => hu.noInformation hs

/-- The path and the information that several calls start with. -/
theorem named_spec (hX : X.Documented) (path : Option Bytes) {β : Type}
    {k : Bytes × ResolvedPath → EntryInformation → FS σ β} {Q : β → State σ → Prop}
    (hroot : ∀ r info, info.directory = true → r.2.virtualRoot = true ∨ r.2.mountRoot = true →
      Triple (Chained X platform may t) (k r info) Q fun _ => Chained X platform may t)
    (hentry : ∀ name v rest info s, Names platform u path name v rest →
      Informed X v rest u info s → Chained X platform may t s →
      Triple (· = s) (k (name, entryPath v rest) info) Q fun _ => Chained X platform may t)
    (hu : Chained X platform may t u) :
    Triple (· = u) (do
        let r ← resolvePath platform path
        let info ← information X platform (some r.1)
        k r info) Q fun _ => Chained X platform may t := by
  refine Triple.bind ((resolvePath_spec path).weaken (fun _ h => h) (fun _ _ h => h)
    (by rintro _ s rfl; exact hu)) ?_
  rintro ⟨name, resolved⟩
  refine Triple.of_forall ?_
  rintro s ⟨rfl, hname, hr⟩
  obtain ⟨cs, hn⟩ := normalizePath_normal hname
  refine Triple.bind (information_chained hX hn hr hu) fun info => Triple.of_forall ?_
  rintro w (⟨rfl, rfl, h⟩ | ⟨v, rest, he, rfl, hinfo⟩)
  · exact (hroot (name, resolved) .root rfl h).pre (by rintro s rfl; exact hu)
  · exact hentry name v rest info w ⟨hname, he⟩ hinfo (hu.information hinfo)

/-! ## Calls on names -/

variable (X platform may) in
/-- A call of FileX has succeeded, and after it the volume has been flushed, last of all. -/
def Committed (t : State σ) (v : Volume) (f : σ → Status × σ) (s : State σ) : Prop :=
  ∃ (fx : σ) (w : State σ), (f fx).1 = .success ∧ Calls X (f fx).2 w.fx ∧
    Chained X platform may t w ∧ (X.mediaFlush v w.fx).1 = .success ∧
    s = { w with fx := (X.mediaFlush v w.fx).2 }

theorem Committed.chained {v : Volume} {f : σ → Status × σ} {s : State σ}
    (h : Committed X platform may t v f s) : Chained X platform may t s := by
  obtain ⟨fx, w, -, -, hw, -, rfl⟩ := h
  exact hw.quiet (.flush v w.fx)

/-- The last two steps of a call that changes one name. -/
theorem commit_spec (hX : X.Documented) {f : σ → Status × σ} (v : Volume)
    (hplain : ∀ fx, (f fx).1.Plain)
    (hf : Chained X platform may t { u with fx := (f u.fx).2 }) :
    Triple (· = u) (checked f >>= fun _ => flushMedia X (some v))
      (fun _ => Committed X platform may t v f) fun _ => Chained X platform may t := by
  refine Triple.bind (Q := fun _ s => (f u.fx).1 = .success ∧ s = { u with fx := (f u.fx).2 })
    (Triple.checked hplain ?_ ?_) fun _ => flushMedia_spec hX v ?_ ?_
  · rintro s rfl hok
    exact ⟨hok, rfl⟩
  · rintro s e rfl - -
    exact hf
  · rintro s ⟨hok, rfl⟩ hflush
    exact ⟨u.fx, _, hok, .refl, hf, hflush, rfl⟩
  · rintro s e ⟨-, rfl⟩ -
    exact hf.quiet (.flush v _)

theorem unlink_spec (hX : X.Documented) (path : Option Bytes) (hu : Chained X platform may t u)
    (hmay : MayServe may u (.unlink path)) :
    Triple (· = u) (unlink X platform path)
      (fun _ s => ∃ name v rest, Names platform u path name v rest ∧
        Committed X platform may t v (X.fileDelete v (render rest)) s)
      fun _ => Chained X platform may t := by
  refine named_spec hX path ?_ ?_ hu
  · rintro ⟨name, resolved⟩ info hdir -
    exact Triple.ite (fun _ => Triple.fails fun _ h => h) fun hno => absurd hdir hno
  · rintro name v rest info s hname hinfo hs
    refine Triple.ite (fun _ => Triple.fails (by rintro s rfl; exact hs)) fun _ => ?_
    rw [if_neg (by simp [entryPath])]
    have hallowed : may.unlink s name := hinfo.1 ▸ hmay.unlink path name _ rfl hname.1
    refine (commit_spec hX v (hX.fileDelete v _) (hs.act (.unlinked hname.2 hallowed))).weaken
      (fun _ h => h) ?_ fun _ _ h => h
    exact fun _ s h => ⟨name, v, rest, hname, h⟩

theorem rmdir_spec (hX : X.Documented) (path : Option Bytes) (hu : Chained X platform may t u) :
    Triple (· = u) (rmdir X platform path)
      (fun _ s => ∃ name v rest, Names platform u path name v rest ∧
        Committed X platform may t v (X.directoryDelete v (render rest)) s)
      fun _ => Chained X platform may t := by
  refine named_spec hX path ?_ ?_ hu
  · rintro ⟨name, resolved⟩ info - hroot
    refine Triple.ite (fun _ => Triple.fails fun _ h => h) fun _ => ?_
    exact Triple.ite (fun _ => Triple.fails fun _ h => h) fun hno => absurd hroot hno
  · rintro name v rest info s hname hinfo hs
    refine Triple.ite (fun _ => Triple.fails (by rintro s rfl; exact hs)) fun _ => ?_
    rw [if_neg (by simp [entryPath])]
    refine Triple.get_bind ?_
    rintro s rfl
    refine Triple.ite (fun _ => Triple.fails (by rintro s rfl; exact hs)) fun hcurrent => ?_
    have hcurrent : pathHasPrefix s.currentDirectory name true = false := by simpa using hcurrent
    refine (commit_spec hX v (hX.directoryDelete v _)
      (hs.act (.removedDirectory hname.2 hcurrent))).weaken (fun _ h => h) ?_ fun _ _ h => h
    exact fun _ s h => ⟨name, v, rest, hname, h⟩

theorem mkdir_spec (hX : X.Documented) (path : Option Bytes) (hu : Chained X platform may t u) :
    Triple (· = u) (mkdir X platform path)
      (fun _ s => ∃ name v rest, Names platform u path name v rest ∧
        Committed X platform may t v (X.directoryCreate v (render rest)) s)
      fun _ => Chained X platform may t := by
  refine Triple.bind ((resolvePath_spec path).weaken (fun _ h => h) (fun _ _ h => h)
    (by rintro _ s rfl; exact hu)) ?_
  rintro ⟨name, resolved⟩
  refine Triple.of_forall ?_
  rintro s ⟨rfl, hname, hr⟩
  obtain ⟨cs, hn⟩ := normalizePath_normal hname
  refine Triple.ite (fun _ => Triple.fails (by rintro s rfl; exact hu)) fun hroot => ?_
  rw [not_or] at hroot
  rcases resolve_cases hn hr with ⟨h, -⟩ | ⟨h, -⟩ | ⟨v, rest, hentry, rfl⟩
  · exact absurd h hroot.1
  · exact absurd h hroot.2
  · refine (commit_spec hX v (hX.directoryCreate v _) (hu.act (.madeDirectory hentry))).weaken
      (fun _ h => h) ?_ fun _ _ h => h
    exact fun _ s h => ⟨name, v, rest, ⟨hname, hentry⟩, h⟩

theorem fstat_spec (hX : X.Documented) (file : Int) (value : Bool) :
    Triple (Chained X platform may t) (fstat X platform file value) (fun _ => Chained X platform may t)
      fun _ => Chained X platform may t := by
  refine Triple.ite (fun _ => Triple.fails fun _ h => h) fun _ => ?_
  refine Triple.ite (fun _ => Triple.pure fun _ h => h) fun _ => ?_
  refine Triple.bind (descriptorFor_chained file) fun b => Triple.get_bind fun u hu => ?_
  obtain ⟨v, rest, hentry, -⟩ := hu.1.sound.entry b hu.2
  refine Triple.bind (Q := fun _ => Chained X platform may t) ?_ fun info =>
    Triple.get_bind fun w hw => Triple.pure (by rintro s rfl; exact hw)
  rw [information_entry hentry]
  refine (entryInformation_spec hX v rest).weaken (fun _ h => h) ?_ ?_
  · exact fun info s hs => hu.1.information hs
  · exact fun e s hs => hu.1.noInformation hs

theorem stat_spec (hX : X.Documented) (path : Option Bytes) (value : Bool) :
    Triple (Chained X platform may t) (stat X platform path value) (fun _ => Chained X platform may t)
      fun _ => Chained X platform may t := by
  refine Triple.ite (fun _ => Triple.fails fun _ h => h) fun _ => ?_
  refine Triple.bind (Q := fun _ => Chained X platform may t) ?_ fun info => ?_
  · refine Triple.of_forall fun u hu => ?_
    refine Triple.bind ((normalize_spec path).weaken (fun _ h => h) (fun _ _ h => h)
      (by rintro _ s rfl; exact hu)) fun name => Triple.of_forall ?_
    rintro s ⟨rfl, hname⟩
    obtain ⟨cs, hn⟩ := normalizePath_normal hname
    refine Triple.ite (fun _ => Triple.pure (by rintro s rfl; exact hu)) fun hroot => ?_
    refine Triple.bind (Q := fun resolved w => w = s ∧
      resolveNormalizedPath platform.mounted name = .ok resolved) (Triple.raise ?_ ?_)
      fun resolved => Triple.of_forall ?_
    · exact fun resolved w hr hw => ⟨hw, hr⟩
    · rintro e w - rfl
      exact hu
    rintro w ⟨rfl, hr⟩
    refine Triple.ite (fun _ => Triple.pure (by rintro s rfl; exact hu)) fun hmount => ?_
    rcases resolve_cases hn hr with ⟨-, hname⟩ | ⟨hmount', -⟩ | ⟨v, rest, hentry, rfl⟩
    · exact absurd hname hroot
    · exact absurd hmount' hmount
    · refine (entryInformation_spec hX v rest).weaken (fun _ h => h) ?_ ?_
      · exact fun info s hs => hu.information hs
      · exact fun e s hs => hu.noInformation hs
  · refine Triple.of_forall fun u hu => ?_
    refine Triple.bind ((normalize_spec path).weaken (fun _ h => h) (fun _ _ h => h.1)
      (by rintro _ s rfl; exact hu)) fun name => Triple.get_bind ?_
    rintro s rfl
    exact Triple.pure (by rintro s rfl; exact hu)

theorem stampHandles_spec (name : Bytes) (stamp : Stamp) (blocks : List Block) :
    Triple (Chained X platform may t) (stampHandles X name stamp blocks)
      (fun _ => Chained X platform may t) fun _ => Chained X platform may t := by
  induction blocks with
  | nil => exact Triple.pure fun _ h => h
  | cons b blocks ih =>
      refine Triple.get_bind fun u hu => ?_
      refine Triple.bind (Q := fun _ => Chained X platform may t) (Triple.when (fun hmatch => ?_) ?_)
        fun _ => ih
      · refine Triple.modify ?_
        rintro s rfl
        exact hu.act (.datedHandle _ _ hmatch.2.1)
      · rintro - s rfl
        exact hu

/-- The time stamp of a request. -/
def requestedTime (times : Option Int) (now : Int) : Stamp := stampOf (times.getD now)

theorem utime_spec (hX : X.Documented) (path : Option Bytes) (times : Option Int) (now : Int)
    (hu : Chained X platform may t u) :
    Triple (· = u) (utime X platform path times now)
      (fun _ s => ∃ name v rest, Names platform u path name v rest ∧
        Committed X platform may t v
          (X.fileDateTimeSet v (render rest) (requestedTime times now)) s)
      fun _ => Chained X platform may t := by
  refine Triple.bind ((resolvePath_spec path).weaken (fun _ h => h) (fun _ _ h => h)
    (by rintro _ s rfl; exact hu)) ?_
  rintro ⟨name, resolved⟩
  refine Triple.of_forall ?_
  rintro s ⟨rfl, hname, hr⟩
  obtain ⟨cs, hn⟩ := normalizePath_normal hname
  refine Triple.ite (fun _ => Triple.fails (by rintro s rfl; exact hu)) fun hroot => ?_
  rw [not_or] at hroot
  rcases resolve_cases hn hr with ⟨h, -⟩ | ⟨h, -⟩ | ⟨v, rest, hentry, rfl⟩
  · exact absurd h hroot.1
  · exact absurd h hroot.2
  rw [information_entry hentry]
  refine Triple.bind ((entryInformation_spec hX v rest).weaken (fun _ h => h)
    (fun info s hs => hu.information hs) fun e s hs => hu.noInformation hs) fun info => ?_
  refine Triple.ite (fun _ => Triple.fails fun _ h => h) fun _ => ?_
  refine Triple.bind (Q := fun _ => Chained X platform may t) (flushMedia_spec hX v
    (fun s hs _ => hs.quiet (.flush v _)) fun s e hs _ => hs.quiet (.flush v _)) fun _ => ?_
  refine Triple.bind (Q := fun _ w => ∃ fx,
      (X.fileDateTimeSet v (render rest) (requestedTime times now) fx).1 = .success ∧
      w.fx = (X.fileDateTimeSet v (render rest) (requestedTime times now) fx).2 ∧
      Chained X platform may t w)
    (Triple.checked (hX.fileDateTimeSet v (render rest) _) ?_ ?_) fun _ => Triple.of_forall ?_
  · exact fun s hs hok => ⟨s.fx, hok, rfl, hs.act (.dated _ hentry)⟩
  · exact fun s e hs _ _ => hs.act (.dated _ hentry)
  rintro w ⟨fx, hok, hfx, hw⟩
  -- the handles are stamped in a chain of its own, which shows that FileX has only been called
  refine Triple.bind (((stampHandles_spec name (requestedTime times now) (List.finRange _)).weaken
    (by rintro s rfl; exact .start hw.sound) (fun _ _ h => h) fun _ _ h => hw.trans h))
    fun _ => flushMedia_spec hX v ?_ ?_
  · rintro s hs hflush
    refine ⟨name, v, rest, ⟨hname, hentry⟩, fx, s, hok, ?_, hw.trans hs, hflush, rfl⟩
    rw [← hfx]
    exact hs.calls
  · exact fun s e hs _ => (hw.trans hs).quiet (.flush v _)

/-! ## Rename -/

variable (X platform may) in
/-- Names have been looked up, and backup names used up, since some state. -/
def Looked (t u s : State σ) : Prop :=
  Chained X platform may t s ∧ ∃ fx n, s = { u with fx := fx, renameBackupSequence := n }

theorem Looked.quiet {s : State σ} {fx : σ} (h : Looked X platform may t u s)
    (hquiet : Quiet X s.fx fx) : Looked X platform may t u { s with fx := fx } := by
  obtain ⟨hs, fx', n, rfl⟩ := h
  exact ⟨hs.quiet hquiet, fx, n, rfl⟩

theorem renameEntry_eq {old new : Bytes} {v : Volume} {src dst : List Bytes} (directory : Bool)
    (hold : Entry platform old v src) (hnew : Entry platform new v dst) :
    renameEntry X platform directory old new =
      checked (X.entryRename directory v (render src) (render dst)) := by
  rw [renameEntry, hold.resolve_eq, pure_bind, hnew.resolve_eq, pure_bind, if_neg (by simp [
    ResolvedPath.media, entryPath])]
  cases directory <;> rfl

theorem deleteEntry_eq {name : Bytes} {v : Volume} {rest : List Bytes} (directory : Bool)
    (h : Entry platform name v rest) :
    deleteEntry X platform directory name = checked (X.entryDelete directory v (render rest)) := by
  rw [deleteEntry, h.resolve_eq, pure_bind]
  cases directory <;> rfl

theorem FileX.Documented.entryRename (hX : X.Documented) (directory : Bool) (v : Volume)
    (p q : Bytes) (fx : σ) : (X.entryRename directory v p q fx).1.Plain := by
  cases directory with
  | true => exact hX.directoryRename v p q fx
  | false => exact hX.fileRename v p q fx

theorem FileX.Documented.entryDelete (hX : X.Documented) (directory : Bool) (v : Volume)
    (p : Bytes) (fx : σ) : (X.entryDelete directory v p fx).1.Plain := by
  cases directory with
  | true => exact hX.directoryDelete v p fx
  | false => exact hX.fileDelete v p fx

theorem skipDots_spec (v : Volume) (rounds : Nat) (found : Status × Bytes) :
    Triple (Looked X platform may t u) (skipDots X v rounds found)
      (fun _ => Looked X platform may t u) fun _ => Looked X platform may t u := by
  induction rounds generalizing found with
  | zero => exact Triple.diverge
  | succ rounds ih =>
      obtain ⟨status, name⟩ := found
      refine Triple.ite (fun _ => ?_) fun _ => Triple.pure fun _ h => h
      refine Triple.bind (Q := fun _ => Looked X platform may t u) (Triple.call ?_) fun found => ih found
      exact fun s hs => hs.quiet (.nextFind v _)

theorem requireEmptyDirectory_spec {name : Bytes} {v : Volume} {rest : List Bytes}
    (h : Entry platform name v rest) :
    Triple (Looked X platform may t u) (requireEmptyDirectory X platform name)
      (fun _ => Looked X platform may t u) fun _ => Looked X platform may t u := by
  rw [requireEmptyDirectory, h.resolve_eq, pure_bind]
  have hset (p : Bytes) {E : Option Errno → State σ → Prop} : Triple (E := E)
      (Looked X platform may t u) (call (X.directoryDefaultSet v p)) (fun _ => Looked X platform may t u) :=
    Triple.call fun s hs => hs.quiet (.defaultSet v p _)
  have hcheck (status : Status) : Triple (Looked X platform may t u) (check status)
      (fun _ => Looked X platform may t u) fun _ => Looked X platform may t u :=
    Triple.check (fun _ hs _ => hs) fun _ _ hs _ => hs
  refine Triple.bind (Triple.observe (Q := fun _ => Looked X platform may t u) ?_) fun found => ?_
  · refine Triple.bind (Triple.bind (hset _) hcheck) fun _ => ?_
    refine Triple.bind (Q := fun _ => Looked X platform may t u) (Triple.call fun s hs =>
      hs.quiet (.firstFind v _)) fun first => ?_
    refine Triple.bind (skipDots_spec v _ first) fun status => ?_
    refine Triple.ite (fun _ => Triple.pure fun _ h => h) fun _ => ?_
    exact Triple.ite (fun _ => Triple.fails fun _ h => h) fun _ => hcheck status
  · refine Triple.bind (hset _) fun reset => ?_
    exact Triple.bind (Triple.ofExcept (fun _ _ _ h => h) fun _ _ _ h => h) fun _ => hcheck reset

/-- A digit is neither a separator nor a dot. -/
theorem hexadecimal_spec (n : Nat) :
    isSeparator (hexadecimal (n % 16)) = false ∧ hexadecimal (n % 16) ≠ dot := by
  have hall : ∀ k : Fin 16, isSeparator (hexadecimal k) = false ∧ hexadecimal k ≠ dot := by decide
  exact hall ⟨n % 16, Nat.mod_lt n (by decide)⟩

theorem isComponent_backup (sequence : UInt32) : IsComponent (backupComponent sequence) where
  ne_nil := by simp [backupComponent]
  ne_dot := by simp [backupComponent]
  ne_dots := by simp [backupComponent]
  separator := by
    intro b hb
    simp only [backupComponent, List.mem_append, List.mem_map] at hb
    rcases hb with (hb | ⟨place, -, rfl⟩) | hb
    · revert b
      decide +kernel
    · exact (hexadecimal_spec _).1
    · revert b
      decide +kernel

theorem entry_backup {v : Volume} (hm : platform.mounted v = true) (sequence : UInt32) :
    Entry platform (backupName v sequence) v [backupComponent sequence] := by
  refine ⟨mountComponent v, ⟨?_, ?_, ?_⟩, rfl, by simp, hm⟩
  · intro c hc
    rcases List.mem_cons.mp hc with rfl | hc
    · exact isComponent_mount v
    · rcases List.mem_singleton.mp hc with rfl
      exact isComponent_backup sequence
  · rw [backupName, mountName_eq, render_cons]
    simp [renderTail]
  · cases v <;> simp [backupName, backupComponent, mountName, maximumPath]

theorem findBackup_spec (hX : X.Documented) {v : Volume} (hm : platform.mounted v = true)
    (attempts : Nat) :
    Triple (Looked X platform may t u) (findBackup X platform v attempts)
      (fun backup s => Looked X platform may t u s ∧
        ∃ aside, IsBackup platform backup v aside) fun _ => Looked X platform may t u := by
  induction attempts with
  | zero => exact Triple.fails fun _ h => h
  | succ attempts ih =>
      refine Triple.bind (Q := fun _ => Looked X platform may t u) (Triple.step ?_) fun sequence => ?_
      · rintro s ⟨hs, fx, n, rfl⟩
        exact ⟨hs.act (.sequence (n + 1)), fx, n + 1, rfl⟩
      refine Triple.bind (Triple.observe (Q := fun _ => Looked X platform may t u) ?_) fun found => ?_
      · rw [information_entry (entry_backup hm sequence)]
        refine Triple.of_forall fun w hw => ?_
        refine (entryInformation_spec hX v [backupComponent sequence]).weaken (fun _ h => h) ?_ ?_
        · rintro info s ⟨rfl, -⟩
          exact hw.quiet (.information v _ _)
        · rintro e s ⟨rfl, -⟩
          exact hw.quiet (.information v _ _)
      cases found with
      | error e =>
          refine Triple.ite (fun _ => Triple.pure ?_) fun _ => Triple.fail fun _ h => h
          exact fun s hs => ⟨hs, _, entry_backup hm sequence, rfl⟩
      | ok info => exact ih

section Replace

variable {v : Volume} {old new : Bytes} {src dst : List Bytes} {directory : Bool}

theorem Renaming.looked {s : State σ} (h : Renaming platform u v old new src dst directory)
    (hs : Looked X platform may t u s) : Renaming platform s v old new src dst directory := by
  obtain ⟨-, fx, n, rfl⟩ := hs
  exact ⟨h.source, h.target, h.fits, h.apart⟩

theorem Replacing.looked {s : State σ} (h : Replacing u old new directory)
    (hs : Looked X platform may t u s) : Replacing s old new directory := by
  obtain ⟨-, fx, n, rfl⟩ := hs
  exact ⟨h.other, h.current, h.unused⟩

variable (X platform may) in
/-- The destination has been moved out of the way, if there is one. -/
def Aside (t u : State σ) (v : Volume) (old new : Bytes) (dst : List Bytes) (directory : Bool) :
    Option Bytes → State σ → Prop
  | none, s => Looked X platform may t u s
  | some backup, s => ∃ w aside fx, Looked X platform may t u w ∧ IsBackup platform backup v aside ∧
      Replacing w old new directory ∧
      X.entryRename directory v (render dst) (render aside) w.fx = (.success, fx) ∧
      s = { w with fx := fx }

variable (X platform may) in
/-- After that the source has been renamed. -/
def MovedAside (t u : State σ) (v : Volume) (old new : Bytes) (src dst : List Bytes)
    (directory : Bool) (backup : Option Bytes) (s : State σ) : Prop :=
  ∃ w fx, Aside X platform may t u v old new dst directory backup w ∧
    X.entryRename directory v (render src) (render dst) w.fx = (.success, fx) ∧
    s = { w with fx := fx }

theorem backUpDestination_spec (hX : X.Documented)
    (hrename : Renaming platform u v old new src dst directory)
    (hreplace : Replacing u old new directory) :
    Triple (Looked X platform may t u) (backUpDestination X platform v new directory)
      (fun backup => Aside X platform may t u v old new dst directory (some backup))
      fun _ => Chained X platform may t := by
  refine Triple.bind ((findBackup_spec hX hrename.target.mounted 256).weaken (fun _ h => h)
    (fun _ _ h => h) fun _ _ h => h.1) fun backup => Triple.of_forall ?_
  rintro w ⟨hw, aside, haside⟩
  rw [renameEntry_eq directory hrename.target haside.entry]
  refine Triple.bind (Q := fun _ => Aside X platform may t u v old new dst directory (some backup))
    (Triple.checked (hX.entryRename directory v _ _) ?_ ?_) fun _ => Triple.pure fun _ h => h
  · rintro s rfl hok
    exact ⟨s, aside, _, hw, haside, hreplace.looked hw, Prod.ext hok rfl, rfl⟩
  · rintro s e rfl hfail -
    exact hw.1.act (.renamed (hrename.looked hw)
      (.notBackedUp (hreplace.looked hw) haside hfail))

theorem moveSource_spec (hX : X.Documented)
    (hrename : Renaming platform u v old new src dst directory) (backup : Option Bytes) :
    Triple (Aside X platform may t u v old new dst directory backup)
      (moveSource X platform old new directory backup)
      (fun _ => MovedAside X platform may t u v old new src dst directory backup)
      fun _ => Chained X platform may t := by
  refine Triple.of_forall fun w hw => ?_
  rw [moveSource, renameEntry_eq directory hrename.source hrename.target]
  refine Triple.bind (Triple.observe (Q := fun r s => match r with
    | .ok _ => MovedAside X platform may t u v old new src dst directory backup s
    | .error _ => (X.entryRename directory v (render src) (render dst) w.fx).1 ≠ .success ∧
        s = { w with fx := (X.entryRename directory v (render src) (render dst) w.fx).2 })
    (Triple.checked (hX.entryRename directory v _ _) ?_ ?_)) fun moved => ?_
  · rintro s rfl hok
    exact ⟨s, _, hw, Prod.ext hok rfl, rfl⟩
  · rintro s e rfl hfail -
    exact ⟨hfail, rfl⟩
  cases moved with
  | ok _ => exact Triple.pure fun _ h => h
  | error e =>
      cases backup with
      | none =>
          refine Triple.fail ?_
          rintro s ⟨hfail, rfl⟩
          exact hw.1.act (.renamed (hrename.looked hw) (.stayed hfail))
      | some backup =>
          obtain ⟨x, aside, fx, hx, haside, hreplace, hback, rfl⟩ := hw
          refine Triple.of_forall ?_
          rintro s ⟨hfail, rfl⟩
          have hdone : Chained X platform may t { x with fx := (X.entryRename directory v
              (render aside) (render dst)
                (X.entryRename directory v (render src) (render dst) fx).2).2 } :=
            hx.1.act (.renamed (hrename.looked hx) (.putBack hreplace haside hback hfail rfl))
          simp only []
          rw [renameEntry_eq directory haside.entry hrename.target]
          refine Triple.bind (Triple.observe (Q := fun _ => Chained X platform may t)
            (Triple.checked (hX.entryRename directory v _ _) ?_ ?_)) fun restored => ?_
          · rintro s rfl -
            exact hdone
          · rintro s e rfl - -
            exact hdone
          · cases restored with
            | ok _ => exact Triple.fail fun _ h => h
            | error e' => exact Triple.fail fun _ h => h

/-- What is left to do when the source has been renamed. -/
def finishRename (X : FileX σ) (platform : Platform) (v : Volume) (old new : Bytes)
    (directory : Bool) (backup : Option Bytes) : FS σ Unit := do
  let deleted ← observe (match backup with
    | none => pure ()
    | some backup => deleteEntry X platform directory backup)
  modify (migrated old new directory)
  ofExcept deleted
  flushMedia X (some v)

theorem finishRename_spec (hX : X.Documented)
    (hrename : Renaming platform u v old new src dst directory) (backup : Option Bytes) :
    Triple (MovedAside X platform may t u v old new src dst directory backup)
      (finishRename X platform v old new directory backup)
      (fun _ => Committed X platform may t v (X.entryRename directory v (render src) (render dst)))
      fun _ => Chained X platform may t := by
  -- after the backup is gone, and the paths have followed
  let Done (s : State σ) : Prop := ∃ fx,
    (X.entryRename directory v (render src) (render dst) fx).1 = .success ∧
      Calls X (X.entryRename directory v (render src) (render dst) fx).2 s.fx ∧
      Chained X platform may t (migrated old new directory s)
  have hdelete : Triple (MovedAside X platform may t u v old new src dst directory backup)
      (observe (match backup with
        | none => pure ()
        | some backup => deleteEntry X platform directory backup))
      (fun _ => Done) (fun _ => Chained X platform may t) := by
    cases backup with
    | none =>
        refine Triple.observe (Q := fun _ => Done) (Triple.pure ?_)
        rintro s ⟨w, fx, hw, hmove, rfl⟩
        refine ⟨w.fx, by rw [hmove], by rw [hmove], ?_⟩
        have hact : Act X platform may w (migrated old new directory { w with fx := fx }) := by
          have hmoved : Act X platform may w _ := .renamed (hrename.looked hw)
            (Replaced.moved (X := X) (by rw [hmove]))
          rwa [hmove] at hmoved
        exact hw.1.act hact
    | some backup =>
        refine Triple.of_forall ?_
        rintro s ⟨w, fx', ⟨x, aside, fx, hx, haside, hreplace, hback, rfl⟩, hmove, rfl⟩
        have hdone : Done { x with fx := (X.entryDelete directory v (render aside) fx').2 } := by
          refine ⟨fx, by rw [hmove], ?_, ?_⟩
          · rw [hmove]
            exact .single (.entryDelete directory v (render aside) fx')
          · exact hx.1.act (.renamed (hrename.looked hx) (.replaced hreplace haside hback hmove))
        simp only []
        rw [deleteEntry_eq directory haside.entry]
        refine Triple.observe (Q := fun _ => Done) (Triple.checked
          (hX.entryDelete directory v _) ?_ ?_)
        · rintro s rfl -
          exact hdone
        · rintro s e rfl - -
          exact hdone
  refine Triple.bind hdelete fun deleted => ?_
  refine Triple.bind (Q := fun _ s => Chained X platform may t s ∧ ∃ fx,
    (X.entryRename directory v (render src) (render dst) fx).1 = .success ∧
      Calls X (X.entryRename directory v (render src) (render dst) fx).2 s.fx)
    (Triple.modify ?_) fun _ => ?_
  · rintro s ⟨fx, hok, hcalls, hs⟩
    exact ⟨hs, fx, hok, hcalls⟩
  refine Triple.bind (Triple.ofExcept (fun _ _ _ h => h) fun _ _ _ h => h.1) fun _ =>
    flushMedia_spec hX v ?_ ?_
  · rintro s ⟨hs, fx, hok, hcalls⟩ hflush
    exact ⟨fx, s, hok, hcalls, hs, hflush, rfl⟩
  · rintro s e ⟨hs, -⟩ -
    exact hs.quiet (.flush v _)

theorem replace_spec (hX : X.Documented) {replaced : Bool}
    (hrename : Renaming platform u v old new src dst directory)
    (hreplace : replaced = true → Replacing u old new directory) :
    Triple (Looked X platform may t u) (replace X platform v old new directory replaced)
      (fun _ => Committed X platform may t v (X.entryRename directory v (render src) (render dst)))
      fun _ => Chained X platform may t := by
  refine Triple.bind (Triple.when (fun _ => (requireEmptyDirectory_spec hrename.target).weaken
    (fun _ h => h) (fun _ _ h => h) fun _ _ h => h.1) fun _ s hs => hs) fun _ => ?_
  refine Triple.get_bind fun w hw => ?_
  refine Triple.bind (Q := fun _ => Looked X platform may t u) (Triple.when (fun _ => ?_) ?_)
    fun _ => ?_
  · refine Triple.checked (hX.mediaFlush v) ?_ ?_
    · rintro s rfl -
      exact hw.quiet (.flush v _)
    · rintro s e rfl - -
      exact (hw.quiet (.flush v _)).1
  · rintro - s rfl
    exact hw
  refine Triple.bind (Q := Aside X platform may t u v old new dst directory) (Triple.ite ?_ ?_)
    fun backup => ?_
  · intro hyes
    exact Triple.bind (backUpDestination_spec hX hrename (hreplace hyes)) fun backup =>
      Triple.pure fun _ h => h
  · exact fun _ => Triple.pure fun _ h => h
  · exact Triple.bind (moveSource_spec hX hrename backup) fun _ =>
      finishRename_spec hX hrename backup

end Replace

theorem destinationExists_spec (hX : X.Documented) {v : Volume} {old new : Bytes}
    {src dst : List Bytes} {directory : Bool}
    (hrename : Renaming platform u v old new src dst directory) :
    Triple (Looked X platform may t u) (destinationExists X platform old new directory)
      (fun found s => Looked X platform may t u s ∧
        (found = true → pathsEqual old new = false → Replacing u old new directory))
      fun _ => Chained X platform may t := by
  refine Triple.bind (Triple.observe (Q := fun _ => Looked X platform may t u) ?_) fun found => ?_
  · rw [information_entry hrename.target]
    refine Triple.of_forall fun w hw => ?_
    refine (entryInformation_spec hX v dst).weaken (fun _ h => h) ?_ ?_
    · rintro info s ⟨rfl, -⟩
      exact hw.quiet (.information v _ _)
    · rintro e s ⟨rfl, -⟩
      exact hw.quiet (.information v _ _)
  cases found with
  | error e =>
      refine Triple.ite (fun _ => Triple.pure ?_) fun _ => Triple.fail fun _ h => h.1
      exact fun s hs => ⟨hs, fun hno => absurd hno (by simp)⟩
  | ok info =>
      refine Triple.get_bind fun w hw => ?_
      refine Triple.ite (fun _ => Triple.fails (by rintro s rfl; exact hw.1)) fun hkind => ?_
      have hkind : directory = info.directory := not_not.mp hkind
      refine Triple.ite (fun _ => Triple.fails (by rintro s rfl; exact hw.1)) fun hcurrent => ?_
      refine Triple.ite (fun _ => Triple.fails (by rintro s rfl; exact hw.1)) fun hunused => ?_
      refine Triple.pure ?_
      rintro s rfl
      refine ⟨hw, fun _ hother => ?_⟩
      have hreplace : Replacing s old new directory := by
        refine ⟨hother, fun hdir => ?_, fun huse => ?_⟩
        · by_contra hno
          exact hcurrent ⟨by simp [hother], hdir, by simpa using hno⟩
        · exact hunused ⟨by simp [hother], hkind ▸ huse⟩
      obtain ⟨-, fx, n, rfl⟩ := hw
      exact ⟨hreplace.other, hreplace.current, hreplace.unused⟩

variable (X platform may) in
/-- What `_rename` has done when it succeeds: nothing if the name stays the same. -/
def RenameDone (t : State σ) (old new : Bytes) (s : State σ) : Prop :=
  if old = new then Chained X platform may t s
  else ∃ v src dst directory, Entry platform old v src ∧ Entry platform new v dst ∧
    Committed X platform may t v (X.entryRename directory v (render src) (render dst)) s

theorem renameResolved_spec (hX : X.Documented) {v : Volume} {old new : Bytes}
    {src dst : List Bytes} {directory : Bool} (hold : Entry platform old v src)
    (hnew : Entry platform new v dst) (hu : Chained X platform may t u) :
    Triple (· = u) (renameResolved X platform v old new directory)
      (fun _ => RenameDone X platform may t old new) fun _ => Chained X platform may t := by
  refine Triple.get_bind ?_
  rintro u rfl
  refine Triple.ite (fun _ => Triple.fails (by rintro s rfl; exact hu)) fun happart => ?_
  refine Triple.ite (fun _ => Triple.fails (by rintro s rfl; exact hu)) fun hfits => ?_
  have hrename : Renaming platform u v old new src dst directory := by
    refine ⟨hold, hnew, hfits, fun hdir hother => ?_⟩
    by_contra hno
    exact happart ⟨hdir, by simp [hother], by simpa using hno⟩
  refine Triple.ite (fun heq => Triple.pure ?_) fun hne => ?_
  · rintro s rfl
    rw [RenameDone, if_pos heq]
    exact hu
  refine Triple.bind ((destinationExists_spec hX hrename).pre ?_) fun found => ?_
  · rintro s rfl
    exact ⟨hu, s.fx, s.renameBackupSequence, rfl⟩
  refine Triple.of_forall fun w ⟨hw, hreplace⟩ => ?_
  refine (replace_spec hX hrename fun hboth => ?_).weaken (by rintro s rfl; exact hw) ?_
    fun _ _ h => h
  · have hboth := Bool.and_eq_true_iff.mp hboth
    exact hreplace hboth.1 (by simpa using hboth.2)
  · intro _ s hs
    rw [RenameDone, if_neg hne]
    exact ⟨v, src, dst, directory, hold, hnew, hs⟩

theorem rename_spec (hX : X.Documented) (oldPath newPath : Option Bytes)
    (hu : Chained X platform may t u) :
    Triple (· = u) (rename X platform oldPath newPath)
      (fun _ s => ∃ old new, normalizePath u.currentDirectory oldPath = .ok old ∧
        normalizePath u.currentDirectory newPath = .ok new ∧ RenameDone X platform may t old new s)
      fun _ => Chained X platform may t := by
  refine Triple.bind ((resolvePath_spec oldPath).weaken (fun _ h => h) (fun _ _ h => h)
    (by rintro _ s rfl; exact hu)) ?_
  rintro ⟨old, oldResolved⟩
  refine Triple.of_forall ?_
  rintro s ⟨rfl, hold, hor⟩
  obtain ⟨cs, hon⟩ := normalizePath_normal hold
  refine Triple.bind ((resolvePath_spec newPath).weaken (fun _ h => h) (fun _ _ h => h)
    (by rintro _ s rfl; exact hu)) ?_
  rintro ⟨new, newResolved⟩
  refine Triple.of_forall ?_
  rintro s ⟨rfl, hnew, hnr⟩
  obtain ⟨ds, hnn⟩ := normalizePath_normal hnew
  refine Triple.bind (information_chained hX hon hor hu) fun info => Triple.of_forall ?_
  intro w hw
  have hwc : Chained X platform may t w := by
    rcases hw with ⟨rfl, -⟩ | ⟨v, rest, -, -, hinfo⟩
    · exact hu
    · exact hu.information hinfo
  refine Triple.ite (fun _ => Triple.fails (by rintro s rfl; exact hwc)) fun hroot => ?_
  simp only [not_or] at hroot
  obtain ⟨hov, hom, hnv, hnm⟩ := hroot
  refine Triple.ite (fun _ => Triple.fails (by rintro s rfl; exact hwc)) fun hmedia => ?_
  rcases resolve_cases hon hor with ⟨h, -⟩ | ⟨h, -⟩ | ⟨v, src, hsource, rfl⟩
  · exact absurd h hov
  · exact absurd h hom
  rcases resolve_cases hnn hnr with ⟨h, -⟩ | ⟨h, -⟩ | ⟨v', dst, htarget, rfl⟩
  · exact absurd h hnv
  · exact absurd h hnm
  have hvolume : v = v' := by
    simpa [ResolvedPath.media, entryPath] using hmedia
  subst hvolume
  refine (renameResolved_spec hX hsource htarget hwc).weaken (fun _ h => h) ?_ fun _ _ h => h
  exact fun _ s hs => ⟨old, new, hold, hnew, hs⟩

theorem RenameDone.chained {old new : Bytes} {s : State σ} (h : RenameDone X platform may t old new s) :
    Chained X platform may t s := by
  rw [RenameDone] at h
  split at h
  · exact h
  · obtain ⟨v, src, dst, directory, -, -, h⟩ := h
    exact h.chained

/-! ## Every call -/

/-- Where `_chdir` goes. -/
def Enters (X : FileX σ) (platform : Platform) (name : Bytes) (s : State σ) : Prop :=
  ∃ cs, IsNormal name cs ∧ (cs = [] ∨
    (∃ v, locate cs = .inside v [] ∧ platform.mounted v = true) ∨
    ∃ v rest u info, Entry platform name v rest ∧ Informed X v rest u info s ∧
      info.directory = true)

theorem chdir_spec (hX : X.Documented) (path : Option Bytes) (hu : Chained X platform may t u) :
    Triple (· = u) (chdir X platform path)
      (fun _ s => ∃ name w, Chained X platform may t w ∧ Enters X platform name w ∧
        s = { w with currentDirectory := name }) fun _ => Chained X platform may t := by
  refine Triple.bind ((normalize_spec path).weaken (fun _ h => h) (fun _ _ h => h)
    (by rintro _ s rfl; exact hu)) fun name => Triple.of_forall ?_
  rintro s ⟨rfl, hname⟩
  obtain ⟨cs, hn⟩ := normalizePath_normal hname
  -- what `_chdir` makes of the information it gets
  have hfinish : ∀ (info : EntryInformation) (w : State σ), Chained X platform may t w →
      (info.directory = true → Enters X platform name w) →
      Triple (· = w) (if ¬ info.directory then fails .ENOTDIR
        else modify fun s : State σ => { s with currentDirectory := name })
        (fun _ s => ∃ name w, Chained X platform may t w ∧ Enters X platform name w ∧
          s = { w with currentDirectory := name }) fun _ => Chained X platform may t := by
    intro info w hw henters
    refine Triple.ite (fun _ => Triple.fails (by rintro s rfl; exact hw)) fun hdir => ?_
    refine Triple.modify ?_
    rintro s rfl
    exact ⟨name, s, hw, henters (not_not.mp hdir), rfl⟩
  cases hr : resolveNormalizedPath platform.mounted name with
  | error e =>
      -- nothing is mounted there
      have hroot : name ≠ [slash] := by
        rintro rfl
        cases hr
      have hinfo : information X platform (some name) = (fails e : FS σ EntryInformation) := by
        rw [information, normalize_normal hn, pure_bind, if_neg hroot, Libc.resolve, hr]
        rfl
      rw [hinfo]
      exact Triple.bind (Q := fun _ _ => False) (Triple.fails (by rintro s rfl; exact hu))
        fun _ _ _ _ h => h.elim
  | ok resolved =>
      rcases resolve_cases hn hr with ⟨hroot, hslash⟩ | ⟨hroot, -, hloc, hm⟩ | ⟨v, rest, he, rfl⟩
      · rw [information_root hn hr (.inl hroot), pure_bind]
        exact hfinish .root s hu fun _ => ⟨[], hslash ▸ isNormal_root, .inl rfl⟩
      · rw [information_root hn hr (.inr hroot), pure_bind]
        exact hfinish .root s hu fun _ => ⟨cs, hn, .inr (.inl ⟨_, hloc, hm⟩)⟩
      · rw [information_entry he]
        refine Triple.bind ((entryInformation_spec hX v rest).weaken (fun _ h => h)
          (fun _ _ h => h) fun e s hs => hu.noInformation hs) fun info => Triple.of_forall ?_
        intro w hw
        refine hfinish info w (hu.information hw) fun hdir => ?_
        exact ⟨cs, hn, .inr (.inr ⟨v, rest, _, info, he, hw, hdir⟩)⟩

/-- Every call but `_chdir` is a chain of transitions. -/
theorem serve_chained (hX : X.Documented) {r : Request} {s : State σ}
    {o : Except (Option Errno) Reply} (hchdir : ∀ path, r ≠ .chdir path)
    (hmay : MayServe may t r) (ht : Sound platform t) (hrun : serve X platform r t = some (o, s)) :
    Chained X platform may t s := by
  have hu : Chained X platform may t t := .start ht
  have hall : Triple (· = t) (serve X platform r) (fun _ => Chained X platform may t)
      fun _ => Chained X platform may t := by
    have hdone {α : Type} {m : FS σ α} {Q : α → State σ → Prop} (f : α → Reply)
        (h : Triple (· = t) m Q fun _ => Chained X platform may t)
        (hQ : ∀ a s, Q a s → Chained X platform may t s) :
        Triple (· = t) (do pure (f (← m))) (fun _ => Chained X platform may t)
          fun _ => Chained X platform may t :=
      Triple.bind h fun a => Triple.pure fun s hs => hQ a s hs
    have hstart {α : Type} {m : FS σ α} (f : α → Reply)
        (h : Triple (Chained X platform may t) m (fun _ => Chained X platform may t)
          fun _ => Chained X platform may t) :
        Triple (· = t) (do pure (f (← m))) (fun _ => Chained X platform may t)
          fun _ => Chained X platform may t :=
      hdone f (h.pre (by rintro s rfl; exact hu)) fun _ _ h => h
    cases r with
    | open_ path flags => exact hdone _ (open_spec hX path flags hu hmay) fun _ _ h => h
    | close file => exact hstart (fun _ => .done) (close_spec hX file)
    | read file buffer length => exact hstart _ (read_spec hX file buffer length)
    | write file buffer length => exact hstart _ (write_spec hX file buffer length)
    | lseek file offset origin => exact hstart _ (lseek_spec hX file offset origin)
    | fstat file value => exact hstart _ (fstat_spec hX file value)
    | stat path value => exact hstart _ (stat_spec hX path value)
    | unlink path =>
        refine hdone (fun _ => .done) (unlink_spec hX path hu hmay) ?_
        rintro _ s ⟨_, _, _, _, h⟩
        exact h.chained
    | rename oldPath newPath =>
        refine hdone (fun _ => .done) (rename_spec hX oldPath newPath hu) ?_
        rintro _ s ⟨_, _, _, _, h⟩
        exact h.chained
    | mkdir path =>
        refine hdone (fun _ => .done) (mkdir_spec hX path hu) ?_
        rintro _ s ⟨_, _, _, _, h⟩
        exact h.chained
    | rmdir path =>
        refine hdone (fun _ => .done) (rmdir_spec hX path hu) ?_
        rintro _ s ⟨_, _, _, _, h⟩
        exact h.chained
    | chdir path => exact absurd rfl (hchdir path)
    | fsync file => exact hstart (fun _ => .done) (fsync_spec file)
    | ftruncate file length => exact hstart (fun _ => .done) (ftruncate_spec hX file length)
    | utime path times now =>
        refine hdone (fun _ => .done) (utime_spec hX path times now hu) ?_
        rintro _ s ⟨_, _, _, _, h⟩
        exact h.chained
  have hpost := hall t o s rfl hrun
  cases o with
  | ok reply => exact hpost
  | error e => exact hpost

/-- `_chdir` is such a chain too, which may end by setting the current directory. -/
theorem serve_chdir (hX : X.Documented) {path : Option Bytes} {s : State σ}
    {o : Except (Option Errno) Reply} (ht : Sound platform t)
    (hrun : serve X platform (.chdir path) t = some (o, s)) :
    Chained X platform may t s ∨ ∃ name w, Chained X platform may t w ∧ Enters X platform name w ∧
      s = { w with currentDirectory := name } := by
  have hall : Triple (· = t) (serve X platform (.chdir path))
      (fun _ s => ∃ name w, Chained X platform may t w ∧ Enters X platform name w ∧
        s = { w with currentDirectory := name }) fun _ => Chained X platform may t :=
    Triple.bind (chdir_spec hX path (.start ht)) fun _ => Triple.pure fun _ h => h
  have hpost := hall t o s rfl hrun
  cases o with
  | ok reply => exact .inr hpost
  | error e => exact .inl hpost

/-! ## Invariants of every call -/

theorem Sound.chdir {s : State σ} {name : Bytes} (h : Sound platform s)
    (hname : Enters X platform name s) :
    Sound platform { s with currentDirectory := name } where
  current := by
    obtain ⟨cs, hn, -⟩ := hname
    exact ⟨cs, hn⟩
  entry := h.entry
  free := h.free

/-- What every transition keeps, from sound states, every call keeps. -/
theorem request_invariant (hX : X.Documented) {I : State σ → Prop}
    (hact : ∀ s s', Sound platform s → I s → Act X platform may s s' → I s')
    (hchdir : ∀ s name, Sound platform s → I s → Enters X platform name s →
      I { s with currentDirectory := name })
    {s s' : State σ} {r : Request} (hs : Sound platform s) (hi : I s)
    (hmay : MayServe may s r) (hrun : request X platform s r = some s') :
    Sound platform s' ∧ I s' := by
  have hchain : ∀ {w}, Chained X platform may s w → Sound platform w ∧ I w := by
    intro w hw
    refine ⟨hw.sound, ?_⟩
    have hboth : Sound platform w ∧ I w := by
      obtain ⟨-, hacts⟩ := hw
      induction hacts with
      | refl => exact ⟨hs, hi⟩
      | tail _ hstep ih => exact ⟨hstep.sound ih.1, hact _ _ ih.1 ih.2 hstep⟩
    exact hboth.2
  simp only [request, Option.map_eq_some_iff] at hrun
  obtain ⟨⟨o, w⟩, hserve, rfl⟩ := hrun
  by_cases hr : ∃ path, r = .chdir path
  · obtain ⟨path, rfl⟩ := hr
    rcases serve_chdir hX hs hserve with hw | ⟨name, u, hu, hname, rfl⟩
    · exact hchain hw
    · obtain ⟨hsound, hiu⟩ := hchain hu
      exact ⟨hsound.chdir hname, hchdir u name hsound hiu hname⟩
  · exact hchain (serve_chained hX (fun path heq => hr ⟨path, heq⟩) hmay hs hserve)

/-- The same of every run whose calls may be served. -/
theorem run_invariant (hX : X.Documented) {I : State σ → Prop} {init : State σ → Prop}
    {guard : List Request → State σ → Request → Prop}
    (hguard : ∀ h s r, guard h s r → MayServe may s r)
    (hinit : ∀ s, init s → Sound platform s ∧ I s)
    (hact : ∀ s s', Sound platform s → I s → Act X platform may s s' → I s')
    (hchdir : ∀ s name, Sound platform s → I s → Enters X platform name s →
      I { s with currentDirectory := name })
    {h : List Request} {s : State σ} (hrun : Run (request X platform) guard init h s) :
    Sound platform s ∧ I s :=
  hrun.history_invariant (I := fun _ s => Sound platform s ∧ I s) hinit
    fun h s r _ hs hg hstep => request_invariant hX hact hchdir hs.1 hs.2 (hguard h s r hg) hstep

end Libc
end NucleoBase
