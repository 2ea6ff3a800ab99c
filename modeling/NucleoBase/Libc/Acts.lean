/-
  NucleoBase.Libc.Acts

  What the system calls can do to the state, once for all of them: `Act` lists
  the transitions they are made of, each with what the code has made sure of
  before it.  An invariant of every call is proved transition by transition.

  `Sound` is the part of the invariant that needs nothing of FileX: the paths
  the adapter keeps are normal, and those of its descriptors lead to entries.
-/

import Mathlib.Logic.Relation
import NucleoBase.Libc.Entry

namespace NucleoBase
namespace Libc

open Lib Lib.Program

/-- A status that counts as no error is a success. -/
def Status.Plain (status : Status) : Prop := filexErrno status = none → status = .success

/-- Only reading and listing return the statuses that count as no error. -/
structure FileX.Documented {σ : Type} (X : FileX σ) : Prop where
  fileOpen : ∀ v b p mode fx, (X.fileOpen v b p mode fx).1.Plain
  fileClose : ∀ b fx, (X.fileClose b fx).1.Plain
  fileWrite : ∀ b bytes fx, (X.fileWrite b bytes fx).1.Plain
  fileExtendedSeek : ∀ b n fx, (X.fileExtendedSeek b n fx).1.Plain
  fileExtendedTruncateRelease : ∀ b n fx, (X.fileExtendedTruncateRelease b n fx).1.Plain
  fileCreate : ∀ v p fx, (X.fileCreate v p fx).1.Plain
  fileDelete : ∀ v p fx, (X.fileDelete v p fx).1.Plain
  fileRename : ∀ v p q fx, (X.fileRename v p q fx).1.Plain
  fileDateTimeSet : ∀ v p stamp fx, (X.fileDateTimeSet v p stamp fx).1.Plain
  directoryCreate : ∀ v p fx, (X.directoryCreate v p fx).1.Plain
  directoryDelete : ∀ v p fx, (X.directoryDelete v p fx).1.Plain
  directoryRename : ∀ v p q fx, (X.directoryRename v p q fx).1.Plain
  directoryInformationGet : ∀ v p fx, (X.directoryInformationGet v p fx).1.1.Plain
  directoryDefaultSet : ∀ v p fx, (X.directoryDefaultSet v p fx).1.Plain
  mediaFlush : ∀ v fx, (X.mediaFlush v fx).1.Plain

variable {σ : Type} (X : FileX σ) (platform : Platform)

/-- The call that renames an entry of the given kind. -/
def FileX.entryRename (directory : Bool) : Volume → Bytes → Bytes → σ → Status × σ :=
  if directory then X.directoryRename else X.fileRename

/-- The call that deletes an entry of the given kind. -/
def FileX.entryDelete (directory : Bool) : Volume → Bytes → σ → Status × σ :=
  if directory then X.directoryDelete else X.fileDelete

/-! ## Paths the adapter keeps -/

structure Sound (s : State σ) : Prop where
  current : ∃ cs, IsNormal s.currentDirectory cs
  entry : ∀ b, (s.descriptors b).allocated = true →
    ∃ v rest, Entry platform (s.descriptors b).path v rest ∧ (s.descriptors b).media = some v
  free : ∀ b, (s.descriptors b).allocated = false → s.descriptors b = .empty

theorem isNormal_mountName (v : Volume) : IsNormal (mountName v) [mountComponent v] where
  components := by
    intro c hc
    rcases List.mem_singleton.mp hc with rfl
    exact isComponent_mount v
  eq := by rw [mountName_eq, render_of_ne (by simp)]
  length := by cases v <;> decide

theorem Sound.initial (fx : σ) : Sound platform (State.initial platform fx) where
  current := ⟨_, isNormal_mountName _⟩
  entry := fun b hb => by cases hb
  free := fun b _ => rfl

/-! ## Transitions -/

/-- Calls that look names up, and flushes. -/
inductive Quiet : σ → σ → Prop
  | information (v : Volume) (p : Bytes) (fx : σ) :
      Quiet fx (X.directoryInformationGet v p fx).2
  | defaultSet (v : Volume) (p : Bytes) (fx : σ) : Quiet fx (X.directoryDefaultSet v p fx).2
  | firstFind (v : Volume) (fx : σ) : Quiet fx (X.directoryFirstFullEntryFind v fx).2
  | nextFind (v : Volume) (fx : σ) : Quiet fx (X.directoryNextFullEntryFind v fx).2
  | flush (v : Volume) (fx : σ) : Quiet fx (X.mediaFlush v fx).2

/-- What a rename has made sure of before it changes anything. -/
structure Renaming (s : State σ) (v : Volume) (old new : Bytes) (src dst : List Bytes)
    (directory : Bool) : Prop where
  source : Entry platform old v src
  target : Entry platform new v dst
  fits : ¬ TooLong s old new directory
  apart : directory = true → pathsEqual old new = false → pathHasPrefix new old true = false

/-- What it has made sure of before it moves the destination out of the way. -/
structure Replacing (s : State σ) (old new : Bytes) (directory : Bool) : Prop where
  other : pathsEqual old new = false
  current : directory = true → pathHasPrefix s.currentDirectory new true = false
  unused : ¬ InUse s new directory

/-- The name that a destination is moved to: one in the root of its volume. -/
structure IsBackup (backup : Bytes) (v : Volume) (aside : List Bytes) : Prop where
  entry : Entry platform backup v aside
  level : aside.length = 1

/-- The calls by which a rename changes names, and what follows them. -/
inductive Replaced (s : State σ) (v : Volume) (old new : Bytes) (src dst : List Bytes)
    (directory : Bool) : State σ → Prop
  | stayed
      (hmove : (X.entryRename directory v (render src) (render dst) s.fx).1 ≠ .success) :
      Replaced s v old new src dst directory
        { s with fx := (X.entryRename directory v (render src) (render dst) s.fx).2 }
  | moved
      (hmove : (X.entryRename directory v (render src) (render dst) s.fx).1 = .success) :
      Replaced s v old new src dst directory (migrated old new directory
        { s with fx := (X.entryRename directory v (render src) (render dst) s.fx).2 })
  | notBackedUp {backup : Bytes} {aside : List Bytes}
      (hreplace : Replacing s old new directory) (haside : IsBackup platform backup v aside)
      (hback : (X.entryRename directory v (render dst) (render aside) s.fx).1 ≠ .success) :
      Replaced s v old new src dst directory
        { s with fx := (X.entryRename directory v (render dst) (render aside) s.fx).2 }
  | putBack {backup : Bytes} {aside : List Bytes} {fx fx' : σ}
      (hreplace : Replacing s old new directory) (haside : IsBackup platform backup v aside)
      (hback : X.entryRename directory v (render dst) (render aside) s.fx = (.success, fx))
      (hmove : (X.entryRename directory v (render src) (render dst) fx).1 ≠ .success)
      (hfx : fx' = (X.entryRename directory v (render src) (render dst) fx).2) :
      Replaced s v old new src dst directory
        { s with fx := (X.entryRename directory v (render aside) (render dst) fx').2 }
  | replaced {backup : Bytes} {aside : List Bytes} {fx fx' : σ}
      (hreplace : Replacing s old new directory) (haside : IsBackup platform backup v aside)
      (hback : X.entryRename directory v (render dst) (render aside) s.fx = (.success, fx))
      (hmove : X.entryRename directory v (render src) (render dst) fx = (.success, fx')) :
      Replaced s v old new src dst directory (migrated old new directory
        { s with fx := (X.entryDelete directory v (render aside) fx').2 })

/-- The state with the handle of a descriptor about to be opened anew. -/
def cleared (s : State σ) (b : Block) : State σ := { s with fx := X.clear b s.fx }

/-- The state FileX opens a file in: a writer's file is flushed for a reader. -/
def beforeOpen (s : State σ) (b : Block) (v : Volume) (mode : OpenMode) : σ :=
  if mode = .forRead ∧ HasWriter s (s.descriptors b).path then
    (X.mediaFlush v (X.clear b s.fx)).2
  else X.clear b s.fx

/-- The state after a handle that is open has been closed. -/
def closed (s : State σ) (b : Block) : σ :=
  if (s.descriptors b).openMode = none then s.fx else (X.fileClose b s.fx).2

/-- What the steps of a call may do: unlink a file in some state, and fill in a
    descriptor. -/
structure May (σ : Type) where
  unlink : State σ → Bytes → Prop
  fill : Block → Prop

def May.anything : May σ := ⟨fun _ _ => True, fun _ => True⟩

variable (may : May σ) in
/-- What one step of a system call other than `_chdir` can do. -/
inductive Act : State σ → State σ → Prop
  | quiet {s : State σ} {fx : σ} (h : Quiet X s.fx fx) : Act s { s with fx := fx }
  | sequence {s : State σ} (n : UInt32) : Act s { s with renameBackupSequence := n }
  | created {s : State σ} {name : Bytes} {v : Volume} {rest : List Bytes} {b : Block}
      (flags : OpenFlags) (hentry : Entry platform name v rest)
      (hfree : freeDescriptor s = some b) (hmay : may.fill b)
      (hcreate : (X.fileCreate v (render rest) s.fx).1 = .success) :
      Act s { s with
        fx := X.clear b (X.fileCreate v (render rest) s.fx).2
        descriptors := Function.update s.descriptors b
          (openedDescriptor name (entryPath v rest) flags true 0) }
  | notCreated {s : State σ} {name : Bytes} {v : Volume} {rest : List Bytes}
      (hentry : Entry platform name v rest)
      (hcreate : (X.fileCreate v (render rest) s.fx).1 ≠ .success) :
      Act s { s with fx := (X.fileCreate v (render rest) s.fx).2 }
  | found {s : State σ} {name : Bytes} {v : Volume} {rest : List Bytes} {b : Block}
      {info : EntryInformation} (flags : OpenFlags) (hentry : Entry platform name v rest)
      (hfree : freeDescriptor s = some b) (hmay : may.fill b)
      (hinfo : (X.directoryInformationGet v (render rest) s.fx).1 = (.success, info))
      (hfile : info.directory = false) :
      Act s { s with
        fx := X.clear b (X.directoryInformationGet v (render rest) s.fx).2
        descriptors := Function.update s.descriptors b
          (openedDescriptor name (entryPath v rest) flags false info.size) }
  | closedForSwitch {s : State σ} {b : Block} (hopen : (s.descriptors b).openMode ≠ none) :
      Act s { s with
        fx := (X.fileClose b s.fx).2
        descriptors := Function.update s.descriptors b
          { s.descriptors b with openMode := none } }
  | cleared {s : State σ} {b : Block} (halloc : (s.descriptors b).allocated = true)
      (hopen : (s.descriptors b).openMode = none) : Act s (cleared X s b)
  | reopened {s : State σ} {b : Block} {v : Volume} {rest : List Bytes} {mode : OpenMode}
      (halloc : (s.descriptors b).allocated = true)
      (hopen : (s.descriptors b).openMode = none)
      (hentry : Entry platform (s.descriptors b).path v rest)
      (hflush : mode = .forRead → HasWriter s (s.descriptors b).path →
        (X.mediaFlush v (X.clear b s.fx)).1 = .success)
      (hstatus : (X.fileOpen v b (render rest) mode (beforeOpen X s b v mode)).1 = .success) :
      Act s { s with
        fx := (X.fileOpen v b (render rest) mode (beforeOpen X s b v mode)).2
        descriptors := Function.update s.descriptors b
          { s.descriptors b with openMode := some mode } }
  | notReopened {s : State σ} {b : Block} {v : Volume} {rest : List Bytes} {mode : OpenMode}
      (halloc : (s.descriptors b).allocated = true)
      (hopen : (s.descriptors b).openMode = none)
      (hentry : Entry platform (s.descriptors b).path v rest)
      (hstatus : (X.fileOpen v b (render rest) mode (beforeOpen X s b v mode)).1 ≠ .success) :
      Act s { s with fx := (X.fileOpen v b (render rest) mode (beforeOpen X s b v mode)).2 }
  | sought {s : State σ} {b : Block} (n : Nat) (hopen : (s.descriptors b).openMode ≠ none) :
      Act s { s with fx := (X.fileExtendedSeek b n s.fx).2 }
  | read {s : State σ} {b : Block} (n : Nat)
      (hopen : (s.descriptors b).openMode = some .forRead) :
      Act s { s with fx := (X.fileRead b n s.fx).2 }
  | written {s : State σ} {b : Block} (bytes : Bytes)
      (hopen : (s.descriptors b).openMode = some .forWrite) :
      Act s { s with fx := (X.fileWrite b bytes s.fx).2 }
  | truncated {s : State σ} {b : Block} (n : Nat)
      (hopen : (s.descriptors b).openMode = some .forWrite) :
      Act s { s with fx := (X.fileExtendedTruncateRelease b n s.fx).2 }
  | positioned {s : State σ} {b : Block} (n : Nat)
      (halloc : (s.descriptors b).allocated = true) :
      Act s { s with
        descriptors := Function.update s.descriptors b { s.descriptors b with position := n } }
  | released {s : State σ} {b : Block} {fx : σ} (halloc : (s.descriptors b).allocated = true)
      (hflush : fx = closed X s b ∨ ∃ v, fx = (X.mediaFlush v (closed X s b)).2 ∧
        ((s.descriptors b).openMode ≠ none → (X.fileClose b s.fx).1 = .success)) :
      Act s { s with
        fx := X.clear b fx
        descriptors := Function.update s.descriptors b .empty }
  | unlinked {s : State σ} {name : Bytes} {v : Volume} {rest : List Bytes}
      (hentry : Entry platform name v rest) (hmay : may.unlink s name) :
      Act s { s with fx := (X.fileDelete v (render rest) s.fx).2 }
  | madeDirectory {s : State σ} {name : Bytes} {v : Volume} {rest : List Bytes}
      (hentry : Entry platform name v rest) :
      Act s { s with fx := (X.directoryCreate v (render rest) s.fx).2 }
  | removedDirectory {s : State σ} {name : Bytes} {v : Volume} {rest : List Bytes}
      (hentry : Entry platform name v rest)
      (hcurrent : pathHasPrefix s.currentDirectory name true = false) :
      Act s { s with fx := (X.directoryDelete v (render rest) s.fx).2 }
  | dated {s : State σ} {name : Bytes} {v : Volume} {rest : List Bytes} (stamp : Stamp)
      (hentry : Entry platform name v rest) :
      Act s { s with fx := (X.fileDateTimeSet v (render rest) stamp s.fx).2 }
  | datedHandle {s : State σ} {b : Block} (date time : Nat)
      (hopen : (s.descriptors b).openMode ≠ none) :
      Act s { s with fx := X.setEntryDateTime b date time s.fx }
  | renamed {s s' : State σ} {v : Volume} {old new : Bytes} {src dst : List Bytes}
      {directory : Bool} (hrename : Renaming platform s v old new src dst directory)
      (hreplaced : Replaced X platform s v old new src dst directory s') : Act s s'

variable {X platform} {may : May σ} {s s' : State σ}

/-! ## Transitions keep the paths sound -/

/-- Only FileX's state and the backup number have changed. -/
theorem Sound.of_eq (h : Sound platform s) (hd : s'.descriptors = s.descriptors)
    (hc : s'.currentDirectory = s.currentDirectory) : Sound platform s' where
  current := hc ▸ h.current
  entry := fun b hb => by
    rw [hd] at hb ⊢
    exact h.entry b hb
  free := fun b hb => by
    rw [hd] at hb ⊢
    exact h.free b hb

/-- One descriptor is replaced by one with an entry, or by a free one. -/
theorem Sound.update {b : Block} {d : Descriptor} (h : Sound platform s)
    (hd : s'.descriptors = Function.update s.descriptors b d)
    (hc : s'.currentDirectory = s.currentDirectory)
    (hentry : d.allocated = true →
      ∃ v rest, Entry platform d.path v rest ∧ d.media = some v)
    (hfree : d.allocated = false → d = .empty) : Sound platform s' where
  current := hc ▸ h.current
  entry := by
    intro c halloc
    rw [hd] at halloc ⊢
    by_cases hcb : c = b
    · subst hcb
      rw [Function.update_self] at halloc ⊢
      exact hentry halloc
    · rw [Function.update_of_ne hcb] at halloc ⊢
      exact h.entry c halloc
  free := by
    intro c hfree'
    rw [hd] at hfree' ⊢
    by_cases hcb : c = b
    · subst hcb
      rw [Function.update_self] at hfree' ⊢
      exact hfree hfree'
    · rw [Function.update_of_ne hcb] at hfree' ⊢
      exact h.free c hfree'

/-- A descriptor with a handle is in use. -/
theorem Sound.allocated (h : Sound platform s) {b : Block}
    (hopen : (s.descriptors b).openMode ≠ none) : (s.descriptors b).allocated = true := by
  by_contra hfree
  rw [h.free b (by simpa using hfree)] at hopen
  exact hopen rfl

/-- A descriptor keeps its path while its position or its handle changes. -/
theorem Sound.keep_path {b : Block} {d : Descriptor} (h : Sound platform s)
    (halloc : (s.descriptors b).allocated = true)
    (hd : s'.descriptors = Function.update s.descriptors b d)
    (hc : s'.currentDirectory = s.currentDirectory) (hsame : d.allocated = true)
    (hpath : d.path = (s.descriptors b).path) (hmedia : d.media = (s.descriptors b).media) :
    Sound platform s' :=
  h.update hd hc (fun _ => by rw [hpath, hmedia]; exact h.entry b halloc)
    fun hfree => absurd hsame (by simp [hfree])

theorem IsNormal.migrate {p old new : Bytes} {cs from_ to_ : List Bytes} {descendants : Bool}
    (h : IsNormal p cs) (hold : IsNormal old from_) (hnew : IsNormal new to_)
    (hold0 : from_ ≠ []) (hnew0 : to_ ≠ [])
    (hlen : migratedPathLength p old new descendants < maximumPath) :
    IsNormal (migratePath p old new descendants) (Libc.migrate cs from_ to_ descendants) := by
  have hmoved := migratePath_render h.components hold.components hold0 hnew0 descendants
  rw [← h.eq, ← hold.eq, ← hnew.eq] at hmoved
  refine ⟨?_, hmoved.1, by rw [hmoved.1, ← hmoved.2]; exact hlen⟩
  intro a ha
  rw [Libc.migrate] at ha
  split at ha
  · rcases List.mem_append.mp ha with ha | ha
    · exact hnew.components a ha
    · exact h.components a (List.mem_of_mem_drop ha)
  · exact h.components a ha

theorem Sound.migrated {v : Volume} {old new : Bytes} {src dst : List Bytes} {directory : Bool}
    (h : Sound platform s) (hrename : Renaming platform s v old new src dst directory)
    (fx : σ) : Sound platform (migrated old new directory { s with fx := fx }) := by
  have hfits := hrename.fits
  rw [TooLong, not_or] at hfits
  obtain ⟨hdesc, hcur⟩ := hfits
  refine ⟨?_, ?_, ?_⟩
  · cases directory with
    | false => exact h.current
    | true =>
        obtain ⟨cs, hcs⟩ := h.current
        obtain ⟨c, hold, -, -, -⟩ := hrename.source
        obtain ⟨d, hnew, -, -, -⟩ := hrename.target
        have hlen : migratedPathLength s.currentDirectory old new true < maximumPath := by
          by_contra hlong
          exact hcur ⟨rfl, .inl (by omega)⟩
        exact ⟨_, hcs.migrate hold hnew (by simp) (by simp) hlen⟩
  · intro b hb
    by_cases halloc : (s.descriptors b).allocated = true
    · obtain ⟨w, rest, hentry, hmedia⟩ := h.entry b halloc
      have hlen : migratedPathLength (s.descriptors b).path old new directory < maximumPath := by
        by_contra hlong
        exact hdesc ⟨b, halloc, by omega⟩
      have hmoved : (Libc.migrated old new directory { s with fx := fx }).descriptors b =
          { s.descriptors b with
            path := migratePath (s.descriptors b).path old new directory } := if_pos halloc
      rw [hmoved]
      exact ⟨w, _, hentry.migrate hrename.source hrename.target hlen, hmedia⟩
    · simp only [Libc.migrated, if_neg halloc] at hb
      exact absurd hb halloc
  · intro b hb
    by_cases halloc : (s.descriptors b).allocated = true
    · simp only [Libc.migrated, if_pos halloc] at hb
      exact absurd hb (by simp [halloc])
    · simp only [Libc.migrated, if_neg halloc]
      exact h.free b (by simpa using halloc)

theorem Act.sound (h : Sound platform s) (hact : Act X platform may s s') : Sound platform s' := by
  cases hact with
  | quiet _ => exact h.of_eq rfl rfl
  | sequence _ => exact h.of_eq rfl rfl
  | created flags hentry _ _ _ =>
      exact h.update rfl rfl (fun _ => ⟨_, _, hentry, rfl⟩) fun hfree => by cases hfree
  | notCreated _ _ => exact h.of_eq rfl rfl
  | found flags hentry _ _ _ _ =>
      exact h.update rfl rfl (fun _ => ⟨_, _, hentry, rfl⟩) fun hfree => by cases hfree
  | closedForSwitch hopen =>
      exact h.keep_path (h.allocated hopen) rfl rfl (h.allocated hopen) rfl rfl
  | cleared _ _ => exact h.of_eq rfl rfl
  | reopened halloc _ _ _ _ => exact h.keep_path halloc rfl rfl halloc rfl rfl
  | notReopened _ _ _ _ => exact h.of_eq rfl rfl
  | sought _ _ => exact h.of_eq rfl rfl
  | read _ _ => exact h.of_eq rfl rfl
  | written _ _ => exact h.of_eq rfl rfl
  | truncated _ _ => exact h.of_eq rfl rfl
  | positioned _ halloc => exact h.keep_path halloc rfl rfl halloc rfl rfl
  | released _ _ => exact h.update rfl rfl (fun halloc => by cases halloc) fun _ => rfl
  | unlinked _ _ => exact h.of_eq rfl rfl
  | madeDirectory _ => exact h.of_eq rfl rfl
  | removedDirectory _ _ => exact h.of_eq rfl rfl
  | dated _ _ => exact h.of_eq rfl rfl
  | datedHandle _ _ _ => exact h.of_eq rfl rfl
  | renamed hrename hreplaced =>
      cases hreplaced with
      | stayed _ => exact h.of_eq rfl rfl
      | moved _ => exact h.migrated hrename _
      | notBackedUp _ _ _ => exact h.of_eq rfl rfl
      | putBack _ _ _ _ _ => exact h.of_eq rfl rfl
      | replaced _ _ _ _ => exact h.migrated hrename _

/-! ## What happens to FileX -/

variable (X) in
/-- One call of FileX, or one of the changes the adapter makes to its blocks. -/
inductive Call : σ → σ → Prop
  | quiet {fx fx' : σ} (h : Quiet X fx fx') : Call fx fx'
  | fileOpen (v : Volume) (b : Block) (p : Bytes) (mode : OpenMode) (fx : σ) :
      Call fx (X.fileOpen v b p mode fx).2
  | fileClose (b : Block) (fx : σ) : Call fx (X.fileClose b fx).2
  | fileRead (b : Block) (n : Nat) (fx : σ) : Call fx (X.fileRead b n fx).2
  | fileWrite (b : Block) (bytes : Bytes) (fx : σ) : Call fx (X.fileWrite b bytes fx).2
  | seek (b : Block) (n : Nat) (fx : σ) : Call fx (X.fileExtendedSeek b n fx).2
  | truncate (b : Block) (n : Nat) (fx : σ) : Call fx (X.fileExtendedTruncateRelease b n fx).2
  | fileCreate (v : Volume) (p : Bytes) (fx : σ) : Call fx (X.fileCreate v p fx).2
  | directoryCreate (v : Volume) (p : Bytes) (fx : σ) : Call fx (X.directoryCreate v p fx).2
  | entryDelete (directory : Bool) (v : Volume) (p : Bytes) (fx : σ) :
      Call fx (X.entryDelete directory v p fx).2
  | entryRename (directory : Bool) (v : Volume) (p q : Bytes) (fx : σ) :
      Call fx (X.entryRename directory v p q fx).2
  | dateTimeSet (v : Volume) (p : Bytes) (stamp : Stamp) (fx : σ) :
      Call fx (X.fileDateTimeSet v p stamp fx).2
  | clear (b : Block) (fx : σ) : Call fx (X.clear b fx)
  | setEntryDateTime (b : Block) (date time : Nat) (fx : σ) :
      Call fx (X.setEntryDateTime b date time fx)

variable (X) in
/-- Some calls, one after the other. -/
abbrev Calls : σ → σ → Prop := Relation.ReflTransGen (Call X)

theorem calls_beforeOpen (b : Block) (v : Volume) (mode : OpenMode) :
    Calls X s.fx (beforeOpen X s b v mode) := by
  have hclear : Calls X s.fx (X.clear b s.fx) := .single (.clear b s.fx)
  rw [beforeOpen]
  split
  · exact hclear.tail (.quiet (.flush v _))
  · exact hclear

theorem calls_closed (b : Block) : Calls X s.fx (closed X s b) := by
  rw [closed]
  split
  · exact .refl
  · exact .single (.fileClose b s.fx)

theorem Replaced.calls {v : Volume} {old new : Bytes} {src dst : List Bytes} {directory : Bool}
    (h : Replaced X platform s v old new src dst directory s') : Calls X s.fx s'.fx := by
  have hmove (p q : Bytes) (fx : σ) : Calls X fx (X.entryRename directory v p q fx).2 :=
    .single (.entryRename directory v p q fx)
  cases h with
  | stayed _ => exact hmove _ _ _
  | moved _ => exact hmove _ _ _
  | notBackedUp _ _ _ => exact hmove _ _ _
  | @putBack backup aside fx fx' _ _ hback _ hfx =>
      have hfirst : Calls X s.fx fx := by
        have h := hmove (render dst) (render aside) s.fx
        rwa [hback] at h
      have hsecond : Calls X fx fx' := hfx ▸ hmove _ _ _
      exact (hfirst.trans hsecond).trans (hmove _ _ _)
  | @replaced backup aside fx fx' _ _ hback hmoved =>
      have hfirst : Calls X s.fx fx := by
        have h := hmove (render dst) (render aside) s.fx
        rwa [hback] at h
      have hsecond : Calls X fx fx' := by
        have h := hmove (render src) (render dst) fx
        rwa [hmoved] at h
      exact (hfirst.trans hsecond).tail (.entryDelete directory v (render aside) fx')

theorem Act.calls (hact : Act X platform may s s') : Calls X s.fx s'.fx := by
  cases hact with
  | quiet h => exact .single (.quiet h)
  | sequence _ => exact .refl
  | created _ _ _ _ _ => exact (Relation.ReflTransGen.single (.fileCreate _ _ _)).tail (.clear _ _)
  | notCreated _ _ => exact .single (.fileCreate _ _ _)
  | found _ _ _ _ _ _ =>
      exact (Relation.ReflTransGen.single (.quiet (.information _ _ _))).tail (.clear _ _)
  | closedForSwitch _ => exact .single (.fileClose _ _)
  | cleared _ _ => exact .single (.clear _ _)
  | reopened _ _ _ _ _ => exact (calls_beforeOpen _ _ _).tail (.fileOpen _ _ _ _ _)
  | notReopened _ _ _ _ => exact (calls_beforeOpen _ _ _).tail (.fileOpen _ _ _ _ _)
  | sought _ _ => exact .single (.seek _ _ _)
  | read _ _ => exact .single (.fileRead _ _ _)
  | written _ _ => exact .single (.fileWrite _ _ _)
  | truncated _ _ => exact .single (.truncate _ _ _)
  | positioned _ _ => exact .refl
  | @released b fx _ hflush =>
      have hfx : Calls X s.fx fx := by
        rcases hflush with rfl | ⟨v, rfl, -⟩
        · exact calls_closed b
        · exact (calls_closed b).tail (.quiet (.flush v _))
      exact hfx.tail (.clear b fx)
  | unlinked _ _ => exact .single (.entryDelete false _ _ _)
  | madeDirectory _ => exact .single (.directoryCreate _ _ _)
  | removedDirectory _ _ => exact .single (.entryDelete true _ _ _)
  | dated _ _ => exact .single (.dateTimeSet _ _ _ _)
  | datedHandle _ _ _ => exact .single (.setEntryDateTime _ _ _ _)
  | renamed _ hreplaced => exact hreplaced.calls

end Libc
end NucleoBase
