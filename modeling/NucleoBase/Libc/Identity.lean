/-
  NucleoBase.Libc.Identity

  A descriptor finds its file again by the path it stores: `switch_mode` closes
  the handle and opens the path anew.  The path goes on leading to the file that
  `_open` opened as long as no file is unlinked that only descriptors without a
  handle are on, which a failed reopening leaves behind.
-/

import NucleoBase.Libc.CurrentDirectory
import NucleoBase.Libc.Durability
import NucleoBase.Libc.OpenFiles

namespace NucleoBase
namespace Libc

open Lib Lib.Program

variable {σ : Type} {X : FileX σ} {names : σ → Forest} {platform : Platform} {may : May σ}
  {handle : σ → Block → Option (Volume × Node)} {s s' u : State σ} {b c : Block} {v : Volume}
  {n : Node}

/-! ## Descriptors and files -/

/-- The path of a descriptor leads to a node. -/
def Bound (platform : Platform) (names : σ → Forest) (s : State σ) (b : Block) (v : Volume)
    (n : Node) : Prop :=
  (s.descriptors b).allocated = true ∧
    ∃ rest, Entry platform (s.descriptors b).path v rest ∧ names s.fx v (key rest) = some n

/-- A descriptor is on a file: its path leads there, and so does its handle if it has
    one. -/
structure OnFile (platform : Platform) (names : σ → Forest)
    (handle : σ → Block → Option (Volume × Node)) (s : State σ) (b : Block) (v : Volume)
    (n : Node) : Prop where
  bound : Bound platform names s b v n
  file : ¬ n.IsDirectory
  held : (s.descriptors b).openMode ≠ none → handle s.fx b = some (v, n)

/-- Every descriptor in use is on a file. -/
def AllOnFile (platform : Platform) (names : σ → Forest)
    (handle : σ → Block → Option (Volume × Node)) (s : State σ) : Prop :=
  ∀ b, (s.descriptors b).allocated = true → ∃ v n, OnFile platform names handle s b v n

/-- If descriptors in use have a path, one of them has a handle. -/
def Guards (s : State σ) (name : Bytes) : Prop :=
  ∀ b, (s.descriptors b).allocated = true → pathsEqual (s.descriptors b).path name = true →
    ∃ c, (s.descriptors c).allocated = true ∧ pathsEqual (s.descriptors c).path name = true ∧
      (s.descriptors c).openMode ≠ none

/-- A file is unlinked only if a handle guards it, and only free descriptors are filled
    in. -/
def May.sparing (u : State σ) : May σ where
  unlink := Guards
  fill c := (u.descriptors c).allocated = false

/-! ## One transition -/

/-- The path of a descriptor leads to one node. -/
theorem Bound.leads (h : Bound platform names s b v n) {w : Volume} {rest : List Bytes}
    (hentry : Entry platform (s.descriptors b).path w rest) :
    v = w ∧ names s.fx v (key rest) = some n := by
  obtain ⟨-, rest', hentry', hnode⟩ := h
  obtain ⟨rfl, -⟩ := hentry'.unique hentry
  have hkey : key rest' = key rest :=
    ((hentry'.pathsEqual_iff hentry).mp ((hentry'.pathsEqual_iff hentry').mpr ⟨rfl, rfl⟩)).2
  exact ⟨rfl, hkey ▸ hnode⟩

theorem OnFile.protected (hN : X.Keeps names) (hO : X.Opens names handle)
    (hall : AllOnFile platform names handle s)
    (h : OnFile platform names handle s b v n) {rest : List Bytes}
    (hentry : Entry platform (s.descriptors b).path v rest)
    (hnode : names s.fx v (key rest) = some n) :
    Protected X names platform (.sparing u) s v (key rest) where
  unlinked := by
    rintro name v' rest' hentry' hmay hok ⟨rfl, heq⟩
    -- some descriptor on the file has a handle, so FileX refuses
    have hequal : pathsEqual (s.descriptors b).path name = true :=
      (hentry.pathsEqual_iff hentry').mpr ⟨rfl, heq⟩
    obtain ⟨c, hc, hsame, hopen⟩ := hmay b h.bound.1 hequal
    obtain ⟨w, m, hon⟩ := hall c hc
    obtain ⟨-, rest₂, hentry₂, -⟩ := hon.bound
    obtain ⟨rfl, hkey⟩ := (hentry₂.pathsEqual_iff hentry').mp hsame
    obtain ⟨-, hm⟩ := hon.bound.leads hentry₂
    rw [hkey, ← heq, hnode] at hm
    obtain rfl := Option.some.inj hm
    exact hO.fileDelete w rest' s.fx n hentry'.isLocal hok (heq ▸ hnode) c (hon.held hopen)
  removed := by
    rintro name v' rest' hentry' - hok ⟨rfl, heq⟩
    obtain ⟨⟨m, hm, hkind⟩, -⟩ := hN.deleted hentry'.isLocal true hok
    rw [← heq, hnode] at hm
    obtain rfl := Option.some.inj hm
    exact h.file (hkind.mpr rfl)
  replaced := by
    rintro v' old new src dst directory hrename hreplace ⟨m, hm, hkind⟩ rfl hle
    apply hreplace.unused
    refine ⟨b, h.bound.1, ?_⟩
    cases directory with
    | true => exact (hentry.pathHasPrefix_entry hrename.target).mpr ⟨rfl, hle⟩
    | false =>
        have hleaf : ¬ m.IsDirectory := fun hm' => Bool.false_ne_true (hkind.mp hm')
        have heq : key dst = key rest := by
          by_contra hne
          rw [(hN.closed s.fx v).none_in_leaf hm hleaf hle hne] at hnode
          cases hnode
        exact (hentry.pathsEqual_iff hrename.target).mpr ⟨rfl, heq.symm⟩

/-- The path goes on leading to the file. -/
theorem OnFile.bound_act (hN : X.Keeps names) (hO : X.Opens names handle)
    (hall : AllOnFile platform names handle s)
    (hact : Act X platform (.sparing u) s s') (h : OnFile platform names handle s b v n)
    (halloc : (s'.descriptors b).allocated = true) : Bound platform names s' b v n := by
  obtain ⟨hb, rest, hentry, hnode⟩ := h.bound
  rcases hact.keeps hN hnode (h.protected hN hO hall hentry hnode) with
    ⟨hsame, hkept⟩ | ⟨v', old, new, src, dst, directory, fx, hrename, rfl, hkept, habove⟩
  · refine ⟨halloc, rest, ?_, hkept⟩
    rw [hsame.descriptor b hb halloc]
    exact hentry
  · have hfits := hrename.fits
    rw [TooLong, not_or] at hfits
    have hlen : migratedPathLength (s.descriptors b).path old new directory < maximumPath := by
      by_contra hlong
      exact hfits.1 ⟨b, hb, by omega⟩
    have hmoved := hentry.migrate hrename.source hrename.target hlen
    have hpath : ((migrated old new directory { s with fx := fx }).descriptors b).path =
        migratePath (s.descriptors b).path old new directory := by
      simp [migrated, hb]
    refine ⟨halloc, _, by rw [hpath]; exact hmoved, ?_⟩
    show names fx v _ = some n
    rw [← hkept]
    congr 1
    split
    · rename_i hv
      exact key_migrate fun hfile hle => (habove hfile hv hle).1
    · rfl

/-- A descriptor in use stays the same but for its position, or for its open mode. -/
theorem freeDescriptor_ne (h : freeDescriptor s = some c) (hb : (s.descriptors b).allocated = true) :
    b ≠ c := by
  rintro rfl
  rw [freeDescriptor_free h] at hb
  cases hb

theorem handle_beforeOpen (hO : X.Opens names handle) {mode : OpenMode} (hne : b ≠ c) :
    handle (beforeOpen X s c v mode) b = handle s.fx b := by
  rw [beforeOpen]
  split
  · rw [hO.passes _ _ (.quiet (.flush v _)), hO.others_clear c s.fx b hne]
  · exact hO.others_clear c s.fx b hne

theorem Replaced.handles {old new : Bytes} {src dst : List Bytes} {directory : Bool}
    (hO : X.Opens names handle) (h : Replaced X platform s v old new src dst directory s') :
    handle s'.fx = handle s.fx := by
  have hmove (p q : Bytes) (fx : σ) :
      handle (X.entryRename directory v p q fx).2 = handle fx :=
    hO.passes _ _ (.entryRename directory v p q fx)
  cases h with
  | stayed _ => exact hmove _ _ _
  | moved _ => exact hmove _ _ _
  | notBackedUp _ _ _ => exact hmove _ _ _
  | @putBack backup aside fx fx' _ _ hback _ hfx =>
      have hfirst := hmove (render dst) (render aside) s.fx
      rw [hback] at hfirst
      have hsecond : handle fx' = handle fx := hfx ▸ hmove _ _ _
      exact (hmove _ _ _).trans (hsecond.trans hfirst)
  | @replaced backup aside fx fx' _ _ hback hmoved =>
      have hfirst := hmove (render dst) (render aside) s.fx
      rw [hback] at hfirst
      have hsecond := hmove (render src) (render dst) fx
      rw [hmoved] at hsecond
      exact (hO.passes _ _ (.entryDelete directory v _ fx')).trans (hsecond.trans hfirst)

theorem migrated_openMode (old new : Bytes) (directory : Bool) :
    ((migrated old new directory s).descriptors b).openMode = (s.descriptors b).openMode := by
  simp only [migrated]
  split <;> rfl

/-- So does the handle, and one that is opened anew leads there too. -/
theorem OnFile.held_act (hN : X.Keeps names) (hO : X.Opens names handle)
    (hact : Act X platform may s s') (h : OnFile platform names handle s b v n)
    (halloc : (s'.descriptors b).allocated = true)
    (hopen : (s'.descriptors b).openMode ≠ none) : handle s'.fx b = some (v, n) := by
  obtain ⟨hb, rest, hentry, hnode⟩ := h.bound
  -- the handle of another descriptor changes, or none
  have hpass : ∀ {fx : σ}, handle fx b = handle s.fx b → (s.descriptors b).openMode ≠ none →
      handle fx b = some (v, n) := by
    intro fx heq hmode
    rw [heq]
    exact h.held hmode
  have hcalls : ∀ {fx : σ}, X.Passes s.fx fx → handle fx b = handle s.fx b := by
    intro fx hcall
    rw [hO.passes _ _ hcall]
  have hother : ∀ {c : Block} {d : Descriptor}, b ≠ c →
      (Function.update s.descriptors c d b).openMode ≠ none →
      (s.descriptors b).openMode ≠ none := by
    intro c d hne hmode
    rwa [Function.update_of_ne hne] at hmode
  cases hact with
  | quiet hquiet => exact hpass (hcalls (.quiet hquiet)) hopen
  | sequence _ => exact h.held hopen
  | @created name w rest' c flags _ hfree _ _ =>
      have hne := freeDescriptor_ne hfree hb
      refine hpass ?_ (hother hne hopen)
      rw [hO.others_clear c _ b hne, hO.passes _ _ (.fileCreate w _ s.fx)]
  | notCreated _ _ => exact hpass (hcalls (.fileCreate _ _ _)) hopen
  | @found name w rest' c info flags _ hfree _ _ _ =>
      have hne := freeDescriptor_ne hfree hb
      refine hpass ?_ (hother hne hopen)
      rw [hO.others_clear c _ b hne, hO.passes _ _ (.quiet (.information w _ s.fx))]
  | @closedForSwitch c _ =>
      by_cases hne : b = c
      · subst hne
        simp at hopen
      · exact hpass (hO.others_close c s.fx b hne) (hother hne hopen)
  | @cleared c _ hnone =>
      have hne : b ≠ c := by
        rintro rfl
        exact hopen hnone
      exact hpass (hO.others_clear c s.fx b hne) hopen
  | @reopened c w rest' mode _ _ hentry' _ hstatus =>
      by_cases hne : b = c
      · -- its own path leads to the file
        subst hne
        obtain ⟨rfl, hleads⟩ := h.bound.leads hentry'
        obtain ⟨m, hm, -, hheld⟩ := hO.fileOpen v b rest' mode _ hentry'.isLocal hstatus
        rw [data_beforeOpen hN, hleads] at hm
        obtain rfl := Option.some.inj hm
        exact hheld
      · refine hpass ?_ (hother hne hopen)
        rw [hO.others_open w c _ mode _ b hne, handle_beforeOpen hO hne]
  | @notReopened c w rest' mode _ hnone _ _ =>
      have hne : b ≠ c := by
        rintro rfl
        exact hopen hnone
      refine hpass ?_ hopen
      rw [hO.others_open w c _ mode _ b hne, handle_beforeOpen hO hne]
  | sought _ _ => exact hpass (hcalls (.seek _ _ _)) hopen
  | read _ _ => exact hpass (hcalls (.fileRead _ _ _)) hopen
  | written _ _ => exact hpass (hcalls (.fileWrite _ _ _)) hopen
  | truncated _ _ => exact hpass (hcalls (.truncate _ _ _)) hopen
  | @positioned c _ _ =>
      refine h.held ?_
      by_cases hne : b = c
      · subst hne
        simpa using hopen
      · exact hother hne hopen
  | @released c fx _ hflush =>
      have hne : b ≠ c := by
        rintro rfl
        simp [Descriptor.empty] at halloc
      refine hpass ?_ (hother hne hopen)
      have hclosed : handle (closed X s c) b = handle s.fx b := by
        rw [closed]
        split
        · rfl
        · exact hO.others_close c s.fx b hne
      rw [hO.others_clear c _ b hne]
      rcases hflush with rfl | ⟨w, rfl, -⟩
      · exact hclosed
      · rw [hO.passes _ _ (.quiet (.flush w _))]
        exact hclosed
  | unlinked _ _ => exact hpass (hcalls (.entryDelete false _ _ _)) hopen
  | madeDirectory _ => exact hpass (hcalls (.directoryCreate _ _ _)) hopen
  | removedDirectory _ _ => exact hpass (hcalls (.entryDelete true _ _ _)) hopen
  | dated _ _ => exact hpass (hcalls (.dateTimeSet _ _ _ _)) hopen
  | datedHandle _ _ _ => exact hpass (hcalls (.setEntryDateTime _ _ _ _)) hopen
  | renamed hrename hreplaced =>
      have hsame := hreplaced.handles hO
      refine hpass (by rw [hsame]) ?_
      cases hreplaced with
      | moved _ => rwa [migrated_openMode] at hopen
      | replaced _ _ _ _ => rwa [migrated_openMode] at hopen
      | _ => exact hopen

theorem OnFile.act (hN : X.Keeps names) (hO : X.Opens names handle)
    (hall : AllOnFile platform names handle s)
    (hact : Act X platform (.sparing u) s s') (h : OnFile platform names handle s b v n)
    (halloc : (s'.descriptors b).allocated = true) : OnFile platform names handle s' b v n where
  bound := h.bound_act hN hO hall hact halloc
  file := h.file
  held := h.held_act hN hO hact halloc

/-- A descriptor comes into use when `_open` fills it in, and is then on a file. -/
theorem Act.in_use (hN : X.Keeps names) (hact : Act X platform may s s')
    (halloc : (s'.descriptors b).allocated = true) :
    (s.descriptors b).allocated = true ∨
      may.fill b ∧ ∃ v n, OnFile platform names handle s' b v n := by
  have hother : ∀ {c : Block} {d : Descriptor}, b ≠ c →
      (Function.update s.descriptors c d b).allocated = true →
      (s.descriptors b).allocated = true := by
    intro c d hne h
    rwa [Function.update_of_ne hne] at h
  have hsame : ∀ {c : Block} {d : Descriptor}, d.allocated = (s.descriptors c).allocated →
      (Function.update s.descriptors c d b).allocated = true →
      (s.descriptors b).allocated = true := by
    intro c d hd h
    by_cases hne : b = c
    · subst hne
      rwa [Function.update_self, hd] at h
    · exact hother hne h
  cases hact with
  | @created name v rest c flags hentry _ hmay hcreate =>
      by_cases hne : b = c
      · subst hne
        have hmade := hN.fileCreate v rest s.fx hentry.isLocal
        rw [if_pos hcreate] at hmade
        obtain ⟨id, -, hnames⟩ := hmade
        refine .inr ⟨hmay, v, .file id, ⟨halloc, rest, ?_, ?_⟩, fun h => h, fun hopen => ?_⟩
        · simpa [openedDescriptor] using hentry
        · show names (X.clear b _) v (key rest) = _
          rw [hN.data _ _ (.clear b _), hnames]
          simp
        · simp [openedDescriptor] at hopen
      · exact .inl (hother hne halloc)
  | @found name v rest c info flags hentry _ hmay hinfo hfile =>
      by_cases hne : b = c
      · subst hne
        obtain ⟨n, hn, hkind⟩ := hN.found v rest s.fx info hentry.isLocal hinfo
        refine .inr ⟨hmay, v, n, ⟨halloc, rest, ?_, ?_⟩, fun hdir => ?_, fun hopen => ?_⟩
        · simpa [openedDescriptor] using hentry
        · show names (X.clear b _) v (key rest) = _
          rw [hN.data _ _ (.clear b _), hN.data _ _ (.quiet (.information v _ _))]
          exact hn
        · rw [hkind, hfile] at hdir
          cases hdir
        · simp [openedDescriptor] at hopen
      · exact .inl (hother hne halloc)
  | closedForSwitch _ => exact .inl (hsame (by rfl) halloc)
  | reopened _ _ _ _ _ => exact .inl (hsame (by rfl) halloc)
  | positioned _ _ => exact .inl (hsame (by rfl) halloc)
  | @released c _ _ _ =>
      by_cases hne : b = c
      · subst hne
        simp [Descriptor.empty] at halloc
      · exact .inl (hother hne halloc)
  | renamed _ hreplaced =>
      left
      have hmigrated : ∀ {w : State σ} {old new : Bytes} {directory : Bool},
          ((migrated old new directory w).descriptors b).allocated =
            (w.descriptors b).allocated := by
        intro w old new directory
        simp only [migrated]
        split <;> rfl
      cases hreplaced with
      | moved _ => rwa [hmigrated] at halloc
      | replaced _ _ _ _ => rwa [hmigrated] at halloc
      | _ => exact halloc
  | _ => exact .inl halloc

/-- Every descriptor in use goes on being on a file. -/
theorem AllOnFile.act (hN : X.Keeps names) (hO : X.Opens names handle)
    (hall : AllOnFile platform names handle s) (hact : Act X platform (.sparing u) s s') :
    AllOnFile platform names handle s' := by
  intro b halloc
  have hcases : (s.descriptors b).allocated = true ∨ (May.sparing u).fill b ∧
      ∃ v n, OnFile platform names handle s' b v n := hact.in_use hN halloc
  rcases hcases with hbefore | ⟨-, hnew⟩
  · obtain ⟨v, n, hon⟩ := hall b hbefore
    exact ⟨v, n, hon.act hN hO hall hact halloc⟩
  · exact hnew

/-! ## Runs -/

/-- No file is unlinked that only descriptors without a handle are on. -/
def Spares (_ : List Request) (s : State σ) (r : Request) : Prop :=
  ∀ path name, r = .unlink path → normalizePath s.currentDirectory path = .ok name →
    Guards s name

theorem Spares.mayServe {h : List Request} {r : Request} (hspares : Spares h s r) :
    MayServe (.sparing s) s r where
  unlink path name _ hr hname := hspares path name hr hname
  fill _ _ _ _ hfree := freeDescriptor_free hfree

/-- A call leaves every descriptor on its file that it does not give back. -/
theorem OnFile.request (hX : X.Documented) (hN : X.Keeps names) (hO : X.Opens names handle)
    (hsound : Sound platform s) (hall : AllOnFile platform names handle s) {h : List Request}
    {r : Request} (hspares : Spares h s r) (hreq : Libc.request X platform s r = some s')
    (hon : OnFile platform names handle s b v n) (halloc : (s'.descriptors b).allocated = true) :
    OnFile platform names handle s' b v n := by
  have hboth := request_invariant (I := fun w => AllOnFile platform names handle w ∧
    ((w.descriptors b).allocated = true → OnFile platform names handle w b v n)) hX ?_ ?_ hsound
    ⟨hall, fun _ => hon⟩ hspares.mayServe hreq
  · exact hboth.2.2 halloc
  · rintro w w' - ⟨hfiles, hi⟩ hact
    refine ⟨hfiles.act hN hO hact, fun halloc => ?_⟩
    have hcases : (w.descriptors b).allocated = true ∨ (May.sparing s).fill b ∧
        ∃ v n, OnFile platform names handle w' b v n := hact.in_use hN halloc
    rcases hcases with hbefore | ⟨hfill, -⟩
    · exact (hi hbefore).act hN hO hfiles hact halloc
    · have hfree : (s.descriptors b).allocated = false := hfill
      rw [hon.bound.1] at hfree
      cases hfree
  · rintro w name - ⟨hfiles, hi⟩ -
    refine ⟨fun c hc => ?_, fun halloc => ?_⟩
    · obtain ⟨v, n, hbound, hfile, hheld⟩ := hfiles c hc
      exact ⟨v, n, hbound, hfile, hheld⟩
    · obtain ⟨hbound, hfile, hheld⟩ := hi halloc
      exact ⟨hbound, hfile, hheld⟩

/-- In a run, the file that the `_open` of a descriptor opened: the one its path leads
    to when `_open` returns the descriptor, until the descriptor is given back. -/
inductive OpenedFile (X : FileX σ) (platform : Platform) (names : σ → Forest)
    (guard : List Request → State σ → Request → Prop) :
    List Request → State σ → Block → Volume → Node → Prop
  | opened {h : List Request} {s s' : State σ} {b : Block} {v : Volume} {n : Node}
      {path : Option Bytes} {flags : OpenFlags}
      (hrun : Run (request X platform) guard (AfterStart platform) h s)
      (hguard : guard h s (.open_ path flags))
      (hopen : serve X platform (.open_ path flags) s = some (.ok (.number (fileNumber b)), s'))
      (hbound : Bound platform names s' b v n) :
      OpenedFile X platform names guard (.open_ path flags :: h) s' b v n
  | kept {h : List Request} {s s' : State σ} {b : Block} {v : Volume} {n : Node} {r : Request}
      (hopened : OpenedFile X platform names guard h s b v n) (hguard : guard h s r)
      (hreq : request X platform s r = some s')
      (halloc : (s'.descriptors b).allocated = true) :
      OpenedFile X platform names guard (r :: h) s' b v n

theorem fileNumber_console (b : Block) : 3 ≤ fileNumber b := by
  simp only [fileNumber]
  omega

/-- A handle is open in some mode. -/
def Held (b : Block) (s : State σ) : Prop := (s.descriptors b).openMode ≠ none

section SmallVolume

open SmallVolume

/-- A call that leaves a descriptor in use. -/
def keeping (X : FileX σ) (platform : Platform) (b : Block) (s : State σ) (r : Request) :
    Option (State σ) :=
  (request X platform s r).filter fun s => (s.descriptors b).allocated

theorem OpenedFile.keeping {guard : List Request → State σ → Request → Prop} {h rs : List Request}
    (hopened : OpenedFile X platform names guard h s b v n)
    (hguard : ∀ h s, ∀ r ∈ rs, guard h s r)
    (hrun : replay (Libc.keeping X platform b) s rs = some s') :
    OpenedFile X platform names guard (rs.reverse ++ h) s' b v n := by
  induction rs generalizing h s with
  | nil =>
      cases hrun
      exact hopened
  | cons r rs ih =>
      simp only [replay, Option.bind_eq_some_iff] at hrun
      obtain ⟨w, hw, hrest⟩ := hrun
      obtain ⟨hreq, halloc⟩ := Option.filter_eq_some_iff.mp hw
      have hkept := hopened.kept (hguard h s r List.mem_cons_self) hreq halloc
      have htail := ih hkept (fun h s r hr => hguard h s r (List.mem_cons_of_mem _ hr)) hrest
      simpa using htail

def emptyVolume : SmallVolume := ⟨none, 0, 4096, fun _ => none⟩

theorem entry_flashFile : Entry mountedPlatform flashFile .flash [[97]] := by
  refine ⟨mountComponent .flash, ⟨?_, by decide, by decide⟩, rfl, List.cons_ne_nil _ _, rfl⟩
  intro c hc
  simp only [List.mem_cons, List.not_mem_nil, or_false] at hc
  rcases hc with rfl | rfl
  · exact isComponent_mount .flash
  · exact ⟨by decide, by decide, by decide, by decide +kernel⟩

/-- The file is opened, and created if need be. -/
def openFile (access : Access) : Request := .open_ (some flashFile) ⟨access, true, false, false, false⟩

def afterOpen : Option (Except (Option Errno) Reply × State SmallVolume) :=
  serve smallVolume mountedPlatform (openFile .readWrite) (State.initial mountedPlatform emptyVolume)

theorem ok_of_toOption {ε α : Type} {x : Except ε α} {a : α} (h : x.toOption = some a) :
    x = .ok a := by
  cases x with
  | ok b => exact congrArg Except.ok (Option.some.inj h)
  | error e => cases h

/-- The first descriptor is opened on the file with the number 0. -/
theorem opened_first (guard : List Request → State SmallVolume → Request → Prop)
    (hguard : ∀ h s, guard h s (openFile .readWrite)) :
    ∃ s, afterOpen.map Prod.snd = some s ∧
      OpenedFile smallVolume mountedPlatform SmallVolume.names guard [openFile .readWrite] s
        firstBlock .flash (.file 0) := by
  have hrun : afterOpen.map (fun r => (r.1.toOption, r.2.descriptors firstBlock, r.2.fx.file)) =
      some (some (.number (fileNumber firstBlock)),
        ⟨some .flash, flashFile, 0, true, true, true, false, true, some .forWrite⟩,
        some (0, [])) := by
    decide +kernel
  obtain ⟨⟨o, s⟩, hs, heq⟩ := Option.map_eq_some_iff.mp hrun
  simp only [Prod.mk.injEq] at heq
  obtain ⟨hok, hdescriptor, hfile⟩ := heq
  obtain rfl := ok_of_toOption hok
  refine ⟨s, by rw [hs]; rfl, .opened (.start ⟨emptyVolume, rfl⟩) (hguard _ _) hs ?_⟩
  refine ⟨by rw [hdescriptor], [[97]], by rw [hdescriptor]; exact entry_flashFile, ?_⟩
  show SmallVolume.names s.fx .flash [[65]] = _
  simp [SmallVolume.names, hfile]

/-- A mode switch fails, the file is deleted, and another one gets its name. -/
def replaceFile : List Request :=
  [.read 3 true 1, openFile .writeOnly, .write 3 (some [1]) 1, .close 4, .unlink (some flashFile),
    openFile .writeOnly, .write 4 (some [2]) 1, .close 4]

def runFirst (rs : List Request) : Option (State SmallVolume) :=
  (afterOpen.map Prod.snd).bind fun s => replay (keeping smallVolume mountedPlatform firstBlock) s rs

theorem opened_run {g : List Request → State SmallVolume → Request → Prop} {rs : List Request}
    (hopen : ∀ h s, g h s (openFile .readWrite)) (hguard : ∀ h s, ∀ r ∈ rs, g h s r)
    {s : State SmallVolume} (hrun : runFirst rs = some s) :
    OpenedFile smallVolume mountedPlatform SmallVolume.names g
      (rs.reverse ++ [openFile .readWrite]) s firstBlock .flash (.file 0) := by
  obtain ⟨w, hw, hopened⟩ := opened_first g hopen
  rw [runFirst, hw, Option.bind_some] at hrun
  exact hopened.keeping hguard hrun

/-- Without the condition, a read acts on a file that was created later. -/
theorem reads_other_file :
    ∃ h s s', OpenedFile smallVolume mountedPlatform SmallVolume.names anyStep h s firstBlock
        .flash (.file 0) ∧
      serve smallVolume mountedPlatform (.read 3 true 1) s = some (.ok (.bytes [2]), s') ∧
      s'.fx.held firstBlock = some (.flash, .file 1) := by
  have hrun : (runFirst replaceFile).bind (fun s =>
      (serve smallVolume mountedPlatform (.read 3 true 1) s).map fun r =>
        (r.1.toOption, r.2.fx.held firstBlock)) =
      some (some (.bytes [2]), some (.flash, .file 1)) := by decide +kernel
  obtain ⟨s, hs, hserve⟩ := Option.bind_eq_some_iff.mp hrun
  obtain ⟨⟨o, s'⟩, hserve, heq⟩ := Option.map_eq_some_iff.mp hserve
  simp only [Prod.mk.injEq] at heq
  obtain ⟨hok, hheld⟩ := heq
  obtain rfl := ok_of_toOption hok
  have hopened := opened_run (g := anyStep) (fun _ _ => trivial) (fun _ _ _ _ => trivial) hs
  exact ⟨_, s, s', hopened, hserve, hheld⟩

end SmallVolume

end Libc
end NucleoBase
