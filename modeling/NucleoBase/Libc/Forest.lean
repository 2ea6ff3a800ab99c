/-
  NucleoBase.Libc.Forest

  What FileX documents of its names: they form a tree on each volume, compared
  without regard to case, and only the calls on entries change it, each in one
  way if it succeeds and not at all if it fails.
-/

import NucleoBase.Lib.NameTree
import NucleoBase.Libc.Serve

namespace NucleoBase
namespace Libc

open Lib Lib.Program

/-- What a name leads to. -/
inductive Node
  | file (id : Nat)
  | directory (id : Nat)
  deriving DecidableEq, Repr

def Node.IsDirectory : Node → Prop
  | .file _ => False
  | .directory _ => True

/-- The names of a volume: folded components from its root. -/
abbrev Forest : Type := Volume → NameTree Bytes Node

/-- The components of a path that FileX is given. -/
structure IsLocal (rest : List Bytes) : Prop where
  components : ∀ c ∈ rest, IsComponent c
  ne_nil : rest ≠ []

variable {σ : Type}

/-- The calls that do not change names. -/
inductive FileX.Data (X : FileX σ) : σ → σ → Prop
  | quiet {fx fx' : σ} (h : Quiet X fx fx') : X.Data fx fx'
  | fileOpen (v : Volume) (b : Block) (p : Bytes) (mode : OpenMode) (fx : σ) :
      X.Data fx (X.fileOpen v b p mode fx).2
  | fileClose (b : Block) (fx : σ) : X.Data fx (X.fileClose b fx).2
  | fileRead (b : Block) (n : Nat) (fx : σ) : X.Data fx (X.fileRead b n fx).2
  | fileWrite (b : Block) (bytes : Bytes) (fx : σ) : X.Data fx (X.fileWrite b bytes fx).2
  | seek (b : Block) (n : Nat) (fx : σ) : X.Data fx (X.fileExtendedSeek b n fx).2
  | truncate (b : Block) (n : Nat) (fx : σ) : X.Data fx (X.fileExtendedTruncateRelease b n fx).2
  | dateTimeSet (v : Volume) (p : Bytes) (stamp : Stamp) (fx : σ) :
      X.Data fx (X.fileDateTimeSet v p stamp fx).2
  | clear (b : Block) (fx : σ) : X.Data fx (X.clear b fx)
  | setEntryDateTime (b : Block) (date time : Nat) (fx : σ) :
      X.Data fx (X.setEntryDateTime b date time fx)

/-- An entry is made where there was none. -/
def Forest.Made (names : Forest) (v : Volume) (k : List Bytes) (n : Node) (names' : Forest) : Prop :=
  names v k = none ∧ names' = Function.update names v (Function.update (names v) k (some n))

/-- An entry of the given kind is taken away, with nothing below it. -/
def Forest.Removed (names : Forest) (v : Volume) (k : List Bytes) (directory : Bool)
    (names' : Forest) : Prop :=
  (∃ n, names v k = some n ∧ (n.IsDirectory ↔ directory = true)) ∧
  (∀ q, k <+: q → k ≠ q → names v q = none) ∧
  names' = Function.update names v (Function.update (names v) k none)

/-- An entry of the given kind moves to a name that leads nowhere, or to its own. -/
def Forest.Moved (names : Forest) (v : Volume) (src dst : List Bytes) (directory : Bool)
    (names' : Forest) : Prop :=
  (∃ n, names v src = some n ∧ (n.IsDirectory ↔ directory = true)) ∧
  (src ≠ dst → names v dst = none) ∧
  names' = Function.update names v ((names v).move src dst)

/-- FileX keeps the names that a function of its state tells. -/
structure FileX.Keeps (X : FileX σ) (names : σ → Forest) : Prop where
  closed : ∀ fx v, (names fx v).Closed Node.IsDirectory
  data : ∀ fx fx', X.Data fx fx' → names fx' = names fx
  fileCreate : ∀ v rest fx, IsLocal rest →
    if (X.fileCreate v (render rest) fx).1 = .success then
      ∃ id, (names fx).Made v (key rest) (.file id) (names (X.fileCreate v (render rest) fx).2)
    else names (X.fileCreate v (render rest) fx).2 = names fx
  directoryCreate : ∀ v rest fx, IsLocal rest →
    if (X.directoryCreate v (render rest) fx).1 = .success then
      ∃ id, (names fx).Made v (key rest) (.directory id)
        (names (X.directoryCreate v (render rest) fx).2)
    else names (X.directoryCreate v (render rest) fx).2 = names fx
  entryDelete : ∀ directory v rest fx, IsLocal rest →
    if (X.entryDelete directory v (render rest) fx).1 = .success then
      (names fx).Removed v (key rest) directory (names (X.entryDelete directory v (render rest) fx).2)
    else names (X.entryDelete directory v (render rest) fx).2 = names fx
  /-- A directory may not be renamed to a name below it. -/
  entryRename : ∀ directory v src dst fx, IsLocal src → IsLocal dst →
    (directory = true → key src ≠ key dst → ¬ key src <+: key dst) →
    if (X.entryRename directory v (render src) (render dst) fx).1 = .success then
      (names fx).Moved v (key src) (key dst) directory
        (names (X.entryRename directory v (render src) (render dst) fx).2)
    else names (X.entryRename directory v (render src) (render dst) fx).2 = names fx
  found : ∀ v rest fx info, IsLocal rest →
    (X.directoryInformationGet v (render rest) fx).1 = (.success, info) →
    ∃ n, names fx v (key rest) = some n ∧ (n.IsDirectory ↔ info.directory = true)
  notFound : ∀ v rest fx, IsLocal rest →
    filexErrno (X.directoryInformationGet v (render rest) fx).1.1 = some .ENOENT →
    names fx v (key rest) = none

variable {X : FileX σ} {names : σ → Forest} {platform : Platform} {name : Bytes} {v : Volume}
  {rest : List Bytes}

theorem Entry.isLocal (h : Entry platform name v rest) : IsLocal rest := ⟨h.components, h.ne_nil⟩

section Moves

variable {ns ns' : Forest} {src dst : List Bytes} {directory : Bool}

theorem Forest.Moved.movable (h : ns.Moved v src dst directory ns')
    (hclosed : (ns v).Closed Node.IsDirectory) (hclosed' : (ns' v).Closed Node.IsDirectory)
    (happart : directory = true → src ≠ dst → ¬ src <+: dst) : (ns v).Movable src dst := by
  obtain ⟨⟨n, hn, hkind⟩, hfree, rfl⟩ := h
  refine ⟨hfree, fun hne hle => ?_⟩
  by_cases hdir : directory = true
  · exact happart hdir hne hle
  · -- the file would lie below its old name, where there is nothing any more
    have hgone : (ns v).move src dst src = none := by
      rw [NameTree.move, if_neg, if_pos List.prefix_rfl]
      intro hback
      exact hne (hle.eq_of_length (le_antisymm hle.length_le hback.length_le))
    have hthere : (ns v).move src dst dst = some n := by
      rw [NameTree.move, if_pos List.prefix_rfl]
      simpa using hn
    rw [Function.update_self] at hclosed'
    rw [hclosed'.none_below hgone hle] at hthere
    cases hthere

end Moves

/-! ## Nodes stay where they are, or move along -/

section Nodes

variable {ns ns' : Forest} {k q src dst : List Bytes} {n m : Node} {w : Volume} {directory : Bool}

theorem Forest.Made.keeps (h : ns.Made v k n ns') (hq : ns w q = some m) : ns' w q = some m := by
  obtain ⟨hfree, rfl⟩ := h
  by_cases hw : w = v
  · subst hw
    have hne : q ≠ k := by
      rintro rfl
      rw [hfree] at hq
      cases hq
    simp [hne, hq]
  · simp [hw, hq]

theorem Forest.Removed.keeps (h : ns.Removed v k directory ns') (hq : ns w q = some m)
    (hne : ¬ (w = v ∧ q = k)) : ns' w q = some m := by
  obtain ⟨-, -, rfl⟩ := h
  by_cases hw : w = v
  · subst hw
    have : q ≠ k := fun heq => hne ⟨rfl, heq⟩
    simp [this, hq]
  · simp [hw, hq]

theorem Forest.Moved.follows (h : ns.Moved v src dst directory ns')
    (hmove : (ns v).Movable src dst) (hclosed : (ns v).Closed Node.IsDirectory)
    (hq : ns w q = some m) :
    ns' w (if w = v then NameTree.follow src dst q else q) = some m := by
  obtain ⟨-, -, rfl⟩ := h
  by_cases hw : w = v
  · subst hw
    simpa using NameTree.move_follow hclosed hmove hq
  · simp [hw, hq]

/-- Nothing lies below a file that moves. -/
theorem Forest.Moved.file_above (h : ns.Moved v src dst directory ns')
    (hclosed : (ns v).Closed Node.IsDirectory) (hfile : directory = false) (hw : w = v)
    (hq : ns w q = some m) (hle : src <+: q) : src = q ∧ ¬ m.IsDirectory := by
  subst hw
  obtain ⟨⟨n, hn, hkind⟩, -⟩ := h
  have hleaf : ¬ n.IsDirectory := by
    rw [hkind, hfile]
    exact Bool.false_ne_true
  by_cases heq : src = q
  · subst heq
    obtain rfl : n = m := Option.some.inj (hn.symm.trans hq)
    exact ⟨rfl, hleaf⟩
  · rw [hclosed.none_in_leaf hn hleaf hle heq] at hq
    cases hq

theorem follow_of_not {q : List Bytes} (h : ¬ src <+: q) : NameTree.follow src dst q = q := if_neg h

/-- What is not below the moved entry stays. -/
theorem Forest.Moved.keeps (h : ns.Moved v src dst directory ns')
    (hmove : (ns v).Movable src dst) (hclosed : (ns v).Closed Node.IsDirectory)
    (hq : ns w q = some m) (hout : w = v → ¬ src <+: q) : ns' w q = some m := by
  have hfollow := h.follows hmove hclosed hq
  by_cases hw : w = v
  · rwa [if_pos hw, follow_of_not (hout hw)] at hfollow
  · rwa [if_neg hw] at hfollow

end Nodes

/-- The paths of nodes that move are rewritten as the nodes move. -/
theorem key_migrate {rest src dst : List Bytes} {directory : Bool}
    (habove : directory = false → key src <+: key rest → key src = key rest) :
    key (migrate rest src dst directory) =
      NameTree.follow (key src) (key dst) (key rest) := by
  have hcond : (key rest = key src ∨ directory = true ∧ key src <+: key rest) ↔
      key src <+: key rest := by
    constructor
    · rintro (heq | ⟨-, hle⟩)
      · exact heq ▸ List.prefix_rfl
      · exact hle
    · intro hle
      cases directory with
      | true => exact .inr ⟨rfl, hle⟩
      | false => exact .inl (habove rfl hle).symm
  by_cases hle : key src <+: key rest
  · rw [migrate, NameTree.follow, if_pos (hcond.mpr hle), if_pos hle]
    simp [key]
  · rw [migrate, NameTree.follow, if_neg (mt hcond.mp hle), if_neg hle]

/-! ## Renames -/

section Renames

variable {s s' : State σ} {old new : Bytes} {src dst q : List Bytes} {directory : Bool}
  {w : Volume} {m : Node}

theorem Renaming.not_below (h : Renaming platform s v old new src dst directory) :
    directory = true → key src ≠ key dst → ¬ key src <+: key dst := by
  intro hdir hne hle
  have hother : pathsEqual old new = false := by
    by_contra heq
    have heq : pathsEqual old new = true := by simpa using heq
    exact hne ((h.source.pathsEqual_iff h.target).mp heq).2
  have hbelow := (h.target.pathHasPrefix_entry h.source).mpr ⟨rfl, hle⟩
  rw [h.apart hdir hother] at hbelow
  cases hbelow

theorem key_length (cs : List Bytes) : (key cs).length = cs.length := by simp [key]

theorem key_ne_nil {cs : List Bytes} (h : cs ≠ []) : key cs ≠ [] := by
  simpa [key] using h

/-- No entry lies above a backup. -/
theorem IsBackup.above {backup : Bytes} {aside : List Bytes}
    (h : IsBackup platform backup v aside) {cs : List Bytes} (hcs : cs ≠ [])
    (hle : key cs <+: key aside) : key cs = key aside := by
  apply hle.eq_of_length
  have hlen := hle.length_le
  rw [key_length, key_length, h.level] at hlen
  rw [key_length, key_length, h.level]
  have : cs.length ≠ 0 := by simpa using hcs
  omega

/-- What a rename of an entry to another name does to names, if it succeeds. -/
theorem FileX.Keeps.renamed (hN : X.Keeps names) {x : σ} (hsrc : IsLocal src) (hdst : IsLocal dst)
    (happart : directory = true → key src ≠ key dst → ¬ key src <+: key dst)
    (hok : (X.entryRename directory v (render src) (render dst) x).1 = .success) :
    (names x).Moved v (key src) (key dst) directory
        (names (X.entryRename directory v (render src) (render dst) x).2) ∧
      (names x v).Movable (key src) (key dst) := by
  have hmoved := hN.entryRename directory v src dst x hsrc hdst happart
  rw [if_pos hok] at hmoved
  exact ⟨hmoved, hmoved.movable (hN.closed _ _) (hN.closed _ _) happart⟩

theorem FileX.Keeps.deleted (hN : X.Keeps names) {fx : σ} (hrest : IsLocal rest)
    (directory : Bool) (hok : (X.entryDelete directory v (render rest) fx).1 = .success) :
    (names fx).Removed v (key rest) directory
      (names (X.entryDelete directory v (render rest) fx).2) := by
  have hdelete := hN.entryDelete directory v rest fx hrest
  rwa [if_pos hok] at hdelete

theorem FileX.Keeps.notDeleted (hN : X.Keeps names) {fx : σ} (hrest : IsLocal rest)
    (directory : Bool) (hfail : (X.entryDelete directory v (render rest) fx).1 ≠ .success) :
    names (X.entryDelete directory v (render rest) fx).2 = names fx := by
  have hdelete := hN.entryDelete directory v rest fx hrest
  rwa [if_neg hfail] at hdelete

theorem FileX.Keeps.notRenamed (hN : X.Keeps names) {fx : σ} (hsrc : IsLocal src)
    (hdst : IsLocal dst) (happart : directory = true → key src ≠ key dst → ¬ key src <+: key dst)
    (hfail : (X.entryRename directory v (render src) (render dst) fx).1 ≠ .success) :
    names (X.entryRename directory v (render src) (render dst) fx).2 = names fx := by
  have hmoved := hN.entryRename directory v src dst fx hsrc hdst happart
  rwa [if_neg hfail] at hmoved

/-- Whatever a rename does, a node either stays where it is, or moves along with the
    paths that the adapter keeps.  The destination is the exception if it is replaced. -/
theorem Replaced.keeps (hN : X.Keeps names)
    (hrename : Renaming platform s v old new src dst directory)
    (h : Replaced X platform s v old new src dst directory s') (hq : names s.fx w q = some m)
    (hout : Replacing s old new directory →
      (∃ n, names s.fx v (key dst) = some n ∧ (n.IsDirectory ↔ directory = true)) →
      w = v → ¬ key dst <+: q) :
    (∃ fx, s' = { s with fx := fx } ∧ names fx w q = some m) ∨
      ∃ fx, s' = migrated old new directory { s with fx := fx } ∧
        names fx w (if w = v then NameTree.follow (key src) (key dst) q else q) = some m ∧
        (directory = false → w = v → key src <+: q → key src = q ∧ ¬ m.IsDirectory) := by
  have hsrc := hrename.source.isLocal
  have hdst := hrename.target.isLocal
  have hbelow := hrename.not_below
  -- a backup can be made of the destination, and put back
  have haway : ∀ {backup aside}, IsBackup platform backup v aside → directory = true →
      key dst ≠ key aside → ¬ key dst <+: key aside :=
    fun haside _ hne hle => hne (haside.above hdst.ne_nil hle)
  cases h with
  | stayed hmove =>
      exact .inl ⟨_, rfl, by rw [hN.notRenamed hsrc hdst hbelow hmove]; exact hq⟩
  | moved hmove =>
      obtain ⟨hmoved, hmovable⟩ := hN.renamed hsrc hdst hbelow hmove
      exact .inr ⟨_, rfl, hmoved.follows hmovable (hN.closed _ _) hq,
        fun hfile hw hle => hmoved.file_above (hN.closed _ _) hfile hw hq hle⟩
  | notBackedUp hreplace haside hback =>
      refine .inl ⟨_, rfl, ?_⟩
      rw [hN.notRenamed hdst haside.entry.isLocal (haway haside) hback]
      exact hq
  | @putBack backup aside fx fx' hreplace haside hback hmove hfx =>
      refine .inl ⟨_, rfl, ?_⟩
      have hlocal := haside.entry.isLocal
      have hfirst := hN.renamed (x := s.fx) hdst hlocal (haway haside) (by rw [hback])
      rw [hback] at hfirst
      obtain ⟨hmoved, hmovable⟩ := hfirst
      have hkept : names fx w q = some m :=
        hmoved.keeps hmovable (hN.closed _ _) hq (hout hreplace hmoved.1)
      have hsame : names fx' = names fx := by
        rw [hfx]
        exact hN.notRenamed hsrc hdst hbelow hmove
      -- nothing lay at or below the backup before
      have hnot : ∀ {k}, names s.fx v k ≠ none → key dst ≠ key aside → ¬ key aside <+: k :=
        fun hk hne hle => hk ((hN.closed s.fx v).none_below (hmovable.free hne) hle)
      have hback' : directory = true → key aside ≠ key dst → ¬ key aside <+: key dst := by
        intro _ hne
        obtain ⟨⟨n, hn, -⟩, -⟩ := hmoved
        exact hnot (by rw [hn]; simp) (Ne.symm hne)
      by_cases hrestore : (X.entryRename directory v (render aside) (render dst) fx').1 = .success
      · obtain ⟨hmoved', hmovable'⟩ := hN.renamed hlocal hdst hback' hrestore
        refine hmoved'.keeps hmovable' (hN.closed _ _) (by rw [hsame]; exact hkept) fun hw => ?_
        subst hw
        by_cases heq : key dst = key aside
        · rw [← heq]
          exact hout hreplace hmoved.1 rfl
        · exact hnot (by rw [hq]; simp) heq
      · rw [hN.notRenamed hlocal hdst hback' hrestore, hsame]
        exact hkept
  | @replaced backup aside fx fx' hreplace haside hback hmove =>
      refine .inr ⟨_, rfl, ?_⟩
      have hlocal := haside.entry.isLocal
      have hfirst := hN.renamed (x := s.fx) hdst hlocal (haway haside) (by rw [hback])
      rw [hback] at hfirst
      obtain ⟨hmoved, hmovable⟩ := hfirst
      have hkept : names fx w q = some m :=
        hmoved.keeps hmovable (hN.closed _ _) hq (hout hreplace hmoved.1)
      have hsecond := hN.renamed (x := fx) hsrc hdst hbelow (by rw [hmove])
      rw [hmove] at hsecond
      obtain ⟨hmoved', hmovable'⟩ := hsecond
      have hfollowed := hmoved'.follows hmovable' (hN.closed _ _) hkept
      have hother : key src ≠ key dst := by
        intro heq
        have := (hrename.source.pathsEqual_iff hrename.target).mpr ⟨rfl, heq⟩
        rw [hreplace.other] at this
        cases this
      -- the destination has left its name, so that is not the backup's
      have hmoved_away : key dst ≠ key aside := by
        intro heq
        obtain ⟨⟨n, hn, -⟩, -, hns⟩ := hmoved
        have hstill : names fx v (key dst) = some n := by
          rw [hns, Function.update_self, ← heq, NameTree.move_self]
          exact hn
        rw [hmovable'.free hother] at hstill
        cases hstill
      refine ⟨?_, fun hfile hw hle => hmoved'.file_above (hN.closed _ _) hfile hw hkept hle⟩
      by_cases hdelete : (X.entryDelete directory v (render aside) fx').1 = .success
      · refine (hN.deleted hlocal directory hdelete).keeps hfollowed ?_
        rintro ⟨hw, heq⟩
        subst hw
        rw [if_pos rfl, NameTree.follow] at heq
        split at heq
        · have hle : key dst <+: key aside := heq ▸ List.prefix_append _ _
          exact hmoved_away (haside.above hdst.ne_nil hle)
        · rw [heq, hmovable.free hmoved_away] at hq
          cases hq
      · rw [hN.notDeleted hlocal directory hdelete]
        exact hfollowed

end Renames

/-! ## Transitions -/

section Transitions

variable {s s' : State σ} {q : List Bytes} {w : Volume} {m : Node}

/-- The paths that the adapter keeps are the same. -/
structure SamePaths (s s' : State σ) : Prop where
  current : s'.currentDirectory = s.currentDirectory
  descriptor : ∀ b, (s.descriptors b).allocated = true → (s'.descriptors b).allocated = true →
    (s'.descriptors b).path = (s.descriptors b).path

theorem SamePaths.of_eq (hc : s'.currentDirectory = s.currentDirectory)
    (hd : s'.descriptors = s.descriptors) : SamePaths s s' :=
  ⟨hc, fun b _ _ => by rw [hd]⟩

theorem SamePaths.update {b : Block} {d : Descriptor}
    (hc : s'.currentDirectory = s.currentDirectory)
    (hd : s'.descriptors = Function.update s.descriptors b d)
    (hb : (s.descriptors b).allocated = true → d.allocated = true →
      d.path = (s.descriptors b).path) : SamePaths s s' := by
  refine ⟨hc, fun c halloc halloc' => ?_⟩
  rw [hd] at halloc' ⊢
  by_cases hcb : c = b
  · subst hcb
    rw [Function.update_self] at halloc' ⊢
    exact hb halloc halloc'
  · rw [Function.update_of_ne hcb]

/-- What keeps a node from being taken away. -/
structure Protected (X : FileX σ) (names : σ → Forest) (platform : Platform) (may : May σ)
    (s : State σ) (w : Volume) (q : List Bytes) : Prop where
  unlinked : ∀ name v rest, Entry platform name v rest → may.unlink s name →
    (X.fileDelete v (render rest) s.fx).1 = .success → ¬ (w = v ∧ q = key rest)
  removed : ∀ name v rest, Entry platform name v rest →
    pathHasPrefix s.currentDirectory name true = false →
    (X.directoryDelete v (render rest) s.fx).1 = .success → ¬ (w = v ∧ q = key rest)
  replaced : ∀ v old new src dst directory, Renaming platform s v old new src dst directory →
    Replacing s old new directory →
    (∃ n, names s.fx v (key dst) = some n ∧ (n.IsDirectory ↔ directory = true)) →
    w = v → ¬ key dst <+: q

theorem data_beforeOpen (hN : X.Keeps names) (b : Block) (v : Volume) (mode : OpenMode) :
    names (beforeOpen X s b v mode) = names s.fx := by
  have hclear : names (X.clear b s.fx) = names s.fx := hN.data _ _ (.clear b s.fx)
  rw [beforeOpen]
  split
  · rw [hN.data _ _ (.quiet (.flush v _)), hclear]
  · exact hclear

theorem data_closed (hN : X.Keeps names) (b : Block) : names (closed X s b) = names s.fx := by
  rw [closed]
  split
  · rfl
  · exact hN.data _ _ (.fileClose b s.fx)

/-- A protected node stays where it is, or moves along with the paths in a rename. -/
theorem Act.keeps (hN : X.Keeps names) (hact : Act X platform may s s')
    (hq : names s.fx w q = some m) (hprot : Protected X names platform may s w q) :
    (SamePaths s s' ∧ names s'.fx w q = some m) ∨
      ∃ v old new src dst directory fx, Renaming platform s v old new src dst directory ∧
        s' = migrated old new directory { s with fx := fx } ∧
        names fx w (if w = v then NameTree.follow (key src) (key dst) q else q) = some m ∧
        (directory = false → w = v → key src <+: q → key src = q ∧ ¬ m.IsDirectory) := by
  -- calls that do not change names
  have hdata : ∀ {fx}, names fx = names s.fx → names fx w q = some m := by
    intro fx heq
    rw [heq]
    exact hq
  cases hact with
  | quiet h => exact .inl ⟨.of_eq rfl rfl, hdata (hN.data _ _ (.quiet h))⟩
  | sequence _ => exact .inl ⟨.of_eq rfl rfl, hq⟩
  | @created name v rest b flags hentry hfree _ hcreate =>
      refine .inl ⟨.update rfl rfl ?_, ?_⟩
      · intro halloc
        rw [freeDescriptor_free hfree] at halloc
        cases halloc
      · have hmade := hN.fileCreate v rest s.fx hentry.isLocal
        rw [if_pos hcreate] at hmade
        obtain ⟨id, hmade⟩ := hmade
        show names (X.clear b _) w q = some m
        rw [hN.data _ _ (.clear b _)]
        exact hmade.keeps hq
  | @notCreated name v rest hentry hcreate =>
      have hsame := hN.fileCreate v rest s.fx hentry.isLocal
      rw [if_neg hcreate] at hsame
      exact .inl ⟨.of_eq rfl rfl, hdata hsame⟩
  | @found name v rest b info flags hentry hfree _ hinfo hfile =>
      refine .inl ⟨.update rfl rfl ?_, ?_⟩
      · intro halloc
        rw [freeDescriptor_free hfree] at halloc
        cases halloc
      · show names (X.clear b _) w q = some m
        rw [hN.data _ _ (.clear b _), hN.data _ _ (.quiet (.information v _ _))]
        exact hq
  | closedForSwitch _ =>
      exact .inl ⟨.update rfl rfl fun _ _ => rfl, hdata (hN.data _ _ (.fileClose _ _))⟩
  | cleared _ _ => exact .inl ⟨.of_eq rfl rfl, hdata (hN.data _ _ (.clear _ _))⟩
  | reopened _ _ _ _ _ =>
      exact .inl ⟨.update rfl rfl fun _ _ => rfl,
        hdata ((hN.data _ _ (.fileOpen _ _ _ _ _)).trans (data_beforeOpen hN _ _ _))⟩
  | notReopened _ _ _ _ =>
      exact .inl ⟨.of_eq rfl rfl,
        hdata ((hN.data _ _ (.fileOpen _ _ _ _ _)).trans (data_beforeOpen hN _ _ _))⟩
  | sought _ _ => exact .inl ⟨.of_eq rfl rfl, hdata (hN.data _ _ (.seek _ _ _))⟩
  | read _ _ => exact .inl ⟨.of_eq rfl rfl, hdata (hN.data _ _ (.fileRead _ _ _))⟩
  | written _ _ => exact .inl ⟨.of_eq rfl rfl, hdata (hN.data _ _ (.fileWrite _ _ _))⟩
  | truncated _ _ => exact .inl ⟨.of_eq rfl rfl, hdata (hN.data _ _ (.truncate _ _ _))⟩
  | positioned _ _ => exact .inl ⟨.update rfl rfl fun _ _ => rfl, hq⟩
  | @released b fx halloc hflush =>
      refine .inl ⟨.update rfl rfl (fun _ hno => by cases hno), ?_⟩
      show names (X.clear b _) w q = some m
      rw [hN.data _ _ (.clear b _)]
      apply hdata
      rcases hflush with rfl | ⟨v, rfl, -⟩
      · exact data_closed hN b
      · exact (hN.data _ _ (.quiet (.flush v _))).trans (data_closed hN b)
  | @unlinked name v rest hentry hmay =>
      refine .inl ⟨.of_eq rfl rfl, ?_⟩
      by_cases hok : (X.entryDelete false v (render rest) s.fx).1 = .success
      · exact (hN.deleted hentry.isLocal false hok).keeps hq (hprot.unlinked name v rest hentry hmay hok)
      · exact hdata (hN.notDeleted hentry.isLocal false hok)
  | @madeDirectory name v rest hentry =>
      refine .inl ⟨.of_eq rfl rfl, ?_⟩
      have hmade := hN.directoryCreate v rest s.fx hentry.isLocal
      split at hmade
      · obtain ⟨id, hmade⟩ := hmade
        exact hmade.keeps hq
      · exact hdata hmade
  | @removedDirectory name v rest hentry hcurrent =>
      refine .inl ⟨.of_eq rfl rfl, ?_⟩
      by_cases hok : (X.entryDelete true v (render rest) s.fx).1 = .success
      · exact (hN.deleted hentry.isLocal true hok).keeps hq (hprot.removed name v rest hentry hcurrent hok)
      · exact hdata (hN.notDeleted hentry.isLocal true hok)
  | dated _ _ => exact .inl ⟨.of_eq rfl rfl, hdata (hN.data _ _ (.dateTimeSet _ _ _ _))⟩
  | datedHandle _ _ _ =>
      exact .inl ⟨.of_eq rfl rfl, hdata (hN.data _ _ (.setEntryDateTime _ _ _ _))⟩
  | @renamed s' v old new src dst directory hrename hreplaced =>
      rcases hreplaced.keeps hN hrename hq (hprot.replaced v old new src dst directory hrename)
        with ⟨fx, rfl, hkept⟩ | ⟨fx, rfl, hkept, habove⟩
      · exact .inl ⟨.of_eq rfl rfl, hkept⟩
      · exact .inr ⟨v, old, new, src, dst, directory, fx, hrename, rfl, hkept, habove⟩

end Transitions

end Libc
end NucleoBase
