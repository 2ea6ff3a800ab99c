/-
  NucleoBase.Libc.OpenFiles

  What FileX documents of its handles and of the bytes of its files: a handle
  is on the file that it was opened on, has an offset within it, and reads and
  writes there.  A volume with a single file is an instance of it all.
-/

import NucleoBase.Lib.ByteFile
import NucleoBase.Libc.Forest
import NucleoBase.Libc.Handles

namespace NucleoBase
namespace Libc

open Lib Lib.Program

variable {σ : Type}

/-! ## Handles and files -/

/-- The calls that leave every handle on its file. -/
inductive FileX.Passes (X : FileX σ) : σ → σ → Prop
  | quiet {fx fx' : σ} (h : Quiet X fx fx') : X.Passes fx fx'
  | fileRead (b : Block) (n : Nat) (fx : σ) : X.Passes fx (X.fileRead b n fx).2
  | fileWrite (b : Block) (bytes : Bytes) (fx : σ) : X.Passes fx (X.fileWrite b bytes fx).2
  | seek (b : Block) (n : Nat) (fx : σ) : X.Passes fx (X.fileExtendedSeek b n fx).2
  | truncate (b : Block) (n : Nat) (fx : σ) :
      X.Passes fx (X.fileExtendedTruncateRelease b n fx).2
  | fileCreate (v : Volume) (p : Bytes) (fx : σ) : X.Passes fx (X.fileCreate v p fx).2
  | directoryCreate (v : Volume) (p : Bytes) (fx : σ) : X.Passes fx (X.directoryCreate v p fx).2
  | entryDelete (directory : Bool) (v : Volume) (p : Bytes) (fx : σ) :
      X.Passes fx (X.entryDelete directory v p fx).2
  | entryRename (directory : Bool) (v : Volume) (p q : Bytes) (fx : σ) :
      X.Passes fx (X.entryRename directory v p q fx).2
  | dateTimeSet (v : Volume) (p : Bytes) (stamp : Stamp) (fx : σ) :
      X.Passes fx (X.fileDateTimeSet v p stamp fx).2
  | setEntryDateTime (b : Block) (date time : Nat) (fx : σ) :
      X.Passes fx (X.setEntryDateTime b date time fx)

/-- FileX opens the file that a name leads to, and deletes no file that is open. -/
structure FileX.Opens (X : FileX σ) (names : σ → Forest)
    (handle : σ → Block → Option (Volume × Node)) : Prop where
  passes : ∀ fx fx', X.Passes fx fx' → handle fx' = handle fx
  fileOpen : ∀ v b rest mode fx, IsLocal rest →
    (X.fileOpen v b (render rest) mode fx).1 = .success →
    ∃ n, names fx v (key rest) = some n ∧ ¬ n.IsDirectory ∧
      handle (X.fileOpen v b (render rest) mode fx).2 b = some (v, n)
  others_open : ∀ v b p mode fx c, c ≠ b → handle (X.fileOpen v b p mode fx).2 c = handle fx c
  others_close : ∀ b fx c, c ≠ b → handle (X.fileClose b fx).2 c = handle fx c
  others_clear : ∀ b fx c, c ≠ b → handle (X.clear b fx) c = handle fx c
  fileDelete : ∀ v rest fx n, IsLocal rest → (X.fileDelete v (render rest) fx).1 = .success →
    names fx v (key rest) = some n → ∀ b, handle fx b ≠ some (v, n)

/-! ## Bytes -/

/-- An open handle: its file, its mode, and its offset. -/
structure FileView where
  node : Volume × Node
  mode : OpenMode
  offset : Nat
  deriving DecidableEq

/-- No other handle is on the file of a handle. -/
def Sole (view : Block → Option FileView) (b : Block) (node : Volume × Node) : Prop :=
  ∀ c, c ≠ b → ∀ h, view c = some h → h.node ≠ node

/-- FileX keeps the handles and the bytes that two functions of its state tell. -/
structure FileX.Stores (X : FileX σ) (names : σ → Forest) (view : σ → Block → Option FileView)
    (content : σ → Volume × Node → Bytes) : Prop where
  open_content : ∀ v b p mode fx, content (X.fileOpen v b p mode fx).2 = content fx
  close_content : ∀ b fx, content (X.fileClose b fx).2 = content fx
  clear_content : ∀ b fx, content (X.clear b fx) = content fx
  seek_content : ∀ b n fx, content (X.fileExtendedSeek b n fx).2 = content fx
  read_content : ∀ b n fx, content (X.fileRead b n fx).2 = content fx
  flush_content : ∀ v fx, content (X.mediaFlush v fx).2 = content fx
  fileOpen : ∀ v b rest mode fx, IsLocal rest →
    (X.fileOpen v b (render rest) mode fx).1 = .success →
    ∃ n, names fx v (key rest) = some n ∧ view (X.fileOpen v b (render rest) mode fx).2 =
      Function.update (view fx) b (some ⟨(v, n), mode, 0⟩)
  fileClose : ∀ b fx, (X.fileClose b fx).1 = .success →
    view (X.fileClose b fx).2 = Function.update (view fx) b none
  clear : ∀ b fx, view (X.clear b fx) = Function.update (view fx) b none
  /-- A seek past the end goes to the end. -/
  seek : ∀ b n fx h, view fx b = some h → (X.fileExtendedSeek b n fx).1 = .success →
    view (X.fileExtendedSeek b n fx).2 =
      Function.update (view fx) b (some { h with offset := min n (content fx h.node).length })
  fileRead : ∀ b n fx h, view fx b = some h → h.mode = .forRead →
    (X.fileRead b n fx).1.1 = .success ∨ (X.fileRead b n fx).1.1 = .endOfFile →
    (X.fileRead b n fx).1.2 = ((content fx h.node).drop h.offset).take n ∧
    view (X.fileRead b n fx).2 = Function.update (view fx) b
      (some { h with offset := h.offset + (((content fx h.node).drop h.offset).take n).length })
  fileWrite : ∀ b bytes fx h, view fx b = some h → h.mode = .forWrite →
    (X.fileWrite b bytes fx).1 = .success →
    content (X.fileWrite b bytes fx).2 = Function.update (content fx) h.node
      (overwrite (content fx h.node) h.offset bytes) ∧
    view (X.fileWrite b bytes fx).2 =
      Function.update (view fx) b (some { h with offset := h.offset + bytes.length })
  /-- A write that fails has written nothing. -/
  notWritten : ∀ b bytes fx, (X.fileWrite b bytes fx).1 ≠ .success →
    content (X.fileWrite b bytes fx).2 = content fx ∧ view (X.fileWrite b bytes fx).2 = view fx
  truncate : ∀ b n fx h, view fx b = some h → h.mode = .forWrite → n ≤ (content fx h.node).length →
    (X.fileExtendedTruncateRelease b n fx).1 = .success →
    content (X.fileExtendedTruncateRelease b n fx).2 =
      Function.update (content fx) h.node ((content fx h.node).take n) ∧
    view (X.fileExtendedTruncateRelease b n fx).2 =
      Function.update (view fx) b (some { h with offset := min h.offset n })
  notTruncated : ∀ b n fx, (X.fileExtendedTruncateRelease b n fx).1 ≠ .success →
    content (X.fileExtendedTruncateRelease b n fx).2 = content fx
  /-- Two handles of one file may differ on its size. -/
  size : ∀ fx b h, view fx b = some h → Sole (view fx) b h.node →
    X.currentFileSize fx b = (content fx h.node).length
  offset : ∀ fx b h, view fx b = some h → X.currentFileOffset fx b = h.offset

/-! ## A volume with one file -/

/-- The only name of the volume is `"/A"`; no number is used for two files. -/
structure SmallVolume where
  file : Option (Nat × Bytes)
  next : Nat
  room : Nat
  handles : Block → Option FileView

namespace SmallVolume

def node (id : Nat) : Volume × Node := (.flash, .file id)

def content (fx : SmallVolume) (n : Volume × Node) : Bytes :=
  match fx.file with
  | none => []
  | some (id, bytes) => if n = node id then bytes else []

def IsName (v : Volume) (p : Bytes) : Prop := v = .flash ∧ pathsEqual p [slash, 65] = true

instance (v : Volume) (p : Bytes) : Decidable (IsName v p) := inferInstanceAs (Decidable (_ ∧ _))

def names (fx : SmallVolume) : Forest := fun v k =>
  if k = [] then some (.directory 0)
  else if v = .flash ∧ k = [[65]] then fx.file.map fun f => .file f.1
  else none

/-- Some handle writes to a file. -/
def Writes (fx : SmallVolume) (n : Volume × Node) : Prop :=
  ∃ c, (fx.handles c).map (fun h => (h.node, h.mode)) = some (n, .forWrite)

instance (fx : SmallVolume) (n : Volume × Node) : Decidable (fx.Writes n) :=
  inferInstanceAs (Decidable (∃ _, _))

def setHandle (fx : SmallVolume) (b : Block) (h : Option FileView) : SmallVolume :=
  { fx with handles := Function.update fx.handles b h }

/-- What a handle open for write makes of its file. -/
def change (b : Block) (f : FileView → Bytes → Bytes × Nat) (fx : SmallVolume) :
    Status × SmallVolume :=
  match fx.handles b, fx.file with
  | some h, some (id, bytes) =>
      if h.node = node id ∧ h.mode = .forWrite then
        if fx.room < (f h bytes).1.length then (.noMoreSpace, fx)
        else (.success, { fx.setHandle b (some { h with offset := (f h bytes).2 }) with
          file := some (id, (f h bytes).1) })
      else (.accessError, fx)
  | _, _ => (.notOpen, fx)

end SmallVolume

open SmallVolume in
def smallVolume : FileX SmallVolume where
  fileOpen v b p mode fx :=
    match fx.file with
    | none => (.notFound, fx)
    | some (id, _) =>
        if IsName v p then
          -- one writer at a time
          if mode = .forWrite ∧ fx.Writes (node id) then (.accessError, fx)
          else (.success, fx.setHandle b (some ⟨node id, mode, 0⟩))
        else (.notFound, fx)
  fileClose b fx := (.success, fx.setHandle b none)
  fileRead b n fx :=
    match fx.handles b with
    | none => ((.notOpen, []), fx)
    | some h =>
        let bytes := ((fx.content h.node).drop h.offset).take n
        ((if bytes = [] then .endOfFile else .success, bytes),
          fx.setHandle b (some { h with offset := h.offset + bytes.length }))
  fileWrite b bytes :=
    change b fun h old => (overwrite old h.offset bytes, h.offset + bytes.length)
  fileExtendedSeek b n fx :=
    match fx.handles b with
    | none => (.notOpen, fx)
    | some h =>
        (.success, fx.setHandle b (some { h with offset := min n (fx.content h.node).length }))
  fileExtendedTruncateRelease b n := change b fun h old => (old.take n, min h.offset n)
  fileCreate v p fx :=
    if IsName v p then
      match fx.file with
      | some _ => (.alreadyCreated, fx)
      | none => (.success, { fx with file := some (fx.next, []), next := fx.next + 1 })
    else (.writeProtect, fx)
  fileDelete v p fx :=
    if IsName v p ∧ fx.file ≠ none then
      if ∃ b, fx.handles b ≠ none then (.accessError, fx) else (.success, { fx with file := none })
    else (.notFound, fx)
  fileRename _ _ _ fx := (.writeProtect, fx)
  fileDateTimeSet _ _ _ fx := (.writeProtect, fx)
  directoryCreate _ _ fx := (.writeProtect, fx)
  directoryDelete _ _ fx := (.writeProtect, fx)
  directoryRename _ _ _ fx := (.writeProtect, fx)
  directoryInformationGet v p fx :=
    match fx.file with
    | none => ((.notFound, .empty), fx)
    | some (_, bytes) =>
        if IsName v p then ((.success, { EntryInformation.empty with size := bytes.length }), fx)
        else ((.notFound, .empty), fx)
  directoryDefaultSet _ _ fx := (.success, fx)
  directoryFirstFullEntryFind _ fx := ((.noMoreEntries, []), fx)
  directoryNextFullEntryFind _ fx := ((.noMoreEntries, []), fx)
  mediaFlush _ fx := (.success, fx)
  currentFileSize fx b :=
    match fx.handles b with
    | none => 0
    | some h => (fx.content h.node).length
  currentFileOffset fx b :=
    match fx.handles b with
    | none => 0
    | some h => h.offset
  clear b fx := fx.setHandle b none
  setEntryDateTime _ _ _ fx := fx

namespace SmallVolume

variable {fx : SmallVolume} {b : Block} {v : Volume} {rest : List Bytes}

theorem isName_iff (h : IsLocal rest) : IsName v (render rest) ↔ v = .flash ∧ key rest = [[65]] := by
  have hcomponent : ∀ c ∈ [[(65 : UInt8)]], IsComponent c := by
    intro c hc
    rcases List.mem_singleton.mp hc with rfl
    exact ⟨by decide, by decide, by decide, by decide +kernel⟩
  have hiff := pathsEqual_render h.components hcomponent h.ne_nil (List.cons_ne_nil _ _)
  exact and_congr_right fun _ => hiff

@[simp]
theorem content_setHandle (h : Option FileView) : (fx.setHandle b h).content = fx.content := rfl

@[simp]
theorem names_setHandle (h : Option FileView) : names (fx.setHandle b h) = names fx := rfl

/-- What a change comes to. -/
theorem change_cases (b : Block) (f : FileView → Bytes → Bytes × Nat) (fx : SmallVolume) :
    ((change b f fx).1 ≠ .success ∧ (change b f fx).2 = fx) ∨
    ∃ h id bytes, fx.handles b = some h ∧ fx.file = some (id, bytes) ∧ h.node = node id ∧
      h.mode = .forWrite ∧ change b f fx = (.success,
        { fx.setHandle b (some { h with offset := (f h bytes).2 }) with
          file := some (id, (f h bytes).1) }) := by
  unfold change
  split
  · rename_i h id bytes hh hfile
    split
    · rename_i hopen
      split
      · exact .inl ⟨Status.noConfusion, rfl⟩
      · exact .inr ⟨h, id, bytes, hh, hfile, hopen.1, hopen.2, rfl⟩
    · exact .inl ⟨Status.noConfusion, rfl⟩
  · exact .inl ⟨Status.noConfusion, rfl⟩

theorem change_plain (b : Block) (f : FileView → Bytes → Bytes × Nat) :
    (change b f fx).1.Plain := by
  intro h
  unfold change at h ⊢
  split at h
  · split at h
    · split at h
      · cases h
      · rename_i hopen hroom
        rw [if_pos hopen, if_neg hroom]
    · cases h
  · cases h

theorem names_change (b : Block) (f : FileView → Bytes → Bytes × Nat) :
    names (change b f fx).2 = names fx := by
  rcases change_cases b f fx with ⟨-, hsame⟩ | ⟨h, id, bytes, -, hfile, -, -, heq⟩
  · rw [hsame]
  · rw [heq]
    funext v k
    simp [names, hfile]

theorem change_stores {b : Block} {f : FileView → Bytes → Bytes × Nat} {h : FileView}
    (hh : fx.handles b = some h) (hok : (change b f fx).1 = .success) :
    (change b f fx).2.content =
      Function.update fx.content h.node (f h (fx.content h.node)).1 ∧
    (change b f fx).2.handles =
      Function.update fx.handles b (some { h with offset := (f h (fx.content h.node)).2 }) := by
  rcases change_cases b f fx with ⟨hno, -⟩ | ⟨h', id, bytes, hh', hfile, hnode, -, heq⟩
  · exact absurd hok hno
  · rw [hh] at hh'
    obtain rfl := Option.some.inj hh'
    have hbytes : fx.content h.node = bytes := by simp [content, hfile, hnode]
    rw [heq, hbytes]
    refine ⟨?_, rfl⟩
    funext n
    by_cases hn : n = node id
    · simp [content, hn, hnode]
    · simp [content, hn, hnode, hfile]

end SmallVolume

open SmallVolume

theorem smallVolume_documented : smallVolume.Documented where
  fileOpen v b p mode fx := by
    intro h
    simp only [smallVolume] at h ⊢
    split at h
    · cases h
    · split at h
      · split at h
        · cases h
        · rename_i hname hfree
          rw [if_pos hname, if_neg hfree]
      · cases h
  fileClose _ _ := fun _ => rfl
  fileWrite b bytes _ := change_plain b _
  fileExtendedSeek b n fx := by
    intro h
    simp only [smallVolume] at h ⊢
    split at h
    · cases h
    · rfl
  fileExtendedTruncateRelease b n _ := change_plain b _
  fileCreate v p fx := by
    intro h
    simp only [smallVolume] at h ⊢
    split at h
    · rename_i hname
      rw [if_pos hname]
      split at h
      · cases h
      · rfl
    · cases h
  fileDelete v p fx := by
    intro h
    simp only [smallVolume] at h ⊢
    split at h
    · rename_i hname
      rw [if_pos hname]
      split at h
      · cases h
      · rename_i hfree
        rw [if_neg hfree]
    · cases h
  fileRename _ _ _ _ := by intro h; cases h
  fileDateTimeSet _ _ _ _ := by intro h; cases h
  directoryCreate _ _ _ := by intro h; cases h
  directoryDelete _ _ _ := by intro h; cases h
  directoryRename _ _ _ _ := by intro h; cases h
  directoryInformationGet v p fx := by
    intro h
    simp only [smallVolume] at h ⊢
    split at h
    · cases h
    · split at h
      · rename_i hname
        rw [if_pos hname]
      · cases h
  directoryDefaultSet _ _ _ := fun _ => rfl
  mediaFlush _ _ := fun _ => rfl

theorem smallVolume_keeps : smallVolume.Keeps names where
  closed fx v := by
    constructor
    · exact ⟨.directory 0, rfl, trivial⟩
    · intro p c n h
      have hp : p = [] := by
        by_contra hne
        have hlong : p ++ [c] ≠ [[65]] := by
          intro heq
          have hlen := congrArg List.length heq
          simp at hlen
          exact hne hlen
        simp [names, hlong] at h
      subst hp
      exact ⟨.directory 0, rfl, trivial⟩
  data fx fx' h := by
    cases h with
    | quiet h =>
        cases h with
        | information v p fx =>
            simp only [smallVolume]
            split
            · rfl
            · split <;> rfl
        | _ => rfl
    | fileOpen v b p mode fx =>
        simp only [smallVolume]
        split
        · rfl
        · split
          · split <;> rfl
          · rfl
    | fileRead b n fx =>
        simp only [smallVolume]
        split <;> rfl
    | fileWrite b bytes fx => exact names_change b _
    | seek b n fx =>
        simp only [smallVolume]
        split <;> rfl
    | truncate b n fx => exact names_change b _
    | _ => rfl
  fileCreate v rest fx hlocal := by
    by_cases hn : IsName v (render rest)
    · obtain ⟨rfl, hkey⟩ := (isName_iff hlocal).mp hn
      cases hfile : fx.file with
      | some f =>
          have hcall : smallVolume.fileCreate .flash (render rest) fx = (.alreadyCreated, fx) := by
            simp only [smallVolume, if_pos hn, hfile]
          rw [hcall, if_neg Status.noConfusion]
      | none =>
          have hcall : smallVolume.fileCreate .flash (render rest) fx =
              (.success, { fx with file := some (fx.next, []), next := fx.next + 1 }) := by
            simp only [smallVolume, if_pos hn, hfile]
          rw [hcall, if_pos rfl]
          refine ⟨fx.next, by simp [names, hkey, hfile], ?_⟩
          funext w k
          by_cases hw : w = .flash
          · subst hw
            by_cases hk : k = key rest
            · simp [names, hk, hkey]
            · simp only [Function.update_self, Function.update_of_ne hk]
              rw [hkey] at hk
              simp [names, hk]
          · simp [names, hw]
    · have hcall : smallVolume.fileCreate v (render rest) fx = (.writeProtect, fx) := by
        simp only [smallVolume, if_neg hn]
      rw [hcall, if_neg Status.noConfusion]
  directoryCreate _ _ _ _ := rfl
  entryDelete directory v rest fx hlocal := by
    cases directory with
    | true => rfl
    | false =>
        have hname := isName_iff (v := v) hlocal
        show if (smallVolume.fileDelete v (render rest) fx).1 = .success then
            (names fx).Removed v (key rest) false
              (names (smallVolume.fileDelete v (render rest) fx).2)
          else names (smallVolume.fileDelete v (render rest) fx).2 = names fx
        by_cases hfound : IsName v (render rest) ∧ fx.file ≠ none
        · obtain ⟨rfl, hkey⟩ := hname.mp hfound.1
          by_cases hheld : ∃ b, fx.handles b ≠ none
          · have hcall : smallVolume.fileDelete .flash (render rest) fx = (.accessError, fx) := by
              simp only [smallVolume]
              rw [if_pos hfound, if_pos hheld]
            rw [hcall, if_neg Status.noConfusion]
          · have hcall : smallVolume.fileDelete .flash (render rest) fx =
                (.success, { fx with file := none }) := by
              simp only [smallVolume]
              rw [if_pos hfound, if_neg hheld]
            rw [hcall, if_pos rfl]
            obtain ⟨f, hf⟩ := Option.ne_none_iff_exists'.mp hfound.2
            refine ⟨⟨.file f.1, ?_, ?_⟩, ?_, ?_⟩
            · simp [names, hkey, hf]
            · simp [Node.IsDirectory]
            · intro q hle hne
              have hq : q ≠ [[65]] := fun heq => hne (hkey.trans heq.symm)
              have hnil : q ≠ [] := by
                rintro rfl
                rw [hkey] at hle
                exact List.cons_ne_nil _ _ (List.prefix_nil.mp hle)
              simp [names, hq, hnil]
            · funext w k
              by_cases hw : w = .flash
              · subst hw
                by_cases hk : k = key rest
                · simp [names, hk, hkey]
                · simp only [Function.update_self, Function.update_of_ne hk]
                  rw [hkey] at hk
                  simp [names, hk]
              · simp [names, hw]
        · have hcall : smallVolume.fileDelete v (render rest) fx = (.notFound, fx) := by
            simp only [smallVolume]
            rw [if_neg hfound]
          rw [hcall, if_neg Status.noConfusion]
  entryRename directory _ _ _ _ _ _ _ := by cases directory <;> rfl
  found v rest fx info hlocal h := by
    simp only [smallVolume] at h
    split at h
    · cases h
    · rename_i id bytes hfile
      split at h
      · rename_i hn
        obtain ⟨rfl, hkey⟩ := (isName_iff hlocal).mp hn
        cases h
        exact ⟨.file id, by simp [names, hkey, hfile],
          by simp [Node.IsDirectory, EntryInformation.empty]⟩
      · cases h
  notFound v rest fx hlocal h := by
    have hname := isName_iff (v := v) hlocal
    simp only [smallVolume] at h
    split at h
    · rename_i hnone
      simp [names, key_ne_nil hlocal.ne_nil, hnone]
    · split at h
      · cases h
      · rename_i hn
        have hkey : ¬ (v = .flash ∧ key rest = [[65]]) := fun heq => hn (hname.mpr heq)
        simp only [names, if_neg (key_ne_nil hlocal.ne_nil), if_neg hkey]

/-- The files of its handles. -/
def SmallVolume.held (fx : SmallVolume) (b : Block) : Option (Volume × Node) :=
  (fx.handles b).map FileView.node

theorem smallVolume_stores :
    smallVolume.Stores names SmallVolume.handles SmallVolume.content where
  open_content v b p mode fx := by
    simp only [smallVolume]
    split
    · rfl
    · split
      · split <;> rfl
      · rfl
  close_content _ _ := rfl
  clear_content _ _ := rfl
  seek_content b n fx := by
    simp only [smallVolume]
    split <;> rfl
  read_content b n fx := by
    simp only [smallVolume]
    split <;> rfl
  flush_content _ _ := rfl
  fileOpen v b rest mode fx hlocal h := by
    simp only [smallVolume] at h ⊢
    split at h
    · cases h
    · rename_i id bytes hfile
      split at h
      · rename_i hn
        rw [if_pos hn]
        obtain ⟨rfl, hkey⟩ := (isName_iff hlocal).mp hn
        split at h
        · cases h
        · rename_i hfree
          rw [if_neg hfree]
          exact ⟨.file id, by simp [names, hkey, hfile], rfl⟩
      · cases h
  fileClose _ _ _ := rfl
  clear _ _ := rfl
  seek b n fx h hh _ := by simp [smallVolume, hh, setHandle]
  fileRead b n fx h hh _ _ := by simp [smallVolume, hh, setHandle]
  fileWrite b bytes fx h hh _ hok := change_stores hh hok
  notWritten b bytes fx hno := by
    rcases change_cases b (fun h old => (overwrite old h.offset bytes, h.offset + bytes.length)) fx
      with ⟨-, hsame⟩ | ⟨h, id, old, -, -, -, -, heq⟩
    · exact ⟨congrArg content hsame, congrArg handles hsame⟩
    · exact absurd (congrArg Prod.fst heq) hno
  truncate b n fx h hh _ _ hok := change_stores hh hok
  notTruncated b n fx hno := by
    rcases change_cases b (fun h old => (old.take n, min h.offset n)) fx
      with ⟨-, hsame⟩ | ⟨h, id, old, -, -, -, -, heq⟩
    · exact congrArg content hsame
    · exact absurd (congrArg Prod.fst heq) hno
  size fx b h hh _ := by simp [smallVolume, hh]
  offset fx b h hh := by simp [smallVolume, hh]

end Libc
end NucleoBase
