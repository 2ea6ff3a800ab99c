/-
  NucleoBase.Libc.FileData

  The bytes and the offset of one open file, through the mode switches that its
  descriptor's handle goes through.  `Rep` says that the descriptor and FileX
  hold an open file between them; where a call of FileX fails, `Kept` says what
  is left of it.
-/

import NucleoBase.Lib.Total
import NucleoBase.Libc.Identity

namespace NucleoBase
namespace Libc

open Lib Lib.Program

/-! ## Calls that fail -/

def FxCall.Failed : FxCall → Prop
  | .fileRead _ status => status ≠ .success ∧ status ≠ .endOfFile
  | .fileOpen _ _ _ status | .fileClose _ status | .fileWrite _ status | .seek _ status
  | .truncate _ status | .entry _ status | .lookup _ status | .mediaFlush _ status =>
      status ≠ .success
  | .clear _ | .setEntryDateTime _ => False

instance : DecidablePred FxCall.Failed
  | .fileRead _ _ => inferInstanceAs (Decidable (_ ∧ _))
  | .fileOpen _ _ _ _ | .fileClose _ _ | .fileWrite _ _ | .seek _ _ | .truncate _ _
  | .entry _ _ | .lookup _ _ | .mediaFlush _ _ => inferInstanceAs (Decidable (_ ≠ _))
  | .clear _ | .setEntryDateTime _ => inferInstanceAs (Decidable False)

/-- Some call of FileX has failed. -/
def Failed (log : Log) : Prop := ∃ e ∈ log, e.Failed

instance (log : Log) : Decidable (Failed log) := inferInstanceAs (Decidable (∃ e ∈ log, _))

theorem Failed.head {e : FxCall} {log : Log} (h : e.Failed) : Failed (e :: log) :=
  ⟨e, List.mem_cons_self, h⟩

/-! ## Total correctness of the building blocks -/

section Blocks

variable {τ α : Type} {P : State τ → Prop} {E : Option Errno → State τ → Prop}

theorem TotalTriple.call {f : τ → α × τ} {Q : α → State τ → Prop}
    (h : ∀ s, P s → Q (f s.fx).1 { s with fx := (f s.fx).2 }) : TotalTriple P (call f) Q E :=
  TotalTriple.step h

theorem TotalTriple.check {status : Status} {Q : Unit → State τ → Prop}
    (hok : ∀ s, P s → filexErrno status = none → Q () s)
    (herror : ∀ s e, P s → filexErrno status = some e → E (some e) s) :
    TotalTriple P (check status) Q E := by
  unfold Libc.check
  cases h : filexErrno status with
  | none => exact TotalTriple.pure fun s hs => hok s hs h
  | some e => exact TotalTriple.fail fun s hs => herror s e hs h

theorem TotalTriple.checked {f : τ → Status × τ} {Q : Unit → State τ → Prop}
    (hplain : ∀ fx, (f fx).1.Plain)
    (hok : ∀ s, P s → (f s.fx).1 = .success → Q () { s with fx := (f s.fx).2 })
    (herror : ∀ s e, P s → (f s.fx).1 ≠ .success → E (some e) { s with fx := (f s.fx).2 }) :
    TotalTriple P (checked f) Q E := by
  refine TotalTriple.of_forall fun t ht => ?_
  refine TotalTriple.bind (Q := fun status s => status = (f t.fx).1 ∧ s = { t with fx := (f t.fx).2 })
    (TotalTriple.call (by rintro s rfl; exact ⟨rfl, rfl⟩)) fun status => TotalTriple.check ?_ ?_
  · rintro s ⟨rfl, rfl⟩ hnone
    exact hok t ht (hplain t.fx hnone)
  · rintro s e ⟨rfl, rfl⟩ hsome
    refine herror t e ht fun hok => ?_
    rw [hok] at hsome
    cases hsome

theorem TotalTriple.fails {e : Errno} {Q : α → State τ → Prop} (h : ∀ s, P s → E (some e) s) :
    TotalTriple P (fails e) Q E :=
  TotalTriple.fail h

theorem TotalTriple.raise {x : Except Errno α} {Q : α → State τ → Prop}
    (hok : ∀ a s, x = .ok a → P s → Q a s)
    (herror : ∀ e s, x = .error e → P s → E (some e) s) : TotalTriple P (raise x) Q E := by
  cases x with
  | ok a => exact TotalTriple.pure fun s hs => hok a s rfl hs
  | error e => exact TotalTriple.fail fun s hs => herror e s rfl hs

end Blocks

/-! ## An open file -/

/-- What a POSIX system keeps of an open file. -/
structure OpenFile where
  file : ByteFile UInt8
  readable : Bool
  writable : Bool
  append : Bool
  deriving DecidableEq

/-- The open file with other bytes. -/
def OpenFile.hold (f : OpenFile) (bytes : Bytes) : OpenFile :=
  { f with file := { f.file with bytes := bytes } }

/-- The open file at another offset. -/
def OpenFile.at_ (f : OpenFile) (offset : Nat) : OpenFile :=
  { f with file := { f.file with offset := offset } }

variable {σ : Type} {X : FileX σ} {platform : Platform} {names : σ → Forest}
  {view : σ → Block → Option FileView} {content : σ → Volume × Node → Bytes}
  {b : Block} {v : Volume} {n : Node} {f : OpenFile} {s : State (σ × Log)}

section Relations

variable (platform : Platform) (names : σ → Forest) (view : σ → Block → Option FileView)
  (content : σ → Volume × Node → Bytes) (b : Block) (v : Volume) (n : Node)

/-- The bytes and the offset of the open file, whatever has become of the handle. -/
structure Kept (f : OpenFile) (s : State (σ × Log)) : Prop where
  content : content s.fx.1 (v, n) = f.file.bytes
  position : (s.descriptors b).position = f.file.offset

/-- A descriptor on a file of FileX is an open file.  No other descriptor is on the
    file. -/
structure Rep (f : OpenFile) (s : State (σ × Log)) : Prop extends Kept content b v n f s where
  bound : Bound platform (fun fx => names fx.1) s b v n
  readable : (s.descriptors b).readable = f.readable
  writable : (s.descriptors b).writable = f.writable
  append : (s.descriptors b).append = f.append
  handle : ∀ mode, (s.descriptors b).openMode = some mode →
    ∃ offset, view s.fx.1 b = some ⟨(v, n), mode, offset⟩
  sole : Sole (view s.fx.1) b (v, n)
  alone : ∀ c, c ≠ b → (s.descriptors c).allocated = true →
    pathsEqual (s.descriptors c).path (s.descriptors b).path = false

/-- The handle is open in a mode. -/
def RepIn (f : OpenFile) (mode : OpenMode) (s : State (σ × Log)) : Prop :=
  Rep platform names view content b v n f s ∧ (s.descriptors b).openMode = some mode

/-- The handle is open in a mode, at an offset of its own. -/
def RepAt (f : OpenFile) (mode : OpenMode) (offset : Nat) (s : State (σ × Log)) : Prop :=
  RepIn platform names view content b v n f mode s ∧ view s.fx.1 b = some ⟨(v, n), mode, offset⟩

/-- A call of FileX has failed, with the bytes and the offset kept. -/
def KeptFailed (f : OpenFile) (s : State (σ × Log)) : Prop :=
  Failed s.fx.2 ∧ Kept content b v n f s

end Relations

theorem Sole.update {w w' : Block → Option FileView} {node : Volume × Node} {o : Option FileView}
    (h : Sole w b node) (hw : w' = Function.update w b o) : Sole w' b node := by
  subst hw
  intro c hc
  rw [Function.update_of_ne hc]
  exact h c hc

/-- After a call on the block that keeps the bytes and the names. -/
theorem Rep.call (h : Rep platform names view content b v n f s) {x : σ × Log}
    {g : OpenFile} (hg : g.file.offset = f.file.offset) (hread : g.readable = f.readable)
    (hwrite : g.writable = f.writable) (happend : g.append = f.append)
    (hnames : names x.1 = names s.fx.1) (hcontent : content x.1 (v, n) = g.file.bytes)
    {o : Option FileView} (hview : view x.1 = Function.update (view s.fx.1) b o)
    (hmode : ∀ mode, (s.descriptors b).openMode = some mode →
      ∃ offset, o = some ⟨(v, n), mode, offset⟩) :
    Rep platform names view content b v n g { s with fx := x } where
  content := hcontent
  position := h.position.trans hg.symm
  bound := by
    obtain ⟨halloc, rest, hentry, hnode⟩ := h.bound
    refine ⟨halloc, rest, hentry, ?_⟩
    show names x.1 v (key rest) = some n
    rw [hnames]
    exact hnode
  readable := h.readable.trans hread.symm
  writable := h.writable.trans hwrite.symm
  append := h.append.trans happend.symm
  handle mode hopen := by
    obtain ⟨offset, rfl⟩ := hmode mode hopen
    exact ⟨offset, by rw [hview, Function.update_self]⟩
  sole := h.sole.update hview
  alone := h.alone

/-- The descriptor is changed in its position and its open mode. -/
theorem Rep.descriptor (h : Rep platform names view content b v n f s) {d : Descriptor}
    {k : Nat} (hd : d = { s.descriptors b with position := k, openMode := d.openMode })
    (hmode : ∀ mode, d.openMode = some mode →
      ∃ k, view s.fx.1 b = some ⟨(v, n), mode, k⟩) :
    Rep platform names view content b v n (f.at_ k)
      { s with descriptors := Function.update s.descriptors b d } where
  content := h.content
  position := by
    show (Function.update s.descriptors b d b).position = k
    rw [Function.update_self, hd]
  bound := by
    obtain ⟨halloc, rest, hentry, hnode⟩ := h.bound
    refine ⟨?_, rest, ?_, hnode⟩
    · show (Function.update s.descriptors b d b).allocated = true
      rw [Function.update_self, hd]
      exact halloc
    · show Entry platform (Function.update s.descriptors b d b).path v rest
      rw [Function.update_self, hd]
      exact hentry
  readable := by
    show (Function.update s.descriptors b d b).readable = f.readable
    rw [Function.update_self, hd]
    exact h.readable
  writable := by
    show (Function.update s.descriptors b d b).writable = f.writable
    rw [Function.update_self, hd]
    exact h.writable
  append := by
    show (Function.update s.descriptors b d b).append = f.append
    rw [Function.update_self, hd]
    exact h.append
  handle mode hopen := by
    refine hmode mode ?_
    simpa using hopen
  sole := h.sole
  alone c hc halloc := by
    have hpath : d.path = (s.descriptors b).path := by rw [hd]
    simp only [Function.update_of_ne hc, Function.update_self, hpath] at halloc ⊢
    exact h.alone c hc halloc

theorem OpenFile.at_self (f : OpenFile) : f.at_ f.file.offset = f := rfl

theorem OpenFile.hold_self (f : OpenFile) : f.hold f.file.bytes = f := rfl

@[simp]
theorem OpenFile.bytes_hold (f : OpenFile) (bytes : Bytes) : (f.hold bytes).file.bytes = bytes := rfl

@[simp]
theorem OpenFile.hold_hold (f : OpenFile) (bytes bytes' : Bytes) :
    (f.hold bytes).hold bytes' = f.hold bytes' := rfl

/-! ## Mode switches -/

section Calls

variable (hX : X.Documented) (hN : X.Keeps names) (hS : X.Stores names view content)

include hX hN hS

theorem closeForSwitch_total :
    TotalTriple (Rep platform names view content b v n f) (closeForSwitch X.traced b)
      (fun closed s => closed = true ∧ Rep platform names view content b v n f s ∧
        (s.descriptors b).openMode = none)
      fun _ => KeptFailed content b v n f := by
  refine TotalTriple.get_bind fun t ht => TotalTriple.ite (fun hnone => TotalTriple.pure ?_) fun hopen => ?_
  · rintro s rfl
    exact ⟨rfl, ht, hnone⟩
  refine TotalTriple.bind (Q := fun status s => status = (X.fileClose b t.fx.1).1 ∧
    s = { t with fx := (X.traced.fileClose b t.fx).2 })
    (TotalTriple.call (by rintro s rfl; exact ⟨rfl, rfl⟩)) fun status => TotalTriple.of_forall ?_
  rintro s ⟨hstatus, rfl⟩
  have hcontent : content (X.fileClose b t.fx.1).2 (v, n) = f.file.bytes := by
    rw [hS.close_content, ht.content]
  refine TotalTriple.bind (Q := fun _ s => s = { t with
      fx := (X.traced.fileClose b t.fx).2
      descriptors := Function.update t.descriptors b { t.descriptors b with openMode := none } })
    (TotalTriple.modify (by rintro s rfl; rfl)) fun _ => TotalTriple.ite (fun hok => TotalTriple.pure ?_) fun hno => ?_
  · rintro s rfl
    refine ⟨rfl, ?_, by simp⟩
    -- the handle is given up first, so that closing it cannot leave one behind
    have hgiven := ht.descriptor (d := { t.descriptors b with openMode := none })
      (k := f.file.offset) (by rw [← ht.position]) fun mode hmode => by cases hmode
    exact hgiven.call (o := none) rfl rfl rfl rfl (hN.data _ _ (.fileClose b _)) hcontent
      (hS.fileClose b _ (hstatus ▸ hok)) fun mode hmode => by simp at hmode
  · have hkept : ∀ s, s = { t with
          fx := (X.traced.fileClose b t.fx).2
          descriptors := Function.update t.descriptors b { t.descriptors b with openMode := none } } →
        KeptFailed content b v n f s := by
      rintro s rfl
      refine ⟨.head (hstatus ▸ hno), hcontent, ?_⟩
      show (Function.update t.descriptors b { t.descriptors b with openMode := none } b).position =
        f.file.offset
      rw [Function.update_self]
      exact ht.position
    refine TotalTriple.bind (Q := fun _ _ => False) (TotalTriple.check ?_ fun s _ hs _ => hkept s hs)
      fun _ => TotalTriple.absurd fun _ h => h
    intro s _ hnone
    have hplain := hX.fileClose b t.fx.1
    rw [← hstatus] at hplain
    exact hno (hplain hnone)

/-- What `fx_file_extended_seek` has done. -/
theorem sought_total (mode : OpenMode) (position : Nat) :
    TotalTriple (RepIn platform names view content b v n f mode)
      (call (X.traced.fileExtendedSeek b position))
      (fun status s => status = .success ∧
          RepAt platform names view content b v n f mode (min position f.file.bytes.length) s ∨
        status ≠ .success ∧ KeptFailed content b v n f s)
      fun _ _ => False := by
  refine TotalTriple.call ?_
  rintro s ⟨hs, hmode⟩
  obtain ⟨offset, hview⟩ := hs.handle mode hmode
  have hcontent : content (X.fileExtendedSeek b position s.fx.1).2 (v, n) = f.file.bytes := by
    rw [hS.seek_content, hs.content]
  by_cases hok : (X.fileExtendedSeek b position s.fx.1).1 = .success
  · left
    have hseek := hS.seek b position s.fx.1 _ hview hok
    rw [hs.content] at hseek
    refine ⟨hok, ⟨hs.call rfl rfl rfl rfl (hN.data _ _ (.seek b position _)) hcontent hseek ?_,
      hmode⟩, ?_⟩
    · intro mode' hmode'
      rw [hmode] at hmode'
      obtain rfl := Option.some.inj hmode'
      exact ⟨_, rfl⟩
    · show view (X.fileExtendedSeek b position s.fx.1).2 b = _
      rw [hseek, Function.update_self]
  · exact .inr ⟨hok, .head hok, hcontent, hs.position⟩

theorem seek_total (mode : OpenMode) (position : Nat) :
    TotalTriple (RepIn platform names view content b v n f mode) (seek X.traced b position)
      (fun _ => RepAt platform names view content b v n f mode (min position f.file.bytes.length))
      fun _ => KeptFailed content b v n f := by
  refine TotalTriple.of_forall fun t ht => ?_
  refine TotalTriple.checked (hX.traced.fileExtendedSeek b position) ?_ ?_
  · rintro s rfl hok
    obtain ⟨o, s', hrun, hpost⟩ := sought_total hX hN hS mode position s ht
    cases hrun
    rcases hpost with ⟨-, hs⟩ | ⟨hno, -⟩
    · exact hs
    · exact absurd hok hno
  · rintro s e rfl hno
    obtain ⟨o, s', hrun, hpost⟩ := sought_total hX hN hS mode position s ht
    cases hrun
    rcases hpost with ⟨hok, -⟩ | ⟨-, hs⟩
    · exact absurd hok hno
    · exact hs

/-- A descriptor that is alone on its file has no writer to be flushed. -/
theorem not_hasWriter (h : Rep platform names view content b v n f s)
    (hnone : (s.descriptors b).openMode = none) : ¬ HasWriter s (s.descriptors b).path := by
  rintro ⟨c, halloc, hmode, hequal⟩
  by_cases hc : c = b
  · subst hc
    rw [hnone] at hmode
    cases hmode
  · rw [h.alone c hc halloc] at hequal
    cases hequal

theorem reopen_total (mode : OpenMode) :
    TotalTriple (fun s => Rep platform names view content b v n f s ∧ (s.descriptors b).openMode = none)
      (reopen X.traced platform b mode)
      (fun _ => RepIn platform names view content b v n f mode)
      fun _ => KeptFailed content b v n f := by
  refine TotalTriple.of_forall fun t ⟨ht, hnone⟩ => ?_
  obtain ⟨halloc, rest, hentry, hnode⟩ := ht.bound
  have hcontent : content (X.clear b t.fx.1) (v, n) = f.file.bytes := by
    rw [hS.clear_content, ht.content]
  have hcleared : Rep platform names view content b v n f (cleared X.traced t b) :=
    ht.call (o := none) rfl rfl rfl rfl (hN.data _ _ (.clear b _)) hcontent (hS.clear b _)
      fun mode hmode => by rw [hnone] at hmode; cases hmode
  refine TotalTriple.bind (Q := fun _ s => s = cleared X.traced t b)
    (TotalTriple.modify (by rintro s rfl; rfl)) fun _ => ?_
  refine TotalTriple.get_bind ?_
  rintro s rfl
  have hpath : ((cleared X.traced t b).descriptors b).path = (t.descriptors b).path := rfl
  rw [hpath, hentry.resolve_eq, pure_bind, if_neg (by simp [entryPath])]
  have hwriter := not_hasWriter hX hN hS hcleared hnone
  refine TotalTriple.bind (Q := fun _ s => s = cleared X.traced t b)
    (TotalTriple.when (fun h => absurd h.2 hwriter) fun _ s hs => hs) fun _ => ?_
  refine TotalTriple.bind (Q := fun status s =>
    status = (X.fileOpen v b (render rest) mode (X.clear b t.fx.1)).1 ∧
      s = { t with fx := (X.traced.fileOpen v b (render rest) mode (X.traced.clear b t.fx)).2 })
    (TotalTriple.call (by rintro s rfl; exact ⟨rfl, rfl⟩)) fun status => TotalTriple.of_forall ?_
  rintro s ⟨hstatus, rfl⟩
  have hopened : content (X.fileOpen v b (render rest) mode (X.clear b t.fx.1)).2 (v, n) =
      f.file.bytes := by
    rw [hS.open_content, hcontent]
  refine TotalTriple.ite (fun hno => TotalTriple.check ?_ ?_) fun hok => ?_
  · intro s _ herr
    have hplain := hX.fileOpen v b (render rest) mode (X.clear b t.fx.1)
    rw [← hstatus] at hplain
    exact absurd (hplain herr) hno
  · rintro s e rfl -
    exact ⟨.head (hstatus ▸ hno), hopened, ht.position⟩
  · have hok : status = .success := not_not.mp hok
    obtain ⟨m, hm, hview⟩ := hS.fileOpen v b rest mode (X.clear b t.fx.1) hentry.isLocal
      (hstatus ▸ hok)
    have hnames : names (X.clear b t.fx.1) = names t.fx.1 := hN.data _ _ (.clear b _)
    have hnode : names t.fx.1 v (key rest) = some n := hnode
    rw [hnames, hnode] at hm
    obtain rfl := Option.some.inj hm
    have hcalled := hcleared.call rfl rfl rfl rfl
      (x := (X.traced.fileOpen v b (render rest) mode (X.traced.clear b t.fx)).2)
      (hN.data _ _ (.fileOpen v b (render rest) mode _)) hopened hview
      fun mode' hmode' => by
        have hmode' : (t.descriptors b).openMode = some mode' := hmode'
        rw [hnone] at hmode'
        cases hmode'
    refine TotalTriple.bind (Q := fun _ => RepIn platform names view content b v n f mode)
      (TotalTriple.modify ?_) fun _ => ?_
    · rintro s rfl
      refine ⟨hcalled.descriptor (d := { t.descriptors b with openMode := some mode })
        (k := f.file.offset) (by rw [← ht.position]; rfl) ?_, by simp⟩
      intro mode' hmode'
      obtain rfl := Option.some.inj hmode'
      refine ⟨0, ?_⟩
      show view (X.fileOpen v b (render rest) mode (X.clear b t.fx.1)).2 b = _
      rw [hview, Function.update_self]
    · refine TotalTriple.get_bind fun w hw => ?_
      refine (seek_total hX hN hS mode _).weaken ?_ (fun _ _ h => h.1) fun _ _ h => h
      rintro s rfl
      exact hw

theorem switchMode_total (mode : OpenMode) :
    TotalTriple (Rep platform names view content b v n f) (switchMode X.traced platform b mode)
      (fun _ => RepIn platform names view content b v n f mode)
      fun _ => KeptFailed content b v n f := by
  refine TotalTriple.get_bind fun t ht => TotalTriple.ite (fun hmode => TotalTriple.pure ?_) fun _ => ?_
  · rintro s rfl
    exact ⟨ht, hmode⟩
  refine TotalTriple.bind ((closeForSwitch_total hX hN hS).pre (by rintro s rfl; exact ht))
    fun closed => TotalTriple.when (fun _ => (reopen_total hX hN hS mode).pre fun s hs => hs.2) ?_
  rintro hno s ⟨rfl, -⟩
  exact absurd rfl hno

end Calls

/-! ## Data -/

theorem Rep.size (hS : X.Stores names view content) (h : Rep platform names view content b v n f s)
    {mode : OpenMode} (hmode : (s.descriptors b).openMode = some mode) :
    X.traced.currentFileSize s.fx b = f.file.bytes.length := by
  obtain ⟨offset, hview⟩ := h.handle mode hmode
  have hsize := hS.size s.fx.1 b _ hview h.sole
  rw [h.content] at hsize
  exact hsize

/-- The offset of the handle becomes that of the descriptor. -/
theorem RepAt.keepOffset (hS : X.Stores names view content) {mode : OpenMode} {offset : Nat}
    (h : RepAt platform names view content b v n f mode offset s) :
    Rep platform names view content b v n (f.at_ offset) { s with
      descriptors := Function.update s.descriptors b
        { s.descriptors b with position := X.traced.currentFileOffset s.fx b } } := by
  have hoffset : X.traced.currentFileOffset s.fx b = offset := hS.offset s.fx.1 b _ h.2
  rw [hoffset]
  refine h.1.1.descriptor (k := offset) rfl fun mode' hmode' => ?_
  exact h.1.1.handle mode' hmode'

section Calls

variable (hX : X.Documented) (hN : X.Keeps names) (hS : X.Stores names view content)

include hX hN hS

/-- What `fx_file_read` has done. -/
theorem read_total (length : Nat) {offset : Nat} :
    TotalTriple (RepAt platform names view content b v n f .forRead offset)
      (call (X.traced.fileRead b length))
      (fun out s => (out.1 = .success ∨ out.1 = .endOfFile) ∧
          out.2 = (f.file.bytes.drop offset).take length ∧
          RepAt platform names view content b v n f .forRead
            (offset + ((f.file.bytes.drop offset).take length).length) s ∨
        (out.1 ≠ .success ∧ out.1 ≠ .endOfFile) ∧ Failed s.fx.2)
      fun _ _ => False := by
  refine TotalTriple.call ?_
  rintro s ⟨⟨hs, hmode⟩, hview⟩
  by_cases hok : (X.fileRead b length s.fx.1).1.1 = .success ∨
      (X.fileRead b length s.fx.1).1.1 = .endOfFile
  · left
    obtain ⟨hbytes, hafter⟩ := hS.fileRead b length s.fx.1 _ hview rfl hok
    simp only [hs.content] at hbytes hafter
    have hcontent : content (X.fileRead b length s.fx.1).2 (v, n) = f.file.bytes := by
      rw [hS.read_content, hs.content]
    refine ⟨hok, hbytes, ⟨hs.call rfl rfl rfl rfl (hN.data _ _ (.fileRead b length _)) hcontent
      hafter ?_, hmode⟩, ?_⟩
    · intro mode' hmode'
      rw [hmode] at hmode'
      obtain rfl := Option.some.inj hmode'
      exact ⟨_, rfl⟩
    · show view (X.fileRead b length s.fx.1).2 b = _
      rw [hafter, Function.update_self]
  · rw [not_or] at hok
    exact .inr ⟨hok, .head hok⟩

theorem readHandle_total (length : Nat) :
    TotalTriple (RepIn platform names view content b v n f .forRead) (readHandle X.traced b length)
      (fun out s => out = (f.file.read length).1 ∧
        Rep platform names view content b v n { f with file := (f.file.read length).2 } s)
      fun _ s => Failed s.fx.2 := by
  refine TotalTriple.get_bind fun t ht => ?_
  have hsize := ht.1.size hS ht.2
  refine TotalTriple.ite (fun hpast => TotalTriple.pure ?_) fun hwithin => ?_
  · rintro s rfl
    rw [hsize, ht.1.position] at hpast
    rw [ByteFile.read_past_end hpast]
    exact ⟨rfl, ht.1⟩
  rw [hsize, ht.1.position, Nat.not_le] at hwithin
  have hmin : min f.file.offset f.file.bytes.length = f.file.offset := by omega
  refine TotalTriple.bind ((seek_total hX hN hS .forRead _).weaken (by rintro s rfl; exact ht)
    (fun _ _ h => h) fun _ _ h => h.1) fun _ => ?_
  rw [ht.1.position, hmin]
  refine TotalTriple.bind ((read_total hX hN hS length).weaken (fun _ h => h) (fun _ _ h => h)
    fun _ _ h => h.elim) ?_
  rintro ⟨status, bytes⟩
  refine TotalTriple.bind (Q := fun _ s => (status = .success ∨ status = .endOfFile) ∧
      bytes = (f.file.read length).1 ∧
      Rep platform names view content b v n { f with file := (f.file.read length).2 } s ∨
      (status ≠ .success ∧ status ≠ .endOfFile) ∧ Failed s.fx.2)
    (TotalTriple.modify ?_) fun _ => TotalTriple.ite (fun hno => TotalTriple.fail ?_) fun hok => TotalTriple.pure ?_
  · rintro s (⟨hok, hbytes, hs⟩ | hno)
    · exact .inl ⟨hok, hbytes, hs.keepOffset hS⟩
    · exact .inr hno
  · rintro s (⟨hok, -⟩ | ⟨-, hfailed⟩)
    · rcases hok with hok | hok
      · exact absurd hok hno.1
      · exact absurd hok hno.2
    · exact hfailed
  · rintro s (⟨-, hs⟩ | ⟨hno, -⟩)
    · exact hs
    · exact absurd hno hok

/-- What `fx_file_write` has done: all of it, or nothing. -/
theorem write_total (bytes : Bytes) {offset : Nat} :
    TotalTriple (RepAt platform names view content b v n f .forWrite offset)
      (call (X.traced.fileWrite b bytes))
      (fun status s => status = .success ∧
          RepAt platform names view content b v n (f.hold (overwrite f.file.bytes offset bytes))
            .forWrite (offset + bytes.length) s ∨
        filexErrno status ≠ none ∧ Failed s.fx.2 ∧
          RepAt platform names view content b v n f .forWrite offset s)
      fun _ _ => False := by
  refine TotalTriple.call ?_
  rintro s ⟨⟨hs, hmode⟩, hview⟩
  have hnames := hN.data _ _ (.fileWrite b bytes s.fx.1)
  have hhandle : ∀ offset' mode', (s.descriptors b).openMode = some mode' → ∃ offset'',
      (some ⟨(v, n), .forWrite, offset'⟩ : Option FileView) = some ⟨(v, n), mode', offset''⟩ := by
    intro offset' mode' hmode'
    rw [hmode] at hmode'
    obtain rfl := Option.some.inj hmode'
    exact ⟨_, rfl⟩
  by_cases hok : (X.fileWrite b bytes s.fx.1).1 = .success
  · left
    obtain ⟨hcontent, hafter⟩ := hS.fileWrite b bytes s.fx.1 _ hview rfl hok
    simp only [hs.content] at hcontent hafter
    have hnew : content (X.fileWrite b bytes s.fx.1).2 (v, n) =
        overwrite f.file.bytes offset bytes := by
      rw [hcontent, Function.update_self]
    refine ⟨hok, ⟨hs.call rfl rfl rfl rfl hnames hnew hafter (hhandle _), hmode⟩, ?_⟩
    show view (X.fileWrite b bytes s.fx.1).2 b = _
    rw [hafter, Function.update_self]
  · right
    obtain ⟨hcontent, hafter⟩ := hS.notWritten b bytes s.fx.1 hok
    have hsame : view (X.fileWrite b bytes s.fx.1).2 =
        Function.update (view s.fx.1) b (some ⟨(v, n), .forWrite, offset⟩) := by
      rw [hafter, ← hview, Function.update_eq_self]
    have hold : content (X.fileWrite b bytes s.fx.1).2 (v, n) = f.file.bytes := by
      rw [hcontent, hs.content]
    refine ⟨fun hnone => hok (hX.fileWrite b bytes s.fx.1 hnone), .head hok,
      ⟨hs.call rfl rfl rfl rfl hnames hold hsame (hhandle _), hmode⟩, ?_⟩
    show view (X.fileWrite b bytes s.fx.1).2 b = _
    rw [hafter, hview]

/-- The loop adds zeroes; where a chunk fails, those before it stay. -/
theorem writeZeroes_total (size rounds : Nat) (hrounds : size ≤ f.file.bytes.length + 512 * rounds) :
    TotalTriple (RepAt platform names view content b v n f .forWrite f.file.bytes.length)
      (writeZeroes X.traced b size (rounds + 1))
      (fun _ => RepIn platform names view content b v n (f.hold (padTo 0 f.file.bytes size)) .forWrite)
      fun _ s => ∃ k ≤ size, KeptFailed content b v n (f.hold (padTo 0 f.file.bytes k)) s := by
  induction rounds generalizing f with
  | zero =>
      refine TotalTriple.get_bind fun t ht => ?_
      have hsize := ht.1.1.size hS ht.1.2
      refine TotalTriple.ite (fun hshort => by omega) fun _ => TotalTriple.pure ?_
      rintro s rfl
      rw [padTo_of_le (by omega)]
      exact ht.1
  | succ rounds ih =>
      refine TotalTriple.get_bind fun t ht => ?_
      have hsize := ht.1.1.size hS ht.1.2
      rw [hsize]
      refine TotalTriple.ite (fun hshort => ?_) fun hlong => TotalTriple.pure ?_
      · generalize hchunk : min (size - f.file.bytes.length) 512 = chunk
        have hgrown : overwrite f.file.bytes f.file.bytes.length (List.replicate chunk 0) =
            padTo 0 f.file.bytes (f.file.bytes.length + chunk) := overwrite_end _ _
        have hrest := ih (f := f.hold (padTo 0 f.file.bytes (f.file.bytes.length + chunk)))
          (by rw [OpenFile.bytes_hold, length_padTo]; omega)
        have hlength : max f.file.bytes.length (f.file.bytes.length + chunk) =
            f.file.bytes.length + chunk := by omega
        rw [OpenFile.bytes_hold, length_padTo, hlength] at hrest
        refine TotalTriple.bind (Q := fun _ => RepAt platform names view content b v n
          (f.hold (padTo 0 f.file.bytes (f.file.bytes.length + chunk))) .forWrite
          (f.file.bytes.length + chunk)) ?_ fun _ => hrest.weaken (fun _ h => h) ?_ ?_
        · refine TotalTriple.bind ((write_total hX hN hS (List.replicate chunk 0)).weaken
            (by rintro s rfl; exact ht) (fun _ _ h => h) fun _ _ h => h.elim)
            fun status => TotalTriple.check ?_ ?_
          · rintro s (⟨-, hs⟩ | ⟨hno, -⟩) hnone
            · rwa [hgrown, List.length_replicate] at hs
            · exact absurd hnone hno
          · rintro s e (⟨rfl, -⟩ | ⟨-, hfailed, hs⟩) hsome
            · cases hsome
            · refine ⟨0, Nat.zero_le _, hfailed, ?_⟩
              rw [padTo_of_le (Nat.zero_le _), OpenFile.hold_self]
              exact hs.1.1.toKept
        · intro _ s hs
          rwa [OpenFile.hold_hold, padTo_padTo (by omega)] at hs
        · rintro e s ⟨k, hk, hs⟩
          rw [OpenFile.hold_hold] at hs
          by_cases hle : f.file.bytes.length + chunk ≤ k
          · exact ⟨k, hk, by rwa [padTo_padTo hle] at hs⟩
          · refine ⟨f.file.bytes.length + chunk, by omega, ?_⟩
            rwa [padTo_of_le (n := k) (by rw [length_padTo]; omega)] at hs
      · rintro s rfl
        rw [padTo_of_le (by omega)]
        exact ht.1

theorem extendWithZeroes_total {size : Nat} (hrounds : size + 512 ≤ 512 * platform.rounds) :
    TotalTriple (RepIn platform names view content b v n f .forWrite)
      (extendWithZeroes X.traced platform b size)
      (fun _ => RepIn platform names view content b v n (f.hold (padTo 0 f.file.bytes size)) .forWrite)
      fun _ s => ∃ k ≤ size, KeptFailed content b v n (f.hold (padTo 0 f.file.bytes k)) s := by
  refine TotalTriple.get_bind fun t ht => ?_
  have hsize := ht.1.size hS ht.2
  rw [hsize]
  refine TotalTriple.ite (fun hshort => TotalTriple.pure ?_) fun _ => ?_
  · rintro s rfl
    rw [padTo_of_le hshort]
    exact ht
  obtain ⟨rounds, hr⟩ : ∃ rounds, platform.rounds = rounds + 1 := ⟨platform.rounds - 1, by omega⟩
  rw [hr]
  refine TotalTriple.bind ((seek_total hX hN hS .forWrite _).weaken (by rintro s rfl; exact ht)
    (fun _ _ h => h) fun _ s h => ?_) fun _ => ?_
  · refine ⟨0, Nat.zero_le _, ?_⟩
    rwa [padTo_of_le (Nat.zero_le _), OpenFile.hold_self]
  · rw [Nat.min_self]
    exact writeZeroes_total hX hN hS size rounds (by omega)

/-- The open file with the offset that a write starts from. -/
theorem writeHandle_total (bytes : Bytes) {i : Nat}
    (hstart : i = if f.append then f.file.bytes.length else f.file.offset)
    (hrounds : i + 512 ≤ 512 * platform.rounds) :
    TotalTriple (RepIn platform names view content b v n f .forWrite)
      (writeHandle X.traced platform b bytes)
      (fun _ => Rep platform names view content b v n
        { f with file := (f.at_ i).file.write 0 bytes })
      fun _ s => ∃ k ≤ i,
        KeptFailed content b v n ((f.at_ i).hold (padTo 0 f.file.bytes k)) s := by
  refine TotalTriple.get_bind fun t ht => ?_
  refine TotalTriple.bind (Q := fun _ => RepIn platform names view content b v n (f.at_ i) .forWrite)
    ?_ fun _ => TotalTriple.get_bind fun w hw => ?_
  · -- under `O_APPEND` the write starts at the end
    refine TotalTriple.when (fun happend => TotalTriple.modify ?_) fun happend => ?_
    · rintro s rfl
      rw [ht.1.append] at happend
      have hsize := ht.1.size hS ht.2
      have heq : i = f.file.bytes.length := by rw [hstart, if_pos happend]
      refine ⟨?_, by simpa using ht.2⟩
      rw [heq, hsize]
      exact ht.1.descriptor (k := f.file.bytes.length) rfl ht.1.handle
    · rintro s rfl
      rw [ht.1.append] at happend
      have heq : i = f.file.offset := by rw [hstart, if_neg happend]
      rw [heq]
      exact ht
  have hposition : (w.descriptors b).position = i := hw.1.position
  rw [hposition]
  refine TotalTriple.bind ((extendWithZeroes_total hX hN hS hrounds).weaken (by rintro s rfl; exact hw)
    (fun _ _ h => h) fun _ _ h => h) fun _ => ?_
  have hlong : min i (padTo 0 f.file.bytes i).length = i := by
    rw [length_padTo]
    omega
  refine TotalTriple.bind ((seek_total hX hN hS .forWrite i).weaken (fun _ h => h) (fun _ _ h => h)
    fun _ s h => ⟨i, Nat.le_refl _, h⟩) fun _ => ?_
  rw [OpenFile.bytes_hold]
  change TotalTriple (RepAt platform names view content b v n _ .forWrite
    (min i (padTo 0 f.file.bytes i).length)) _ _ _
  rw [hlong]
  refine TotalTriple.bind ((write_total hX hN hS bytes).weaken (fun _ h => h) (fun _ _ h => h)
    fun _ _ h => h.elim) fun status => ?_
  refine TotalTriple.bind (Q := fun _ s => status = .success ∧
      Rep platform names view content b v n { f with file := (f.at_ i).file.write 0 bytes } s ∨
      filexErrno status ≠ none ∧
        KeptFailed content b v n ((f.at_ i).hold (padTo 0 f.file.bytes i)) s)
    (TotalTriple.modify ?_) fun _ => TotalTriple.ite (fun hno => TotalTriple.fail ?_) fun hok => TotalTriple.pure ?_
  · rintro s (⟨hok, hs⟩ | ⟨hno, hfailed, hs⟩)
    · exact .inl ⟨hok, hs.keepOffset hS⟩
    · exact .inr ⟨hno, hfailed, (hs.keepOffset hS).toKept⟩
  · rintro s (⟨hok, -⟩ | ⟨-, hs⟩)
    · exact absurd hok hno
    · exact ⟨i, Nat.le_refl _, hs⟩
  · rintro s (⟨-, hs⟩ | ⟨hno, -⟩)
    · exact hs
    · rw [not_not.mp hok] at hno
      exact absurd rfl hno

theorem truncate_total {length : Nat} (hshrink : length ≤ f.file.bytes.length) :
    TotalTriple (RepIn platform names view content b v n f .forWrite)
      (checked (X.traced.fileExtendedTruncateRelease b length))
      (fun _ => RepIn platform names view content b v n (f.hold (f.file.bytes.take length)) .forWrite)
      fun _ => KeptFailed content b v n f := by
  refine TotalTriple.checked (hX.traced.fileExtendedTruncateRelease b length) ?_ ?_
  · rintro s ⟨hs, hmode⟩ hok
    obtain ⟨offset, hview⟩ := hs.handle .forWrite hmode
    have hcut := hS.truncate b length s.fx.1 _ hview rfl (by rw [hs.content]; exact hshrink) hok
    simp only [hs.content] at hcut
    have hcontent : content (X.fileExtendedTruncateRelease b length s.fx.1).2 (v, n) =
        f.file.bytes.take length := by
      rw [hcut.1, Function.update_self]
    refine ⟨hs.call rfl rfl rfl rfl (hN.data _ _ (.truncate b length _)) hcontent hcut.2 ?_, hmode⟩
    intro mode' hmode'
    rw [hmode] at hmode'
    obtain rfl := Option.some.inj hmode'
    exact ⟨_, rfl⟩
  · rintro s e ⟨hs, -⟩ hno
    refine ⟨.head hno, ?_, hs.position⟩
    show content (X.fileExtendedTruncateRelease b length s.fx.1).2 (v, n) = _
    rw [hS.notTruncated b length s.fx.1 hno, hs.content]

theorem resize_total {length : Nat} (hrounds : length + 512 ≤ 512 * platform.rounds) :
    TotalTriple (RepIn platform names view content b v n f .forWrite)
      (resize X.traced platform b length)
      (fun _ => RepIn platform names view content b v n
        { f with file := f.file.resize 0 length } .forWrite)
      fun _ s => ∃ k ≤ length, KeptFailed content b v n (f.hold (padTo 0 f.file.bytes k)) s := by
  refine TotalTriple.get_bind fun t ht => ?_
  have hsize := ht.1.size hS ht.2
  rw [hsize]
  refine TotalTriple.ite (fun hshrink => ?_) fun hlong => TotalTriple.when (fun hgrow => ?_) fun hsame => ?_
  · rw [ByteFile.resize_shrink (by omega)]
    refine (truncate_total hX hN hS (by omega)).weaken (by rintro s rfl; exact ht)
      (fun _ _ h => h) fun _ s h => ⟨0, Nat.zero_le _, ?_⟩
    rwa [padTo_of_le (Nat.zero_le _), OpenFile.hold_self]
  · rw [ByteFile.resize_grow (by omega)]
    exact (extendWithZeroes_total hX hN hS hrounds).pre (by rintro s rfl; exact ht)
  · rintro s rfl
    rw [ByteFile.resize_grow (by omega), padTo_of_le (by omega)]
    exact ht

end Calls

end Libc
end NucleoBase
