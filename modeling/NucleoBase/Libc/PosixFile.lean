/-
  NucleoBase.Libc.PosixFile

  An open file as POSIX has it, and that the calls on a descriptor that is alone
  on its file are the calls on it: as long as no call of FileX fails, whatever
  the order in which reads, writes, seeks and truncations come.  Where one fails,
  a write or a truncation has at most added zeroes to the file.
-/

import NucleoBase.Libc.FileData

namespace NucleoBase
namespace Libc

open Lib Lib.Program

/-! ## POSIX -/

/-- The calls on the bytes of an open file. -/
inductive FileRequest
  | read (buffer : Bool) (length : Int)
  | write (buffer : Option Bytes) (length : Int)
  | lseek (offset : Int) (origin : Origin)
  | ftruncate (length : Int)
  deriving DecidableEq, Repr

/-- The call on a descriptor. -/
def FileRequest.on (b : Block) : FileRequest → Request
  | .read buffer length => .read (fileNumber b) buffer length
  | .write buffer length => .write (fileNumber b) buffer length
  | .lseek offset origin => .lseek (fileNumber b) offset origin
  | .ftruncate length => .ftruncate (fileNumber b) length

/-- Where a write starts. -/
def OpenFile.start (f : OpenFile) : Nat := if f.append then f.file.bytes.length else f.file.offset

def OpenFile.base (f : OpenFile) : Origin → Option Nat
  | .set => some 0
  | .current => some f.file.offset
  | .fileEnd => some f.file.bytes.length
  | .other _ => none

/-- What the calls return, and what they leave, for offsets up to a maximum. -/
def posix (maximumOffset : Nat) : FileRequest → OpenFile → Except Errno Reply × OpenFile
  | .read buffer length, f =>
      if length < 0 then (.error .EINVAL, f)
      else if ¬ buffer ∧ length ≠ 0 then (.error .EFAULT, f)
      else if ¬ f.readable then (.error .EBADF, f)
      else (.ok (.bytes (f.file.read length.toNat).1),
        { f with file := (f.file.read length.toNat).2 })
  | .write buffer length, f =>
      if length < 0 then (.error .EINVAL, f)
      else if buffer = none ∧ length ≠ 0 then (.error .EFAULT, f)
      else if ¬ f.writable then (.error .EBADF, f)
      else if length = 0 then (.ok (.number 0), f)
      else (.ok (.number length),
        { f with file := (f.at_ f.start).file.write 0 ((buffer.getD []).take length.toNat) })
  | .lseek offset origin, f =>
      match f.base origin with
      | none => (.error .EINVAL, f)
      | some base =>
          if base + offset < 0 then (.error .EINVAL, f)
          else if maximumOffset < base + offset then (.error .EOVERFLOW, f)
          else (.ok (.number (base + offset)), f.at_ (base + offset).toNat)
  | .ftruncate length, f =>
      if length < 0 then (.error .EINVAL, f)
      else if ¬ f.writable then (.error .EBADF, f)
      else (.ok .done, { f with file := f.file.resize 0 length.toNat })

/-- `off_t` can tell the size and the offset. -/
structure OpenFile.Small (maximumOffset : Nat) (f : OpenFile) : Prop where
  size : f.file.bytes.length ≤ maximumOffset
  offset : f.file.offset ≤ maximumOffset

/-- A write does not go past the maximum, and a length is one of `off_t`. -/
def Fits (maximumOffset : Nat) (f : OpenFile) : FileRequest → Prop
  | .write _ length => f.start + length ≤ maximumOffset
  | .ftruncate length => length ≤ maximumOffset
  | _ => True

instance (maximumOffset : Nat) (f : OpenFile) : DecidablePred (Fits maximumOffset f)
  | .write _ _ => inferInstanceAs (Decidable (_ ≤ _))
  | .ftruncate _ => inferInstanceAs (Decidable (_ ≤ _))
  | .read _ _ | .lseek _ _ => inferInstanceAs (Decidable True)

theorem OpenFile.Small.start {maximumOffset : Nat} {f : OpenFile} (h : f.Small maximumOffset) :
    f.start ≤ maximumOffset := by
  unfold OpenFile.start
  split
  · exact h.size
  · exact h.offset

theorem OpenFile.Small.posix {maximumOffset : Nat} {f : OpenFile} {r : FileRequest}
    (h : f.Small maximumOffset) (hfits : Fits maximumOffset f r) :
    (Libc.posix maximumOffset r f).2.Small maximumOffset := by
  have hsize := h.size
  have hoffset := h.offset
  cases r with
  | read buffer length =>
      simp only [Libc.posix]
      split
      · exact h
      split
      · exact h
      split
      · exact h
      refine ⟨hsize, ?_⟩
      show f.file.offset + ((f.file.bytes.drop f.file.offset).take length.toNat).length ≤ _
      simp only [List.length_take, List.length_drop]
      omega
  | write buffer length =>
      simp only [Libc.posix]
      split
      · exact h
      split
      · exact h
      split
      · exact h
      split
      · exact h
      have hstart := h.start
      have hfits : (f.start : Int) + length ≤ maximumOffset := hfits
      have hbytes : ((buffer.getD []).take length.toNat).length ≤ length.toNat :=
        List.length_take_le _ _
      constructor
      · show (overwrite (padTo 0 f.file.bytes f.start) f.start _).length ≤ _
        rw [length_overwrite (by rw [length_padTo]; omega), length_padTo]
        omega
      · show f.start + ((buffer.getD []).take length.toNat).length ≤ _
        omega
  | lseek offset origin =>
      simp only [Libc.posix]
      split
      · exact h
      split
      · exact h
      split
      · exact h
      · refine ⟨hsize, ?_⟩
        simp only [OpenFile.at_]
        omega
  | ftruncate length =>
      simp only [Libc.posix]
      have hfits : length ≤ maximumOffset := hfits
      split
      · exact h
      split
      · exact h
      refine ⟨?_, hoffset⟩
      show ((padTo 0 f.file.bytes length.toNat).take length.toNat).length ≤ _
      rw [List.length_take]
      omega

/-! ## One call -/

section Calls

variable {σ : Type} {X : FileX σ} {platform : Platform} {names : σ → Forest}
  {view : σ → Block → Option FileView} {content : σ → Volume × Node → Bytes}
  {b : Block} {v : Volume} {n : Node} {f : OpenFile} {s : State (σ × Log)}

section Relations

variable (platform : Platform) (names : σ → Forest) (view : σ → Block → Option FileView)
  (content : σ → Volume × Node → Bytes) (b : Block) (v : Volume) (n : Node)

/-- The call has returned what POSIX says, and left what it says. -/
def Agrees (o : Except Errno Reply × OpenFile) (reply : Reply) (s : State (σ × Log)) : Prop :=
  o.1 = .ok reply ∧ Rep platform names view content b v n o.2 s

/-- The same of an error. -/
def AgreesError (o : Except Errno Reply × OpenFile) (e : Option Errno) (s : State (σ × Log)) :
    Prop :=
  ∃ e', e = some e' ∧ o.1 = .error e' ∧ Rep platform names view content b v n o.2 s

end Relations

theorem fails_agrees {e : Errno} {o : Except Errno Reply × OpenFile} {α : Type}
    {P : State (σ × Log) → Prop} {Q : α → State (σ × Log) → Prop}
    {F : State (σ × Log) → Prop} (ho : o = (.error e, f))
    (hP : ∀ s, P s → Rep platform names view content b v n f s) :
    TotalTriple P (fails e) Q fun e s => AgreesError platform names view content b v n o e s ∨ F s :=
  TotalTriple.fails fun s hs => .inl ⟨e, rfl, by rw [ho], by rw [ho]; exact hP s hs⟩

/-- The descriptor of the open file is found. -/
theorem descriptorFor_total :
    TotalTriple (Rep platform names view content b v n f) (descriptorFor (fileNumber b))
      (fun c s => c = b ∧ Rep platform names view content b v n f s) fun _ _ => False := by
  refine TotalTriple.get_bind fun t ht => ?_
  have hconsole := fileNumber_console b
  rw [if_neg (by omega)]
  have hindex : (fileNumber b - 3).toNat = b.val := by simp [fileNumber]
  have hblock : ∀ h : (fileNumber b - 3).toNat < maximumOpenFiles,
      (⟨(fileNumber b - 3).toNat, h⟩ : Block) = b := fun _ => Fin.ext hindex
  rw [dif_pos (by rw [hindex]; exact b.isLt)]
  simp only [hblock, ht.bound.1, if_true]
  refine TotalTriple.pure ?_
  rintro s rfl
  exact ⟨rfl, ht⟩

variable (hX : X.Documented) (hN : X.Keeps names) (hS : X.Stores names view content)

include hX hN hS

theorem read_agrees (maximumOffset : Nat) (buffer : Bool) (length : Int) :
    TotalTriple (Rep platform names view content b v n f)
      (read X.traced platform (fileNumber b) buffer length)
      (fun out s => Agrees platform names view content b v n
        (posix maximumOffset (.read buffer length) f) (.bytes out) s)
      fun e s => AgreesError platform names view content b v n
        (posix maximumOffset (.read buffer length) f) e s ∨ Failed s.fx.2 := by
  have hconsole := fileNumber_console b
  simp only [posix]
  refine TotalTriple.ite (fun hneg => ?_) fun hneg => ?_
  · rw [if_pos hneg]
    exact fails_agrees rfl fun _ h => h
  rw [if_neg hneg]
  refine TotalTriple.ite (fun hnull => ?_) fun hnull => ?_
  · rw [if_pos hnull]
    exact fails_agrees rfl fun _ h => h
  rw [if_neg hnull, if_neg (by omega)]
  refine TotalTriple.bind (descriptorFor_total.weaken (fun _ h => h) (fun _ _ h => h)
    fun _ _ h => h.elim) fun c => TotalTriple.of_forall ?_
  rintro t ⟨rfl, ht⟩
  refine TotalTriple.get_bind ?_
  rintro s rfl
  rw [ht.readable]
  refine TotalTriple.ite (fun hread => ?_) fun hread => ?_
  · rw [if_pos hread]
    exact fails_agrees rfl (by rintro w rfl; exact ht)
  rw [if_neg hread]
  refine TotalTriple.ite (fun hzero => TotalTriple.pure ?_) fun _ => ?_
  · rintro w rfl
    have hnone : f.file.read length.toNat = ([], f.file) := by simp [hzero, ByteFile.read]
    rw [hnone]
    exact ⟨rfl, ht⟩
  refine TotalTriple.bind ((switchMode_total hX hN hS .forRead).weaken (by rintro w rfl; exact ht)
    (fun _ _ h => h) fun _ _ h => .inr h.1) fun _ => ?_
  refine (readHandle_total hX hN hS length.toNat).weaken (fun _ h => h) ?_ fun _ _ h => .inr h
  rintro out w ⟨rfl, hw⟩
  exact ⟨rfl, hw⟩

/-- Where a call of FileX fails in a write, the bytes are the old ones with zeroes up to
    at most where the write would have started. -/
def Grown (content : σ → Volume × Node → Bytes) (v : Volume) (n : Node)
    (f : OpenFile) (limit : Nat) (s : State (σ × Log)) : Prop :=
  ∃ k ≤ limit, content s.fx.1 (v, n) = padTo 0 f.file.bytes k

omit hX hN hS in
theorem Kept.grown {g : OpenFile} {k limit : Nat} (h : Kept content b v n (g.hold (padTo 0 f.file.bytes k)) s)
    (hk : k ≤ limit) : Grown content v n f limit s :=
  ⟨k, hk, h.content⟩

theorem write_agrees (buffer : Option Bytes) (length : Int) (hsmall : f.Small platform.maximumOffset)
    (hrounds : platform.maximumOffset + 512 ≤ 512 * platform.rounds) :
    TotalTriple (Rep platform names view content b v n f)
      (write X.traced platform (fileNumber b) buffer length)
      (fun out s => Agrees platform names view content b v n
        (posix platform.maximumOffset (.write buffer length) f) (.number out) s)
      fun e s => AgreesError platform names view content b v n
          (posix platform.maximumOffset (.write buffer length) f) e s ∨
        Failed s.fx.2 ∧ Grown content v n f f.start s ∧
          ((s.descriptors b).position = f.file.offset ∨
            (s.descriptors b).position = f.start) := by
  have hconsole := fileNumber_console b
  simp only [posix]
  refine TotalTriple.ite (fun hneg => ?_) fun hneg => ?_
  · rw [if_pos hneg]
    exact fails_agrees rfl fun _ h => h
  rw [if_neg hneg]
  refine TotalTriple.ite (fun hnull => ?_) fun hnull => ?_
  · rw [if_pos hnull]
    exact fails_agrees rfl fun _ h => h
  rw [if_neg hnull, if_neg (by omega)]
  refine TotalTriple.bind (descriptorFor_total.weaken (fun _ h => h) (fun _ _ h => h)
    fun _ _ h => h.elim) fun c => TotalTriple.of_forall ?_
  rintro t ⟨rfl, ht⟩
  refine TotalTriple.get_bind ?_
  rintro s rfl
  rw [ht.writable]
  refine TotalTriple.ite (fun hwrite => ?_) fun hwrite => ?_
  · rw [if_pos hwrite]
    exact fails_agrees rfl (by rintro w rfl; exact ht)
  rw [if_neg hwrite]
  refine TotalTriple.ite (fun hzero => TotalTriple.pure ?_) fun hzero => ?_
  · rintro w rfl
    rw [if_pos hzero]
    exact ⟨rfl, ht⟩
  rw [if_neg hzero]
  refine TotalTriple.bind ((switchMode_total hX hN hS .forWrite).weaken (by rintro w rfl; exact ht)
    (fun _ _ h => h) fun _ w h => .inr ⟨h.1, ?_, .inl h.2.position⟩) fun _ => ?_
  · refine ⟨0, Nat.zero_le _, ?_⟩
    rw [padTo_of_le (Nat.zero_le _)]
    exact h.2.content
  have hstart := hsmall.start
  refine TotalTriple.bind ((writeHandle_total hX hN hS _ (i := f.start) rfl (by omega)).weaken
    (fun _ h => h) (fun _ _ h => h) ?_) fun _ => TotalTriple.pure fun _ h => ⟨rfl, h⟩
  rintro e w ⟨k, hk, hfailed, hkept⟩
  exact .inr ⟨hfailed, hkept.grown hk, .inr hkept.position⟩

omit hX hN hS in
/-- The target of `_lseek` is that of POSIX. -/
theorem seekTarget_eq {base : Nat} {offset : Int} (hbase : base ≤ platform.maximumOffset) :
    seekTarget platform base offset =
      if base + offset < 0 then .error .EINVAL
      else if platform.maximumOffset < base + offset then .error .EOVERFLOW
      else .ok (base + offset).toNat := by
  rw [seekTarget, if_neg (by omega)]
  by_cases hneg : 0 ≤ offset
  · have hpos : ¬ (base : Int) + offset < 0 := by omega
    rw [if_pos hneg, if_neg hpos]
    by_cases hover : platform.maximumOffset - base < offset.toNat
    · rw [if_pos hover, if_pos (by omega)]
    · rw [if_neg hover, if_neg (by omega)]
      congr 1
      omega
  · rw [if_neg hneg]
    by_cases hunder : base < offset.natAbs
    · rw [if_pos hunder, if_pos (by omega)]
    · have hpos : ¬ (base : Int) + offset < 0 := by omega
      have hfit : ¬ (platform.maximumOffset : Int) < base + offset := by omega
      rw [if_neg hunder, if_neg hpos, if_neg hfit]
      congr 1
      omega

theorem lseek_agrees (offset : Int) (origin : Origin) (hsmall : f.Small platform.maximumOffset) :
    TotalTriple (Rep platform names view content b v n f)
      (lseek X.traced platform (fileNumber b) offset origin)
      (fun out s => Agrees platform names view content b v n
        (posix platform.maximumOffset (.lseek offset origin) f) (.number out) s)
      fun e s => AgreesError platform names view content b v n
        (posix platform.maximumOffset (.lseek offset origin) f) e s ∨ Failed s.fx.2 := by
  refine TotalTriple.bind (descriptorFor_total.weaken (fun _ h => h) (fun _ _ h => h)
    fun _ _ h => h.elim) fun c => TotalTriple.of_forall ?_
  rintro t ⟨rfl, ht⟩
  refine TotalTriple.get_bind ?_
  rintro s rfl
  refine TotalTriple.bind (Q := fun _ s => ∃ mode, RepIn platform names view content c v n f mode s)
    (TotalTriple.when (fun _ => ?_) ?_) fun _ => ?_
  · exact (switchMode_total hX hN hS _).weaken (by rintro w rfl; exact ht)
      (fun _ _ h => ⟨_, h⟩) fun _ _ h => .inr h.1
  · rintro hopen w rfl
    obtain ⟨mode, hmode⟩ := Option.ne_none_iff_exists'.mp hopen
    exact ⟨mode, ht, hmode⟩
  refine TotalTriple.get_bind ?_
  rintro w ⟨mode, hw⟩
  have hsize := hw.1.size hS hw.2
  have hbase : seekBase X.traced w c origin =
      match f.base origin with
      | none => .error .EINVAL
      | some base => .ok base := by
    cases origin with
    | set => rfl
    | current => exact congrArg Except.ok hw.1.position
    | fileEnd => exact congrArg Except.ok hsize
    | other value => rfl
  simp only [posix, hbase]
  cases horigin : f.base origin with
  | none =>
      refine TotalTriple.bind (Q := fun _ _ => False) (TotalTriple.raise (by rintro a s ha; cases ha) ?_)
        fun _ => TotalTriple.absurd fun _ h => h
      rintro e s he rfl
      cases he
      exact .inl ⟨.EINVAL, rfl, rfl, hw.1⟩
  | some base =>
      have hle : base ≤ platform.maximumOffset := by
        cases origin with
        | set => cases horigin; exact Nat.zero_le _
        | current => cases horigin; exact hsmall.offset
        | fileEnd => cases horigin; exact hsmall.size
        | other value => cases horigin
      refine TotalTriple.bind (Q := fun a s => a = base ∧ s = w) (TotalTriple.raise ?_ (by rintro e s he; cases he))
        fun a => TotalTriple.of_forall ?_
      · rintro a s ha rfl
        cases ha
        exact ⟨rfl, rfl⟩
      rintro s ⟨rfl, rfl⟩
      simp only
      rw [seekTarget_eq hle]
      by_cases hneg : (a : Int) + offset < 0
      · simp only [if_pos hneg]
        refine TotalTriple.bind (Q := fun _ _ => False) (TotalTriple.raise (by rintro x s hx; cases hx) ?_)
          fun _ => TotalTriple.absurd fun _ h => h
        rintro e s he rfl
        cases he
        exact .inl ⟨.EINVAL, rfl, rfl, hw.1⟩
      simp only [if_neg hneg]
      by_cases hover : (platform.maximumOffset : Int) < a + offset
      · simp only [if_pos hover]
        refine TotalTriple.bind (Q := fun _ _ => False) (TotalTriple.raise (by rintro x s hx; cases hx) ?_)
          fun _ => TotalTriple.absurd fun _ h => h
        rintro e s he rfl
        cases he
        exact .inl ⟨.EOVERFLOW, rfl, rfl, hw.1⟩
      simp only [if_neg hover]
      generalize htarget : ((a : Int) + offset).toNat = target
      have hvalue : (a : Int) + offset = target := by omega
      refine TotalTriple.bind (Q := fun x w' => x = target ∧ w' = s) (TotalTriple.raise ?_ (by rintro e s he; cases he))
        fun x => TotalTriple.of_forall ?_
      · rintro x s hx rfl
        cases hx
        exact ⟨rfl, rfl⟩
      rintro w' ⟨rfl, rfl⟩
      refine TotalTriple.bind (Q := fun status u => status = .success ∧
          RepIn platform names view content c v n f mode u ∨ status ≠ .success ∧ Failed u.fx.2)
        ((sought_total hX hN hS mode x).weaken (by rintro u rfl; exact hw) ?_ fun _ _ h => h.elim)
        fun status => TotalTriple.ite (fun hno => TotalTriple.fail ?_) fun hok => ?_
      · rintro status u (⟨hok, hu⟩ | ⟨hno, hfailed, -⟩)
        · exact .inl ⟨hok, hu.1⟩
        · exact .inr ⟨hno, hfailed⟩
      · rintro u (⟨hok, -⟩ | ⟨-, hfailed⟩)
        · exact absurd hok hno
        · exact .inr hfailed
      · refine TotalTriple.bind (Q := fun _ => Rep platform names view content c v n (f.at_ x))
          (TotalTriple.modify ?_) fun _ => TotalTriple.pure fun u hu => ?_
        · rintro u (⟨-, hu⟩ | ⟨hno, -⟩)
          · exact hu.1.descriptor (k := x) rfl hu.1.handle
          · exact absurd hno hok
        · exact ⟨by rw [hvalue], hu⟩

theorem ftruncate_agrees (length : Int) (hfits : length ≤ platform.maximumOffset)
    (hrounds : platform.maximumOffset + 512 ≤ 512 * platform.rounds) :
    TotalTriple (Rep platform names view content b v n f)
      (ftruncate X.traced platform (fileNumber b) length)
      (fun _ s => Agrees platform names view content b v n
        (posix platform.maximumOffset (.ftruncate length) f) .done s)
      fun e s => AgreesError platform names view content b v n
          (posix platform.maximumOffset (.ftruncate length) f) e s ∨
        Failed s.fx.2 ∧ (Grown content v n f length.toNat s ∨
          content s.fx.1 (v, n) = (f.file.resize 0 length.toNat).bytes) ∧
          (s.descriptors b).position = f.file.offset := by
  simp only [posix]
  refine TotalTriple.ite (fun hneg => ?_) fun hneg => ?_
  · rw [if_pos hneg]
    exact fails_agrees rfl fun _ h => h
  rw [if_neg hneg]
  refine TotalTriple.bind (descriptorFor_total.weaken (fun _ h => h) (fun _ _ h => h)
    fun _ _ h => h.elim) fun c => TotalTriple.of_forall ?_
  rintro t ⟨rfl, ht⟩
  refine TotalTriple.get_bind ?_
  rintro s rfl
  rw [ht.writable]
  refine TotalTriple.ite (fun hwrite => ?_) fun hwrite => ?_
  · rw [if_pos hwrite]
    exact fails_agrees rfl (by rintro w rfl; exact ht)
  rw [if_neg hwrite]
  refine TotalTriple.bind ((switchMode_total hX hN hS .forWrite).weaken (by rintro w rfl; exact ht)
    (fun _ _ h => h) fun _ w h => .inr ⟨h.1, .inl ?_, h.2.position⟩) fun _ => ?_
  · refine ⟨0, Nat.zero_le _, ?_⟩
    rw [padTo_of_le (Nat.zero_le _)]
    exact h.2.content
  refine TotalTriple.bind ((resize_total hX hN hS (by omega)).weaken (fun _ h => h) (fun _ _ h => h) ?_)
    fun _ => TotalTriple.get_bind fun w hw => ?_
  · rintro e w ⟨k, hk, hfailed, hkept⟩
    exact .inr ⟨hfailed, .inl (hkept.grown hk), hkept.position⟩
  refine (seek_total hX hN hS .forWrite _).weaken (by rintro u rfl; exact hw)
    (fun _ _ h => ⟨rfl, h.1.1⟩) ?_
  rintro e u ⟨hfailed, hkept⟩
  exact .inr ⟨hfailed, .inr hkept.content, hkept.position⟩

/-- Every call on the bytes of the file. -/
theorem call_agrees {r : FileRequest} (hsmall : f.Small platform.maximumOffset)
    (hfits : Fits platform.maximumOffset f r)
    (hrounds : platform.maximumOffset + 512 ≤ 512 * platform.rounds) :
    TotalTriple (Rep platform names view content b v n f) (serve X.traced platform (r.on b))
      (fun reply s => Agrees platform names view content b v n
        (posix platform.maximumOffset r f) reply s)
      fun e s => AgreesError platform names view content b v n
        (posix platform.maximumOffset r f) e s ∨ Failed s.fx.2 := by
  cases r with
  | read buffer length =>
      exact TotalTriple.bind (read_agrees hX hN hS _ buffer length) fun _ => TotalTriple.pure fun _ h => h
  | write buffer length =>
      refine TotalTriple.bind ((write_agrees hX hN hS buffer length hsmall hrounds).weaken
        (fun _ h => h) (fun _ _ h => h) ?_) fun _ => TotalTriple.pure fun _ h => h
      rintro e s (h | ⟨hfailed, -⟩)
      · exact .inl h
      · exact .inr hfailed
  | lseek offset origin =>
      exact TotalTriple.bind (lseek_agrees hX hN hS offset origin hsmall) fun _ =>
        TotalTriple.pure fun _ h => h
  | ftruncate length =>
      refine TotalTriple.bind ((ftruncate_agrees hX hN hS length hfits hrounds).weaken
        (fun _ h => h) (fun _ _ h => h) ?_) fun _ => TotalTriple.pure fun _ h => h
      rintro e s (h | ⟨hfailed, -⟩)
      · exact .inl h
      · exact .inr hfailed

end Calls

/-! ## Runs -/

/-- One call after the other on an open file. -/
def posixRun (maximumOffset : Nat) : List FileRequest → OpenFile →
    List (Except Errno Reply) × OpenFile
  | [], f => ([], f)
  | r :: rs, f =>
      let rest := posixRun maximumOffset rs (posix maximumOffset r f).2
      ((posix maximumOffset r f).1 :: rest.1, rest.2)

/-- One call after the other on a descriptor. -/
def serveRun {τ : Type} (Y : FileX τ) (platform : Platform) (b : Block) :
    List FileRequest → State τ → Option (List (Except (Option Errno) Reply) × State τ)
  | [], s => some ([], s)
  | r :: rs, s =>
      (serve Y platform (r.on b) s).bind fun out =>
        (serveRun Y platform b rs out.2).map fun rest => (out.1 :: rest.1, rest.2)

/-- Every call fits, where it comes. -/
def AllFit (maximumOffset : Nat) : List FileRequest → OpenFile → Prop
  | [], _ => True
  | r :: rs, f => Fits maximumOffset f r ∧ AllFit maximumOffset rs (posix maximumOffset r f).2

instance instDecidableAllFit (maximumOffset : Nat) :
    ∀ rs f, Decidable (AllFit maximumOffset rs f)
  | [], _ => isTrue trivial
  | r :: rs, f =>
      have := instDecidableAllFit maximumOffset rs (posix maximumOffset r f).2
      inferInstanceAs (Decidable (_ ∧ _))

section Runs

variable {σ : Type} {X : FileX σ} {platform : Platform} {names : σ → Forest}
  {view : σ → Block → Option FileView} {content : σ → Volume × Node → Bytes}
  {b : Block} {v : Volume} {n : Node} {f : OpenFile} {s : State (σ × Log)}

/-- A sequence of reads, writes, seeks and truncations on the one descriptor of a file
    returns what POSIX says, error for error, and leaves the bytes and the offset it says,
    unless a call of FileX fails on the way. -/
theorem posix_run (hX : X.Documented) (hN : X.Keeps names) (hS : X.Stores names view content)
    (hrounds : platform.maximumOffset + 512 ≤ 512 * platform.rounds) {rs : List FileRequest}
    (hrep : Rep platform names view content b v n f s) (hsmall : f.Small platform.maximumOffset)
    (hfit : AllFit platform.maximumOffset rs f) :
    (∃ s', serveRun X.traced platform b rs s =
        some ((posixRun platform.maximumOffset rs f).1.map (Except.mapError some), s') ∧
      Rep platform names view content b v n (posixRun platform.maximumOffset rs f).2 s') ∨
    ∃ k ≤ rs.length, ∃ os s', serveRun X.traced platform b (rs.take k) s = some (os, s') ∧
      Failed s'.fx.2 := by
  induction rs generalizing f s with
  | nil => exact .inl ⟨s, rfl, hrep⟩
  | cons r rs ih =>
      obtain ⟨hfits, hrest⟩ := hfit
      obtain ⟨o, t, hserve, hpost⟩ := call_agrees hX hN hS hsmall hfits hrounds s hrep
      have hsmall' := hsmall.posix hfits
      -- the outcome is that of POSIX, or a call has failed
      have hcases : (o = Except.mapError some (posix platform.maximumOffset r f).1 ∧
          Rep platform names view content b v n (posix platform.maximumOffset r f).2 t) ∨
          Failed t.fx.2 := by
        cases o with
        | ok reply =>
            obtain ⟨hreply, ht⟩ := hpost
            exact .inl ⟨by rw [hreply]; rfl, ht⟩
        | error e =>
            rcases hpost with ⟨e', rfl, he, ht⟩ | hfailed
            · exact .inl ⟨by rw [he]; rfl, ht⟩
            · exact .inr hfailed
      rcases hcases with ⟨rfl, ht⟩ | hfailed
      · rcases ih ht hsmall' hrest with ⟨s', hrun, hs'⟩ | ⟨k, hk, os, s', hrun, hfailed⟩
        · exact .inl ⟨s', by simp [serveRun, hserve, hrun, posixRun], hs'⟩
        · refine .inr ⟨k + 1, by simpa using hk,
            Except.mapError some (posix platform.maximumOffset r f).1 :: os, s', ?_, hfailed⟩
          simp [serveRun, hserve, hrun]
      · refine .inr ⟨1, by simp, [o], t, ?_, hfailed⟩
        simp [serveRun, hserve]

end Runs

/-! ## The two results on a volume with one file -/

section Witness

open SmallVolume

/-- The largest file takes this many rounds. -/
def roundsPlatform : Platform := { mountedPlatform with rounds := 0x400001 }

/-- A file of four bytes that is open for read and write, with room for four more. -/
def fourBytes : OpenFile := ⟨⟨[1, 2, 3, 4], 0⟩, true, true, false⟩

def fourBytesState : State (SmallVolume × Log) :=
  { State.initial roundsPlatform ((⟨some (0, [1, 2, 3, 4]), 1, 8, fun c =>
      if c = firstBlock then some ⟨node 0, .forWrite, 0⟩ else none⟩ : SmallVolume), []) with
    descriptors := fun c =>
      if c = firstBlock then
        ⟨some .flash, flashFile, 0, true, true, true, false, true, some .forWrite⟩
      else .empty }

theorem rep_fourBytes : Rep roundsPlatform SmallVolume.names SmallVolume.handles
    SmallVolume.content firstBlock .flash (.file 0) fourBytes fourBytesState where
  content := by decide
  position := rfl
  bound := ⟨rfl, [[97]], entry_flashFile, by decide⟩
  readable := rfl
  writable := rfl
  append := rfl
  handle mode hmode := by
    cases hmode
    exact ⟨0, rfl⟩
  sole c hc h hh := by
    have hnone : fourBytesState.fx.1.handles c = none := if_neg hc
    rw [hnone] at hh
    cases hh
  alone c hc halloc := by
    have hempty : fourBytesState.descriptors c = .empty := if_neg hc
    rw [hempty] at halloc
    cases halloc

theorem small_fourBytes : fourBytes.Small roundsPlatform.maximumOffset :=
  ⟨by decide, by decide⟩

/-- Past the end, back, over the gap, and a truncation. -/
def seekAndWrite : List FileRequest :=
  [.lseek 2 .fileEnd, .write (some [9]) 1, .lseek 3 .set, .read true 9, .ftruncate 2,
    .lseek (-9) .current, .read true 9]

theorem posix_run_seekAndWrite :
    ∃ s', serveRun smallVolume.traced roundsPlatform firstBlock seekAndWrite fourBytesState =
        some ([.ok (.number 6), .ok (.number 1), .ok (.number 3), .ok (.bytes [4, 0, 0, 9]),
          .ok .done, .error (some .EINVAL), .ok (.bytes [])], s') ∧
      s'.fx.1.content (node 0) = [1, 2] ∧ (s'.descriptors firstBlock).position = 7 := by
  have hfit : AllFit roundsPlatform.maximumOffset seekAndWrite fourBytes := by decide
  rcases posix_run smallVolume_documented smallVolume_keeps smallVolume_stores (by decide)
    rep_fourBytes small_fourBytes hfit with ⟨s', hrun, hs'⟩ | ⟨k, hk, os, s', hrun, hfailed⟩
  · exact ⟨s', hrun, hs'.content, hs'.position⟩
  · have hgood : ∀ k ≤ seekAndWrite.length,
        (serveRun smallVolume.traced roundsPlatform firstBlock (seekAndWrite.take k)
          fourBytesState).map (fun r => decide (Failed r.2.fx.2)) = some false := by
      decide +kernel
    have := hgood k hk
    rw [hrun] at this
    simp [hfailed] at this

end Witness

end Libc
end NucleoBase
