/-
  NucleoBase.Libc.Normalize

  `normalize_path_unlocked` (libc/filesystem.cpp) on its character arrays, loop
  by loop, and what it computes: the path as a list of components in which
  `".."` takes the last one away.  `normalizePath`, which the calls of the
  adapter use, is the same function on strings.

  A run that reads or writes outside of an array, or does not end, has no result.
-/

import NucleoBase.Lib.CharArray
import NucleoBase.Libc.PathName
import Mathlib.Data.List.TakeWhile

namespace NucleoBase
namespace Libc

open Lib CharArray

/-! ## The code -/

/-- The array `source` and `source_length` before the path is appended. -/
def startSource (currentDirectory : Bytes) (first : UInt8) :
    Option (Except Errno (Bytes × Nat)) := do
  let source := List.replicate maximumPath 0
  if isSeparator first then pure (.ok (source, 0))
  else do
    let length ← strlen currentDirectory
    if maximumPath ≤ length then pure (.error .ENAMETOOLONG)
    else do
      let source ← copy source 0 (← load currentDirectory 0 length)
      if 1 < length ∧ source[length - 1]? ≠ some slash then do
        let source ← store source length slash
        pure (.ok (source, length + 1))
      else pure (.ok (source, length))

/-- `--output_length` back to the separator of the last component. -/
def dropName (output : Bytes) : Nat → Option Nat
  | 0 => some 0
  | 1 => some 1
  | n + 2 => do
      let last ← output[n + 1]?
      if last = slash then pure (n + 2) else dropName output (n + 1)

/-- The output after `".."`, and its length. -/
def storeParent (output : Bytes) (outputLength : Nat) : Option (Bytes × Nat) := do
  let length ← dropName output (outputLength - 1)
  let length := if 1 < length then length - 1 else length
  let output ← store output length 0
  pure (output, length)

/-- The separator in front of a component that is not the first. -/
def storeSlash (output : Bytes) (outputLength : Nat) : Option (Bytes × Nat) := do
  if outputLength ≠ 1 then do
    let output ← store output outputLength slash
    pure (output, outputLength + 1)
  else pure (output, outputLength)

/-- One component: the output and its length, unless it fails. -/
def storeComponent (output : Bytes) (outputLength : Nat) (component : Bytes) :
    Option (Bytes × Except Errno Nat) := do
  if component = [] ∨ component = [dot] then pure (output, .ok outputLength)
  else if component = [dot, dot] then
    if outputLength = 1 then pure (output, .error .EACCES)
    else do
      let (output, length) ← storeParent output outputLength
      pure (output, .ok length)
  else if outputLength ≠ 1 ∧ maximumPath ≤ outputLength + 1 then
    pure (output, .error .ENAMETOOLONG)
  else do
    let (output, length) ← storeSlash output outputLength
    if maximumPath - length ≤ component.length then pure (output, .error .ENAMETOOLONG)
    else do
      let output ← copy output length component
      let output ← store output (length + component.length) 0
      pure (output, .ok (length + component.length))

/-- The loop over the source, for at most so many rounds. -/
def normalizeLoop (source : Bytes) : Nat → Nat → Bytes → Nat → Option (Bytes × Option Errno)
  | 0, _, _, _ => none
  | rounds + 1, cursor, output, outputLength => do
      let c ← source[cursor]?
      if c = 0 then pure (output, none)
      else do
        let component ← scan isSeparator source cursor
        let cursor ← scan (fun c => c ≠ 0 && !isSeparator c) source component
        let name ← load source component (cursor - component)
        match ← storeComponent output outputLength name with
        | (output, .error e) => pure (output, some e)
        | (output, .ok length) => normalizeLoop source rounds cursor output length

/-- `normalize_path_unlocked`: the output and the error, if any. -/
def normalizePathUnlocked (currentDirectory : Bytes) (path : Option (CString UInt8))
    (output : Bytes) : Option (Bytes × Option Errno) :=
  match path.map CString.bytes with
  | none => some (output, some .ENOENT)
  | some [] => some (output, some .ENOENT)
  | some (first :: rest) => do
      match ← startSource currentDirectory first with
      | .error e => pure (output, some e)
      | .ok (source, sourceLength) =>
          if source.length - sourceLength ≤ (first :: rest).length then
            pure (output, some .ENAMETOOLONG)
          else do
            let source ← copy source sourceLength (first :: rest ++ [0])
            let output ← store output 0 slash
            let output ← store output 1 0
            normalizeLoop source source.length 0 output 1

/-! ## What it computes -/

/-- The path, or the current directory and the path. -/
def joined (cs : List Bytes) (path : Bytes) : Bytes :=
  if path.head?.any isSeparator then path else renderTail cs ++ slash :: path

/-- What one component does to a path. -/
def stepComponent (ds : List Bytes) (c : Bytes) : Except Errno (List Bytes) :=
  if c = [] ∨ c = [dot] then .ok ds
  else if c = [dot, dot] then
    if ds = [] then .error .EACCES else .ok ds.dropLast
  else .ok (ds ++ [c])

/-- The components that a path stands for in the directory `cs`. -/
def normalForm (cs : List Bytes) : Option Bytes → Except Errno (List Bytes)
  | none => .error .ENOENT
  | some [] => .error .ENOENT
  | some path =>
      if 255 < (joined cs path).length then .error .ENAMETOOLONG
      else ((joined cs path).splitOnP isSeparator).foldlM stepComponent []

/-! ## One component -/

/-- The output array holds a path with these components. -/
structure Output (output : Bytes) (ds : List Bytes) : Prop where
  holds : Holds output (render ds)
  size : output.length = maximumPath
  components : ∀ c ∈ ds, IsComponent c

theorem Output.isNormal {output : Bytes} {ds : List Bytes} (h : Output output ds) :
    IsNormal (render ds) ds where
  components := h.components
  eq := rfl
  length := h.size ▸ h.holds.length_lt

theorem render_append_one (ds : List Bytes) (c : Bytes) :
    render (ds ++ [c]) = renderTail ds ++ slash :: c := by
  rw [render_of_ne (by simp), renderTail_append]
  simp [renderTail]

theorem nul_renderTail {ds : List Bytes} (h : 0 ∉ render ds) : 0 ∉ renderTail ds := by
  cases ds with
  | nil => simp [renderTail]
  | cons d ds => exact h

theorem length_render (ds : List Bytes) :
    (render ds).length = max 1 (renderTail ds).length := by
  cases ds with
  | nil => rfl
  | cons d ds =>
      rw [render_cons, renderTail, List.length_cons]
      omega

/-- The loop goes back to the last separator. -/
theorem dropName_eq {output pre m : Bytes} (h : pre ++ slash :: m <+: output) (hm : slash ∉ m) :
    dropName output (pre.length + 1 + m.length) = some (pre.length + 1) := by
  induction m using List.reverseRecOn with
  | nil =>
      cases hpre : pre.length with
      | zero => rfl
      | succ n =>
          have hget := getElem?_of_prefix h
          rw [hpre] at hget
          simp only [dropName, List.length_nil, Nat.add_zero, hget]
          rfl
  | append_singleton m d ih =>
      rw [List.mem_append, List.mem_singleton, not_or] at hm
      have hsplit : (pre ++ slash :: m) ++ d :: [] <+: output := by simpa using h
      have hget := getElem?_of_prefix hsplit
      rw [List.length_append, List.length_cons, ← Nat.add_assoc] at hget
      have hrest := ih ((List.prefix_append _ _).trans hsplit) hm.1
      have hlen : pre.length + 1 + (m ++ [d]).length = pre.length + m.length + 2 := by
        rw [List.length_append, List.length_singleton]
        omega
      rw [hlen]
      simp only [dropName, hget]
      change (if d = slash then _ else _) = _
      rw [if_neg fun hd => hm.2 hd.symm, Nat.add_right_comm, hrest]

theorem storeParent_eq {output : Bytes} {ds : List Bytes} {c : Bytes}
    (h : Output output (ds ++ [c])) :
    ∃ output', storeParent output (render (ds ++ [c])).length =
      some (output', (render ds).length) ∧ Output output' ds := by
  have hc : IsComponent c := h.components c (by simp)
  have hstart := (List.prefix_append _ _).trans h.holds.start
  have hended := h.holds.ended
  rw [render_append_one] at hstart hended ⊢
  obtain ⟨m, d, hmd⟩ : ∃ m d, c = m ++ [d] :=
    ⟨c.dropLast, c.getLast hc.ne_nil, (List.dropLast_append_getLast hc.ne_nil).symm⟩
  have hslash : slash ∉ m := fun hmem => hc.slash_not_mem (by simp [hmd, hmem])
  have hname : renderTail ds ++ slash :: m <+: renderTail ds ++ slash :: c := by simp [hmd]
  have hdrop := dropName_eq (hname.trans hstart) hslash
  have hlen : (renderTail ds ++ slash :: c).length - 1 = (renderTail ds).length + 1 + m.length := by
    simp only [hmd, List.length_append, List.length_cons, List.length_nil]
    omega
  have hkeep : (if 1 < (renderTail ds).length + 1 then (renderTail ds).length + 1 - 1
      else (renderTail ds).length + 1) = (render ds).length := by
    rw [length_render]
    split <;> omega
  -- what is left is a prefix of what was there
  have hpre : render ds <+: renderTail ds ++ slash :: c := by
    cases ds with
    | nil => exact ⟨c, rfl⟩
    | cons e ds => exact List.prefix_append _ _
  have hlt : (render ds).length < output.length := by
    have hle := hstart.length_le
    rw [length_render]
    simp only [List.length_append, List.length_cons, hmd, List.length_nil] at hle
    omega
  obtain ⟨output', hstore, hholds, hsize⟩ := Holds.of_store (hpre.trans hstart) hlt
    fun hmem => hended (hpre.subset hmem)
  refine ⟨output', ?_, hholds, hsize.trans h.size, fun a ha => h.components a (by simp [ha])⟩
  rw [storeParent, hlen, hdrop]
  simp only [Option.bind_eq_bind, Option.bind_some, hkeep, hstore]
  rfl

theorem storeSlash_eq {output : Bytes} {ds : List Bytes} (h : Output output ds)
    (hroom : (renderTail ds).length + 1 < maximumPath) :
    ∃ output', storeSlash output (render ds).length =
        some (output', (renderTail ds).length + 1) ∧
      renderTail ds ++ [slash] <+: output' ∧ output'.length = maximumPath := by
  have hone := length_render_one h.components
  have hstart := (List.prefix_append _ _).trans h.holds.start
  by_cases hds : ds = []
  · subst hds
    refine ⟨output, ?_, hstart, h.size⟩
    rw [storeSlash, if_neg (by simp [hone])]
    rfl
  · rw [render_of_ne hds] at hstart hone ⊢
    obtain ⟨output', hstore, hpre, hsize⟩ :=
      store_of_prefix hstart (by rw [h.size]; omega) slash
    refine ⟨output', ?_, hpre, hsize.trans h.size⟩
    rw [storeSlash, if_pos (by simp [hone, hds]), hstore]
    rfl

/-- A name is appended, and none of the checks of the length fails. -/
theorem storeComponent_push {output c : Bytes} {ds : List Bytes} (h : Output output ds)
    (hc : IsComponent c) (hended : 0 ∉ c)
    (hroom : (renderTail ds).length + 1 + c.length < maximumPath) :
    ∃ output', storeComponent output (render ds).length c =
      some (output', .ok (render (ds ++ [c])).length) ∧ Output output' (ds ++ [c]) := by
  have hpos : 0 < c.length := List.length_pos_iff.mpr hc.ne_nil
  have hlen := length_render ds
  obtain ⟨middle, hslash, hmiddle, hmiddleSize⟩ := storeSlash_eq h (by omega)
  have hmiddleLen : (renderTail ds ++ [slash]).length = (renderTail ds).length + 1 := by simp
  obtain ⟨copied, hcopy, hcopied, hcopiedSize⟩ :=
    copy_of_prefix (t := c) hmiddle (by rw [hmiddleLen, hmiddleSize]; omega)
  have hcopiedLen : (renderTail ds ++ [slash] ++ c).length =
      (renderTail ds).length + 1 + c.length := by simp; omega
  have hrender : render (ds ++ [c]) = renderTail ds ++ [slash] ++ c := by
    rw [render_append_one]
    simp
  have hnul : 0 ∉ renderTail ds ++ [slash] ++ c := by
    simp [nul_renderTail h.holds.ended, hended, slash]
  obtain ⟨output', hstore, hholds, hsize⟩ :=
    Holds.of_store hcopied (by rw [hcopiedLen, hcopiedSize, hmiddleSize]; omega) hnul
  rw [hmiddleLen] at hcopy
  rw [hcopiedLen] at hstore
  refine ⟨output', ?_, by rw [hrender]; exact hholds,
    hsize.trans (hcopiedSize.trans hmiddleSize), ?_⟩
  · have hfits : ¬ ((render ds).length ≠ 1 ∧ maximumPath ≤ (render ds).length + 1) := by omega
    rw [storeComponent, if_neg (by simp [hc.ne_nil, hc.ne_dot]), if_neg hc.ne_dots,
      if_neg hfits, hslash]
    simp only [Option.bind_eq_bind, Option.bind_some]
    rw [if_neg (by omega), hcopy]
    simp only [Option.bind_some, hstore]
    rw [hrender, hcopiedLen]
    rfl
  · intro a ha
    rcases List.mem_append.mp ha with ha | ha
    · exact h.components a ha
    · rw [List.mem_singleton.mp ha]
      exact hc

/-- The array and its length after one component. -/
theorem storeComponent_eq {output c : Bytes} {ds : List Bytes} (h : Output output ds)
    (hc : ∀ b ∈ c, isSeparator b = false) (hended : 0 ∉ c)
    (hroom : (renderTail ds).length + 1 + c.length < maximumPath) :
    match stepComponent ds c with
    | .error e => storeComponent output (render ds).length c = some (output, .error e)
    | .ok ds' => ∃ output', storeComponent output (render ds).length c =
        some (output', .ok (render ds').length) ∧ Output output' ds' ∧
        (renderTail ds').length ≤ (renderTail ds).length + 1 + c.length := by
  have hone := length_render_one h.components
  by_cases hskip : c = [] ∨ c = [dot]
  · rw [stepComponent, if_pos hskip]
    refine ⟨output, ?_, h, by omega⟩
    rw [storeComponent, if_pos hskip]
    rfl
  by_cases hdots : c = [dot, dot]
  · rw [stepComponent, if_neg hskip, if_pos hdots]
    by_cases hroot : ds = []
    · rw [if_pos hroot]
      simp only []
      rw [storeComponent, if_neg hskip, if_pos hdots, if_pos (hone.mpr hroot)]
      rfl
    · rw [if_neg hroot]
      have hsplit := List.dropLast_append_getLast hroot
      have hparent := storeParent_eq (hsplit ▸ h)
      rw [hsplit] at hparent
      obtain ⟨output', hstore, houtput⟩ := hparent
      refine ⟨output', ?_, houtput, ?_⟩
      · rw [storeComponent, if_neg hskip, if_pos hdots, if_neg (mt hone.mp hroot), hstore]
        rfl
      · rw [← hsplit, renderTail_append, List.length_append, List.dropLast_concat]
        omega
  · have hcomponent : IsComponent c :=
      ⟨fun hnil => hskip (.inl hnil), fun hdot => hskip (.inr hdot), hdots, hc⟩
    rw [stepComponent, if_neg hskip, if_neg hdots]
    obtain ⟨output', hstore, houtput⟩ := storeComponent_push h hcomponent hended hroom
    refine ⟨output', hstore, houtput, ?_⟩
    simp only [renderTail_append, renderTail, List.length_append, List.length_cons,
      List.length_nil]
    omega

/-! ## The loop -/

/-- What the pieces of a source do to a path, one after another. -/
def stepSource (ds : List Bytes) (source : Bytes) : Except Errno (List Bytes) :=
  (source.splitOnP isSeparator).foldlM stepComponent ds

/-- A string that is empty or starts with a separator. -/
def AtSeparator (t : Bytes) : Prop := ∀ c ∈ t.head?, isSeparator c = true

theorem stepComponent_nil (ds : List Bytes) : stepComponent ds [] = .ok ds := if_pos (.inl rfl)

@[simp] theorem stepSource_nil (ds : List Bytes) : stepSource ds [] = .ok ds := by
  rw [stepSource, List.splitOnP_nil, List.foldlM_cons, stepComponent_nil]
  rfl

theorem stepSource_separator {c : UInt8} (hc : isSeparator c = true) (ds : List Bytes)
    (t : Bytes) : stepSource ds (c :: t) = stepSource ds t := by
  rw [stepSource, List.splitOnP_cons_eq_if_modifyHead, hc, if_pos rfl, List.foldlM_cons,
    stepComponent_nil]
  rfl

theorem stepSource_separators {m : Bytes} (hm : ∀ c ∈ m, isSeparator c = true) (ds : List Bytes)
    (t : Bytes) : stepSource ds (m ++ t) = stepSource ds t := by
  induction m with
  | nil => rfl
  | cons c m ih =>
      rw [List.cons_append, stepSource_separator (hm c List.mem_cons_self),
        ih fun d hd => hm d (List.mem_cons_of_mem c hd)]

/-- A component and what follows it are done one after the other. -/
theorem stepSource_component {c t : Bytes} (hc : ∀ b ∈ c, isSeparator b = false)
    (ht : AtSeparator t) (ds : List Bytes) :
    stepSource ds (c ++ t) = (stepComponent ds c).bind (stepSource · t) := by
  have hpieces : (c ++ t).splitOnP isSeparator = c :: (t.splitOnP isSeparator).tail ∧
      t.splitOnP isSeparator = [] :: (t.splitOnP isSeparator).tail := by
    rw [splitOnP_component hc]
    cases t with
    | nil => simp
    | cons b t =>
        rw [List.splitOnP_cons_eq_if_modifyHead, ht b rfl, if_pos rfl]
        simp
  rw [stepSource, hpieces.1, List.foldlM_cons]
  cases hstep : stepComponent ds c with
  | error e => rfl
  | ok ds' =>
      simp only [Except.bind]
      rw [stepSource, hpieces.2, List.foldlM_cons, stepComponent_nil]
      rfl

/-- What one round of the loop goes over: separators and a component. -/
theorem exists_round {t : Bytes} (ht : AtSeparator t) (hne : t ≠ []) :
    ∃ m c rest, t = m ++ (c ++ rest) ∧ m ≠ [] ∧ (∀ b ∈ m, isSeparator b = true) ∧
      (∀ b ∈ c, isSeparator b = false) ∧ AtSeparator rest ∧ (c = [] → rest = []) := by
  obtain ⟨b, t, rfl⟩ := List.exists_cons_of_ne_nil hne
  have hb : isSeparator b = true := ht b rfl
  refine ⟨(b :: t).takeWhile isSeparator,
    ((b :: t).dropWhile isSeparator).takeWhile (!isSeparator ·),
    ((b :: t).dropWhile isSeparator).dropWhile (!isSeparator ·), ?_, ?_, ?_, ?_, ?_, ?_⟩
  · rw [List.takeWhile_append_dropWhile, List.takeWhile_append_dropWhile]
  · rw [List.takeWhile_cons_of_pos hb]
    exact List.cons_ne_nil _ _
  · exact fun d hd => List.mem_takeWhile_imp hd
  · intro d hd
    simpa using List.mem_takeWhile_imp hd
  · intro d hd
    have hhead := List.head?_dropWhile_not (!isSeparator ·) ((b :: t).dropWhile isSeparator)
    rw [Option.mem_def] at hd
    simpa [hd] using hhead
  · intro hnil
    have hhead := List.head?_dropWhile_not isSeparator (b :: t)
    cases hdrop : (b :: t).dropWhile isSeparator with
    | nil => rfl
    | cons d r =>
        rw [hdrop] at hnil hhead
        simp only [List.head?_cons] at hhead
        rw [List.takeWhile_cons_of_pos (by simpa using hhead)] at hnil
        exact absurd hnil (List.cons_ne_nil _ _)

/-- The reads of one round. -/
theorem round_reads {source u m c rest : Bytes} (hsource : u ++ m ++ c ++ rest ++ [0] <+: source)
    (hm : ∀ b ∈ m, isSeparator b = true) (hc : ∀ b ∈ c, isSeparator b = false) (hended : 0 ∉ c)
    (hrest : AtSeparator rest) (hlast : c = [] → rest = []) :
    scan isSeparator source u.length = some (u ++ m).length ∧
      scan (fun b => b ≠ 0 && !isSeparator b) source (u ++ m).length =
        some (u ++ m ++ c).length ∧
      load source (u ++ m).length c.length = some c := by
  have hname : ∀ b ∈ c, (decide (b ≠ 0) && !isSeparator b) = true := by
    intro b hb
    have hne : b ≠ 0 := fun hzero => hended (hzero ▸ hb)
    rw [hc b hb, decide_eq_true hne]
    rfl
  refine ⟨?_, ?_, load_of_prefix ((List.prefix_append _ (rest ++ [0])).trans ?_)⟩
  · rw [List.length_append]
    cases c with
    | nil =>
        rw [hlast rfl, List.append_nil, List.append_nil] at hsource
        exact scan_of_prefix (t := []) hsource hm rfl
    | cons b c =>
        refine scan_of_prefix (t := c ++ rest ++ [0]) (c := b) ?_ hm (hc b List.mem_cons_self)
        simpa using hsource
  · have hlen : (u ++ m ++ c).length = (u ++ m).length + c.length := List.length_append
    rw [hlen]
    cases rest with
    | nil =>
        rw [List.append_nil] at hsource
        exact scan_of_prefix (t := []) hsource hname rfl
    | cons b rest =>
        refine scan_of_prefix (t := rest ++ [0]) (c := b) ?_ hname ?_
        · simpa using hsource
        · rw [hrest b rfl, Bool.not_true, Bool.and_false]
  · rwa [List.append_assoc] at hsource

/-- What a run of the code leaves, if it should give these components or this error. -/
def Outcome (r : Option (Bytes × Option Errno)) (expected : Except Errno (List Bytes)) : Prop :=
  ∃ output error, r = some (output, error) ∧
    match expected with
    | .error e => error = some e
    | .ok ds => error = none ∧ Output output ds

/-- The loop does to the array what the rest of the source does to the path. -/
theorem normalizeLoop_outcome {source u t output : Bytes} {ds : List Bytes} {rounds : Nat}
    (hsource : u ++ t ++ [0] <+: source) (hended : 0 ∉ t) (ht : AtSeparator t)
    (houtput : Output output ds) (hroom : (renderTail ds).length + t.length < maximumPath)
    (hrounds : t.length < rounds) :
    Outcome (normalizeLoop source rounds u.length output (render ds).length)
      (stepSource ds t) := by
  induction rounds generalizing u t output ds with
  | zero => omega
  | succ rounds ih =>
      by_cases hne : t = []
      · subst hne
        rw [List.append_nil] at hsource
        refine ⟨output, none, ?_, ?_⟩
        · rw [normalizeLoop, getElem?_of_prefix hsource]
          rfl
        · rw [stepSource_nil]
          exact ⟨rfl, houtput⟩
      obtain ⟨m, c, rest, rfl, hm, hms, hcs, hrest, hlast⟩ := exists_round ht hne
      simp only [List.mem_append, not_or] at hended
      simp only [List.length_append] at hroom hrounds
      have hmpos : 0 < m.length := List.length_pos_iff.mpr hm
      have hparts : u ++ m ++ c ++ rest ++ [0] <+: source := by simpa using hsource
      obtain ⟨hscan, hscan', hload⟩ := round_reads hparts hms hcs hended.2.1 hrest hlast
      have hfirst : ∃ b, source[u.length]? = some b ∧ b ≠ 0 := by
        obtain ⟨b, m, rfl⟩ := List.exists_cons_of_ne_nil hm
        refine ⟨b, ?_, fun hzero => hended.1 (by simp [hzero])⟩
        exact getElem?_of_prefix (t := m ++ c ++ rest ++ [0]) (by simpa using hsource)
      obtain ⟨b, hfirst, hb⟩ := hfirst
      have hlen : (u ++ m ++ c).length - (u ++ m).length = c.length := by
        have hsum : (u ++ m ++ c).length = (u ++ m).length + c.length := List.length_append
        rw [hsum, Nat.add_sub_cancel_left]
      have hround : normalizeLoop source (rounds + 1) u.length output (render ds).length =
          (storeComponent output (render ds).length c).bind fun r =>
            match r with
            | (output, .error e) => some (output, some e)
            | (output, .ok length) =>
                normalizeLoop source rounds (u ++ m ++ c).length output length := by
        rw [normalizeLoop, hfirst]
        simp only [Option.bind_eq_bind, Option.bind_some, if_neg hb, hscan, hscan', hlen, hload]
        rfl
      have hstep := storeComponent_eq houtput hcs hended.2.1 (by omega)
      rw [hround, stepSource_separators hms, stepSource_component hcs hrest]
      cases hnext : stepComponent ds c with
      | error e =>
          rw [hnext] at hstep
          simp only [] at hstep
          rw [hstep]
          exact ⟨output, some e, rfl, rfl⟩
      | ok ds' =>
          rw [hnext] at hstep
          obtain ⟨output', hstore, houtput', hlonger⟩ := hstep
          rw [hstore]
          exact ih (by simpa using hsource) hended.2.2 hrest houtput' (by omega) (by omega)

/-! ## The whole function -/

/-- The source starts with the current directory and a separator. -/
theorem startSource_relative {currentDirectory : Bytes} {cs : List Bytes} {first : UInt8}
    (hcurrent : Holds currentDirectory (render cs)) (hnormal : IsNormal (render cs) cs)
    (hfirst : isSeparator first = false) :
    ∃ source, startSource currentDirectory first =
        some (.ok (source, (renderTail cs ++ [slash]).length)) ∧
      renderTail cs ++ [slash] <+: source ∧ source.length = maximumPath := by
  have hlength := hnormal.length
  obtain ⟨copied, hcopy, hcopied, hsize⟩ :=
    copy_of_prefix (t := render cs) (List.nil_prefix (l := List.replicate maximumPath (0 : UInt8)))
      (by simp only [List.length_nil, List.length_replicate]; omega)
  rw [List.nil_append] at hcopied
  rw [List.length_nil] at hcopy
  rw [List.length_replicate] at hsize
  have hstart : startSource currentDirectory first =
      if 1 < (render cs).length ∧ copied[(render cs).length - 1]? ≠ some slash then
        (store copied (render cs).length slash).bind fun source =>
          some (.ok (source, (render cs).length + 1))
      else some (.ok (copied, (render cs).length)) := by
    rw [startSource, hfirst, if_neg Bool.noConfusion, hcurrent.strlen]
    simp only [Option.bind_eq_bind, Option.bind_some]
    rw [if_neg (by omega), hcurrent.load]
    simp only [Option.bind_some, hcopy]
    rfl
  cases hcs : cs.reverse with
  | nil =>
      rw [List.reverse_eq_nil_iff] at hcs
      subst hcs
      exact ⟨copied, by rw [hstart, if_neg fun h => absurd h.1 (by decide)]; rfl, hcopied, hsize⟩
  | cons c ds =>
      obtain rfl : cs = ds.reverse ++ [c] := by
        rw [← List.reverse_reverse cs, hcs, List.reverse_cons]
      have hc : IsComponent c := hnormal.components c (by simp)
      have hne : ds.reverse ++ [c] ≠ [] := by simp
      rw [render_of_ne hne] at hstart hcopied hlength
      -- the last character is the component's
      obtain ⟨m, d, rfl⟩ : ∃ m d, c = m ++ [d] :=
        ⟨c.dropLast, c.getLast hc.ne_nil, (List.dropLast_append_getLast hc.ne_nil).symm⟩
      have hd : d ≠ slash := fun h => hc.slash_not_mem (by simp [h])
      have htail : renderTail (ds.reverse ++ [m ++ [d]]) =
          renderTail ds.reverse ++ slash :: m ++ [d] := by simp [renderTail]
      have hlast : copied[(renderTail (ds.reverse ++ [m ++ [d]])).length - 1]? = some d := by
        rw [htail] at hcopied ⊢
        have hlen : (renderTail ds.reverse ++ slash :: m ++ [d]).length - 1 =
            (renderTail ds.reverse ++ slash :: m).length := by
          rw [List.length_append, List.length_singleton, Nat.add_sub_cancel]
        rw [hlen]
        exact getElem?_of_prefix hcopied
      have hlong : 1 < (renderTail (ds.reverse ++ [m ++ [d]])).length := by
        rw [htail]
        simp
        omega
      obtain ⟨source, hstore, hsource, hsourceSize⟩ :=
        store_of_prefix hcopied (by rw [hsize]; exact hlength) slash
      refine ⟨source, ?_, hsource, hsourceSize.trans hsize⟩
      rw [hstart, if_pos ⟨hlong, by rw [hlast]; simpa using hd⟩, hstore, List.length_append]
      rfl

/-- What the source starts with is what is joined to the path. -/
theorem startSource_joined {currentDirectory : Bytes} {cs : List Bytes}
    (hcurrent : Holds currentDirectory (render cs)) (hnormal : IsNormal (render cs) cs)
    (first : UInt8) (rest : Bytes) :
    ∃ source u, startSource currentDirectory first = some (.ok (source, u.length)) ∧
      u <+: source ∧ source.length = maximumPath ∧ 0 ∉ u ∧
      joined cs (first :: rest) = u ++ first :: rest := by
  by_cases hfirst : isSeparator first = true
  · refine ⟨List.replicate maximumPath 0, [], ?_, List.nil_prefix, List.length_replicate,
      List.not_mem_nil, ?_⟩
    · rw [startSource, if_pos hfirst]
      rfl
    · rw [joined, List.head?_cons, Option.any_some, if_pos hfirst, List.nil_append]
  · obtain ⟨source, hstart, hu, hsize⟩ :=
      startSource_relative hcurrent hnormal (Bool.eq_false_iff.mpr hfirst)
    refine ⟨source, _, hstart, hu, hsize, ?_, ?_⟩
    · simp [nul_renderTail hcurrent.ended, slash]
    · rw [joined, List.head?_cons, Option.any_some, if_neg hfirst, List.append_assoc]
      rfl

theorem joined_atSeparator (cs : List Bytes) (path : Bytes) : AtSeparator (joined cs path) := by
  rw [joined]
  split
  · next h =>
      intro c hc
      rw [Option.mem_def.mp hc] at h
      exact h
  · intro c hc
    cases cs with
    | nil =>
        cases hc
        rfl
    | cons d cs =>
        cases hc
        rfl

/-- The code does what the component list says, and stays within its arrays. -/
theorem normalizePathUnlocked_outcome {currentDirectory output : Bytes} {cs : List Bytes}
    (hcurrent : Holds currentDirectory (render cs)) (hnormal : IsNormal (render cs) cs)
    (hsize : output.length = maximumPath) (path : Option (CString UInt8)) :
    Outcome (normalizePathUnlocked currentDirectory path output)
      (normalForm cs (path.map CString.bytes)) := by
  rcases path with _ | ⟨path, hended⟩
  · exact ⟨output, _, rfl, rfl⟩
  cases path with
  | nil => exact ⟨output, _, rfl, rfl⟩
  | cons first rest =>
      obtain ⟨source, u, hstart, hu, hsourceSize, hu0, hjoined⟩ :=
        startSource_joined hcurrent hnormal first rest
      have hule : u.length ≤ maximumPath := hsourceSize ▸ hu.length_le
      have hat : AtSeparator (u ++ first :: rest) := hjoined ▸ joined_atSeparator cs _
      have hcode : normalizePathUnlocked currentDirectory (some ⟨first :: rest, hended⟩) output =
          if source.length - u.length ≤ (first :: rest).length then
            some (output, some .ENAMETOOLONG)
          else (copy source u.length (first :: rest ++ [0])).bind fun source =>
            (store output 0 slash).bind fun output =>
              (store output 1 0).bind fun output =>
                normalizeLoop source source.length 0 output 1 := by
        simp only [normalizePathUnlocked, Option.map_some, hstart, Option.bind_eq_bind,
          Option.bind_some]
        rfl
      have hform : normalForm cs (some (first :: rest)) =
          if 255 < (joined cs (first :: rest)).length then .error .ENAMETOOLONG
          else stepSource [] (joined cs (first :: rest)) := rfl
      have hlong : source.length - u.length ≤ (first :: rest).length ↔
          255 < (u ++ first :: rest).length := by
        rw [hsourceSize, List.length_append]
        simp only [maximumPath] at hule ⊢
        omega
      rw [Option.map_some, hcode, hform, hjoined]
      by_cases hover : 255 < (u ++ first :: rest).length
      · rw [if_pos (hlong.mpr hover), if_pos hover]
        exact ⟨output, _, rfl, rfl⟩
      rw [if_neg (mt hlong.mp hover), if_neg hover]
      have hshort : (u ++ first :: rest).length < maximumPath := by
        simp only [maximumPath]
        omega
      obtain ⟨joint, hcopy, hjoint, hjointSize⟩ :=
        copy_of_prefix (t := first :: rest ++ [0]) hu (by
          rw [hsourceSize, List.length_append, List.length_singleton]
          rw [List.length_append] at hshort
          omega)
      obtain ⟨rooted, hroot, hrooted, hrootedSize⟩ :=
        store_of_prefix (a := output) List.nil_prefix (by rw [hsize]; decide) slash
      obtain ⟨empty, hend, hholds, hemptySize⟩ :=
        Holds.of_store hrooted (by rw [hrootedSize, hsize]; decide) (by decide)
      have hempty : Output empty [] :=
        ⟨hholds, hemptySize.trans (hrootedSize.trans hsize), nofun⟩
      have hjoint' : [] ++ (u ++ first :: rest) ++ [0] <+: joint := by simpa using hjoint
      have hnul : 0 ∉ u ++ first :: rest := by
        rw [List.mem_append, not_or]
        exact ⟨hu0, hended⟩
      have hrun := normalizeLoop_outcome hjoint' hnul hat hempty (by simpa [renderTail] using hshort)
        (hshort.trans_eq (hjointSize.trans hsourceSize).symm)
      have hroot' : store output 0 slash = some rooted := hroot
      have hend' : store rooted 1 0 = some empty := hend
      rw [hcopy, Option.bind_some, hroot', Option.bind_some, hend', Option.bind_some]
      exact hrun

/-! ## The function on strings -/

theorem pushComponent_step {ds : List Bytes} {c : Bytes} (hd : ∀ a ∈ ds, IsComponent a)
    (hc : ∀ b ∈ c, isSeparator b = false)
    (hroom : (renderTail ds).length + 1 + c.length < maximumPath) :
    pushComponent (render ds) c = (stepComponent ds c).map render := by
  have hone := length_render_one hd
  by_cases hskip : c = [] ∨ c = [dot]
  · rw [stepComponent, if_pos hskip, pushComponent, if_pos hskip]
    rfl
  by_cases hdots : c = [dot, dot]
  · rw [stepComponent, if_neg hskip, if_pos hdots, pushComponent, if_neg hskip, if_pos hdots]
    by_cases hroot : ds = []
    · rw [if_pos hroot, if_pos (hone.mpr hroot)]
      rfl
    · have hparent : parentOf (render ds) = render ds.dropLast := by
        have hsplit := List.dropLast_append_getLast hroot
        have hlast := hd _ (List.getLast_mem hroot)
        have hrender : parentOf (render (ds.dropLast ++ [ds.getLast hroot])) =
            render ds.dropLast := parentOf_render hlast
        rwa [hsplit] at hrender
      rw [if_neg hroot, if_neg (mt hone.mp hroot), hparent]
      rfl
  · have hcomponent : IsComponent c :=
      ⟨fun hnil => hskip (.inl hnil), fun hdot => hskip (.inr hdot), hdots, hc⟩
    have hlen : (render (ds ++ [c])).length < maximumPath := by
      rw [render_append_one, List.length_append, List.length_cons]
      omega
    rw [stepComponent, if_neg hskip, if_neg hdots, pushComponent_render hd hcomponent hlen]
    rfl

/-- What a component leaves is made of components, and not longer than both. -/
theorem stepComponent_bound {ds ds' : List Bytes} {c : Bytes} (hd : ∀ a ∈ ds, IsComponent a)
    (hc : ∀ b ∈ c, isSeparator b = false) (h : stepComponent ds c = .ok ds') :
    (∀ a ∈ ds', IsComponent a) ∧
      (renderTail ds').length ≤ (renderTail ds).length + 1 + c.length := by
  unfold stepComponent at h
  split at h
  · cases h
    exact ⟨hd, by omega⟩
  next hskip =>
  split at h
  · split at h
    · cases h
    next hroot =>
    cases h
    refine ⟨fun a ha => hd a (List.mem_of_mem_dropLast ha), ?_⟩
    rw [← List.dropLast_append_getLast hroot, renderTail_append, List.length_append,
      List.dropLast_concat]
    omega
  next hdots =>
  cases h
  have hcomponent : IsComponent c :=
    ⟨fun hnil => hskip (.inl hnil), fun hdot => hskip (.inr hdot), hdots, hc⟩
  refine ⟨fun a ha => ?_, ?_⟩
  · rcases List.mem_append.mp ha with ha | ha
    · exact hd a ha
    · rw [List.mem_singleton.mp ha]
      exact hcomponent
  · simp only [renderTail_append, renderTail, List.length_append, List.length_cons,
      List.length_nil]
    omega

theorem pushComponents_step {pieces ds : List Bytes} (hd : ∀ a ∈ ds, IsComponent a)
    (hpieces : ∀ c ∈ pieces, ∀ b ∈ c, isSeparator b = false)
    (hroom : (renderTail ds).length + (renderTail pieces).length < maximumPath) :
    pushComponents (render ds) pieces = (pieces.foldlM stepComponent ds).map render := by
  induction pieces generalizing ds with
  | nil => rfl
  | cons c pieces ih =>
      have hc := hpieces c List.mem_cons_self
      simp only [renderTail, List.length_cons, List.length_append] at hroom
      rw [pushComponents, List.foldlM_cons, pushComponent_step hd hc (by omega)]
      cases hstep : stepComponent ds c with
      | error e => rfl
      | ok ds' =>
          obtain ⟨hd', hlonger⟩ := stepComponent_bound hd hc hstep
          exact ih hd' (fun a ha => hpieces a (List.mem_cons_of_mem c ha)) (by omega)

/-- A source is its pieces, each with its separator in front, less the first separator. -/
theorem length_splitOnP (t : Bytes) :
    (renderTail (t.splitOnP isSeparator)).length = t.length + 1 := by
  induction t with
  | nil => rfl
  | cons c t ih =>
      rw [List.splitOnP_cons_eq_if_modifyHead]
      cases hpieces : t.splitOnP isSeparator with
      | nil => exact absurd hpieces (List.splitOnP_ne_nil _ _)
      | cons d pieces =>
          rw [hpieces] at ih
          split <;> simp [renderTail] at ih ⊢ <;> omega

theorem pushComponents_source {t : Bytes} (ht : AtSeparator t) (hne : t ≠ [])
    (hlen : t.length < maximumPath) :
    pushComponents [slash] (t.splitOnP isSeparator) = (stepSource [] t).map render := by
  obtain ⟨c, t, rfl⟩ := List.exists_cons_of_ne_nil hne
  have hpieces : (c :: t).splitOnP isSeparator = [] :: t.splitOnP isSeparator := by
    rw [List.splitOnP_cons_eq_if_modifyHead, ht c rfl, if_pos rfl]
  have hroom : (renderTail (t.splitOnP isSeparator)).length < maximumPath := by
    rw [length_splitOnP]
    exact hlen
  have hfirst : pushComponents [slash] ([] :: t.splitOnP isSeparator) =
      pushComponents [slash] (t.splitOnP isSeparator) := by
    rw [pushComponents, pushComponent, if_pos (.inl rfl)]
    rfl
  have hroot : render [] = [slash] := rfl
  rw [stepSource_separator (ht c rfl), hpieces, hfirst, ← hroot]
  refine pushComponents_step (fun a ha => absurd ha List.not_mem_nil)
    (splitOnP_no_separator t) ?_
  rwa [renderTail, List.length_nil, Nat.zero_add]

theorem startOf_eq {cs : List Bytes} {first : UInt8} (hnormal : IsNormal (render cs) cs)
    (hfirst : isSeparator first = false) :
    startOf (render cs) first = .ok (renderTail cs ++ [slash]) := by
  rw [startOf, hfirst, if_neg Bool.noConfusion, if_neg (Nat.not_le.mpr hnormal.length)]
  by_cases hcs : cs = []
  · subst hcs
    rfl
  · have hlast := hnormal.components _ (List.getLast_mem hcs)
    have hrender : renderTail cs =
        renderTail cs.dropLast ++ slash :: cs.getLast hcs := by
      conv_lhs => rw [← List.dropLast_append_getLast hcs]
      rw [renderTail_append]
      simp [renderTail]
    have hpos : 0 < (cs.getLast hcs).length := List.length_pos_iff.mpr hlast.ne_nil
    have hlong : 1 < (renderTail cs).length := by
      rw [hrender, List.length_append, List.length_cons]
      omega
    have hend : (renderTail cs).getLast? ≠ some slash := by
      rw [hrender, List.getLast?_append, List.getLast?_cons,
        List.getLast?_eq_some_getLast hlast.ne_nil]
      intro h
      have hmem := List.getLast_mem hlast.ne_nil
      rw [show (cs.getLast hcs).getLast hlast.ne_nil = slash by simpa using h] at hmem
      exact hlast.slash_not_mem hmem
    rw [render_of_ne hcs, if_pos ⟨hlong, hend⟩]

/-- The function on strings gives the same components. -/
theorem normalizePath_eq {cs : List Bytes} (hnormal : IsNormal (render cs) cs)
    (path : Option Bytes) :
    normalizePath (render cs) path = (normalForm cs path).map render := by
  rcases path with _ | path
  · rfl
  cases path with
  | nil => rfl
  | cons first rest =>
      obtain ⟨u, hstart, hule, hjoined⟩ : ∃ u, startOf (render cs) first = .ok u ∧
          u.length ≤ maximumPath ∧ joined cs (first :: rest) = u ++ first :: rest := by
        by_cases hfirst : isSeparator first = true
        · refine ⟨[], by rw [startOf, if_pos hfirst], Nat.zero_le _, ?_⟩
          rw [joined, List.head?_cons, Option.any_some, if_pos hfirst, List.nil_append]
        · refine ⟨_, startOf_eq hnormal (Bool.eq_false_iff.mpr hfirst), ?_, ?_⟩
          · have hlen := hnormal.length
            rw [length_render] at hlen
            rw [List.length_append, List.length_singleton]
            omega
          · rw [joined, List.head?_cons, Option.any_some, if_neg hfirst, List.append_assoc]
            rfl
      have hat : AtSeparator (u ++ first :: rest) := hjoined ▸ joined_atSeparator cs _
      have hform : normalForm cs (some (first :: rest)) =
          if 255 < (joined cs (first :: rest)).length then .error .ENAMETOOLONG
          else stepSource [] (joined cs (first :: rest)) := rfl
      have hlong : (first :: rest).length ≥ maximumPath - u.length ↔
          255 < (u ++ first :: rest).length := by
        rw [List.length_append]
        simp only [maximumPath] at hule ⊢
        omega
      rw [normalizePath, hstart, hform, hjoined]
      simp only [Except.bind]
      by_cases hover : 255 < (u ++ first :: rest).length
      · rw [if_pos (hlong.mpr hover), if_pos hover]
        rfl
      · rw [if_neg (mt hlong.mp hover), if_neg hover]
        refine pushComponents_source hat (by simp) ?_
        simp only [maximumPath]
        omega

/-! ## Normal paths -/

theorem IsNormal.head? {p : Bytes} {cs : List Bytes} (h : IsNormal p cs) :
    p.head? = some slash := by
  rw [h.eq]
  cases cs <;> rfl

theorem backslash_not_mem_renderTail {cs : List Bytes} (h : ∀ c ∈ cs, IsComponent c) :
    backslash ∉ renderTail cs := by
  induction cs with
  | nil => exact List.not_mem_nil
  | cons c cs ih =>
      have hc : backslash ∉ c := fun hmem =>
        absurd ((h c List.mem_cons_self).separator _ hmem) (by decide)
      have hrest := ih fun d hd => h d (List.mem_cons_of_mem c hd)
      rw [renderTail, List.mem_cons, List.mem_append, not_or, not_or]
      exact ⟨by decide, hc, hrest⟩

theorem IsNormal.backslash_not_mem {p : Bytes} {cs : List Bytes} (h : IsNormal p cs) :
    backslash ∉ p := by
  rw [h.eq]
  cases cs with
  | nil => decide
  | cons c cs => exact backslash_not_mem_renderTail h.components

/-- The components of a normal path that is split at its separators. -/
theorem IsNormal.splitOnP {p : Bytes} {cs : List Bytes} (h : IsNormal p cs) (hp : p ≠ [slash]) :
    p.splitOnP isSeparator = [] :: cs := by
  rw [h.eq] at hp ⊢
  cases cs with
  | nil => exact absurd rfl hp
  | cons c cs => exact splitOnP_renderTail h.components

/-- What a caller may rely on: absolute, not too long, and of proper names between slashes. -/
structure WellFormed (p : Bytes) : Prop where
  absolute : p.head? = some slash
  short : p.length < 256
  backslash : backslash ∉ p
  names : p = [slash] ∨ ∃ cs, p.splitOnP isSeparator = [] :: cs ∧
    ∀ c ∈ cs, c ≠ [] ∧ c ≠ [dot] ∧ c ≠ [dot, dot]

theorem IsNormal.wellFormed {p : Bytes} {cs : List Bytes} (h : IsNormal p cs) : WellFormed p where
  absolute := h.head?
  short := h.length
  backslash := h.backslash_not_mem
  names := by
    by_cases hp : p = [slash]
    · exact .inl hp
    · refine .inr ⟨cs, h.splitOnP hp, fun c hc => ?_⟩
      have hcomponent := h.components c hc
      exact ⟨hcomponent.ne_nil, hcomponent.ne_dot, hcomponent.ne_dots⟩

/-- Normalizing a normal path again gives the same components. -/
theorem Outcome.again {currentDirectory output : Bytes} {cs ds : List Bytes}
    {path : CString UInt8} (hcurrent : Holds currentDirectory (render cs))
    (hnormal : IsNormal (render cs) cs) (hsize : output.length = maximumPath)
    (hds : IsNormal (render ds) ds) (hpath : path.bytes = render ds) :
    Outcome (normalizePathUnlocked currentDirectory (some path) output) (.ok ds) := by
  have hrun := normalizePathUnlocked_outcome hcurrent hnormal hsize (some path)
  have hstring := normalizePath_eq hnormal (some path.bytes)
  rw [hpath, hds.normalizePath] at hstring
  rw [Option.map_some, hpath] at hrun
  cases hform : normalForm cs (some (render ds)) with
  | error e =>
      rw [hform] at hstring
      cases hstring
  | ok ds' =>
      rw [hform] at hstring hrun
      have hsame : render ds' = render ds := (Except.ok.inj hstring).symm
      obtain ⟨output', error, hcode, rfl, houtput⟩ := hrun
      exact ⟨output', none, hcode, rfl, hsame ▸ houtput.holds, houtput.size, hds.components⟩

/-- Normalization gives what the component list says, well formed and within the arrays, and
leaves its own results as they are. -/
theorem normalizePathUnlocked_correct {currentDirectory output : Bytes} {cs : List Bytes}
    (hcurrent : Holds currentDirectory (render cs)) (hnormal : IsNormal (render cs) cs)
    (hsize : output.length = maximumPath) (path : Option (CString UInt8)) :
    Outcome (normalizePathUnlocked currentDirectory path output)
        (normalForm cs (path.map CString.bytes)) ∧
      ∀ ds, normalForm cs (path.map CString.bytes) = .ok ds →
        WellFormed (render ds) ∧
        ∀ again : CString UInt8, again.bytes = render ds →
          Outcome (normalizePathUnlocked currentDirectory (some again) output) (.ok ds) := by
  have hrun := normalizePathUnlocked_outcome hcurrent hnormal hsize path
  refine ⟨hrun, fun ds hds => ?_⟩
  rw [hds] at hrun
  obtain ⟨output', error, -, -, houtput⟩ := hrun
  exact ⟨houtput.isNormal.wellFormed,
    fun again hagain => .again hcurrent hnormal hsize houtput.isNormal hagain⟩

/-- `"../a"` in `"/sd"`. -/
theorem normalizePathUnlocked_correct_parent :
    Outcome (normalizePathUnlocked [47, 115, 100, 0] (some ⟨[46, 46, 47, 97], by decide⟩)
        (List.replicate 256 7)) (normalForm [[115, 100]] (some [46, 46, 47, 97])) ∧
      normalForm [[115, 100]] (some [46, 46, 47, 97]) = .ok [[97]] := by
  have hnormal : IsNormal (render [[115, 100]]) [[115, 100]] := by
    refine ⟨fun c hc => ?_, rfl, by decide⟩
    rw [List.mem_singleton.mp hc]
    exact isComponent_mount .sd
  have hcurrent : CharArray.Holds [47, 115, 100, 0] (render [[115, 100]]) := ⟨by decide, [], rfl⟩
  have hrun := normalizePathUnlocked_correct hcurrent hnormal
    (List.length_replicate (n := 256) (a := (7 : UInt8))) (some ⟨[46, 46, 47, 97], by decide⟩)
  exact ⟨hrun.1, by decide +kernel⟩

end Libc
end NucleoBase
