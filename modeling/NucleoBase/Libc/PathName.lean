/-
  NucleoBase.Libc.PathName

  Normal absolute paths as lists of components.  `render` writes such a list
  down; normalization returns nothing else.  On rendered paths the adapter's
  comparison and migration of strings are the prefix order and the replacement
  of a prefix on the components, compared without regard to ASCII case.
-/

import NucleoBase.Libc.Path

namespace NucleoBase
namespace Libc

/-- A name that can stand between two separators of a normal path. -/
structure IsComponent (c : Bytes) : Prop where
  ne_nil : c ≠ []
  ne_dot : c ≠ [dot]
  ne_dots : c ≠ [dot, dot]
  separator : ∀ b ∈ c, isSeparator b = false

/-- The components of a path, each with its separator in front. -/
def renderTail : List Bytes → Bytes
  | [] => []
  | c :: cs => slash :: (c ++ renderTail cs)

def render (cs : List Bytes) : Bytes := if cs = [] then [slash] else renderTail cs

/-- A component without regard to case. -/
def foldName (c : Bytes) : Bytes := c.map foldAsciiCase

/-- What a path names, without regard to case. -/
def key (cs : List Bytes) : List Bytes := cs.map foldName

/-- A normal absolute path that fits the adapter's arrays. -/
structure IsNormal (p : Bytes) (cs : List Bytes) : Prop where
  components : ∀ c ∈ cs, IsComponent c
  eq : p = render cs
  length : p.length < maximumPath

/-! ## Rendering -/

@[simp] theorem renderTail_append (cs ds : List Bytes) :
    renderTail (cs ++ ds) = renderTail cs ++ renderTail ds := by
  induction cs with
  | nil => rfl
  | cons c cs ih => simp [renderTail, ih]

theorem render_cons (c : Bytes) (cs : List Bytes) : render (c :: cs) = renderTail (c :: cs) :=
  rfl

theorem render_of_ne {cs : List Bytes} (h : cs ≠ []) : render cs = renderTail cs := if_neg h

theorem IsComponent.slash_not_mem {c : Bytes} (h : IsComponent c) : slash ∉ c := fun hmem =>
  absurd (h.separator slash hmem) (by decide)

theorem length_render_one {cs : List Bytes} (h : ∀ c ∈ cs, IsComponent c) :
    (render cs).length = 1 ↔ cs = [] := by
  cases cs with
  | nil => simp [render]
  | cons c cs =>
      have hc := (h c List.mem_cons_self).ne_nil
      have hlen : 0 < c.length := List.length_pos_iff.mpr hc
      simp only [render_cons, renderTail, List.length_cons, List.length_append, reduceCtorEq,
        iff_false]
      omega

/-! ## Normalization -/

/-- Going back over the last component finds the separator in front of it. -/
theorem backUp_component {c rest : Bytes} (h : slash ∉ c) (hrest : rest ≠ []) :
    backUp (c ++ slash :: rest) = slash :: rest := by
  induction c with
  | nil =>
      cases rest with
      | nil => exact absurd rfl hrest
      | cons d rest => simp [backUp]
  | cons b c ih =>
      have hb : b ≠ slash := fun hb => h (by simp [hb])
      have hc : slash ∉ c := fun hc => h (List.mem_cons_of_mem b hc)
      cases c with
      | nil =>
          simp only [List.cons_append, List.nil_append, backUp, if_neg hb]
          exact ih hc
      | cons d c =>
          simp only [List.cons_append, backUp, if_neg hb]
          exact ih hc

theorem backUp_first {c : Bytes} (h : slash ∉ c) : backUp (c ++ [slash]) = [slash] := by
  induction c with
  | nil => rfl
  | cons b c ih =>
      have hb : b ≠ slash := fun hb => h (by simp [hb])
      have hc : slash ∉ c := fun hc => h (List.mem_cons_of_mem b hc)
      cases c with
      | nil =>
          simp only [List.cons_append, List.nil_append, backUp, if_neg hb]
      | cons d c =>
          simp only [List.cons_append, backUp, if_neg hb]
          exact ih hc

/-- `".."` removes the last component. -/
theorem parentOf_render {cs : List Bytes} {c : Bytes} (hc : IsComponent c) :
    parentOf (render (cs ++ [c])) = render cs := by
  obtain ⟨d, b, rfl⟩ : ∃ d b, c = d ++ [b] := by
    rcases List.eq_nil_or_concat' c with h | ⟨d, b, h⟩
    · exact absurd h hc.ne_nil
    · exact ⟨d, b, h⟩
  have hd : slash ∉ d.reverse := fun h =>
    hc.slash_not_mem (List.mem_append_left _ (List.mem_reverse.mp h))
  have hne : cs ++ [d ++ [b]] ≠ [] := by simp
  have hreverse : (render (cs ++ [d ++ [b]])).reverse.tail =
      d.reverse ++ slash :: (renderTail cs).reverse := by
    simp [render_of_ne hne, renderTail]
  rw [parentOf, hreverse]
  cases cs with
  | nil =>
      simp only [renderTail, List.reverse_nil]
      rw [backUp_first hd]
      rfl
  | cons a cs =>
      have htail : (renderTail (a :: cs)).reverse ≠ [] := by simp [renderTail]
      rw [backUp_component hd htail]
      cases hcases : (renderTail (a :: cs)).reverse with
      | nil => exact absurd hcases htail
      | cons e rest => simp [← hcases, render_cons]

/-- No separator is left in the pieces between separators. -/
theorem splitOnP_no_separator {p : UInt8 → Bool} (source : Bytes) :
    ∀ c ∈ source.splitOnP p, ∀ b ∈ c, p b = false := by
  induction source with
  | nil => simp
  | cons x xs ih =>
      rw [List.splitOnP_cons_eq_if_modifyHead]
      split
      · intro c hc
        rcases List.mem_cons.mp hc with rfl | hc
        · simp
        · exact ih c hc
      · next hx =>
          cases hsplit : xs.splitOnP p with
          | nil => exact absurd hsplit (List.splitOnP_ne_nil p xs)
          | cons d ds =>
              rw [hsplit] at ih
              intro c hc
              rcases List.mem_cons.mp hc with rfl | hc
              · intro b hb
                rcases List.mem_cons.mp hb with rfl | hb
                · simpa using hx
                · exact ih d List.mem_cons_self b hb
              · exact ih c (List.mem_cons_of_mem d hc)

/-- One round of the loop keeps the output a normal path. -/
theorem pushComponent_normal {output output' c : Bytes} {cs : List Bytes}
    (hoc : IsNormal output cs) (hc : ∀ b ∈ c, isSeparator b = false)
    (h : pushComponent output c = .ok output') : ∃ cs', IsNormal output' cs' := by
  unfold pushComponent at h
  split at h
  · cases h
    exact ⟨cs, hoc⟩
  · next hskip =>
      have hone := length_render_one hoc.components
      rw [← hoc.eq] at hone
      split at h
      · split at h
        · cases h
        · next hlen =>
            cases h
            have hne : cs ≠ [] := fun hcs => hlen (hone.mpr hcs)
            obtain ⟨ds, d, rfl⟩ := (List.eq_nil_or_concat' cs).resolve_left hne
            have hd : IsComponent d := hoc.components d (by simp)
            refine ⟨ds, fun a ha => hoc.components a (by simp [ha]), ?_, ?_⟩
            · rw [hoc.eq, parentOf_render hd]
            · have hlength := hoc.length
              rw [hoc.eq, parentOf_render hd] at *
              refine Nat.lt_of_le_of_lt ?_ hlength
              cases ds with
              | nil =>
                  simp only [render, ↓reduceIte, List.length_singleton]
                  exact List.length_pos_iff.mpr (by simp [renderTail])
              | cons e ds =>
                  have hsplit : renderTail (e :: ds ++ [d]) =
                      renderTail (e :: ds) ++ renderTail [d] := renderTail_append _ _
                  rw [render_of_ne (by simp), render_of_ne (by simp), hsplit, List.length_append]
                  exact Nat.le_add_right _ _
      · next hdots =>
          have hcomponent : IsComponent c :=
            ⟨fun hnil => hskip (.inl hnil), fun hdot => hskip (.inr hdot), hdots, hc⟩
          have hall : ∀ a ∈ cs ++ [c], IsComponent a := by
            intro a ha
            rcases List.mem_append.mp ha with ha | ha
            · exact hoc.components a ha
            · rcases List.mem_singleton.mp ha with rfl
              exact hcomponent
          split at h
          · next hlen =>
              split at h
              · cases h
              · split at h
                · cases h
                · next hfit hroom =>
                    cases h
                    have hne : cs ≠ [] := fun hcs => hlen (hone.mpr hcs)
                    refine ⟨cs ++ [c], hall, ?_, ?_⟩
                    · rw [hoc.eq, render_of_ne hne, render_of_ne (by simp)]
                      simp [renderTail]
                    · simp only [List.length_append, List.length_cons]
                      omega
          · next hlen =>
              split at h
              · cases h
              · next hroom =>
                  cases h
                  have hcs : cs = [] := hone.mp (by omega)
                  subst hcs
                  refine ⟨[c], by simpa using hall, ?_, ?_⟩
                  · rw [hoc.eq]
                    simp [render, renderTail]
                  · have hlength := hoc.length
                    simp only [List.length_append]
                    omega

theorem pushComponents_normal {pieces : List Bytes} {output output' : Bytes} {cs : List Bytes}
    (hoc : IsNormal output cs) (hpieces : ∀ c ∈ pieces, ∀ b ∈ c, isSeparator b = false)
    (h : pushComponents output pieces = .ok output') : ∃ cs', IsNormal output' cs' := by
  induction pieces generalizing output cs with
  | nil =>
      cases h
      exact ⟨cs, hoc⟩
  | cons c rest ih =>
      simp only [pushComponents] at h
      cases hpush : pushComponent output c with
      | error e =>
          rw [hpush] at h
          cases h
      | ok middle =>
          rw [hpush] at h
          obtain ⟨cs', hmiddle⟩ := pushComponent_normal hoc (hpieces c List.mem_cons_self) hpush
          exact ih hmiddle (fun d hd => hpieces d (List.mem_cons_of_mem c hd)) h

theorem isNormal_root : IsNormal [slash] [] where
  components := fun c hc => (nomatch hc)
  eq := rfl
  length := by decide

/-- Normalization returns normal absolute paths. -/
theorem normalizePath_normal {currentDirectory output : Bytes} {path : Option Bytes}
    (h : normalizePath currentDirectory path = .ok output) : ∃ cs, IsNormal output cs := by
  unfold normalizePath at h
  split at h
  · cases h
  · cases h
  · next first rest =>
      cases hstart : startOf currentDirectory first with
      | error e =>
          rw [hstart] at h
          cases h
      | ok start =>
          rw [hstart] at h
          simp only [Except.bind] at h
          split at h
          · cases h
          · exact pushComponents_normal isNormal_root (splitOnP_no_separator _) h

/-! ## Normal paths are their own normal form -/

theorem splitOnP_component {c : Bytes} (hc : ∀ b ∈ c, isSeparator b = false) (rest : Bytes) :
    (c ++ rest).splitOnP isSeparator = (rest.splitOnP isSeparator).modifyHead (c ++ ·) := by
  induction c with
  | nil =>
      rw [List.nil_append]
      cases rest.splitOnP isSeparator with
      | nil => rfl
      | cons d ds => rfl
  | cons b c ih =>
      have hb := hc b List.mem_cons_self
      rw [List.cons_append, List.splitOnP_cons_eq_if_modifyHead,
        ih fun a ha => hc a (List.mem_cons_of_mem b ha), hb]
      cases rest.splitOnP isSeparator with
      | nil => simp
      | cons d ds => simp

theorem splitOnP_renderTail {cs : List Bytes} (h : ∀ c ∈ cs, IsComponent c) :
    (renderTail cs).splitOnP isSeparator = [] :: cs := by
  induction cs with
  | nil => rfl
  | cons c cs ih =>
      have hc := (h c List.mem_cons_self).separator
      have hslash : isSeparator slash = true := rfl
      rw [renderTail, List.splitOnP_cons_eq_if_modifyHead, hslash, splitOnP_component hc,
        ih fun a ha => h a (List.mem_cons_of_mem c ha)]
      simp

theorem pushComponent_render {ds : List Bytes} {c : Bytes} (hd : ∀ a ∈ ds, IsComponent a)
    (hc : IsComponent c) (hlen : (render (ds ++ [c])).length < maximumPath) :
    pushComponent (render ds) c = .ok (render (ds ++ [c])) := by
  have hone := length_render_one hd
  rw [pushComponent, if_neg (by simp [hc.ne_nil, hc.ne_dot]), if_neg hc.ne_dots]
  by_cases hds : ds = []
  · subst hds
    have hnew : render ([] ++ [c]) = slash :: c := by simp [render, renderTail]
    rw [hnew, List.length_cons] at hlen
    have hold : render ([] : List Bytes) = [slash] := rfl
    rw [if_neg (by simp [hone]), hold, if_neg (by simp only [List.length_singleton]; omega), hnew]
    rfl
  · have hnew : render (ds ++ [c]) = render ds ++ slash :: c := by
      rw [render_of_ne (by simp), render_of_ne hds]
      simp [renderTail]
    rw [hnew, List.length_append, List.length_cons] at hlen
    rw [if_pos (by simpa [hone] using hds), if_neg (by omega), if_neg (by omega), hnew]

theorem length_render_append (cs ds : List Bytes) :
    (render cs).length ≤ (render (cs ++ ds)).length := by
  by_cases hcs : cs = []
  · subst hcs
    cases ds with
    | nil => rfl
    | cons d ds => simp [render, renderTail]
  · rw [render_of_ne hcs, render_of_ne (by simp [hcs]), renderTail_append, List.length_append]
    omega

theorem pushComponents_render {ds cs : List Bytes} (h : ∀ a ∈ ds ++ cs, IsComponent a)
    (hlen : (render (ds ++ cs)).length < maximumPath) :
    pushComponents (render ds) cs = .ok (render (ds ++ cs)) := by
  induction cs generalizing ds with
  | nil => simp [pushComponents]
  | cons c cs ih =>
      have hsplit : ds ++ c :: cs = (ds ++ [c]) ++ cs := by simp
      rw [hsplit] at h hlen ⊢
      have hfirst : (render (ds ++ [c])).length < maximumPath :=
        Nat.lt_of_le_of_lt (length_render_append _ cs) hlen
      rw [pushComponents, pushComponent_render (fun a ha => h a (by simp [ha]))
        (h c (by simp)) hfirst]
      exact ih h hlen

/-- Normalizing again changes nothing, whatever the current directory. -/
theorem IsNormal.normalizePath {p : Bytes} {cs : List Bytes} (h : IsNormal p cs)
    (currentDirectory : Bytes) : normalizePath currentDirectory (some p) = .ok p := by
  have hlength := h.length
  obtain ⟨rest, hp⟩ : ∃ rest, p = slash :: rest := by
    rw [h.eq]
    cases cs with
    | nil => exact ⟨[], rfl⟩
    | cons c cs => exact ⟨c ++ renderTail cs, rfl⟩
  have hpush : pushComponents [slash] (p.splitOnP isSeparator) = .ok p := by
    rw [h.eq]
    cases cs with
    | nil => rfl
    | cons c cs =>
        rw [render_cons, splitOnP_renderTail h.components]
        have hlen := h.eq ▸ h.length
        exact @pushComponents_render [] (c :: cs) h.components hlen
  have hstart : startOf currentDirectory slash = .ok [] := rfl
  rw [hp] at hpush hlength ⊢
  rw [Libc.normalizePath, hstart]
  simp only [Except.bind, List.nil_append]
  rw [if_neg (by simpa using hlength)]
  exact hpush

/-! ## Comparison -/

theorem foldAsciiCase_slash {b : UInt8} : foldAsciiCase b = slash ↔ b = slash := by
  unfold foldAsciiCase
  split
  · next h =>
      obtain ⟨hlow, hhigh⟩ := h
      rw [UInt8.le_iff_toNat_le] at hlow hhigh
      have hlow : 97 ≤ b.toNat := hlow
      have hhigh : b.toNat ≤ 122 := hhigh
      constructor
      · intro heq
        have hnat := congrArg UInt8.toNat heq
        rw [UInt8.toNat_add, UInt8.toNat_sub_of_le b 97 (UInt8.le_iff_toNat_le.mpr hlow)] at hnat
        have h97 : (97 : UInt8).toNat = 97 := rfl
        have h65 : (65 : UInt8).toNat = 65 := rfl
        have h47 : slash.toNat = 47 := rfl
        omega
      · intro heq
        have hnat := congrArg UInt8.toNat heq
        have h47 : slash.toNat = 47 := rfl
        omega
  · exact Iff.rfl

/-- What may follow a component: nothing, or a separator. -/
def Starts (rest : Bytes) : Prop := rest = [] ∨ ∃ tail, rest = slash :: tail

theorem starts_renderTail (cs : List Bytes) : Starts (renderTail cs) := by
  cases cs with
  | nil => exact .inl rfl
  | cons c cs => exact .inr ⟨_, rfl⟩

/-- Two paths agree as far as the first components agree. -/
theorem pathHasPrefix_component {c d rest rest' : Bytes} {descendants : Bool}
    (hc : slash ∉ c) (hd : slash ∉ d) (hr : Starts rest) (hr' : Starts rest') :
    pathHasPrefix (c ++ rest) (d ++ rest') descendants =
      (decide (foldName c = foldName d) && pathHasPrefix rest rest' descendants) := by
  induction c generalizing d with
  | nil =>
      cases d with
      | nil => simp [foldName]
      | cons e d =>
          have he : e ≠ slash := fun h => hd (by simp [h])
          rcases hr with rfl | ⟨tail, rfl⟩
          · simp [pathHasPrefix, foldName]
          · have hne : foldAsciiCase slash ≠ foldAsciiCase e := fun h =>
              he (foldAsciiCase_slash.mp (h.symm.trans (foldAsciiCase_slash.mpr rfl)))
            simp [pathHasPrefix, foldName, hne]
  | cons b c ih =>
      have hb : b ≠ slash := fun h => hc (by simp [h])
      have hc' : slash ∉ c := fun h => hc (List.mem_cons_of_mem b h)
      cases d with
      | nil =>
          rcases hr' with rfl | ⟨tail, rfl⟩
          · simp [pathHasPrefix, foldName, hb]
          · have hne : foldAsciiCase b ≠ foldAsciiCase slash := fun h =>
              hb (foldAsciiCase_slash.mp (h.trans (foldAsciiCase_slash.mpr rfl)))
            simp [pathHasPrefix, foldName, hne]
      | cons e d =>
          have hd' : slash ∉ d := fun h => hd (List.mem_cons_of_mem e h)
          have htail := ih hc' hd'
          simp only [List.cons_append, pathHasPrefix, htail, foldName, List.map_cons,
            List.cons.injEq, Bool.decide_and, Bool.and_assoc]
          rfl

variable {p q old new : List Bytes}

theorem key_cons_inj {c d : Bytes} {cs ds : List Bytes} :
    key (c :: cs) = key (d :: ds) ↔ foldName c = foldName d ∧ key cs = key ds := by
  simp [key]

theorem key_prefix_cons {c d : Bytes} {cs ds : List Bytes} :
    key (d :: ds) <+: key (c :: cs) ↔ foldName d = foldName c ∧ key ds <+: key cs := by
  simp [key, List.cons_prefix_cons]

/-- Comparing rendered paths is comparing components. -/
theorem pathHasPrefix_renderTail (hp : ∀ c ∈ p, IsComponent c) (hq : ∀ c ∈ q, IsComponent c) :
    pathHasPrefix (renderTail p) (renderTail q) true = true ↔ key q <+: key p := by
  induction q generalizing p with
  | nil =>
      cases p with
      | nil => simp [pathHasPrefix, renderTail, key]
      | cons c p => simp [pathHasPrefix, renderTail, key]
  | cons d q ih =>
      cases p with
      | nil => simp [pathHasPrefix, renderTail, key]
      | cons c p =>
          have hc := (hp c List.mem_cons_self).slash_not_mem
          have hd := (hq d List.mem_cons_self).slash_not_mem
          have ih := ih (fun a ha => hp a (List.mem_cons_of_mem c ha))
            fun a ha => hq a (List.mem_cons_of_mem d ha)
          rw [key_prefix_cons, ← ih]
          simp only [renderTail, pathHasPrefix, beq_self_eq_true, Bool.true_and,
            pathHasPrefix_component hc hd (starts_renderTail p) (starts_renderTail q),
            Bool.and_eq_true, decide_eq_true_eq]
          exact and_congr_left fun _ => eq_comm

/-- `path_has_prefix`, of any path and a path that is not the virtual root. -/
theorem pathHasPrefix_render (hp : ∀ c ∈ p, IsComponent c) (hq : ∀ c ∈ q, IsComponent c)
    (hne : q ≠ []) :
    pathHasPrefix (render p) (render q) true = true ↔ key q <+: key p := by
  rw [render_of_ne hne]
  cases p with
  | cons c p =>
      rw [render_cons]
      exact pathHasPrefix_renderTail hp hq
  | nil =>
      cases q with
      | nil => exact absurd rfl hne
      | cons d q =>
          have hd := (hq d List.mem_cons_self).ne_nil
          cases d with
          | nil => exact absurd rfl hd
          | cons b d => simp [render, renderTail, pathHasPrefix, key]

theorem pathsEqual_renderTail (hp : ∀ c ∈ p, IsComponent c) (hq : ∀ c ∈ q, IsComponent c) :
    pathHasPrefix (renderTail p) (renderTail q) false = true ↔ key p = key q := by
  induction q generalizing p with
  | nil =>
      cases p with
      | nil => simp [pathHasPrefix, renderTail, key]
      | cons c p => simp [pathHasPrefix, renderTail, key]
  | cons d q ih =>
      cases p with
      | nil => simp [pathHasPrefix, renderTail, key]
      | cons c p =>
          have hc := (hp c List.mem_cons_self).slash_not_mem
          have hd := (hq d List.mem_cons_self).slash_not_mem
          have ih := ih (fun a ha => hp a (List.mem_cons_of_mem c ha))
            fun a ha => hq a (List.mem_cons_of_mem d ha)
          rw [key_cons_inj, ← ih]
          simp only [renderTail, pathHasPrefix, beq_self_eq_true, Bool.true_and,
            pathHasPrefix_component hc hd (starts_renderTail p) (starts_renderTail q),
            Bool.and_eq_true, decide_eq_true_eq]

/-- `paths_equal` on paths other than the virtual root. -/
theorem pathsEqual_render (hp : ∀ c ∈ p, IsComponent c) (hq : ∀ c ∈ q, IsComponent c)
    (hp0 : p ≠ []) (hq0 : q ≠ []) :
    pathsEqual (render p) (render q) = true ↔ key p = key q := by
  rw [pathsEqual, render_of_ne hp0, render_of_ne hq0]
  exact pathsEqual_renderTail hp hq

/-! ## Migration -/

theorem length_renderTail_of_key (h : key p = key q) :
    (renderTail p).length = (renderTail q).length := by
  induction p generalizing q with
  | nil =>
      cases q with
      | nil => rfl
      | cons d q => cases h
  | cons c p ih =>
      cases q with
      | nil => cases h
      | cons d q =>
          obtain ⟨hc, hpq⟩ := List.cons.inj h
          have hlen : c.length = d.length := by simpa [foldName] using congrArg List.length hc
          simp [renderTail, hlen, ih hpq]

/-- `migrate_path` on the components. -/
def migrate (path old new : List Bytes) (descendants : Bool) : List Bytes :=
  if key path = key old ∨ descendants = true ∧ key old <+: key path then
    new ++ path.drop old.length
  else path

/-- A path below another, split. -/
theorem split_of_prefix (h : key old <+: key p) :
    ∃ front back, p = front ++ back ∧ key front = key old ∧ front.length = old.length := by
  have hle : old.length ≤ p.length := by simpa [key] using h.length_le
  refine ⟨p.take old.length, p.drop old.length, (List.take_append_drop _ _).symm, ?_, ?_⟩
  · have htake := List.prefix_iff_eq_take.mp h
    rw [htake, key, key, List.length_map, List.map_take]
    rfl
  · simpa using hle

theorem migratePath_render (hp : ∀ c ∈ p, IsComponent c) (ho : ∀ c ∈ old, IsComponent c)
    (ho0 : old ≠ []) (hn0 : new ≠ []) (descendants : Bool) :
    migratePath (render p) (render old) (render new) descendants =
        render (migrate p old new descendants) ∧
      migratedPathLength (render p) (render old) (render new) descendants =
        (render (migrate p old new descendants)).length := by
  have hpre : pathHasPrefix (render p) (render old) descendants = true ↔
      key p = key old ∨ descendants = true ∧ key old <+: key p := by
    cases descendants with
    | true =>
        rw [pathHasPrefix_render hp ho ho0]
        refine ⟨fun h => .inr ⟨rfl, h⟩, ?_⟩
        rintro (h | ⟨-, h⟩)
        · exact h ▸ List.prefix_refl _
        · exact h
    | false =>
        cases p with
        | cons c p =>
            simpa [pathsEqual] using pathsEqual_render hp ho (List.cons_ne_nil c p) ho0
        | nil =>
            cases old with
            | nil => exact absurd rfl ho0
            | cons d ds =>
                have hd := (ho d List.mem_cons_self).ne_nil
                cases d with
                | nil => exact absurd rfl hd
                | cons b d => simp [render, renderTail, pathHasPrefix, key]
  by_cases h : key p = key old ∨ descendants = true ∧ key old <+: key p
  · have hkey : key old <+: key p := by
      rcases h with h | ⟨-, h⟩
      · exact h ▸ List.prefix_refl _
      · exact h
    obtain ⟨front, back, rfl, hfront, hlen⟩ := split_of_prefix hkey
    have hfront0 : front ++ back ≠ [] := by
      rintro hnil
      have : front.length = 0 := by simp [List.append_eq_nil_iff.mp hnil]
      exact ho0 (List.eq_nil_of_length_eq_zero (hlen ▸ this))
    have hdrop : (renderTail (front ++ back)).drop (renderTail old).length = renderTail back := by
      rw [renderTail_append, ← length_renderTail_of_key hfront, List.drop_left]
    have hnew0 : new ++ back ≠ [] := by simp [hn0]
    have hmigrate : migrate (front ++ back) old new descendants = new ++ back := by
      rw [migrate, if_pos h, ← hlen, List.drop_left]
    rw [hmigrate, migratePath, migratedPathLength, if_pos (hpre.mpr h), if_pos (hpre.mpr h),
      render_of_ne hfront0, render_of_ne ho0, render_of_ne hn0, render_of_ne hnew0, hdrop]
    simp
  · have hmigrate : migrate p old new descendants = p := if_neg h
    have hno : pathHasPrefix (render p) (render old) descendants = false := by
      simpa using mt hpre.mp h
    rw [hmigrate, migratePath, migratedPathLength, if_neg (by simp [hno]), if_neg (by simp [hno])]
    exact ⟨rfl, rfl⟩

/-! ## Volumes -/

/-- The one component of `mountName`. -/
def mountComponent (v : Volume) : Bytes := (mountName v).tail

theorem mountName_eq (v : Volume) : mountName v = renderTail [mountComponent v] := by
  cases v <;> rfl

theorem isComponent_mount (v : Volume) : IsComponent (mountComponent v) := by
  cases v <;> exact ⟨by decide, by decide, by decide, by decide +kernel⟩

/-- Where a normal path leads. -/
inductive Place
  | virtualRoot
  | inside (v : Volume) (path : List Bytes)
  | nowhere
  deriving DecidableEq, Repr

def locate : List Bytes → Place
  | [] => .virtualRoot
  | c :: rest =>
      if foldName c = foldName (mountComponent .flash) then .inside .flash rest
      else if foldName c = foldName (mountComponent .sd) then .inside .sd rest
      else .nowhere

theorem pathHasPrefix_mount {c : Bytes} {rest : List Bytes}
    (h : ∀ a ∈ c :: rest, IsComponent a) (v : Volume) :
    pathHasPrefix (render (c :: rest)) (mountName v) true =
      decide (foldName c = foldName (mountComponent v)) := by
  have hmount : ∀ a ∈ [mountComponent v], IsComponent a := by
    intro a ha
    rcases List.mem_singleton.mp ha with rfl
    exact isComponent_mount v
  have hiff := pathHasPrefix_renderTail h hmount
  rw [key_prefix_cons] at hiff
  rw [mountName_eq, render_cons, Bool.eq_iff_iff, decide_eq_true_eq, hiff]
  simp [key, eq_comm]

/-- What is left of a path after its mount point. -/
theorem drop_mount {c : Bytes} {rest : List Bytes} {v : Volume}
    (h : foldName c = foldName (mountComponent v)) :
    (render (c :: rest)).drop (mountName v).length = renderTail rest := by
  have hlen : (renderTail [c]).length = (renderTail [mountComponent v]).length :=
    length_renderTail_of_key (by simp [key, h])
  have hsplit : renderTail (c :: rest) = renderTail [c] ++ renderTail rest :=
    renderTail_append [c] rest
  rw [render_cons, mountName_eq, hsplit, ← hlen, List.drop_left]

theorem resolveOn_render (mounted : Volume → Bool) {c : Bytes} {rest : List Bytes} {v : Volume}
    (h : foldName c = foldName (mountComponent v)) :
    resolveOn mounted (render (c :: rest)) v =
      if mounted v then .ok ⟨v, render rest, false, decide (rest = [])⟩ else .error .ENODEV := by
  rw [resolveOn, drop_mount h]
  split
  · cases rest with
    | nil => rfl
    | cons d rest => simp [renderTail, render_cons]
  · rfl

/-- `resolve_normalized_path` finds the place a normal path leads to. -/
theorem resolveNormalizedPath_render (mounted : Volume → Bool) {cs : List Bytes}
    (h : ∀ c ∈ cs, IsComponent c) :
    resolveNormalizedPath mounted (render cs) =
      match locate cs with
      | .virtualRoot => .ok ⟨.flash, [slash], true, false⟩
      | .inside v rest =>
          if mounted v then .ok ⟨v, render rest, false, decide (rest = [])⟩ else .error .ENODEV
      | .nowhere => .error .ENOENT := by
  cases cs with
  | nil => rfl
  | cons c rest =>
      have hlen := length_render_one h
      have hne : render (c :: rest) ≠ [slash] := by
        intro heq
        rw [heq] at hlen
        simp at hlen
      rw [resolveNormalizedPath, if_neg hne, pathHasPrefix_mount h, pathHasPrefix_mount h]
      by_cases hflash : foldName c = foldName (mountComponent .flash)
      · simp only [decide_eq_true hflash, ↓reduceIte, locate, if_pos hflash]
        exact resolveOn_render mounted hflash
      · by_cases hsd : foldName c = foldName (mountComponent .sd)
        · simp only [decide_eq_false hflash, Bool.false_eq_true, ↓reduceIte, locate,
            if_neg hflash, decide_eq_true hsd, if_pos hsd]
          exact resolveOn_render mounted hsd
        · simp only [decide_eq_false hflash, decide_eq_false hsd, Bool.false_eq_true, ↓reduceIte,
            locate, if_neg hflash, if_neg hsd]

end Libc
end NucleoBase
