/-
  NucleoBase.Libc.Entry

  The paths the adapter passes on to FileX: normal paths to an entry below the
  mount point of a mounted volume, and what they have to do with each other.
-/

import NucleoBase.Libc.FileCalls
import NucleoBase.Libc.PathName

namespace NucleoBase
namespace Libc

open Lib Lib.Program

/-- A normal path to the entry of a mounted volume with the given components. -/
def Entry (platform : Platform) (name : Bytes) (v : Volume) (rest : List Bytes) : Prop :=
  ∃ c, IsNormal name (c :: rest) ∧ foldName c = foldName (mountComponent v) ∧ rest ≠ [] ∧
    platform.mounted v = true

/-- What `resolve_normalized_path` makes of it. -/
def entryPath (v : Volume) (rest : List Bytes) : ResolvedPath := ⟨v, render rest, false, false⟩

variable {platform : Platform} {name name' : Bytes} {v v' : Volume} {rest rest' : List Bytes}

theorem locate_mount {c : Bytes} (h : foldName c = foldName (mountComponent v)) :
    locate (c :: rest) = .inside v rest := by
  cases v with
  | flash => simp only [locate, h, ↓reduceIte]
  | sd =>
      have hne : foldName (mountComponent .sd) ≠ foldName (mountComponent .flash) := by decide
      simp only [locate, h, if_neg hne, ↓reduceIte]

theorem mount_of_locate {c : Bytes} (h : locate (c :: rest') = .inside v rest) :
    foldName c = foldName (mountComponent v) ∧ rest' = rest := by
  simp only [locate] at h
  split at h
  · next hflash =>
      cases h
      exact ⟨hflash, rfl⟩
  · split at h
    · next hsd =>
        cases h
        exact ⟨hsd, rfl⟩
    · cases h

theorem fold_mount_inj (h : foldName (mountComponent v) = foldName (mountComponent v')) :
    v = v' := by
  revert h
  cases v <;> cases v' <;> decide

namespace Entry

theorem components (h : Entry platform name v rest) : ∀ a ∈ rest, IsComponent a := by
  obtain ⟨c, hn, _⟩ := h
  exact fun a ha => hn.components a (List.mem_cons_of_mem c ha)

theorem ne_nil (h : Entry platform name v rest) : rest ≠ [] := by
  obtain ⟨_, _, _, hne, _⟩ := h
  exact hne

theorem normal (h : Entry platform name v rest) : ∃ cs, IsNormal name cs := by
  obtain ⟨c, hn, _⟩ := h
  exact ⟨_, hn⟩

theorem length_lt (h : Entry platform name v rest) : name.length < maximumPath := by
  obtain ⟨c, hn, _⟩ := h
  exact hn.length

theorem mounted (h : Entry platform name v rest) : platform.mounted v = true := by
  obtain ⟨_, _, _, _, hm⟩ := h
  exact hm

theorem resolve (h : Entry platform name v rest) :
    resolveNormalizedPath platform.mounted name = .ok (entryPath v rest) := by
  obtain ⟨c, hn, hc, hne, hm⟩ := h
  rw [hn.eq, resolveNormalizedPath_render _ hn.components, locate_mount hc]
  simp [hm, hne, entryPath]

theorem ne_root (h : Entry platform name v rest) : name ≠ [slash] := by
  obtain ⟨c, hn, _⟩ := h
  have hone := length_render_one hn.components
  intro heq
  rw [← hn.eq, heq] at hone
  simp at hone

/-- A path leads to one entry only. -/
theorem unique (h : Entry platform name v rest) (h' : Entry platform name v' rest') :
    v = v' ∧ render rest = render rest' := by
  have heq := h.resolve.symm.trans h'.resolve
  simp only [entryPath, Except.ok.injEq, ResolvedPath.mk.injEq] at heq
  exact ⟨heq.1, heq.2.1⟩

theorem pathsEqual_iff (h : Entry platform name v rest) (h' : Entry platform name' v' rest') :
    pathsEqual name name' = true ↔ v = v' ∧ key rest = key rest' := by
  obtain ⟨c, hn, hc, -, -⟩ := h
  obtain ⟨c', hn', hc', -, -⟩ := h'
  rw [hn.eq, hn'.eq, pathsEqual_render hn.components hn'.components (by simp) (by simp)]
  simp only [key, List.map_cons, List.cons.injEq, hc, hc']
  exact and_congr_left fun _ => ⟨fold_mount_inj, fun heq => by rw [heq]⟩

/-- A path that may lead to any place, compared with one to an entry. -/
theorem pathHasPrefix_iff {cs : List Bytes} (hn : IsNormal name cs)
    (h' : Entry platform name' v' rest') :
    pathHasPrefix name name' true = true ↔
      ∃ rest, locate cs = .inside v' rest ∧ key rest' <+: key rest := by
  obtain ⟨c', hn', hc', -, -⟩ := h'
  rw [hn.eq, hn'.eq, pathHasPrefix_render hn.components hn'.components (by simp)]
  cases cs with
  | nil => simp [key, locate]
  | cons c rest =>
      rw [key_prefix_cons, hc']
      constructor
      · rintro ⟨hc, hle⟩
        exact ⟨rest, locate_mount hc.symm, hle⟩
      · rintro ⟨rest', hloc, hle⟩
        obtain ⟨hc, rfl⟩ := mount_of_locate hloc
        exact ⟨hc.symm, hle⟩

theorem pathHasPrefix_entry (h : Entry platform name v rest) (h' : Entry platform name' v' rest') :
    pathHasPrefix name name' true = true ↔ v = v' ∧ key rest' <+: key rest := by
  obtain ⟨c, hn, hc, -, -⟩ := h
  rw [pathHasPrefix_iff hn h', locate_mount hc]
  constructor
  · rintro ⟨rest, heq, hle⟩
    cases heq
    exact ⟨rfl, hle⟩
  · rintro ⟨rfl, hle⟩
    exact ⟨rest, rfl, hle⟩

/-- Moving an entry's path along with the source of a rename. -/
theorem migrate {old new : Bytes} {src dst : List Bytes} {w : Volume} {descendants : Bool}
    (h : Entry platform name v rest) (hold : Entry platform old w src)
    (hnew : Entry platform new w dst)
    (hlen : migratedPathLength name old new descendants < maximumPath) :
    Entry platform (migratePath name old new descendants) v
      (if v = w then Libc.migrate rest src dst descendants else rest) := by
  obtain ⟨c, hn, hc, hne, hm⟩ := h
  obtain ⟨d, ho, hd, -, -⟩ := hold
  obtain ⟨e, hnw, he, hne', -⟩ := hnew
  have hmoved := migratePath_render hn.components ho.components
    (List.cons_ne_nil d src) (List.cons_ne_nil e dst) descendants
  rw [← hn.eq, ← ho.eq, ← hnw.eq] at hmoved
  rw [hmoved.2] at hlen
  have hfirst : foldName c = foldName d ↔ v = w := by
    rw [hc, hd]
    exact ⟨fold_mount_inj, fun heq => by rw [heq]⟩
  rw [hmoved.1]
  by_cases hcond : key (c :: rest) = key (d :: src) ∨
      descendants = true ∧ key (d :: src) <+: key (c :: rest)
  · have hvw : v = w := by
      rw [← hfirst]
      rcases hcond with heq | ⟨-, hle⟩
      · exact (List.cons.inj heq).1
      · exact (key_prefix_cons.mp hle).1.symm
    have hcond' : key rest = key src ∨ descendants = true ∧ key src <+: key rest := by
      rcases hcond with heq | ⟨hdesc, hle⟩
      · exact .inl (List.cons.inj heq).2
      · exact .inr ⟨hdesc, (key_prefix_cons.mp hle).2⟩
    have hwhole : Libc.migrate (c :: rest) (d :: src) (e :: dst) descendants =
        e :: Libc.migrate rest src dst descendants := by
      rw [Libc.migrate, Libc.migrate, if_pos hcond, if_pos hcond']
      simp
    rw [hwhole] at hlen ⊢
    rw [if_pos hvw]
    refine ⟨e, ⟨?_, rfl, hlen⟩, he.trans (by rw [hvw]), ?_, hm⟩
    · intro a ha
      rw [Libc.migrate, if_pos hcond'] at ha
      simp only [List.mem_cons, List.mem_append] at ha
      rcases ha with rfl | ha | ha
      · exact hnw.components _ List.mem_cons_self
      · exact hnw.components a (List.mem_cons_of_mem e ha)
      · exact hn.components a (List.mem_cons_of_mem c (List.mem_of_mem_drop ha))
    · rw [Libc.migrate, if_pos hcond']
      simp [hne']
  · have hwhole : Libc.migrate (c :: rest) (d :: src) (e :: dst) descendants = c :: rest :=
      if_neg hcond
    have hrest : (if v = w then Libc.migrate rest src dst descendants else rest) = rest := by
      split
      · next hvw =>
          refine if_neg ?_
          rintro (heq | ⟨hdesc, hle⟩)
          · exact hcond (.inl (key_cons_inj.mpr ⟨hfirst.mpr hvw, heq⟩))
          · exact hcond (.inr ⟨hdesc, key_prefix_cons.mpr ⟨(hfirst.mpr hvw).symm, hle⟩⟩)
      · rfl
    rw [hwhole, hrest]
    exact ⟨c, ⟨hn.components, rfl, by rw [hwhole] at hlen; exact hlen⟩, hc, hne, hm⟩

end Entry

/-- A resolved path is the virtual root, a mount point, or an entry. -/
theorem resolve_cases {cs : List Bytes} {resolved : ResolvedPath} (hn : IsNormal name cs)
    (h : resolveNormalizedPath platform.mounted name = .ok resolved) :
    (resolved.virtualRoot = true ∧ name = [slash]) ∨
      (resolved.mountRoot = true ∧ name ≠ [slash] ∧ locate cs = .inside resolved.volume [] ∧
        platform.mounted resolved.volume = true) ∨
      ∃ v rest, Entry platform name v rest ∧ resolved = entryPath v rest := by
  rw [hn.eq, resolveNormalizedPath_render _ hn.components] at h
  cases cs with
  | nil =>
      cases h
      exact .inl ⟨rfl, hn.eq⟩
  | cons c rest =>
      right
      cases hloc : locate (c :: rest) with
      | virtualRoot =>
          simp only [locate] at hloc
          split at hloc
          · cases hloc
          · split at hloc <;> cases hloc
      | nowhere =>
          rw [hloc] at h
          cases h
      | inside v rest' =>
          obtain ⟨hc, rfl⟩ := mount_of_locate hloc
          rw [hloc] at h
          simp only at h
          split at h
          · next hm =>
              cases h
              by_cases hrest : rest = []
              · subst hrest
                left
                refine ⟨rfl, ?_, rfl, hm⟩
                have hone := length_render_one hn.components
                intro heq
                rw [← hn.eq, heq] at hone
                simp at hone
              · right
                exact ⟨v, rest, ⟨c, hn, hc, hrest, hm⟩, by simp [entryPath, hrest]⟩
          · cases h

end Libc
end NucleoBase
