/-
  NucleoBase.Libc.CurrentDirectory

  The current directory is only a path.  It keeps leading to the directory that
  `_chdir` went to, because the calls that take directories away or move them
  look at it first.
-/

import NucleoBase.Libc.Forest
import NucleoBase.Libc.Handles

namespace NucleoBase
namespace Libc

open Lib Lib.Program

variable {σ : Type} {X : FileX σ} {names : σ → Forest} {platform : Platform} {ns : Forest}
  {name : Bytes} {o : Option (Volume × Node)} {s s' : State σ}

/-- What a normal path leads to: the virtual root (`none`), the root of a mounted
    volume, or an entry of one. -/
inductive Denotes (platform : Platform) (ns : Forest) : Bytes → Option (Volume × Node) → Prop
  | root : Denotes platform ns [slash] none
  | mount {name : Bytes} {cs : List Bytes} {v : Volume} {n : Node} (hn : IsNormal name cs)
      (hloc : locate cs = .inside v []) (hm : platform.mounted v = true)
      (hnode : ns v [] = some n) : Denotes platform ns name (some (v, n))
  | entry {name : Bytes} {v : Volume} {rest : List Bytes} {n : Node}
      (h : Entry platform name v rest) (hnode : ns v (key rest) = some n) :
      Denotes platform ns name (some (v, n))

/-- The virtual root or a directory. -/
def IsDirectoryAt : Option (Volume × Node) → Prop
  | none => True
  | some (_, n) => n.IsDirectory

theorem Denotes.isNormal (h : Denotes platform ns name o) : ∃ cs, IsNormal name cs := by
  cases h with
  | root => exact ⟨[], isNormal_root⟩
  | mount hn _ _ _ => exact ⟨_, hn⟩
  | entry h _ => exact h.normal

/-! ## One transition -/

theorem key_nil_of_prefix {k : List Bytes} {rest : List Bytes} (h : rest ≠ []) (hk : k = []) :
    ¬ key rest <+: k := by
  rintro hle
  rw [hk] at hle
  exact key_ne_nil h (List.prefix_nil.mp hle)

/-- The root of a volume is never taken away. -/
theorem protected_root {w : Volume} : Protected X names platform may s w [] where
  unlinked _ _ _ hentry _ _ h := key_ne_nil hentry.ne_nil h.2.symm
  removed _ _ _ hentry _ _ h := key_ne_nil hentry.ne_nil h.2.symm
  replaced _ _ _ _ _ _ hrename _ _ _ := key_nil_of_prefix hrename.target.ne_nil rfl

/-- Nor is the current directory. -/
theorem protected_current {w : Volume} {rest : List Bytes} {n : Node} (hN : X.Keeps names)
    (h : Entry platform s.currentDirectory w rest) (hnode : names s.fx w (key rest) = some n)
    (hdir : n.IsDirectory) : Protected X names platform may s w (key rest) where
  unlinked := by
    rintro name v rest' hentry - hok ⟨rfl, heq⟩
    obtain ⟨⟨m, hm, hkind⟩, -⟩ := hN.deleted hentry.isLocal false hok
    rw [← heq, hnode] at hm
    obtain rfl := Option.some.inj hm
    exact absurd (hkind.mp hdir) Bool.false_ne_true
  removed := by
    rintro name v rest' hentry hcurrent - ⟨rfl, heq⟩
    have := (h.pathHasPrefix_entry hentry).mpr ⟨rfl, heq ▸ List.prefix_rfl⟩
    rw [hcurrent] at this
    cases this
  replaced := by
    rintro v old new src dst directory hrename hreplace ⟨m, hm, hkind⟩ rfl hle
    by_cases hdirectory : directory = true
    · have := (h.pathHasPrefix_entry hrename.target).mpr ⟨rfl, hle⟩
      rw [hreplace.current hdirectory] at this
      cases this
    · -- the destination is a file, and the current directory neither is one nor lies below
      have hleaf : ¬ m.IsDirectory := fun hm' => hdirectory (hkind.mp hm')
      by_cases heq : key dst = key rest
      · rw [heq, hnode] at hm
        obtain rfl := Option.some.inj hm
        exact hleaf hdir
      · rw [(hN.closed s.fx w).none_in_leaf hm hleaf hle heq] at hnode
        cases hnode

theorem migratePath_outside {old new : Bytes} {cs src : List Bytes} {v : Volume}
    (hn : IsNormal name cs) (hold : Entry platform old v src)
    (hout : ∀ rest, locate cs = .inside v rest → ¬ key src <+: key rest) :
    migratePath name old new true = name := by
  have hno : pathHasPrefix name old true = false := by
    by_contra hyes
    obtain ⟨rest, hloc, hle⟩ := (Entry.pathHasPrefix_iff hn hold).mp (by simpa using hyes)
    exact hout rest hloc hle
  rw [migratePath, if_neg (by simp [hno])]

theorem Denotes.act (hN : X.Keeps names) (hsound : Sound platform s)
    (hact : Act X platform may s s') (h : Denotes platform (names s.fx) s.currentDirectory o)
    (hdir : IsDirectoryAt o) : Denotes platform (names s'.fx) s'.currentDirectory o := by
  -- a rename rewrites the path, if it is one of a directory
  have hmigrated : ∀ {v : Volume} {old new : Bytes} {src dst cs : List Bytes}
      {directory : Bool} {fx : σ},
      Renaming platform s v old new src dst directory →
      IsNormal s.currentDirectory cs →
      (∀ rest, locate cs = .inside v rest → ¬ key src <+: key rest) →
      (migrated old new directory { s with fx := fx }).currentDirectory = s.currentDirectory := by
    intro v old new src dst cs directory fx hrename hn hout
    simp only [migrated]
    split
    · exact migratePath_outside hn hrename.source hout
    · rfl
  generalize hc : s.currentDirectory = current at h
  cases h with
  | root =>
      obtain ⟨n, hn, -⟩ := (hN.closed s.fx .flash).root
      rcases hact.keeps hN hn protected_root with
        ⟨hsame, -⟩ | ⟨v, old, new, src, dst, directory, fx, hrename, rfl, -⟩
      · rw [hsame.current, hc]
        exact .root
      · have hnormal : IsNormal s.currentDirectory [] := hc ▸ isNormal_root
        rw [hmigrated hrename hnormal (fun rest hloc => by cases hloc), hc]
        exact .root
  | @mount _ cs v n hn hloc hm hnode =>
      subst hc
      rcases hact.keeps hN hnode protected_root with
        ⟨hsame, hkept⟩ | ⟨v', old, new, src, dst, directory, fx, hrename, rfl, hkept, -⟩
      · rw [hsame.current]
        exact .mount hn hloc hm hkept
      · have hout : ¬ key src <+: [] := key_nil_of_prefix hrename.source.ne_nil rfl
        rw [follow_of_not hout, ite_self] at hkept
        rw [hmigrated hrename hn]
        · exact .mount hn hloc hm hkept
        · intro rest hrest
          rw [hloc] at hrest
          cases hrest
          exact hout
  | @entry _ v rest n hentry hnode =>
      subst hc
      rcases hact.keeps hN hnode (protected_current hN hentry hnode hdir) with
        ⟨hsame, hkept⟩ | ⟨v', old, new, src, dst, directory, fx, hrename, rfl, hkept, habove⟩
      · rw [hsame.current]
        exact .entry hentry hkept
      · cases directory with
        | true =>
            have hfits := hrename.fits
            rw [TooLong, not_or] at hfits
            have hlen : migratedPathLength s.currentDirectory old new true < maximumPath := by
              by_contra hlong
              exact hfits.2 ⟨rfl, .inl (by omega)⟩
            have hmoved := hentry.migrate hrename.source hrename.target hlen
            refine .entry hmoved ?_
            show names fx v _ = some n
            rw [← hkept]
            congr 1
            split
            · exact key_migrate fun hno => by cases hno
            · rfl
        | false =>
            -- a file has moved, which the directory does not lie below
            have hsame : (if v = v' then NameTree.follow (key src) (key dst) (key rest)
                else key rest) = key rest := by
              split
              · rename_i hv
                apply follow_of_not
                intro hle
                exact (habove rfl hv hle).2 hdir
              · rfl
            rw [hsame] at hkept
            exact .entry hentry hkept

/-! ## Runs -/

/-- After `runtime_filex_initialize`. -/
def AfterStart (platform : Platform) (s : State σ) : Prop := ∃ fx, s = State.initial platform fx

theorem Denotes.chained (hN : X.Keeps names) (hsound : Sound platform s)
    (hchain : Chained X platform may s s') (h : Denotes platform (names s.fx) s.currentDirectory o)
    (hdir : IsDirectoryAt o) : Denotes platform (names s'.fx) s'.currentDirectory o := by
  have hboth : Sound platform s' ∧ Denotes platform (names s'.fx) s'.currentDirectory o := by
    obtain ⟨-, hacts⟩ := hchain
    induction hacts with
    | refl => exact ⟨hsound, h⟩
    | tail _ hact ih => exact ⟨hact.sound ih.1, ih.2.act hN ih.1 hact hdir⟩
  exact hboth.2

end Libc
end NucleoBase
