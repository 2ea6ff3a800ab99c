/-
  NucleoBase.Backend.KeysCorrect

  What thread-specific keys guarantee over every interleaving of creations,
  deletions, reads and writes by any number of threads, as long as a slot is
  recreated fewer than `2^24 - 1` times while an old handle or an old value is
  still around.

  A creation is named by its slot and its number in that slot; `Creation.handle` is
  the handle it returned.  The history says what each thread stored under
  which creation, and the invariant relates the last such store to the
  thread's slot.
-/

import NucleoBase.Backend.Keys
import Mathlib.Tactic.Common
import Mathlib.Data.Fintype.Basic

namespace NucleoBase
namespace Backend
namespace Keys

open Lib

set_option linter.unusedSectionVars false

/-! ## Generations and handles -/

theorem generationOf_succ_toNat (n : Nat) :
    (generationOf (n + 1)).toNat = n % generationPeriod + 1 := by
  simp only [generationOf, generationPeriod, UInt32.toNat_ofNat']
  omega

theorem generationOf_lt (n : Nat) : (generationOf n).toNat < 2 ^ 24 := by
  cases n with
  | zero => decide
  | succ n =>
      rw [generationOf_succ_toNat, generationPeriod]
      omega

theorem generationOf_ne_zero {n : Nat} (hn : 1 ≤ n) : generationOf n ≠ 0 := by
  intro h0
  obtain ⟨m, rfl⟩ : ∃ m, n = m + 1 := ⟨n - 1, by omega⟩
  have := generationOf_succ_toNat m
  rw [h0] at this
  simp at this

/-- Two creations of a slot that are less than a period apart have different
    generations. -/
theorem generationOf_ne {m n : Nat} (hm : 1 ≤ m) (hmn : m < n)
    (hwindow : n - m < generationPeriod) : generationOf m ≠ generationOf n := by
  intro heq
  obtain ⟨a, rfl⟩ : ∃ a, m = a + 1 := ⟨m - 1, by omega⟩
  obtain ⟨b, rfl⟩ : ∃ b, n = b + 1 := ⟨n - 1, by omega⟩
  have h := congrArg UInt32.toNat heq
  rw [generationOf_succ_toNat, generationOf_succ_toNat] at h
  simp only [generationPeriod] at h hwindow
  omega

private theorem generationMask_eq :
    keyGenerationMask >>> keyIndexBits = UInt32.ofNat (2 ^ 24 - 1) := by
  decide

/-- `key_create` steps through the generations in order. -/
theorem nextGeneration_generationOf (n : Nat) :
    nextGeneration (generationOf n) = generationOf (n + 1) := by
  cases n with
  | zero => decide
  | succ n =>
      have hg := generationOf_succ_toNat n
      have hsum : ((generationOf (n + 1) + 1) &&& UInt32.ofNat (2 ^ 24 - 1)).toNat =
          (n % generationPeriod + 2) % 2 ^ 24 := by
        rw [UInt32.toNat_and, UInt32.toNat_ofNat', UInt32.toNat_add, hg,
          show (2 ^ 24 - 1) % UInt32.size = 2 ^ 24 - 1 by decide, Nat.and_two_pow_sub_one_eq_mod]
        simp
      apply UInt32.toNat.inj
      rw [generationOf_succ_toNat]
      simp only [nextGeneration, generationMask_eq]
      simp only [generationPeriod] at hsum ⊢
      split
      · rename_i h0
        rw [h0] at hsum
        rw [h0]
        simp at hsum ⊢
        omega
      · rename_i h0
        have hne : ((generationOf (n + 1) + 1) &&& UInt32.ofNat (2 ^ 24 - 1)).toNat ≠ 0 :=
          fun h => h0 (UInt32.toNat.inj (by simpa using h))
        rw [hsum] at hne ⊢
        omega

theorem makeKey_toNat {index : Nat} {g : UInt32} (hi : index < 256) (hg : g.toNat < 2 ^ 24) :
    (makeKey index g).toNat = g.toNat * 256 + index := by
  have hshift : g.toNat <<< 8 % 2 ^ 32 = g.toNat <<< 8 :=
    Nat.mod_eq_of_lt (by rw [Nat.shiftLeft_eq]; omega)
  have hindex : index % 2 ^ 32 = index := Nat.mod_eq_of_lt (by omega)
  have hor : g.toNat <<< 8 ||| index = g.toNat <<< 8 + index :=
    (Nat.shiftLeft_add_eq_or_of_lt (by omega) _).symm
  rw [makeKey, keyIndexBits, UInt32.toNat_or, UInt32.toNat_shiftLeft, UInt32.toNat_ofNat',
    show (8 : UInt32).toNat % 32 = 8 by decide, hshift, hindex, hor, Nat.shiftLeft_eq]

theorem keyIndex_makeKey {index : Nat} {g : UInt32} (hi : index < 256) (hg : g.toNat < 2 ^ 24) :
    keyIndex (makeKey index g) = index := by
  have hmask : keyIndexMask.toNat = 2 ^ 8 - 1 := by decide
  rw [keyIndex, UInt32.toNat_and, hmask, Nat.and_two_pow_sub_one_eq_mod, makeKey_toNat hi hg]
  omega

theorem keyGeneration_makeKey {index : Nat} {g : UInt32} (hi : index < 256)
    (hg : g.toNat < 2 ^ 24) : keyGeneration (makeKey index g) = g := by
  apply UInt32.toNat.inj
  rw [keyGeneration, keyIndexBits, UInt32.toNat_shiftRight, makeKey_toNat hi hg,
    show (8 : UInt32).toNat % 32 = 8 by decide, Nat.shiftRight_eq_div_pow]
  omega

theorem Creation.keyIndex_handle {c : Creation} (hc : c.slot < runtimeThreadKeyCount) :
    keyIndex c.handle = c.slot :=
  keyIndex_makeKey (by unfold runtimeThreadKeyCount at hc; omega) (generationOf_lt _)

theorem Creation.keyGeneration_handle {c : Creation} (hc : c.slot < runtimeThreadKeyCount) :
    keyGeneration c.handle = generationOf c.number :=
  keyGeneration_makeKey (by unfold runtimeThreadKeyCount at hc; omega) (generationOf_lt _)

/-! ## What was stored, and what may still be around -/

variable {Thread : Type*} [DecidableEq Thread] {s s' : State Thread} {e : Event Thread}
  {h : List (Event Thread)}

/-- A store of `t` into its slot `i`: the creation's number and the value. -/
def storeOf (t : Thread) (i : Nat) : Event Thread → Option (Nat × Pointer)
  | .setSlot u c v true => if u = t ∧ c.slot = i then some (c.number, v) else none
  | _ => none

/-- The stores of `t` into its slot `i`, newest first. -/
def stores (h : List (Event Thread)) (t : Thread) (i : Nat) : List (Nat × Pointer) :=
  h.filterMap (storeOf t i)

/-- The value most recently stored by `t` under the creation `c`. -/
def lastStored (h : List (Event Thread)) (t : Thread) (c : Creation) : Option Pointer :=
  ((stores h t c.slot).find? fun a => decide (a.1 = c.number)).map Prod.snd

/-- The creation has not been deleted and its slot not been reused. -/
def State.Live (s : State Thread) (c : Creation) : Prop :=
  (s.keys c.slot).allocated = true ∧ s.creations c.slot = c.number

instance (s : State Thread) (c : Creation) : Decidable (s.Live c) := by
  unfold State.Live; infer_instance

/-- `c` was created, and its slot recreated fewer than a period times since. -/
def State.Recent (s : State Thread) (c : Creation) : Prop :=
  1 ≤ c.number ∧ c.number ≤ s.creations c.slot ∧
    s.creations c.slot - c.number < generationPeriod

/-- The runs the guarantee is about: a handle in use comes from a recent
    creation, and no slot is recreated for the `2^24 - 1`-th time while a value
    stored under, or a call in progress with, the old creation survives. -/
def Proviso (h : List (Event Thread)) (s : State Thread) : Event Thread → Prop
  | .create _ i _ =>
      (∀ u, ∀ a ∈ (stores h u i).head?, s.creations i + 1 - a.1 < generationPeriod) ∧
      ∀ u, ∀ c ∈ s.call u, c.key.slot = i →
        s.creations i + 1 - c.key.number < generationPeriod
  | .delete _ c | .getCheck _ c | .setCheck _ c _ => s.Recent c
  | _ => True

instance (s : State Thread) (c : Creation) : Decidable (s.Recent c) := by
  unfold State.Recent; infer_instance

instance [Fintype Thread] (h : List (Event Thread)) (s : State Thread) (e : Event Thread) :
    Decidable (Proviso h s e) := by
  cases e <;> unfold Proviso <;> infer_instance

/-! ## The invariant -/

/-- What the table, the slots, the calls and the history have to do with each
    other. -/
structure Inv (h : List (Event Thread)) (s : State Thread) : Prop where
  generation : ∀ i, (s.keys i).generation = generationOf (s.creations i)
  allocated : ∀ i, (s.keys i).allocated = true → 1 ≤ s.creations i
  /-- Only slots of the table are ever created. -/
  slots : ∀ i, 1 ≤ s.creations i → i < runtimeThreadKeyCount
  /-- A slot never stored to has generation 0. -/
  empty : ∀ t i, stores h t i = [] → s.tlsGenerations t i = 0
  /-- Any other slot holds the last store and its generation. -/
  last : ∀ t i a, (stores h t i).head? = some a →
    s.tlsGenerations t i = generationOf a.1 ∧ s.tlsValues t i = a.2 ∧
      s.creations i - a.1 < generationPeriod
  /-- A thread's stores into a slot are under ever later creations. -/
  sorted : ∀ t i, (stores h t i).Pairwise fun a b => b.1 ≤ a.1
  created : ∀ t i, ∀ a ∈ stores h t i, 1 ≤ a.1 ∧ a.1 ≤ s.creations i
  call_recent : ∀ t c, s.call t = some c → s.Recent c.key
  /-- A call that found its key has stored nothing under a later creation. -/
  call_known : ∀ t c, s.call t = some c → c.known = true →
    ∀ a ∈ stores h t c.key.slot, a.1 ≤ c.key.number

theorem Inv.initial (h0 : init s) : Inv [] s := by
  obtain ⟨hk, hv, hg, hc, hn⟩ := h0
  constructor <;> simp [hk, hg, hc, hn, stores, generationOf]

/-- The creation's slot is one of the table. -/
theorem Inv.slot_lt (inv : Inv h s) {c : Creation} (hr : s.Recent c) :
    c.slot < runtimeThreadKeyCount :=
  inv.slots _ (le_trans hr.1 hr.2.1)

/-- The test under the mutex succeeds exactly on a live creation: within the
    window two creations of one slot have different generations. -/
theorem Inv.known_iff (inv : Inv h s) {c : Creation} (hr : s.Recent c) :
    s.known c.handle = true ↔ s.Live c := by
  have hslot := inv.slot_lt hr
  have hgen : generationOf (s.creations c.slot) = generationOf c.number ↔
      s.creations c.slot = c.number := by
    constructor
    · intro heq
      by_contra hne
      have hlt : c.number < s.creations c.slot :=
        lt_of_le_of_ne hr.2.1 (Ne.symm hne)
      exact generationOf_ne hr.1 hlt hr.2.2 heq.symm
    · exact fun heq => by rw [heq]
  simp [State.known, wellFormed, Creation.keyIndex_handle hslot,
    Creation.keyGeneration_handle hslot, hslot, generationOf_ne_zero hr.1, inv.generation,
    State.Live, hgen]

theorem stores_cons (e : Event Thread) (h : List (Event Thread)) (t : Thread) (i : Nat) :
    stores (e :: h) t i = (storeOf t i e).toList ++ stores h t i := by
  cases hst : storeOf t i e <;> simp [stores, hst]

/-- An event that is not a store leaves the record of stores alone. -/
theorem stores_cons_of_none (he : ∀ t i, storeOf t i e = none) (t : Thread) (i : Nat) :
    stores (e :: h) t i = stores h t i := by
  simp [stores_cons, he]

section Preservation

theorem Inv.create (inv : Inv h s) {t : Thread} {i : Nat} {d : Pointer}
    (hfree : s.freeIndex = some i) (hp : Proviso h s (.create t i d)) :
    Inv (.create t i d :: h) (s.createAt i d) := by
  have hstores := stores_cons_of_none (h := h) (e := .create t i d) (fun _ _ => rfl)
  have hlt : i < runtimeThreadKeyCount :=
    List.mem_range.mp (List.mem_of_find?_eq_some hfree)
  have hle : ∀ j, s.creations j ≤ (s.createAt i d).creations j := by
    intro j
    rcases eq_or_ne j i with rfl | hne
    · simp [State.createAt]
    · simp [State.createAt, Function.update_of_ne hne]
  constructor
  · intro j
    rcases eq_or_ne j i with rfl | hne
    · simp [State.createAt, inv.generation, nextGeneration_generationOf]
    · simpa [State.createAt, Function.update_of_ne hne] using inv.generation j
  · intro j hj
    rcases eq_or_ne j i with rfl | hne
    · simp [State.createAt]
    · simp only [State.createAt, Function.update_of_ne hne] at hj ⊢
      exact inv.allocated j hj
  · intro j hj
    rcases eq_or_ne j i with rfl | hne
    · exact hlt
    · simp only [State.createAt, Function.update_of_ne hne] at hj
      exact inv.slots j hj
  · intro u j hj
    rw [hstores] at hj
    exact inv.empty u j hj
  · intro u j a ha
    rw [hstores] at ha
    obtain ⟨hg, hv, hw⟩ := inv.last u j a ha
    refine ⟨hg, hv, ?_⟩
    rcases eq_or_ne j i with rfl | hne
    · simpa [State.createAt] using hp.1 u a ha
    · simpa [State.createAt, Function.update_of_ne hne] using hw
  · intro u j
    rw [hstores]
    exact inv.sorted u j
  · intro u j a ha
    rw [hstores] at ha
    obtain ⟨h1, h2⟩ := inv.created u j a ha
    exact ⟨h1, le_trans h2 (hle j)⟩
  · intro u c hc
    obtain ⟨h1, h2, h3⟩ := inv.call_recent u c hc
    refine ⟨h1, le_trans h2 (hle _), ?_⟩
    by_cases hslot : c.key.slot = i
    · have := hp.2 u c hc hslot
      simpa [State.createAt, hslot] using this
    · simpa [State.createAt, Function.update_of_ne hslot] using h3
  · intro u c hc hk a ha
    rw [hstores] at ha
    exact inv.call_known u c hc hk a ha

theorem Inv.delete (inv : Inv h s) {t : Thread} {c : Creation} (i : Nat) :
    Inv (.delete t c :: h) (s.deleteAt i) := by
  have hstores := stores_cons_of_none (h := h) (e := .delete t c) (fun _ _ => rfl)
  refine ⟨fun j => ?_, fun j hj => ?_, inv.slots, fun u j hj => ?_, fun u j a ha => ?_,
    fun u j => ?_, fun u j a ha => ?_, inv.call_recent, fun u k hk hkn a ha => ?_⟩
  · rcases eq_or_ne j i with rfl | hne
    · simpa [State.deleteAt] using inv.generation j
    · simpa [State.deleteAt, Function.update_of_ne hne] using inv.generation j
  · rcases eq_or_ne j i with rfl | hne
    · simp [State.deleteAt] at hj
    · simp only [State.deleteAt, Function.update_of_ne hne] at hj
      exact inv.allocated j hj
  · rw [hstores] at hj
    exact inv.empty u j hj
  · rw [hstores] at ha
    exact inv.last u j a ha
  · rw [hstores]
    exact inv.sorted u j
  · rw [hstores] at ha
    exact inv.created u j a ha
  · rw [hstores] at ha
    exact inv.call_known u k hk hkn a ha

/-- Events that change neither the table nor a slot, only the caller's call. -/
theorem Inv.setCall (inv : Inv h s) (he : ∀ t i, storeOf t i e = none) (t : Thread)
    (k : Option Call) (hrecent : ∀ c, k = some c → s.Recent c.key)
    (hknown : ∀ c, k = some c → c.known = true → s.Live c.key) :
    Inv (e :: h) (s.setCall t k) := by
  have hstores := stores_cons_of_none (h := h) he
  refine ⟨inv.generation, inv.allocated, inv.slots, fun u j hj => ?_, fun u j a ha => ?_,
    fun u j => ?_, fun u j a ha => ?_, fun u c hc => ?_, fun u c hc hk a ha => ?_⟩
  · rw [hstores] at hj
    exact inv.empty u j hj
  · rw [hstores] at ha
    exact inv.last u j a ha
  · rw [hstores]
    exact inv.sorted u j
  · rw [hstores] at ha
    exact inv.created u j a ha
  · rcases eq_or_ne u t with rfl | hne
    · exact hrecent c (by simpa [State.setCall] using hc)
    · exact inv.call_recent u c (by simpa [State.setCall, Function.update_of_ne hne] using hc)
  · rw [hstores] at ha
    rcases eq_or_ne u t with rfl | hne
    · -- the creation is live, so it is the newest one of its slot
      have hlive := hknown c (by simpa [State.setCall] using hc) hk
      rw [← hlive.2]
      exact (inv.created u _ a ha).2
    · exact inv.call_known u c (by simpa [State.setCall, Function.update_of_ne hne] using hc) hk a ha

theorem Inv.write (inv : Inv h s) {t : Thread} {c : Creation} {v : Pointer}
    (hcall : s.call t = some (.set c v true)) :
    Inv (.setSlot t c v true :: h) ((s.writeSlot t c.handle v).setCall t none) := by
  have hrecent : s.Recent c := inv.call_recent t _ hcall
  have hslot := inv.slot_lt hrecent
  have hidx := Creation.keyIndex_handle hslot
  have hgen := Creation.keyGeneration_handle hslot
  have hmine : stores (.setSlot t c v true :: h) t c.slot = (c.number, v) :: stores h t c.slot := by
    simp [stores_cons, storeOf]
  have hother : ∀ u j, ¬ (u = t ∧ j = c.slot) →
      stores (.setSlot t c v true :: h) u j = stores h u j := by
    intro u j hne
    have : ¬ (t = u ∧ c.slot = j) := fun hx => hne ⟨hx.1.symm, hx.2.symm⟩
    simp [stores_cons, storeOf, this]
  have htlsg : ∀ u j, ((s.writeSlot t c.handle v).setCall t none).tlsGenerations u j =
      if u = t ∧ j = c.slot then generationOf c.number else s.tlsGenerations u j := by
    intro u j
    rcases eq_or_ne u t with rfl | hut
    · rcases eq_or_ne j c.slot with rfl | hj
      · simp [State.writeSlot, State.setCall, hidx, hgen]
      · simp [State.writeSlot, State.setCall, hidx, hj]
    · simp [State.writeSlot, State.setCall, hut]
  have htlsv : ∀ u j, ((s.writeSlot t c.handle v).setCall t none).tlsValues u j =
      if u = t ∧ j = c.slot then v else s.tlsValues u j := by
    intro u j
    rcases eq_or_ne u t with rfl | hut
    · rcases eq_or_ne j c.slot with rfl | hj
      · simp [State.writeSlot, State.setCall, hidx]
      · simp [State.writeSlot, State.setCall, hidx, hj]
    · simp [State.writeSlot, State.setCall, hut]
  refine ⟨inv.generation, inv.allocated, inv.slots, fun u j hj => ?_, fun u j a ha => ?_,
    fun u j => ?_, fun u j a ha => ?_, fun u k hk => ?_, fun u k hk hkn a ha => ?_⟩
  · rw [htlsg]
    by_cases hc : u = t ∧ j = c.slot
    · obtain ⟨rfl, rfl⟩ := hc
      rw [hmine] at hj
      cases hj
    · rw [if_neg hc]
      rw [hother u j hc] at hj
      exact inv.empty u j hj
  · rw [htlsg, htlsv]
    by_cases hc : u = t ∧ j = c.slot
    · rw [if_pos hc, if_pos hc]
      obtain ⟨rfl, rfl⟩ := hc
      rw [hmine, List.head?_cons, Option.some.injEq] at ha
      subst ha
      exact ⟨rfl, rfl, hrecent.2.2⟩
    · rw [if_neg hc, if_neg hc]
      rw [hother u j hc] at ha
      exact inv.last u j a ha
  · by_cases hc : u = t ∧ j = c.slot
    · obtain ⟨rfl, rfl⟩ := hc
      rw [hmine, List.pairwise_cons]
      exact ⟨fun a ha => inv.call_known u _ hcall rfl a ha, inv.sorted u _⟩
    · rw [hother u j hc]
      exact inv.sorted u j
  · by_cases hc : u = t ∧ j = c.slot
    · obtain ⟨rfl, rfl⟩ := hc
      rw [hmine] at ha
      rcases List.mem_cons.mp ha with rfl | ha
      · exact ⟨hrecent.1, hrecent.2.1⟩
      · exact inv.created u _ a ha
    · rw [hother u j hc] at ha
      exact inv.created u j a ha
  · have hut : u ≠ t := by
      rintro rfl
      simp [State.setCall] at hk
    exact inv.call_recent u k (by
      simpa [State.setCall, State.writeSlot, Function.update_of_ne hut] using hk)
  · have hut : u ≠ t := by
      rintro rfl
      simp [State.setCall] at hk
    rw [hother u _ (fun hx => hut hx.1)] at ha
    exact inv.call_known u k (by
      simpa [State.setCall, State.writeSlot, Function.update_of_ne hut] using hk) hkn a ha

end Preservation

theorem Inv.preserve (inv : Inv h s) (hp : Proviso h s e) (hs : step s e = some s') :
    Inv (e :: h) s' := by
  cases e with
  | create t i d =>
      simp only [step, Option.ite_none_right_eq_some, Option.some.injEq] at hs
      obtain ⟨⟨-, hfree⟩, rfl⟩ := hs
      exact inv.create hfree hp
  | createFull t =>
      simp only [step, Option.ite_none_right_eq_some, Option.some.injEq] at hs
      obtain ⟨⟨hc, -⟩, rfl⟩ := hs
      have hself : s = s.setCall t none := by simp [State.setCall, ← hc]
      rw [hself]
      exact inv.setCall (fun _ _ => rfl) t none (by simp) (by simp)
  | delete t c =>
      simp only [step, Option.ite_none_right_eq_some] at hs
      obtain ⟨hc, hs⟩ := hs
      split at hs
      · cases hs
        exact inv.delete _
      · cases hs
        have hself : s = s.setCall t none := by simp [State.setCall, ← hc]
        rw [hself]
        exact inv.setCall (fun _ _ => rfl) t none (by simp) (by simp)
  | getCheck t c =>
      simp only [step, Option.ite_none_right_eq_some, Option.some.injEq] at hs
      obtain ⟨-, rfl⟩ := hs
      refine inv.setCall (fun _ _ => rfl) t _ (fun k hk => ?_) (fun k hk hkn => ?_)
      · cases hk
        exact hp
      · cases hk
        exact (inv.known_iff hp).mp hkn
  | getSlot t c r =>
      simp only [step, Option.ite_none_right_eq_some, Option.some.injEq] at hs
      obtain ⟨-, rfl⟩ := hs
      exact inv.setCall (fun _ _ => rfl) t none (by simp) (by simp)
  | setCheck t c v =>
      simp only [step, Option.ite_none_right_eq_some, Option.some.injEq] at hs
      obtain ⟨-, rfl⟩ := hs
      refine inv.setCall (fun _ _ => rfl) t _ (fun k hk => ?_) (fun k hk hkn => ?_)
      · cases hk
        exact hp
      · cases hk
        exact (inv.known_iff hp).mp hkn
  | setSlot t c v stored =>
      simp only [step, Option.ite_none_right_eq_some, Option.some.injEq] at hs
      obtain ⟨hcall, rfl⟩ := hs
      cases stored with
      | true => exact inv.write hcall
      | false => exact inv.setCall (fun _ _ => rfl) t none (by simp) (by simp)

/-- The invariant holds in every run within the proviso. -/
theorem inv_of_run (hrun : Run step Proviso init h s) : Inv h s :=
  Run.history_invariant (fun _ h0 => Inv.initial h0)
    (fun _ _ _ _ inv hp hs => inv.preserve hp hs) hrun

/-! ## Reading and overwriting a slot -/

/-- A creation later than every store of `t` into its slot has no value. -/
theorem lastStored_eq_none {t : Thread} {c : Creation}
    (hlt : ∀ a ∈ stores h t c.slot, a.1 < c.number) : lastStored h t c = none := by
  simp only [lastStored, Option.map_eq_none_iff, List.find?_eq_none, decide_eq_true_eq]
  exact fun a ha => Nat.ne_of_lt (hlt a ha)

/-- In a freshly created slot every thread reads null. -/
theorem Inv.fresh_reads_null (inv : Inv h s) {t u : Thread} {i : Nat} {d : Pointer}
    (hfree : s.freeIndex = some i) (hp : Proviso h s (.create t i d)) :
    (s.createAt i d).readSlot u (Creation.handle ⟨i, s.creations i + 1⟩) true = 0 ∧
      lastStored h u ⟨i, s.creations i + 1⟩ = none := by
  have hlt : i < runtimeThreadKeyCount := List.mem_range.mp (List.mem_of_find?_eq_some hfree)
  have hnone : lastStored h u ⟨i, s.creations i + 1⟩ = none :=
    lastStored_eq_none fun a ha => Nat.lt_succ_of_le (inv.created u i a ha).2
  refine ⟨?_, hnone⟩
  have hidx : keyIndex (Creation.handle ⟨i, s.creations i + 1⟩) = i :=
    Creation.keyIndex_handle (c := ⟨i, s.creations i + 1⟩) hlt
  have hgenh : keyGeneration (Creation.handle ⟨i, s.creations i + 1⟩) =
      generationOf (s.creations i + 1) :=
    Creation.keyGeneration_handle (c := ⟨i, s.creations i + 1⟩) hlt
  have hne : s.tlsGenerations u i ≠ generationOf (s.creations i + 1) := by
    cases hst : stores h u i with
    | nil =>
        rw [inv.empty u i hst]
        exact Ne.symm (generationOf_ne_zero (Nat.le_add_left 1 _))
    | cons a rest =>
        have hhead : (stores h u i).head? = some a := by rw [hst]; rfl
        have hmem : a ∈ stores h u i := by rw [hst]; exact List.mem_cons_self
        obtain ⟨h1, h2⟩ := inv.created u i a hmem
        rw [(inv.last u i a hhead).1]
        exact generationOf_ne h1 (Nat.lt_succ_of_le h2) (hp.1 u a hhead)
  simp [State.readSlot, State.createAt, hidx, hgenh, hne]

/-! ## What thread-specific keys guarantee -/

/-- The check a call in progress has passed. -/
def Call.checkEvent (t : Thread) : Call → Event Thread
  | .get c _ => .getCheck t c
  | .set c v _ => .setCheck t c v

/-- A call in progress looks back to its check: nothing of its thread happened
    since, and it found its key if and only if the creation was live then. -/
def Pending (h : List (Event Thread)) (t : Thread) (k : Call) : Prop :=
  ∃ h₁ h₂ s₁, h = h₂ ++ k.checkEvent t :: h₁ ∧ (∀ e ∈ h₂, e.thread ≠ t) ∧
    Run step Proviso init h₁ s₁ ∧ (k.known = true ↔ s₁.Live k.key)

theorem Pending.cons {t : Thread} {k : Call} (hk : Pending h t k) (he : e.thread ≠ t) :
    Pending (e :: h) t k := by
  obtain ⟨h₁, h₂, s₁, rfl, hh₂, hrun, hlive⟩ := hk
  refine ⟨h₁, e :: h₂, s₁, rfl, fun e' he' => ?_, hrun, hlive⟩
  rcases List.mem_cons.mp he' with rfl | he'
  · exact he
  · exact hh₂ e' he'

/-- The guarantees of the four key operations after a run with history `h`. -/
structure Guarantee (h : List (Event Thread)) (s : State Thread) : Prop where
  /-- `key_get` returns what its thread last stored under the same creation if
      the creation was live at the call's check, and null otherwise. -/
  get_returns : ∀ t c r s', step s (.getSlot t c r) = some s' →
    ∃ h₁ h₂ s₁, h = h₂ ++ .getCheck t c :: h₁ ∧ (∀ e ∈ h₂, e.thread ≠ t) ∧
      Run step Proviso init h₁ s₁ ∧ r = if s₁.Live c then (lastStored h t c).getD 0 else 0
  /-- `key_set` stores if and only if the creation was live at its check. -/
  set_stores : ∀ t c v stored s', step s (.setSlot t c v stored) = some s' →
    ∃ h₁ h₂ s₁, h = h₂ ++ .setCheck t c v :: h₁ ∧ (∀ e ∈ h₂, e.thread ≠ t) ∧
      Run step Proviso init h₁ s₁ ∧ (stored = true ↔ s₁.Live c)
  /-- A store touches one slot of its own thread, and no value the thread has
      stored under a later creation of the key. -/
  set_overwrites : ∀ t c v s', step s (.setSlot t c v true) = some s' →
    (∀ c', c'.slot = c.slot → c.number < c'.number → lastStored h t c' = none) ∧
    ∀ u j, ¬ (u = t ∧ j = c.slot) → s'.tlsValues u j = s.tlsValues u j ∧
      s'.tlsGenerations u j = s.tlsGenerations u j
  /-- A refused `key_set` touches no slot. -/
  set_refused : ∀ t c v s', step s (.setSlot t c v false) = some s' →
    s'.tlsValues = s.tlsValues ∧ s'.tlsGenerations = s.tlsGenerations
  /-- `key_create` returns the handle of the new creation, which is live and
      reads null in every thread. -/
  create_fresh : ∀ t i d s', step s (.create t i d) = some s' →
    Proviso h s (.create t i d) →
    s.createdHandle i = Creation.handle ⟨i, s.creations i + 1⟩ ∧
    s'.Live ⟨i, s.creations i + 1⟩ ∧
    ∀ u, s'.readSlot u (Creation.handle ⟨i, s.creations i + 1⟩) true = 0 ∧
      lastStored h u ⟨i, s.creations i + 1⟩ = none

end Keys
end Backend
end NucleoBase
