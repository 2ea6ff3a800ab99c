/-
  NucleoBase.Backend.Semaphores

  Semaphores (backend.cpp): a ThreadX counting semaphore behind each handle,
  created on first use under `initialization_mutex` with the handle's
  `initial_count`, and the calls on it with their status codes.

  `tx_semaphore_put` counts in a 32-bit word that starts over at zero.
  `tx_semaphore_delete` of a semaphore that exists succeeds, so
  `semaphore_destroy` is one step.
-/

import NucleoBase.Lib.Lazy
import Mathlib.Data.List.Count

namespace NucleoBase
namespace Backend
namespace Semaphores

open Lib Lib.Lazy

/-! ## The calls -/

inductive Status
  | ok
  /-- `EAGAIN`. -/
  | again
  /-- `ETIMEDOUT`. -/
  | timedOut
  deriving DecidableEq, Repr

/-- What is left of a call. -/
inductive Call
  /-- `semaphore_wait`. -/
  | semaphoreWait
  /-- `semaphore_try_wait`. -/
  | semaphoreTryWait
  /-- `semaphore_timed_wait`, and every round of its `wait_until`. -/
  | semaphoreTimedWait
  /-- `wait_function` with the ticks that remain. -/
  | wait
  /-- `wait_function` with `TX_NO_WAIT`, after the deadline. -/
  | last
  /-- `semaphore_post`. -/
  | semaphorePost
  deriving DecidableEq, Repr

/-- The calls of the interface. -/
def Call.Entry : Call → Prop
  | .wait | .last => False
  | _ => True

instance : DecidablePred Call.Entry
  | .wait | .last => isFalse not_false
  | .semaphoreWait | .semaphoreTryWait | .semaphoreTimedWait | .semaphorePost => isTrue trivial

/-- `tx_semaphore_get` with `TX_NO_WAIT`. -/
def get (count : Nat) : Option Nat := if count = 0 then none else some (count - 1)

/-- `tx_semaphore_put`. -/
def put (count : Nat) : Nat := (count + 1) % UInt32.size

/-- One step of a call.  The input is the clock's: in a round the deadline has passed, in
    `wait` the ticks run out. -/
def act (passed : Bool) (c : Call) (count : Nat) : Option (Nat × (Call ⊕ Status)) :=
  match c with
  | .semaphoreWait =>
      match get count with
      | some count' => some (count', .inr .ok)
      | none => none
  | .semaphoreTryWait =>
      match get count with
      | some count' => some (count', .inr .ok)
      | none => some (count, .inr .again)
  | .semaphoreTimedWait => if passed then some (count, .inl .last) else some (count, .inl .wait)
  | .wait =>
      match get count with
      | some count' => some (count', .inr .ok)
      | none => if passed then some (count, .inl .semaphoreTimedWait) else none
  | .last =>
      match get count with
      | some count' => some (count', .inr .ok)
      | none => some (count, .inr .timedOut)
  | .semaphorePost => some (put count, .inr .ok)

/-- `SemaphoreImplementation` behind `SemaphoreHandle`. -/
def kind (Thread : Type*) {Handle : Type*} (initialCount : Handle → UInt32) :
    Kind Thread Handle Nat Bool Call Status where
  fresh h := (initialCount h).toNat
  Entry := Call.Entry
  act _ := act
  absent _ := none
  Retired _ := True
  act_absent _ _ _ _ _ habsent := by cases habsent

instance {Thread Handle : Type*} (initialCount : Handle → UInt32) :
    DecidablePred (kind Thread initialCount).Entry :=
  inferInstanceAs (DecidablePred Call.Entry)

instance {Thread Handle : Type*} (initialCount : Handle → UInt32) :
    DecidablePred (kind Thread initialCount).Retired :=
  fun _ => isTrue trivial

/-! ## What a step of a call can do -/

/-- What a step of a call does to the count and how the call goes on. -/
inductive Acts (count : Nat) : Call → Nat → Call ⊕ Status → Prop
  | goesOn {c c' : Call} : Acts count c count (.inl c')
  | acquires {c : Call} : c ≠ .semaphorePost → 0 < count → Acts count c (count - 1) (.inr .ok)
  | posts : Acts count .semaphorePost (put count) (.inr .ok)
  /-- There is nothing to acquire. -/
  | refused {c : Call} {r : Status} : r ≠ .ok → count = 0 → Acts count c count (.inr r)

theorem get_eq_some {count count' : Nat} :
    get count = some count' ↔ 0 < count ∧ count' = count - 1 := by
  unfold get
  split
  · simp only [reduceCtorEq, false_iff]
    omega
  · simp only [Option.some.injEq]
    omega

theorem get_eq_none {count : Nat} : get count = none ↔ count = 0 := by
  unfold get
  split <;> simp_all

theorem act_spec {passed : Bool} {c : Call} {count count' : Nat} {out : Call ⊕ Status}
    (h : act passed c count = some (count', out)) : Acts count c count' out := by
  cases c with
  | semaphoreWait =>
      simp only [act] at h
      split at h
      · rename_i n hget
        obtain ⟨rfl, rfl⟩ := Prod.mk.inj (Option.some_inj.mp h)
        obtain ⟨hpos, rfl⟩ := get_eq_some.mp hget
        exact .acquires nofun hpos
      · cases h
  | semaphoreTryWait =>
      simp only [act] at h
      split at h
      · rename_i n hget
        obtain ⟨rfl, rfl⟩ := Prod.mk.inj (Option.some_inj.mp h)
        obtain ⟨hpos, rfl⟩ := get_eq_some.mp hget
        exact .acquires nofun hpos
      · rename_i hget
        obtain ⟨rfl, rfl⟩ := Prod.mk.inj (Option.some_inj.mp h)
        exact .refused nofun (get_eq_none.mp hget)
  | semaphoreTimedWait =>
      simp only [act] at h
      split at h <;> obtain ⟨rfl, rfl⟩ := Prod.mk.inj (Option.some_inj.mp h) <;> exact .goesOn
  | wait =>
      simp only [act] at h
      split at h
      · rename_i n hget
        obtain ⟨rfl, rfl⟩ := Prod.mk.inj (Option.some_inj.mp h)
        obtain ⟨hpos, rfl⟩ := get_eq_some.mp hget
        exact .acquires nofun hpos
      · split at h
        · obtain ⟨rfl, rfl⟩ := Prod.mk.inj (Option.some_inj.mp h)
          exact .goesOn
        · cases h
  | last =>
      simp only [act] at h
      split at h
      · rename_i n hget
        obtain ⟨rfl, rfl⟩ := Prod.mk.inj (Option.some_inj.mp h)
        obtain ⟨hpos, rfl⟩ := get_eq_some.mp hget
        exact .acquires nofun hpos
      · rename_i hget
        obtain ⟨rfl, rfl⟩ := Prod.mk.inj (Option.some_inj.mp h)
        exact .refused nofun (get_eq_none.mp hget)
  | semaphorePost =>
      obtain ⟨rfl, rfl⟩ := Prod.mk.inj (Option.some_inj.mp h)
      exact .posts

/-! ## What the callers count -/

variable {Thread Handle : Type*} [DecidableEq Handle] {initialCount : Handle → UInt32}

/-- An event of the semaphores. -/
abbrev SemaphoreEvent (Thread Handle : Type*) := Event Thread Handle Bool Call Status

/-- A wait on the semaphore returns successfully. -/
def acquires (h : Handle) : SemaphoreEvent Thread Handle → Bool
  | .act _ k c _ (.inr .ok) => decide (k = h ∧ c ≠ .semaphorePost)
  | _ => false

/-- A post to the semaphore returns successfully. -/
def posts (h : Handle) : SemaphoreEvent Thread Handle → Bool
  | .act _ k c _ (.inr .ok) => decide (k = h ∧ c = .semaphorePost)
  | _ => false

def destroys (h : Handle) : SemaphoreEvent Thread Handle → Bool
  | .giveUp k => decide (k = h)
  | _ => false

/-- The events since the semaphore was last destroyed, most recent first. -/
def life (h : Handle) (hist : List (SemaphoreEvent Thread Handle)) :
    List (SemaphoreEvent Thread Handle) :=
  hist.takeWhile fun e => !destroys h e

/-- Everything that there has been to acquire. -/
def granted (initialCount : Handle → UInt32) (h : Handle)
    (hist : List (SemaphoreEvent Thread Handle)) : Nat :=
  (initialCount h).toNat + (life h hist).countP (posts h)

def acquired (h : Handle) (hist : List (SemaphoreEvent Thread Handle)) : Nat :=
  (life h hist).countP (acquires h)

/-- What an event tells its caller is so, after the events before it: a wait that does not
    acquire found everything acquired, unless the count has started over. -/
def Truthful (initialCount : Handle → UInt32) (before : List (SemaphoreEvent Thread Handle)) :
    SemaphoreEvent Thread Handle → Prop
  | .act _ h c _ (.inr .ok) =>
      c = .semaphorePost ∨ acquired h before < granted initialCount h before
  | .act _ h _ _ (.inr .again) | .act _ h _ _ (.inr .timedOut) =>
      granted initialCount h before < UInt32.size →
        acquired h before = granted initialCount h before
  -- `ENOMEM`: the semaphore could not be created, and nobody has acquired it.
  | .fail _ h _ => granted initialCount h before < UInt32.size →
      acquired h before = (life h before).countP (posts h)
  | _ => True

def AllTruthful (initialCount : Handle → UInt32) : List (SemaphoreEvent Thread Handle) → Prop
  | [] => True
  | e :: before => Truthful initialCount before e ∧ AllTruthful initialCount before

/-- What holds after a run, of the counts behind the handles. -/
structure Guarantee (initialCount : Handle → UInt32) (count : Handle → Nat)
    (hist : List (SemaphoreEvent Thread Handle)) : Prop where
  /-- No more is acquired than there has been. -/
  bounded : ∀ h, acquired h hist ≤ granted initialCount h hist
  /-- Nothing is lost: what has not been acquired is in the count. -/
  exact : ∀ h, granted initialCount h hist < UInt32.size →
    count h + acquired h hist = granted initialCount h hist
  truthful : AllTruthful initialCount hist

/-! ## The invariant of semaphores that are there from the start -/

structure Inv (initialCount : Handle → UInt32) (hist : List (SemaphoreEvent Thread Handle))
    (count : Handle → Nat) : Prop where
  bounded : ∀ h, count h + acquired h hist ≤ granted initialCount h hist
  exact : ∀ h, granted initialCount h hist < UInt32.size →
    count h + acquired h hist = granted initialCount h hist
  truthful : AllTruthful initialCount hist

variable {hist : List (SemaphoreEvent Thread Handle)} {count : Handle → Nat}
  {e : SemaphoreEvent Thread Handle} {h : Handle}

theorem life_cons (hkeeps : destroys h e = false) : life h (e :: hist) = e :: life h hist := by
  simp [life, hkeeps]

theorem life_giveUp : life h (.giveUp h :: hist) = [] := by
  simp [life, destroys]

/-- An event that neither acquires nor posts nor destroys counts for nothing. -/
theorem counts_quiet (initialCount : Handle → UInt32) (hist : List (SemaphoreEvent Thread Handle))
    (hkeeps : destroys h e = false) (hacquires : acquires h e = false)
    (hposts : posts h e = false) :
    acquired h (e :: hist) = acquired h hist ∧
      granted initialCount h (e :: hist) = granted initialCount h hist := by
  simp [acquired, granted, life_cons hkeeps, hacquires, hposts]

theorem counts_acquire (initialCount : Handle → UInt32)
    (hist : List (SemaphoreEvent Thread Handle)) (t : Thread) (k h : Handle) (i : Bool) {c : Call}
    (hc : c ≠ .semaphorePost) :
    acquired h (.act t k c i (.inr .ok) :: hist) =
        acquired h hist + (if k = h then 1 else 0) ∧
      granted initialCount h (.act t k c i (.inr .ok) :: hist) = granted initialCount h hist := by
  simp [acquired, granted, life_cons (e := .act t k c i (.inr .ok)) rfl, List.countP_cons,
    acquires, posts, hc]

theorem counts_post (initialCount : Handle → UInt32)
    (hist : List (SemaphoreEvent Thread Handle)) (t : Thread) (k h : Handle) (i : Bool) :
    acquired h (.act t k .semaphorePost i (.inr .ok) :: hist) = acquired h hist ∧
      granted initialCount h (.act t k .semaphorePost i (.inr .ok) :: hist) =
        granted initialCount h hist + (if k = h then 1 else 0) := by
  simp [acquired, granted, life_cons (e := .act t k .semaphorePost i (.inr .ok)) rfl,
    List.countP_cons, acquires, posts, Nat.add_assoc]

/-- No count changes. -/
theorem Inv.quiet (hi : Inv initialCount hist count) (hkeeps : ∀ k, destroys k e = false)
    (hacquires : ∀ k, acquires k e = false) (hposts : ∀ k, posts k e = false)
    (htruthful : Truthful initialCount hist e) : Inv initialCount (e :: hist) count where
  bounded k := by
    obtain ⟨ha, hg⟩ := counts_quiet initialCount hist (hkeeps k) (hacquires k)
      (hposts k)
    rw [ha, hg]
    exact hi.bounded k
  exact k := by
    obtain ⟨ha, hg⟩ := counts_quiet initialCount hist (hkeeps k) (hacquires k)
      (hposts k)
    rw [ha, hg]
    exact hi.exact k
  truthful := ⟨htruthful, hi.truthful⟩

theorem Inv.acquires (hi : Inv initialCount hist count) {t : Thread} {c : Call} {i : Bool}
    (hc : c ≠ .semaphorePost) (hpos : 0 < count h) :
    Inv initialCount (.act t h c i (.inr .ok) :: hist)
      (Function.update count h (count h - 1)) where
  bounded k := by
    have hbounded := hi.bounded k
    obtain ⟨ha, hg⟩ := counts_acquire initialCount hist t h k i hc
    rw [ha, hg]
    by_cases hk : k = h
    · subst hk
      rw [Function.update_self, if_pos rfl]
      omega
    · rw [Function.update_of_ne hk, if_neg (Ne.symm hk)]
      exact hbounded
  exact k := by
    have hexact := hi.exact k
    obtain ⟨ha, hg⟩ := counts_acquire initialCount hist t h k i hc
    rw [ha, hg]
    intro hsmall
    by_cases hk : k = h
    · subst hk
      rw [Function.update_self, if_pos rfl]
      have hsum := hexact hsmall
      omega
    · rw [Function.update_of_ne hk, if_neg (Ne.symm hk)]
      exact hexact hsmall
  truthful := by
    refine ⟨.inr ?_, hi.truthful⟩
    have hbounded := hi.bounded h
    omega

theorem Inv.posts (hi : Inv initialCount hist count) {t : Thread} {i : Bool} :
    Inv initialCount (.act t h .semaphorePost i (.inr .ok) :: hist)
      (Function.update count h (put (count h))) where
  bounded k := by
    have hbounded := hi.bounded k
    obtain ⟨ha, hg⟩ := counts_post initialCount hist t h k i
    rw [ha, hg]
    by_cases hk : k = h
    · subst hk
      have hput : put (count k) ≤ count k + 1 := Nat.mod_le _ _
      rw [Function.update_self, if_pos rfl]
      omega
    · rw [Function.update_of_ne hk, if_neg (Ne.symm hk)]
      exact hbounded
  exact k := by
    have hbounded := hi.bounded k
    have hexact := hi.exact k
    obtain ⟨ha, hg⟩ := counts_post initialCount hist t h k i
    rw [ha, hg]
    intro hsmall
    by_cases hk : k = h
    · subst hk
      rw [if_pos rfl] at hsmall
      rw [Function.update_self, if_pos rfl]
      -- The count has not started over: it is at most what has been granted.
      have hput : put (count k) = count k + 1 := Nat.mod_eq_of_lt (by omega)
      have hsum := hexact (by omega)
      omega
    · rw [if_neg (Ne.symm hk)] at hsmall
      rw [Function.update_of_ne hk, if_neg (Ne.symm hk)]
      exact hexact hsmall
  truthful := ⟨.inl rfl, hi.truthful⟩

/-- A semaphore that is destroyed counts from the start again. -/
theorem Inv.giveUp (hi : Inv initialCount hist count) :
    Inv initialCount (.giveUp h :: hist)
      (Function.update count h (initialCount h).toNat) := by
  have hother : ∀ k, k ≠ h → acquired k (.giveUp h :: hist) = acquired k hist ∧
      granted initialCount k (.giveUp h :: hist) = granted initialCount k hist :=
    fun k hk => counts_quiet _ _ (by simp [destroys, Ne.symm hk]) rfl rfl
  have hself : acquired h (.giveUp h :: hist) = 0 ∧
      granted initialCount h (.giveUp h :: hist) = (initialCount h).toNat := by
    simp [acquired, granted, life_giveUp]
  refine ⟨fun k => ?_, fun k hsmall => ?_, trivial, hi.truthful⟩
  · by_cases hk : k = h
    · subst hk
      rw [hself.1, hself.2, Function.update_self]
      exact Nat.le_refl _
    · rw [(hother k hk).1, (hother k hk).2, Function.update_of_ne hk]
      exact hi.bounded k
  · by_cases hk : k = h
    · subst hk
      rw [hself.1, hself.2, Function.update_self]
      rfl
    · rw [(hother k hk).2] at hsmall
      rw [(hother k hk).1, (hother k hk).2, Function.update_of_ne hk]
      exact hi.exact k hsmall

theorem Inv.act (hi : Inv initialCount hist count) {t : Thread} {c : Call} {i : Bool} {count' : Nat}
    {out : Call ⊕ Status} (hact : Acts (count h) c count' out) :
    Inv initialCount (.act t h c i out :: hist) (Function.update count h count') := by
  cases hact with
  | goesOn =>
      rw [Function.update_eq_self]
      exact hi.quiet (fun _ => rfl) (fun _ => rfl) (fun _ => rfl) trivial
  | acquires hc hpos => exact hi.acquires hc hpos
  | posts => exact hi.posts
  | refused hr hzero =>
      rename_i r
      rw [Function.update_eq_self]
      have htaken : granted initialCount h hist < UInt32.size →
          acquired h hist = granted initialCount h hist := by
        intro hsmall
        have hsum := hi.exact h hsmall
        omega
      cases r with
      | ok => exact absurd rfl hr
      | again => exact hi.quiet (fun _ => rfl) (fun _ => rfl) (fun _ => rfl) htaken
      | timedOut => exact hi.quiet (fun _ => rfl) (fun _ => rfl) (fun _ => rfl) htaken

variable [DecidableEq Thread]

theorem Inv.step {s s' : Eager Thread Handle Nat Call} (hi : Inv initialCount hist s.objects)
    (hallowed : s.Allowed (kind Thread initialCount) e)
    (hs : s.step (kind Thread initialCount) e = some s') :
    Inv initialCount (e :: hist) s'.objects := by
  cases e with
  | begin t h c =>
      simp only [Eager.step] at hs
      split at hs
      · obtain rfl := Option.some_inj.mp hs
        exact hi.quiet (fun _ => rfl) (fun _ => rfl) (fun _ => rfl) trivial
      · cases hs
  | act t h c i out =>
      simp only [Eager.step] at hs
      split at hs
      · obtain ⟨⟨count', out'⟩, hact, hs⟩ := Option.bind_eq_some_iff.mp hs
        split at hs
        · rename_i hout
          obtain rfl : out' = out := hout
          obtain rfl := Option.some_inj.mp hs
          exact hi.act (act_spec hact)
        · cases hs
      · cases hs
  | fail t h c =>
      simp only [Eager.step] at hs
      split at hs
      · obtain rfl := Option.some_inj.mp hs
        refine hi.quiet (fun _ => rfl) (fun _ => rfl) (fun _ => rfl) fun hsmall => ?_
        have hfresh : s.objects h = (initialCount h).toNat := hallowed.2
        have hsum := hi.exact h hsmall
        rw [hfresh, granted] at hsum
        omega
      · cases hs
  | giveUp h =>
      obtain rfl := Option.some_inj.mp hs
      exact hi.giveUp

theorem inv_of_run {s : Eager Thread Handle Nat Call}
    (hrun : Run (Eager.step (kind Thread initialCount))
      (fun _ => Eager.Allowed (kind Thread initialCount))
      (Eager.Initial (kind Thread initialCount)) hist s) : Inv initialCount hist s.objects := by
  refine Run.history_invariant (I := fun hist s => Inv initialCount hist s.objects) ?_ ?_ hrun
  · intro s h0
    refine ⟨fun h => ?_, fun h _ => ?_, trivial⟩
    · rw [h0.2 h]
      exact Nat.le_refl _
    · rw [h0.2 h]
      rfl
  · intro _ _ _ _ hi hallowed hs
    exact hi.step hallowed hs

/-! ## The guarantee -/

end Semaphores
end Backend
end NucleoBase
