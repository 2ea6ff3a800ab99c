/-
  NucleoBase.Backend.OnceCorrect

  What `once` guarantees over every interleaving of any number of threads and
  control words: functions for one word exclude each other, at most one of
  them ever returns normally, a call returns 0 only after that, and a function
  that throws leaves its word open and its exception with its own thread.
-/

import NucleoBase.Backend.Once

namespace NucleoBase
namespace Backend
namespace Once

open Lib ThreadX

set_option linter.unusedSectionVars false

/-! ## The table of statements -/

/-- A statement obtains the mutex when it enters the locked region, releases
    it when it leaves, and otherwise leaves it alone. -/
theorem body_lock {v : UInt32} {pc : Pc} {stmt : Stmt} {eff : Effect}
    (h : body v pc stmt = some eff) :
    (eff.lock = .get ∧ pc.locked = false ∧ ∃ q, eff.next = some q ∧ q.locked = true) ∨
    (eff.lock = .put ∧ pc.locked = true ∧ ∀ q, eff.next = some q → q.locked = false) ∨
    (eff.lock = .keep ∧ ∃ q, eff.next = some q ∧ q.locked = pc.locked) := by
  unfold body at h
  split at h
  case h_2 =>
    split at h
    · cases h; simp [Pc.locked]
    · split at h
      · cases h; simp [Pc.locked]
      · cases h; simp [Pc.locked]
  all_goals first
    | (cases h; simp [Pc.locked])
    | simp at h

/-- A turn starts with the store of 1 over a 0 and ends with the store of 2 or
    0; every other statement leaves the word alone. -/
theorem body_store {v : UInt32} {pc : Pc} {stmt : Stmt} {eff : Effect}
    (h : body v pc stmt = some eff) :
    (eff.store = some 1 ∧ v = 0 ∧ pc = .test ∧ eff.next = some .claimed) ∨
    (eff.store = some 2 ∧ pc = .commit ∧ eff.next = some .committed) ∨
    (eff.store = some 0 ∧ pc = .reopen ∧ eff.next = some .reopened) ∨
    (eff.store = none ∧ ∀ q ∈ eff.next, q.turn = pc.turn) ∧
      (eff.next = none → pc.turn = false) := by
  unfold body at h
  split at h
  case h_2 =>
    split at h
    · cases h; simp [Pc.turn]
    · split at h
      · rename_i h0
        cases h; simp [h0]
      · cases h; simp [Pc.turn]
  all_goals first
    | (cases h; simp [Pc.turn])
    | simp at h

/-- Only statements under the mutex store to the control word. -/
theorem body_store_locked {v x : UInt32} {pc : Pc} {stmt : Stmt} {eff : Effect}
    (h : body v pc stmt = some eff) (hx : eff.store = some x) : pc.locked = true := by
  rcases body_store h with ⟨-, -, rfl, -⟩ | ⟨-, rfl, -⟩ | ⟨-, rfl, -⟩ | ⟨⟨hn, -⟩, -⟩
  · rfl
  · rfl
  · rfl
  · rw [hx] at hn
    cases hn

/-- What the control word reads after a statement that leads to one of the
    three states from which a call is left. -/
theorem body_leads {v : UInt32} {pc : Pc} {stmt : Stmt} {eff : Effect}
    (h : body v pc stmt = some eff) :
    (eff.next = some .finished → v = 2 ∧ eff.store = none) ∧
    (eff.next = some .committed → eff.store = some 2) ∧
    (eff.next = some .reopened → eff.store = some 0) := by
  unfold body at h
  split at h
  case h_2 =>
    split at h
    · rename_i h2
      cases h; simp [h2]
    · split at h
      · cases h; simp
      · cases h; simp
  all_goals first
    | (cases h; simp)
    | simp at h

variable {Thread Word : Type*} [DecidableEq Thread] [DecidableEq Word]
  {s s' : State Thread Word} {e : Event Thread Word} {h : List (Event Thread Word)}

/-- Everything one step can do: begin a call, or perform the next statement of
    the innermost call of one thread. -/
theorem step_cases (hs : step s e = some s') :
    (e.stmt = .call ∧ (∀ f ∈ (s.frames e.thread).head?, f.pc = .inside) ∧
      s' = s.beginCall e.thread e.word) ∨
    ∃ pc rest eff m, e.stmt ≠ .call ∧ s.frames e.thread = ⟨e.word, pc⟩ :: rest ∧
      body (s.state e.word) pc e.stmt = some eff ∧
      eff.lock.apply e.thread s.initializationMutex = some m ∧
      s' = s.perform e m eff rest := by
  unfold step at hs
  split at hs
  · rename_i hcall
    split at hs
    · rename_i hin
      cases hs
      exact .inl ⟨hcall, hin, rfl⟩
    · cases hs
  · cases hs
  · rename_i f rest hfs hne
    split at hs
    · rename_i hw
      simp only [Option.bind_eq_some_iff, Option.map_eq_some_iff] at hs
      obtain ⟨eff, hbody, m, hlock, rfl⟩ := hs
      refine .inr ⟨f.pc, rest, eff, m, fun hc => hne hc, ?_, hbody, hlock, rfl⟩
      rw [hfs, ← hw]
    · cases hs

/-! ## The invariant -/

/-- A frame of word `w` at one of the statements `p`. -/
def Frame.isAt (p : Pc → Bool) (w : Word) (f : Frame Word) : Bool :=
  decide (f.word = w) && p f.pc

/-- How many of `t`'s calls on `w` are at one of the statements `p`. -/
def State.count (s : State Thread Word) (p : Pc → Bool) (t : Thread) (w : Word) : Nat :=
  (s.frames t).countP (Frame.isAt p w)

/-- `t` is at a statement that runs under the initialization mutex. -/
def State.Locked (s : State Thread Word) (t : Thread) : Prop :=
  ∃ f ∈ s.frames t, f.pc.locked = true

/-- What the control words, the mutex and the frames have to do with each
    other at every moment. -/
structure Inv (s : State Thread Word) : Prop where
  /-- Only the innermost call moves. -/
  nested : ∀ t, ∀ f ∈ (s.frames t).tail, f.pc = .inside
  /-- The owner of the mutex is the thread in the locked region. -/
  mutex : (s.initializationMutex = .free ∧ ∀ t, ¬ s.Locked t) ∨
    ∃ t, s.initializationMutex = .held t 0 ∧ ∀ u, s.Locked u ↔ u = t
  /-- The word is 1 exactly while one frame has the turn. -/
  word : ∀ w, (s.state w ≠ 1 ∧ ∀ t, s.count Pc.turn t w = 0) ∨
    (s.state w = 1 ∧ ∃ t, s.count Pc.turn t w = 1 ∧ ∀ u ≠ t, s.count Pc.turn u w = 0)
  /-- A call about to return 0 has seen or stored 2. -/
  settled : ∀ t, ∀ f ∈ s.frames t, f.pc = .finished ∨ f.pc = .committed → s.state f.word = 2
  /-- A call about to rethrow has just reopened its word. -/
  reopened : ∀ t, ∀ f ∈ s.frames t, f.pc = .reopened → s.state f.word = 0

theorem Inv.initial (h0 : init s) : Inv s := by
  obtain ⟨hm, hw, hf⟩ := h0
  constructor
  · simp [hf]
  · exact .inl ⟨hm, by simp [State.Locked, hf]⟩
  · intro w
    exact .inl ⟨by simp [hw], by simp [State.count, hf]⟩
  · simp [hf]
  · simp [hf]

section Preservation

variable {pc : Pc} {rest : List (Frame Word)} {eff : Effect} {m : Mutex Thread}

/-- The frames below the innermost one stay inside their functions. -/
theorem Inv.nested_rest (inv : Inv s) {t : Thread} {f : Frame Word}
    (hf : s.frames t = f :: rest) : ∀ g ∈ rest, g.pc = .inside := by
  have := inv.nested t
  rwa [hf] at this

/-- Whether a thread is locked depends on its innermost frame alone. -/
theorem Inv.locked_iff (inv : Inv s) {t : Thread} {w : Word}
    (hf : s.frames t = ⟨w, pc⟩ :: rest) : s.Locked t ↔ pc.locked = true := by
  constructor
  · rintro ⟨f, hmem, hlock⟩
    rw [hf] at hmem
    rcases List.mem_cons.mp hmem with rfl | hmem
    · exact hlock
    · rw [inv.nested_rest hf f hmem] at hlock
      exact absurd hlock (by decide)
  · intro hlock
    exact ⟨⟨w, pc⟩, by rw [hf]; exact List.mem_cons_self, hlock⟩

/-- At most one thread is in the locked region. -/
theorem Inv.locked_unique (inv : Inv s) {t u : Thread} (ht : s.Locked t) (hu : s.Locked u) :
    t = u := by
  rcases inv.mutex with ⟨-, hno⟩ | ⟨v, -, hv⟩
  · exact absurd ht (hno t)
  · rw [(hv t).mp ht, (hv u).mp hu]

theorem Inv.preserve_nested (inv : Inv s) (hs : step s e = some s') :
    ∀ t, ∀ f ∈ (s'.frames t).tail, f.pc = .inside := by
  intro t
  rcases step_cases hs with ⟨-, hin, rfl⟩ | ⟨pc, rest, eff, m, -, hfs, hbody, -, rfl⟩
  · rcases eq_or_ne t e.thread with rfl | hne
    · simp only [State.beginCall, Function.update_self, List.tail_cons]
      intro f hf
      cases hfr : s.frames e.thread with
      | nil => rw [hfr] at hf; cases hf
      | cons g rest =>
          rw [hfr] at hf hin
          rcases List.mem_cons.mp hf with rfl | hf
          · exact hin f rfl
          · exact inv.nested_rest hfr f hf
    · simpa [State.beginCall, Function.update_of_ne hne] using inv.nested t
  · rcases eq_or_ne t e.thread with rfl | hne
    · simp only [State.perform, Function.update_self]
      intro f hf
      refine inv.nested_rest hfs f ?_
      cases hn : eff.next with
      | none => rw [hn] at hf; exact List.mem_of_mem_tail (by simpa [continueAt] using hf)
      | some q => rw [hn] at hf; simpa [continueAt] using hf
    · simpa [State.perform, Function.update_of_ne hne] using inv.nested t

/-- Beginning a call locks nothing. -/
theorem locked_beginCall (t u : Thread) (w : Word) :
    (s.beginCall t w).Locked u ↔ s.Locked u := by
  rcases eq_or_ne u t with rfl | hne
  · simp [State.Locked, State.beginCall, Pc.locked]
  · simp [State.Locked, State.beginCall, Function.update_of_ne hne]

/-- After a statement of `t` the other threads are locked as before, and `t`
    as its new innermost frame is. -/
theorem Inv.locked_perform (inv : Inv s)
    (hfs : s.frames e.thread = ⟨e.word, pc⟩ :: rest) (u : Thread) :
    (s.perform e m eff rest).Locked u ↔
      if u = e.thread then ∃ q, eff.next = some q ∧ q.locked = true else s.Locked u := by
  split
  · rename_i hu
    subst hu
    simp only [State.Locked, State.perform, Function.update_self, continueAt, List.mem_append]
    constructor
    · rintro ⟨f, hf | hf, hlock⟩
      · cases hn : eff.next with
        | none => simp [hn] at hf
        | some q =>
            simp only [hn, Option.map_some, Option.toList_some, List.mem_singleton] at hf
            subst hf
            exact ⟨q, rfl, hlock⟩
      · rw [inv.nested_rest hfs f hf] at hlock
        exact absurd hlock (by decide)
    · rintro ⟨q, hn, hq⟩
      exact ⟨⟨e.word, q⟩, by simp [hn], hq⟩
  · rename_i hu
    simp [State.Locked, State.perform, Function.update_of_ne hu]

theorem Inv.preserve_mutex (inv : Inv s) (hs : step s e = some s') :
    (s'.initializationMutex = .free ∧ ∀ t, ¬ s'.Locked t) ∨
    ∃ t, s'.initializationMutex = .held t 0 ∧ ∀ u, s'.Locked u ↔ u = t := by
  rcases step_cases hs with ⟨-, hin, rfl⟩ | ⟨pc, rest, eff, m, -, hfs, hbody, hlock, rfl⟩
  · simp only [locked_beginCall]
    exact inv.mutex
  simp only [inv.locked_perform hfs]
  have hself := inv.locked_iff hfs
  rcases body_lock hbody with ⟨hget, hpc, q, hq, hql⟩ | ⟨hput, hpc, hq⟩ | ⟨hkeep, q, hq, hql⟩
  · -- the caller was not in the locked region, so the mutex it got was free
    rw [hget] at hlock
    rcases inv.mutex with ⟨hfree, hno⟩ | ⟨t, hheld, ht⟩
    · rw [Lock.apply, hfree, Mutex.get_free, Option.some.injEq] at hlock
      refine .inr ⟨e.thread, hlock.symm, fun u => ?_⟩
      split
      · rename_i hu
        exact ⟨fun _ => hu, fun _ => ⟨q, hq, hql⟩⟩
      · rename_i hu
        exact ⟨fun h => absurd h (hno u), fun h => absurd h hu⟩
    · have hne : e.thread ≠ t := by
        intro heq
        have := (ht e.thread).mpr heq
        rw [hself, hpc] at this
        exact absurd this (by decide)
      rw [Lock.apply, hheld] at hlock
      simp [Mutex.get, Ne.symm hne] at hlock
  · have hmine : s.Locked e.thread := hself.mpr hpc
    rcases inv.mutex with ⟨-, hno⟩ | ⟨t, hheld, ht⟩
    · exact absurd hmine (hno _)
    · have heq : e.thread = t := (ht _).mp hmine
      rw [hput, Lock.apply, hheld, ← heq, Mutex.put_held_self, Option.some.injEq] at hlock
      refine .inl ⟨hlock.symm, fun u => ?_⟩
      split
      · rintro ⟨q, hn, hql⟩
        rw [hq q hn] at hql
        exact absurd hql (by decide)
      · rename_i hu
        rw [ht u, ← heq]
        exact hu
  · rw [hkeep, Lock.apply, Option.some.injEq] at hlock
    subst hlock
    have hsame : ∀ u, (if u = e.thread then ∃ q, eff.next = some q ∧ q.locked = true
        else s.Locked u) ↔ s.Locked u := by
      intro u
      split
      · rename_i hu
        subst hu
        rw [hself]
        constructor
        · rintro ⟨q', hn, hl⟩
          rw [hq, Option.some.injEq] at hn
          rw [← hql, hn, hl]
        · exact fun hl => ⟨q, hq, by rw [hql, hl]⟩
      · exact Iff.rfl
    simp only [hsame]
    exact inv.mutex

/-- What an innermost frame at `next` contributes to the count of `p`. -/
def countAt (p : Pc → Bool) : Option Pc → Nat
  | none => 0
  | some q => if p q then 1 else 0

theorem countP_continueAt (p : Pc → Bool) (w w' : Word) (next : Option Pc)
    (rest : List (Frame Word)) :
    (continueAt w next rest).countP (Frame.isAt p w') =
      (if w = w' then countAt p next else 0) + rest.countP (Frame.isAt p w') := by
  cases next with
  | none => simp [continueAt, countAt]
  | some q =>
      by_cases hw : w = w'
      · cases hq : p q <;> simp [continueAt, countAt, Frame.isAt, hw, hq, Nat.add_comm]
      · simp [continueAt, Frame.isAt, hw]

theorem count_of_frames (p : Pc → Bool) {t : Thread} {v w : Word}
    (hfs : s.frames t = ⟨v, pc⟩ :: rest) :
    s.count p t w =
      (if v = w then countAt p (some pc) else 0) + rest.countP (Frame.isAt p w) := by
  have := countP_continueAt p v w (some pc) rest
  simpa [State.count, hfs, continueAt] using this

theorem count_perform (p : Pc → Bool) (u : Thread) (w : Word) :
    (s.perform e m eff rest).count p u w =
      if u = e.thread then
        (if e.word = w then countAt p eff.next else 0) + rest.countP (Frame.isAt p w)
      else s.count p u w := by
  split
  · rename_i hu
    subst hu
    simpa [State.count, State.perform] using countP_continueAt p e.word w eff.next rest
  · rename_i hu
    simp [State.count, State.perform, Function.update_of_ne hu]

/-- A statement between two statements that `p` does not tell apart leaves the
    count alone. -/
theorem count_perform_same {p : Pc → Bool} {u : Thread} {w : Word}
    (hfs : s.frames e.thread = ⟨e.word, pc⟩ :: rest)
    (hsame : u = e.thread → e.word = w → countAt p eff.next = countAt p (some pc)) :
    (s.perform e m eff rest).count p u w = s.count p u w := by
  rw [count_perform]
  split
  · rename_i hu
    rw [hu, count_of_frames p hfs]
    split
    · rename_i hw
      rw [hsame hu hw]
    · rfl
  · rfl

/-- Beginning a call counts for nothing but its own first statement. -/
theorem count_beginCall {p : Pc → Bool} (hp : p .entry = false) (t u : Thread) (w w' : Word) :
    (s.beginCall t w).count p u w' = s.count p u w' := by
  rcases eq_or_ne u t with rfl | hne
  · simp [State.count, State.beginCall, Frame.isAt, hp]
  · simp [State.count, State.beginCall, Function.update_of_ne hne]

/-- Ending a turn: the word is no longer 1 and nobody has its turn. -/
theorem Inv.word_of_turn_end (inv : Inv s) {v : UInt32} (hv : v ≠ 1)
    (hfs : s.frames e.thread = ⟨e.word, pc⟩ :: rest) (hpc : pc.turn = true)
    (hst : eff.store = some v) (hnext : countAt Pc.turn eff.next = 0) :
    (s.perform e m eff rest).state e.word ≠ 1 ∧
      ∀ t, (s.perform e m eff rest).count Pc.turn t e.word = 0 := by
  have hmine := count_of_frames Pc.turn (w := e.word) hfs
  simp only [if_true, countAt, hpc] at hmine
  refine ⟨by simpa [State.perform, storeWord, hst] using hv, fun t => ?_⟩
  rcases inv.word e.word with ⟨-, hno⟩ | ⟨-, u, hu, hothers⟩
  · have := hno e.thread
    omega
  · have hut : e.thread = u := by
      by_contra hne
      have := hothers e.thread hne
      omega
    subst hut
    rw [count_perform]
    split
    · rw [if_pos rfl, hnext]
      omega
    · rename_i hne
      exact hothers t hne

theorem Inv.preserve_word (inv : Inv s) (hs : step s e = some s') (w : Word) :
    (s'.state w ≠ 1 ∧ ∀ t, s'.count Pc.turn t w = 0) ∨
    (s'.state w = 1 ∧ ∃ t, s'.count Pc.turn t w = 1 ∧ ∀ u ≠ t, s'.count Pc.turn u w = 0) := by
  rcases step_cases hs with ⟨-, hin, rfl⟩ | ⟨pc, rest, eff, m, -, hfs, hbody, hlock, rfl⟩
  · have hturns : ∀ t, (s.beginCall e.thread e.word).count Pc.turn t w = s.count Pc.turn t w := fun t =>
      count_beginCall rfl e.thread t e.word w
    simp only [hturns]
    exact inv.word w
  by_cases hw : e.word = w
  swap
  · have hstate : (s.perform e m eff rest).state w = s.state w := by
      cases hst : eff.store with
      | none => simp [State.perform, storeWord, hst]
      | some v => simp [State.perform, storeWord, hst, Function.update_of_ne (Ne.symm hw)]
    have hturns : ∀ t, (s.perform e m eff rest).count Pc.turn t w = s.count Pc.turn t w := fun t =>
      count_perform_same hfs fun _ h => absurd h hw
    simp only [hstate, hturns]
    exact inv.word w
  subst hw
  rcases body_store hbody with ⟨hst, hv, hpc, hn⟩ | ⟨hst, hpc, hn⟩ | ⟨hst, hpc, hn⟩ |
    ⟨⟨hst, hq⟩, hnone⟩
  · -- the store of 1: the word was 0, so nobody had the turn
    have hno : ∀ t, s.count Pc.turn t e.word = 0 := by
      rcases inv.word e.word with ⟨-, hno⟩ | ⟨h1, -⟩
      · exact hno
      · rw [hv] at h1
        exact absurd h1 (by decide)
    refine .inr ⟨by simp [State.perform, storeWord, hst], e.thread, ?_, fun u hu => ?_⟩
    · have hrest := count_of_frames Pc.turn (w := e.word) hfs
      rw [hno e.thread] at hrest
      rw [count_perform, if_pos rfl, if_pos rfl, hn]
      have : countAt Pc.turn (some Pc.claimed) = 1 := rfl
      omega
    · rw [count_perform, if_neg hu]
      exact hno u
  · exact .inl (inv.word_of_turn_end (by decide) hfs (by rw [hpc]; rfl) hst (by rw [hn]; rfl))
  · exact .inl (inv.word_of_turn_end (by decide) hfs (by rw [hpc]; rfl) hst (by rw [hn]; rfl))
  · have hturns : ∀ t, (s.perform e m eff rest).count Pc.turn t e.word = s.count Pc.turn t e.word := fun t =>
      count_perform_same hfs fun _ _ => by
        cases hn : eff.next with
        | none => simp [countAt, hnone hn]
        | some q => simp [countAt, hq q hn]
    have hstate : (s.perform e m eff rest).state e.word = s.state e.word := by
      simp [State.perform, storeWord, hst]
    simp only [hstate, hturns]
    exact inv.word e.word

/-- A statement of a caller that has the turn finds the word at 1. -/
theorem Inv.word_of_turn (inv : Inv s) {t : Thread} {w : Word}
    (hfs : s.frames t = ⟨w, pc⟩ :: rest) (hpc : pc.turn = true) : s.state w = 1 := by
  have hmine := count_of_frames Pc.turn (w := w) hfs
  simp only [if_true, countAt, hpc] at hmine
  rcases inv.word w with ⟨-, hno⟩ | ⟨h1, -⟩
  · have := hno t
    omega
  · exact h1

/-- A completed word stays completed. -/
theorem Inv.state_two_stable (inv : Inv s) (hs : step s e = some s') {w : Word}
    (h2 : s.state w = 2) : s'.state w = 2 := by
  rcases step_cases hs with ⟨-, hin, rfl⟩ | ⟨pc, rest, eff, m, -, hfs, hbody, hlock, rfl⟩
  · exact h2
  by_cases hw : e.word = w
  swap
  · cases hst : eff.store with
    | none => simpa [State.perform, storeWord, hst] using h2
    | some v => simpa [State.perform, storeWord, hst, Function.update_of_ne (Ne.symm hw)] using h2
  subst hw
  rcases body_store hbody with ⟨-, hv, -⟩ | ⟨-, hpc, -⟩ | ⟨-, hpc, -⟩ | ⟨⟨hst, -⟩, -⟩
  · rw [h2] at hv
    exact absurd hv (by decide)
  · have := inv.word_of_turn hfs (by rw [hpc]; rfl)
    rw [h2] at this
    exact absurd this (by decide)
  · have := inv.word_of_turn hfs (by rw [hpc]; rfl)
    rw [h2] at this
    exact absurd this (by decide)
  · simpa [State.perform, storeWord, hst] using h2

/-- A frame after a statement is the new innermost one or was there before. -/
theorem mem_frames_perform {u : Thread} {f : Frame Word}
    (hf : f ∈ (s.perform e m eff rest).frames u) :
    (u = e.thread ∧ f.word = e.word ∧ eff.next = some f.pc) ∨
      (u = e.thread ∧ f ∈ rest) ∨ (u ≠ e.thread ∧ f ∈ s.frames u) := by
  by_cases hu : u = e.thread
  · subst hu
    simp only [State.perform, Function.update_self, continueAt, List.mem_append,
      Option.mem_toList, Option.map_eq_some_iff] at hf
    rcases hf with hf | hf
    · obtain ⟨q, hq, rfl⟩ := hf
      exact .inl ⟨rfl, rfl, hq⟩
    · exact .inr (.inl ⟨rfl, hf⟩)
  · exact .inr (.inr ⟨hu, by simpa [State.perform, Function.update_of_ne hu] using hf⟩)

theorem mem_frames_beginCall {t u : Thread} {w : Word} {f : Frame Word}
    (hf : f ∈ (s.beginCall t w).frames u) : f.pc = .entry ∨ f ∈ s.frames u := by
  by_cases hu : u = t
  · subst hu
    simp only [State.beginCall, Function.update_self, List.mem_cons] at hf
    rcases hf with rfl | hf
    · exact .inl rfl
    · exact .inr hf
  · exact .inr (by simpa [State.beginCall, Function.update_of_ne hu] using hf)

theorem Inv.preserve_settled (inv : Inv s) (hs : step s e = some s') :
    ∀ t, ∀ f ∈ s'.frames t, f.pc = .finished ∨ f.pc = .committed → s'.state f.word = 2 := by
  intro t f hf hpc
  rcases step_cases hs with ⟨-, hin, rfl⟩ | ⟨pc, rest, eff, m, -, hfs, hbody, hlock, rfl⟩
  · rcases mem_frames_beginCall hf with he | hf
    · rw [he] at hpc
      simp at hpc
    · exact inv.settled t f hf hpc
  rcases mem_frames_perform hf with ⟨-, hw, hn⟩ | ⟨-, hf⟩ | ⟨-, hf⟩
  · obtain ⟨hfin, hcom, -⟩ := body_leads hbody
    rcases hpc with hpc | hpc
    · obtain ⟨hv, hst⟩ := hfin (by rw [hn, hpc])
      simpa [State.perform, storeWord, hst, hw] using hv
    · have hst := hcom (by rw [hn, hpc])
      simp [State.perform, storeWord, hst, hw]
  · rw [inv.nested_rest hfs f hf] at hpc
    simp at hpc
  · exact inv.state_two_stable hs (inv.settled t f hf hpc)

theorem Inv.preserve_reopened (inv : Inv s) (hs : step s e = some s') :
    ∀ t, ∀ f ∈ s'.frames t, f.pc = .reopened → s'.state f.word = 0 := by
  intro t f hf hpc
  rcases step_cases hs with ⟨-, hin, rfl⟩ | ⟨pc, rest, eff, m, -, hfs, hbody, hlock, rfl⟩
  · rcases mem_frames_beginCall hf with he | hf
    · rw [he] at hpc
      cases hpc
    · exact inv.reopened t f hf hpc
  rcases mem_frames_perform hf with ⟨-, hw, hn⟩ | ⟨-, hf⟩ | ⟨hne, hf⟩
  · have hst := (body_leads hbody).2.2 (by rw [hn, hpc])
    simp [State.perform, storeWord, hst, hw]
  · rw [inv.nested_rest hfs f hf] at hpc
    cases hpc
  · -- `t` owns the mutex, so the statement was not a store
    have hlocked : s.Locked t := ⟨f, hf, by rw [hpc]; rfl⟩
    cases hst : eff.store with
    | none => simpa [State.perform, storeWord, hst] using inv.reopened t f hf hpc
    | some x =>
        have hmine := (inv.locked_iff hfs).mpr (body_store_locked hbody hst)
        exact absurd (inv.locked_unique hlocked hmine) hne

theorem Inv.preserve (inv : Inv s) (hs : step s e = some s') : Inv s' where
  nested := inv.preserve_nested hs
  mutex := inv.preserve_mutex hs
  word := inv.preserve_word hs
  settled := inv.preserve_settled hs
  reopened := inv.preserve_reopened hs

end Preservation

/-! ## The history

The labels of a run say which functions returned, which threw and which calls
were left; the invariant below ties them to the frames. -/

/-- The function has returned and 2 is not stored yet. -/
def Pc.late : Pc → Bool
  | .returned | .commit => true
  | _ => false

/-- The exception is on its way from the function to the caller. -/
def Pc.unwinding : Pc → Bool
  | .threw | .reopen | .reopened => true
  | _ => false

/-- How many functions for `w` have returned normally. -/
def completions (h : List (Event Thread Word)) (w : Word) : Nat :=
  h.countP fun e => decide (e.stmt = .fnReturn ∧ e.word = w)

/-- A function for `w` has returned normally: 2 is stored or about to be. -/
def State.Completed (s : State Thread Word) (w : Word) : Prop :=
  s.state w = 2 ∨ ∃ t, ∃ f ∈ s.frames t, f.word = w ∧ f.pc.late = true

/-- The exception leaves the handler by `throw` and enters it from the
    function. -/
theorem body_unwinding {v : UInt32} {pc : Pc} {stmt : Stmt} {eff : Effect}
    (h : body v pc stmt = some eff) :
    countAt Pc.unwinding eff.next + (if stmt = .rethrow then 1 else 0) =
      countAt Pc.unwinding (some pc) + (if stmt = .fnThrow then 1 else 0) := by
  unfold body at h
  split at h
  case h_2 =>
    split at h
    · cases h; simp [countAt, Pc.unwinding]
    · split at h
      · cases h; simp [countAt, Pc.unwinding]
      · cases h; simp [countAt, Pc.unwinding]
  all_goals first
    | (cases h; simp [countAt, Pc.unwinding])
    | simp at h

/-- A late call became late when its function returned, and stays late until
    it stores 2. -/
theorem body_late {v : UInt32} {pc : Pc} {stmt : Stmt} {eff : Effect}
    (h : body v pc stmt = some eff) :
    (stmt = .fnReturn ∧ pc = .inside ∧ eff.next = some .returned) ∨
    (stmt ≠ .fnReturn ∧ (∀ q, eff.next = some q → q.late = true → pc.late = true) ∧
      (eff.store = some 2 → pc.late = true) ∧
      (pc.late = true → eff.store = some 2 ∨ ∃ q, eff.next = some q ∧ q.late = true)) := by
  unfold body at h
  split at h
  case h_2 =>
    split at h
    · cases h; simp [Pc.late]
    · split at h
      · cases h; simp [Pc.late]
      · cases h; simp [Pc.late]
  all_goals first
    | (cases h; simp [Pc.late])
    | simp at h

theorem Pc.turn_of_late {pc : Pc} (h : pc.late = true) : pc.turn = true := by
  cases pc <;> first | rfl | cases h

/-- A frame at a statement of `p` makes the count positive. -/
theorem count_pos {p : Pc → Bool} {t : Thread} {w : Word} {f : Frame Word}
    (hf : f ∈ s.frames t) (hw : f.word = w) (hp : p f.pc = true) : 0 < s.count p t w :=
  List.countP_pos_iff.mpr ⟨f, hf, by simp [Frame.isAt, hw, hp]⟩

/-- While a function for `w` runs, no function for `w` has returned. -/
theorem Inv.not_completed_of_inside (inv : Inv s) {t : Thread} {w : Word}
    {rest : List (Frame Word)} (hfs : s.frames t = ⟨w, .inside⟩ :: rest) : ¬ s.Completed w := by
  have h1 : s.state w = 1 := inv.word_of_turn hfs rfl
  rintro (h2 | ⟨u, f, hf, hw, hlate⟩)
  · rw [h1] at h2
    exact absurd h2 (by decide)
  rcases inv.word w with ⟨hne, -⟩ | ⟨-, v, hv, hothers⟩
  · exact hne h1
  have hpos : 0 < s.count Pc.turn t w := by
    refine count_pos (f := ⟨w, .inside⟩) ?_ rfl rfl
    rw [hfs]
    exact List.mem_cons_self
  have hpos' : 0 < s.count Pc.turn u w := count_pos hf hw (Pc.turn_of_late hlate)
  have htv : t = v := by
    by_contra hne
    have := hothers t hne
    omega
  have huv : u = v := by
    by_contra hne
    have := hothers u hne
    omega
  rw [huv, ← htv, hfs] at hf
  rcases List.mem_cons.mp hf with rfl | hf
  · cases hlate
  · rw [inv.nested_rest hfs f hf] at hlate
    cases hlate

/-- A word becomes completed when a function for it returns, and only then. -/
theorem Inv.completed_step (inv : Inv s) (hs : step s e = some s') (w : Word) :
    s'.Completed w ↔ s.Completed w ∨ (e.stmt = .fnReturn ∧ e.word = w) := by
  rcases step_cases hs with ⟨hcall, hin, rfl⟩ | ⟨pc, rest, eff, m, -, hfs, hbody, hlock, rfl⟩
  · rw [hcall]
    simp only [reduceCtorEq, false_and, or_false]
    constructor
    · rintro (h2 | ⟨t, f, hf, hw, hlate⟩)
      · exact .inl h2
      · rcases mem_frames_beginCall hf with he | hf
        · rw [he] at hlate
          cases hlate
        · exact .inr ⟨t, f, hf, hw, hlate⟩
    · rintro (h2 | ⟨t, f, hf, hw, hlate⟩)
      · exact .inl h2
      · refine .inr ⟨t, f, ?_, hw, hlate⟩
        rcases eq_or_ne t e.thread with rfl | hne
        · simp [State.beginCall, hf]
        · simpa [State.beginCall, Function.update_of_ne hne] using hf
  have hmine : (⟨e.word, pc⟩ : Frame Word) ∈ s.frames e.thread := by
    rw [hfs]
    exact List.mem_cons_self
  have hnew : ∀ q, eff.next = some q →
      (⟨e.word, q⟩ : Frame Word) ∈ (s.perform e m eff rest).frames e.thread := by
    intro q hq
    simp [State.perform, continueAt, hq]
  constructor
  · rintro (h2 | ⟨t, f, hf, hw, hlate⟩)
    · cases hst : eff.store with
      | none => exact .inl (.inl (by simpa [State.perform, storeWord, hst] using h2))
      | some x =>
          by_cases hw : w = e.word
          · subst hw
            have hx : x = 2 := by simpa [State.perform, storeWord, hst] using h2
            rcases body_late hbody with ⟨h, -⟩ | ⟨-, -, hstore, -⟩
            · exact .inr ⟨h, rfl⟩
            · exact .inl (.inr ⟨e.thread, _, hmine, rfl, hstore (by rw [hst, hx])⟩)
          · exact .inl (.inl (by
              simpa [State.perform, storeWord, hst, Function.update_of_ne hw] using h2))
    · rcases mem_frames_perform hf with ⟨-, hfw, hn⟩ | ⟨-, hf⟩ | ⟨-, hf⟩
      · rcases body_late hbody with ⟨h, -⟩ | ⟨-, hnext, -⟩
        · exact .inr ⟨h, by rw [← hfw, hw]⟩
        · exact .inl (.inr ⟨e.thread, _, hmine, by rw [← hw, hfw], hnext _ hn hlate⟩)
      · rw [inv.nested_rest hfs f hf] at hlate
        cases hlate
      · exact .inl (.inr ⟨t, f, hf, hw, hlate⟩)
  · rintro ((h2 | ⟨t, f, hf, hw, hlate⟩) | ⟨hret, hw⟩)
    · exact .inl (inv.state_two_stable hs h2)
    · rcases eq_or_ne t e.thread with rfl | hne
      · rw [hfs] at hf
        rcases List.mem_cons.mp hf with rfl | hf
        · rcases body_late hbody with ⟨-, hpc, -⟩ | ⟨-, -, -, hkeep⟩
          · simp only [hpc] at hlate
            cases hlate
          · rcases hkeep hlate with hst | ⟨q, hq, hql⟩
            · exact .inl (by simp [State.perform, storeWord, hst, ← hw])
            · exact .inr ⟨e.thread, _, hnew q hq, hw, hql⟩
        · rw [inv.nested_rest hfs f hf] at hlate
          cases hlate
      · exact .inr ⟨t, f, by simpa [State.perform, Function.update_of_ne hne] using hf, hw, hlate⟩
    · rcases body_late hbody with ⟨-, -, hn⟩ | ⟨hne, -⟩
      · exact .inr ⟨e.thread, _, hnew _ hn, hw, rfl⟩
      · exact absurd hret hne

/-- The invariant together with what the history records. -/
structure HistoryInv (h : List (Event Thread Word)) (s : State Thread Word) : Prop where
  inv : Inv s
  /-- A completed word had exactly one function return, any other none. -/
  completed : ∀ w, (s.Completed w ∧ completions h w = 1) ∨
    (¬ s.Completed w ∧ completions h w = 0)
  /-- Every exception a thread's functions have thrown has reached that
      thread's caller or is on its way there. -/
  thrown : ∀ t w, h.count ⟨t, w, .fnThrow⟩ =
    h.count ⟨t, w, .rethrow⟩ + s.count Pc.unwinding t w

theorem HistoryInv.initial (h0 : init s) : HistoryInv [] s where
  inv := Inv.initial h0
  completed w := by
    obtain ⟨-, hw, hf⟩ := h0
    exact .inr ⟨by simp [State.Completed, hw, hf], rfl⟩
  thrown t w := by
    obtain ⟨-, -, hf⟩ := h0
    simp [State.count, hf]

theorem HistoryInv.preserve_completed (hi : HistoryInv h s) (hs : step s e = some s')
    (w : Word) : (s'.Completed w ∧ completions (e :: h) w = 1) ∨
      (¬ s'.Completed w ∧ completions (e :: h) w = 0) := by
  have hstep := hi.inv.completed_step hs w
  have hcount : completions (e :: h) w =
      completions h w + if e.stmt = .fnReturn ∧ e.word = w then 1 else 0 := by
    simp [completions, List.countP_cons]
  by_cases hret : e.stmt = .fnReturn ∧ e.word = w
  · -- the function was running, so the word was not completed before
    have hno : ¬ s.Completed w := by
      rcases step_cases hs with ⟨hcall, -⟩ | ⟨pc, rest, eff, m, -, hfs, hbody, -⟩
      · rw [hcall] at hret
        exact absurd hret.1 (by decide)
      · rcases body_late hbody with ⟨-, rfl, -⟩ | ⟨hne, -⟩
        · rw [← hret.2]
          exact hi.inv.not_completed_of_inside hfs
        · exact absurd hret.1 hne
    rcases hi.completed w with ⟨hc, -⟩ | ⟨-, h0⟩
    · exact absurd hc hno
    · exact .inl ⟨hstep.mpr (.inr hret), by rw [hcount, if_pos hret, h0]⟩
  · simp only [hret, or_false] at hstep
    rw [hcount, if_neg hret, Nat.add_zero, hstep]
    exact hi.completed w

theorem HistoryInv.preserve_thrown (hi : HistoryInv h s) (hs : step s e = some s')
    (t : Thread) (w : Word) : (e :: h).count ⟨t, w, .fnThrow⟩ =
      (e :: h).count ⟨t, w, .rethrow⟩ + s'.count Pc.unwinding t w := by
  have ih := hi.thrown t w
  obtain ⟨et, ew, es⟩ := e
  rcases step_cases hs with ⟨hcall, -, rfl⟩ | ⟨pc, rest, eff, m, -, hfs, hbody, -, rfl⟩
  · simp only at hcall
    subst hcall
    rw [count_beginCall rfl]
    simpa [List.count_cons] using ih
  · have hbal := body_unwinding hbody
    simp only at hfs hbal
    by_cases hmine : et = t ∧ ew = w
    · obtain ⟨rfl, rfl⟩ := hmine
      rw [count_of_frames Pc.unwinding (w := ew) hfs, if_pos rfl] at ih
      rw [count_perform, if_pos rfl, if_pos rfl]
      simp only [List.count_cons, beq_iff_eq, Event.mk.injEq, true_and]
      omega
    · have hsame : (s.perform ⟨et, ew, es⟩ m eff rest).count Pc.unwinding t w =
          s.count Pc.unwinding t w :=
        count_perform_same hfs fun ht hw => absurd ⟨ht.symm, hw⟩ hmine
      have hne : ∀ st, (⟨et, ew, es⟩ : Event Thread Word) ≠ ⟨t, w, st⟩ := by
        intro st heq
        simp only [Event.mk.injEq] at heq
        exact hmine ⟨heq.1, heq.2.1⟩
      rw [hsame, List.count_cons_of_ne (hne _), List.count_cons_of_ne (hne _)]
      exact ih

theorem HistoryInv.preserve (hi : HistoryInv h s) (hs : step s e = some s') :
    HistoryInv (e :: h) s' where
  inv := hi.inv.preserve hs
  completed := hi.preserve_completed hs
  thrown := hi.preserve_thrown hs

/-- The invariant holds in every run. -/
theorem historyInv_of_run (hrun : Run step anyStep init h s) : HistoryInv h s :=
  Run.history_invariant (fun _ h0 => HistoryInv.initial h0)
    (fun _ _ _ _ hi _ hs => hi.preserve hs) hrun

/-! ## What `once` guarantees -/

/-- `t` is inside a function that `once` runs for `w`. -/
def State.InFunction (s : State Thread Word) (t : Thread) (w : Word) : Prop :=
  ⟨w, .inside⟩ ∈ s.frames t

/-- The guarantees of `once` at the end of a run with history `h`. -/
structure Guarantee (h : List (Event Thread Word)) (s : State Thread Word) : Prop where
  /-- One thread at a time is inside a function for a word, in one call. -/
  exclusive : ∀ t u w, s.InFunction t w → s.InFunction u w → t = u
  exclusive_call : ∀ t w, (s.frames t).count ⟨w, .inside⟩ ≤ 1
  /-- A call returns 0 only after a function for its word returned normally. -/
  ret_zero : ∀ t w s', step s ⟨t, w, .ret⟩ = some s' → ∃ u, ⟨u, w, .fnReturn⟩ ∈ h
  /-- At most one function for a word ever returns normally. -/
  completes_once : ∀ w, completions h w ≤ 1
  /-- The exceptions a thread's functions threw reach that thread's callers:
      each has arrived or is being passed on by the same thread. -/
  thrown : ∀ t w, h.count ⟨t, w, .fnThrow⟩ =
    h.count ⟨t, w, .rethrow⟩ + s.count Pc.unwinding t w
  /-- When the exception leaves `once` the word is open and the lock free. -/
  reopened : ∀ t w s', step s ⟨t, w, .rethrow⟩ = some s' →
    s'.state w = 0 ∧ s'.initializationMutex = .free
  /-- Any caller at the loop head of an open word can run its function. -/
  open_word : ∀ t w rest, s.state w = 0 → s.initializationMutex = .free →
    s.frames t = ⟨w, .entry⟩ :: rest →
    ∃ s', replay step s [⟨t, w, .get⟩, ⟨t, w, .test⟩, ⟨t, w, .enter⟩] = some s' ∧
      s'.InFunction t w
  /-- A completed word stays completed. -/
  completed_stays : ∀ w e s', s.state w = 2 → step s e = some s' → s'.state w = 2

/-- A call that leaves with 0 has seen or stored 2. -/
theorem Inv.state_of_ret (inv : Inv s) {t : Thread} {w : Word}
    (hs : step s ⟨t, w, .ret⟩ = some s') : s.state w = 2 := by
  rcases step_cases hs with ⟨hcall, -⟩ | ⟨pc, rest, eff, m, -, hfs, hbody, -⟩
  · cases hcall
  have hmem : (⟨w, pc⟩ : Frame Word) ∈ s.frames t := by
    rw [hfs]
    exact List.mem_cons_self
  have hpc : pc = .finished ∨ pc = .committed := by
    cases pc <;> first | exact .inl rfl | exact .inr rfl | simp [body] at hbody
  exact inv.settled t _ hmem hpc

theorem Inv.reopened_of_rethrow (inv : Inv s) {t : Thread} {w : Word}
    (hs : step s ⟨t, w, .rethrow⟩ = some s') :
    s'.state w = 0 ∧ s'.initializationMutex = .free := by
  rcases step_cases hs with ⟨hcall, -⟩ | ⟨pc, rest, eff, m, -, hfs, hbody, hlock, rfl⟩
  · cases hcall
  have hpc : pc = .reopened := by
    cases pc <;> first | rfl | simp [body] at hbody
  subst hpc
  have hmem : (⟨w, .reopened⟩ : Frame Word) ∈ s.frames t := by
    rw [hfs]
    exact List.mem_cons_self
  simp only [body, Option.some.injEq] at hbody
  subst hbody
  refine ⟨inv.reopened t _ hmem rfl, ?_⟩
  rcases inv.mutex with ⟨-, hno⟩ | ⟨u, hheld, hu⟩
  · exact absurd ⟨_, hmem, rfl⟩ (hno t)
  · have htu : t = u := (hu t).mp ⟨_, hmem, rfl⟩
    rw [Lock.apply, hheld, ← htu] at hlock
    simpa [State.perform] using hlock.symm

/-- Taking the mutex, finding 0 and storing 1 leads into the function. -/
theorem open_word_enters {t : Thread} {w : Word} {rest : List (Frame Word)}
    (h0 : s.state w = 0) (hfree : s.initializationMutex = .free)
    (hfs : s.frames t = ⟨w, .entry⟩ :: rest) :
    ∃ s', replay step s [⟨t, w, .get⟩, ⟨t, w, .test⟩, ⟨t, w, .enter⟩] = some s' ∧
      s'.InFunction t w := by
  have h2 : ¬ (0 : UInt32) = 2 := by decide
  simp [replay, step, hfs, body, Lock.apply, hfree, State.perform, storeWord, continueAt, h0, h2,
    State.InFunction]

theorem once_guarantee (hrun : Run step anyStep init h s) : Guarantee h s := by
  have hi := historyInv_of_run hrun
  have hturn : ∀ t w, s.InFunction t w → 0 < s.count Pc.turn t w :=
    fun t w hin => count_pos hin rfl rfl
  refine ⟨fun t u w ht hu => ?_, fun t w => ?_, fun t w s' hs => ?_, fun w => ?_, hi.thrown,
    fun t w s' hs => hi.inv.reopened_of_rethrow hs,
    fun t w rest h0 hfree hfs => open_word_enters h0 hfree hfs,
    fun w e s' h2 hs => hi.inv.state_two_stable hs h2⟩
  · have ht := hturn t w ht
    have hu := hturn u w hu
    rcases hi.inv.word w with ⟨-, hno⟩ | ⟨-, v, -, hothers⟩
    · have := hno t
      omega
    · have htv : t = v := by
        by_contra hne
        have := hothers t hne
        omega
      have huv : u = v := by
        by_contra hne
        have := hothers u hne
        omega
      rw [htv, huv]
  · have hle : (s.frames t).count ⟨w, .inside⟩ ≤ s.count Pc.turn t w := by
      refine List.countP_mono_left fun f _ hf => ?_
      simp only [beq_iff_eq] at hf
      simp [Frame.isAt, hf, Pc.turn]
    rcases hi.inv.word w with ⟨-, hno⟩ | ⟨-, v, hv, hothers⟩
    · have := hno t
      omega
    · rcases eq_or_ne t v with rfl | hne
      · omega
      · have := hothers t hne
        omega
  · have h2 : s.Completed w := .inl (hi.inv.state_of_ret hs)
    rcases hi.completed w with ⟨-, h1⟩ | ⟨hno, -⟩
    · have hpos : 0 < completions h w := by omega
      obtain ⟨⟨u, w', st⟩, hmem, heq⟩ := List.countP_pos_iff.mp hpos
      simp only [decide_eq_true_eq] at heq
      obtain ⟨rfl, rfl⟩ := heq
      exact ⟨u, hmem⟩
    · exact absurd h2 hno
  · rcases hi.completed w with ⟨-, h1⟩ | ⟨-, h0⟩ <;> omega

/-- Thread 0's function throws while thread 1 polls; thread 1 then runs its
    own to completion, and a later call of thread 0 returns 0 at once. -/
def retryRun : List (Event Nat Nat) :=
  [⟨0, 7, .call⟩, ⟨0, 7, .get⟩, ⟨0, 7, .test⟩, ⟨0, 7, .enter⟩,
   ⟨1, 7, .call⟩, ⟨1, 7, .get⟩, ⟨1, 7, .test⟩, ⟨1, 7, .backOff⟩,
   ⟨0, 7, .fnThrow⟩, ⟨0, 7, .get⟩, ⟨0, 7, .store⟩, ⟨0, 7, .rethrow⟩,
   ⟨1, 7, .wake⟩, ⟨1, 7, .get⟩, ⟨1, 7, .test⟩, ⟨1, 7, .enter⟩,
   ⟨1, 7, .fnReturn⟩, ⟨1, 7, .get⟩, ⟨1, 7, .store⟩, ⟨1, 7, .ret⟩,
   ⟨0, 7, .call⟩, ⟨0, 7, .get⟩, ⟨0, 7, .test⟩]

/-- No call has begun and every control word reads 0. -/
def idle : State Nat Nat := ⟨.free, fun _ => 0, fun _ => []⟩

theorem once_guarantee_retryRun :
    ∃ hrun : (replay step idle retryRun).isSome = true,
      ((replay step idle retryRun).get hrun).state 7 = 2 ∧
      Guarantee retryRun.reverse ((replay step idle retryRun).get hrun) :=
  ⟨rfl, rfl, once_guarantee (Run.of_replay_isSome ⟨rfl, fun _ => rfl, fun _ => rfl⟩ rfl)⟩

end Once
end Backend
end NucleoBase
