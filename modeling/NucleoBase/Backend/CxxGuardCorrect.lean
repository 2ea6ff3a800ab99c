/-
  NucleoBase.Backend.CxxGuardCorrect

  What the guard functions promise while the runtime is active, over every
  interleaving of any number of threads and guard objects.

  Abstractly a guard object is available, being initialized by one thread,
  being released by that thread, or done for good (`Phase`).  The phase is
  computed from the history alone; the invariant says what the bytes, the
  program points and the lists of running initializers are in each phase.
-/

import NucleoBase.Backend.CxxGuard

namespace NucleoBase
namespace Backend
namespace CxxGuard

open Lib ThreadX

/-! ## The abstract guard object -/

/-- The life of a guard object. -/
inductive Phase (Thread : Type*)
  | available
  | running (owner : Thread)    -- claimed by an acquire, not yet given back
  | releasing (owner : Thread)  -- the owner is in `__cxa_guard_release`
  | done
  deriving DecidableEq, Repr

/-- The moves of a guard object, each by the thread `t`. -/
inductive Phase.Move {Thread : Type*} (t : Thread) : Phase Thread → Phase Thread → Prop
  | claim : Move t .available (.running t)
  | release : Move t (.running t) (.releasing t)
  | complete : Move t (.releasing t) .done
  | giveBack : Move t (.running t) .available

section Phases

variable {Thread Guard : Type*} [DecidableEq Guard]

/-- The phase after a statement about the guard object. -/
def Phase.next (p : Phase Thread) (t : Thread) : Stmt → Phase Thread
  | .claim => .running t
  | .release => .releasing t
  | .complete => .done
  | .returnAborted => .available
  | _ => p

/-- The phase of `g` after the history `h`, newest event first; the objects
    `initialized` were done before it. -/
def phase (initialized : Guard → Bool) (g : Guard) : List (Event Thread Guard) → Phase Thread
  | [] => if initialized g then .done else .available
  | e :: h =>
      if e.guard = g then (phase initialized g h).next e.thread e.stmt
      else phase initialized g h

@[simp] theorem phase_other {initialized : Guard → Bool} {g : Guard} {e : Event Thread Guard}
    {h : List (Event Thread Guard)} (hg : e.guard ≠ g) :
    phase initialized g (e :: h) = phase initialized g h := by
  simp [phase, hg]

theorem phase_here {initialized : Guard → Bool} {e : Event Thread Guard}
    {h : List (Event Thread Guard)} :
    phase initialized e.guard (e :: h) =
      (phase initialized e.guard h).next e.thread e.stmt := by
  simp [phase]

/-- What a thread at `pc` in a call on the object knows about its phase. -/
def Phase.Permits (p : Phase Thread) (t : Thread) : Pc → Prop
  | .fastDone | .putDone | .releasePut => p = .done
  | .testInProgress => p ≠ .done
  | .claim => p = .available
  | .putBusy => p ≠ .available ∧ p ≠ .done
  | .putClaimed | .abortGet | .reopen | .abortPut => p = .running t
  | .releaseGet | .clear | .complete => p = .releasing t
  | _ => True

/-- The guard bytes in each phase; the owner clears the in-progress byte on
    its way out. -/
def Phase.bytes (p : Phase Thread) (pcs : Thread → Option Pc) : GuardBytes :=
  match p with
  | .available => ⟨0, 0⟩
  | .running t => ⟨0, if pcs t = some .abortPut then 0 else 1⟩
  | .releasing t => ⟨0, if pcs t = some .complete then 0 else 1⟩
  | .done => ⟨1, 0⟩

/-- `t`, at `pc` in a call on the object, has been told to initialize it and
    has not returned from its release or abort. -/
def Phase.Holds (p : Phase Thread) (t : Thread) (pc : Option Pc) : Prop :=
  match p with
  | .available => False
  | .running u => u = t ∧ pc ≠ some .putClaimed
  | .releasing u => u = t
  | .done => pc = some .releasePut

/-- Another thread's move leaves a thread's knowledge standing: its own turn
    is its own, and all moves but the call of release need the mutex. -/
theorem Phase.Permits.stable {p p' : Phase Thread} {t u : Thread} {pc : Pc}
    (hp : p.Permits u pc) (hm : Phase.Move t p p') (hne : u ≠ t)
    (hl : pc.locked = false ∨ p = .running t ∧ p' = .releasing t) : p'.Permits u pc := by
  cases hm with
  | claim =>
      rcases hl with hl | ⟨h, -⟩
      · cases pc <;> simp_all [Permits, Pc.locked]
      · cases h
  | release => cases pc <;> simp_all [Permits]
  | complete =>
      rcases hl with hl | ⟨h, -⟩
      · cases pc <;> simp_all [Permits, Pc.locked]
      · cases h
  | giveBack =>
      rcases hl with hl | ⟨-, h⟩
      · cases pc <;> simp_all [Permits, Pc.locked]
      · cases h

end Phases

/-! ## One guard object -/

/-- The points of release at which the completion is still to be stored. -/
def Pc.releasing : Pc → Bool
  | .releaseGet | .clear | .complete => true
  | _ => false

/-- The points that neither the bytes nor the running initializers tell apart
    from not being in a call. -/
def Pc.plain : Pc → Bool
  | .complete | .abortPut | .putClaimed | .releasePut => false
  | _ => true

section Objects

variable {Thread : Type*} [DecidableEq Thread]

/-- What one guard object looks like in phase `p`: its bytes, where its callers
    are, and which threads are initializing it. -/
structure GuardOk (p : Phase Thread) (b : GuardBytes) (pcs : Thread → Option Pc)
    (running : Thread → Prop) : Prop where
  bytes : b = p.bytes pcs
  permits : ∀ t pc, pcs t = some pc → p.Permits t pc
  holds : ∀ t, running t ↔ p.Holds t (pcs t)
  releasing : ∀ t, p = .releasing t → ∃ pc, pcs t = some pc ∧ pc.releasing = true

variable {p p' : Phase Thread} {b : GuardBytes} {pcs : Thread → Option Pc}
  {running running' : Thread → Prop} {t u : Thread} {q : Option Pc}

theorem Phase.bytes_update_plain (hpc : ∀ x, pcs t = some x → x.plain = true)
    (hq : ∀ x, q = some x → x.plain = true) :
    p.bytes (Function.update pcs t q) = p.bytes pcs := by
  have hne : ∀ x : Pc, x.plain = false → pcs t ≠ some x ∧ q ≠ some x := by
    intro x hx
    refine ⟨fun h => ?_, fun h => ?_⟩
    · simp [hpc x h] at hx
    · simp [hq x h] at hx
  cases p with
  | available => rfl
  | done => rfl
  | running v =>
      rcases eq_or_ne v t with rfl | hv
      · simp [Phase.bytes, hne .abortPut rfl]
      · simp [Phase.bytes, hv]
  | releasing v =>
      rcases eq_or_ne v t with rfl | hv
      · simp [Phase.bytes, hne .complete rfl]
      · simp [Phase.bytes, hv]

/-- A move of `t`: what is to be checked is `t`'s own new point and the bytes. -/
theorem GuardOk.move (ok : GuardOk p b pcs running) (hm : Phase.Move t p p')
    (hl : (∀ v pc, v ≠ t → pcs v = some pc → pc.locked = false) ∨
      p = .running t ∧ p' = .releasing t)
    {b' : GuardBytes} (hb : b' = p'.bytes (Function.update pcs t q))
    (hp : ∀ x, q = some x → p'.Permits t x) (hh : running' t ↔ p'.Holds t q)
    (ho : ∀ v, v ≠ t → (running' v ↔ running v))
    (hr : p' = .releasing t → ∃ x, q = some x ∧ x.releasing = true) :
    GuardOk p' b' (Function.update pcs t q) running' where
  bytes := hb
  permits := by
    intro v x hx
    rcases eq_or_ne v t with rfl | hv
    · rw [Function.update_self] at hx
      exact hp x hx
    · rw [Function.update_of_ne hv] at hx
      refine (ok.permits v x hx).stable hm hv ?_
      rcases hl with hl | hl
      · exact .inl (hl v x hv hx)
      · exact .inr hl
  holds := by
    intro v
    rcases eq_or_ne v t with rfl | hv
    · rw [Function.update_self]
      exact hh
    · rw [Function.update_of_ne hv, ho v hv, ok.holds v]
      have hperm := ok.permits v
      cases hm with
      | claim => simp [Phase.Holds, hv.symm]
      | release => simp [Phase.Holds, hv.symm]
      | complete =>
          simp only [Phase.Holds, hv.symm, false_iff]
          intro hx
          have := hperm _ hx
          simp [Phase.Permits] at this
      | giveBack => simp [Phase.Holds, hv.symm]
  releasing := by
    intro v hv
    rcases eq_or_ne v t with rfl | hne
    · rw [Function.update_self]
      exact hr hv
    · cases hm <;> simp_all

/-- A statement of `t` inside its own turn: the phase stays. -/
theorem GuardOk.inTurn (ok : GuardOk p b pcs running)
    {b' : GuardBytes} (hb : b' = p.bytes (Function.update pcs t q))
    (hp : ∀ x, q = some x → p.Permits t x) (hh : running' t ↔ p.Holds t q)
    (ho : ∀ v, v ≠ t → (running' v ↔ running v))
    (hr : p = .releasing t → ∃ x, q = some x ∧ x.releasing = true) :
    GuardOk p b' (Function.update pcs t q) running' where
  bytes := hb
  permits := by
    intro v x hx
    rcases eq_or_ne v t with rfl | hv
    · rw [Function.update_self] at hx
      exact hp x hx
    · rw [Function.update_of_ne hv] at hx
      exact ok.permits v x hx
  holds := by
    intro v
    rcases eq_or_ne v t with rfl | hv
    · rw [Function.update_self]
      exact hh
    · rw [Function.update_of_ne hv, ho v hv, ok.holds v]
  releasing := by
    intro v hv
    rcases eq_or_ne v t with rfl | hne
    · rw [Function.update_self]
      exact hr hv
    · rw [Function.update_of_ne hne]
      exact ok.releasing v hv

/-- A statement of `t` that tells nothing about the object's phase. -/
theorem GuardOk.quiet (ok : GuardOk p b pcs running)
    (hpc : ∀ x, pcs t = some x → x.plain = true) (hq : ∀ x, q = some x → x.plain = true)
    (hp : ∀ x, q = some x → p.Permits t x)
    (hr : p = .releasing t → ∃ x, q = some x ∧ x.releasing = true) :
    GuardOk p b (Function.update pcs t q) running := by
  have hne : ∀ x : Pc, x.plain = false → pcs t ≠ some x ∧ q ≠ some x := by
    intro x hx
    refine ⟨fun h => ?_, fun h => ?_⟩
    · simp [hpc x h] at hx
    · simp [hq x h] at hx
  refine ok.inTurn ?_ hp ?_ (fun _ _ => Iff.rfl) hr
  · rw [Phase.bytes_update_plain hpc hq, ok.bytes]
  · rw [ok.holds t]
    cases p <;> simp [Phase.Holds, hne .putClaimed rfl, hne .releasePut rfl]

omit [DecidableEq Thread] in
/-- The completion byte is set exactly when the object is done. -/
theorem GuardOk.initialized_iff (ok : GuardOk p b pcs running) :
    b.initialized ≠ 0 ↔ p = .done := by
  rw [ok.bytes]
  cases p <;> simp [Phase.bytes]

omit [DecidableEq Thread] in
/-- Under the mutex an object that is not done and not in progress is
    available: nobody is on the way out of its turn. -/
theorem GuardOk.available_of_clear (ok : GuardOk p b pcs running) (hd : p ≠ .done)
    (hb : b.inProgress = 0)
    (hl : ∀ v pc, pcs v = some pc → pc.locked = true → pc = .testInProgress) :
    p = .available := by
  have hbytes := ok.bytes
  cases p with
  | available => rfl
  | done => exact absurd rfl hd
  | running v =>
      by_cases hv : pcs v = some .abortPut
      · cases hl v _ hv rfl
      · rw [hbytes] at hb
        simp [Phase.bytes, hv] at hb
  | releasing v =>
      by_cases hv : pcs v = some .complete
      · cases hl v _ hv rfl
      · rw [hbytes] at hb
        simp [Phase.bytes, hv] at hb

omit [DecidableEq Thread] in
/-- A thread that initializes the object and is in no call on it is running it. -/
theorem GuardOk.running_of_idle (ok : GuardOk p b pcs running) (hr : running t)
    (hidle : pcs t = none) : p = .running t := by
  have hh := (ok.holds t).mp hr
  have hrel := ok.releasing t
  cases p with
  | available => cases hh
  | running v => rw [hh.1]
  | releasing v =>
      obtain ⟨pc, hpc, -⟩ := hrel (congrArg Phase.releasing hh)
      rw [hidle] at hpc
      cases hpc
  | done =>
      rw [hidle] at hh
      cases hh

end Objects

/-! ## The invariant -/

variable {Thread Guard : Type*} [DecidableEq Thread] [DecidableEq Guard]
  {s s' : State Thread Guard} {e : Event Thread Guard} {h : List (Event Thread Guard)}
  {initialized : Guard → Bool}

/-- Every caller is a ThreadX thread and the runtime is active. -/
def threaded : Thread → Context := fun _ => .threaded

/-- Where `t` stands in a call on `g`, if it is in one. -/
def State.pcAt (s : State Thread Guard) (g : Guard) (t : Thread) : Option Pc :=
  ((s.call t).filter fun c => decide (c.guard = g)).map Call.pc

/-- A thread owns the guard mutex exactly at the statements that run under it,
    once. -/
def LockOk (m : Mutex Thread) (t : Thread) : Option (Call Guard) → Prop
  | none => m.owner ≠ some t
  | some c =>
      (c.pc = .fastPath ∨ c.pc = .fastDone ∨ c.locked = true) ∧
        if c.pc.locked then m = .held t 0 else m.owner ≠ some t

structure Inv (initialized : Guard → Bool) (h : List (Event Thread Guard))
    (s : State Thread Guard) : Prop where
  locks : ∀ t, LockOk s.cxxGuardMutex t (s.call t)
  guards : ∀ g, GuardOk (phase initialized g h) (s.bytes g) (s.pcAt g)
    (fun t => g ∈ s.initializing t)
  nodup : ∀ t, (s.initializing t).Nodup

/-- Everything one step can do. -/
theorem step_cases (hs : step threaded s e = some s') :
    (s.call e.thread = none ∧
      (e.stmt = .acquire ∧ s' = s.beginCall e.thread ⟨e.guard, false, .fastPath⟩ ∨
       e.guard ∈ s.initializing e.thread ∧ e.stmt = .release ∧
          s' = s.beginCall e.thread ⟨e.guard, true, .releaseGet⟩ ∨
       e.guard ∈ s.initializing e.thread ∧ e.stmt = .abort ∧
          s' = s.beginCall e.thread ⟨e.guard, true, .abortGet⟩)) ∨
    ∃ locked pc eff m, s.call e.thread = some ⟨e.guard, locked, pc⟩ ∧
      body (some true) (s.bytes e.guard) ⟨e.guard, locked, pc⟩ pc e.stmt = some eff ∧
      eff.lock.apply locked e.thread s.cxxGuardMutex = some m ∧ s' = s.perform e m eff := by
  unfold step at hs
  split at hs
  · rename_i hcall
    refine .inl ⟨hcall, ?_⟩
    split at hs
    · rename_i hst
      cases hs
      exact .inl ⟨hst, rfl⟩
    · rename_i hst
      split at hs
      · rename_i hmem
        cases hs
        exact .inr (.inl ⟨hmem, hst, rfl⟩)
      · cases hs
    · rename_i hst
      split at hs
      · rename_i hmem
        cases hs
        exact .inr (.inr ⟨hmem, hst, rfl⟩)
      · cases hs
    · cases hs
  · rename_i c hcall
    obtain ⟨g, locked, pc⟩ := c
    split at hs
    · rename_i hg
      simp only at hg
      subst hg
      simp only [Option.bind_eq_some_iff, Option.map_eq_some_iff] at hs
      obtain ⟨eff, hbody, m, hlock, rfl⟩ := hs
      exact .inr ⟨locked, pc, eff, m, hcall, hbody, hlock, rfl⟩
    · cases hs

/-- A statement leads on in the same call, and obtains or releases the mutex
    when it enters or leaves the statements that run under it. -/
theorem body_lock {b : GuardBytes} {g : Guard} {locked : Bool} {pc : Pc} {stmt : Stmt}
    {eff : Effect Guard} (hbody : body (some true) b ⟨g, locked, pc⟩ pc stmt = some eff)
    (hl : pc = .fastPath ∨ pc = .fastDone ∨ locked = true) :
    (eff.lock = .get ∧ pc.locked = false ∧ locked = true ∧
      ∃ q, eff.next = some ⟨g, true, q⟩ ∧ q.locked = true) ∨
    (eff.lock = .put ∧ pc.locked = true ∧ locked = true ∧
      ∀ c, eff.next = some c → c = ⟨g, true, .asleep⟩) ∨
    (eff.lock = .keep ∧ (eff.next = none ∧ pc.locked = false ∨
      ∃ l q, eff.next = some ⟨g, l, q⟩ ∧ q.locked = pc.locked ∧
        (q = .fastPath ∨ q = .fastDone ∨ l = true))) := by
  unfold body at hbody
  split at hbody
  all_goals first
    | (split at hbody <;> cases hbody <;> simp_all [Pc.locked])
    | (cases hbody; simp_all [Pc.locked])
    | cases hbody

/-! ### The mutex -/

theorem LockOk.other_get {m m' : Mutex Thread} {t u : Thread} {c : Option (Call Guard)}
    (hu : LockOk m u c) (hne : u ≠ t) (ht : m.owner ≠ some t) (hm : m.get t = some m') :
    LockOk m' u c := by
  obtain ⟨rfl, rfl⟩ := Mutex.get_of_owner_ne ht hm
  cases c with
  | none => simpa [LockOk] using hne.symm
  | some c =>
      obtain ⟨hl, hpc⟩ := hu
      refine ⟨hl, ?_⟩
      split at hpc
      · cases hpc
      · rename_i hlocked
        simpa [hlocked] using hne.symm

theorem LockOk.other_put {m' : Mutex Thread} {t u : Thread} {c : Option (Call Guard)}
    (hu : LockOk (.held t 0) u c) (hne : u ≠ t) (hm : (Mutex.held t 0).put t = some m') :
    LockOk m' u c := by
  rw [Mutex.put_held_self] at hm
  cases hm
  cases c with
  | none => simp [LockOk]
  | some c =>
      obtain ⟨hl, hpc⟩ := hu
      refine ⟨hl, ?_⟩
      split at hpc
      · simp only [Mutex.held.injEq, and_true] at hpc
        exact absurd hpc.symm hne
      · rename_i hlocked
        simp [hlocked]

theorem Inv.preserve_locks (inv : Inv initialized h s) (hs : step threaded s e = some s') :
    ∀ t, LockOk s'.cxxGuardMutex t (s'.call t) := by
  rcases step_cases hs with ⟨hcall, hbegin⟩ | ⟨locked, pc, eff, m, hcall, hbody, hlock, rfl⟩
  · have hself := inv.locks e.thread
    rw [hcall] at hself
    intro t
    have hother : ∀ c : Call Guard, t ≠ e.thread →
        LockOk (s.beginCall e.thread c).cxxGuardMutex t ((s.beginCall e.thread c).call t) := by
      intro c hne
      simpa [State.beginCall, Function.update_of_ne hne] using inv.locks t
    have hnew : ∀ c : Call Guard, c.pc.locked = false →
        (c.pc = .fastPath ∨ c.pc = .fastDone ∨ c.locked = true) →
        LockOk (s.beginCall e.thread c).cxxGuardMutex e.thread
          ((s.beginCall e.thread c).call e.thread) := by
      intro c hc hl
      simpa [State.beginCall, LockOk, hc] using ⟨hl, hself⟩
    rcases eq_or_ne t e.thread with rfl | hne
    · rcases hbegin with ⟨-, rfl⟩ | ⟨-, -, rfl⟩ | ⟨-, -, rfl⟩
      · exact hnew _ rfl (.inl rfl)
      · exact hnew _ rfl (.inr (.inr rfl))
      · exact hnew _ rfl (.inr (.inr rfl))
    · rcases hbegin with ⟨-, rfl⟩ | ⟨-, -, rfl⟩ | ⟨-, -, rfl⟩
      · exact hother _ hne
      · exact hother _ hne
      · exact hother _ hne
  · have hself := inv.locks e.thread
    rw [hcall] at hself
    obtain ⟨hl, hpc⟩ := hself
    intro t
    rcases body_lock hbody hl with ⟨hget, hunl, rfl, q, hq, hqlocked⟩ |
      ⟨hput, hlk, rfl, hnext⟩ | ⟨hkeep, hnext⟩
    · simp only [hunl, Bool.false_eq_true, if_false] at hpc
      simp only [hget, Lock.apply, if_true] at hlock
      rcases eq_or_ne t e.thread with rfl | hne
      · obtain ⟨-, rfl⟩ := Mutex.get_of_owner_ne hpc hlock
        simp [State.perform, hq, LockOk, hqlocked]
      · simpa [State.perform, Function.update_of_ne hne] using
          (inv.locks t).other_get hne hpc hlock
    · simp only [hlk, if_true] at hpc
      simp only [hput, Lock.apply, if_true, hpc] at hlock
      rcases eq_or_ne t e.thread with rfl | hne
      · rw [Mutex.put_held_self] at hlock
        cases hlock
        rcases hcases : eff.next with - | c
        · simp [State.perform, hcases, LockOk]
        · simp [State.perform, hcases, hnext c hcases, LockOk, Pc.locked]
      · have hu := inv.locks t
        rw [hpc] at hu
        simpa [State.perform, Function.update_of_ne hne] using hu.other_put hne hlock
    · simp only [hkeep, Lock.apply, Option.some.injEq] at hlock
      subst hlock
      rcases eq_or_ne t e.thread with rfl | hne
      · rcases hnext with ⟨hnone, hunl⟩ | ⟨l, q, hq, hqlocked, hqok⟩
        · simpa [State.perform, hnone, LockOk, hunl] using hpc
        · simp only [← hqlocked] at hpc
          simpa [State.perform, hq, LockOk] using ⟨hqok, hpc⟩
      · simpa [State.perform, Function.update_of_ne hne] using inv.locks t

/-- Only one thread is at a statement that runs under the mutex. -/
theorem Inv.locked_unique (inv : Inv initialized h s) {t u : Thread} {c d : Call Guard}
    (ht : s.call t = some c) (hu : s.call u = some d) (hc : c.pc.locked = true)
    (hd : d.pc.locked = true) : t = u := by
  have h1 := inv.locks t
  have h2 := inv.locks u
  rw [ht] at h1
  rw [hu] at h2
  simp only [LockOk, hc, if_true] at h1
  simp only [LockOk, hd, if_true] at h2
  have heq := h1.2.symm.trans h2.2
  simpa using heq

/-! ### The guard objects -/

theorem pcAt_eq_some {g : Guard} {t : Thread} {pc : Pc} :
    s.pcAt g t = some pc ↔ ∃ locked, s.call t = some ⟨g, locked, pc⟩ := by
  unfold State.pcAt
  constructor
  · intro hp
    simp only [Option.map_eq_some_iff, Option.filter_eq_some_iff, decide_eq_true_eq] at hp
    obtain ⟨⟨g', locked, pc'⟩, ⟨hcall, rfl⟩, rfl⟩ := hp
    exact ⟨locked, hcall⟩
  · rintro ⟨locked, hcall⟩
    simp [hcall]

theorem pcAt_of_call_none {g : Guard} {t : Thread} (hcall : s.call t = none) :
    s.pcAt g t = none := by
  simp [State.pcAt, hcall]

/-- A thread that goes on in a call on `g` moves in the view of `g`. -/
theorem pcAt_here {g : Guard} {t : Thread} {c : Option (Call Guard)}
    (hcall : s'.call = Function.update s.call t c) (hg : ∀ x, c = some x → x.guard = g) :
    s'.pcAt g = Function.update (s.pcAt g) t (c.map Call.pc) := by
  funext u
  unfold State.pcAt
  rw [hcall]
  rcases eq_or_ne u t with rfl | hne
  · cases c with
    | none => simp
    | some x => simp [hg x rfl]
  · simp [hne]

/-- ... and in no other object's view. -/
theorem pcAt_elsewhere {g g' : Guard} {t : Thread} {c : Option (Call Guard)} (hne : g' ≠ g)
    (hcall : s'.call = Function.update s.call t c) (hg : ∀ x, c = some x → x.guard = g)
    (hold : ∀ x, s.call t = some x → x.guard = g) : s'.pcAt g' = s.pcAt g' := by
  funext u
  unfold State.pcAt
  rw [hcall]
  rcases eq_or_ne u t with rfl | hu
  · rw [Function.update_self]
    have hnone : ∀ o : Option (Call Guard), (∀ x, o = some x → x.guard = g) →
        o.filter (fun c => decide (c.guard = g')) = none := by
      intro o ho
      cases o with
      | none => rfl
      | some x => simp [Option.filter, ho x rfl, hne.symm]
    rw [hnone c hg, hnone _ hold]
  · rw [Function.update_of_ne hu]

theorem mem_turns {g g' : Guard} {gs : List Guard} (stmt : Stmt) (hne : g' ≠ g) :
    g' ∈ stmt.turns g gs ↔ g' ∈ gs := by
  cases stmt <;> simp [Stmt.turns, hne, List.mem_erase_of_ne hne]

/-- A body continues in a call on the same object. -/
theorem body_next_guard {b : GuardBytes} {c : Call Guard} {stmt : Stmt} {eff : Effect Guard}
    (hbody : body (some true) b c c.pc stmt = some eff) :
    ∀ x, eff.next = some x → x.guard = c.guard := by
  unfold body at hbody
  split at hbody
  all_goals first
    | (split at hbody <;> cases hbody <;> simp)
    | (cases hbody; simp)
    | cases hbody

/-- A step is no business of the other guard objects. -/
theorem Inv.preserve_elsewhere (inv : Inv initialized h s) (hs : step threaded s e = some s')
    {g : Guard} (hg : g ≠ e.guard) :
    GuardOk (phase initialized g (e :: h)) (s'.bytes g) (s'.pcAt g)
      (fun t => g ∈ s'.initializing t) := by
  rw [phase_other hg.symm]
  have hkeep : s'.bytes g = s.bytes g ∧ s'.pcAt g = s.pcAt g ∧
      ∀ t, g ∈ s'.initializing t ↔ g ∈ s.initializing t := by
    rcases step_cases hs with ⟨hcall, hbegin⟩ | ⟨locked, pc, eff, m, hcall, hbody, -, rfl⟩
    · have hcallee : ∃ c, s' = s.beginCall e.thread c ∧ c.guard = e.guard := by
        rcases hbegin with ⟨-, rfl⟩ | ⟨-, -, rfl⟩ | ⟨-, -, rfl⟩ <;> exact ⟨_, rfl, rfl⟩
      obtain ⟨c, rfl, hc⟩ := hcallee
      refine ⟨rfl, pcAt_elsewhere hg rfl ?_ ?_, fun _ => Iff.rfl⟩
      · intro x hx
        cases hx
        exact hc
      · simp [hcall]
    · refine ⟨Function.update_of_ne hg _ _, pcAt_elsewhere hg rfl (body_next_guard hbody) ?_, ?_⟩
      · intro x hx
        rw [hcall] at hx
        cases hx
        rfl
      · intro t
        rcases eq_or_ne t e.thread with rfl | hne
        · simp [State.perform, mem_turns _ hg]
        · simp [State.perform, Function.update_of_ne hne]
  obtain ⟨hb, hp, hi⟩ := hkeep
  rw [hb, hp]
  simp only [hi]
  exact inv.guards g

/-- The calls of the three functions. -/
theorem Inv.preserve_begin (inv : Inv initialized h s) (hcall : s.call e.thread = none)
    (hbegin : e.stmt = .acquire ∧ s' = s.beginCall e.thread ⟨e.guard, false, .fastPath⟩ ∨
      e.guard ∈ s.initializing e.thread ∧ e.stmt = .release ∧
        s' = s.beginCall e.thread ⟨e.guard, true, .releaseGet⟩ ∨
      e.guard ∈ s.initializing e.thread ∧ e.stmt = .abort ∧
        s' = s.beginCall e.thread ⟨e.guard, true, .abortGet⟩) :
    GuardOk (phase initialized e.guard (e :: h)) (s'.bytes e.guard) (s'.pcAt e.guard)
      (fun t => e.guard ∈ s'.initializing t) := by
  have ok := inv.guards e.guard
  have hidle : s.pcAt e.guard e.thread = none := pcAt_of_call_none hcall
  have hat : ∀ c : Call Guard, c.guard = e.guard → (s.beginCall e.thread c).pcAt e.guard =
      Function.update (s.pcAt e.guard) e.thread (some c.pc) := by
    intro c hc
    refine pcAt_here (c := some c) rfl ?_
    intro x hx
    cases hx
    exact hc
  rw [phase_here]
  rcases hbegin with ⟨hst, rfl⟩ | ⟨hmem, hst, rfl⟩ | ⟨hmem, hst, rfl⟩
  · rw [hst, hat _ rfl]
    refine ok.quiet ?_ ?_ ?_ ?_
    · simp [hidle]
    · rintro x ⟨⟩
      rfl
    · rintro x ⟨⟩
      trivial
    · intro hr
      obtain ⟨x, hx, -⟩ := ok.releasing _ hr
      rw [hidle] at hx
      cases hx
  · have hrun := ok.running_of_idle hmem hidle
    rw [hst, hat _ rfl, hrun]
    rw [hrun] at ok
    refine ok.move .release (.inr ⟨rfl, rfl⟩) ?_ ?_ ?_ (fun _ _ => Iff.rfl) ?_
    · have hb := ok.bytes
      simp only [Phase.bytes, hidle] at hb
      simpa [Phase.bytes] using hb
    · rintro x ⟨⟩
      rfl
    · simpa [Phase.Holds] using hmem
    · exact fun _ => ⟨_, rfl, rfl⟩
  · have hrun := ok.running_of_idle hmem hidle
    rw [hst, hat _ rfl, hrun]
    rw [hrun] at ok
    refine ok.quiet ?_ ?_ ?_ ?_
    · simp [hidle]
    · rintro x ⟨⟩
      rfl
    · rintro x ⟨⟩
      rfl
    · exact fun hr => nomatch hr

/-- The statements of the three bodies, one case for each line of `body`. -/
theorem GuardOk.body {p : Phase Thread} {b : GuardBytes} {pcs : Thread → Option Pc}
    {running : Thread → List Guard} {t : Thread} {g : Guard} {locked : Bool} {pc : Pc}
    {stmt : Stmt} {eff : Effect Guard}
    (ok : GuardOk p b pcs (fun u => g ∈ running u)) (hat : pcs t = some pc)
    (hnodup : (running t).Nodup)
    -- at a locked statement every other thread is outside the mutex
    (hothers : pc.locked = true → ∀ v x, v ≠ t → pcs v = some x → x.locked = false)
    (hbody : body (some true) b ⟨g, locked, pc⟩ pc stmt = some eff) :
    GuardOk (p.next t stmt) eff.bytes (Function.update pcs t (eff.next.map Call.pc))
      (fun u => g ∈ Function.update running t (stmt.turns g (running t)) u) := by
  have hpermit := ok.permits _ _ hat
  have hsame : ∀ v, v ≠ t →
      (g ∈ Function.update running t (stmt.turns g (running t)) v ↔ g ∈ running v) := by
    intro v hv
    rw [Function.update_of_ne hv]
  have hself : g ∈ Function.update running t (stmt.turns g (running t)) t ↔
      g ∈ stmt.turns g (running t) := by
    rw [Function.update_self]
  have hlocks : pc.locked = true → (∀ v x, v ≠ t → pcs v = some x → x.locked = false) ∨
      p = .running t ∧ p.next t stmt = .releasing t := fun hlk => .inl (hothers hlk)
  have hquiet : ∀ q : Option Pc, stmt.turns g (running t) = running t → pc.plain = true →
      (∀ x, q = some x → x.plain = true) → (∀ x, q = some x → p.Permits t x) →
      (pc.releasing = true → ∃ x, q = some x ∧ x.releasing = true) →
      GuardOk p b (Function.update pcs t q)
        (fun u => g ∈ Function.update running t (stmt.turns g (running t)) u) := by
    intro q hturns hpc hq hp hr
    rw [hturns, Function.update_eq_self]
    refine ok.quiet ?_ hq hp ?_
    · intro x hx
      rw [hat] at hx
      cases hx
      exact hpc
    · intro hrel
      obtain ⟨x, hx, hxr⟩ := ok.releasing t hrel
      rw [hat] at hx
      cases hx
      exact hr hxr
  -- the statements that go on at a plain point, and those that leave from one
  have hgo : ∀ x : Pc, stmt.turns g (running t) = running t → pc.plain = true →
      x.plain = true → p.Permits t x → (pc.releasing = true → x.releasing = true) →
      GuardOk p b (Function.update pcs t (some x))
        (fun u => g ∈ Function.update running t (stmt.turns g (running t)) u) := by
    intro x hturns hpc hx hp hr
    refine hquiet _ hturns hpc ?_ ?_ (fun h => ⟨x, rfl, hr h⟩)
    · rintro y ⟨⟩
      exact hx
    · rintro y ⟨⟩
      exact hp
  have hleave : stmt.turns g (running t) = running t → pc.plain = true → pc.releasing = false →
      GuardOk p b (Function.update pcs t none)
        (fun u => g ∈ Function.update running t (stmt.turns g (running t)) u) := by
    intro hturns hpc hr
    exact hquiet _ hturns hpc (fun x hx => nomatch hx) (fun x hx => nomatch hx)
      (fun h => by rw [hr] at h; cases h)
  have hinit := ok.initialized_iff
  have hb := ok.bytes
  unfold CxxGuard.body at hbody
  split at hbody
  case h_1 =>
    split at hbody
    · rename_i hset
      cases hbody
      exact hgo .fastDone rfl rfl rfl (hinit.mp hset) (fun hr => nomatch hr)
    · cases hbody
      exact hgo .get rfl rfl rfl trivial (fun hr => nomatch hr)
  case h_2 =>
    cases hbody
    exact hleave rfl rfl rfl
  case h_3 =>
    cases hbody
    exact hgo .testInitialized rfl rfl rfl trivial (fun hr => nomatch hr)
  case h_4 =>
    split at hbody
    · rename_i hset
      cases hbody
      exact hgo .putDone rfl rfl rfl (hinit.mp hset) (fun hr => nomatch hr)
    · rename_i hset
      cases hbody
      exact hgo .testInProgress rfl rfl rfl (fun hp => hset (hinit.mpr hp)) (fun hr => nomatch hr)
  case h_5 =>
    cases hbody
    exact hleave rfl rfl rfl
  case h_6 =>
    split at hbody
    · rename_i hclear
      cases hbody
      have hav : p = .available := by
        refine ok.available_of_clear hpermit hclear ?_
        intro v x hx hlk
        rcases eq_or_ne v t with rfl | hv
        · rw [hat] at hx
          cases hx
          rfl
        · rw [hothers rfl v x hv hx] at hlk
          cases hlk
      exact hgo .claim rfl rfl rfl hav (fun hr => nomatch hr)
    · rename_i hset
      cases hbody
      refine hgo .putBusy rfl rfl rfl ⟨?_, hpermit⟩ (fun hr => nomatch hr)
      rintro rfl
      rw [hb] at hset
      exact hset rfl
  case h_7 =>
    cases hbody
    obtain rfl : p = .available := hpermit
    refine ok.move .claim (hlocks rfl) ?_ ?_ ?_ hsame (fun hr => nomatch hr)
    · rw [hb]
      simp [Phase.bytes]
    · rintro x ⟨⟩
      rfl
    · rw [hself]
      simpa [Phase.Holds, Stmt.turns] using (ok.holds t).not.mpr (fun hh => hh)
  case h_8 =>
    cases hbody
    obtain rfl : p = .running t := hpermit
    refine ok.inTurn ?_ (fun x hx => nomatch hx) ?_ hsame (fun hr => nomatch hr)
    · rw [hb]
      simp [Phase.bytes, hat]
    · rw [hself]
      simp [Phase.Holds, Stmt.turns]
  case h_9 =>
    split at hbody
    · cases hbody
      exact hgo .asleep rfl rfl rfl trivial (fun hr => nomatch hr)
    · cases hbody
  case h_10 =>
    cases hbody
    exact hgo .get rfl rfl rfl trivial (fun hr => nomatch hr)
  case h_11 =>
    cases hbody
    exact hgo .clear rfl rfl rfl hpermit (fun _ => rfl)
  case h_12 =>
    cases hbody
    obtain rfl : p = .releasing t := hpermit
    refine ok.inTurn ?_ ?_ ?_ hsame (fun _ => ⟨_, rfl, rfl⟩)
    · rw [hb]
      simp [Phase.bytes]
    · rintro x ⟨⟩
      rfl
    · rw [hself]
      simpa [Phase.Holds, Stmt.turns] using ok.holds t
  case h_13 =>
    cases hbody
    obtain rfl : p = .releasing t := hpermit
    refine ok.move .complete (hlocks rfl) ?_ ?_ ?_ hsame (fun hr => nomatch hr)
    · rw [hb]
      simp [Phase.bytes, hat]
    · rintro x ⟨⟩
      rfl
    · rw [hself]
      simpa [Phase.Holds, Stmt.turns] using ok.holds t
  case h_14 =>
    cases hbody
    obtain rfl : p = .done := hpermit
    refine ok.inTurn ?_ (fun x hx => nomatch hx) ?_ hsame (fun hr => nomatch hr)
    · rw [hb]
      rfl
    · rw [hself]
      simp [Phase.Holds, Stmt.turns, hnodup.mem_erase_iff]
  case h_15 =>
    cases hbody
    exact hgo .reopen rfl rfl rfl hpermit (fun hr => nomatch hr)
  case h_16 =>
    cases hbody
    obtain rfl : p = .running t := hpermit
    refine ok.inTurn ?_ ?_ ?_ hsame (fun hr => nomatch hr)
    · rw [hb]
      simp [Phase.bytes]
    · rintro x ⟨⟩
      rfl
    · rw [hself]
      simpa [Phase.Holds, Stmt.turns, hat] using ok.holds t
  case h_17 =>
    cases hbody
    obtain rfl : p = .running t := hpermit
    refine ok.move .giveBack (hlocks rfl) ?_ (fun x hx => nomatch hx) ?_ hsame
      (fun hr => nomatch hr)
    · rw [hb]
      simp [Phase.bytes, hat]
    · rw [hself]
      simp [Phase.Holds, Stmt.turns, hnodup.mem_erase_iff]
  case h_18 => cases hbody

/-- The calls in progress. -/
theorem Inv.preserve_body (inv : Inv initialized h s) {locked : Bool} {pc : Pc}
    {eff : Effect Guard} {m : Mutex Thread}
    (hcall : s.call e.thread = some ⟨e.guard, locked, pc⟩)
    (hbody : body (some true) (s.bytes e.guard) ⟨e.guard, locked, pc⟩ pc e.stmt = some eff) :
    GuardOk (phase initialized e.guard (e :: h)) ((s.perform e m eff).bytes e.guard)
      ((s.perform e m eff).pcAt e.guard)
      (fun t => e.guard ∈ (s.perform e m eff).initializing t) := by
  have hat : s.pcAt e.guard e.thread = some pc := pcAt_eq_some.mpr ⟨locked, hcall⟩
  have hothers : pc.locked = true → ∀ v x, v ≠ e.thread → s.pcAt e.guard v = some x →
      x.locked = false := by
    intro hlk v x hv hx
    obtain ⟨l, hx⟩ := pcAt_eq_some.mp hx
    by_contra hne
    exact hv (inv.locked_unique hx hcall (by simpa using hne) hlk)
  have hpcAt : (s.perform e m eff).pcAt e.guard =
      Function.update (s.pcAt e.guard) e.thread (eff.next.map Call.pc) :=
    pcAt_here rfl (body_next_guard hbody)
  have hbytes : (s.perform e m eff).bytes e.guard = eff.bytes := Function.update_self _ _ _
  rw [phase_here, hpcAt, hbytes]
  exact (inv.guards e.guard).body hat (inv.nodup e.thread) hothers hbody

/-- The statement that returns 1 is that of a claimed object. -/
theorem body_returnOne {l : Option Bool} {b : GuardBytes} {c : Call Guard} {pc : Pc}
    {eff : Effect Guard} (hbody : body l b c pc .returnOne = some eff) : pc = .putClaimed := by
  cases pc <;> first | rfl | simp [body] at hbody

theorem Inv.preserve_nodup (inv : Inv initialized h s) (hs : step threaded s e = some s') :
    ∀ t, (s'.initializing t).Nodup := by
  intro t
  rcases step_cases hs with ⟨-, hbegin⟩ | ⟨locked, pc, eff, m, hcall, hbody, -, rfl⟩
  · rcases hbegin with ⟨-, rfl⟩ | ⟨-, -, rfl⟩ | ⟨-, -, rfl⟩ <;> exact inv.nodup t
  · rcases eq_or_ne t e.thread with rfl | hne
    · have hold := inv.nodup e.thread
      simp only [State.perform, Function.update_self]
      rcases hst : e.stmt <;> try exact hold
      · rw [hst] at hbody
        obtain rfl := body_returnOne hbody
        have hat : s.pcAt e.guard e.thread = some .putClaimed := pcAt_eq_some.mpr ⟨locked, hcall⟩
        have ok := inv.guards e.guard
        have hrun : phase initialized e.guard h = .running e.thread := ok.permits _ _ hat
        have hnot : e.guard ∉ s.initializing e.thread := by
          intro hmem
          have hh := (ok.holds e.thread).mp hmem
          rw [hrun, hat] at hh
          exact hh.2 rfl
        exact List.nodup_cons.mpr ⟨hnot, hold⟩
      · exact hold.erase _
      · exact hold.erase _
    · simpa [State.perform, hne] using inv.nodup t

theorem Inv.initial (h0 : init initialized s) : Inv initialized [] s := by
  obtain ⟨hfree, hbytes, hcall, hrun⟩ := h0
  have hpcs : ∀ g t, s.pcAt g t = none := fun g t => pcAt_of_call_none (hcall t)
  refine ⟨fun t => ?_, fun g => ?_, fun t => ?_⟩
  · simp [hcall, LockOk, hfree]
  · refine ⟨?_, fun t pc hpc => ?_, fun t => ?_, fun t ht => ?_⟩
    · rw [hbytes]
      cases hg : initialized g <;> simp [phase, hg, Phase.bytes]
    · rw [hpcs] at hpc
      cases hpc
    · rw [hrun, hpcs]
      cases hg : initialized g <;> simp [phase, hg, Phase.Holds]
    · cases hg : initialized g <;> simp [phase, hg] at ht
  · simp [hrun]

theorem Inv.preserve (inv : Inv initialized h s) (hs : step threaded s e = some s') :
    Inv initialized (e :: h) s' where
  locks := inv.preserve_locks hs
  guards := by
    intro g
    rcases eq_or_ne g e.guard with rfl | hg
    · rcases step_cases hs with ⟨hcall, hbegin⟩ | ⟨locked, pc, eff, m, hcall, hbody, -, rfl⟩
      · exact inv.preserve_begin hcall hbegin
      · exact inv.preserve_body hcall hbody
    · exact inv.preserve_elsewhere hs hg
  nodup := inv.preserve_nodup hs

/-- A step moves the abstract guard object or leaves it as it is. -/
theorem Inv.phase_step (inv : Inv initialized h s) (hs : step threaded s e = some s') :
    phase initialized e.guard (e :: h) = phase initialized e.guard h ∨
      Phase.Move e.thread (phase initialized e.guard h) (phase initialized e.guard (e :: h)) := by
  rw [phase_here]
  have ok := inv.guards e.guard
  rcases step_cases hs with ⟨hcall, hbegin⟩ | ⟨locked, pc, eff, m, hcall, hbody, -, -⟩
  · have hidle : s.pcAt e.guard e.thread = none := pcAt_of_call_none hcall
    rcases hbegin with ⟨hst, -⟩ | ⟨hmem, hst, -⟩ | ⟨-, hst, -⟩
    · exact .inl (by rw [hst]; rfl)
    · rw [hst, ok.running_of_idle hmem hidle]
      exact .inr .release
    · exact .inl (by rw [hst]; rfl)
  · have hpermit := ok.permits _ _ (pcAt_eq_some.mpr ⟨locked, hcall⟩)
    rcases hst : e.stmt <;> rw [hst] at hbody <;> try exact .inl rfl
    · cases pc <;> simp [body] at hbody
    · obtain rfl : pc = .claim := by
        cases pc <;> first | rfl | simp [body] at hbody
      rw [show phase initialized e.guard h = .available from hpermit]
      exact .inr .claim
    · obtain rfl : pc = .complete := by
        cases pc <;> first | rfl | simp [body] at hbody
      rw [show phase initialized e.guard h = .releasing e.thread from hpermit]
      exact .inr .complete
    · obtain rfl : pc = .abortPut := by
        cases pc <;> first | rfl | simp [body] at hbody
      rw [show phase initialized e.guard h = .running e.thread from hpermit]
      exact .inr .giveBack

/-! ## What the history says about the phase -/

/-- An abort of `g` has returned and no acquire has claimed `g` since. -/
def Reopened (g : Guard) : List (Event Thread Guard) → Prop
  | [] => False
  | e :: h =>
      if e.guard = g ∧ e.stmt = .returnAborted then True
      else if e.guard = g ∧ e.stmt = .claim then False
      else Reopened g h

/-- A done object was done from the start or has been completed by a release. -/
theorem completed_of_done {g : Guard} (hd : phase initialized g h = .done) :
    initialized g = true ∨ ∃ t, ⟨t, g, .complete⟩ ∈ h := by
  induction h with
  | nil =>
      by_cases hg : initialized g = true
      · exact .inl hg
      · simp [phase, hg] at hd
  | cons e h ih =>
      by_cases hg : e.guard = g
      · by_cases hst : e.stmt = .complete
        · right
          refine ⟨e.thread, ?_⟩
          rw [← hg, ← hst]
          exact List.mem_cons_self
        · have hold : phase initialized g h = .done := by
            subst hg
            rw [phase_here] at hd
            cases h' : e.stmt <;> simp_all [Phase.next]
          rcases ih hold with hi | ⟨t, ht⟩
          · exact .inl hi
          · exact .inr ⟨t, List.mem_cons_of_mem _ ht⟩
      · rw [phase_other hg] at hd
        rcases ih hd with hi | ⟨t, ht⟩
        · exact .inl hi
        · exact .inr ⟨t, List.mem_cons_of_mem _ ht⟩

/-- The invariant with what the history decides. -/
structure HistoryInv (initialized : Guard → Bool) (h : List (Event Thread Guard))
    (s : State Thread Guard) : Prop where
  inv : Inv initialized h s
  /-- Once a release has begun the object is never available again. -/
  closed : ∀ g, (initialized g = true ∨ ∃ t, ⟨t, g, .release⟩ ∈ h) →
    phase initialized g h = .done ∨ ∃ t, phase initialized g h = .releasing t
  reopened : ∀ g, Reopened g h → phase initialized g h = .available

theorem HistoryInv.initial (h0 : init initialized s) : HistoryInv initialized [] s where
  inv := .initial h0
  closed := by
    rintro g (hg | ⟨t, ht⟩)
    · simp [phase, hg]
    · cases ht
  reopened := fun g hr => hr.elim

theorem HistoryInv.preserve (hi : HistoryInv initialized h s)
    (hs : step threaded s e = some s') : HistoryInv initialized (e :: h) s' where
  inv := hi.inv.preserve hs
  closed := by
    intro g hg
    by_cases he : e.guard = g
    · subst he
      by_cases hst : e.stmt = .release
      · rw [phase_here, hst]
        exact .inr ⟨e.thread, rfl⟩
      · have hold : initialized e.guard = true ∨ ∃ t, ⟨t, e.guard, .release⟩ ∈ h := by
          rcases hg with hg | ⟨t, ht⟩
          · exact .inl hg
          · rcases List.mem_cons.mp ht with heq | ht
            · exact absurd (congrArg Event.stmt heq).symm hst
            · exact .inr ⟨t, ht⟩
        have hclosed := hi.closed _ hold
        rcases hi.inv.phase_step hs with heq | hm
        · rwa [heq]
        · generalize phase initialized e.guard h = p at *
          generalize phase initialized e.guard (e :: h) = p' at *
          cases hm <;> simp_all
    · rw [phase_other he]
      refine hi.closed g ?_
      rcases hg with hg | ⟨t, ht⟩
      · exact .inl hg
      · rcases List.mem_cons.mp ht with rfl | ht
        · exact absurd rfl he
        · exact .inr ⟨t, ht⟩
  reopened := by
    intro g hr
    by_cases he : e.guard = g
    · subst he
      by_cases hst : e.stmt = .returnAborted
      · rw [phase_here, hst]
        rfl
      · by_cases hcl : e.stmt = .claim
        · simp [Reopened, hst, hcl] at hr
        · simp only [Reopened, hst, hcl, and_false, if_false] at hr
          have hold := hi.reopened _ hr
          rcases hi.inv.phase_step hs with heq | hm
          · rwa [heq]
          · rw [phase_here, hold] at hm
            cases h' : e.stmt <;> simp_all [Phase.next] <;> cases hm
    · simp only [Reopened, he, false_and, if_false] at hr
      rw [phase_other he]
      exact hi.reopened g hr

theorem historyInv_of_run (hrun : Run (step threaded) anyStep (init initialized) h s) :
    HistoryInv initialized h s :=
  Run.history_invariant (fun _ h0 => HistoryInv.initial h0)
    (fun _ _ _ _ hi _ hs => hi.preserve hs) hrun

/-! ## Progress -/

/-- By the statements of its call on `g` alone, `t` brings about `P`. -/
def Brings (s : State Thread Guard) (t : Thread) (g : Guard) (P : State Thread Guard → Prop) :
    Prop :=
  ∃ ls s', replay (step threaded) s ls = some s' ∧
    (∀ e ∈ ls, e.thread = t ∧ e.guard = g ∧ e.stmt.begins = false) ∧
    (∀ u, u ≠ t → s'.call u = s.call u) ∧ P s'

theorem step_perform {t : Thread} {g : Guard} {locked : Bool} {pc : Pc} {stmt : Stmt}
    {eff : Effect Guard} {m : Mutex Thread} (hcall : s.call t = some ⟨g, locked, pc⟩)
    (hbody : body (some true) (s.bytes g) ⟨g, locked, pc⟩ pc stmt = some eff)
    (hlock : eff.lock.apply locked t s.cxxGuardMutex = some m) :
    step threaded s ⟨t, g, stmt⟩ = some (s.perform ⟨t, g, stmt⟩ m eff) := by
  simp [step, hcall, threaded, hbody, hlock]

theorem Brings.refl {t : Thread} {g : Guard} {P : State Thread Guard → Prop} (hP : P s) :
    Brings s t g P :=
  ⟨[], s, rfl, fun _ he => (nomatch he), fun _ _ => rfl, hP⟩

/-- One statement, and then the rest from a state of which only the call's new
    place, the mutex, the guard's bytes and the list of initializers matter. -/
theorem Brings.step (stmt : Stmt) {t : Thread} {g : Guard} {locked : Bool} {pc : Pc}
    {lock : Lock} {b : GuardBytes} {next : Option (Call Guard)} {m : Mutex Thread}
    {P : State Thread Guard → Prop} (hcall : s.call t = some ⟨g, locked, pc⟩)
    (hbody : body (some true) (s.bytes g) ⟨g, locked, pc⟩ pc stmt = some ⟨lock, b, next⟩)
    (hlock : lock.apply locked t s.cxxGuardMutex = some m) (hbegins : stmt.begins = false)
    (hrest : ∀ s₁ : State Thread Guard, s₁.call t = next → s₁.cxxGuardMutex = m →
      s₁.bytes g = b → s₁.initializing t = stmt.turns g (s.initializing t) →
      Brings s₁ t g P) : Brings s t g P := by
  have hstep := step_perform hcall hbody hlock
  obtain ⟨ls, s', hls, hown, hcalls, hP⟩ := hrest (s.perform ⟨t, g, stmt⟩ m ⟨lock, b, next⟩)
    (Function.update_self _ _ _) rfl (Function.update_self _ _ _) (Function.update_self _ _ _)
  refine ⟨⟨t, g, stmt⟩ :: ls, s', ?_, ?_, ?_, hP⟩
  · simp only [replay, hstep, Option.bind_some]
    exact hls
  · intro e he
    rcases List.mem_cons.mp he with rfl | he
    · exact ⟨rfl, rfl, hbegins⟩
    · exact hown e he
  · intro u hu
    rw [hcalls u hu]
    exact Function.update_of_ne hu _ _

/-- The call of `t` on `g` has returned, or it is an acquire that has found the
    object's initializer running and sleeps; the mutex is free. -/
def Left (t : Thread) (g : Guard) (acquiring : Bool) (s : State Thread Guard) : Prop :=
  s.cxxGuardMutex = .free ∧
    (s.call t = none ∨
      acquiring = true ∧ s.call t = some ⟨g, true, .asleep⟩ ∧ (s.bytes g).inProgress ≠ 0)

/-- A statement that releases the mutex and returns. -/
theorem brings_left_put (stmt : Stmt) {t : Thread} {g : Guard} {pc : Pc} {acquiring : Bool}
    (hcall : s.call t = some ⟨g, true, pc⟩) (hm : s.cxxGuardMutex = .held t 0)
    (hbody : body (some true) (s.bytes g) ⟨g, true, pc⟩ pc stmt = some ⟨.put, s.bytes g, none⟩)
    (hbegins : stmt.begins = false) : Brings s t g (Left t g acquiring) := by
  refine Brings.step stmt (m := .free) hcall hbody ?_ hbegins ?_
  · simp [Lock.apply, hm]
  · exact fun s₁ h₁ hm₁ _ _ => .refl ⟨hm₁, .inl h₁⟩

/-- The owner of the mutex runs to the end of its critical section without
    waiting for anybody. -/
theorem brings_left_of_locked {t : Thread} {g : Guard} {pc : Pc}
    (hcall : s.call t = some ⟨g, true, pc⟩) (hm : s.cxxGuardMutex = .held t 0)
    (hpc : pc.locked = true) (hbusy : pc = .putBusy → (s.bytes g).inProgress ≠ 0) :
    Brings s t g (Left t g pc.acquiring) := by
  -- the critical sections of the three functions, each from its last statement back
  have hkeep : ∀ s₁ : State Thread Guard, s₁.cxxGuardMutex = .held t 0 →
      Lock.keep.apply true t s₁.cxxGuardMutex = some (.held t 0) := by
    intro s₁ h₁
    rw [h₁]
    rfl
  have hclaim : ∀ s₁ : State Thread Guard, s₁.call t = some ⟨g, true, .claim⟩ →
      s₁.cxxGuardMutex = .held t 0 → Brings s₁ t g (Left t g true) := by
    intro s₁ h₁ hm₁
    refine Brings.step .claim h₁ rfl (hkeep _ hm₁) rfl ?_
    exact fun s₂ h₂ hm₂ _ _ => brings_left_put .returnOne h₂ hm₂ rfl rfl
  have hputBusy : ∀ s₁ : State Thread Guard, s₁.call t = some ⟨g, true, .putBusy⟩ →
      s₁.cxxGuardMutex = .held t 0 → (s₁.bytes g).inProgress ≠ 0 →
      Brings s₁ t g (Left t g true) := by
    intro s₁ h₁ hm₁ hb₁
    refine Brings.step .backOff (m := .free) h₁ rfl ?_ rfl ?_
    · simp [Lock.apply, hm₁]
    · intro s₂ h₂ hm₂ hb₂ _
      refine .refl ⟨hm₂, .inr ⟨rfl, h₂, ?_⟩⟩
      rwa [hb₂]
  have htestInProgress : ∀ s₁ : State Thread Guard,
      s₁.call t = some ⟨g, true, .testInProgress⟩ → s₁.cxxGuardMutex = .held t 0 →
      Brings s₁ t g (Left t g true) := by
    intro s₁ h₁ hm₁
    by_cases hb : (s₁.bytes g).inProgress = 0
    · refine Brings.step .loadInProgress h₁ (by simp only [body, hb, if_true]; rfl)
        (hkeep _ hm₁) rfl ?_
      exact fun s₂ h₂ hm₂ _ _ => hclaim s₂ h₂ hm₂
    · refine Brings.step .loadInProgress h₁ (by simp only [body, hb, if_false]; rfl)
        (hkeep _ hm₁) rfl ?_
      intro s₂ h₂ hm₂ hb₂ _
      exact hputBusy s₂ h₂ hm₂ (by rwa [hb₂])
  have hcomplete : ∀ s₁ : State Thread Guard, s₁.call t = some ⟨g, true, .complete⟩ →
      s₁.cxxGuardMutex = .held t 0 → Brings s₁ t g (Left t g false) := by
    intro s₁ h₁ hm₁
    refine Brings.step .complete h₁ rfl (hkeep _ hm₁) rfl ?_
    exact fun s₂ h₂ hm₂ _ _ => brings_left_put .returnReleased h₂ hm₂ rfl rfl
  cases pc with
  | testInitialized =>
      by_cases hb : (s.bytes g).initialized = 0
      · refine Brings.step .loadInitialized hcall
          (by simp only [body, hb, ne_eq, not_true_eq_false, if_false]; rfl) (hkeep _ hm) rfl ?_
        exact fun s₂ h₂ hm₂ _ _ => htestInProgress s₂ h₂ hm₂
      · refine Brings.step .loadInitialized hcall
          (by simp only [body, hb, ne_eq, not_false_eq_true, if_true]; rfl) (hkeep _ hm) rfl ?_
        exact fun s₂ h₂ hm₂ _ _ => brings_left_put .returnZero h₂ hm₂ rfl rfl
  | putDone => exact brings_left_put .returnZero hcall hm rfl rfl
  | testInProgress => exact htestInProgress s hcall hm
  | claim => exact hclaim s hcall hm
  | putClaimed => exact brings_left_put .returnOne hcall hm rfl rfl
  | putBusy => exact hputBusy s hcall hm (hbusy rfl)
  | clear =>
      refine Brings.step .clear hcall rfl (hkeep _ hm) rfl ?_
      exact fun s₂ h₂ hm₂ _ _ => hcomplete s₂ h₂ hm₂
  | complete => exact hcomplete s hcall hm
  | releasePut => exact brings_left_put .returnReleased hcall hm rfl rfl
  | reopen =>
      refine Brings.step .reopen hcall rfl (hkeep _ hm) rfl ?_
      exact fun s₂ h₂ hm₂ _ _ => brings_left_put .returnAborted h₂ hm₂ rfl rfl
  | abortPut => exact brings_left_put .returnAborted hcall hm rfl rfl
  | _ => cases hpc

/-- A thread that knows the object to be in progress, under the mutex, reads it so. -/
theorem Inv.inProgress_of_putBusy (inv : Inv initialized h s) {t : Thread} {g : Guard}
    {locked : Bool} (hcall : s.call t = some ⟨g, locked, .putBusy⟩) :
    (s.bytes g).inProgress ≠ 0 := by
  have ok := inv.guards g
  have hpermit := ok.permits t _ (pcAt_eq_some.mpr ⟨locked, hcall⟩)
  have hother : ∀ u pc, s.pcAt g u = some pc → pc.locked = true → pc = .putBusy := by
    intro u pc hu hlk
    obtain ⟨l, hu⟩ := pcAt_eq_some.mp hu
    obtain rfl := inv.locked_unique hcall hu rfl hlk
    rw [hcall] at hu
    cases hu
    rfl
  rw [ok.bytes]
  generalize phase initialized g h = p at *
  cases p with
  | available => exact absurd rfl hpermit.1
  | done => exact absurd rfl hpermit.2
  | running u =>
      have hne : s.pcAt g u ≠ some .abortPut := fun hu => nomatch hother u _ hu rfl
      simp [Phase.bytes, hne]
  | releasing u =>
      have hne : s.pcAt g u ≠ some .complete := fun hu => nomatch hother u _ hu rfl
      simp [Phase.bytes, hne]

/-- With the mutex free every call runs by itself to its return or, where the
    object's initializer is running, to the sleep of the acquire. -/
theorem Inv.brings_left_of_free (inv : Inv initialized h s) {t : Thread} {g : Guard}
    {locked : Bool} {pc : Pc} (hcall : s.call t = some ⟨g, locked, pc⟩)
    (hm : s.cxxGuardMutex = .free) : Brings s t g (Left t g pc.acquiring) := by
  have hlocks := inv.locks t
  rw [hcall] at hlocks
  obtain ⟨hl, hpc⟩ := hlocks
  rw [hm] at hpc
  have hget : ∀ (s₁ : State Thread Guard) (p q : Pc), s₁.call t = some ⟨g, true, p⟩ →
      s₁.cxxGuardMutex = .free → q.locked = true → q ≠ .putBusy →
      body (some true) (s₁.bytes g) ⟨g, true, p⟩ p .get =
        some ⟨.get, s₁.bytes g, some ⟨g, true, q⟩⟩ →
      Brings s₁ t g (Left t g q.acquiring) := by
    intro s₁ p q h₁ hm₁ hq hne hbody
    refine Brings.step .get (m := .held t 0) h₁ hbody ?_ rfl ?_
    · simp [Lock.apply, hm₁]
    · exact fun s₂ h₂ hm₂ _ _ => brings_left_of_locked h₂ hm₂ hq (fun he => absurd he hne)
  have hkeep : ∀ s₁ : State Thread Guard, s₁.cxxGuardMutex = .free → ∀ l : Bool,
      Lock.keep.apply l t s₁.cxxGuardMutex = some .free := by
    intro s₁ h₁ l
    rw [h₁]
    rfl
  have hentry : ∀ s₁ : State Thread Guard, s₁.call t = some ⟨g, true, .get⟩ →
      s₁.cxxGuardMutex = .free → Brings s₁ t g (Left t g true) :=
    fun s₁ h₁ hm₁ => hget s₁ .get .testInitialized h₁ hm₁ rfl (fun he => nomatch he) rfl
  have hfastDone : ∀ (s₁ : State Thread Guard) (l : Bool),
      s₁.call t = some ⟨g, l, .fastDone⟩ → s₁.cxxGuardMutex = .free →
      Brings s₁ t g (Left t g true) := by
    intro s₁ l h₁ hm₁
    refine Brings.step .returnZero h₁ rfl (hkeep _ hm₁ l) rfl ?_
    exact fun s₂ h₂ hm₂ _ _ => .refl ⟨hm₂, .inl h₂⟩
  cases pc with
  | fastPath =>
      by_cases hb : (s.bytes g).initialized = 0
      · refine Brings.step .fastLoad hcall
          (by simp only [body, hb, ne_eq, not_true_eq_false, if_false]; rfl)
          (hkeep _ hm _) rfl ?_
        exact fun s₂ h₂ hm₂ _ _ => hentry s₂ h₂ hm₂
      · refine Brings.step .fastLoad hcall
          (by simp only [body, hb, ne_eq, not_false_eq_true, if_true]; rfl) (hkeep _ hm _) rfl ?_
        exact fun s₂ h₂ hm₂ _ _ => hfastDone s₂ _ h₂ hm₂
  | fastDone => exact hfastDone s locked hcall hm
  | get =>
      obtain rfl : locked = true := by simpa using hl
      exact hentry s hcall hm
  | asleep =>
      obtain rfl : locked = true := by simpa using hl
      refine Brings.step .wake hcall rfl (hkeep _ hm _) rfl ?_
      exact fun s₂ h₂ hm₂ _ _ => hentry s₂ h₂ hm₂
  | releaseGet =>
      obtain rfl : locked = true := by simpa using hl
      exact hget s .releaseGet .clear hcall hm rfl (fun he => nomatch he) rfl
  | abortGet =>
      obtain rfl : locked = true := by simpa using hl
      exact hget s .abortGet .reopen hcall hm rfl (fun he => nomatch he) rfl
  | _ => simp [Pc.locked] at hpc

/-- The owner of the mutex in an acquire of an available object goes on to
    return 1. -/
theorem brings_turn_of_locked {t : Thread} {g : Guard} {pc : Pc}
    (hcall : s.call t = some ⟨g, true, pc⟩) (hm : s.cxxGuardMutex = .held t 0)
    (hb : s.bytes g = ⟨0, 0⟩)
    (hpc : pc = .testInitialized ∨ pc = .testInProgress ∨ pc = .claim) :
    Brings s t g fun s' => g ∈ s'.initializing t := by
  have hkeep : ∀ s₁ : State Thread Guard, s₁.cxxGuardMutex = .held t 0 →
      Lock.keep.apply true t s₁.cxxGuardMutex = some (.held t 0) := by
    intro s₁ h₁
    rw [h₁]
    rfl
  have hclaim : ∀ s₁ : State Thread Guard, s₁.call t = some ⟨g, true, .claim⟩ →
      s₁.cxxGuardMutex = .held t 0 → Brings s₁ t g fun s' => g ∈ s'.initializing t := by
    intro s₁ h₁ hm₁
    refine Brings.step .claim h₁ rfl (hkeep _ hm₁) rfl ?_
    intro s₂ h₂ hm₂ _ _
    refine Brings.step .returnOne (m := .free) h₂ rfl ?_ rfl ?_
    · simp [Lock.apply, hm₂]
    · intro s₃ _ _ _ hi
      refine .refl ?_
      rw [hi]
      exact List.mem_cons_self
  have htest : ∀ s₁ : State Thread Guard, s₁.call t = some ⟨g, true, .testInProgress⟩ →
      s₁.cxxGuardMutex = .held t 0 → s₁.bytes g = ⟨0, 0⟩ →
      Brings s₁ t g fun s' => g ∈ s'.initializing t := by
    intro s₁ h₁ hm₁ hb₁
    refine Brings.step .loadInProgress h₁ (by simp only [body, hb₁, if_true]; rfl)
      (hkeep _ hm₁) rfl ?_
    exact fun s₂ h₂ hm₂ _ _ => hclaim s₂ h₂ hm₂
  rcases hpc with rfl | rfl | rfl
  · refine Brings.step .loadInitialized hcall
      (by simp only [body, hb, ne_eq, not_true_eq_false, if_false]; rfl) (hkeep _ hm) rfl ?_
    exact fun s₂ h₂ hm₂ hb₂ _ => htest s₂ h₂ hm₂ hb₂
  · exact htest s hcall hm hb
  · exact hclaim s hcall hm

/-- With the mutex free and the object available, an acquire runs by itself to
    its return of 1. -/
theorem Inv.brings_turn_of_free (inv : Inv initialized h s) {t : Thread} {g : Guard}
    {locked : Bool} {pc : Pc} (hcall : s.call t = some ⟨g, locked, pc⟩)
    (hm : s.cxxGuardMutex = .free) (hpc : pc.acquiring = true)
    (hav : phase initialized g h = .available) :
    Brings s t g fun s' => g ∈ s'.initializing t := by
  have ok := inv.guards g
  have hb : s.bytes g = ⟨0, 0⟩ := by rw [ok.bytes, hav]; rfl
  have hpermit := ok.permits t pc (pcAt_eq_some.mpr ⟨locked, hcall⟩)
  rw [hav] at hpermit
  have hlocks := inv.locks t
  rw [hcall] at hlocks
  obtain ⟨hl, hheld⟩ := hlocks
  rw [hm] at hheld
  have hget : ∀ s₁ : State Thread Guard, s₁.call t = some ⟨g, true, .get⟩ →
      s₁.cxxGuardMutex = .free → s₁.bytes g = ⟨0, 0⟩ →
      Brings s₁ t g fun s' => g ∈ s'.initializing t := by
    intro s₁ h₁ hm₁ hb₁
    refine Brings.step .get (m := .held t 0) h₁ rfl ?_ rfl ?_
    · simp [Lock.apply, hm₁]
    · intro s₂ h₂ hm₂ hb₂ _
      exact brings_turn_of_locked h₂ hm₂ (hb₂.trans hb₁) (.inl rfl)
  cases pc with
  | fastPath =>
      refine Brings.step .fastLoad (m := .free) hcall
        (by simp only [body, hb, ne_eq, not_true_eq_false, if_false]; rfl) (by rw [hm]; rfl) rfl ?_
      exact fun s₂ h₂ hm₂ hb₂ _ => hget s₂ h₂ hm₂ hb₂
  | get =>
      obtain rfl : locked = true := by simpa using hl
      exact hget s hcall hm hb
  | asleep =>
      obtain rfl : locked = true := by simpa using hl
      refine Brings.step .wake (m := .free) hcall rfl (by rw [hm]; rfl) rfl ?_
      exact fun s₂ h₂ hm₂ hb₂ _ => hget s₂ h₂ hm₂ (hb₂.trans hb)
  | fastDone => cases hpermit
  | releaseGet => cases hpc
  | abortGet => cases hpc
  | _ => simp [Pc.locked] at hheld

/-! ## What the guards guarantee -/

/-- The guarantees of the guard functions at the end of a run with history `h`. -/
structure Guarantee (initialized : Guard → Bool) (h : List (Event Thread Guard))
    (s : State Thread Guard) : Prop where
  /-- One thread at a time initializes an object, in one turn. -/
  exclusive : ∀ t u g, g ∈ s.initializing t → g ∈ s.initializing u → t = u
  exclusive_turn : ∀ t, (s.initializing t).Nodup
  /-- An acquire returns 0 only after a release has stored the completion. -/
  zero_after_release : ∀ t g s', step threaded s ⟨t, g, .returnZero⟩ = some s' →
    initialized g = true ∨ ∃ u, ⟨u, g, .complete⟩ ∈ h
  /-- No acquire returns 1 once a release has been called. -/
  no_one_after_release : ∀ t g s', step threaded s ⟨t, g, .returnOne⟩ = some s' →
    initialized g = false ∧ ∀ u, ⟨u, g, .release⟩ ∉ h
  /-- After an abort any acquire, waiting or yet to come, can return 1 as soon
      as the owner of the mutex has let go of it; or that owner is itself in an
      acquire of the object that can. -/
  reopens : ∀ t g, Reopened g h →
    (s.call t = none ∨ ∃ locked pc, s.call t = some ⟨g, locked, pc⟩ ∧ pc.acquiring = true) →
    ∃ ls s' u, replay (step threaded) s ls = some s' ∧ g ∈ s'.initializing u ∧
      (∀ e ∈ ls, e.thread = t ∨ s.cxxGuardMutex.owner = some e.thread) ∧
      (u = t ∨ s.cxxGuardMutex.owner = some u ∧
        ∃ locked pc, s.call u = some ⟨g, locked, pc⟩ ∧ pc.acquiring = true)
  /-- No lock is held outside the three functions, so none while an
      initializer runs. -/
  unlocked : ∀ t, s.call t = none → s.cxxGuardMutex.owner ≠ some t
  /-- Every call in progress can be brought to its return by its own statements
      and those that the owner of the mutex has left in its critical section,
      without any initializer going on; only an acquire of an object that is
      being initialized waits, in its sleep, for that object's initializer. -/
  completes : ∀ t g locked pc, s.call t = some ⟨g, locked, pc⟩ →
    ∃ ls s', replay (step threaded) s ls = some s' ∧
      (∀ e ∈ ls, (e.thread = t ∨ s.cxxGuardMutex.owner = some e.thread) ∧
        e.stmt.begins = false) ∧
      s'.cxxGuardMutex = .free ∧
      (s'.call t = none ∨ pc.acquiring = true ∧ s'.call t = some ⟨g, true, .asleep⟩ ∧
        ∃ u, g ∈ s'.initializing u)

/-- With the mutex free, an object that reads as in progress has a thread that
    initializes it. -/
theorem Inv.initializer_of_inProgress (inv : Inv initialized h s) {g : Guard}
    (hm : s.cxxGuardMutex = .free) (hb : (s.bytes g).inProgress ≠ 0) :
    ∃ u, g ∈ s.initializing u := by
  have ok := inv.guards g
  rw [ok.bytes] at hb
  have hholds := ok.holds
  generalize phase initialized g h = p at *
  cases p with
  | available => exact absurd rfl hb
  | done => exact absurd rfl hb
  | running u =>
      refine ⟨u, (hholds u).mpr ⟨rfl, ?_⟩⟩
      intro hpc
      obtain ⟨l, hcall⟩ := pcAt_eq_some.mp hpc
      have hlocks := inv.locks u
      rw [hcall] at hlocks
      rw [hm] at hlocks
      exact nomatch hlocks.2
  | releasing u => exact ⟨u, (hholds u).mpr rfl⟩

/-- The owner of the mutex is at a statement of one of the three functions. -/
theorem Inv.call_of_owner (inv : Inv initialized h s) {u : Thread}
    (hu : s.cxxGuardMutex.owner = some u) :
    s.cxxGuardMutex = .held u 0 ∧
      ∃ g pc, s.call u = some ⟨g, true, pc⟩ ∧ pc.locked = true := by
  have hlocks := inv.locks u
  rcases hcall : s.call u with - | ⟨g, locked, pc⟩
  · rw [hcall] at hlocks
    exact absurd hu hlocks
  · rw [hcall] at hlocks
    obtain ⟨hl, hheld⟩ := hlocks
    split at hheld
    · rename_i hlk
      refine ⟨hheld, g, pc, ?_, hlk⟩
      rcases hl with hl | hl | hl
      · simp only at hl
        subst hl
        cases hlk
      · simp only at hl
        subst hl
        cases hlk
      · simp only at hl
        rw [hl]
    · exact absurd hu hheld

theorem HistoryInv.replay (hi : HistoryInv initialized h s)
    {ls : List (Event Thread Guard)} (hls : replay (step threaded) s ls = some s') :
    HistoryInv initialized (ls.reverse ++ h) s' :=
  replay_history_invariant (fun _ _ _ _ hi hs => HistoryInv.preserve hi hs) hi hls

/-- The owner of the mutex leaves its critical section, and every other call
    stays where it is. -/
theorem HistoryInv.owner_leaves (hi : HistoryInv initialized h s) {u : Thread}
    (hu : s.cxxGuardMutex.owner = some u) :
    ∃ g pc, s.call u = some ⟨g, true, pc⟩ ∧ pc.locked = true ∧
      Brings s u g (Left u g pc.acquiring) := by
  obtain ⟨hm, g, pc, hcall, hlk⟩ := hi.inv.call_of_owner hu
  refine ⟨g, pc, hcall, hlk, brings_left_of_locked hcall hm hlk ?_⟩
  rintro rfl
  exact hi.inv.inProgress_of_putBusy hcall

theorem HistoryInv.completes (hi : HistoryInv initialized h s) {t : Thread} {g : Guard}
    {locked : Bool} {pc : Pc} (hcall : s.call t = some ⟨g, locked, pc⟩) :
    ∃ ls s', Lib.replay (step threaded) s ls = some s' ∧
      (∀ e ∈ ls, (e.thread = t ∨ s.cxxGuardMutex.owner = some e.thread) ∧
        e.stmt.begins = false) ∧
      s'.cxxGuardMutex = .free ∧
      (s'.call t = none ∨ pc.acquiring = true ∧ s'.call t = some ⟨g, true, .asleep⟩ ∧
        ∃ u, g ∈ s'.initializing u) := by
  -- where the call is left asleep, its object has an initializer
  have hfinish : ∀ ls s', Lib.replay (step threaded) s ls = some s' →
      (∀ e ∈ ls, (e.thread = t ∨ s.cxxGuardMutex.owner = some e.thread) ∧
        e.stmt.begins = false) → Left t g pc.acquiring s' →
      ∃ ls s', Lib.replay (step threaded) s ls = some s' ∧
        (∀ e ∈ ls, (e.thread = t ∨ s.cxxGuardMutex.owner = some e.thread) ∧
          e.stmt.begins = false) ∧
        s'.cxxGuardMutex = .free ∧
        (s'.call t = none ∨ pc.acquiring = true ∧ s'.call t = some ⟨g, true, .asleep⟩ ∧
          ∃ u, g ∈ s'.initializing u) := by
    intro ls s' hls hown hleft
    refine ⟨ls, s', hls, hown, hleft.1, ?_⟩
    rcases hleft.2 with hnone | ⟨hacq, hasleep, hb⟩
    · exact .inl hnone
    · exact .inr ⟨hacq, hasleep, (hi.replay hls).inv.initializer_of_inProgress hleft.1 hb⟩
  rcases howner : s.cxxGuardMutex.owner with - | u
  · have hm : s.cxxGuardMutex = .free := by
      cases hcases : s.cxxGuardMutex with
      | free => rfl
      | held v n =>
          rw [hcases] at howner
          cases howner
    obtain ⟨ls, s', hls, hown, -, hleft⟩ := hi.inv.brings_left_of_free hcall hm
    rw [← howner]
    exact hfinish ls s' hls (fun e he => ⟨.inl (hown e he).1, (hown e he).2.2⟩) hleft
  · obtain ⟨g', pc', hcall', hlk, ls, s₁, hls, hown, hsame, hleft⟩ := hi.owner_leaves howner
    have hown' : ∀ e ∈ ls, (e.thread = t ∨ s.cxxGuardMutex.owner = some e.thread) ∧
        e.stmt.begins = false :=
      fun e he => ⟨.inr ((hown e he).1 ▸ howner), (hown e he).2.2⟩
    rw [← howner]
    rcases eq_or_ne t u with rfl | hne
    · rw [hcall] at hcall'
      cases hcall'
      exact hfinish ls s₁ hls hown' hleft
    · have hcall₁ : s₁.call t = some ⟨g, locked, pc⟩ := (hsame t hne).trans hcall
      obtain ⟨ls', s', hls', hown₁, -, hleft'⟩ :=
        (hi.replay hls).inv.brings_left_of_free hcall₁ hleft.1
      refine hfinish (ls ++ ls') s' (replay_append hls hls') ?_ hleft'
      intro e he
      rcases List.mem_append.mp he with he | he
      · exact hown' e he
      · exact ⟨.inl (hown₁ e he).1, (hown₁ e he).2.2⟩

theorem Reopened.append {g : Guard} {ls : List (Event Thread Guard)} (hr : Reopened g h)
    (hls : ∀ e ∈ ls, e.guard ≠ g) : Reopened g (ls ++ h) := by
  induction ls with
  | nil => exact hr
  | cons e ls ih =>
      have he : e.guard ≠ g := hls e List.mem_cons_self
      simp only [List.cons_append, Reopened, he, false_and, if_false]
      exact ih fun e' he' => hls e' (List.mem_cons_of_mem _ he')

/-- With the mutex free, any acquire of a reopened object returns 1 by itself. -/
theorem HistoryInv.reopens_of_free (hi : HistoryInv initialized h s) {t : Thread} {g : Guard}
    (hr : Reopened g h) (hm : s.cxxGuardMutex = .free)
    (hwait : s.call t = none ∨
      ∃ locked pc, s.call t = some ⟨g, locked, pc⟩ ∧ pc.acquiring = true) :
    ∃ ls s', Lib.replay (step threaded) s ls = some s' ∧ g ∈ s'.initializing t ∧
      ∀ e ∈ ls, e.thread = t := by
  have hav := hi.reopened g hr
  rcases hwait with hidle | ⟨locked, pc, hcall, hacq⟩
  · have hs : step threaded s ⟨t, g, .acquire⟩ =
        some (s.beginCall t ⟨g, false, .fastPath⟩) := by
      simp [step, hidle]
    have hcall : (s.beginCall t ⟨g, false, .fastPath⟩).call t =
        some (⟨g, false, .fastPath⟩ : Call Guard) := Function.update_self _ _ _
    have hav' : phase initialized g (⟨t, g, .acquire⟩ :: h) = .available := by
      rw [phase_here (e := ⟨t, g, .acquire⟩), hav]
      rfl
    obtain ⟨ls, s', hls, hown, -, hturn⟩ :=
      (hi.inv.preserve hs).brings_turn_of_free hcall hm rfl hav'
    refine ⟨⟨t, g, .acquire⟩ :: ls, s', ?_, hturn, ?_⟩
    · simp only [Lib.replay, hs, Option.bind_some]
      exact hls
    · intro e he
      rcases List.mem_cons.mp he with rfl | he
      · rfl
      · exact (hown e he).1
  · obtain ⟨ls, s', hls, hown, -, hturn⟩ := hi.inv.brings_turn_of_free hcall hm hacq hav
    exact ⟨ls, s', hls, hturn, fun e he => (hown e he).1⟩

theorem HistoryInv.reopens (hi : HistoryInv initialized h s) {t : Thread} {g : Guard}
    (hr : Reopened g h)
    (hwait : s.call t = none ∨
      ∃ locked pc, s.call t = some ⟨g, locked, pc⟩ ∧ pc.acquiring = true) :
    ∃ ls s' u, Lib.replay (step threaded) s ls = some s' ∧ g ∈ s'.initializing u ∧
      (∀ e ∈ ls, e.thread = t ∨ s.cxxGuardMutex.owner = some e.thread) ∧
      (u = t ∨ s.cxxGuardMutex.owner = some u ∧
        ∃ locked pc, s.call u = some ⟨g, locked, pc⟩ ∧ pc.acquiring = true) := by
  have hav := hi.reopened g hr
  rcases howner : s.cxxGuardMutex.owner with - | u
  · have hm : s.cxxGuardMutex = .free := by
      cases hcases : s.cxxGuardMutex with
      | free => rfl
      | held v n =>
          rw [hcases] at howner
          cases howner
    obtain ⟨ls, s', hls, hturn, hown⟩ := hi.reopens_of_free hr hm hwait
    exact ⟨ls, s', t, hls, hturn, fun e he => .inl (hown e he), .inl rfl⟩
  · obtain ⟨g', pc', hcall', hlk, ls, s₁, hls, hown, hsame, hleft⟩ := hi.owner_leaves howner
    by_cases hg : g' = g
    · -- the owner is in an acquire of the same object, before its claim
      subst hg
      have ok := hi.inv.guards g'
      have hpermit := ok.permits u pc' (pcAt_eq_some.mpr ⟨true, hcall'⟩)
      rw [hav] at hpermit
      have hpc : pc' = .testInitialized ∨ pc' = .testInProgress ∨ pc' = .claim := by
        cases pc' <;> simp_all [Phase.Permits, Pc.locked]
      have hb : s.bytes g' = ⟨0, 0⟩ := by rw [ok.bytes, hav]; rfl
      have hacq : pc'.acquiring = true := by
        rcases hpc with rfl | rfl | rfl <;> rfl
      obtain ⟨ls', s', hls', hown', -, hturn⟩ :=
        brings_turn_of_locked hcall' (hi.inv.call_of_owner howner).1 hb hpc
      exact ⟨ls', s', u, hls', hturn, fun e he => .inr (by rw [(hown' e he).1]),
        .inr ⟨rfl, true, pc', hcall', hacq⟩⟩
    · have hne : t ≠ u := by
        rintro rfl
        rcases hwait with hidle | ⟨locked, pc, hcall, -⟩
        · rw [hidle] at hcall'
          cases hcall'
        · rw [hcall] at hcall'
          cases hcall'
          exact hg rfl
      have hr₁ : Reopened g (ls.reverse ++ h) := by
        refine hr.append fun e he => ?_
        rw [(hown e (List.mem_reverse.mp he)).2.1]
        exact hg
      have hwait₁ : s₁.call t = none ∨
          ∃ locked pc, s₁.call t = some ⟨g, locked, pc⟩ ∧ pc.acquiring = true := by
        rwa [hsame t hne]
      obtain ⟨ls', s', hls', hturn, hown'⟩ :=
        (hi.replay hls).reopens_of_free hr₁ hleft.1 hwait₁
      refine ⟨ls ++ ls', s', t, replay_append hls hls', hturn, ?_, .inl rfl⟩
      intro e he
      rcases List.mem_append.mp he with he | he
      · exact .inr (by rw [(hown e he).1])
      · exact .inl (hown' e he)

/-- Two threads cannot both be initializing one object. -/
theorem Inv.exclusive (inv : Inv initialized h s) {t u : Thread} {g : Guard}
    (ht : g ∈ s.initializing t) (hu : g ∈ s.initializing u) : t = u := by
  have ok := inv.guards g
  have h1 := (ok.holds t).mp ht
  have h2 := (ok.holds u).mp hu
  generalize phase initialized g h = p at *
  cases p with
  | available => cases h1
  | running v => rw [← h1.1, ← h2.1]
  | releasing v => exact h1.symm.trans h2
  | done =>
      obtain ⟨l, h1⟩ := pcAt_eq_some.mp h1
      obtain ⟨l', h2⟩ := pcAt_eq_some.mp h2
      exact inv.locked_unique h1 h2 rfl rfl

/-- A statement of a body is performed by a thread in a call on its object. -/
theorem call_of_step {t : Thread} {g : Guard} {stmt : Stmt} (hb : stmt.begins = false)
    (hs : step threaded s ⟨t, g, stmt⟩ = some s') :
    ∃ locked pc eff, s.call t = some ⟨g, locked, pc⟩ ∧
      body (some true) (s.bytes g) ⟨g, locked, pc⟩ pc stmt = some eff := by
  rcases step_cases hs with ⟨-, hbegin⟩ | ⟨locked, pc, eff, m, hcall, hbody, -⟩
  · rcases hbegin with ⟨rfl, -⟩ | ⟨-, rfl, -⟩ | ⟨-, rfl, -⟩ <;> cases hb
  · exact ⟨locked, pc, eff, hcall, hbody⟩

theorem guard_guarantee (hrun : Run (step threaded) anyStep (init initialized) h s) :
    Guarantee initialized h s := by
  have hi := historyInv_of_run hrun
  refine ⟨fun t u g => hi.inv.exclusive, hi.inv.nodup, fun t g s' hs => ?_,
    fun t g s' hs => ?_, fun t g hr hwait => hi.reopens hr hwait, fun t hidle => ?_,
    fun t g locked pc hcall => hi.completes hcall⟩
  · obtain ⟨locked, pc, eff, hcall, hbody⟩ := call_of_step rfl hs
    have hpermit := (hi.inv.guards g).permits t pc (pcAt_eq_some.mpr ⟨locked, hcall⟩)
    have hpc : pc = .fastDone ∨ pc = .putDone := by
      cases pc <;> first | exact .inl rfl | exact .inr rfl | simp [body] at hbody
    have hd : phase initialized g h = .done := by
      rcases hpc with rfl | rfl <;> exact hpermit
    exact completed_of_done hd
  · obtain ⟨locked, pc, eff, hcall, hbody⟩ := call_of_step rfl hs
    obtain rfl := body_returnOne hbody
    have hrun : phase initialized g h = .running t :=
      (hi.inv.guards g).permits t _ (pcAt_eq_some.mpr ⟨locked, hcall⟩)
    have hopen : ¬ (initialized g = true ∨ ∃ u, ⟨u, g, .release⟩ ∈ h) := by
      intro hc
      rcases hi.closed g hc with hd | ⟨u, hu⟩
      · rw [hrun] at hd
        cases hd
      · rw [hrun] at hu
        cases hu
    rw [not_or] at hopen
    exact ⟨by simpa using hopen.1, fun u hu => hopen.2 ⟨u, hu⟩⟩
  · have hlocks := hi.inv.locks t
    rwa [hidle] at hlocks

/-- Thread 0 initializes object 7 and, inside its initializer, object 8, while
    thread 1 waits for 7; 7's initializer throws, and thread 1 takes over. -/
def nestedRun : List (Event Nat Nat) :=
  [⟨0, 7, .acquire⟩, ⟨0, 7, .fastLoad⟩, ⟨0, 7, .get⟩, ⟨0, 7, .loadInitialized⟩,
   ⟨0, 7, .loadInProgress⟩, ⟨0, 7, .claim⟩, ⟨0, 7, .returnOne⟩,
   ⟨1, 7, .acquire⟩, ⟨1, 7, .fastLoad⟩, ⟨1, 7, .get⟩, ⟨1, 7, .loadInitialized⟩,
   ⟨1, 7, .loadInProgress⟩, ⟨1, 7, .backOff⟩,
   ⟨0, 8, .acquire⟩, ⟨0, 8, .fastLoad⟩, ⟨0, 8, .get⟩, ⟨0, 8, .loadInitialized⟩,
   ⟨0, 8, .loadInProgress⟩, ⟨0, 8, .claim⟩, ⟨0, 8, .returnOne⟩,
   ⟨0, 8, .release⟩, ⟨0, 8, .get⟩, ⟨0, 8, .clear⟩, ⟨0, 8, .complete⟩, ⟨0, 8, .returnReleased⟩,
   ⟨0, 7, .abort⟩, ⟨0, 7, .get⟩, ⟨0, 7, .reopen⟩, ⟨0, 7, .returnAborted⟩,
   ⟨1, 7, .wake⟩, ⟨1, 7, .get⟩, ⟨1, 7, .loadInitialized⟩, ⟨1, 7, .loadInProgress⟩,
   ⟨1, 7, .claim⟩, ⟨1, 7, .returnOne⟩]

/-- The runtime has just become active; nothing is initialized. -/
def idle : State Nat Nat := ⟨.free, fun _ => ⟨0, 0⟩, fun _ => none, fun _ => []⟩

theorem guard_guarantee_nestedRun :
    ∃ hrun : (replay (step threaded) idle nestedRun).isSome = true,
      7 ∈ ((replay (step threaded) idle nestedRun).get hrun).initializing 1 ∧
      Guarantee (fun _ => false) nestedRun.reverse
        ((replay (step threaded) idle nestedRun).get hrun) :=
  ⟨rfl, List.mem_cons_self, guard_guarantee (Run.of_replay_isSome
    ⟨rfl, fun _ => rfl, fun _ => rfl, fun _ => rfl⟩ rfl)⟩

end CxxGuard
end Backend
end NucleoBase
