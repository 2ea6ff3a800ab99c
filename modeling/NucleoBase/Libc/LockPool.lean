/-
  NucleoBase.Libc.LockPool

  The locks of Newlib (libc/libc.c): the pool that `__retarget_lock_init` takes
  its locks from and `__retarget_lock_close` gives them back to, and
  `runtime_libc_initialize`, which creates the mutexes of the locks made before
  the scheduler.

  Before the scheduler there is one thread of control, and afterwards the pool
  has a mutex of its own, so each call is one event.  `libc_lock_failure` does
  not return: the system is halted.
-/

import NucleoBase.Lib.Run
import Mathlib.Data.List.Nodup
import Mathlib.Data.List.Perm.Subperm
import Mathlib.Tactic.Common

namespace NucleoBase
namespace Libc
namespace LockPool

open Lib

/-! ## The model -/

/-- A `__lock_t*`: one of Newlib's own objects, or what `calloc` gave. -/
inductive Lock
  | static (i : Fin 8)
  | dynamic (a : Nat)
  deriving DecidableEq, Repr

/-- `__lock_t`, without its mutex and its link. -/
structure LockObject where
  created : Bool
  allocated : Bool
  dynamic : Bool
  deriving DecidableEq, Repr

inductive Mutex
  | lock (l : Lock)
  /-- `dynamic_pool_mutex`. -/
  | pool
  deriving DecidableEq, Repr

inductive Caller (Thread : Type*)
  | startup
  | interrupt
  | thread (t : Thread)
  deriving DecidableEq, Repr

structure State where
  locks : Lock → LockObject
  /-- The list from `dynamic_locks` on. -/
  dynamicLocks : List Lock
  /-- `libc_locks_ready`. -/
  ready : Bool
  halted : Bool
  -- bookkeeping
  mutexes : List Mutex      -- created so far
  opened : List Lock        -- given out by `__retarget_lock_init` and not closed since
  most : Nat                -- how many were open at once

inductive Event (Thread : Type*)
  | runtimeLibcInitialize
  /-- `__retarget_lock_init`, of a null pointer or not, and what `calloc` would give. -/
  | lockInit (caller : Caller Thread) (null : Bool) (allocated : Option Nat)
  | lockClose (caller : Caller Thread) (lock : Option Lock)
  deriving DecidableEq, Repr

variable {Thread : Type*}

/-- `libc_lock_failure`. -/
def State.fail (s : State) : State := { s with halted := true }

def State.setLock (s : State) (l : Lock) (o : LockObject) : State :=
  { s with locks := Function.update s.locks l o }

/-- `tx_mutex_create`, which may fail. -/
def createMutex (fails : Nat → Bool) (m : Mutex) (s : State) : State :=
  if fails s.mutexes.length then s.fail else { s with mutexes := m :: s.mutexes }

/-- `create_lock`, and the failure of its caller. -/
def createLock (fails : Nat → Bool) (s : State) (l : Lock) : State :=
  if s.halted then s
  else
    let s' := createMutex fails (.lock l) s
    if s'.halted then s' else s'.setLock l { s'.locks l with created := true }

/-- `static_locks`. -/
def staticLocks : List Lock := (List.finRange 8).map Lock.static

/-- `runtime_libc_initialize`. -/
def State.runtimeLibcInitialize (fails : Nat → Bool) (s : State) : State :=
  if s.ready then s
  else
    let s' := (staticLocks ++ s.dynamicLocks).foldl (createLock fails) s
    if s'.halted then s'
    else
      let t := createMutex fails .pool s'
      if t.halted then t else { t with ready := true }

/-- `locking_required`; `none` is its failure. -/
def State.lockingRequired (s : State) : Caller Thread → Option Bool
  | .interrupt => none
  | .startup => some false
  | .thread _ => if s.ready then some true else none

/-- A lock is given out. -/
def State.give (s : State) (l : Lock) : State :=
  { s with opened := l :: s.opened, most := max s.most (s.opened.length + 1) }

/-- The part of `__retarget_lock_init` between the two uses of the pool's mutex. -/
def State.takeLock (fails : Nat → Bool) (s : State) (allocated : Option Nat) : State :=
  match s.dynamicLocks.find? fun l => !(s.locks l).allocated with
  | some candidate =>
      (s.setLock candidate { s.locks candidate with allocated := true }).give candidate
  | none =>
      match allocated with
      | none => s.fail
      | some a =>
          let made := { s.setLock (.dynamic a) ⟨false, true, true⟩ with
            dynamicLocks := .dynamic a :: s.dynamicLocks }
          if s.ready then
            let t := createLock fails made (.dynamic a)
            if t.halted then t else t.give (.dynamic a)
          else made.give (.dynamic a)

/-- The part of `__retarget_lock_close` between the two uses of the pool's mutex. -/
def State.closeLock (s : State) (lock : Lock) : State :=
  let closed := { s with opened := s.opened.erase lock }
  if lock ∈ s.dynamicLocks ∧ (s.locks lock).dynamic = true then
    closed.setLock lock { s.locks lock with allocated := false }
  else closed

/-- A node that `calloc` gives is not in the pool: nodes are never freed. -/
def step (fails : Nat → Bool) (s : State) : Event Thread → Option State
  | .runtimeLibcInitialize => if s.halted then none else some (s.runtimeLibcInitialize fails)
  | .lockInit caller null allocated =>
      if s.halted ∨ (∃ a ∈ allocated, .dynamic a ∈ s.dynamicLocks) then none
      else if null ∨ s.lockingRequired caller = none then some s.fail
      else some (s.takeLock fails allocated)
  | .lockClose caller lock =>
      if s.halted then none
      else
        match lock, s.lockingRequired caller with
        | some lock, some _ => some (s.closeLock lock)
        | _, _ => some s.fail

def init (s : State) : Prop :=
  s.locks = (fun _ => ⟨false, false, false⟩) ∧ s.dynamicLocks = [] ∧ s.ready = false ∧
    s.halted = false ∧ s.mutexes = [] ∧ s.opened = [] ∧ s.most = 0

/-! ## The invariant -/

structure Inv (s : State) : Prop where
  /-- A node of the pool is in use exactly while its lock is open. -/
  allocated : ∀ l ∈ s.dynamicLocks, (s.locks l).allocated = true ↔ l ∈ s.opened
  opened : ∀ l ∈ s.opened, l ∈ s.dynamicLocks
  openedNodup : s.opened.Nodup
  pool : s.dynamicLocks.Nodup
  dynamic : ∀ l ∈ s.dynamicLocks, (s.locks l).dynamic = true ∧ ∃ a, l = .dynamic a
  /-- A lock has a mutex exactly if it says so. -/
  created : ∀ l, (s.locks l).created = true ↔ .lock l ∈ s.mutexes
  mutexes : s.mutexes.Nodup
  deferred : s.ready = false → s.mutexes = []
  ready : s.ready = true → ∀ l ∈ s.dynamicLocks, (s.locks l).created = true
  /-- Only nodes of the pool and Newlib's own locks have mutexes. -/
  known : ∀ a, .lock (.dynamic a) ∈ s.mutexes → .dynamic a ∈ s.dynamicLocks
  most : s.opened.length ≤ s.most
  size : s.dynamicLocks.length ≤ s.most

theorem Inv.start {s : State} (h : init s) : Inv s := by
  obtain ⟨hlocks, hpool, hready, -, hmutexes, hopened, hmost⟩ := h
  constructor <;> simp [hlocks, hpool, hready, hmutexes, hopened, hmost]

/-! ## Creating mutexes -/

/-- The mutexes of `ls` have been created. -/
def State.create (s : State) (ls : List Lock) : State :=
  { s with
    locks := fun l => if l ∈ ls then { s.locks l with created := true } else s.locks l
    mutexes := (ls.map Mutex.lock).reverse ++ s.mutexes }

theorem createMutex_ok {fails : Nat → Bool} {m : Mutex} {s : State}
    (h : (createMutex fails m s).halted = false) :
    createMutex fails m s = { s with mutexes := m :: s.mutexes } := by
  unfold createMutex at h ⊢
  split at h
  · simp [State.fail] at h
  · rename_i hok
    rw [if_neg hok]

theorem createLock_ok {fails : Nat → Bool} {s : State} {l : Lock}
    (h : (createLock fails s l).halted = false) :
    s.halted = false ∧ createLock fails s l = s.create [l] := by
  by_cases hs : s.halted = true
  · -- a halted system stays as it is
    simp [createLock, hs] at h
  · have hs' : s.halted = false := by simpa using hs
    by_cases hm : (createMutex fails (.lock l) s).halted = true
    · simp [createLock, hs', hm] at h
    · have hm' : (createMutex fails (.lock l) s).halted = false := by simpa using hm
      refine ⟨hs', ?_⟩
      have hmade := createMutex_ok hm'
      simp only [createLock, hs', Bool.false_eq_true, if_false, hm', hmade, State.setLock,
        State.create, List.map_cons, List.map_nil, List.reverse_singleton, List.singleton_append,
        State.mk.injEq, and_true]
      funext l'
      by_cases hl : l' = l
      · subst hl
        simp
      · simp [hl]

@[simp] theorem State.create_opened (s : State) (ls : List Lock) :
    (s.create ls).opened = s.opened := rfl

@[simp] theorem State.create_dynamicLocks (s : State) (ls : List Lock) :
    (s.create ls).dynamicLocks = s.dynamicLocks := rfl

@[simp] theorem State.create_allocated (s : State) (ls : List Lock) (l : Lock) :
    ((s.create ls).locks l).allocated = (s.locks l).allocated := by
  by_cases h : l ∈ ls <;> simp [State.create, h]

@[simp] theorem State.create_dynamic (s : State) (ls : List Lock) (l : Lock) :
    ((s.create ls).locks l).dynamic = (s.locks l).dynamic := by
  by_cases h : l ∈ ls <;> simp [State.create, h]

theorem State.create_created (s : State) (ls : List Lock) (l : Lock) :
    ((s.create ls).locks l).created = true ↔ l ∈ ls ∨ (s.locks l).created = true := by
  by_cases h : l ∈ ls <;> simp [State.create, h]

theorem State.mem_create (s : State) (ls : List Lock) (m : Mutex) :
    m ∈ (s.create ls).mutexes ↔ (∃ l ∈ ls, .lock l = m) ∨ m ∈ s.mutexes := by
  simp [State.create]

theorem State.create_nil (s : State) : s.create [] = s := by
  simp [State.create]

theorem State.create_cons (s : State) (l : Lock) (ls : List Lock) :
    (s.create [l]).create ls = s.create (l :: ls) := by
  simp only [State.create, State.mk.injEq, and_true, true_and]
  refine ⟨?_, by simp⟩
  funext l'
  by_cases hl : l' = l <;> by_cases hls : l' ∈ ls <;> simp [hl, hls]

/-- The loop over the locks, when no `tx_mutex_create` fails. -/
theorem foldl_createLock {f : Nat → Bool} (ls : List Lock) {s : State}
    (h : (ls.foldl (createLock f) s).halted = false) :
    s.halted = false ∧ ls.foldl (createLock f) s = s.create ls := by
  induction ls generalizing s with
  | nil => exact ⟨h, s.create_nil.symm⟩
  | cons l ls ih =>
      rw [List.foldl_cons] at h ⊢
      obtain ⟨hfirst, hrest⟩ := ih h
      obtain ⟨hs, hl⟩ := createLock_ok hfirst
      rw [hrest, hl]
      exact ⟨hs, s.create_cons l ls⟩

/-! ## `runtime_libc_initialize` -/

theorem runtimeLibcInitialize_ok {fails : Nat → Bool} {s : State}
    (h : (s.runtimeLibcInitialize fails).halted = false) :
    s.runtimeLibcInitialize fails = s ∨
      (s.ready = false ∧
        s.runtimeLibcInitialize fails =
          { s.create (staticLocks ++ s.dynamicLocks) with
            mutexes := .pool :: (s.create (staticLocks ++ s.dynamicLocks)).mutexes
            ready := true }) := by
  by_cases hready : s.ready = true
  · left
    simp [State.runtimeLibcInitialize, hready]
  right
  have hready' : s.ready = false := by simpa using hready
  refine ⟨hready', ?_⟩
  simp only [State.runtimeLibcInitialize, hready', Bool.false_eq_true, if_false] at h ⊢
  split at h
  · -- a lock's mutex was not created
    rename_i hhalted
    rw [hhalted] at h
    cases h
  rename_i hlocks
  have hlocks' := foldl_createLock (f := fails) (staticLocks ++ s.dynamicLocks) (s := s)
    (by simpa using hlocks)
  rw [if_neg hlocks]
  split at h
  · rename_i hhalted
    rw [hhalted] at h
    cases h
  rename_i hpool
  rw [if_neg hpool, createMutex_ok (by simpa using hpool), hlocks'.2]

theorem staticLocks_nodup : staticLocks.Nodup := by
  apply (List.nodup_finRange 8).map
  intro i j h
  injection h

theorem mem_staticLocks {l : Lock} : l ∈ staticLocks ↔ ∃ i, l = .static i := by
  simp [staticLocks, eq_comm]

theorem Inv.initialize {s : State} (hi : Inv s) (hready : s.ready = false) :
    Inv { s.create (staticLocks ++ s.dynamicLocks) with
      mutexes := .pool :: (s.create (staticLocks ++ s.dynamicLocks)).mutexes
      ready := true } := by
  have hnone : s.mutexes = [] := hi.deferred hready
  have hnew : ∀ l, (s.locks l).created = false := by
    intro l
    have h := hi.created l
    rw [hnone] at h
    simpa using h
  -- the two loops visit no lock twice
  have hnodup : (staticLocks ++ s.dynamicLocks).Nodup := by
    apply staticLocks_nodup.append hi.pool
    intro l hl hl'
    obtain ⟨i, rfl⟩ := mem_staticLocks.mp hl
    obtain ⟨-, a, ha⟩ := hi.dynamic _ hl'
    cases ha
  constructor
  · intro l hl
    simpa using hi.allocated l hl
  · exact hi.opened
  · exact hi.openedNodup
  · exact hi.pool
  · intro l hl
    simpa using hi.dynamic l hl
  · intro l
    show ((s.create _).locks l).created = true ↔ _ ∈ Mutex.pool :: (s.create _).mutexes
    simp [State.create_created, State.mem_create, hnone, hnew]
  · simp only [State.create, hnone, List.append_nil, List.nodup_cons, List.mem_reverse,
      List.mem_map, reduceCtorEq, and_false, exists_false, not_false_eq_true, true_and,
      List.nodup_reverse]
    apply hnodup.map
    intro l l' h
    injection h
  · intro h
    cases h
  · intro _ l hl
    show ((s.create _).locks l).created = true
    rw [State.create_created]
    exact Or.inl (List.mem_append_right _ hl)
  · intro a ha
    have ha' : Mutex.lock (.dynamic a) ∈ Mutex.pool :: (s.create _).mutexes := ha
    simpa [State.mem_create, hnone, mem_staticLocks] using ha'
  · exact hi.most
  · exact hi.size

/-! ## `__retarget_lock_init` and `__retarget_lock_close` -/

/-- A node out of use is given out. -/
theorem Inv.reuse {s : State} (hi : Inv s) {l : Lock} (hl : l ∈ s.dynamicLocks)
    (hfree : (s.locks l).allocated = false) :
    Inv ((s.setLock l { s.locks l with allocated := true }).give l) := by
  have hclosed : l ∉ s.opened := by
    intro h
    have := (hi.allocated l hl).mpr h
    rw [hfree] at this
    cases this
  -- the other flags of the node are kept
  have hflags : ∀ l', (Function.update s.locks l { s.locks l with allocated := true } l').created
        = (s.locks l').created ∧
      (Function.update s.locks l { s.locks l with allocated := true } l').dynamic
        = (s.locks l').dynamic := by
    intro l'
    by_cases h : l' = l
    · subst h
      simp
    · simp [h]
  constructor
  · intro l' hl'
    by_cases h : l' = l
    · subst h
      simp [State.give, State.setLock]
    · simpa [State.give, State.setLock, h] using hi.allocated l' hl'
  · intro l' hl'
    rcases List.mem_cons.mp hl' with rfl | h
    · exact hl
    · exact hi.opened l' h
  · exact List.nodup_cons.mpr ⟨hclosed, hi.openedNodup⟩
  · exact hi.pool
  · intro l' hl'
    refine ⟨?_, (hi.dynamic l' hl').2⟩
    show (Function.update s.locks l _ l').dynamic = true
    rw [(hflags l').2]
    exact (hi.dynamic l' hl').1
  · intro l'
    show (Function.update s.locks l _ l').created = true ↔ _
    rw [(hflags l').1]
    exact hi.created l'
  · exact hi.mutexes
  · exact hi.deferred
  · intro hr l' hl'
    show (Function.update s.locks l _ l').created = true
    rw [(hflags l').1]
    exact hi.ready hr l' hl'
  · exact hi.known
  · exact Nat.le_max_right _ _
  · exact Nat.le_trans hi.size (Nat.le_max_left _ _)

/-- A new node for a lock; its mutex waits for the initialization if that is still
    to come. -/
def State.addNode (s : State) (a : Nat) : State :=
  { s with
    locks := Function.update s.locks (.dynamic a) ⟨s.ready, true, true⟩
    dynamicLocks := .dynamic a :: s.dynamicLocks
    mutexes := if s.ready then .lock (.dynamic a) :: s.mutexes else s.mutexes
    opened := .dynamic a :: s.opened
    most := max s.most (s.opened.length + 1) }

theorem Inv.addNode {s : State} (hi : Inv s) {a : Nat} (ha : Lock.dynamic a ∉ s.dynamicLocks)
    (hfull : ∀ l ∈ s.dynamicLocks, (s.locks l).allocated = true) : Inv (s.addNode a) := by
  have hclosed : Lock.dynamic a ∉ s.opened := fun h => ha (hi.opened _ h)
  have hnew : Mutex.lock (.dynamic a) ∉ s.mutexes := fun h => ha (hi.known a h)
  have hother : ∀ l ∈ s.dynamicLocks, l ≠ .dynamic a := by
    intro l hl h
    exact ha (h ▸ hl)
  -- every node is in use, so there are no more nodes than open locks
  have hcount : s.dynamicLocks.length ≤ s.opened.length := by
    apply List.Subperm.length_le
    apply List.subperm_of_subset hi.pool
    intro l hl
    exact (hi.allocated l hl).mp (hfull l hl)
  constructor
  · intro l hl
    rcases List.mem_cons.mp hl with rfl | hl'
    · simp [State.addNode]
    · simpa [State.addNode, hother l hl'] using hi.allocated l hl'
  · intro l hl
    rcases List.mem_cons.mp hl with rfl | hl'
    · exact List.mem_cons_self
    · exact List.mem_cons_of_mem _ (hi.opened l hl')
  · exact List.nodup_cons.mpr ⟨hclosed, hi.openedNodup⟩
  · exact List.nodup_cons.mpr ⟨ha, hi.pool⟩
  · intro l hl
    rcases List.mem_cons.mp hl with rfl | hl'
    · simp [State.addNode]
    · simpa [State.addNode, hother l hl'] using hi.dynamic l hl'
  · intro l
    by_cases hl : l = .dynamic a
    · subst hl
      by_cases hr : s.ready = true <;> simp [State.addNode, hr, hnew]
    · have h := hi.created l
      by_cases hr : s.ready = true <;> simpa [State.addNode, hr, hl] using h
  · by_cases hr : s.ready = true
    · simpa [State.addNode, hr] using ⟨hnew, hi.mutexes⟩
    · simpa [State.addNode, hr] using hi.mutexes
  · intro hr
    have hr' : s.ready = false := hr
    simpa [State.addNode, hr'] using hi.deferred hr'
  · intro hr l hl
    have hr' : s.ready = true := hr
    rcases List.mem_cons.mp hl with rfl | hl'
    · simpa [State.addNode] using hr'
    · simpa [State.addNode, hother l hl'] using hi.ready hr' l hl'
  · intro b hb
    by_cases hab : b = a
    · subst hab
      exact List.mem_cons_self
    · apply List.mem_cons_of_mem
      apply hi.known
      by_cases hr : s.ready = true <;> simpa [State.addNode, hr, hab] using hb
  · exact Nat.le_max_right _ _
  · show s.dynamicLocks.length + 1 ≤ max s.most (s.opened.length + 1)
    omega

/-- What the loop over the pool and the allocation after it come to. -/
theorem takeLock_ok {fails : Nat → Bool} {s : State} {allocated : Option Nat}
    (h : (s.takeLock fails allocated).halted = false) :
    (∃ l ∈ s.dynamicLocks, (s.locks l).allocated = false ∧
      s.takeLock fails allocated =
        (s.setLock l { s.locks l with allocated := true }).give l) ∨
    ∃ a, allocated = some a ∧ (∀ l ∈ s.dynamicLocks, (s.locks l).allocated = true) ∧
      s.takeLock fails allocated = s.addNode a := by
  unfold State.takeLock at h ⊢
  cases hfind : s.dynamicLocks.find? (fun l => !(s.locks l).allocated) with
  | some l =>
      left
      have hfree := List.find?_some hfind
      exact ⟨l, List.mem_of_find?_eq_some hfind, by simpa using hfree, rfl⟩
  | none =>
      right
      have hfull : ∀ l ∈ s.dynamicLocks, (s.locks l).allocated = true := by
        simpa using List.find?_eq_none.mp hfind
      rw [hfind] at h
      cases allocated with
      | none => cases h
      | some a =>
          refine ⟨a, rfl, hfull, ?_⟩
          by_cases hr : s.ready = true
          · simp only [hr, if_true] at h ⊢
            split at h
            · rename_i hhalted
              rw [hhalted] at h
              cases h
            rename_i hok
            rw [if_neg hok, (createLock_ok (by simpa using hok)).2]
            simp only [State.give, State.create, State.setLock, State.addNode, hr, if_true,
              State.mk.injEq, List.map_cons, List.map_nil, List.reverse_singleton,
              List.singleton_append, and_true]
            funext l
            by_cases hl : l = .dynamic a <;> simp [hl]
          · have hr' : s.ready = false := by simpa using hr
            simp [hr', State.give, State.setLock, State.addNode]

theorem Inv.closeLock {s : State} (hi : Inv s) (lock : Lock) : Inv (s.closeLock lock) := by
  unfold State.closeLock
  by_cases hpool : lock ∈ s.dynamicLocks
  · have hmark : lock ∈ s.dynamicLocks ∧ (s.locks lock).dynamic = true :=
      ⟨hpool, (hi.dynamic lock hpool).1⟩
    rw [if_pos hmark]
    have hflags : ∀ l,
        (Function.update s.locks lock { s.locks lock with allocated := false } l).created
          = (s.locks l).created ∧
        (Function.update s.locks lock { s.locks lock with allocated := false } l).dynamic
          = (s.locks l).dynamic := by
      intro l
      by_cases h : l = lock
      · subst h
        simp
      · simp [h]
    constructor
    · intro l hl
      by_cases h : l = lock
      · subst h
        simp [State.setLock, hi.openedNodup.mem_erase_iff]
      · simpa [State.setLock, h, hi.openedNodup.mem_erase_iff] using hi.allocated l hl
    · intro l hl
      exact hi.opened l (List.mem_of_mem_erase hl)
    · exact hi.openedNodup.erase lock
    · exact hi.pool
    · intro l hl
      refine ⟨?_, (hi.dynamic l hl).2⟩
      show (Function.update s.locks lock _ l).dynamic = true
      rw [(hflags l).2]
      exact (hi.dynamic l hl).1
    · intro l
      show (Function.update s.locks lock _ l).created = true ↔ _
      rw [(hflags l).1]
      exact hi.created l
    · exact hi.mutexes
    · exact hi.deferred
    · intro hr l hl
      show (Function.update s.locks lock _ l).created = true
      rw [(hflags l).1]
      exact hi.ready hr l hl
    · exact hi.known
    · exact Nat.le_trans List.length_erase_le hi.most
    · exact hi.size
  · -- one of Newlib's own locks, or no lock at all
    have hclosed : lock ∉ s.opened := fun h => hpool (hi.opened lock h)
    rw [if_neg (fun h => hpool h.1), List.erase_of_not_mem hclosed]
    exact hi

/-! ## Runs -/

/-- No event of a halted system, and no event that ends in `libc_lock_failure`. -/
theorem Inv.step {fails : Nat → Bool} {s s' : State} {e : Event Thread}
    (hi : s.halted = false → Inv s) (h : step fails s e = some s') (hok : s'.halted = false) :
    Inv s' := by
  cases e with
  | runtimeLibcInitialize =>
      simp only [LockPool.step] at h
      split at h
      · cases h
      rename_i hs
      have hinv : Inv s := hi (by simpa using hs)
      obtain rfl : s.runtimeLibcInitialize fails = s' := by simpa using h
      rcases runtimeLibcInitialize_ok hok with heq | ⟨hready, heq⟩
      · rw [heq]
        exact hinv
      · rw [heq]
        exact hinv.initialize hready
  | lockInit caller null allocated =>
      simp only [LockPool.step] at h
      split at h
      · cases h
      rename_i hs
      push Not at hs
      have hinv : Inv s := hi (by simpa using hs.1)
      split at h
      · obtain rfl : s.fail = s' := by simpa using h
        cases hok
      obtain rfl : s.takeLock fails allocated = s' := by simpa using h
      rcases takeLock_ok hok with ⟨l, hl, hfree, heq⟩ | ⟨a, rfl, hfull, heq⟩
      · rw [heq]
        exact hinv.reuse hl hfree
      · rw [heq]
        exact hinv.addNode (hs.2 a rfl) hfull
  | lockClose caller lock =>
      simp only [LockPool.step] at h
      split at h
      · cases h
      rename_i hs
      have hinv : Inv s := hi (by simpa using hs)
      split at h
      · obtain rfl := Option.some.inj h
        exact hinv.closeLock _
      · obtain rfl : s.fail = s' := by simpa using h
        cases hok

theorem Inv.ofRun {fails : Nat → Bool} {h : List (Event Thread)} {s : State}
    (hrun : Run (LockPool.step fails) anyStep init h s) (hok : s.halted = false) : Inv s := by
  have hinv : s.halted = false → Inv s := by
    apply hrun.invariant
    · intro s hs _
      exact Inv.start hs
    · intro s e s' hi hstep hok
      exact Inv.step hi hstep hok
  exact hinv hok

/-- `__retarget_lock_init` would take the node. -/
def State.Reusable (s : State) (l : Lock) : Prop :=
  l ∈ s.dynamicLocks ∧ (s.locks l).allocated = false

theorem closeLock_reusable {s : State} (hi : Inv s) (lock l : Lock) :
    (s.closeLock lock).Reusable l ↔ s.Reusable l ∨ l = lock ∧ lock ∈ s.dynamicLocks := by
  unfold State.closeLock State.Reusable
  by_cases hpool : lock ∈ s.dynamicLocks
  · rw [if_pos ⟨hpool, (hi.dynamic lock hpool).1⟩]
    by_cases h : l = lock
    · subst h
      simp [State.setLock, hpool]
    · simp [State.setLock, h]
  · rw [if_neg fun h => hpool h.1]
    simp [hpool]

/-- In every run in which nothing fails, before and after the initialization: no two
    open locks share a node; an open lock has a mutex once the initialization is over,
    and no mutex is created twice; Newlib's own locks stay out of the pool, which has
    no more nodes than locks were open at once; and a close makes its own node, and no
    other, one that the next lock can take. -/
theorem lockPool_correct {fails : Nat → Bool} {h : List (Event Thread)} {s : State}
    (hrun : Run (step fails) anyStep init h s) (hok : s.halted = false) :
    s.opened.Nodup ∧ (∀ l ∈ s.opened, l ∈ s.dynamicLocks) ∧
    (s.ready = true → ∀ l ∈ s.opened, (s.locks l).created = true ∧ .lock l ∈ s.mutexes) ∧
    s.mutexes.Nodup ∧
    (∀ i, .static i ∉ s.dynamicLocks) ∧
    s.dynamicLocks.length ≤ s.most ∧
    ∀ (caller : Caller Thread) lock s', step fails s (.lockClose caller (some lock)) = some s' →
      s'.halted = false → s'.opened = s.opened.erase lock ∧
        ∀ l, s'.Reusable l ↔ s.Reusable l ∨ l = lock ∧ lock ∈ s.dynamicLocks := by
  have hi : Inv s := Inv.ofRun hrun hok
  refine ⟨hi.openedNodup, hi.opened, ?_, hi.mutexes, ?_, hi.size, ?_⟩
  · intro hready l hl
    have hcreated := hi.ready hready l (hi.opened l hl)
    exact ⟨hcreated, (hi.created l).mp hcreated⟩
  · intro i hmem
    obtain ⟨-, a, ha⟩ := hi.dynamic _ hmem
    cases ha
  · intro caller lock s' hclose hok'
    simp only [step, hok, Bool.false_eq_true, if_false] at hclose
    split at hclose
    · rename_i lock' _ hlock _
      obtain rfl := Option.some.inj hclose
      obtain rfl : lock = lock' := Option.some.inj hlock
      refine ⟨?_, fun l => closeLock_reusable hi lock l⟩
      unfold State.closeLock
      split <;> rfl
    · obtain rfl : s.fail = s' := by simpa using hclose
      cases hok'

/-- Nothing has been called yet. -/
def booted : State := ⟨fun _ => ⟨false, false, false⟩, [], false, false, [], [], 0⟩

/-- Two locks before the initialization, one of them closed; after it a thread takes
    the closed one's node and another thread a new node. -/
def recycled : List (Event Nat) :=
  [.lockInit .startup false (some 1), .lockInit .startup false (some 2),
    .lockClose .startup (some (.dynamic 1)), .runtimeLibcInitialize,
    .lockInit (.thread 0) false none, .lockInit (.thread 1) false (some 3)]

theorem lockPool_correct_recycled :
    ∃ s, replay (step fun _ => false) booted recycled = some s ∧ s.halted = false ∧
      s.opened = [.dynamic 3, .dynamic 1, .dynamic 2] ∧ s.mutexes.Nodup ∧
      s.dynamicLocks.length ≤ s.most := by
  have hsome : (replay (step fun _ => false) booted recycled).isSome = true := by decide
  have hfacts : (replay (step fun _ => false) booted recycled).map
      (fun s => (s.opened, s.halted)) = some ([.dynamic 3, .dynamic 1, .dynamic 2], false) := by
    decide
  obtain ⟨s, hs⟩ := Option.isSome_iff_exists.mp hsome
  rw [hs] at hfacts
  simp only [Option.map_some, Option.some.injEq, Prod.mk.injEq] at hfacts
  obtain ⟨hopened, hok⟩ := hfacts
  have hboot : init booted := ⟨rfl, rfl, rfl, rfl, rfl, rfl, rfl⟩
  have hrun := Run.of_replay hboot (guarded_anyStep [] _ _) hs
  have h := lockPool_correct hrun hok
  exact ⟨s, hs, hok, hopened, h.2.2.2.1, h.2.2.2.2.2.1⟩

end LockPool
end Libc
end NucleoBase
