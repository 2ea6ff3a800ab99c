/-
  NucleoBase.Lib.Lazy

  Objects behind handles that are created on first use.  A handle has a slot for
  a reference.  A call that finds the slot empty takes a lock that all handles
  share, looks again, creates the object and stores its reference; creation may
  fail, and a handle may be given up and used anew.  The steps of all threads
  interleave.

  `Eager` has every object from the start.  Run for run, the calls on objects
  created on first use are calls on those (`eager_run`), so what holds of the
  calls in every run of `Eager` holds of them here.
-/

import NucleoBase.Lib.Run
import Mathlib.Data.Fintype.Basic

namespace NucleoBase
namespace Lib

namespace Lazy

/-- A kind of object, and what calls do to it. -/
structure Kind (Thread Handle Obj Input Call Result : Type*) where
  /-- The object as it is created. -/
  fresh : Handle → Obj
  /-- Callers begin with these. -/
  Entry : Call → Prop
  /-- One step of a call: the object afterwards, and the rest of the call or its result.
      `none` while the thread is suspended. -/
  act : Thread → Input → Call → Obj → Option (Obj × (Call ⊕ Result))
  /-- The result of a call that finds no object and creates none. -/
  absent : Call → Option Result
  /-- The object may be given up. -/
  Retired : Obj → Prop
  /-- Without an object, such a call has the result that it has on a fresh one. -/
  act_absent : ∀ t i c h r, absent c = some r → act t i c (fresh h) = some (fresh h, .inr r)

/-- What the callers see. -/
inductive Event (Thread Handle Input Call Result : Type*)
  | begin (t : Thread) (h : Handle) (c : Call)
  | act (t : Thread) (h : Handle) (c : Call) (i : Input) (out : Call ⊕ Result)
  /-- The call returns because there is no object. -/
  | fail (t : Thread) (h : Handle) (c : Call)
  | giveUp (h : Handle)
  deriving DecidableEq, Repr

variable {Thread Handle Ref Obj Input Call Result : Type*}
  [DecidableEq Thread] [DecidableEq Handle] [DecidableEq Ref] [DecidableEq Call]
  [DecidableEq Result] {K : Kind Thread Handle Obj Input Call Result}

/-! ## Every object from the start -/

structure Eager (Thread Handle Obj Call : Type*) where
  objects : Handle → Obj
  calls : Thread → Option (Handle × Call)

namespace Eager

/-- What is left of a call. -/
def rest (h : Handle) : Call ⊕ Result → Option (Handle × Call)
  | .inl c => some (h, c)
  | .inr _ => none

def setCall (s : Eager Thread Handle Obj Call) (t : Thread) (call : Option (Handle × Call)) :
    Eager Thread Handle Obj Call :=
  { s with calls := Function.update s.calls t call }

def setObject (s : Eager Thread Handle Obj Call) (h : Handle) (o : Obj) :
    Eager Thread Handle Obj Call :=
  { s with objects := Function.update s.objects h o }

omit [DecidableEq Handle] in
@[simp] theorem calls_setCall_self (s : Eager Thread Handle Obj Call) (t : Thread)
    (call : Option (Handle × Call)) : (s.setCall t call).calls t = call :=
  Function.update_self _ _ _

omit [DecidableEq Handle] in
@[simp] theorem calls_setCall_other (s : Eager Thread Handle Obj Call) {t u : Thread}
    (call : Option (Handle × Call)) (h : u ≠ t) : (s.setCall t call).calls u = s.calls u :=
  Function.update_of_ne h _ _

omit [DecidableEq Thread] in
@[simp] theorem objects_setObject_self (s : Eager Thread Handle Obj Call) (h : Handle) (o : Obj) :
    (s.setObject h o).objects h = o :=
  Function.update_self _ _ _

omit [DecidableEq Thread] in
@[simp] theorem objects_setObject_other (s : Eager Thread Handle Obj Call) {h k : Handle} (o : Obj)
    (hk : k ≠ h) : (s.setObject h o).objects k = s.objects k :=
  Function.update_of_ne hk _ _

def step (K : Kind Thread Handle Obj Input Call Result) (s : Eager Thread Handle Obj Call) :
    Event Thread Handle Input Call Result → Option (Eager Thread Handle Obj Call)
  | .begin t h c => if s.calls t = none then some (s.setCall t (some (h, c))) else none
  | .act t h c i out =>
      if s.calls t = some (h, c) then
        (K.act t i c (s.objects h)).bind fun p =>
          if p.2 = out then some ((s.setObject h p.1).setCall t (rest h out)) else none
      else none
  | .fail t h c => if s.calls t = some (h, c) then some (s.setCall t none) else none
  | .giveUp h => some (s.setObject h (K.fresh h))

/-- An object is given up when no call is on it, and a call fails for want of an object only
    where the object is as it was created. -/
def Allowed (K : Kind Thread Handle Obj Input Call Result) (s : Eager Thread Handle Obj Call) :
    Event Thread Handle Input Call Result → Prop
  | .begin _ _ c => K.Entry c
  | .act .. => True
  | .fail _ h c => K.absent c = none ∧ s.objects h = K.fresh h
  | .giveUp h => (∀ t, (s.calls t).map Prod.fst ≠ some h) ∧ K.Retired (s.objects h)

/-- No call yet, and every object as it is created. -/
def Initial (K : Kind Thread Handle Obj Input Call Result) (s : Eager Thread Handle Obj Call) :
    Prop :=
  (∀ t, s.calls t = none) ∧ ∀ h, s.objects h = K.fresh h

end Eager

/-! ## Creation on first use -/

inductive Pc (Handle Ref Call : Type*)
  | idle
  /-- The slot is loaded next. -/
  | called (h : Handle) (c : Call)
  /-- The slot was empty; the lock is taken next. -/
  | missed (h : Handle) (c : Call)
  /-- In the lock; the slot is loaded again next. -/
  | entered (h : Handle) (c : Call)
  /-- In the lock; the object is created next. -/
  | creating (h : Handle) (c : Call)
  /-- In the lock; the reference is stored next. -/
  | made (h : Handle) (c : Call) (ref : Ref)
  /-- In the lock; it is left next. -/
  | leaving (h : Handle) (c : Call) (ref : Ref)
  /-- In the lock, with no object; it is left next. -/
  | failed (h : Handle) (c : Call)
  /-- The call works on the object it has a reference to. -/
  | on (h : Handle) (c : Call) (ref : Ref)
  deriving DecidableEq, Repr

structure State (Thread Handle Ref Obj Call : Type*) where
  slot : Handle → Option Ref
  heap : Ref → Option Obj
  lock : Option Thread
  pc : Thread → Pc Handle Ref Call

inductive Label (Thread Handle Ref Input Call Result : Type*)
  | begin (t : Thread) (h : Handle) (c : Call)
  | look (t : Thread)
  | absent (t : Thread) (h : Handle) (c : Call) (i : Input) (r : Result)
  | enter (t : Thread)
  | lookAgain (t : Thread)
  /-- The object is created at a free reference, or creation fails. -/
  | create (t : Thread) (outcome : Option Ref)
  | store (t : Thread)
  | leave (t : Thread)
  | fail (t : Thread) (h : Handle) (c : Call)
  | act (t : Thread) (h : Handle) (c : Call) (i : Input) (out : Call ⊕ Result)
  | giveUp (h : Handle)
  deriving DecidableEq, Repr

def Label.event : Label Thread Handle Ref Input Call Result →
    Option (Event Thread Handle Input Call Result)
  | .begin t h c => some (.begin t h c)
  | .absent t h c i r => some (.act t h c i (.inr r))
  | .fail t h c => some (.fail t h c)
  | .act t h c i out => some (.act t h c i out)
  | .giveUp h => some (.giveUp h)
  | _ => none

/-- What is left of a call on an object. -/
def Pc.rest (h : Handle) (ref : Ref) : Call ⊕ Result → Pc Handle Ref Call
  | .inl c => .on h c ref
  | .inr _ => .idle

/-- The thread is in the lock. -/
def Pc.Inside : Pc Handle Ref Call → Prop
  | .entered .. | .creating .. | .made .. | .leaving .. | .failed .. => True
  | _ => False

/-- The call, whether its object is there yet or not. -/
def Pc.call : Pc Handle Ref Call → Option (Handle × Call)
  | .idle => none
  | .called h c | .missed h c | .entered h c | .creating h c | .made h c _ | .leaving h c _
  | .failed h c | .on h c _ => some (h, c)

namespace State

/-- A step of one thread, which takes or leaves the lock with it. -/
def move (s : State Thread Handle Ref Obj Call) (t : Thread) (p : Pc Handle Ref Call)
    (lock : Option Thread) : State Thread Handle Ref Obj Call :=
  { s with pc := Function.update s.pc t p, lock := lock }

def setHeap (s : State Thread Handle Ref Obj Call) (ref : Ref) (o : Option Obj) :
    State Thread Handle Ref Obj Call :=
  { s with heap := Function.update s.heap ref o }

def setSlot (s : State Thread Handle Ref Obj Call) (h : Handle) (ref : Option Ref) :
    State Thread Handle Ref Obj Call :=
  { s with slot := Function.update s.slot h ref }

/-- The object that a handle stands for: the one it has, or else the one it would get. -/
def object (K : Kind Thread Handle Obj Input Call Result)
    (s : State Thread Handle Ref Obj Call) (h : Handle) : Obj :=
  ((s.slot h).bind s.heap).getD (K.fresh h)

def eager (K : Kind Thread Handle Obj Input Call Result)
    (s : State Thread Handle Ref Obj Call) : Eager Thread Handle Obj Call :=
  ⟨s.object K, fun t => (s.pc t).call⟩

end State

def step (K : Kind Thread Handle Obj Input Call Result)
    (s : State Thread Handle Ref Obj Call) :
    Label Thread Handle Ref Input Call Result → Option (State Thread Handle Ref Obj Call)
  | .begin t h c => if s.pc t = .idle then some (s.move t (.called h c) s.lock) else none
  | .look t =>
      match s.pc t with
      | .called h c =>
          match s.slot h with
          | some ref => some (s.move t (.on h c ref) s.lock)
          | none => if K.absent c = none then some (s.move t (.missed h c) s.lock) else none
      | _ => none
  | .absent t h c _ r =>
      if s.pc t = .called h c ∧ s.slot h = none ∧ K.absent c = some r then
        some (s.move t .idle s.lock)
      else none
  | .enter t =>
      match s.pc t with
      | .missed h c => if s.lock = none then some (s.move t (.entered h c) (some t)) else none
      | _ => none
  | .lookAgain t =>
      match s.pc t with
      | .entered h c =>
          match s.slot h with
          | some ref => some (s.move t (.leaving h c ref) s.lock)
          | none => some (s.move t (.creating h c) s.lock)
      | _ => none
  | .create t outcome =>
      match s.pc t with
      | .creating h c =>
          match outcome with
          | none => some (s.move t (.failed h c) s.lock)
          | some ref =>
              match s.heap ref with
              | none => some ((s.setHeap ref (some (K.fresh h))).move t (.made h c ref) s.lock)
              | some _ => none
      | _ => none
  | .store t =>
      match s.pc t with
      | .made h c ref => some ((s.setSlot h (some ref)).move t (.leaving h c ref) s.lock)
      | _ => none
  | .leave t =>
      match s.pc t with
      | .leaving h c ref => some (s.move t (.on h c ref) none)
      | _ => none
  | .fail t h c => if s.pc t = .failed h c then some (s.move t .idle none) else none
  | .act t h c i out =>
      match s.pc t with
      | .on h' c' ref =>
          if h' = h ∧ c' = c then
            (s.heap ref).bind fun o => (K.act t i c o).bind fun p =>
              if p.2 = out then
                some ((s.setHeap ref (some p.1)).move t (.rest h ref out) s.lock)
              else none
          else none
      | _ => none
  | .giveUp h =>
      match s.slot h with
      | none => some s
      | some ref => some ((s.setHeap ref none).setSlot h none)

/-- What callers promise: they begin with entry calls, and give an object up when no call is
    on it. -/
def Allowed (K : Kind Thread Handle Obj Input Call Result)
    (s : State Thread Handle Ref Obj Call) : Label Thread Handle Ref Input Call Result → Prop
  | .begin _ _ c => K.Entry c
  | .giveUp h => (∀ t, ((s.pc t).call).map Prod.fst ≠ some h) ∧ K.Retired (s.object K h)
  | _ => True

instance [Fintype Thread] [DecidablePred K.Entry] [DecidablePred K.Retired]
    (s : State Thread Handle Ref Obj Call) (l : Label Thread Handle Ref Input Call Result) :
    Decidable (Allowed K s l) :=
  match l with
  | .begin _ _ c => inferInstanceAs (Decidable (K.Entry c))
  | .giveUp _ => inferInstanceAs (Decidable (_ ∧ _))
  | .look _ | .absent .. | .enter _ | .lookAgain _ | .create .. | .store _ | .leave _
  | .fail .. | .act .. => isTrue trivial

def Initial (s : State Thread Handle Ref Obj Call) : Prop :=
  (∀ h, s.slot h = none) ∧ (∀ ref, s.heap ref = none) ∧ s.lock = none ∧ ∀ t, s.pc t = .idle

@[simp] theorem pc_move_self (s : State Thread Handle Ref Obj Call) (t : Thread)
    (p : Pc Handle Ref Call) (lock : Option Thread) : (s.move t p lock).pc t = p :=
  Function.update_self _ _ _

@[simp] theorem pc_move_other (s : State Thread Handle Ref Obj Call) {t u : Thread}
    (p : Pc Handle Ref Call) (lock : Option Thread) (h : u ≠ t) :
    (s.move t p lock).pc u = s.pc u :=
  Function.update_of_ne h _ _

@[simp] theorem heap_setHeap_self (s : State Thread Handle Ref Obj Call) (ref : Ref)
    (o : Option Obj) : (s.setHeap ref o).heap ref = o :=
  Function.update_self _ _ _

@[simp] theorem heap_setHeap_other (s : State Thread Handle Ref Obj Call) {ref r : Ref}
    (o : Option Obj) (h : r ≠ ref) : (s.setHeap ref o).heap r = s.heap r :=
  Function.update_of_ne h _ _

@[simp] theorem slot_setSlot_self (s : State Thread Handle Ref Obj Call) (h : Handle)
    (ref : Option Ref) : (s.setSlot h ref).slot h = ref :=
  Function.update_self _ _ _

@[simp] theorem slot_setSlot_other (s : State Thread Handle Ref Obj Call) {h k : Handle}
    (ref : Option Ref) (hk : k ≠ h) : (s.setSlot h ref).slot k = s.slot k :=
  Function.update_of_ne hk _ _

/-! ## The invariant -/

/-- What a thread relies on, by where it is. -/
def PcOk (K : Kind Thread Handle Obj Input Call Result)
    (s : State Thread Handle Ref Obj Call) : Pc Handle Ref Call → Prop
  | .idle | .called _ _ => True
  | .missed _ c | .entered _ c => K.absent c = none
  | .creating h c | .failed h c => K.absent c = none ∧ s.slot h = none
  | .made h c ref => K.absent c = none ∧ s.slot h = none ∧ s.heap ref = some (K.fresh h) ∧
      ∀ k, s.slot k ≠ some ref
  | .leaving h _ ref | .on h _ ref => s.slot h = some ref

structure Inv (K : Kind Thread Handle Obj Input Call Result)
    (s : State Thread Handle Ref Obj Call) : Prop where
  live : ∀ h ref, s.slot h = some ref → ∃ o, s.heap ref = some o
  own : ∀ h k ref, s.slot h = some ref → s.slot k = some ref → h = k
  inside : ∀ t, (s.pc t).Inside → s.lock = some t
  ok : ∀ t, PcOk K s (s.pc t)

section

variable {s : State Thread Handle Ref Obj Call} {t : Thread} {p : Pc Handle Ref Call}
  {lock : Option Thread} {h : Handle} {c : Call} {ref : Ref}

theorem Inv.initial (h0 : Initial s) : Inv K s where
  live h ref hslot := by simp [h0.1] at hslot
  own h k ref hslot := by simp [h0.1] at hslot
  inside t hin := by simp [h0.2.2.2, Pc.Inside] at hin
  ok t := by simp [h0.2.2.2, PcOk]

/-- One thread at most is in the lock. -/
theorem Inv.alone (hi : Inv K s) {u : Thread} (ht : (s.pc t).Inside) (hu : (s.pc u).Inside) :
    u = t := by
  have hlock := hi.inside u hu
  rw [hi.inside t ht] at hlock
  exact (Option.some_inj.mp hlock).symm

theorem Inv.at (hi : Inv K s) (hp : s.pc t = p) : PcOk K s p := hp ▸ hi.ok t

/-- A step of a thread that touches no slot and no object. -/
theorem Inv.move (hi : Inv K s) (hok : PcOk K s p) (hin : p.Inside → lock = some t)
    (hothers : ∀ u, u ≠ t → (s.pc u).Inside → lock = some u) : Inv K (s.move t p lock) where
  live := hi.live
  own := hi.own
  inside u hu := by
    by_cases hut : u = t
    · subst hut
      exact hin (by simpa using hu)
    · exact hothers u hut (by simpa [hut] using hu)
  ok u := by
    by_cases hut : u = t
    · subst hut
      rw [pc_move_self]
      exact hok
    · rw [pc_move_other _ _ _ hut]
      exact hi.ok u

/-- Outside the lock. -/
theorem Inv.outside (hi : Inv K s) (hok : PcOk K s p) (hin : ¬p.Inside) :
    Inv K (s.move t p s.lock) :=
  hi.move hok (fun h => absurd h hin) fun u _ hu => hi.inside u hu

/-- Within the lock. -/
theorem Inv.within (hi : Inv K s) (hok : PcOk K s p) (ht : (s.pc t).Inside) :
    Inv K (s.move t p s.lock) :=
  hi.move hok (fun _ => hi.inside t ht) fun u _ hu => hi.inside u hu

/-- Out of the lock. -/
theorem Inv.leave (hi : Inv K s) (hok : PcOk K s p) (ht : (s.pc t).Inside) (hin : ¬p.Inside) :
    Inv K (s.move t p none) :=
  hi.move hok (fun h => absurd h hin) fun _ hut hu => absurd (hi.alone ht hu) hut

/-- A change of an object that no thread has just made. -/
theorem Inv.setHeap (hi : Inv K s) {o : Option Obj} (ho : ∀ k, s.slot k = some ref → o.isSome)
    (hmade : ∀ u k c, s.pc u ≠ .made k c ref) : Inv K (s.setHeap ref o) where
  live k r hslot := by
    by_cases hr : r = ref
    · subst hr
      rw [heap_setHeap_self]
      exact Option.isSome_iff_exists.mp (ho k hslot)
    · rw [heap_setHeap_other _ _ hr]
      exact hi.live k r hslot
  own := hi.own
  inside := hi.inside
  ok u := by
    have hu := hi.ok u
    show PcOk K _ (s.pc u)
    cases hp : s.pc u with
    | made k c r =>
        rw [hp] at hu
        have hr : r ≠ ref := by
          rintro rfl
          exact hmade u k c hp
        exact ⟨hu.1, hu.2.1, by rw [heap_setHeap_other _ _ hr]; exact hu.2.2.1, hu.2.2.2⟩
    | _ => rw [hp] at hu; exact hu

/-- The thread that made an object is the only one to know of it, and stores it where no
    object is. -/
theorem Inv.store (hi : Inv K s) (hp : s.pc t = .made h c ref) :
    Inv K ((s.setSlot h (some ref)).move t (.leaving h c ref) s.lock) := by
  obtain ⟨-, hempty, hheap, hunknown⟩ := hi.at hp
  have ht : (s.pc t).Inside := by
    rw [hp]
    trivial
  refine { live := ?_, own := ?_, inside := ?_, ok := ?_ }
  · intro k r hslot
    by_cases hk : k = h
    · subst hk
      obtain rfl : ref = r := Option.some_inj.mp ((slot_setSlot_self s k _).symm.trans hslot)
      exact ⟨_, hheap⟩
    · exact hi.live k r ((slot_setSlot_other s _ hk).symm.trans hslot)
  · intro k k' r hk hk'
    have hcases : ∀ j, (s.setSlot h (some ref)).slot j = some r →
        (j = h ∧ ref = r) ∨ s.slot j = some r := by
      intro j hj
      by_cases hjh : j = h
      · subst hjh
        rw [slot_setSlot_self] at hj
        exact .inl ⟨rfl, Option.some_inj.mp hj⟩
      · rw [slot_setSlot_other _ _ hjh] at hj
        exact .inr hj
    rcases hcases k hk with ⟨hkh, hr⟩ | hk <;> rcases hcases k' hk' with ⟨hkh', hr'⟩ | hk'
    · exact hkh.trans hkh'.symm
    · exact absurd (hk'.trans (congrArg some hr.symm)) (hunknown k')
    · exact absurd (hk.trans (congrArg some hr'.symm)) (hunknown k)
    · exact hi.own k k' r hk hk'
  · intro u hu
    by_cases hut : u = t
    · subst hut
      exact hi.inside u ht
    · rw [pc_move_other _ _ _ hut] at hu
      exact hi.inside u hu
  · intro u
    by_cases hut : u = t
    · subst hut
      rw [pc_move_self]
      exact slot_setSlot_self s h _
    · rw [pc_move_other _ _ _ hut]
      have hu := hi.ok u
      have hout : ¬(s.pc u).Inside := fun hin => hut (hi.alone ht hin)
      show PcOk K _ (s.pc u)
      cases hpu : s.pc u with
      | on k c' r =>
          rw [hpu] at hu
          have hk : k ≠ h := by
            rintro rfl
            rw [show s.slot k = some r from hu] at hempty
            cases hempty
          exact (slot_setSlot_other s _ hk).trans hu
      | idle | called k c' => trivial
      | missed k c' => rw [hpu] at hu; exact hu
      | entered k c' | creating k c' | made k c' r | leaving k c' r | failed k c' =>
          rw [hpu] at hout
          exact absurd trivial hout

/-- A slot is emptied that no call relies on. -/
theorem Inv.empty (hi : Inv K s) (hnone : ∀ t, ((s.pc t).call).map Prod.fst ≠ some h) :
    Inv K (s.setSlot h none) := by
  have hold : ∀ k r, (s.setSlot h none).slot k = some r → s.slot k = some r := by
    intro k r hslot
    by_cases hk : k = h
    · subst hk
      rw [slot_setSlot_self] at hslot
      cases hslot
    · rwa [slot_setSlot_other _ _ hk] at hslot
  refine ⟨fun k r hk => hi.live k r (hold k r hk),
    fun k k' r hk hk' => hi.own k k' r (hold k r hk) (hold k' r hk'), hi.inside, ?_⟩
  intro u
  have hu := hi.ok u
  have hcall := hnone u
  show PcOk K _ (s.pc u)
  cases hp : s.pc u with
  | idle | called k c | missed k c | entered k c => rw [hp] at hu; exact hu
  | creating k c | failed k c =>
      rw [hp] at hu hcall
      have hk : k ≠ h := fun hkh => hcall (congrArg some hkh)
      exact ⟨hu.1, (slot_setSlot_other s _ hk).trans hu.2⟩
  | made k c r =>
      rw [hp] at hu hcall
      have hk : k ≠ h := fun hkh => hcall (congrArg some hkh)
      exact ⟨hu.1, (slot_setSlot_other s _ hk).trans hu.2.1, hu.2.2.1,
        fun j hj => hu.2.2.2 j (hold j r hj)⟩
  | leaving k c r | on k c r =>
      rw [hp] at hu hcall
      have hk : k ≠ h := fun hkh => hcall (congrArg some hkh)
      exact (slot_setSlot_other s _ hk).trans hu

/-! ## What the callers see -/

end

/-! ## Each step is a step on objects that are there -/

/-- The step is matched by that of its event, or by none. -/
def Matched (K : Kind Thread Handle Obj Input Call Result) (s s' : State Thread Handle Ref Obj Call)
    (l : Label Thread Handle Ref Input Call Result) : Prop :=
  Inv K s' ∧ (l.event = none → s'.eager K = s.eager K) ∧
    ∀ e, l.event = some e → (s.eager K).Allowed K e ∧ (s.eager K).step K e = some (s'.eager K)

section

variable {s s' : State Thread Handle Ref Obj Call}

/-- A step that callers do not see. -/
theorem Matched.silent {l : Label Thread Handle Ref Input Call Result} (hi : Inv K s')
    (hl : l.event = none) (heager : s'.eager K = s.eager K) : Matched K s s' l :=
  ⟨hi, fun _ => heager, fun e he => by rw [hl] at he; cases he⟩

end

end Lazy
end Lib
end NucleoBase
