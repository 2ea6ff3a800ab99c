/-
  NucleoBase.Backend.SystemClock

  The system clock (backend.cpp): `system_time_nanoseconds` computes a
  candidate from whatever clock is left and `publish_system_time` makes the
  largest candidate so far the time of all threads, with a load and a loop of
  weak compare-exchanges on one atomic.

  One event is one load or one compare-exchange of one thread.  What a call
  reads from the counters, from the tick count and from the real-time clock
  comes with the event that begins it, so a candidate may be any value at all
  and may step back from one call to the next.
-/

import NucleoBase.Lib.Run
import Mathlib.Tactic.Common

namespace NucleoBase
namespace Backend
namespace SystemClock

open Lib

/-! ## The candidate -/

/-- `std::numeric_limits<std::int64_t>::max()`. -/
def maximum : Int := 9223372036854775807

/-- What one call reads, converted to nanoseconds. -/
structure Reading where
  /-- `system_clock_epoch_available`. -/
  epochAvailable : Bool
  epoch : Int
  /-- The ticks since the start. -/
  steady : Int
  /-- The result of `high_resolution_elapsed_nanoseconds`, unless it failed. -/
  highResolution : Option Int
  /-- The ticks since the epoch. -/
  coarse : Int
  deriving DecidableEq, Repr

/-- The argument of `publish_system_time`. -/
def Reading.candidate (r : Reading) : Int :=
  if !r.epochAvailable then r.steady
  else
    let elapsed := r.highResolution.getD r.coarse
    if elapsed = maximum ∨ maximum - elapsed < r.epoch then maximum else r.epoch + elapsed

/-! ## The model -/

/-- Where a thread is in `publish_system_time`. -/
inductive Pc
  | idle
  | load (candidate : Int)
  | exchange (candidate previous : Int)
  | leave (result : Int)
  deriving DecidableEq, Repr

structure State (Thread : Type*) where
  /-- `last_system_time_nanoseconds`. -/
  published : Int
  pc : Thread → Pc

inductive Event (Thread : Type*)
  | call (t : Thread) (reading : Reading)
  | load (t : Thread)
  | exchange (t : Thread) (spurious : Bool)
  | leave (t : Thread) (result : Int)
  deriving DecidableEq, Repr

variable {Thread : Type*} [DecidableEq Thread]

def State.goto (s : State Thread) (t : Thread) (pc : Pc) : State Thread :=
  { s with pc := Function.update s.pc t pc }

/-- The loop condition, and what is returned when it fails. -/
def test (candidate previous : Int) : Pc :=
  if previous < candidate then .exchange candidate previous else .leave previous

def step (s : State Thread) : Event Thread → Option (State Thread)
  | .call t r => if s.pc t = .idle then some (s.goto t (.load r.candidate)) else none
  | .load t =>
      match s.pc t with
      | .load c => some (s.goto t (test c s.published))
      | _ => none
  | .exchange t spurious =>
      match s.pc t with
      | .exchange c p =>
          if s.published = p ∧ spurious = false then
            -- `previous` keeps its old value, which is smaller
            some ({ s with published := c }.goto t (.leave c))
          else some (s.goto t (test c s.published))
      | _ => none
  | .leave t result =>
      if s.pc t = .leave result then some (s.goto t .idle) else none

def init (s : State Thread) : Prop := s.published = 0 ∧ ∀ t, s.pc t = .idle

/-! ## The history -/

/-- Every candidate so far. -/
def candidates : List (Event Thread) → List Int
  | [] => []
  | .call _ r :: h => r.candidate :: candidates h
  | _ :: h => candidates h

/-- Every value a finished call has returned. -/
def returned : List (Event Thread) → List Int
  | [] => []
  | .leave _ v :: h => v :: returned h
  | _ :: h => returned h

/-- The candidate of the last call of `t`. -/
def candidateOf (t : Thread) : List (Event Thread) → Option Int
  | [] => none
  | .call u r :: h => if u = t then some r.candidate else candidateOf t h
  | _ :: h => candidateOf t h

/-- The values of the calls that had finished when the last call of `t` began. -/
def returnedBefore (t : Thread) : List (Event Thread) → List Int
  | [] => []
  | .call u _ :: h => if u = t then returned h else returnedBefore t h
  | _ :: h => returnedBefore t h

/-- A value is the initial time or some call's candidate. -/
def Genuine (h : List (Event Thread)) (v : Int) : Prop := v = 0 ∨ v ∈ candidates h

/-! ## The invariant -/

/-- What holds of a thread at its program point. -/
def Ok (h : List (Event Thread)) (published : Int) (t : Thread) : Pc → Prop
  | .idle => True
  | .load c => candidateOf t h = some c ∧ ∀ v ∈ returnedBefore t h, v ≤ published
  | .exchange c p =>
      candidateOf t h = some c ∧ p < c ∧ p ≤ published ∧ ∀ v ∈ returnedBefore t h, v ≤ p
  | .leave r =>
      (∀ c ∈ candidateOf t h, c ≤ r) ∧ r ≤ published ∧ Genuine h r ∧
        ∀ v ∈ returnedBefore t h, v ≤ r

structure Inv (h : List (Event Thread)) (s : State Thread) : Prop where
  ok : ∀ t, Ok h s.published t (s.pc t)
  genuine : Genuine h s.published
  returned : ∀ v ∈ returned h, v ≤ s.published
  /-- The candidate of a call in progress is among the candidates. -/
  candidate : ∀ t, ∀ c ∈ candidateOf t h, c ∈ candidates h

section Steps

variable {h : List (Event Thread)} {s s' : State Thread} {e : Event Thread} {t u : Thread}
  {c p v w : Int}

@[simp] theorem pc_goto (pc : Pc) : (s.goto t pc).pc u = if u = t then pc else s.pc u := by
  simp [State.goto, Function.update_apply]

@[simp] theorem published_goto (pc : Pc) : (s.goto t pc).published = s.published := rfl

/-- The published time only grows, and no thread minds. -/
theorem Ok.mono {pc : Pc} (hok : Ok h v t pc) (hvw : v ≤ w) : Ok h w t pc := by
  cases pc with
  | idle => trivial
  | load c => exact ⟨hok.1, fun x hx => Int.le_trans (hok.2 x hx) hvw⟩
  | exchange c p => exact ⟨hok.1, hok.2.1, Int.le_trans hok.2.2.1 hvw, hok.2.2.2⟩
  | leave r => exact ⟨hok.1, Int.le_trans hok.2.1 hvw, hok.2.2⟩

/-- A read of the published time decides what the loop does next. -/
theorem ok_test (hc : candidateOf t h = some c) (hg : Genuine h v)
    (hv : ∀ x ∈ returnedBefore t h, x ≤ v) : Ok h v t (test c v) := by
  unfold test
  split
  · rename_i hlt
    exact ⟨hc, hlt, Int.le_refl v, hv⟩
  · rename_i hlt
    refine ⟨fun c' hc' => ?_, Int.le_refl v, hg, hv⟩
    rw [hc] at hc'
    cases hc'
    omega

/-- The event begins no call and ends none. -/
def Event.silent : Event Thread → Bool
  | .load _ | .exchange _ _ => true
  | _ => false

theorem Ok.silent {pc : Pc} (he : e.silent = true) : Ok (e :: h) v t pc ↔ Ok h v t pc := by
  cases e with
  | call | leave => cases he
  | load | exchange => exact Iff.rfl

/-- A step of the loop leaves the history as it was. -/
theorem Inv.loop (inv : Inv h s) (he : e.silent = true) (hs : s.published ≤ s'.published)
    (hg : Genuine h s'.published) (hother : ∀ u, u ≠ t → s'.pc u = s.pc u)
    (hself : Ok h s'.published t (s'.pc t)) : Inv (e :: h) s' := by
  have hret : SystemClock.returned (e :: h) = SystemClock.returned h := by
    cases e <;> first | rfl | cases he
  have hcand : candidates (e :: h) = candidates h := by cases e <;> first | rfl | cases he
  have hof : ∀ u, candidateOf u (e :: h) = candidateOf u h := by
    cases e <;> first | exact fun _ => rfl | cases he
  refine ⟨fun u => (Ok.silent he).mpr ?_, ?_, fun x hx => ?_, fun u c' hc' => ?_⟩
  · rcases eq_or_ne u t with rfl | hu
    · exact hself
    · rw [hother u hu]
      exact (inv.ok u).mono hs
  · rw [Genuine, hcand]
    exact hg
  · rw [hret] at hx
    exact Int.le_trans (inv.returned x hx) hs
  · rw [hof] at hc'
    rw [hcand]
    exact inv.candidate u c' hc'

theorem Inv.initial (h0 : init s) : Inv [] s := by
  obtain ⟨hzero, hidle⟩ := h0
  refine ⟨fun t => ?_, .inl hzero, by simp [SystemClock.returned], by simp [candidateOf]⟩
  rw [hidle]
  trivial

theorem Inv.call (inv : Inv h s) (hpc : s.pc t = .idle) (r : Reading) :
    Inv (.call t r :: h) (s.goto t (.load r.candidate)) := by
  have hgrow : ∀ {v}, Genuine h v → Genuine (.call t r :: h) v := fun hv =>
    hv.imp_right (List.mem_cons_of_mem _)
  refine ⟨fun u => ?_, hgrow inv.genuine, inv.returned, fun u c hc => ?_⟩
  · by_cases hu : u = t
    · subst hu
      have hbefore : returnedBefore u (.call u r :: h) = SystemClock.returned h := if_pos rfl
      simp only [pc_goto, if_true, published_goto]
      exact ⟨if_pos rfl, by rw [hbefore]; exact inv.returned⟩
    · have hok := inv.ok u
      have hof : candidateOf u (.call t r :: h) = candidateOf u h := if_neg (Ne.symm hu)
      have hbefore : returnedBefore u (.call t r :: h) = returnedBefore u h :=
        if_neg (Ne.symm hu)
      simp only [pc_goto, if_neg hu, published_goto]
      cases hp : s.pc u with
      | idle => trivial
      | load c =>
          rw [hp] at hok
          simpa only [Ok, hof, hbefore] using hok
      | exchange c p =>
          rw [hp] at hok
          simpa only [Ok, hof, hbefore] using hok
      | leave v =>
          rw [hp] at hok
          simp only [Ok, hof, hbefore]
          exact ⟨hok.1, hok.2.1, hgrow hok.2.2.1, hok.2.2.2⟩
  · by_cases hu : u = t
    · simp only [candidateOf, hu, if_true, Option.mem_some_iff] at hc
      subst hc
      exact List.mem_cons_self
    · have hof : candidateOf u (.call t r :: h) = candidateOf u h := if_neg (Ne.symm hu)
      rw [hof] at hc
      exact List.mem_cons_of_mem _ (inv.candidate u c hc)

theorem Inv.load (inv : Inv h s) (hpc : s.pc t = .load c) :
    Inv (.load t :: h) (s.goto t (test c s.published)) := by
  have hok := inv.ok t
  rw [hpc] at hok
  refine inv.loop (t := t) rfl (Int.le_refl _) inv.genuine (fun u hu => by simp [hu]) ?_
  simpa using ok_test hok.1 inv.genuine hok.2

/-- The compare-exchange found the value it expected, which is smaller. -/
theorem Inv.exchange (inv : Inv h s) (hpc : s.pc t = .exchange c s.published) (b : Bool) :
    Inv (.exchange t b :: h) ({ s with published := c }.goto t (.leave c)) := by
  have hok := inv.ok t
  rw [hpc] at hok
  obtain ⟨hc, hlt, -, hbefore⟩ := hok
  have hgenuine : Genuine h c := .inr (inv.candidate t c hc)
  refine inv.loop (t := t) rfl (Int.le_of_lt hlt) hgenuine (fun u hu => by simp [hu]) ?_
  simp only [pc_goto, if_true, published_goto]
  refine ⟨fun c' hc' => ?_, Int.le_refl c, hgenuine, fun v hv => ?_⟩
  · rw [hc] at hc'
    cases hc'
    exact Int.le_refl c
  · exact Int.le_trans (hbefore v hv) (Int.le_of_lt hlt)

theorem Inv.retry (inv : Inv h s) (hpc : s.pc t = .exchange c p) (b : Bool) :
    Inv (.exchange t b :: h) (s.goto t (test c s.published)) := by
  have hok := inv.ok t
  rw [hpc] at hok
  obtain ⟨hc, hlt, hp, hbefore⟩ := hok
  refine inv.loop (t := t) rfl (Int.le_refl _) inv.genuine (fun u hu => by simp [hu]) ?_
  simpa using ok_test hc inv.genuine fun v hv => Int.le_trans (hbefore v hv) hp

theorem Inv.leave (inv : Inv h s) (hpc : s.pc t = .leave v) :
    Inv (.leave t v :: h) (s.goto t .idle) := by
  have hok := inv.ok t
  rw [hpc] at hok
  refine ⟨fun u => ?_, inv.genuine, fun x hx => ?_, inv.candidate⟩
  · by_cases hu : u = t
    · simp only [pc_goto, if_pos hu]
      trivial
    · simp only [pc_goto, if_neg hu, published_goto]
      have hu := inv.ok u
      cases hp : s.pc u with
      | idle => trivial
      | load c => rw [hp] at hu; exact hu
      | exchange c p => rw [hp] at hu; exact hu
      | leave r => rw [hp] at hu; exact hu
  · rcases List.mem_cons.mp hx with rfl | hx
    · exact hok.2.1
    · exact inv.returned x hx

theorem Inv.preserve (inv : Inv h s) (hs : step s e = some s') : Inv (e :: h) s' := by
  cases e with
  | call t r =>
      obtain ⟨hpc, hs⟩ := Option.ite_none_right_eq_some.mp hs
      cases hs
      exact inv.call hpc r
  | load t =>
      simp only [step] at hs
      split at hs
      · rename_i c hpc
        cases hs
        exact inv.load hpc
      · cases hs
  | exchange t b =>
      simp only [step] at hs
      split at hs
      · rename_i c p hpc
        split at hs
        · rename_i hsame
          cases hs
          exact inv.exchange (by rw [hpc, hsame.1]) b
        · cases hs
          exact inv.retry hpc b
      · cases hs
  | leave t v =>
      obtain ⟨hpc, hs⟩ := Option.ite_none_right_eq_some.mp hs
      cases hs
      exact inv.leave hpc

/-- No step takes the published time back. -/
theorem Inv.published_le (inv : Inv h s) (hs : step s e = some s') :
    s.published ≤ s'.published := by
  cases e with
  | call t r =>
      obtain ⟨-, hs⟩ := Option.ite_none_right_eq_some.mp hs
      cases hs
      exact Int.le_refl _
  | load t =>
      simp only [step] at hs
      split at hs
      · cases hs
        exact Int.le_refl _
      · cases hs
  | exchange t b =>
      simp only [step] at hs
      split at hs
      · rename_i c p hpc
        have hok := inv.ok t
        rw [hpc] at hok
        split at hs
        · rename_i hsame
          cases hs
          have hlt : p < c := hok.2.1
          simp only [published_goto, hsame.1]
          omega
        · cases hs
          exact Int.le_refl _
      · cases hs
  | leave t v =>
      obtain ⟨-, hs⟩ := Option.ite_none_right_eq_some.mp hs
      cases hs
      exact Int.le_refl _

/-! ## The guarantee -/

theorem inv_of_run (hrun : Run step anyStep init h s) : Inv h s :=
  Run.history_invariant (I := Inv) (fun _ h0 => Inv.initial h0)
    (fun _ _ _ _ inv _ hs => inv.preserve hs) hrun

/-- What the clock guarantees after a run with history `h`. -/
structure Guarantee (h : List (Event Thread)) (s : State Thread) : Prop where
  /-- The published time never decreases. -/
  monotone : ∀ e s', step s e = some s' → s.published ≤ s'.published
  /-- A call returns at least its own candidate, -/
  own : ∀ t v s', step s (.leave t v) = some s' → ∀ c ∈ candidateOf t h, c ≤ v
  /-- at least what every call returned that had finished before it began, -/
  finished : ∀ t v s', step s (.leave t v) = some s' → ∀ x ∈ returnedBefore t h, x ≤ v
  /-- and nothing that is neither a candidate nor the initial time. -/
  genuine : ∀ t v s', step s (.leave t v) = some s' → v = 0 ∨ v ∈ candidates h

/-- The system clock keeps its guarantee in every interleaving, whatever the
    candidates are and however often a compare-exchange fails. -/
theorem clock_guarantee (hrun : Run step anyStep init h s) : Guarantee h s := by
  have inv := inv_of_run hrun
  have hleave : ∀ t v s', step s (.leave t v) = some s' → Ok h s.published t (.leave v) := by
    intro t v s' hs
    obtain ⟨hpc, -⟩ := Option.ite_none_right_eq_some.mp hs
    exact hpc ▸ inv.ok t
  exact ⟨fun e s' hs => inv.published_le hs, fun t v s' hs => (hleave t v s' hs).1,
    fun t v s' hs => (hleave t v s' hs).2.2.2, fun t v s' hs => (hleave t v s' hs).2.2.1⟩

end Steps

/-- A reading of the tick count alone. -/
def Reading.ofTicks (ns : Int) : Reading := ⟨false, 0, ns, none, 0⟩

def startClock : State Bool := ⟨0, fun _ => .idle⟩

/-- Both threads load 0; the compare-exchange of the smaller candidate loses,
    after it has failed spuriously once. -/
def race : List (Event Bool) :=
  [.call false (.ofTicks 5), .call true (.ofTicks 9), .load false, .load true,
   .exchange false true, .exchange true false, .exchange false false, .leave true 9]

theorem clock_guarantee_race :
    ∃ s, replay step startClock race = some s ∧ s.pc false = .leave 9 ∧
      Guarantee race.reverse s :=
  ⟨_, rfl, rfl, clock_guarantee
    (Run.of_replay ⟨rfl, fun _ => rfl⟩ (guarded_anyStep [] startClock race) rfl)⟩

end SystemClock
end Backend
end NucleoBase
