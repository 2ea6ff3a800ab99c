/-
  NucleoBase.Backend.ThreadAtexit

  The destructors of thread-local objects (libstdcxx/tls.cpp): the lists that
  `__cxa_thread_atexit` pushes on, the list of the startup context that
  `runtime_tls_adopt_startup` hands to the application thread, and the loop of
  `runtime_tls_thread_exit`, in which the destructors may push again.

  A list is only used by its own context, so a push is one event; the loop is
  taken apart at the call of a destructor.  Elements live in a heap that may
  give a freed address again.  A read or a free of an address that is not
  allocated is a fault.
-/

import NucleoBase.Lib.Chain
import NucleoBase.Lib.Run
import Mathlib.Data.List.Perm.Basic

namespace NucleoBase
namespace Backend
namespace ThreadAtexit

open Lib

/-! ## The model -/

abbrev Address := Nat

/-- A successful registration; `id` counts them and is bookkeeping. -/
structure Registration where
  id : Nat
  function : Address
  object : Address
  deriving DecidableEq, Repr

/-- `ThreadLocalDestructor`. -/
structure Element where
  registration : Registration
  next : Option Address
  deriving DecidableEq, Repr

abbrev Heap := Address → Option Element

/-- Who registers: code before the scheduler starts, or a thread. -/
inductive Context (Thread : Type*)
  | startup
  | thread (t : Thread)
  deriving DecidableEq, Repr

/-- Where a thread is. -/
inductive Pc
  | body
  /-- At the head of the loop, with `current`. -/
  | head (current : Option Address)
  /-- In the destructor of `current`. -/
  | calling (current : Address)
  | done
  | fault
  deriving DecidableEq, Repr

structure State (Thread : Type*) where
  heap : Heap
  /-- `startup_destructors`, and each thread's `tx_thread_runtime_tls_destructors`. -/
  first : Context Thread → Option Address
  /-- `tx_application_define` has returned. -/
  started : Bool
  pc : Thread → Pc
  /-- The successful registrations so far. -/
  registrations : Nat

inductive Event (Thread : Type*)
  /-- `__cxa_thread_atexit`, with what `new` gives. -/
  | register (c : Context Thread) (function : Option Address) (object : Address)
      (allocated : Option Address)
  /-- `runtime_tls_adopt_startup`, after all startup code. -/
  | adopt (t : Thread)
  /-- `runtime_tls_thread_exit` is called. -/
  | exit (t : Thread)
  /-- `current` is unlinked and its destructor called. -/
  | call (t : Thread) (function object : Address)
  /-- The destructor has returned, and `current` is deleted. -/
  | free (t : Thread)
  /-- The loop ends. -/
  | leave (t : Thread)
  deriving DecidableEq, Repr

variable {Thread : Type*} [DecidableEq Thread]

def State.goto (s : State Thread) (t : Thread) (pc : Pc) : State Thread :=
  { s with pc := Function.update s.pc t pc }

/-- `__cxa_thread_atexit`, and the value it returns. -/
def State.cxaThreadAtexit (s : State Thread) (c : Context Thread) (function : Option Address)
    (object : Address) (allocated : Option Address) : State Thread × Int :=
  match allocated, function with
  | some a, some f =>
      ({ s with
          heap := Function.update s.heap a (some ⟨⟨s.registrations, f, object⟩, s.first c⟩)
          first := Function.update s.first c (some a)
          registrations := s.registrations + 1 }, 0)
  -- `delete element` of a null pointer, or of the element just made
  | _, _ => (s, -1)

/-- The context runs code that may register. -/
def State.MayRegister (s : State Thread) : Context Thread → Prop
  | .startup => s.started = false
  | .thread t => s.started = true ∧ (s.pc t = .body ∨ ∃ a, s.pc t = .calling a)

instance (pc : Pc) : Decidable (∃ a, pc = .calling a) :=
  match pc with
  | .calling a => isTrue ⟨a, rfl⟩
  | .body => isFalse fun ⟨_, h⟩ => Pc.noConfusion h
  | .head _ => isFalse fun ⟨_, h⟩ => Pc.noConfusion h
  | .done => isFalse fun ⟨_, h⟩ => Pc.noConfusion h
  | .fault => isFalse fun ⟨_, h⟩ => Pc.noConfusion h

instance (s : State Thread) (c : Context Thread) : Decidable (s.MayRegister c) :=
  match c with
  | .startup => inferInstanceAs (Decidable (_ = _))
  | .thread _ => inferInstanceAs (Decidable (_ ∧ _))

/-- The lists in `runtime_tls_adopt_startup`. -/
def State.adoptStartup (s : State Thread) (t : Thread) : State Thread :=
  { s with
    first := Function.update (Function.update s.first (.thread t) (s.first .startup)) .startup none
    started := true }

def step (s : State Thread) : Event Thread → Option (State Thread)
  | .register c function object allocated =>
      if s.MayRegister c ∧ ∀ a ∈ allocated, s.heap a = none then
        some (s.cxaThreadAtexit c function object allocated).1
      else none
  | .adopt t => if s.started then none else some (s.adoptStartup t)
  | .exit t =>
      if s.started ∧ s.pc t = .body then some (s.goto t (.head (s.first (.thread t)))) else none
  | .call t function object =>
      match s.pc t with
      | .head (some current) =>
          match s.heap current with
          | none => some (s.goto t .fault)
          | some e =>
              if e.registration.function = function ∧ e.registration.object = object then
                some ({ s with first := Function.update s.first (.thread t) e.next }.goto t
                  (.calling current))
              else none
      | _ => none
  | .free t =>
      match s.pc t with
      | .calling current =>
          if (s.heap current).isSome then
            some ({ s with heap := Function.update s.heap current none }.goto t
              (.head (s.first (.thread t))))
          else some (s.goto t .fault)
      | _ => none
  | .leave t => if s.pc t = .head none then some (s.goto t .done) else none

/-- After the threads' creation, before any registration. -/
def init (s : State Thread) : Prop :=
  s.heap = (fun _ => none) ∧ s.first = (fun _ => none) ∧ s.started = false ∧
    s.pc = (fun _ => .body) ∧ s.registrations = 0

/-! ## The stacks

What the lists are for, as functions of the history: each context has a stack
of registrations, which adoption puts below the thread's own. -/

/-- The successful registrations so far. -/
def count : List (Event Thread) → Nat
  | [] => 0
  | .register _ (some _) _ (some _) :: h => count h + 1
  | _ :: h => count h

/-- The registrations of a context that have not been run, most recent first. -/
def pending : List (Event Thread) → Context Thread → List Registration
  | [] => fun _ => []
  | .register c (some f) object (some _) :: h =>
      Function.update (pending h) c (⟨count h, f, object⟩ :: pending h c)
  | .adopt t :: h =>
      Function.update (Function.update (pending h) (.thread t)
        (pending h (.thread t) ++ pending h .startup)) .startup []
  | .call t _ _ :: h => Function.update (pending h) (.thread t) (pending h (.thread t)).tail
  | _ :: h => pending h

/-- All registrations that belong to a context, most recent first. -/
def owned : List (Event Thread) → Context Thread → List Registration
  | [] => fun _ => []
  | .register c (some f) object (some _) :: h =>
      Function.update (owned h) c (⟨count h, f, object⟩ :: owned h c)
  | .adopt t :: h =>
      Function.update (Function.update (owned h) (.thread t)
        (owned h (.thread t) ++ owned h .startup)) .startup []
  | _ :: h => owned h

/-- The registrations whose destructors a thread has called, last one first. -/
def called : List (Event Thread) → Thread → List Registration
  | [] => fun _ => []
  | .call t _ _ :: h =>
      Function.update (called h) t ((pending h (.thread t)).take 1 ++ called h t)
  | _ :: h => called h

/-- The registrations whose elements a thread has deleted after their calls. -/
def freed : List (Event Thread) → Thread → List Registration
  | [] => fun _ => []
  | .free t :: h => Function.update (freed h) t ((called h t).take 1 ++ freed h t)
  | _ :: h => freed h

/-- Every call was the call of the most recent pending registration, on its object. -/
def CallsNewest : List (Event Thread) → Prop
  | [] => True
  | .call t f object :: h =>
      (∃ r ∈ (pending h (.thread t)).head?, r.function = f ∧ r.object = object) ∧ CallsNewest h
  | _ :: h => CallsNewest h

/-! ## Facts about histories -/

section Histories

variable {h : List (Event Thread)} {c d : Context Thread} {t : Thread} {r r' : Registration}

/-- Nothing is lost: what a context owns has been called or is pending. -/
theorem owned_perm (h : List (Event Thread)) :
    (∀ t, (owned h (.thread t)).Perm (called h t ++ pending h (.thread t))) ∧
      owned h .startup = pending h .startup := by
  induction h with
  | nil => exact ⟨fun _ => List.Perm.refl _, rfl⟩
  | cons e h ih =>
      obtain ⟨ih, ihstartup⟩ := ih
      cases e with
      | register c function object allocated =>
          cases function with
          | none => exact ⟨ih, ihstartup⟩
          | some f =>
              cases allocated with
              | none => exact ⟨ih, ihstartup⟩
              | some a =>
                  simp only [owned, pending, called]
                  cases c with
                  | startup =>
                      refine ⟨fun t => ?_, ?_⟩
                      · rw [Function.update_of_ne (by simp), Function.update_of_ne (by simp)]
                        exact ih t
                      · rw [Function.update_self, Function.update_self, ihstartup]
                  | thread u =>
                      refine ⟨fun t => ?_, ?_⟩
                      · by_cases htu : t = u
                        · subst htu
                          rw [Function.update_self, Function.update_self]
                          exact ((ih t).cons _).trans List.perm_middle.symm
                        · have hne : Context.thread t ≠ .thread u := by simpa using htu
                          rw [Function.update_of_ne hne, Function.update_of_ne hne]
                          exact ih t
                      · rw [Function.update_of_ne (by simp), Function.update_of_ne (by simp),
                          ihstartup]
      | adopt u =>
          simp only [owned, pending, called]
          refine ⟨fun t => ?_, by rw [Function.update_self, Function.update_self]⟩
          have hstartup : Context.thread t ≠ .startup := by simp
          simp only [Function.update_of_ne hstartup]
          by_cases htu : t = u
          · subst htu
            rw [Function.update_self, Function.update_self, ihstartup, ← List.append_assoc]
            exact (ih t).append_right _
          · have hne : Context.thread t ≠ .thread u := by simpa using htu
            rw [Function.update_of_ne hne, Function.update_of_ne hne]
            exact ih t
      | call u f object =>
          simp only [owned, pending, called]
          refine ⟨fun t => ?_, by rw [Function.update_of_ne (by simp), ihstartup]⟩
          by_cases htu : t = u
          · subst htu
            rw [Function.update_self, Function.update_self]
            -- the head moves from the pending ones to the called ones
            refine (ih t).trans ?_
            cases hpending : pending h (.thread t) with
            | nil => simp
            | cons r rest => exact List.perm_middle
          · have hne : Context.thread t ≠ .thread u := by simpa using htu
            rw [Function.update_of_ne hne, Function.update_of_ne htu]
            exact ih t
      | exit u | free u | leave u => exact ⟨ih, ihstartup⟩

/-- What is pending is owned, in the same order. -/
theorem pending_sublist (h : List (Event Thread)) (c : Context Thread) :
    (pending h c).Sublist (owned h c) := by
  induction h generalizing c with
  | nil => exact List.Sublist.refl _
  | cons e h ih =>
      cases e with
      | register d function object allocated =>
          cases function with
          | none => exact ih c
          | some f =>
              cases allocated with
              | none => exact ih c
              | some a =>
                  simp only [owned, pending]
                  by_cases hcd : c = d
                  · subst hcd
                    rw [Function.update_self, Function.update_self]
                    exact (ih c).cons_cons _
                  · rw [Function.update_of_ne hcd, Function.update_of_ne hcd]
                    exact ih c
      | adopt u =>
          simp only [owned, pending]
          by_cases hstartup : c = .startup
          · rw [hstartup, Function.update_self, Function.update_self]
          · rw [Function.update_of_ne hstartup, Function.update_of_ne hstartup]
            by_cases hcu : c = .thread u
            · rw [hcu, Function.update_self, Function.update_self]
              exact (ih _).append (ih _)
            · rw [Function.update_of_ne hcu, Function.update_of_ne hcu]
              exact ih c
      | call u f object =>
          simp only [owned, pending]
          by_cases hcu : c = .thread u
          · rw [hcu, Function.update_self]
            exact (List.tail_sublist _).trans (ih _)
          · rw [Function.update_of_ne hcu]
            exact ih c
      | exit u | free u | leave u => exact ih c

/-- The owned registrations of all contexts have different numbers, all of them given out. -/
structure Numbered (n : Nat) (owned : Context Thread → List Registration) : Prop where
  lt : ∀ c, ∀ r ∈ owned c, r.id < n
  nodup : ∀ c, ((owned c).map Registration.id).Nodup
  apart : ∀ c d, ∀ r ∈ owned c, ∀ r' ∈ owned d, r.id = r'.id → c = d

theorem Numbered.push {n : Nat} {owned : Context Thread → List Registration}
    (hnum : Numbered n owned) (c : Context Thread) (f object : Address) :
    Numbered (n + 1) (Function.update owned c (⟨n, f, object⟩ :: owned c)) := by
  have hmem : ∀ d r, r ∈ Function.update owned c (⟨n, f, object⟩ :: owned c) d →
      (d = c ∧ r = ⟨n, f, object⟩) ∨ r ∈ owned d := by
    intro d r hr
    by_cases hdc : d = c
    · subst hdc
      rw [Function.update_self] at hr
      exact (List.mem_cons.mp hr).imp (fun h => ⟨rfl, h⟩) id
    · rw [Function.update_of_ne hdc] at hr
      exact .inr hr
  refine ⟨fun d r hr => ?_, fun d => ?_, fun d e r hr r' hr' hid => ?_⟩
  · rcases hmem d r hr with ⟨-, rfl⟩ | hr
    · exact Nat.lt_succ_self n
    · exact Nat.lt_succ_of_lt (hnum.lt d r hr)
  · by_cases hdc : d = c
    · subst hdc
      rw [Function.update_self, List.map_cons, List.nodup_cons]
      refine ⟨fun hin => ?_, hnum.nodup d⟩
      obtain ⟨r, hr, hid⟩ := List.mem_map.mp hin
      have hlt := hnum.lt d r hr
      simp only at hid
      omega
    · rw [Function.update_of_ne hdc]
      exact hnum.nodup d
  · rcases hmem d r hr with ⟨hd, hnew⟩ | hold
    · rcases hmem e r' hr' with ⟨he, -⟩ | hold'
      · exact hd.trans he.symm
      · have hlt := hnum.lt e r' hold'
        have hfresh : r.id = n := by rw [hnew]
        omega
    · rcases hmem e r' hr' with ⟨-, hnew'⟩ | hold'
      · have hlt := hnum.lt d r hold
        have hfresh : r'.id = n := by rw [hnew']
        omega
      · exact hnum.apart d e r hold r' hold' hid

theorem Numbered.adopt {n : Nat} {owned : Context Thread → List Registration}
    (hnum : Numbered n owned) (t : Thread) :
    Numbered n (Function.update (Function.update owned (.thread t)
      (owned (.thread t) ++ owned .startup)) .startup []) := by
  have hmem : ∀ d r, r ∈ Function.update (Function.update owned (.thread t)
      (owned (.thread t) ++ owned .startup)) .startup [] d →
      d ≠ .startup ∧ (r ∈ owned d ∨ d = .thread t ∧ r ∈ owned .startup) := by
    intro d r hr
    by_cases hstartup : d = .startup
    · rw [hstartup, Function.update_self] at hr
      exact absurd hr List.not_mem_nil
    · rw [Function.update_of_ne hstartup] at hr
      refine ⟨hstartup, ?_⟩
      by_cases hdt : d = .thread t
      · rw [hdt, Function.update_self] at hr
        rw [hdt]
        exact (List.mem_append.mp hr).imp id fun h => ⟨rfl, h⟩
      · rw [Function.update_of_ne hdt] at hr
        exact .inl hr
  refine ⟨fun d r hr => ?_, fun d => ?_, fun d e r hr r' hr' hid => ?_⟩
  · rcases (hmem d r hr).2 with hr | ⟨-, hr⟩
    · exact hnum.lt _ r hr
    · exact hnum.lt _ r hr
  · by_cases hstartup : d = .startup
    · rw [hstartup, Function.update_self]
      exact List.nodup_nil
    · rw [Function.update_of_ne hstartup]
      by_cases hdt : d = .thread t
      · rw [hdt, Function.update_self, List.map_append, List.nodup_append]
        refine ⟨hnum.nodup _, hnum.nodup _, fun i hi j hj hij => ?_⟩
        obtain ⟨r, hr, rfl⟩ := List.mem_map.mp hi
        obtain ⟨r', hr', rfl⟩ := List.mem_map.mp hj
        exact absurd (hnum.apart _ _ r hr r' hr' hij) (by simp)
      · rw [Function.update_of_ne hdt]
        exact hnum.nodup d
  · obtain ⟨hd, hfrom⟩ := hmem d r hr
    obtain ⟨he, hfrom'⟩ := hmem e r' hr'
    rcases hfrom with hown | ⟨hdt, hmoved⟩
    · rcases hfrom' with hown' | ⟨-, hmoved'⟩
      · exact hnum.apart d e r hown r' hown' hid
      · exact absurd (hnum.apart d .startup r hown r' hmoved' hid) hd
    · rcases hfrom' with hown' | ⟨het, -⟩
      · exact absurd (hnum.apart e .startup r' hown' r hmoved hid.symm) he
      · exact hdt.trans het.symm

theorem owned_numbered (h : List (Event Thread)) : Numbered (count h) (owned h) := by
  induction h with
  | nil =>
      exact ⟨fun _ _ hr => absurd hr List.not_mem_nil, fun _ => List.nodup_nil,
        fun _ _ _ hr => absurd hr List.not_mem_nil⟩
  | cons e h ih =>
      cases e with
      | register d function object allocated =>
          cases function with
          | none => exact ih
          | some f =>
              cases allocated with
              | none => exact ih
              | some a => exact ih.push d f object
      | adopt u => exact ih.adopt u
      | call u f object | exit u | free u | leave u => exact ih

end Histories

end ThreadAtexit
end Backend
end NucleoBase
