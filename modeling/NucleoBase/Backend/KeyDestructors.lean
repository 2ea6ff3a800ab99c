/-
  NucleoBase.Backend.KeyDestructors

  `run_thread_specific_destructors` (backend.cpp): a departing thread goes over
  the table of keys, up to four times, and calls the destructor of each key that
  it has a value for.  The table is read in a critical section and the slot looked
  at afterwards, so other threads' calls may come in between; a destructor may
  itself call the key functions.

  Seen from the table, a call of a destructor is a `key_set` of null: the runs
  here are runs of `Keys`.
-/

import NucleoBase.Backend.KeysCorrect

namespace NucleoBase
namespace Backend
namespace KeyDestructors

open Lib Keys

/-! ## The model -/

/-- `destructor_iterations`. -/
def destructorIterations : Nat := 4

/-- Where a thread is with its departure.  `found` is the key whose destructor will be
    called, if any; no step reads it. -/
inductive Exit
  | running
  /-- The table is read next. -/
  | read (pass index : Nat) (invoked : Bool)
  /-- The slot is looked at next. -/
  | take (pass index : Nat) (invoked : Bool) (destructor : Pointer) (generation : UInt32)
      (found : Option Creation)
  /-- The destructor of a slot is running. -/
  | calling (pass index : Nat)
  /-- Every slot has been visited; `invoked` is that of the last pass. -/
  | done (invoked : Bool)
  deriving DecidableEq, Repr

structure State (Thread : Type*) where
  keys : Keys.State Thread
  exit : Thread → Exit

inductive Event (Thread : Type*)
  /-- A key function, called by the program or by a destructor. -/
  | key (e : Keys.Event Thread)
  | depart (t : Thread)
  | read (t : Thread) (found : Option Creation)
  | call (t : Thread) (key : Creation) (destructor value : Pointer)
  | skip (t : Thread)
  /-- A destructor returns. -/
  | back (t : Thread)
  deriving DecidableEq, Repr

/-- The thread runs code of the program. -/
def Exit.Program : Exit → Prop
  | .running | .calling _ _ => True
  | _ => False

instance : DecidablePred Exit.Program
  | .running | .calling _ _ => isTrue trivial
  | .read _ _ _ | .take _ _ _ _ _ _ | .done _ => isFalse not_false

/-- After the slot with an index. -/
def Exit.next (pass index : Nat) (invoked : Bool) : Exit :=
  if index + 1 < runtimeThreadKeyCount then .read pass (index + 1) invoked
  else if !invoked then .done false
  else if pass + 1 < destructorIterations then .read (pass + 1) 0 false
  else .done true

variable {Thread : Type*} [DecidableEq Thread]

/-- The test of a slot, with what has been read of the table. -/
def State.Due (s : State Thread) (t : Thread) (index : Nat) (destructor : Pointer)
    (generation : UInt32) : Prop :=
  destructor ≠ 0 ∧ s.keys.tlsValues t index ≠ 0 ∧ s.keys.tlsGenerations t index = generation

instance (s : State Thread) (t : Thread) (index : Nat) (d : Pointer) (g : UInt32) :
    Decidable (s.Due t index d g) := by
  unfold State.Due
  infer_instance

/-- The local `destructor` of the source. -/
def State.destructorAt (s : State Thread) (index : Nat) : Pointer :=
  if (s.keys.keys index).allocated then (s.keys.keys index).destructor else 0

def State.goto (s : State Thread) (t : Thread) (x : Exit) : State Thread :=
  { s with exit := Function.update s.exit t x }

/-- The slot of a thread is cleared. -/
def State.clear (s : State Thread) (t : Thread) (index : Nat) : State Thread :=
  { s with keys := { s.keys with
      tlsValues := Function.update s.keys.tlsValues t
        (Function.update (s.keys.tlsValues t) index 0) } }

/-- The key whose destructor a thread will call once it has read the table. -/
def State.found (s : State Thread) (t : Thread) (index : Nat) : Option Creation :=
  if s.Due t index (s.destructorAt index) (s.keys.keys index).generation then
    some ⟨index, s.keys.creations index⟩
  else none

def step (s : State Thread) : Event Thread → Option (State Thread)
  | .key e =>
      if (s.exit e.thread).Program then (Keys.step s.keys e).map fun k => { s with keys := k }
      else none
  | .depart t =>
      if s.exit t = .running ∧ s.keys.call t = none then some (s.goto t (.read 0 0 false)) else none
  | .read t found =>
      match s.exit t with
      | .read pass index invoked =>
          if found = s.found t index then
            some (s.goto t (.take pass index invoked (s.destructorAt index)
              (s.keys.keys index).generation found))
          else none
      | _ => none
  | .call t key destructor value =>
      match s.exit t with
      | .take pass index _ d g found =>
          if s.Due t index d g ∧ found = some key ∧ destructor = d ∧
              value = s.keys.tlsValues t index then
            some ((s.clear t index).goto t (.calling pass index))
          else none
      | _ => none
  | .skip t =>
      match s.exit t with
      | .take pass index invoked d g _ =>
          if s.Due t index d g then none else some (s.goto t (.next pass index invoked))
      | _ => none
  | .back t =>
      match s.exit t with
      | .calling pass index =>
          if s.keys.call t = none then some (s.goto t (.next pass index true)) else none
      | _ => none

def init (s : State Thread) : Prop := Keys.init s.keys ∧ ∀ t, s.exit t = .running

/-! ## Departures as calls of the key functions -/

/-- What an event is for the table. -/
def Event.toKeys : Event Thread → Option (Keys.Event Thread)
  | .key e => some e
  | .read t (some c) => some (.setCheck t c 0)
  | .call t c _ _ => some (.setSlot t c 0 true)
  | _ => none

def keysOf (h : List (Event Thread)) : List (Keys.Event Thread) := h.filterMap Event.toKeys

/-- The call of a key function that a thread is in. -/
def State.callOf (s : State Thread) (t : Thread) : Option Call :=
  match s.exit t with
  | .take _ _ _ _ _ (some c) => some (.set c 0 true)
  | _ => s.keys.call t

def State.toKeys (s : State Thread) : Keys.State Thread := { s.keys with call := s.callOf }

/-- The proviso of the keys, for the calls that programs make. -/
def Guard (h : List (Event Thread)) (s : State Thread) : Event Thread → Prop
  | .key e => Proviso (keysOf h) s.toKeys e
  | _ => True

instance [Fintype Thread] (h : List (Event Thread)) (s : State Thread) (e : Event Thread) :
    Decidable (Guard h s e) := by
  cases e <;> unfold Guard <;> infer_instance

/-- The destructors that the creations of a slot came with, newest first. -/
def destructorsOf (h : List (Keys.Event Thread)) (index : Nat) : List Pointer :=
  h.filterMap fun
    | .create _ i d => if i = index then some d else none
    | _ => none

/-- The destructor of a key. -/
def destructorOf (h : List (Keys.Event Thread)) (c : Creation) : Option Pointer :=
  (destructorsOf h c.slot).reverse[c.number - 1]?

/-- An event is a call of the destructor of a slot. -/
def Event.Calls (t : Thread) (index : Nat) : Event Thread → Bool
  | .call u c _ _ => decide (u = t ∧ c.slot = index)
  | _ => false

/-- The calls of destructors for a slot of a thread. -/
def callsOf (h : List (Event Thread)) (t : Thread) (index : Nat) : Nat :=
  h.countP (Event.Calls t index)

/-! ## The table's side -/

variable {s s' : State Thread} {e : Event Thread} {h : List (Event Thread)} {t u : Thread}
  {i index pass : Nat} {d v : Pointer} {g : UInt32} {c : Creation}

@[simp] theorem goto_exit_self (x : Exit) : (s.goto t x).exit t = x := Function.update_self _ _ _

theorem goto_exit_other {x : Exit} (hu : u ≠ t) : (s.goto t x).exit u = s.exit u :=
  Function.update_of_ne hu _ _

/-- A key function looks at no other thread's call. -/
theorem keys_step_call {k k' : Keys.State Thread} {e : Keys.Event Thread}
    (f : Thread → Option Call) (hf : f e.thread = k.call e.thread) (hs : Keys.step k e = some k') :
    Keys.step { k with call := f } e =
      some { k' with call := Function.update f e.thread (k'.call e.thread) } := by
  have hsame : Function.update f e.thread (k.call e.thread) = f := by
    rw [← hf, Function.update_eq_self]
  cases e with
  | create t i d =>
      simp only [Keys.step, Option.ite_none_right_eq_some, Option.some.injEq] at hs ⊢
      obtain ⟨⟨hcall, hfree⟩, rfl⟩ := hs
      refine ⟨⟨hf.trans hcall, hfree⟩, ?_⟩
      simp only [Keys.Event.thread, State.createAt] at hsame ⊢
      rw [hsame]
  | createFull t =>
      simp only [Keys.step, Option.ite_none_right_eq_some, Option.some.injEq] at hs ⊢
      obtain ⟨⟨hcall, hfree⟩, rfl⟩ := hs
      refine ⟨⟨hf.trans hcall, hfree⟩, ?_⟩
      rw [hsame]
  | delete t c =>
      simp only [Keys.step, Option.ite_none_right_eq_some] at hs ⊢
      obtain ⟨hcall, hs⟩ := hs
      refine ⟨hf.trans hcall, ?_⟩
      show (if k.known c.handle then _ else _) = _
      split at hs <;> cases hs
      · rw [if_pos ‹_›]
        simp only [Keys.Event.thread, State.deleteAt] at hsame ⊢
        rw [hsame]
      · rw [if_neg ‹_›, hsame]
  | getCheck t c | setCheck t c v =>
      simp only [Keys.step, Option.ite_none_right_eq_some, Option.some.injEq] at hs ⊢
      obtain ⟨hcall, rfl⟩ := hs
      refine ⟨hf.trans hcall, ?_⟩
      simp [State.setCall, Keys.Event.thread, State.known]
  | getSlot t c r =>
      simp only [Keys.step, Option.ite_none_right_eq_some, Option.some.injEq] at hs ⊢
      obtain ⟨hcall, rfl⟩ := hs
      refine ⟨hcall.imp (And.imp_left hf.trans) (And.imp_left hf.trans), ?_⟩
      simp [State.setCall, Keys.Event.thread]
  | setSlot t c v stored =>
      simp only [Keys.step, Option.ite_none_right_eq_some, Option.some.injEq] at hs ⊢
      obtain ⟨hcall, rfl⟩ := hs
      refine ⟨hf.trans hcall, ?_⟩
      cases stored <;> simp [State.setCall, State.writeSlot, Keys.Event.thread]

/-- A key function leaves the slots and the calls of other threads alone. -/
theorem keys_step_other {k k' : Keys.State Thread} {e : Keys.Event Thread}
    (hs : Keys.step k e = some k') (hu : u ≠ e.thread) :
    k'.tlsValues u = k.tlsValues u ∧ k'.tlsGenerations u = k.tlsGenerations u ∧
      k'.call u = k.call u := by
  cases e with
  | create t i d | createFull t =>
      simp only [Keys.step, Option.ite_none_right_eq_some, Option.some.injEq] at hs
      obtain ⟨-, rfl⟩ := hs
      exact ⟨rfl, rfl, rfl⟩
  | delete t c =>
      simp only [Keys.step, Option.ite_none_right_eq_some] at hs
      obtain ⟨-, hs⟩ := hs
      split at hs <;> cases hs <;> exact ⟨rfl, rfl, rfl⟩
  | getCheck t c | setCheck t c v | getSlot t c r =>
      simp only [Keys.step, Option.ite_none_right_eq_some, Option.some.injEq] at hs
      obtain ⟨-, rfl⟩ := hs
      exact ⟨rfl, rfl, Function.update_of_ne hu _ _⟩
  | setSlot t c v stored =>
      simp only [Keys.step, Option.ite_none_right_eq_some, Option.some.injEq] at hs
      obtain ⟨-, rfl⟩ := hs
      have hu' : u ≠ t := hu
      cases stored <;> simp [State.setCall, State.writeSlot, Function.update_of_ne hu']

/-- A slot of a thread has nothing to call a destructor for. -/
def Quiet (k : Keys.State Thread) (t : Thread) (index : Nat) : Prop :=
  (k.keys index).allocated = true → (k.keys index).destructor ≠ 0 →
    k.readSlot t (Creation.handle ⟨index, k.creations index⟩) true = 0

/-- Other threads do not change this: a new key reads null. -/
theorem Quiet.step {k k' : Keys.State Thread} {e : Keys.Event Thread}
    {h : List (Keys.Event Thread)} (hq : Quiet k u index) (hinv : Keys.Inv h k)
    (hp : Proviso h k e) (hs : Keys.step k e = some k') (hu : u ≠ e.thread) :
    Quiet k' u index := by
  obtain ⟨hvalues, hgenerations, -⟩ := keys_step_other hs hu
  have hread : ∀ key, k'.readSlot u key true = k.readSlot u key true := by
    intro key
    simp only [State.readSlot, hvalues, hgenerations]
  have hsame : k'.keys index = k.keys index → k'.creations index = k.creations index →
      Quiet k' u index := by
    intro hkeys hcreations hallocated hdestructor
    rw [hkeys] at hallocated hdestructor
    rw [hread, hcreations]
    exact hq hallocated hdestructor
  cases e with
  | create t i d =>
      simp only [Keys.step, Option.ite_none_right_eq_some, Option.some.injEq] at hs
      obtain ⟨⟨-, hfree⟩, rfl⟩ := hs
      by_cases hi : index = i
      · subst hi
        intro _ _
        have hfresh := (hinv.fresh_reads_null (u := u) hfree hp).1
        simpa [State.createAt] using hfresh
      · exact hsame (Function.update_of_ne hi _ _) (Function.update_of_ne hi _ _)
  | delete t c =>
      simp only [Keys.step, Option.ite_none_right_eq_some] at hs
      obtain ⟨-, hs⟩ := hs
      split at hs
      · cases hs
        by_cases hi : index = keyIndex c.handle
        · intro hallocated
          subst hi
          simp [State.deleteAt] at hallocated
        · exact hsame (Function.update_of_ne hi _ _) rfl
      · cases hs
        exact hq
  | createFull t | getCheck t c | setCheck t c v | getSlot t c r =>
      simp only [Keys.step, Option.ite_none_right_eq_some, Option.some.injEq] at hs
      obtain ⟨-, rfl⟩ := hs
      exact hsame rfl rfl
  | setSlot t c v stored =>
      simp only [Keys.step, Option.ite_none_right_eq_some, Option.some.injEq] at hs
      obtain ⟨-, rfl⟩ := hs
      cases stored <;> exact hsame rfl rfl

omit [DecidableEq Thread] in
theorem destructorOf_cons {h : List (Keys.Event Thread)} (e : Keys.Event Thread)
    (hd : destructorOf h c = some d) : destructorOf (e :: h) c = some d := by
  have hlt : c.number - 1 < (destructorsOf h c.slot).reverse.length :=
    (List.getElem?_eq_some_iff.mp hd).1
  have hcons : destructorsOf (e :: h) c.slot = destructorsOf h c.slot ∨
      ∃ d', destructorsOf (e :: h) c.slot = d' :: destructorsOf h c.slot := by
    unfold destructorsOf
    rw [List.filterMap_cons]
    split
    · exact .inl rfl
    · exact .inr ⟨_, rfl⟩
  unfold destructorOf at hd ⊢
  rcases hcons with hsame | ⟨d', hsame⟩
  · rw [hsame, hd]
  · rw [hsame, List.reverse_cons, List.getElem?_append_left hlt, hd]

/-- The table holds the destructors that its keys were created with. -/
structure Entered (h : List (Keys.Event Thread)) (k : Keys.State Thread) : Prop where
  length : ∀ i, (destructorsOf h i).length = k.creations i
  head : ∀ i, (k.keys i).allocated = true →
    (destructorsOf h i).head? = some (k.keys i).destructor

theorem Entered.step {k k' : Keys.State Thread} {e : Keys.Event Thread}
    {h : List (Keys.Event Thread)} (hentered : Entered h k) (hs : Keys.step k e = some k') :
    Entered (e :: h) k' := by
  cases e with
  | create t i d =>
      simp only [Keys.step, Option.ite_none_right_eq_some, Option.some.injEq] at hs
      obtain ⟨-, rfl⟩ := hs
      refine ⟨fun j => ?_, fun j hj => ?_⟩ <;> by_cases hi : j = i
      · subst hi
        simp [destructorsOf, State.createAt, ← hentered.length]
      · have hother : i ≠ j := Ne.symm hi
        simpa [destructorsOf, State.createAt, hi, hother] using hentered.length j
      · subst hi
        simp [destructorsOf, State.createAt]
      · have hother : i ≠ j := Ne.symm hi
        simp only [State.createAt, Function.update_of_ne hi] at hj ⊢
        simpa [destructorsOf, hother] using hentered.head j hj
  | delete t c =>
      simp only [Keys.step, Option.ite_none_right_eq_some] at hs
      obtain ⟨-, hs⟩ := hs
      split at hs <;> cases hs
      · refine ⟨hentered.length, fun j hj => ?_⟩
        by_cases hi : j = keyIndex c.handle
        · subst hi
          simp [State.deleteAt] at hj
        · simp only [State.deleteAt, Function.update_of_ne hi] at hj ⊢
          exact hentered.head j hj
      · exact ⟨hentered.length, hentered.head⟩
  | createFull t | getCheck t c | setCheck t c v | getSlot t c r =>
      simp only [Keys.step, Option.ite_none_right_eq_some, Option.some.injEq] at hs
      obtain ⟨-, rfl⟩ := hs
      exact ⟨hentered.length, hentered.head⟩
  | setSlot t c v stored =>
      simp only [Keys.step, Option.ite_none_right_eq_some, Option.some.injEq] at hs
      obtain ⟨-, rfl⟩ := hs
      cases stored <;> exact ⟨hentered.length, hentered.head⟩

omit [DecidableEq Thread] in
/-- The destructor of the key that a slot holds. -/
theorem Entered.destructorOf {k : Keys.State Thread} {h : List (Keys.Event Thread)}
    (hentered : Entered h k) (hallocated : (k.keys i).allocated = true) :
    destructorOf h ⟨i, k.creations i⟩ = some (k.keys i).destructor := by
  unfold KeyDestructors.destructorOf
  have hhead := hentered.head i hallocated
  rw [← hentered.length i, ← hhead]
  cases hd : destructorsOf h i with
  | nil => simp [hd] at hhead
  | cons d rest => simp

/-! ## The invariant -/

/-- What a departing thread has done, and what it has read. -/
def ExitGood (h : List (Event Thread)) (s : State Thread) (t : Thread) : Exit → Prop
  | .running => ∀ i, callsOf h t i = 0
  | .read pass index invoked =>
      s.keys.call t = none ∧ pass < destructorIterations ∧ index < runtimeThreadKeyCount ∧
        (∀ i, callsOf h t i ≤ pass + if i < index then 1 else 0) ∧
        (invoked = false → ∀ i < index, Quiet s.keys t i)
  | .take pass index invoked d g found =>
      s.keys.call t = none ∧ pass < destructorIterations ∧ index < runtimeThreadKeyCount ∧
        (∀ i, callsOf h t i ≤ pass + if i < index then 1 else 0) ∧
        (invoked = false → ∀ i < index, Quiet s.keys t i) ∧
        match found with
        | some c => s.Due t index d g ∧ c.slot = index ∧ g = generationOf c.number ∧
            destructorOf (keysOf h) c = some d
        | none => ¬ s.Due t index d g ∧ Quiet s.keys t index
  | .calling pass index =>
      pass < destructorIterations ∧ index < runtimeThreadKeyCount ∧
        ∀ i, callsOf h t i ≤ pass + if i ≤ index then 1 else 0
  | .done invoked =>
      s.keys.call t = none ∧ (∀ i, callsOf h t i ≤ destructorIterations) ∧
        (invoked = false → ∀ i < runtimeThreadKeyCount, Quiet s.keys t i)

structure Inv (h : List (Event Thread)) (s : State Thread) : Prop where
  run : Run Keys.step Proviso Keys.init (keysOf h) s.toKeys
  entered : Entered (keysOf h) s.keys
  exit : ∀ t, ExitGood h s t (s.exit t)

/-- What other threads have read stays true. -/
theorem ExitGood.frame {x : Exit} (hg : ExitGood h s u x)
    (hcall : s'.keys.call u = s.keys.call u)
    (hvalues : s'.keys.tlsValues u = s.keys.tlsValues u)
    (hgenerations : s'.keys.tlsGenerations u = s.keys.tlsGenerations u)
    (hquiet : ∀ i, Quiet s.keys u i → Quiet s'.keys u i)
    (hcalls : ∀ i, callsOf (e :: h) u i = callsOf h u i) : ExitGood (e :: h) s' u x := by
  have hdue : ∀ i d g, s'.Due u i d g ↔ s.Due u i d g := by
    intro i d g
    unfold State.Due
    rw [hvalues, hgenerations]
  have hdestructor : ∀ c d, destructorOf (keysOf h) c = some d →
      destructorOf (keysOf (e :: h)) c = some d := by
    intro c d hd
    unfold keysOf
    rw [List.filterMap_cons]
    split
    · exact hd
    · exact destructorOf_cons _ hd
  cases x with
  | running => exact fun i => (hcalls i).trans (hg i)
  | read pass index invoked =>
      obtain ⟨hnone, hpass, hindex, hle, hq⟩ := hg
      exact ⟨hcall.trans hnone, hpass, hindex, fun i => by rw [hcalls]; exact hle i,
        fun hi i hlt => hquiet i (hq hi i hlt)⟩
  | take pass index invoked d g found =>
      obtain ⟨hnone, hpass, hindex, hle, hq, hfound⟩ := hg
      refine ⟨hcall.trans hnone, hpass, hindex, fun i => by rw [hcalls]; exact hle i,
        fun hi i hlt => hquiet i (hq hi i hlt), ?_⟩
      cases found with
      | some c => exact ⟨(hdue _ _ _).mpr hfound.1, hfound.2.1, hfound.2.2.1,
          hdestructor c d hfound.2.2.2⟩
      | none => exact ⟨fun h => hfound.1 ((hdue _ _ _).mp h), hquiet _ hfound.2⟩
  | calling pass index => exact ⟨hg.1, hg.2.1, fun i => by rw [hcalls]; exact hg.2.2 i⟩
  | done invoked =>
      obtain ⟨hnone, hle, hq⟩ := hg
      exact ⟨hcall.trans hnone, fun i => by rw [hcalls]; exact hle i,
        fun hi i hlt => hquiet i (hq hi i hlt)⟩

theorem callsOf_cons_of_not (he : ∀ t i, e.Calls t i = false) (t : Thread) (i : Nat) :
    callsOf (e :: h) t i = callsOf h t i := by
  simp [callsOf, he]

omit [DecidableEq Thread] in
theorem keysOf_cons_of_none (he : e.toKeys = none) : keysOf (e :: h) = keysOf h := by
  simp [keysOf, he]

omit [DecidableEq Thread] in
theorem keysOf_cons_of_some {k : Keys.Event Thread} (he : e.toKeys = some k) :
    keysOf (e :: h) = k :: keysOf h := by
  simp [keysOf, he]

/-! ## Steps -/

/-- A step of one thread that leaves the table and the slots alone. -/
theorem Inv.goto {x : Exit} (hinv : Inv h s) (hkeys : e.toKeys = none)
    (hcalls : ∀ t i, e.Calls t i = false) (hcall : (s.goto t x).callOf t = s.callOf t)
    (hself : ExitGood (e :: h) (s.goto t x) t x) : Inv (e :: h) (s.goto t x) where
  run := by
    have hsame : (s.goto t x).callOf = s.callOf := by
      funext u
      by_cases hu : u = t
      · rw [hu, hcall]
      · simp only [State.callOf, goto_exit_other hu]
        rfl
    have htoKeys : (s.goto t x).toKeys = s.toKeys := by
      simp only [State.toKeys, hsame]
      rfl
    rw [keysOf_cons_of_none hkeys, htoKeys]
    exact hinv.run
  entered := by
    rw [keysOf_cons_of_none hkeys]
    exact hinv.entered
  exit u := by
    by_cases hu : u = t
    · subst hu
      rw [goto_exit_self]
      exact hself
    · rw [goto_exit_other hu]
      exact (hinv.exit u).frame rfl rfl rfl (fun _ hq => hq) (callsOf_cons_of_not hcalls u)

omit [DecidableEq Thread] in
theorem callOf_of_program (hp : (s.exit t).Program) : s.callOf t = s.keys.call t := by
  unfold State.callOf
  cases hx : s.exit t with
  | running | calling pass index | read pass index invoked | done invoked => rfl
  | take pass index invoked d g found =>
      rw [hx] at hp
      exact hp.elim

theorem Inv.key {k : Keys.Event Thread} (hinv : Inv h s) (hp : Guard h s (.key k))
    (hs : step s (.key k) = some s') : Inv (.key k :: h) s' := by
  simp only [step, Option.ite_none_right_eq_some, Option.map_eq_some_iff] at hs
  obtain ⟨hprogram, keys', hkeys, rfl⟩ := hs
  have hsome := keysOf_cons_of_some (h := h) (e := .key k) rfl
  have hcallOf := callOf_of_program hprogram
  have hstep := keys_step_call s.callOf hcallOf hkeys
  have hcalls := callsOf_cons_of_not (h := h) (e := .key k) fun _ _ => rfl
  refine ⟨?_, ?_, fun u => ?_⟩
  · rw [hsome]
    refine hinv.run.step hp ?_
    show Keys.step s.toKeys k = some _
    rw [State.toKeys, hstep]
    have hcall : Function.update s.callOf k.thread (keys'.call k.thread) =
        ({ s with keys := keys' } : State Thread).callOf := by
      funext u
      by_cases hu : u = k.thread
      · subst hu
        rw [Function.update_self]
        exact (callOf_of_program (s := { s with keys := keys' }) hprogram).symm
      · rw [Function.update_of_ne hu]
        unfold State.callOf
        rw [(keys_step_other hkeys hu).2.2]
    rw [hcall]
    rfl
  · rw [hsome]
    exact hinv.entered.step hkeys
  · show ExitGood _ _ u (s.exit u)
    by_cases hu : u = k.thread
    · subst hu
      have hg := hinv.exit k.thread
      cases hx : s.exit k.thread with
      | running =>
          rw [hx] at hg
          exact fun i => (hcalls _ i).trans (hg i)
      | calling pass index =>
          rw [hx] at hg
          exact ⟨hg.1, hg.2.1, fun i => by rw [hcalls]; exact hg.2.2 i⟩
      | read pass index invoked | take pass index invoked d g found | done invoked =>
          rw [hx] at hprogram
          exact hprogram.elim
    · obtain ⟨hvalues, hgenerations, hcall⟩ := keys_step_other hkeys hu
      refine (hinv.exit u).frame hcall hvalues hgenerations (fun i hq => ?_) (hcalls u)
      have hquiet := Quiet.step (k := s.toKeys) hq (inv_of_run hinv.run) hp hstep hu
      exact hquiet

theorem Inv.depart (hinv : Inv h s) (hs : step s (.depart t) = some s') :
    Inv (.depart t :: h) s' := by
  simp only [step, Option.ite_none_right_eq_some, Option.some.injEq] at hs
  obtain ⟨⟨hrunning, hnone⟩, rfl⟩ := hs
  refine hinv.goto rfl (fun _ _ => rfl) ?_ ?_
  · unfold State.callOf
    rw [goto_exit_self, hrunning]
    rfl
  · have hg := hinv.exit t
    rw [hrunning] at hg
    refine ⟨hnone, by decide, by decide, fun i => ?_, fun _ i hi => by omega⟩
    rw [callsOf_cons_of_not fun _ _ => rfl, hg i]
    exact Nat.zero_le _

theorem next_cases (pass index : Nat) (invoked : Bool) :
    Exit.next pass index invoked = .read pass (index + 1) invoked ∧
        index + 1 < runtimeThreadKeyCount ∨
      Exit.next pass index invoked = .done false ∧ invoked = false ∧
        runtimeThreadKeyCount ≤ index + 1 ∨
      Exit.next pass index invoked = .read (pass + 1) 0 false ∧ pass + 1 < destructorIterations ∨
      Exit.next pass index invoked = .done true := by
  unfold Exit.next
  split
  · exact .inl ⟨rfl, ‹_›⟩
  · split
    · exact .inr (.inl ⟨rfl, by simpa using ‹(!invoked) = true›, by omega⟩)
    · split
      · exact .inr (.inr (.inl ⟨rfl, ‹_›⟩))
      · exact .inr (.inr (.inr rfl))

/-- A thread goes on to the next slot. -/
theorem Inv.next {invoked : Bool} (hinv : Inv h s) (hkeys : e.toKeys = none)
    (hnot : ∀ t i, e.Calls t i = false) (hcallOf : s.callOf t = s.keys.call t)
    (hcall : s.keys.call t = none) (hpass : pass < destructorIterations)
    (hle : ∀ i, callsOf h t i ≤ pass + if i ≤ index then 1 else 0)
    (hq : invoked = false → ∀ i ≤ index, Quiet s.keys t i) :
    Inv (e :: h) (s.goto t (.next pass index invoked)) := by
  have hmost : ∀ i, callsOf (e :: h) t i ≤ pass + 1 := by
    intro i
    have := hle i
    rw [callsOf_cons_of_not hnot]
    split at this <;> omega
  refine hinv.goto hkeys hnot ?_ ?_
  · rw [hcallOf]
    unfold State.callOf
    rw [goto_exit_self]
    rcases next_cases pass index invoked with ⟨hx, -⟩ | ⟨hx, -⟩ | ⟨hx, -⟩ | hx <;> rw [hx] <;> rfl
  · rcases next_cases pass index invoked with ⟨hx, hlt⟩ | ⟨hx, hinvoked, hend⟩ | ⟨hx, hmore⟩ | hx
    · rw [hx]
      refine ⟨hcall, hpass, hlt, fun i => ?_, fun hi i hlt => hq hi i (by omega)⟩
      rw [callsOf_cons_of_not hnot]
      simpa only [Nat.lt_succ_iff] using hle i
    · rw [hx]
      exact ⟨hcall, fun i => (hmost i).trans hpass, fun _ i hi => hq hinvoked i (by omega)⟩
    · rw [hx]
      exact ⟨hcall, hmore, by decide, fun i => (hmost i).trans (Nat.le_add_right _ _),
        fun _ i hi => by omega⟩
    · rw [hx]
      exact ⟨hcall, fun i => (hmost i).trans hpass, fun hi => by cases hi⟩

theorem Inv.skip (hinv : Inv h s) (hs : step s (.skip t) = some s') : Inv (.skip t :: h) s' := by
  simp only [step] at hs
  split at hs
  · rename_i pass index invoked d g found hx
    split at hs
    · cases hs
    · rename_i hnot
      cases hs
      have hg := hinv.exit t
      rw [hx] at hg
      obtain ⟨hnone, hpass, hindex, hle, hq, hfound⟩ := hg
      cases found with
      | some c => exact absurd hfound.1 hnot
      | none =>
          refine hinv.next rfl (fun _ _ => rfl) ?_ hnone hpass (fun i => (hle i).trans ?_) ?_
          · unfold State.callOf
            rw [hx]
          · split <;> split <;> omega
          · intro hi i hlt
            rcases Nat.lt_or_eq_of_le hlt with hlt | rfl
            · exact hq hi i hlt
            · exact hfound.2
  · cases hs

theorem Inv.back (hinv : Inv h s) (hs : step s (.back t) = some s') : Inv (.back t :: h) s' := by
  simp only [step] at hs
  split at hs
  · rename_i pass index hx
    split at hs
    · rename_i hnone
      cases hs
      have hg := hinv.exit t
      rw [hx] at hg
      refine hinv.next rfl (fun _ _ => rfl) ?_ hnone hg.1 hg.2.2 fun hi => by cases hi
      exact callOf_of_program (by rw [hx]; trivial)
    · cases hs
  · cases hs

/-- What the table says about the key in a slot. -/
theorem Inv.current (hinv : Inv h s) (hallocated : (s.keys.keys index).allocated = true) :
    s.toKeys.Recent ⟨index, s.keys.creations index⟩ ∧
      (s.keys.keys index).generation = generationOf (s.keys.creations index) ∧
      keyIndex (Creation.handle ⟨index, s.keys.creations index⟩) = index ∧
      keyGeneration (Creation.handle ⟨index, s.keys.creations index⟩) =
        generationOf (s.keys.creations index) := by
  have hkeys := inv_of_run hinv.run
  have hrecent : s.toKeys.Recent ⟨index, s.keys.creations index⟩ :=
    ⟨hkeys.allocated index hallocated, Nat.le_refl _, by
      show s.keys.creations index - s.keys.creations index < _
      rw [Nat.sub_self]
      decide⟩
  have hslot := hkeys.slot_lt hrecent
  exact ⟨hrecent, hkeys.generation index, Creation.keyIndex_handle hslot,
    Creation.keyGeneration_handle hslot⟩

/-- A slot that is not due has nothing to call a destructor for. -/
theorem Inv.quiet (hinv : Inv h s)
    (hnot : ¬ s.Due t index (s.destructorAt index) (s.keys.keys index).generation) :
    Quiet s.keys t index := by
  intro hallocated hdestructor
  obtain ⟨-, hgeneration, hindex, hkey⟩ := hinv.current hallocated
  simp only [State.readSlot, hindex, hkey, Bool.true_and, decide_eq_true_eq]
  split
  · rename_i hsame
    by_contra hvalue
    refine hnot ⟨?_, hvalue, hsame.trans hgeneration.symm⟩
    rwa [State.destructorAt, if_pos hallocated]
  · rfl

theorem Inv.read {found : Option Creation} (hinv : Inv h s)
    (hs : step s (.read t found) = some s') : Inv (.read t found :: h) s' := by
  simp only [step] at hs
  split at hs
  · rename_i pass index invoked hx
    split at hs
    · rename_i hfound
      cases hs
      have hg := hinv.exit t
      rw [hx] at hg
      obtain ⟨hnone, hpass, hindex, hle, hq⟩ := hg
      have hcallOf : s.callOf t = s.keys.call t := by
        unfold State.callOf
        rw [hx]
      unfold State.found at hfound
      split at hfound
      · -- for the table this is the check of a `key_set`
        rename_i hdue
        subst hfound
        have hallocated : (s.keys.keys index).allocated = true := by
          by_contra hno
          refine hdue.1 ?_
          rw [State.destructorAt, if_neg hno]
        obtain ⟨hrecent, hgeneration, -, -⟩ := hinv.current hallocated
        have hknown := ((inv_of_run hinv.run).known_iff hrecent).mpr ⟨hallocated, rfl⟩
        have hkeys := keysOf_cons_of_some (h := h)
          (e := .read t (some ⟨index, s.keys.creations index⟩)) rfl
        have hcalls := callsOf_cons_of_not (h := h)
          (e := .read t (some ⟨index, s.keys.creations index⟩)) fun _ _ => rfl
        refine ⟨?_, ?_, fun u => ?_⟩
        · rw [hkeys]
          refine hinv.run.step hrecent ?_
          simp only [Keys.step, Option.ite_none_right_eq_some, Option.some.injEq]
          refine ⟨hcallOf.trans hnone, ?_⟩
          rw [hknown]
          have hcall : Function.update s.callOf t
              (some (.set ⟨index, s.keys.creations index⟩ 0 true)) = (s.goto t (.take pass index
                invoked (s.destructorAt index) (s.keys.keys index).generation
                (some ⟨index, s.keys.creations index⟩))).callOf := by
            funext u
            by_cases hu : u = t
            · subst hu
              rw [Function.update_self]
              unfold State.callOf
              rw [goto_exit_self]
            · rw [Function.update_of_ne hu]
              unfold State.callOf
              rw [goto_exit_other hu]
              rfl
          unfold State.toKeys State.setCall
          rw [← hcall]
          rfl
        · rw [hkeys]
          exact ⟨hinv.entered.length, hinv.entered.head⟩
        · by_cases hu : u = t
          · subst hu
            rw [goto_exit_self]
            refine ⟨hnone, hpass, hindex, fun i => by rw [hcalls]; exact hle i, hq, hdue, rfl,
              hgeneration, ?_⟩
            rw [hkeys, State.destructorAt, if_pos hallocated]
            exact destructorOf_cons _ (hinv.entered.destructorOf hallocated)
          · rw [goto_exit_other hu]
            exact (hinv.exit u).frame rfl rfl rfl (fun _ hq => hq) (hcalls u)
      · rename_i hnot
        subst hfound
        refine hinv.goto rfl (fun _ _ => rfl) ?_ ?_
        · rw [hcallOf]
          unfold State.callOf
          rw [goto_exit_self]
          rfl
        · refine ⟨hnone, hpass, hindex, fun i => ?_, hq, hnot, hinv.quiet hnot⟩
          rw [callsOf_cons_of_not fun _ _ => rfl]
          exact hle i
    · cases hs
  · cases hs

/-- What a call of a destructor finds. -/
theorem Inv.due (hinv : Inv h s) (hs : step s (.call t c d v) = some s') :
    ∃ pass invoked g, s.exit t = .take pass c.slot invoked d g (some c) ∧ s.Due t c.slot d g ∧
      g = generationOf c.number ∧ destructorOf (keysOf h) c = some d ∧
      v = s.keys.tlsValues t c.slot ∧ s' = (s.clear t c.slot).goto t (.calling pass c.slot) := by
  simp only [step] at hs
  split at hs
  · rename_i pass index invoked d' g found hx
    split at hs
    · rename_i hcond
      obtain ⟨hdue, rfl, rfl, hv⟩ := hcond
      cases hs
      have hg := hinv.exit t
      rw [hx] at hg
      obtain ⟨-, -, -, -, -, -, rfl, hgeneration, hdestructor⟩ := hg
      exact ⟨pass, invoked, g, hx, hdue, hgeneration, hdestructor, hv, rfl⟩
    · cases hs
  · cases hs

theorem Inv.call (hinv : Inv h s) (hs : step s (.call t c d v) = some s') :
    Inv (.call t c d v :: h) s' := by
  obtain ⟨pass, invoked, g, hx, hdue, hgeneration, hdestructor, -, rfl⟩ := hinv.due hs
  have hg := hinv.exit t
  rw [hx] at hg
  obtain ⟨hnone, hpass, hindex, hle, -⟩ := hg
  have hkeys := keysOf_cons_of_some (h := h) (e := .call t c d v) rfl
  have hcallOf : s.toKeys.call t = some (.set c 0 true) := by
    show s.callOf t = _
    unfold State.callOf
    rw [hx]
  have hrecent := (inv_of_run hinv.run).call_recent t _ hcallOf
  have hslot : c.slot < runtimeThreadKeyCount := hindex
  refine ⟨?_, ?_, fun u => ?_⟩
  · rw [hkeys]
    refine hinv.run.step trivial ?_
    simp only [Keys.step, hcallOf, if_true, Option.some.injEq, State.setCall, State.writeSlot,
      Creation.keyIndex_handle hslot, Creation.keyGeneration_handle hslot]
    have hcall : Function.update s.callOf t none =
        ((s.clear t c.slot).goto t (.calling pass c.slot)).callOf := by
      funext u
      by_cases hu : u = t
      · subst hu
        rw [Function.update_self]
        unfold State.callOf
        rw [goto_exit_self]
        exact hnone.symm
      · rw [Function.update_of_ne hu]
        unfold State.callOf
        rw [goto_exit_other hu]
        rfl
    have hgenerations : Function.update s.keys.tlsGenerations t
        (Function.update (s.keys.tlsGenerations t) c.slot (generationOf c.number)) =
        s.keys.tlsGenerations := by
      rw [← hgeneration, ← hdue.2.2, Function.update_eq_self, Function.update_eq_self]
    simp only [State.toKeys, hgenerations, ← hcall]
    rfl
  · rw [hkeys]
    exact ⟨hinv.entered.length, hinv.entered.head⟩
  · by_cases hu : u = t
    · subst hu
      rw [goto_exit_self]
      refine ⟨hpass, hindex, fun i => ?_⟩
      have := hle i
      have hcount : callsOf (.call u c d v :: h) u i =
          callsOf h u i + if c.slot = i then 1 else 0 := by
        simp [callsOf, Event.Calls, List.countP_cons]
      rw [hcount]
      split at this <;> split <;> split <;> omega
    · rw [goto_exit_other hu]
      have hvalues : (s.clear t c.slot).keys.tlsValues u = s.keys.tlsValues u :=
        Function.update_of_ne hu _ _
      refine (hinv.exit u).frame rfl hvalues rfl (fun i hq hallocated hdestructor => ?_)
        fun i => ?_
      · have hread := hq hallocated hdestructor
        simp only [State.readSlot] at hread ⊢
        show (if _ then (s.clear t c.slot).keys.tlsValues u _ else 0) = 0
        rw [hvalues]
        exact hread
      · simp [callsOf, Event.Calls, Ne.symm hu]

theorem Inv.step (hinv : Inv h s) (hp : Guard h s e) (hs : step s e = some s') :
    Inv (e :: h) s' := by
  cases e with
  | key k => exact hinv.key hp hs
  | depart t => exact hinv.depart hs
  | read t found => exact hinv.read hs
  | call t c d v => exact hinv.call hs
  | skip t => exact hinv.skip hs
  | back t => exact hinv.back hs

/-! ## Runs -/

theorem Inv.initial (h0 : init s) : Inv [] s where
  run := by
    refine .start ?_
    obtain ⟨⟨hkeys, hvalues, hgenerations, hcall, hcreations⟩, hexit⟩ := h0
    refine ⟨hkeys, hvalues, hgenerations, fun t => ?_, hcreations⟩
    show s.callOf t = none
    rw [callOf_of_program (by rw [hexit t]; trivial), hcall t]
  entered := by
    obtain ⟨⟨hkeys, -, -, -, hcreations⟩, -⟩ := h0
    refine ⟨fun i => (hcreations i).symm, fun i hi => ?_⟩
    rw [hkeys i] at hi
    cases hi
  exit t := by
    rw [h0.2 t]
    exact fun _ => rfl

theorem inv_of_run (hrun : Run step Guard init h s) : Inv h s :=
  Run.history_invariant (fun _ h0 => Inv.initial h0)
    (fun _ _ _ _ hinv hp hs => hinv.step hp hs) hrun

/-- No key yet, and no thread departing. -/
def untouched : State Bool :=
  ⟨⟨fun _ => ⟨0, 0, false⟩, fun _ _ => 0, fun _ _ => 0, fun _ => none, fun _ => 0⟩,
    fun _ => .running⟩

end KeyDestructors
end Backend
end NucleoBase
