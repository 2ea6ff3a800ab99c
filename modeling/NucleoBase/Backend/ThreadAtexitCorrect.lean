/-
  NucleoBase.Backend.ThreadAtexitCorrect

  Destructors of thread-local objects: the lists in the heap hold the stacks
  of the history, in every run, so each destructor is called once, newest
  first, and each element is deleted once, after its call.
-/

import NucleoBase.Backend.ThreadAtexit

namespace NucleoBase
namespace Backend
namespace ThreadAtexit

open Lib

variable {Thread : Type*} [DecidableEq Thread]

/-! ## The invariant -/

/-- The link of an element. -/
def linkOf (heap : Heap) (a : Address) : Option Address := (heap a).bind Element.next

def registrationAt (heap : Heap) (a : Address) : Option Registration :=
  (heap a).map Element.registration

/-- The list of a context consists of these elements, which hold the pending registrations. -/
structure ListOf (heap : Heap) (first : Option Address) (elements : List Address)
    (stack : List Registration) : Prop where
  chain : Chain (linkOf heap) first elements
  stack : elements.map (registrationAt heap) = stack.map some
  nodup : elements.Nodup

/-- What holds between the history and the state, the elements of the lists given. -/
structure Holds (h : List (Event Thread)) (s : State Thread)
    (elements : Context Thread → List Address) : Prop where
  list : ∀ c, ListOf s.heap (s.first c) (elements c) (pending h c)
  apart : ∀ c d a, a ∈ elements c → a ∈ elements d → c = d
  /-- The element in use is no longer on a list, and holds the last called registration. -/
  calling : ∀ t a, s.pc t = .calling a → (∀ c, a ∉ elements c) ∧
    ∃ r, registrationAt s.heap a = some r ∧ called h t = r :: freed h t
  alone : ∀ t u a, s.pc t = .calling a → s.pc u = .calling a → t = u
  deleted : ∀ t, (∀ a, s.pc t ≠ .calling a) → freed h t = called h t
  /-- Nothing else is allocated. -/
  allocated : ∀ a, s.heap a ≠ none → (∃ c, a ∈ elements c) ∨ ∃ t, s.pc t = .calling a
  head : ∀ t current, s.pc t = .head current → current = s.first (.thread t)
  noFault : ∀ t, s.pc t ≠ .fault
  done : ∀ t, s.pc t = .done → pending h (.thread t) = []
  notStarted : s.started = false → ∀ t, s.pc t = .body ∧ owned h (.thread t) = []
  newest : CallsNewest h
  sorted : ∀ c, (owned h c).Pairwise fun r r' => r'.id < r.id
  counted : s.registrations = count h

/-! ## Lists in the heap -/

section Lists

variable {heap : Heap} {first : Option Address} {elements : List Address}
  {stack : List Registration} {a : Address}

theorem ListOf.allocated (hlist : ListOf heap first elements stack) (ha : a ∈ elements) :
    heap a ≠ none := by
  have hmem : registrationAt heap a ∈ elements.map (registrationAt heap) :=
    List.mem_map_of_mem ha
  rw [hlist.stack] at hmem
  obtain ⟨r, -, hr⟩ := List.mem_map.mp hmem
  intro hnone
  rw [registrationAt, hnone] at hr
  exact absurd hr (by simp)

/-- A list does not notice a change of the heap elsewhere. -/
theorem ListOf.update (hlist : ListOf heap first elements stack) (ha : a ∉ elements)
    (e : Option Element) : ListOf (Function.update heap a e) first elements stack where
  chain := by
    refine hlist.chain.congr fun b hb => ?_
    have hne : b ≠ a := fun heq => ha (heq ▸ hb)
    rw [linkOf, Function.update_of_ne hne]
    rfl
  stack := by
    rw [← hlist.stack]
    refine List.map_congr_left fun b hb => ?_
    have hne : b ≠ a := fun heq => ha (heq ▸ hb)
    rw [registrationAt, Function.update_of_ne hne]
    rfl
  nodup := hlist.nodup

/-- A new element in front. -/
theorem ListOf.push (hlist : ListOf heap first elements stack) (hfree : heap a = none)
    (r : Registration) :
    ListOf (Function.update heap a (some ⟨r, first⟩)) (some a) (a :: elements) (r :: stack) := by
  have hnot : a ∉ elements := fun hin => hlist.allocated hin hfree
  have hrest := hlist.update hnot (some ⟨r, first⟩)
  refine ⟨⟨rfl, ?_⟩, ?_, List.nodup_cons.mpr ⟨hnot, hlist.nodup⟩⟩
  · have hlink : linkOf (Function.update heap a (some ⟨r, first⟩)) a = first := by
      rw [linkOf, Function.update_self]
      rfl
    rw [hlink]
    exact hrest.chain
  · have hreg : registrationAt (Function.update heap a (some ⟨r, first⟩)) a = some r := by
      rw [registrationAt, Function.update_self]
      rfl
    rw [List.map_cons, List.map_cons, hreg, hrest.stack]

/-- The first element, and the list behind it. -/
theorem ListOf.pop (hlist : ListOf heap (some a) elements stack) :
    ∃ e rest behind, heap a = some e ∧ elements = a :: rest ∧ stack = e.registration :: behind ∧
      ListOf heap e.next rest behind := by
  obtain ⟨hchain, hstack, hnodup⟩ := hlist
  cases elements with
  | nil => exact absurd hchain (by simp [Chain])
  | cons b rest =>
      obtain ⟨hfirst, hrest⟩ := hchain
      obtain rfl := Option.some.inj hfirst
      cases stack with
      | nil => exact absurd hstack (by simp)
      | cons r behind =>
          rw [List.map_cons, List.map_cons, List.cons.injEq] at hstack
          obtain ⟨hreg, hstack⟩ := hstack
          obtain ⟨e, he, rfl⟩ := Option.map_eq_some_iff.mp hreg
          refine ⟨e, rest, behind, he, rfl, rfl, ?_, hstack, (List.nodup_cons.mp hnodup).2⟩
          rw [linkOf, he] at hrest
          exact hrest

theorem ListOf.nil_of_none (hlist : ListOf heap none elements stack) :
    elements = [] ∧ stack = [] := by
  have hnil := hlist.chain.of_none
  have hstack := hlist.stack
  rw [hnil] at hstack
  exact ⟨hnil, List.map_eq_nil_iff.mp hstack.symm⟩

theorem ListOf.none_of_nil (hlist : ListOf heap first elements []) :
    first = none ∧ elements = [] := by
  have hnil : elements = [] := List.map_eq_nil_iff.mp hlist.stack
  have hchain := hlist.chain
  rw [hnil] at hchain
  exact ⟨hchain, hnil⟩

end Lists

/-! ## Steps -/

section Steps

variable {h : List (Event Thread)} {s s' : State Thread} {e : Event Thread}
  {elements : Context Thread → List Address} {t u : Thread} {a : Address}

/-- An address that is not allocated is on no list, and no element in use has it. -/
theorem Holds.not_mem (hold : Holds h s elements) (hfree : s.heap a = none)
    (c : Context Thread) : a ∉ elements c :=
  fun hin => (hold.list c).allocated hin hfree

theorem Holds.not_calling (hold : Holds h s elements) (hfree : s.heap a = none) (t : Thread) :
    s.pc t ≠ .calling a := by
  intro hpc
  obtain ⟨-, r, hr, -⟩ := hold.calling t a hpc
  rw [registrationAt, hfree] at hr
  exact absurd hr (by simp)

theorem registrationAt_update_of_ne {heap : Heap} {b : Address} (hne : b ≠ a)
    (e : Option Element) : registrationAt (Function.update heap a e) b = registrationAt heap b := by
  rw [registrationAt, Function.update_of_ne hne]
  rfl

/-- A successful registration. -/
theorem Holds.push (hold : Holds h s elements) {c : Context Thread} {f object : Address}
    (hmay : s.MayRegister c) (hfree : s.heap a = none) :
    Holds (.register c (some f) object (some a) :: h)
      (s.cxaThreadAtexit c (some f) object (some a)).1
      (Function.update elements c (a :: elements c)) where
  list d := by
    simp only [State.cxaThreadAtexit, pending, hold.counted]
    by_cases hdc : d = c
    · subst hdc
      rw [Function.update_self, Function.update_self, Function.update_self]
      exact (hold.list d).push hfree _
    · rw [Function.update_of_ne hdc, Function.update_of_ne hdc, Function.update_of_ne hdc]
      exact (hold.list d).update (hold.not_mem hfree d) _
  apart d d' b hb hb' := by
    by_cases hdc : d = c <;> by_cases hdc' : d' = c
    · exact hdc.trans hdc'.symm
    · rw [hdc, Function.update_self] at hb
      rw [Function.update_of_ne hdc'] at hb'
      rcases List.mem_cons.mp hb with rfl | hb
      · exact absurd hb' (hold.not_mem hfree d')
      · exact hdc.trans (hold.apart c d' b hb hb')
    · rw [Function.update_of_ne hdc] at hb
      rw [hdc', Function.update_self] at hb'
      rcases List.mem_cons.mp hb' with rfl | hb'
      · exact absurd hb (hold.not_mem hfree d)
      · exact (hold.apart d c b hb hb').trans hdc'.symm
    · rw [Function.update_of_ne hdc] at hb
      rw [Function.update_of_ne hdc'] at hb'
      exact hold.apart d d' b hb hb'
  calling v b hpc := by
    obtain ⟨hnot, r, hr, hcalled⟩ := hold.calling v b hpc
    have hne : b ≠ a := fun heq => hold.not_calling hfree v (heq ▸ hpc)
    refine ⟨fun d hin => ?_, r, ?_, hcalled⟩
    · by_cases hdc : d = c
      · rw [hdc, Function.update_self] at hin
        exact (List.mem_cons.mp hin).elim hne (hnot c)
      · rw [Function.update_of_ne hdc] at hin
        exact hnot d hin
    · show registrationAt (Function.update s.heap a _) b = some r
      rw [registrationAt_update_of_ne hne, hr]
  alone := hold.alone
  deleted := hold.deleted
  allocated b hb := by
    by_cases hba : b = a
    · refine .inl ⟨c, ?_⟩
      rw [hba, Function.update_self]
      exact List.mem_cons_self
    · change Function.update s.heap a _ b ≠ none at hb
      rw [Function.update_of_ne hba] at hb
      rcases hold.allocated b hb with ⟨d, hd⟩ | hcalling
      · refine .inl ⟨d, ?_⟩
        by_cases hdc : d = c
        · rw [hdc, Function.update_self]
          exact List.mem_cons_of_mem a (hdc ▸ hd)
        · rw [Function.update_of_ne hdc]
          exact hd
      · exact .inr hcalling
  head v current hpc := by
    have hcurrent := hold.head v current hpc
    have hne : Context.thread v ≠ c := by
      rintro rfl
      -- a thread at the head of its loop runs no code that registers
      obtain ⟨-, hbody | ⟨b, hb⟩⟩ := hmay
      · exact absurd (hpc.symm.trans hbody) (by simp)
      · exact absurd (hpc.symm.trans hb) (by simp)
    show current = Function.update s.first c (some a) (.thread v)
    rw [Function.update_of_ne hne]
    exact hcurrent
  noFault := hold.noFault
  done v hpc := by
    have hne : Context.thread v ≠ c := by
      rintro rfl
      obtain ⟨-, hbody | ⟨b, hb⟩⟩ := hmay
      · exact absurd (hpc.symm.trans hbody) (by simp)
      · exact absurd (hpc.symm.trans hb) (by simp)
    simp only [pending, Function.update_of_ne hne]
    exact hold.done v hpc
  notStarted hstarted v := by
    have hne : Context.thread v ≠ c := by
      rintro rfl
      exact absurd (hmay.1.symm.trans hstarted) (by simp)
    simp only [owned, Function.update_of_ne hne]
    exact hold.notStarted hstarted v
  newest := hold.newest
  sorted d := by
    simp only [owned]
    by_cases hdc : d = c
    · subst hdc
      rw [Function.update_self]
      exact List.pairwise_cons.mpr ⟨fun r hr => (owned_numbered h).lt d r hr, hold.sorted d⟩
    · rw [Function.update_of_ne hdc]
      exact hold.sorted d
  counted := congrArg (· + 1) hold.counted

/-- A failed registration changes nothing. -/
theorem Holds.refuse (hold : Holds h s elements) {c : Context Thread} {function : Option Address}
    {object : Address} {allocated : Option Address} (hfails : function = none ∨ allocated = none) :
    Holds (.register c function object allocated :: h) s elements := by
  have hsame : pending (.register c function object allocated :: h) = pending h ∧
      owned (.register c function object allocated :: h) = owned h ∧
      count (.register c function object allocated :: h) = count h := by
    rcases hfails with rfl | rfl
    · exact ⟨rfl, rfl, rfl⟩
    · cases function <;> exact ⟨rfl, rfl, rfl⟩
  obtain ⟨hpending, howned, hcount⟩ := hsame
  refine ⟨?_, hold.apart, hold.calling, hold.alone, hold.deleted, hold.allocated, hold.head,
    hold.noFault, ?_, ?_, hold.newest, ?_, ?_⟩
  · rw [hpending]
    exact hold.list
  · rw [hpending]
    exact hold.done
  · rw [howned]
    exact hold.notStarted
  · rw [howned]
    exact hold.sorted
  · rw [hcount]
    exact hold.counted

/-- Before the scheduler starts, the threads' lists are empty. -/
theorem Holds.empty (hold : Holds h s elements) (hstarted : s.started = false) (t : Thread) :
    pending h (.thread t) = [] ∧ elements (.thread t) = [] ∧ s.first (.thread t) = none := by
  have hpending : pending h (.thread t) = [] := by
    have hsub := pending_sublist h (.thread t)
    rw [(hold.notStarted hstarted t).2] at hsub
    exact List.sublist_nil.mp hsub
  have hlist := hold.list (.thread t)
  rw [hpending] at hlist
  obtain ⟨hfirst, helements⟩ := hlist.none_of_nil
  exact ⟨hpending, helements, hfirst⟩

/-- The list moves from the startup context to the thread. -/
theorem Holds.adopt (hold : Holds h s elements) (hstarted : s.started = false) (t : Thread) :
    Holds (.adopt t :: h) (s.adoptStartup t)
      (Function.update (Function.update elements (.thread t) (elements .startup)) .startup []) := by
  obtain ⟨hpending, helements, hfirst⟩ := hold.empty hstarted t
  have howned := (hold.notStarted hstarted t).2
  have hpc : ∀ u, s.pc u = .body := fun u => (hold.notStarted hstarted u).1
  have hne : ∀ u, Context.thread u ≠ (.startup : Context Thread) := fun u => by simp
  refine ⟨fun c => ?_, fun c d a ha hb => ?_, fun u a hu => ?_, fun u v a hu => ?_, hold.deleted,
    fun a ha => ?_, fun u current hu => ?_, hold.noFault, fun u hu => ?_, fun h => ?_,
    hold.newest, fun c => ?_, hold.counted⟩
  · simp only [State.adoptStartup, pending, hpending, List.nil_append]
    by_cases hstartup : c = .startup
    · rw [hstartup, Function.update_self, Function.update_self, Function.update_self]
      exact ⟨rfl, rfl, List.nodup_nil⟩
    · rw [Function.update_of_ne hstartup, Function.update_of_ne hstartup,
        Function.update_of_ne hstartup]
      by_cases hct : c = .thread t
      · rw [hct, Function.update_self, Function.update_self, Function.update_self]
        exact hold.list .startup
      · rw [Function.update_of_ne hct, Function.update_of_ne hct, Function.update_of_ne hct]
        exact hold.list c
  · -- the startup elements are those of the thread now
    have hmem : ∀ c, a ∈ Function.update (Function.update elements (.thread t)
        (elements .startup)) .startup [] c →
        c ≠ .startup ∧ (c = .thread t ∧ a ∈ elements .startup ∨ a ∈ elements c) := by
      intro c ha
      by_cases hstartup : c = .startup
      · rw [hstartup, Function.update_self] at ha
        exact absurd ha List.not_mem_nil
      · rw [Function.update_of_ne hstartup] at ha
        refine ⟨hstartup, ?_⟩
        by_cases hct : c = .thread t
        · rw [hct, Function.update_self] at ha
          exact .inl ⟨hct, ha⟩
        · rw [Function.update_of_ne hct] at ha
          exact .inr ha
    obtain ⟨hc, hfrom⟩ := hmem c ha
    obtain ⟨hd, hfrom'⟩ := hmem d hb
    rcases hfrom with ⟨hct, hmoved⟩ | hstay
    · rcases hfrom' with ⟨hdt, -⟩ | hstay'
      · exact hct.trans hdt.symm
      · exact absurd (hold.apart d .startup a hstay' hmoved) hd
    · rcases hfrom' with ⟨-, hmoved'⟩ | hstay'
      · exact absurd (hold.apart c .startup a hstay hmoved') hc
      · exact hold.apart c d a hstay hstay'
  · exact absurd ((hpc u).symm.trans hu) (by simp)
  · exact absurd ((hpc u).symm.trans hu) (by simp)
  · rcases hold.allocated a ha with ⟨c, hc⟩ | ⟨u, hu⟩
    · refine .inl ?_
      by_cases hstartup : c = .startup
      · refine ⟨.thread t, ?_⟩
        rw [Function.update_of_ne (hne t), Function.update_self]
        exact hstartup ▸ hc
      · refine ⟨c, ?_⟩
        rw [Function.update_of_ne hstartup]
        by_cases hct : c = .thread t
        · rw [hct, helements] at hc
          exact absurd hc List.not_mem_nil
        · rw [Function.update_of_ne hct]
          exact hc
    · exact absurd ((hpc u).symm.trans hu) (by simp)
  · exact absurd ((hpc u).symm.trans hu) (by simp)
  · exact absurd ((hpc u).symm.trans hu) (by simp)
  · exact absurd h (by simp [State.adoptStartup])
  · simp only [owned, howned, List.nil_append]
    by_cases hstartup : c = .startup
    · rw [hstartup, Function.update_self]
      exact List.Pairwise.nil
    · rw [Function.update_of_ne hstartup]
      by_cases hct : c = .thread t
      · rw [hct, Function.update_self]
        exact hold.sorted .startup
      · rw [Function.update_of_ne hct]
        exact hold.sorted c

/-- A thread that moves on without a change of any list. -/
theorem goto_pc (s : State Thread) (t u : Thread) (pc : Pc) :
    (s.goto t pc).pc u = if u = t then pc else s.pc u :=
  Function.update_apply s.pc t pc u

theorem Holds.exit (hold : Holds h s elements) (hstarted : s.started = true)
    (hpc : s.pc t = .body) :
    Holds (.exit t :: h) (s.goto t (.head (s.first (.thread t)))) elements where
  list := hold.list
  apart := hold.apart
  calling u a hu := by
    rw [goto_pc] at hu
    split at hu
    · exact absurd hu (by simp)
    · exact hold.calling u a hu
  alone u v a hu hv := by
    rw [goto_pc] at hu hv
    split at hu
    · exact absurd hu (by simp)
    · split at hv
      · exact absurd hv (by simp)
      · exact hold.alone u v a hu hv
  deleted u hu := by
    by_cases hut : u = t
    · refine hold.deleted u fun a ha => ?_
      rw [hut, hpc] at ha
      exact absurd ha (by simp)
    · refine hold.deleted u fun a ha => hu a ?_
      rw [goto_pc, if_neg hut, ha]
  allocated a ha := by
    refine (hold.allocated a ha).imp id fun ⟨u, hu⟩ => ⟨u, ?_⟩
    have hut : u ≠ t := by
      rintro rfl
      exact absurd (hpc.symm.trans hu) (by simp)
    rw [goto_pc, if_neg hut, hu]
  head u current hu := by
    rw [goto_pc] at hu
    split at hu
    · next hut =>
        rw [hut]
        exact (Pc.head.inj hu).symm
    · exact hold.head u current hu
  noFault u := by
    rw [goto_pc]
    split
    · simp
    · exact hold.noFault u
  done u hu := by
    rw [goto_pc] at hu
    split at hu
    · exact absurd hu (by simp)
    · exact hold.done u hu
  notStarted hfalse := absurd (hstarted.symm.trans hfalse) (by simp)
  newest := hold.newest
  sorted := hold.sorted
  counted := hold.counted

/-- The newest registration is taken from the list and called. -/
theorem Holds.call (hold : Holds h s elements) {current : Address} {e : Element}
    (hpc : s.pc t = .head (some current)) (he : s.heap current = some e) :
    ∃ elements', Holds (.call t e.registration.function e.registration.object :: h)
      ({ s with first := Function.update s.first (.thread t) e.next }.goto t (.calling current))
      elements' := by
  have hfirst := hold.head t (some current) hpc
  have hlist := hold.list (.thread t)
  rw [← hfirst] at hlist
  obtain ⟨e', rest, behind, he', helements, hpending, hrest⟩ := hlist.pop
  obtain rfl : e' = e := Option.some.inj (he'.symm.trans he)
  have hnodup := (hold.list (.thread t)).nodup
  rw [helements] at hnodup
  have hnotrest : current ∉ rest := (List.nodup_cons.mp hnodup).1
  have hin : current ∈ elements (.thread t) := by
    rw [helements]
    exact List.mem_cons_self
  have hsub : ∀ c a, a ∈ Function.update elements (.thread t) rest c → a ∈ elements c := by
    intro c a ha
    by_cases hct : c = .thread t
    · rw [hct, Function.update_self] at ha
      rw [hct, helements]
      exact List.mem_cons_of_mem _ ha
    · rwa [Function.update_of_ne hct] at ha
  have hgone : ∀ c, current ∉ Function.update elements (.thread t) rest c := by
    intro c hc
    by_cases hct : c = .thread t
    · rw [hct, Function.update_self] at hc
      exact hnotrest hc
    · rw [Function.update_of_ne hct] at hc
      exact hct (hold.apart c (.thread t) current hc hin)
  have hfreed : freed h t = called h t := by
    refine hold.deleted t fun a ha => ?_
    exact absurd (hpc.symm.trans ha) (by simp)
  refine ⟨Function.update elements (.thread t) rest, fun c => ?_, fun c d a ha hb => ?_,
    fun u a hu => ?_, fun u v a hu hv => ?_, fun u hu => ?_, fun a ha => ?_,
    fun u next hu => ?_, fun u => ?_, fun u hu => ?_, fun hfalse => ?_, ⟨⟨e'.registration, ?_,
    rfl, rfl⟩, hold.newest⟩, hold.sorted, hold.counted⟩
  · simp only [pending, State.goto]
    by_cases hct : c = .thread t
    · rw [hct, Function.update_self, Function.update_self, Function.update_self, hpending]
      exact hrest
    · rw [Function.update_of_ne hct, Function.update_of_ne hct, Function.update_of_ne hct]
      exact hold.list c
  · exact hold.apart c d a (hsub c a ha) (hsub d a hb)
  · rw [goto_pc] at hu
    split at hu
    · next hut =>
        obtain rfl := Pc.calling.inj hu
        refine ⟨hgone, e'.registration, ?_, ?_⟩
        · show registrationAt s.heap current = _
          rw [registrationAt, he]
          rfl
        · simp only [called, freed]
          rw [hut, Function.update_self, hpending, hfreed]
          rfl
    · next hut =>
        obtain ⟨hnot, r, hr, hcalled⟩ := hold.calling u a hu
        refine ⟨fun c hc => hnot c (hsub c a hc), r, hr, ?_⟩
        simp only [called, freed]
        rw [Function.update_of_ne hut, hcalled]
  · rw [goto_pc] at hu hv
    split at hu
    · next hut =>
        split at hv
        · next hvt => exact hut.trans hvt.symm
        · obtain rfl := Pc.calling.inj hu
          exact absurd hin ((hold.calling v current hv).1 (.thread t))
    · split at hv
      · obtain rfl := Pc.calling.inj hv
        exact absurd hin ((hold.calling u current hu).1 (.thread t))
      · exact hold.alone u v a hu hv
  · by_cases hut : u = t
    · exact absurd (by rw [goto_pc, if_pos hut]) (hu current)
    · simp only [called, freed]
      rw [Function.update_of_ne hut]
      refine hold.deleted u fun a ha => hu a ?_
      rw [goto_pc, if_neg hut]
      exact ha
  · rcases hold.allocated a ha with ⟨c, hc⟩ | ⟨u, hu⟩
    · by_cases hcurrent : a = current
      · refine .inr ⟨t, ?_⟩
        rw [goto_pc, if_pos rfl, hcurrent]
      · refine .inl ⟨c, ?_⟩
        by_cases hct : c = .thread t
        · rw [hct, helements] at hc
          rw [hct, Function.update_self]
          exact (List.mem_cons.mp hc).resolve_left hcurrent
        · rw [Function.update_of_ne hct]
          exact hc
    · have hut : u ≠ t := by
        rintro rfl
        exact absurd (hpc.symm.trans hu) (by simp)
      refine .inr ⟨u, ?_⟩
      rw [goto_pc, if_neg hut]
      exact hu
  · rw [goto_pc] at hu
    split at hu
    · exact absurd hu (by simp)
    · next hut =>
        have hne : Context.thread u ≠ .thread t := by simpa using hut
        show next = Function.update s.first (.thread t) _ (.thread u)
        rw [Function.update_of_ne hne]
        exact hold.head u next hu
  · rw [goto_pc]
    split
    · simp
    · exact hold.noFault u
  · rw [goto_pc] at hu
    split at hu
    · exact absurd hu (by simp)
    · next hut =>
        have hne : Context.thread u ≠ .thread t := by simpa using hut
        simp only [pending, Function.update_of_ne hne]
        exact hold.done u hu
  · exact absurd ((hold.notStarted hfalse t).1.symm.trans hpc) (by simp)
  · rw [hpending]
    rfl

/-- The element that was in use is deleted. -/
theorem Holds.free (hold : Holds h s elements) {current : Address}
    (hpc : s.pc t = .calling current) :
    Holds (.free t :: h)
      ({ s with heap := Function.update s.heap current none }.goto t
        (.head (s.first (.thread t)))) elements := by
  obtain ⟨hgone, r, hr, hcalled⟩ := hold.calling t current hpc
  have hfreed : freed (.free t :: h) t = called h t := by
    simp only [freed]
    rw [Function.update_self, hcalled]
    rfl
  refine ⟨fun c => (hold.list c).update (hgone c) none, hold.apart, fun u a hu => ?_,
    fun u v a hu hv => ?_, fun u hu => ?_, fun a ha => ?_, fun u next hu => ?_, fun u => ?_,
    fun u hu => ?_, fun hfalse => ?_, hold.newest, hold.sorted, hold.counted⟩
  · rw [goto_pc] at hu
    split at hu
    · exact absurd hu (by simp)
    · next hut =>
        obtain ⟨hnot, r', hr', hcalled'⟩ := hold.calling u a hu
        have hne : a ≠ current := fun heq => hut (hold.alone u t a hu (heq ▸ hpc))
        refine ⟨hnot, r', ?_, ?_⟩
        · show registrationAt (Function.update s.heap current none) a = some r'
          rw [registrationAt_update_of_ne hne, hr']
        · simp only [freed]
          rw [Function.update_of_ne hut]
          exact hcalled'
  · rw [goto_pc] at hu hv
    split at hu
    · exact absurd hu (by simp)
    · split at hv
      · exact absurd hv (by simp)
      · exact hold.alone u v a hu hv
  · by_cases hut : u = t
    · rw [hut]
      exact hfreed
    · simp only [freed]
      rw [Function.update_of_ne hut]
      refine hold.deleted u fun a ha => hu a ?_
      rw [goto_pc, if_neg hut]
      exact ha
  · have hne : a ≠ current := by
      rintro rfl
      exact ha (Function.update_self _ _ _)
    change Function.update s.heap current none a ≠ none at ha
    rw [Function.update_of_ne hne] at ha
    refine (hold.allocated a ha).imp id fun ⟨u, hu⟩ => ⟨u, ?_⟩
    have hut : u ≠ t := by
      rintro rfl
      exact hne (Pc.calling.inj (hu.symm.trans hpc))
    rw [goto_pc, if_neg hut]
    exact hu
  · rw [goto_pc] at hu
    split at hu
    · next hut =>
        rw [hut]
        exact (Pc.head.inj hu).symm
    · exact hold.head u next hu
  · rw [goto_pc]
    split
    · simp
    · exact hold.noFault u
  · rw [goto_pc] at hu
    split at hu
    · exact absurd hu (by simp)
    · exact hold.done u hu
  · exact absurd ((hold.notStarted hfalse t).1.symm.trans hpc) (by simp)

/-- The loop ends when its list is empty. -/
theorem Holds.leave (hold : Holds h s elements) (hpc : s.pc t = .head none) :
    Holds (.leave t :: h) (s.goto t .done) elements := by
  have hfirst := hold.head t none hpc
  have hlist := hold.list (.thread t)
  rw [← hfirst] at hlist
  have hpending := hlist.nil_of_none.2
  refine ⟨hold.list, hold.apart, fun u a hu => ?_, fun u v a hu hv => ?_, fun u hu => ?_,
    fun a ha => ?_, fun u next hu => ?_, fun u => ?_, fun u hu => ?_, fun hfalse => ?_,
    hold.newest, hold.sorted, hold.counted⟩
  · rw [goto_pc] at hu
    split at hu
    · exact absurd hu (by simp)
    · exact hold.calling u a hu
  · rw [goto_pc] at hu hv
    split at hu
    · exact absurd hu (by simp)
    · split at hv
      · exact absurd hv (by simp)
      · exact hold.alone u v a hu hv
  · by_cases hut : u = t
    · refine hold.deleted u fun a ha => ?_
      rw [hut, hpc] at ha
      exact absurd ha (by simp)
    · refine hold.deleted u fun a ha => hu a ?_
      rw [goto_pc, if_neg hut]
      exact ha
  · refine (hold.allocated a ha).imp id fun ⟨u, hu⟩ => ⟨u, ?_⟩
    have hut : u ≠ t := by
      rintro rfl
      exact absurd (hpc.symm.trans hu) (by simp)
    rw [goto_pc, if_neg hut]
    exact hu
  · rw [goto_pc] at hu
    split at hu
    · exact absurd hu (by simp)
    · exact hold.head u next hu
  · rw [goto_pc]
    split
    · simp
    · exact hold.noFault u
  · rw [goto_pc] at hu
    split at hu
    · next hut =>
        rw [hut]
        exact hpending
    · exact hold.done u hu
  · exact absurd ((hold.notStarted hfalse t).1.symm.trans hpc) (by simp)

theorem holds_of_init (hinit : init s) : Holds [] s fun _ => [] := by
  obtain ⟨hheap, hfirst, hstarted, hpc, hcount⟩ := hinit
  have hbody : ∀ t, s.pc t = .body := fun t => congrFun hpc t
  refine ⟨fun c => ⟨congrFun hfirst c, rfl, List.nodup_nil⟩, fun c d a ha => absurd ha
    List.not_mem_nil, fun t a ht => ?_, fun t u a ht => ?_, fun _ _ => rfl, fun a ha => ?_,
    fun t current ht => ?_, fun t ht => ?_, fun _ _ => rfl, fun _ t => ⟨hbody t, rfl⟩, trivial,
    fun _ => List.Pairwise.nil, hcount⟩
  · exact absurd ((hbody t).symm.trans ht) (by simp)
  · exact absurd ((hbody t).symm.trans ht) (by simp)
  · exact absurd (congrFun hheap a) ha
  · exact absurd ((hbody t).symm.trans ht) (by simp)
  · exact absurd ((hbody t).symm.trans ht) (by simp)

theorem Holds.step (hold : Holds h s elements) (hs : step s e = some s') :
    ∃ elements', Holds (e :: h) s' elements' := by
  cases e with
  | register c function object allocated =>
      simp only [ThreadAtexit.step, Option.ite_none_right_eq_some, Option.some.injEq] at hs
      obtain ⟨⟨hmay, hfree⟩, rfl⟩ := hs
      cases function with
      | none =>
          cases allocated with
          | none => exact ⟨_, hold.refuse (.inl rfl)⟩
          | some a => exact ⟨_, hold.refuse (.inl rfl)⟩
      | some f =>
          cases allocated with
          | none => exact ⟨_, hold.refuse (.inr rfl)⟩
          | some a => exact ⟨_, hold.push hmay (hfree a rfl)⟩
  | adopt t =>
      simp only [ThreadAtexit.step, Option.ite_none_left_eq_some, Option.some.injEq] at hs
      obtain ⟨hstarted, rfl⟩ := hs
      exact ⟨_, hold.adopt (Bool.eq_false_iff.mpr hstarted) t⟩
  | exit t =>
      simp only [ThreadAtexit.step, Option.ite_none_right_eq_some, Option.some.injEq] at hs
      obtain ⟨⟨hstarted, hpc⟩, rfl⟩ := hs
      exact ⟨_, hold.exit hstarted hpc⟩
  | call t f object =>
      simp only [ThreadAtexit.step] at hs
      split at hs
      · next current hpc =>
          split at hs
          · next hnone =>
              -- the head of a list is allocated
              have hlist := hold.list (.thread t)
              rw [← hold.head t _ hpc] at hlist
              obtain ⟨e, -, -, he, -⟩ := hlist.pop
              exact absurd (hnone.symm.trans he) (by simp)
          · next e he =>
              simp only [Option.ite_none_right_eq_some, Option.some.injEq] at hs
              obtain ⟨⟨rfl, rfl⟩, rfl⟩ := hs
              exact hold.call hpc he
      · exact absurd hs (by simp)
  | free t =>
      simp only [ThreadAtexit.step] at hs
      split at hs
      · next current hpc =>
          obtain ⟨-, r, hr, -⟩ := hold.calling t current hpc
          have hsome : (s.heap current).isSome = true := by
            obtain ⟨e, he, -⟩ := Option.map_eq_some_iff.mp hr
            rw [he]
            rfl
          rw [if_pos hsome] at hs
          obtain rfl := Option.some.inj hs
          exact ⟨_, hold.free hpc⟩
      · exact absurd hs (by simp)
  | leave t =>
      simp only [ThreadAtexit.step, Option.ite_none_right_eq_some, Option.some.injEq] at hs
      obtain ⟨hpc, rfl⟩ := hs
      exact ⟨_, hold.leave hpc⟩

theorem holds_of_run (hrun : Run step anyStep init h s) : ∃ elements, Holds h s elements := by
  refine Run.history_invariant (I := fun h s => ∃ elements, Holds h s elements) ?_ ?_ hrun
  · exact fun s hinit => ⟨_, holds_of_init hinit⟩
  · intro h s e s' ⟨elements, hold⟩ _ hs
    exact hold.step hs

/-! ## The results -/

/-- In the loop, the next call, the deletion or the end is always possible. -/
theorem Holds.progress (hold : Holds h s elements) (t : Thread) :
    (∀ current, s.pc t = .head (some current) →
      ∃ f object, (ThreadAtexit.step s (.call t f object)).isSome = true) ∧
    (∀ a, s.pc t = .calling a → (ThreadAtexit.step s (.free t)).isSome = true) ∧
    (s.pc t = .head none → (ThreadAtexit.step s (.leave t)).isSome = true) := by
  refine ⟨fun current hpc => ?_, fun a hpc => ?_, fun hpc => ?_⟩
  · have hlist := hold.list (.thread t)
    rw [← hold.head t _ hpc] at hlist
    obtain ⟨e, -, -, he, -⟩ := hlist.pop
    refine ⟨e.registration.function, e.registration.object, ?_⟩
    simp only [ThreadAtexit.step, hpc, he, and_self, if_true, Option.isSome_some]
  · simp only [ThreadAtexit.step, hpc]
    split <;> rfl
  · simp only [ThreadAtexit.step, hpc, if_true, Option.isSome_some]

end Steps

/-- Destructors of thread-local objects, in every run of any threads: no element is used or
    deleted that is not allocated; every call is that of the newest pending registration; what a
    thread owns (the startup registrations too, if it has adopted them) is called or pending,
    each registration once, and no other thread calls it; each element is deleted once, after
    its call; and a thread that has left the loop has called all it owns, and has an empty list.
    Every round of the loop uses up a registration, and none gets stuck. -/
theorem threadExit_correct {h : List (Event Thread)} {s : State Thread}
    (hrun : Run step anyStep init h s) :
    (∀ t, s.pc t ≠ .fault) ∧ CallsNewest h ∧
    (∀ c, (pending h c).Pairwise fun r r' => r'.id < r.id) ∧
    (∀ t, (owned h (.thread t)).Perm (called h t ++ pending h (.thread t)) ∧
      ((owned h (.thread t)).map Registration.id).Nodup) ∧
    (∀ t u, ∀ r ∈ called h t, r ∈ owned h (.thread u) → t = u) ∧
    (∀ t, freed h t = called h t ∨ ∃ a r, s.pc t = .calling a ∧
      registrationAt s.heap a = some r ∧ called h t = r :: freed h t) ∧
    (∀ t, s.pc t = .done → s.first (.thread t) = none ∧
      (owned h (.thread t)).Perm (called h t) ∧ freed h t = called h t) ∧
    ((∀ c, pending h c = []) → (∀ t a, s.pc t ≠ .calling a) → ∀ a, s.heap a = none) ∧
    (∀ t, (∀ current, s.pc t = .head (some current) →
        ∃ f object, (step s (.call t f object)).isSome = true) ∧
      (∀ a, s.pc t = .calling a → (step s (.free t)).isSome = true) ∧
      (s.pc t = .head none → (step s (.leave t)).isSome = true)) := by
  obtain ⟨elements, hold⟩ := holds_of_run hrun
  have hperm := (owned_perm h).1
  have hnumbered := owned_numbered h
  have hfreed : ∀ t, freed h t = called h t ∨ ∃ a r, s.pc t = .calling a ∧
      registrationAt s.heap a = some r ∧ called h t = r :: freed h t := by
    intro t
    by_cases hcalling : ∃ a, s.pc t = .calling a
    · obtain ⟨a, ha⟩ := hcalling
      obtain ⟨-, r, hr, hcalled⟩ := hold.calling t a ha
      exact .inr ⟨a, r, ha, hr, hcalled⟩
    · exact .inl (hold.deleted t fun a ha => hcalling ⟨a, ha⟩)
  refine ⟨hold.noFault, hold.newest, fun c => ?_, fun t => ⟨hperm t, hnumbered.nodup _⟩,
    fun t u r hr hu => ?_, hfreed, fun t hdone => ?_, fun hpending hcalling a => ?_,
    hold.progress⟩
  · exact (hold.sorted c).sublist (pending_sublist h c)
  · have hown : r ∈ owned h (.thread t) :=
      (hperm t).mem_iff.mpr (List.mem_append_left _ hr)
    exact Context.thread.inj (hnumbered.apart _ _ r hown r hu rfl)
  · have hpending := hold.done t hdone
    have hlist := hold.list (.thread t)
    rw [hpending] at hlist
    refine ⟨hlist.none_of_nil.1, ?_, ?_⟩
    · have hall := hperm t
      rwa [hpending, List.append_nil] at hall
    · exact hold.deleted t fun a ha => absurd (hdone.symm.trans ha) (by simp)
  · by_contra hsome
    rcases hold.allocated a hsome with ⟨c, hc⟩ | ⟨t, ht⟩
    · have hlist := hold.list c
      rw [hpending c] at hlist
      rw [hlist.none_of_nil.2] at hc
      exact absurd hc List.not_mem_nil
    · exact hcalling t a ht

/-- Nothing is registered. -/
def fresh : State Nat := ⟨fun _ => none, fun _ => none, false, fun _ => .body, 0⟩

/-- A registration of the startup code, one of the body, and one of the body's destructor,
    whose element gets the address of an earlier one. -/
def nested : List (Event Nat) :=
  [ .register .startup (some 1) 11 (some 100), .adopt 0
  , .register (.thread 0) (some 2) 22 (some 200), .exit 0, .call 0 2 22
  , .register (.thread 0) (some 3) 33 (some 300), .free 0, .call 0 3 33
  , .register (.thread 0) (some 4) 44 (some 200), .free 0, .call 0 4 44, .free 0
  , .call 0 1 11, .free 0, .leave 0 ]

theorem threadExit_correct_nested :
    ∃ s, replay step fresh nested = some s ∧ s.pc 0 = .done ∧
      (owned nested.reverse (.thread 0)).Perm (called nested.reverse 0) ∧
      (called nested.reverse 0).map Registration.function = [1, 4, 3, 2] := by
  have hsome : (replay step fresh nested).isSome = true := by decide
  have hpc : ∀ s ∈ replay step fresh nested, s.pc 0 = .done := by decide
  have hdone := hpc _ (Option.get_mem hsome)
  have hinit : init fresh := ⟨rfl, rfl, rfl, rfl, rfl⟩
  have hrun := Run.of_replay_isSome hinit hsome
  obtain ⟨-, -, -, -, -, -, hall, -⟩ := threadExit_correct hrun
  exact ⟨_, (Option.some_get hsome).symm, hdone, (hall 0 hdone).2.1, by decide⟩

end ThreadAtexit
end Backend
end NucleoBase
