/-
  NucleoBase.Backend.EmutlsCorrect

  Emulated thread-local storage gives every context its own copy of each object:
  what programs read and write are independent variables, which stay where they
  are until the context is deleted or hands them over.  Nothing is lost or given
  back twice.
-/

import NucleoBase.Backend.EmutlsHeld

namespace NucleoBase
namespace Backend
namespace Emutls

open Lib

variable {κ ι : Type}

/-! ## What programs see -/

/-- The copies of each context, and the object that it has called for last. -/
structure Variables (κ ι : Type) where
  copies : κ → ι → Option (List UInt8)
  called : κ → Option ι

def Variables.initial : Variables κ ι where
  copies := fun _ _ => none
  called := fun _ => none

def Variables.put [DecidableEq κ] [DecidableEq ι] (v : Variables κ ι) (c : κ) (o : ι)
    (bytes : Option (List UInt8)) : Variables κ ι :=
  { v with copies := Function.update v.copies c (Function.update (v.copies c) o bytes) }

/-- A copy starts as the object says, and only its own context writes it. -/
def Variables.apply [DecidableEq κ] [DecidableEq ι] (objects : ι → EmutlsObject)
    (v : Variables κ ι) : Label κ ι → Variables κ ι
  | .call c o => { v with called := Function.update v.called c (some o) }
  | .entry c _ =>
      match v.called c with
      | some o => v.put c o (some ((v.copies c o).getD (objects o).initial))
      | none => v
  | .store c o i x => v.put c o ((v.copies c o).map (·.set i x))
  | .destroy c => { v with copies := Function.update v.copies c fun _ => none }
  | .adopt c c' => { v with
      copies := Function.update (Function.update v.copies c' (v.copies c)) c fun _ => none }
  | .assign _ | .array _ _ _ => v

/-- The variables after the labels of a history. -/
def Variables.after [DecidableEq κ] [DecidableEq ι] (objects : ι → EmutlsObject)
    (h : List (Label κ ι)) : Variables κ ι :=
  h.foldr (fun l v => v.apply objects l) .initial

/-- The cells of a copy. -/
def State.copyOf (objects : ι → EmutlsObject) (s : State κ ι) (c : κ) (o : ι) :
    Option (List Cell) :=
  (s.address c o).map fun a => s.memory.load a (objects o).size

/-- Whose copies a context has after a step. -/
def Label.source [DecidableEq κ] : Label κ ι → κ → Option κ
  | .destroy c, d => if d = c then none else some d
  | .adopt c c', d => if d = c then none else if d = c' then some c else some d
  | _, d => some d

/-! ## Addresses -/

variable {objects : ι → EmutlsObject} {s s' : State κ ι} {c d : κ} {o o' : ι} {a p size : Nat}

theorem address_eq_some : s.address c o = some a ↔
    s.offsets o ≠ 0 ∧ s.entryAt c (s.offsets o - 1) = some a := by
  unfold State.address
  split
  · simp_all
  · simp_all

theorem address_congr (hoffsets : s'.offsets = s.offsets)
    (hentry : ∀ i, s'.entryAt c i = s.entryAt d i) : s'.address c o = s.address d o := by
  unfold State.address
  rw [hoffsets, hentry]

theorem copyOf_congr (haddress : s'.address c o = s.address d o)
    (hmemory : ∀ a, s.address d o = some a → ∀ x, a ≤ x → x < a + (objects o).size →
      s'.memory x = s.memory x) : s'.copyOf objects c o = s.copyOf objects d o := by
  unfold State.copyOf
  rw [haddress]
  exact Option.map_congr fun a ha => Memory.load_congr (hmemory a ha)

/-- The copy at an address. -/
theorem Held.copied (h : Held objects s) (ha : s.address c o = some a) :
    ∃ p size, Copied s (objects o) a p size := by
  obtain ⟨hne, hentry⟩ := address_eq_some.mp ha
  obtain ⟨o', p, size, ho', hcopied⟩ := h.copy c _ a hentry
  obtain rfl : o = o' := h.distinct o o' hne (by omega)
  exact ⟨p, size, hcopied⟩

/-- Copies and the pointers before them do not overlap. -/
theorem Held.addresses_apart (h : Held objects s) {a' : Nat} (ha : s.address c o = some a)
    (ha' : s.address d o' = some a') (hne : ¬ (c = d ∧ o = o')) :
    a + (objects o).size + pointerSize ≤ a' ∨ a' + (objects o').size + pointerSize ≤ a := by
  obtain ⟨p, size, hcopied⟩ := h.copied ha
  obtain ⟨p', size', hcopied'⟩ := h.copied ha'
  obtain ⟨hzero, hentry⟩ := address_eq_some.mp ha
  obtain ⟨hzero', hentry'⟩ := address_eq_some.mp ha'
  have hwithin := hcopied.within h.sound
  have hwithin' := hcopied'.within h.sound
  have howner : (Owner.copy d (s.offsets o' - 1) : Owner κ) ≠ .copy c (s.offsets o - 1) := by
    simp only [ne_eq, Owner.copy.injEq, not_and]
    rintro rfl heq
    exact hne ⟨rfl, h.distinct o o' hzero (by omega)⟩
  have := h.copied_apart hentry hcopied
    (block_copy_eq_some.mpr ⟨a', hentry', hcopied'.base_eq⟩) howner hcopied'.live
  omega

theorem Unfilled.address_self {i : Nat} {array : EmutlsArray} {object : EmutlsObject}
    (hu : Unfilled s object c i array p size) (ho : s.offsets o = i + 1) :
    (s.withCopy (s.storage c) i array object p size).address c o =
      some (objectAddress object p) := by
  refine address_eq_some.mpr ⟨?_, ?_⟩
  · show s.offsets o ≠ 0
    omega
  · show State.entryAt _ c (s.offsets o - 1) = _
    rw [ho]
    exact hu.entryAt_self

theorem Unfilled.address_other {i : Nat} {array : EmutlsArray} {object : EmutlsObject}
    (hu : Unfilled s object c i array p size) (h : Held objects s) (ho : s.offsets o = i + 1)
    (hne : ¬ (d = c ∧ o' = o)) :
    (s.withCopy (s.storage c) i array object p size).address d o' = s.address d o' := by
  unfold State.address
  show (if s.offsets o' = 0 then none else State.entryAt _ d (s.offsets o' - 1)) = _
  by_cases hzero : s.offsets o' = 0
  · rw [if_pos hzero, if_pos hzero]
  · rw [if_neg hzero, if_neg hzero]
    apply hu.entryAt_other h
    rintro ⟨rfl, hi⟩
    exact hne ⟨rfl, h.distinct o' o hzero (by omega)⟩

/-- A new offset is that of no entry. -/
theorem Held.assign_address [DecidableEq ι] (h : Held objects s) (ho : s.offsets o = 0) :
    ({ s with
      objectCount := s.objectCount + 1
      offsets := Function.update s.offsets o (s.objectCount + 1) } : State κ ι).address c o' =
      s.address c o' := by
  by_cases heq : o' = o
  · subst heq
    have hnone : s.entryAt c s.objectCount = none := by
      by_contra hsome
      obtain ⟨a, ha⟩ := Option.ne_none_iff_exists'.mp hsome
      obtain ⟨o₁, -, -, ho₁, -⟩ := h.copy c _ a ha
      have := h.offsets o₁
      omega
    simp only [State.address, Function.update_self, ho, if_true]
    rw [if_neg (by omega)]
    exact hnone
  · simp only [State.address, Function.update_of_ne heq]
    rfl

theorem hand_address [DecidableEq κ] (hne : c ≠ d) {e : κ} (he : e ≠ c) :
    (s.hand c d).address e o = s.address (former c d e) o :=
  address_congr rfl (hand_entryAt hne he)

theorem Renewed.address [DecidableEq κ] {array : EmutlsArray} {arrays' : Nat → Option EmutlsArray}
    (hr : Renewed s c p size array arrays') (hheld : Held objects s) (d : κ) (o : ι) :
    (s.withArray c p size arrays').address d o = s.address d o :=
  address_congr rfl (hr.entryAt hheld d)

theorem Released.address_self [DecidableEq κ] (hr : Released s c s') : s'.address c o = none := by
  unfold State.address
  split
  · rfl
  · exact hr.entryAt_self _

theorem Released.address_other [DecidableEq κ] (hr : Released s c s') (h : Held objects s) (hd : d ≠ c) :
    s'.address d o = s.address d o :=
  address_congr hr.offsets (hr.entryAt_other h hd)

/-! ## The invariant -/

/-- The object that a context is at, or was at last. -/
def Pc.object : Pc ι → Option ι
  | .idle => none
  | .assign o | .array o _ | .entry o _ _ | .returned o _ => some o

/-- What a context knows within a call. -/
def PcGood (s : State κ ι) (c : κ) : Prop :=
  match s.pc c with
  | .idle | .assign _ => True
  | .array o offset => offset ≠ 0 ∧ s.offsets o = offset
  | .entry o offset base => offset ≠ 0 ∧ s.offsets o = offset ∧ base ≠ 0 ∧ s.storage c = base ∧
      ∃ array, s.arrays base = some array ∧ offset ≤ array.capacity
  | .returned o a => s.address c o = some a

structure Good (objects : ι → EmutlsObject) (s : State κ ι) (v : Variables κ ι) : Prop where
  held : Held objects s
  pc : ∀ c, PcGood s c
  copies : ∀ c o, s.copyOf objects c o = (v.copies c o).map (List.map Cell.byte)
  called : ∀ c o, (s.pc c).object = some o → v.called c = some o

/-- The copies that a step does not take away stay where they are. -/
def Stays [DecidableEq κ] (s s' : State κ ι) (l : Label κ ι) : Prop :=
  ∀ d e o a, l.source d = some e → s.address e o = some a → s'.address d o = some a

variable {v : Variables κ ι} {t : State κ ι} {pc : Pc ι}

/-- What another context knows stays true. -/
theorem PcGood.frame (h : PcGood s d) (hpc : s'.pc d = s.pc d)
    (hoffsets : ∀ o, s.offsets o ≠ 0 → s'.offsets o = s.offsets o)
    (hstorage : s'.storage d = s.storage d)
    (harrays : s.storage d ≠ 0 → s'.arrays (s.storage d) = s.arrays (s.storage d))
    (haddress : ∀ o a, s.address d o = some a → s'.address d o = some a) : PcGood s' d := by
  unfold PcGood at h ⊢
  rw [hpc]
  cases hd : s.pc d with
  | idle => trivial
  | assign o => trivial
  | array o offset =>
      rw [hd] at h
      obtain ⟨hne, rfl⟩ := h
      exact ⟨hne, hoffsets o hne⟩
  | entry o offset base =>
      rw [hd] at h
      obtain ⟨hne, rfl, hbase, rfl, array, harray, hle⟩ := h
      exact ⟨hne, hoffsets o hne, hbase, hstorage, array, by rw [harrays hbase, harray], hle⟩
  | returned o a =>
      rw [hd] at h
      exact haddress o a h

theorem Good.initial : Good objects (State.initial : State κ ι) .initial where
  held := Held.initial
  pc _ := trivial
  copies _ _ := rfl
  called _ _ ho := by cases ho

/-! ## Arrays -/

theorem grownCapacity_spec {capacity offset grown : Nat}
    (h : grownCapacity capacity offset = some grown) : offset ≤ grown := by
  simp only [grownCapacity] at h
  generalize (if capacity ≤ sizeMax / 2 then capacity * 2 else offset) = doubled at h
  split at h
  · split at h <;> simp only [reduceCtorEq, Option.some.injEq] at h
    omega
  · simp only [Option.some.injEq] at h
    omega

/-- The entries behind the old ones are null. -/
theorem filter_getElem?_append_zeros (entries : List Nat) (k i : Nat) :
    ((entries ++ List.replicate k 0)[i]?).filter (· ≠ 0) = (entries[i]?).filter (· ≠ 0) := by
  by_cases hi : i < entries.length
  · rw [List.getElem?_append_left hi]
  · have hle : entries.length ≤ i := by omega
    rw [List.getElem?_append_right hle, List.getElem?_eq_none hle, List.getElem?_replicate]
    split <;> rfl

/-- A first array. -/
theorem Held.renewed_first (h : Held objects s) {capacity : Nat} (hnone : s.storage c = 0)
    (hsize : emutlsArraySize capacity = some size) (hfresh : Blocks.Fresh sizeMax s.live p size) :
    Renewed s c p size ⟨capacity, List.replicate capacity 0⟩
      (Function.update s.arrays p (some ⟨capacity, List.replicate capacity 0⟩)) where
  fresh := by
    have hzero : s.live (s.storage c) = none := by rw [hnone, h.live_zero]
    rwa [← hzero, Function.update_eq_self]
  asked := hsize
  length := List.length_replicate
  self := Function.update_self _ _ _
  others := fun q hq _ => Function.update_of_ne hq _ _
  entries := fun i => by
    rw [State.entryAt, if_pos hnone]
    simpa using filter_getElem?_append_zeros [] capacity i

/-- A larger array. -/
theorem renewed_larger {array : EmutlsArray} {capacity : Nat} {behind : List Nat}
    (hne : s.storage c ≠ 0) (harray : s.arrays (s.storage c) = some array)
    (hlength : array.entries.length = array.capacity) (hsize : emutlsArraySize capacity = some size)
    (hbehind : array.entries.length + behind.length = capacity)
    (hfresh : Blocks.Fresh sizeMax (Function.update s.live (s.storage c) none) p size) :
    Renewed s c p size ⟨capacity, (array.entries ++ behind).take array.capacity ++
        List.replicate (capacity - array.capacity) 0 ++ (array.entries ++ behind).drop capacity⟩
      (Function.update (Function.update s.arrays (s.storage c) none) p (some ⟨capacity,
        (array.entries ++ behind).take array.capacity ++
          List.replicate (capacity - array.capacity) 0 ++
            (array.entries ++ behind).drop capacity⟩)) := by
  have hentries : (array.entries ++ behind).take array.capacity ++
      List.replicate (capacity - array.capacity) 0 ++ (array.entries ++ behind).drop capacity =
      array.entries ++ List.replicate (capacity - array.capacity) 0 := by
    rw [← hlength, List.take_left', List.drop_eq_nil_of_le, List.append_nil]
    · simp only [List.length_append]
      omega
    · rfl
  rw [hentries]
  exact {
    fresh := hfresh
    asked := hsize
    length := by
      simp only [List.length_append, List.length_replicate]
      omega
    self := Function.update_self _ _ _
    others := fun q hq hother => by rw [Function.update_of_ne hq, Function.update_of_ne hother]
    entries := fun i => by
      rw [filter_getElem?_append_zeros, entryAt_of_array hne harray] }

/-! ## Steps of one context -/

variable [DecidableEq κ]

theorem goto_pc_self : (t.goto c pc).pc c = pc := Function.update_self _ _ _

theorem goto_pc_other (hd : d ≠ c) : (t.goto c pc).pc d = t.pc d := Function.update_of_ne hd _ _

/-- The invariant after a step of one context. -/
theorem Good.goto (hheld : Held objects t) (hothers : ∀ d, d ≠ c → PcGood t d)
    (hself : PcGood (t.goto c pc) c)
    (hcopies : ∀ d o, t.copyOf objects d o = (v.copies d o).map (List.map Cell.byte))
    (hcalled : ∀ d, d ≠ c → ∀ o, (t.pc d).object = some o → v.called d = some o)
    (hcalledSelf : ∀ o, pc.object = some o → v.called c = some o) :
    Good objects (t.goto c pc) v where
  held := hheld.goto pc
  pc d := by
    by_cases hd : d = c
    · rw [hd]
      exact hself
    · exact (hothers d hd).frame (goto_pc_other hd) (fun _ _ => rfl) rfl (fun _ => rfl)
        fun _ _ ha => ha
  copies := hcopies
  called d o ho := by
    by_cases hd : d = c
    · subst hd
      rw [goto_pc_self] at ho
      exact hcalledSelf o ho
    · rw [goto_pc_other hd] at ho
      exact hcalled d hd o ho

theorem Good.loaded (h : Good objects s v) (hpc : s.pc c = .assign o) (hne : s.offsets o ≠ 0) :
    Good objects (s.goto c (.array o (s.offsets o))) v := by
  refine Good.goto h.held (fun d _ => h.pc d) ?_ h.copies (fun d _ => h.called d) fun o' ho' => ?_
  · unfold PcGood
    rw [goto_pc_self]
    exact ⟨hne, rfl⟩
  · exact h.called c o' (by rw [hpc]; exact ho')

/-- The array is there and large enough. -/
theorem Good.ready (h : Good objects s v) {offset : Nat} {array : EmutlsArray}
    (hpc : s.pc c = .array o offset) (hne : s.storage c ≠ 0)
    (harray : s.arrays (s.storage c) = some array) (hle : offset ≤ array.capacity) :
    Good objects (s.goto c (.entry o offset (s.storage c))) v := by
  have hself := h.pc c
  unfold PcGood at hself
  rw [hpc] at hself
  refine Good.goto h.held (fun d _ => h.pc d) ?_ h.copies (fun d _ => h.called d) fun o' ho' => ?_
  · unfold PcGood
    rw [goto_pc_self]
    exact ⟨hself.1, hself.2, hne, rfl, array, harray, hle⟩
  · exact h.called c o' (by rw [hpc]; exact ho')

theorem Good.renewed (h : Good objects s v) {offset : Nat} {array : EmutlsArray}
    {arrays' : Nat → Option EmutlsArray} (hpc : s.pc c = .array o offset)
    (hr : Renewed s c p size array arrays') (hle : offset ≤ array.capacity) :
    Good objects ((s.withArray c p size arrays').goto c (.entry o offset p)) v := by
  have hself := h.pc c
  unfold PcGood at hself
  rw [hpc] at hself
  refine Good.goto (h.held.renew hr) (fun d hd => ?_) ?_ (fun d o' => ?_) (fun d _ => h.called d)
    fun o' ho' => ?_
  · refine (h.pc d).frame rfl (fun _ _ => rfl) (Function.update_of_ne hd _ _) (fun hne => ?_)
      fun o' a ha => by rw [hr.address h.held, ha]
    obtain ⟨_, n, -, -, -, hlive⟩ := h.held.array d hne
    obtain ⟨hother, hp⟩ := hr.keeps h.held (w := .array d) (by simpa using hd)
      (block_array_eq_some.mpr ⟨rfl, hne⟩) hlive
    exact hr.others _ hp hother
  · unfold PcGood
    rw [goto_pc_self]
    exact ⟨hself.1, hself.2, hr.ne_zero, Function.update_self _ _ _, array, hr.self, hle⟩
  · rw [← h.copies d o']
    exact copyOf_congr (hr.address h.held d o') fun _ _ _ _ _ => rfl
  · exact h.called c o' (by rw [hpc]; exact ho')

theorem Good.forget (h : Good objects s v) (c : κ) : Good objects (s.goto c .idle) v := by
  refine Good.goto h.held (fun d _ => h.pc d) ?_ h.copies (fun d _ => h.called d)
    fun _ ho => by cases ho
  unfold PcGood
  rw [goto_pc_self]
  trivial

theorem Released.goto (hr : Released s c s') (d : κ) (pc : Pc ι) :
    Released (s.goto d pc) c (s'.goto d pc) where
  objectCount := hr.objectCount
  offsets := hr.offsets
  memory := hr.memory
  pc := by
    show Function.update s'.pc d pc = _
    rw [hr.pc]
    rfl
  storage := hr.storage
  arrays := hr.arrays
  gone := hr.gone
  kept := hr.kept

/-- The copies of the first context are those of the second. -/
theorem Good.handed (h : Good objects s v) (hne : c ≠ d) (hnone : s.storage d = 0)
    (hc : s.pc c = .idle) (hd : s.pc d = .idle) :
    Good objects (s.hand c d) { v with
      copies := Function.update (Function.update v.copies d (v.copies c)) c fun _ => none } where
  held := h.held.hand hne hnone
  pc e := by
    by_cases hec : e = c
    · subst hec
      unfold PcGood
      rw [show (s.hand e d).pc e = .idle from hc]
      trivial
    · by_cases hed : e = d
      · subst hed
        unfold PcGood
        rw [show (s.hand c e).pc e = .idle from hd]
        trivial
      · have hformer : former c d e = e := if_neg hed
        refine (h.pc e).frame rfl (fun _ _ => rfl) (hand_storage_other hec hed) (fun _ => rfl)
          fun o a ha => ?_
        rw [hand_address hne hec, hformer, ha]
  copies e o := by
    by_cases hec : e = c
    · subst hec
      rw [State.copyOf, State.address]
      simp only [Function.update_self, Option.map_none, hand_entryAt_old, ite_self]
    · have hcopies : (Function.update (Function.update v.copies d (v.copies c)) c fun _ => none) e o =
          v.copies (former c d e) o := by
        unfold former
        split
        · rename_i heq
          subst heq
          simp [Function.update_of_ne hec]
        · rename_i hed
          simp [Function.update_of_ne hec, Function.update_of_ne hed]
      show _ = Option.map _
        ((Function.update (Function.update v.copies d (v.copies c)) c fun _ => none) e o)
      rw [hcopies, ← h.copies (former c d e) o]
      exact copyOf_congr (hand_address hne hec) fun _ _ _ _ _ => rfl
  called := h.called

/-! ## Steps -/

variable [DecidableEq ι]

theorem Good.call (h : Good objects s v) (c : κ) (o : ι) :
    Good objects (s.goto c (if s.offsets o = 0 then .assign o else .array o (s.offsets o)))
      (v.apply objects (.call c o)) := by
  refine Good.goto h.held (fun d _ => h.pc d) ?_ h.copies (fun d hd o' ho' => ?_) fun o' ho' => ?_
  · unfold PcGood
    rw [goto_pc_self]
    split
    all_goals rename_i heq <;> split at heq <;> cases heq
    · trivial
    · exact ⟨‹_›, rfl⟩
  · simp only [Variables.apply, Function.update_of_ne hd]
    exact h.called d o' ho'
  · have : o = o' := by
      split at ho' <;> simpa [Pc.object] using ho'
    simp [Variables.apply, this]

theorem Good.assigned (h : Good objects s v) (hpc : s.pc c = .assign o) (hzero : s.offsets o = 0) :
    Good objects ({ s with
      objectCount := s.objectCount + 1
      offsets := Function.update s.offsets o (s.objectCount + 1) }.goto c
        (.array o (s.objectCount + 1))) v := by
  refine Good.goto (h.held.assign hzero) (fun d hd => ?_) ?_ (fun d o' => ?_)
    (fun d _ => h.called d) fun o' ho' => ?_
  · refine (h.pc d).frame rfl (fun o' ho' => ?_) rfl (fun _ => rfl) fun o' a ha => ?_
    · refine Function.update_of_ne ?_ _ _
      rintro rfl
      exact ho' hzero
    · rw [h.held.assign_address hzero, ha]
  · unfold PcGood
    rw [goto_pc_self]
    exact ⟨by omega, Function.update_self _ _ _⟩
  · rw [← h.copies d o']
    exact copyOf_congr (h.held.assign_address hzero) fun _ _ _ _ _ => rfl
  · exact h.called c o' (by rw [hpc]; exact ho')

theorem Variables.put_self (v : Variables κ ι) (c : κ) (o : ι) : v.put c o (v.copies c o) = v := by
  simp [Variables.put]

theorem Variables.put_copies_self (bytes : Option (List UInt8)) :
    (v.put c o bytes).copies c o = bytes := by
  simp [Variables.put]

theorem Variables.put_copies_other {bytes : Option (List UInt8)} (hne : ¬ (d = c ∧ o' = o)) :
    (v.put c o bytes).copies d o' = v.copies d o' := by
  by_cases hd : d = c
  · subst hd
    have ho : o' ≠ o := fun heq => hne ⟨rfl, heq⟩
    simp [Variables.put, Function.update_of_ne ho]
  · simp [Variables.put, Function.update_of_ne hd]

/-- The entry is there. -/
theorem Good.found (h : Good objects s v) {offset base result : Nat} {array : EmutlsArray}
    (hpc : s.pc c = .entry o offset base) (harray : s.arrays base = some array)
    (hentry : array.entries[offset - 1]? = some result) (hne : result ≠ 0) :
    Good objects (s.goto c (.returned o result)) (v.apply objects (.entry c p)) := by
  have hself := h.pc c
  unfold PcGood at hself
  rw [hpc] at hself
  obtain ⟨hoffset, rfl, hbase, rfl, -⟩ := hself
  have haddress : s.address c o = some result := by
    refine address_eq_some.mpr ⟨hoffset, ?_⟩
    rw [entryAt_of_array hbase harray, hentry]
    exact Option.filter_some_pos (by simpa using hne)
  have hcalled : v.called c = some o := h.called c o (by rw [hpc]; rfl)
  have hv : v.apply objects (.entry c p) = v := by
    have hcopy := h.copies c o
    rw [State.copyOf, haddress] at hcopy
    obtain ⟨bytes, hbytes⟩ : ∃ bytes, v.copies c o = some bytes := by
      cases hb : v.copies c o with
      | none => simp [hb] at hcopy
      | some bytes => exact ⟨bytes, rfl⟩
    simp only [Variables.apply, hcalled, hbytes, Option.getD_some]
    rw [← hbytes, Variables.put_self]
  rw [hv]
  refine Good.goto h.held (fun d _ => h.pc d) ?_ h.copies (fun d _ => h.called d) fun o' ho' => ?_
  · unfold PcGood
    rw [goto_pc_self]
    exact haddress
  · exact h.called c o' (by rw [hpc]; exact ho')

/-- The entry is null, and gets a copy. -/
theorem Good.filled (h : Good objects s v) {offset : Nat} {array : EmutlsArray}
    (hpc : s.pc c = .entry o offset (s.storage c))
    (hu : Unfilled s (objects o) c (offset - 1) array p size) :
    Good objects ((s.withCopy (s.storage c) (offset - 1) array (objects o) p size).goto c
      (.returned o (objectAddress (objects o) p))) (v.apply objects (.entry c p)) := by
  have hself := h.pc c
  unfold PcGood at hself
  rw [hpc] at hself
  obtain ⟨hoffset, ho, -⟩ := hself
  have ho' : s.offsets o = offset - 1 + 1 := by omega
  have hcalled : v.called c = some o := h.called c o (by rw [hpc]; rfl)
  have hnone : s.address c o = none := by
    unfold State.address
    rw [if_neg (by omega), ho, hu.null]
  have hv : v.apply objects (.entry c p) = v.put c o (some (objects o).initial) := by
    have hcopy := h.copies c o
    rw [State.copyOf, hnone] at hcopy
    have hbytes : v.copies c o = none := by simpa using hcopy.symm
    simp only [Variables.apply, hcalled, hbytes, Option.getD_none]
  rw [hv]
  refine Good.goto (h.held.fill hu ho' rfl) (fun d hd => ?_) ?_ (fun d o₁ => ?_)
    (fun d _ => h.called d) fun o₁ ho₁ => ?_
  · refine (h.pc d).frame rfl (fun _ _ => rfl) rfl (fun hne => ?_) fun o₁ a ha => ?_
    · exact Function.update_of_ne (fun heq => hd (h.held.single_storage hne heq)) _ _
    · rw [hu.address_other h.held ho' (fun heq => hd heq.1), ha]
  · unfold PcGood
    rw [goto_pc_self]
    exact hu.address_self ho'
  · by_cases hsame : d = c ∧ o₁ = o
    · obtain ⟨rfl, rfl⟩ := hsame
      rw [Variables.put_copies_self, State.copyOf, hu.address_self ho', Option.map_some,
        withCopy_load, Option.map_some]
    · rw [Variables.put_copies_other hsame, ← h.copies d o₁]
      refine copyOf_congr (hu.address_other h.held ho' hsame) fun a ha x hle hlt => ?_
      obtain ⟨p', size', hcopied⟩ := h.held.copied ha
      exact hu.memory_copied h.held.sound hcopied (by omega) hlt
  · exact h.called c o₁ (by rw [hpc]; exact ho₁)

/-- A context writes a byte of its own copy. -/
theorem Good.store (h : Good objects s v) {i : Nat} {x : UInt8} (ha : s.address c o = some a)
    (hi : i < (objects o).size) :
    Good objects { s with memory := Function.update s.memory (a + i) (.byte x) }
      (v.apply objects (.store c o i x)) where
  held := by
    obtain ⟨p, size, hcopied⟩ := h.held.copied ha
    exact h.held.store (address_eq_some.mp ha).2 hcopied hi
  pc d := (h.pc d).frame rfl (fun _ _ => rfl) rfl (fun _ => rfl) fun _ _ ha => ha
  copies d o' := by
    by_cases hsame : d = c ∧ o' = o
    · obtain ⟨rfl, rfl⟩ := hsame
      have hcopy := h.copies d o'
      simp only [Variables.apply]
      rw [State.copyOf, ha] at hcopy
      rw [Variables.put_copies_self, State.copyOf]
      show (s.address d o').map _ = _
      rw [ha, Option.map_some, Memory.load_update]
      cases hbytes : v.copies d o' with
      | none => simp [hbytes] at hcopy
      | some bytes =>
          simp only [hbytes, Option.map_some, Option.some.injEq] at hcopy
          simp only [Option.map_some, hcopy, List.map_set]
    · simp only [Variables.apply]
      rw [Variables.put_copies_other hsame, ← h.copies d o']
      have hsame' : ({ s with memory := Function.update s.memory (a + i) (.byte x) } :
          State κ ι).address d o' = s.address d o' := rfl
      refine copyOf_congr hsame' fun a' ha' y hle hlt => ?_
      refine Function.update_of_ne ?_ _ _
      have := h.held.addresses_apart ha' ha hsame
      omega
  called := h.called

theorem Good.released (h : Good objects s v) (hr : Released s c s') (hidle : s.pc c = .idle) :
    Good objects s' (v.apply objects (.destroy c)) where
  held := h.held.release hr
  pc d := by
    by_cases hd : d = c
    · subst hd
      unfold PcGood
      rw [hr.pc, hidle]
      trivial
    · refine (h.pc d).frame (by rw [hr.pc]) (fun o _ => by rw [hr.offsets]) (hr.storage_other hd)
        (fun hne => hr.arrays _ fun heq => hd (h.held.single_storage hne heq)) fun o a ha => ?_
      rw [hr.address_other h.held hd, ha]
  copies d o := by
    by_cases hd : d = c
    · subst hd
      rw [State.copyOf, hr.address_self]
      simp [Variables.apply]
    · have hcopies : (v.apply objects (.destroy c)).copies d o = v.copies d o := by
        simp [Variables.apply, Function.update_of_ne hd]
      rw [hcopies, ← h.copies d o]
      exact copyOf_congr (hr.address_other h.held hd) fun _ _ _ _ _ => by rw [hr.memory]
  called d o ho := h.called d o (by rw [← hr.pc]; exact ho)

theorem Good.array_step (h : Good objects s v) {behind : List Nat}
    (hp : Promised objects s (.array c p behind)) (hs : step objects s (.array c p behind) = some s') :
    Good objects s' v ∧ ∀ d o, s'.address d o = s.address d o := by
  cases hpc : s.pc c with
  | array o offset =>
      simp only [step, hpc, readyArray] at hs
      simp only [Promised, hpc] at hp
      by_cases hnone : s.storage c = 0
      · rw [if_pos hnone] at hs hp
        split at hs
        · cases hs
        · simp only [allocateEmutlsArray, Option.map_map, Option.map_eq_some_iff] at hs
          obtain ⟨size, hsize, rfl⟩ := hs
          have hr := h.held.renewed_first hnone hsize (hp size hsize)
          have hsame : Function.update s.live (s.storage c) none = s.live := by
            have hzero : s.live (s.storage c) = none := by rw [hnone, h.held.live_zero]
            rw [← hzero, Function.update_eq_self]
          have hgood := h.renewed hpc hr (by simp)
          have haddress := hr.address h.held
          simp only [State.withArray, hsame] at hgood haddress
          exact ⟨hgood, haddress⟩
      · rw [if_neg hnone] at hs hp
        simp only [Option.bind_eq_bind, Option.bind_eq_some_iff] at hs
        obtain ⟨array, harray, hs⟩ := hs
        split at hs
        · rename_i hlt
          simp only [growEmutlsArray, Option.bind_eq_bind, Option.map_eq_some_iff,
            Option.bind_eq_some_iff, Option.some.injEq] at hs
          obtain ⟨-, ⟨capacity, hcapacity, size, hsize, rfl⟩, rfl⟩ := hs
          obtain ⟨hbehind, hfresh⟩ := hp array harray hlt capacity size hcapacity hsize
          obtain ⟨array', -, harray', hlength, -⟩ := h.held.array c hnone
          rw [harray, Option.some.injEq] at harray'
          subst harray'
          have hr := renewed_larger hnone harray hlength hsize hbehind hfresh
          exact ⟨h.renewed hpc hr (grownCapacity_spec hcapacity), hr.address h.held⟩
        · cases hs
          exact ⟨h.ready hpc hnone harray (by omega), fun _ _ => rfl⟩
  | idle | assign o | entry o offset base | returned o a => simp [step, hpc] at hs

theorem Good.assign_step (h : Good objects s v) (hs : step objects s (.assign c) = some s') :
    Good objects s' v ∧ ∀ d o, s'.address d o = s.address d o := by
  cases hpc : s.pc c with
  | assign o =>
      simp only [step, hpc] at hs
      split at hs
      · cases hs
        exact ⟨h.loaded hpc ‹_›, fun _ _ => rfl⟩
      · rename_i hzero
        simp only [ne_eq, not_not] at hzero
        split at hs
        · cases hs
        · cases hs
          exact ⟨h.assigned hpc hzero, fun _ _ => h.held.assign_address hzero⟩
  | idle | array o offset | entry o offset base | returned o a => simp [step, hpc] at hs

theorem Good.entry_step (h : Good objects s v) (hp : Promised objects s (.entry c p))
    (hs : step objects s (.entry c p) = some s') :
    Good objects s' (v.apply objects (.entry c p)) ∧
      ∀ d o a, s.address d o = some a → s'.address d o = some a := by
  cases hpc : s.pc c with
  | entry o offset base =>
      have hself := h.pc c
      unfold PcGood at hself
      rw [hpc] at hself
      obtain ⟨hoffset, ho, hbase, rfl, array, harray, hle⟩ := hself
      simp only [step, hpc, fillEntry, harray, Option.bind_eq_bind, Option.bind_some,
        Option.bind_eq_some_iff] at hs
      simp only [Promised, hpc] at hp
      obtain ⟨result, hresult, hs⟩ := hs
      split at hs
      · rename_i hzero
        simp only [allocateEmutlsObject, Option.map_map, Option.map_eq_some_iff] at hs
        obtain ⟨size, hsize, rfl⟩ := hs
        have hu : Unfilled s (objects o) c (offset - 1) array p size := {
          storage := hbase
          found := harray
          lt := by
            by_contra hlt
            rw [List.getElem?_eq_none (by omega)] at hresult
            cases hresult
          null := by
            rw [entryAt_of_array hbase harray, hresult, hzero]
            rfl
          asked := hsize
          fresh := hp size hsize }
        refine ⟨h.filled hpc hu, fun d o' a ha => ?_⟩
        have hne : ¬ (d = c ∧ o' = o) := by
          rintro ⟨rfl, rfl⟩
          have hnull := (address_eq_some.mp ha).2
          rw [ho, hu.null] at hnull
          cases hnull
        rw [← ha]
        exact hu.address_other h.held (by omega) hne
      · cases hs
        exact ⟨h.found hpc harray hresult ‹_›, fun _ _ _ ha => ha⟩
  | idle | assign o | array o offset | returned o a => simp [step, hpc] at hs

theorem Good.destroy_step (h : Good objects s v) (hs : step objects s (.destroy c) = some s') :
    Good objects s' (v.apply objects (.destroy c)) ∧ Stays s s' (.destroy c) := by
  obtain ⟨t, ht, hr⟩ := h.held.destroyEmutls c
  simp only [step, ht] at hs
  split at hs
  · cases hs
    refine ⟨(h.forget c).released (hr.goto c .idle) goto_pc_self, fun d e o a hsource ha => ?_⟩
    simp only [Label.source] at hsource
    split at hsource
    · cases hsource
    · cases hsource
      rw [← ha]
      exact hr.address_other h.held ‹_›
  · cases hs

theorem Good.adopt_step {c' : κ} (h : Good objects s v) (hs : step objects s (.adopt c c') = some s') :
    Good objects s' (v.apply objects (.adopt c c')) ∧ Stays s s' (.adopt c c') := by
  obtain ⟨t, ht, hr⟩ := h.held.destroyEmutls c'
  simp only [step, ht] at hs
  split at hs
  · rename_i hguard
    obtain ⟨hne, -, -⟩ := hguard
    cases hs
    have hidle : ((s.goto c .idle).goto c' .idle).pc c = .idle := by
      rw [goto_pc_other hne, goto_pc_self]
    have hr' := (hr.goto c .idle).goto c' .idle
    have hgood := ((h.forget c).forget c').released hr' goto_pc_self
    have hnone : ((t.goto c .idle).goto c' .idle).storage c' = 0 := by
      rw [hr'.storage, Function.update_self]
    have hhanded := hgood.handed hne hnone (by rw [hr'.pc, hidle]) (by rw [hr'.pc, goto_pc_self])
    have hv : (v.apply objects (.adopt c c')) = { v.apply objects (.destroy c') with
        copies := Function.update (Function.update (v.apply objects (.destroy c')).copies c'
          ((v.apply objects (.destroy c')).copies c)) c fun _ => none } := by
      simp [Variables.apply, Function.update_of_ne hne]
    refine ⟨by rw [hv]; exact hhanded, fun d e o a hsource ha => ?_⟩
    have hd : d ≠ c := by
      rintro rfl
      simp [Label.source] at hsource
    have he : e = former c c' d := by
      simp only [Label.source, if_neg hd] at hsource
      unfold former
      split at hsource <;> rename_i hdc' <;> cases hsource
      · rw [if_pos hdc']
      · rw [if_neg hdc']
    have hec' : e ≠ c' := by
      rw [he]
      unfold former
      split
      · exact hne
      · assumption
    rw [← ha, ← hr.address_other h.held hec', he]
    exact hand_address (s := t) hne hd
  · cases hs

theorem Good.step (h : Good objects s v) {l : Label κ ι} (hp : Promised objects s l)
    (hs : step objects s l = some s') :
    Good objects s' (v.apply objects l) ∧ Stays s s' l := by
  have stays : ∀ {l : Label κ ι}, (∀ d, l.source d = some d) →
      (∀ d o a, s.address d o = some a → s'.address d o = some a) → Stays s s' l := by
    intro l hl haddress d e o a hsource ha
    rw [hl, Option.some.injEq] at hsource
    exact haddress d o a (by rw [hsource]; exact ha)
  cases l with
  | call c o =>
      simp only [Emutls.step] at hs
      split at hs
      · cases hs
        exact ⟨h.call c o, stays (fun _ => rfl) fun _ _ _ ha => ha⟩
      · cases hs
  | assign c =>
      obtain ⟨hgood, haddress⟩ := h.assign_step hs
      exact ⟨hgood, stays (fun _ => rfl) fun d o a ha => by rw [haddress, ha]⟩
  | array c p behind =>
      obtain ⟨hgood, haddress⟩ := h.array_step hp hs
      exact ⟨hgood, stays (fun _ => rfl) fun d o a ha => by rw [haddress, ha]⟩
  | entry c p =>
      obtain ⟨hgood, haddress⟩ := h.entry_step hp hs
      exact ⟨hgood, stays (fun _ => rfl) haddress⟩
  | store c o i x =>
      simp only [Emutls.step] at hs
      split at hs
      · split at hs
        · cases hs
          exact ⟨h.store ‹_› ‹_›, stays (fun _ => rfl) fun _ _ _ ha => ha⟩
        · cases hs
      · cases hs
  | destroy c => exact h.destroy_step hs
  | adopt c c' => exact h.adopt_step hs

/-! ## Runs -/

/-- The runs in which the allocator keeps its promises. -/
abbrev EmutlsRun (objects : ι → EmutlsObject) (h : List (Label κ ι)) (s : State κ ι) : Prop :=
  Run (step objects) (fun _ => Promised objects) (· = State.initial) h s

theorem Good.ofRun {h : List (Label κ ι)} (hrun : EmutlsRun objects h s) :
    Good objects s (Variables.after objects h) := by
  refine Run.history_invariant (I := fun h s => Good objects s (Variables.after objects h)) ?_ ?_
    hrun
  · rintro s rfl
    exact Good.initial
  · intro h s l s' hgood hp hs
    exact (hgood.step hp hs).1

/-! ## Two contexts at one object -/

/-- Two bytes, aligned to eight. -/
def pairObject : EmutlsObject where
  size := 2
  alignment := 8
  initializer := some [1, 2]
  initialized := by simp

def pairObjects : Unit → EmutlsObject := fun _ => pairObject

/-- A first array for an object with the offset 1, and its first copy. -/
def pairArray (a : Nat) : Option EmutlsArray := some ⟨33, a :: List.replicate 32 0⟩

/-- The first context knows the offset. -/
def pairAssigned : State Bool Unit := { (State.initial : State Bool Unit) with
  objectCount := 1
  offsets := fun _ => 1
  pc := Function.update (fun _ => .idle) false (.array () 1) }

/-- It has an array at 100. -/
def pairReady : State Bool Unit := { pairAssigned with
  live := Function.update (fun _ => none) 100 (some 136)
  arrays := Function.update (fun _ => none) 100 (pairArray 0)
  storage := Function.update (fun _ => 0) false 100
  pc := Function.update (fun _ => .idle) false (.entry () 1 100) }

/-- It has written its copy, which is at 304, and the second context knows the offset. -/
def pairWritten : State Bool Unit := { pairReady with
  live := Function.update pairReady.live 300 (some 13)
  arrays := Function.update (fun _ => none) 100 (pairArray 304)
  memory := Function.update ((Memory.storePointer (fun _ => .byte 0) 300 300).storeBytes 304 [1, 2])
    305 (.byte 7)
  pc := Function.update (Function.update (fun _ => .idle) false (.returned () 304)) true
    (.array () 1) }

/-- The second context has an array at 400. -/
def pairSecond : State Bool Unit := { pairWritten with
  live := Function.update pairWritten.live 400 (some 136)
  arrays := Function.update pairWritten.arrays 400 (pairArray 0)
  storage := Function.update pairWritten.storage true 400
  pc := Function.update (Function.update (fun _ => .idle) false (.returned () 304)) true
    (.entry () 1 400) }

/-- Its copy is at 608. -/
def pairShared : State Bool Unit := { pairSecond with
  live := Function.update pairSecond.live 600 (some 13)
  arrays := Function.update pairWritten.arrays 400 (pairArray 608)
  memory := (pairSecond.memory.storePointer 604 600).storeBytes 608 [1, 2]
  pc := Function.update (Function.update (fun _ => .idle) false (.returned () 304)) true
    (.returned () 608) }

def pairLabels : List (Label Bool Unit) :=
  [.call false (), .assign false, .array false 100 [], .entry false 300, .store false () 1 7,
    .call true (), .array true 400 [], .entry true 600]

theorem pairArray_size : emutlsArraySize 33 = some 136 := by decide

theorem pairObject_asked : allocationSize pairObject = some 13 := by decide

theorem pairObject_at_300 : objectAddress pairObject 300 = 304 := by decide

theorem pairObject_at_600 : objectAddress pairObject 600 = 608 := by decide

theorem pairShared_run : EmutlsRun pairObjects pairLabels.reverse pairShared := by
  have hone : Function.update (fun _ : Unit => 0) () 1 = fun _ => 1 := by
    funext x
    exact Function.update_self _ _ _
  have hassigned : replay (step pairObjects) .initial [.call false (), .assign false] =
      some pairAssigned := by
    simp [replay, step, State.initial, State.goto, Pc.Outside, pairAssigned, sizeMax, hone]
  have hready : step pairObjects pairAssigned (.array false 100 []) = some pairReady := by
    simp [step, readyArray, allocateEmutlsArray, pairArray_size, pairAssigned, pairReady, pairArray,
      State.initial, State.goto, sizeMax]
  have hwritten : replay (step pairObjects) pairReady
      [.entry false 300, .store false () 1 7, .call true ()] = some pairWritten := by
    simp [replay, step, fillEntry, allocateEmutlsObject, pairWritten, pairReady, pairAssigned,
      pairArray, State.goto, State.initial, pairObjects, pairObject_asked, pairObject_at_300,
      Pc.Outside, State.address, State.entryAt, pointerSize]
    rfl
  have hsecond : step pairObjects pairWritten (.array true 400 []) = some pairSecond := by
    simp [step, readyArray, allocateEmutlsArray, pairArray_size, pairWritten, pairReady, pairSecond,
      pairAssigned, pairArray, State.initial, State.goto, sizeMax]
  have hshared : step pairObjects pairSecond (.entry true 600) = some pairShared := by
    simp [step, fillEntry, allocateEmutlsObject, pairWritten, pairReady, pairAssigned, pairShared,
      pairSecond, pairArray, State.goto, State.initial, pairObjects, pairObject_asked,
      pairObject_at_600, pointerSize]
    rfl
  have harray : ∀ {s : State Bool Unit} {c p}, s.pc c = .array () 1 → s.storage c = 0 →
      Blocks.Fresh sizeMax s.live p 136 → Promised pairObjects s (.array c p []) := by
    intro s c p hpc hnone hfresh
    simp only [Promised, hpc, hnone, if_true]
    intro size hsize
    rw [pairArray_size, Option.some.injEq] at hsize
    rwa [← hsize]
  have hentry : ∀ {s : State Bool Unit} {c p base}, s.pc c = .entry () 1 base →
      Blocks.Fresh sizeMax s.live p 13 → Promised pairObjects s (.entry c p) := by
    intro s c p base hpc hfresh
    simp only [Promised, hpc]
    intro size hsize
    rw [pairObjects, pairObject_asked, Option.some.injEq] at hsize
    rwa [← hsize]
  have hfirst : Guarded (step pairObjects) (fun _ => Promised pairObjects) [] .initial
      [.call false (), .assign false] := ⟨trivial, fun _ _ => ⟨trivial, fun _ _ => trivial⟩⟩
  have hrun := (Run.of_replay rfl hfirst hassigned : EmutlsRun pairObjects _ _)
  have hrun := hrun.step (harray rfl rfl (.empty (by decide))) hready
  have hrest : Guarded (step pairObjects) (fun _ => Promised pairObjects)
      [.array false 100 [], .assign false, .call false ()] pairReady
      [.entry false 300, .store false () 1 7, .call true ()] :=
    ⟨hentry rfl (.update (.empty (by decide)) (by decide)), fun _ _ =>
      ⟨trivial, fun _ _ => ⟨trivial, fun _ _ => trivial⟩⟩⟩
  have hrun := hrun.append_replay hrest hwritten
  have hrun := hrun.step
    (harray rfl rfl (.update (.update (.empty (by decide)) (by decide)) (by decide))) hsecond
  exact hrun.step
    (hentry rfl (.update (.update (.update (.empty (by decide)) (by decide)) (by decide))
      (by decide))) hshared

/-! ## Results -/

/-- In every run, every context has the copies that it would have if they were its own
    variables, and a call returns the address of the copy of its object. -/
theorem emutls_refines {h : List (Label κ ι)} (hrun : EmutlsRun objects h s) (c : κ) :
    (∀ o, s.copyOf objects c o =
      ((Variables.after objects h).copies c o).map (List.map Cell.byte)) ∧
    ∀ o a, s.pc c = .returned o a →
      (Variables.after objects h).called c = some o ∧ s.address c o = some a := by
  have hgood := Good.ofRun hrun
  refine ⟨hgood.copies c, fun o a hpc => ⟨hgood.called c o (by rw [hpc]; rfl), ?_⟩⟩
  have hself := hgood.pc c
  unfold PcGood at hself
  rw [hpc] at hself
  exact hself

theorem emutls_refines_pair :
    pairShared.copyOf pairObjects false () = some [.byte 1, .byte 7] ∧
      pairShared.copyOf pairObjects true () = some [.byte 1, .byte 2] ∧
      pairShared.address true () = some 608 :=
  ⟨(emutls_refines pairShared_run false).1 (), (emutls_refines pairShared_run true).1 (),
    ((emutls_refines pairShared_run true).2 () 608 rfl).2⟩

/-- Copies are aligned as their objects ask for, do not overlap, and stay where they are
    until their context is deleted; who adopts them finds them there. -/
theorem emutls_addresses {h : List (Label κ ι)} (hrun : EmutlsRun objects h s) :
    (∀ c o a, s.address c o = some a →
      (objects o).alignment ∣ a ∧ a + (objects o).size ≤ sizeMax) ∧
    (∀ c o a d o' a', s.address c o = some a → s.address d o' = some a' → ¬ (c = d ∧ o = o') →
      a + (objects o).size ≤ a' ∨ a' + (objects o').size ≤ a) ∧
    ∀ l s', Promised objects s l → step objects s l = some s' → ∀ d e o a,
      l.source d = some e → s.address e o = some a → s'.address d o = some a := by
  have hgood := Good.ofRun hrun
  refine ⟨fun c o a ha => ?_, fun c o a d o' a' ha ha' hne => ?_, fun l s' hp hs =>
    (hgood.step hp hs).2⟩
  · obtain ⟨p, size, hcopied⟩ := hgood.held.copied ha
    have hwithin := hcopied.within hgood.held.sound
    have := hgood.held.sound.within p size hcopied.live
    exact ⟨hwithin.2.2, by omega⟩
  · have := hgood.held.addresses_apart ha ha' hne
    omega

theorem emutls_addresses_pair : 8 ∣ 304 ∧ 304 + 2 ≤ 608 ∧
    ∀ s', step pairObjects pairShared (.destroy true) = some s' →
      s'.address false () = some 304 := by
  obtain ⟨haligned, -, hstays⟩ := emutls_addresses pairShared_run
  exact ⟨(haligned false () 304 rfl).1, by decide, fun s' hs =>
    hstays (.destroy true) s' trivial hs false false () 304 rfl rfl⟩

/-- Every live block has one owner, and a context that is not within a call can be deleted:
    this frees what the context owns, and nothing else. -/
theorem emutls_ledger {h : List (Label κ ι)} (hrun : EmutlsRun objects h s) :
    (∀ p, s.live p ≠ none ↔ ∃! w, s.block w = some p) ∧
    ∀ c, (s.pc c).Outside → ∃ s', step objects s (.destroy c) = some s' ∧
      ∀ p, s'.live p = none ↔ s.live p = none ∨ ∃ w, w.context = c ∧ s.block w = some p := by
  have hheld := (Good.ofRun hrun).held
  refine ⟨fun p => ⟨fun hp => ?_, fun ⟨w, hw, _⟩ => ?_⟩, fun c hc => ?_⟩
  · obtain ⟨w, hw⟩ := hheld.ledger p hp
    exact ⟨w, hw, fun w' hw' => hheld.single w' w p hw' hw⟩
  · obtain ⟨n, hn⟩ := hheld.live_of_block hw
    rw [hn]
    simp
  · obtain ⟨t, ht, hr⟩ := hheld.destroyEmutls c
    refine ⟨t.goto c .idle, by simp only [Emutls.step, if_pos hc, ht, Option.map_some],
      fun p => ?_⟩
    show t.live p = none ↔ _
    by_cases hw : ∃ w, w.context = c ∧ s.block w = some p
    · obtain ⟨w, hwc, hblock⟩ := hw
      exact ⟨fun _ => .inr ⟨w, hwc, hblock⟩, fun _ => hr.gone w p hwc hblock⟩
    · rw [hr.kept p fun w hwc hblock => hw ⟨w, hwc, hblock⟩]
      exact ⟨.inl, fun h => h.resolve_right hw⟩

theorem emutls_ledger_pair : ∃ s', step pairObjects pairShared (.destroy false) = some s' ∧
    s'.live 300 = none ∧ s'.live 600 ≠ none := by
  obtain ⟨hlive, hdestroy⟩ := emutls_ledger pairShared_run
  obtain ⟨s', hs, hblocks⟩ := hdestroy false trivial
  refine ⟨s', hs, (hblocks 300).mpr (.inr ⟨.copy false 0, rfl, rfl⟩), fun hnone => ?_⟩
  obtain ⟨w, hw, hunique⟩ := (hlive 600).mp (by decide)
  rcases (hblocks 600).mp hnone with hdead | ⟨w', hfalse, hw'⟩
  · cases hdead
  · have hother : w' = .copy true 0 := (hunique w' hw').trans (hunique (.copy true 0) rfl).symm
    rw [hother] at hfalse
    cases hfalse

end Emutls
end Backend
end NucleoBase
