/-
  NucleoBase.Backend.EmutlsHeld

  Who owns the memory of emulated thread-local storage: each live block is the
  array of one context or the copy of one entry, and the pointer before a copy
  leads back to its allocation.  The operations keep this.
-/

import NucleoBase.Backend.Emutls

namespace NucleoBase
namespace Backend
namespace Emutls

open Lib

variable {κ ι : Type}

/-! ## Sizes -/

theorem emutlsArraySize_ne_zero {capacity size : Nat} (h : emutlsArraySize capacity = some size) :
    capacity ≠ 0 := by
  unfold emutlsArraySize at h
  split at h
  · cases h
  · omega

theorem objectAddress_spec {object : EmutlsObject} {p size : Nat}
    (hsize : allocationSize object = some size) (hp : p + size ≤ sizeMax) :
    p + pointerSize ≤ objectAddress object p ∧
      objectAddress object p + object.size ≤ p + size ∧
      object.alignment ∣ objectAddress object p := by
  unfold allocationSize at hsize
  split at hsize
  · cases hsize
  · rename_i hok
    simp only [not_or, not_lt, ne_eq, not_not] at hok
    obtain ⟨hzero, hand, halign, -⟩ := hok
    have hpower := (Nat.and_sub_one_eq_zero_iff_isPowerOfTwo hzero).mp hand
    simp only [Option.some.injEq] at hsize
    simp only [sizeMax, pointerSize] at hp hsize halign
    obtain ⟨hle, hlt, hdvd⟩ := alignUp_spec (w := 32) (x := p + pointerSize) hpower
      (by omega) (by simp only [pointerSize]; omega)
    simp only [pointerSize] at hlt
    refine ⟨hle, ?_, hdvd⟩
    unfold objectAddress
    simp only [pointerSize]
    omega

/-! ## Owners -/

/-- What a block can be for. -/
inductive Owner (κ : Type)
  | array (c : κ)
  | copy (c : κ) (i : Nat)
  deriving DecidableEq

def Owner.context : Owner κ → κ
  | .array c | .copy c _ => c

/-- The allocation of a copy, by the pointer before it. -/
def State.base (s : State κ ι) (a : Nat) : Nat := (s.memory.loadPointer (a - pointerSize)).getD 0

def State.block (s : State κ ι) : Owner κ → Option Nat
  | .array c => if s.storage c = 0 then none else some (s.storage c)
  | .copy c i => (s.entryAt c i).map s.base

/-- A copy of an object within its allocation. -/
structure Copied (s : State κ ι) (object : EmutlsObject) (a p size : Nat) : Prop where
  address : a = objectAddress object p
  header : s.memory.loadPointer (a - pointerSize) = some p
  asked : allocationSize object = some size
  live : s.live p = some size

/-- The memory of all contexts. -/
structure Held (objects : ι → EmutlsObject) (s : State κ ι) : Prop where
  sound : Blocks.Sound sizeMax s.live
  offsets : ∀ o, s.offsets o ≤ s.objectCount
  distinct : ∀ o o', s.offsets o ≠ 0 → s.offsets o = s.offsets o' → o = o'
  array : ∀ c, s.storage c ≠ 0 → ∃ array size, s.arrays (s.storage c) = some array ∧
    array.entries.length = array.capacity ∧ emutlsArraySize array.capacity = some size ∧
    s.live (s.storage c) = some size
  copy : ∀ c i a, s.entryAt c i = some a →
    ∃ o p size, s.offsets o = i + 1 ∧ Copied s (objects o) a p size
  single : ∀ w w' p, s.block w = some p → s.block w' = some p → w = w'
  ledger : ∀ p, s.live p ≠ none → ∃ w, s.block w = some p

variable {objects : ι → EmutlsObject} {s s' : State κ ι} {c : κ} {p : Nat}

theorem Copied.base_eq {object : EmutlsObject} {a size : Nat} (h : Copied s object a p size) :
    s.base a = p := by
  rw [State.base, h.header]
  rfl

/-- Where a copy and the pointer before it lie. -/
theorem Copied.within {object : EmutlsObject} {a size : Nat} (h : Copied s object a p size)
    (hsound : Blocks.Sound sizeMax s.live) :
    p + pointerSize ≤ a ∧ a + object.size ≤ p + size ∧ object.alignment ∣ a := by
  rw [h.address]
  exact objectAddress_spec h.asked (hsound.within p size h.live).2.2

theorem block_array_eq_some : s.block (.array c) = some p ↔ s.storage c = p ∧ p ≠ 0 := by
  simp only [State.block]
  split
  · simp_all
  · simp_all only [Option.some.injEq, ne_eq]
    exact ⟨fun h => ⟨h, by simpa [← h]⟩, And.left⟩

theorem block_copy_eq_some {i : Nat} :
    s.block (.copy c i) = some p ↔ ∃ a, s.entryAt c i = some a ∧ s.base a = p := by
  simp [State.block]

/-- The blocks of a state whose contexts have the same entries and bases. -/
theorem block_congr (hstorage : s'.storage c = s.storage c)
    (hentries : ∀ i, s'.entryAt c i = s.entryAt c i)
    (hbase : ∀ i a, s.entryAt c i = some a → s'.base a = s.base a) :
    ∀ w : Owner κ, w.context = c → s'.block w = s.block w := by
  rintro (_ | ⟨_, i⟩) rfl
  · rename_i c'
    have hstorage' : s'.storage c' = s.storage c' := hstorage
    simp only [State.block, hstorage']
  · rename_i c'
    show (s'.entryAt c' i).map s'.base = (s.entryAt c' i).map s.base
    rw [show s'.entryAt c' i = s.entryAt c' i from hentries i]
    exact Option.map_congr fun a ha => hbase i a ha

theorem entryAt_congr (hstorage : s'.storage c = s.storage c)
    (harrays : s.storage c ≠ 0 → s'.arrays (s.storage c) = s.arrays (s.storage c)) (i : Nat) :
    s'.entryAt c i = s.entryAt c i := by
  unfold State.entryAt
  rw [hstorage]
  split
  · rfl
  · rw [harrays ‹_›]

theorem base_congr {a : Nat} (h : ∀ x, a - pointerSize ≤ x → x < a - pointerSize + pointerSize →
    s.memory x = s'.memory x) : s'.base a = s.base a := by
  rw [State.base, State.base, Memory.loadPointer_congr h]

theorem State.entryAt_ne_zero {i a : Nat} (h : s.entryAt c i = some a) : s.storage c ≠ 0 ∧ a ≠ 0 := by
  unfold State.entryAt at h
  split at h
  · cases h
  · refine ⟨‹_›, ?_⟩
    obtain ⟨array, -, h⟩ := Option.bind_eq_some_iff.mp h
    obtain ⟨-, h⟩ := Option.filter_eq_some_iff.mp h
    simpa using h

namespace Held

variable (h : Held objects s)
include h

/-- The block of an owner is live. -/
theorem live_of_block {w : Owner κ} (hw : s.block w = some p) : ∃ n, s.live p = some n := by
  cases w with
  | array c =>
      obtain ⟨rfl, hne⟩ := block_array_eq_some.mp hw
      obtain ⟨array, size, -, -, -, hlive⟩ := h.array c hne
      exact ⟨size, hlive⟩
  | copy c i =>
      obtain ⟨a, ha, rfl⟩ := block_copy_eq_some.mp hw
      obtain ⟨o, p, size, -, hcopied⟩ := h.copy c i a ha
      rw [hcopied.base_eq]
      exact ⟨size, hcopied.live⟩

theorem live_zero : s.live 0 = none := by
  by_contra hne
  obtain ⟨n, hn⟩ := Option.ne_none_iff_exists'.mp hne
  exact absurd (h.sound.within 0 n hn).1 (by omega)

theorem single_storage {c c' : κ} (hne : s.storage c ≠ 0) (heq : s.storage c = s.storage c') :
    c = c' := by
  have := h.single (.array c) (.array c') (s.storage c) (block_array_eq_some.mpr ⟨rfl, hne⟩)
    (block_array_eq_some.mpr ⟨heq.symm, hne⟩)
  simpa using this

/-- A copy lies outside the block of any other owner. -/
theorem copied_apart {object : EmutlsObject} {c : κ} {i a p n q : Nat} {w : Owner κ}
    {size : Nat} (ha : s.entryAt c i = some a) (hcopied : Copied s object a p size)
    (hw : s.block w = some q) (hne : w ≠ .copy c i) (hq : s.live q = some n) :
    a + object.size ≤ q ∨ q + n ≤ a - pointerSize := by
  have hwithin := hcopied.within h.sound
  have hpq : p ≠ q := by
    rintro rfl
    exact hne (h.single w _ p hw (block_copy_eq_some.mpr ⟨a, ha, hcopied.base_eq⟩))
  have := h.sound.apart p size q n hcopied.live hq hpq
  omega

end Held

theorem Held.initial : Held objects (State.initial : State κ ι) where
  sound := Blocks.Sound.empty
  offsets _ := Nat.le_refl 0
  distinct _ _ hne := absurd rfl hne
  array _ hne := absurd rfl hne
  copy _ _ _ ha := absurd rfl (State.entryAt_ne_zero ha).1
  single w w' p hw := by
    cases w with
    | array c => exact absurd (block_array_eq_some.mp hw).1.symm (block_array_eq_some.mp hw).2
    | copy c i =>
        obtain ⟨a, ha, -⟩ := block_copy_eq_some.mp hw
        exact absurd rfl (State.entryAt_ne_zero ha).1
  ledger _ hne := absurd rfl hne

theorem Held.goto [DecidableEq κ] (h : Held objects s) (pc : Pc ι) : Held objects (s.goto c pc) where
  sound := h.sound
  offsets := h.offsets
  distinct := h.distinct
  array := h.array
  copy c i a ha := by
    obtain ⟨o, p, size, ho, hcopied⟩ := h.copy c i a ha
    exact ⟨o, p, size, ho, hcopied.address, hcopied.header, hcopied.asked, hcopied.live⟩
  single := h.single
  ledger := h.ledger

/-! ## Offsets -/

/-- An object without an offset gets the next one. -/
theorem Held.assign [DecidableEq ι] (h : Held objects s) {o : ι} (ho : s.offsets o = 0) :
    Held objects { s with
      objectCount := s.objectCount + 1
      offsets := Function.update s.offsets o (s.objectCount + 1) } where
  sound := h.sound
  offsets o' := by
    by_cases heq : o' = o
    · subst heq
      simp
    · have := h.offsets o'
      simp only [Function.update_of_ne heq]
      omega
  distinct o₁ o₂ hne heq := by
    have hbound := h.offsets
    by_cases h₁ : o₁ = o <;> by_cases h₂ : o₂ = o
    · rw [h₁, h₂]
    · subst h₁
      simp only [Function.update_self, Function.update_of_ne h₂] at heq
      have := hbound o₂
      omega
    · subst h₂
      simp only [Function.update_self, Function.update_of_ne h₁] at heq
      have := hbound o₁
      omega
    · simp only [Function.update_of_ne h₁, Function.update_of_ne h₂] at heq hne
      exact h.distinct o₁ o₂ hne heq
  array := h.array
  copy c i a ha := by
    obtain ⟨o', p, size, ho', hcopied⟩ := h.copy c i a ha
    have hne : o' ≠ o := by
      rintro rfl
      omega
    exact ⟨o', p, size, by simpa only [Function.update_of_ne hne] using ho',
      hcopied.address, hcopied.header, hcopied.asked, hcopied.live⟩
  single := h.single
  ledger := h.ledger

/-! ## Arrays -/

section NewArray

variable {array : EmutlsArray} {arrays' : Nat → Option EmutlsArray} {size : Nat}

/-- What the new array of a context has to be. -/
structure Renewed (s : State κ ι) (c : κ) (p size : Nat) (array : EmutlsArray)
    (arrays' : Nat → Option EmutlsArray) : Prop where
  fresh : Blocks.Fresh sizeMax (Function.update s.live (s.storage c) none) p size
  asked : emutlsArraySize array.capacity = some size
  length : array.entries.length = array.capacity
  self : arrays' p = some array
  others : ∀ q, q ≠ p → q ≠ s.storage c → arrays' q = s.arrays q
  entries : ∀ i, (array.entries[i]?).filter (· ≠ 0) = s.entryAt c i

theorem Renewed.ne_zero (h : Renewed s c p size array arrays') : p ≠ 0 := by
  have := h.fresh.within
  omega

/-- Blocks that the context does not give back are not the new one. -/
theorem Renewed.ne (h : Renewed s c p size array arrays') (hheld : Held objects s) {q n : Nat}
    (hq : s.live q = some n) (hne : q ≠ s.storage c) : q ≠ p :=
  h.fresh.ne hheld.sound.free (m := n) (by rw [Function.update_of_ne hne, hq])

/-- The blocks of the other owners stay live, and are not the new one. -/
theorem Renewed.keeps (h : Renewed s c p size array arrays') (hheld : Held objects s)
    {w : Owner κ} (hw : w ≠ .array c) {q n : Nat} (hq : s.block w = some q)
    (hn : s.live q = some n) : q ≠ s.storage c ∧ q ≠ p := by
  have hne : q ≠ s.storage c := by
    intro heq
    have hzero : s.storage c ≠ 0 := by
      intro hzero
      rw [heq, hzero, hheld.live_zero] at hn
      cases hn
    exact hw (hheld.single w _ q hq (block_array_eq_some.mpr ⟨heq.symm, by rwa [heq]⟩))
  exact ⟨hne, h.ne hheld hn hne⟩

variable [DecidableEq κ]

/-- A context gets a new array, and gives back the one that it has. -/
def State.withArray (s : State κ ι) (c : κ) (p size : Nat)
    (arrays' : Nat → Option EmutlsArray) : State κ ι :=
  { s with
    live := Function.update (Function.update s.live (s.storage c) none) p (some size)
    arrays := arrays'
    storage := Function.update s.storage c p }

theorem Renewed.entryAt (h : Renewed s c p size array arrays') (hheld : Held objects s) (c' : κ)
    (i : Nat) : (s.withArray c p size arrays').entryAt c' i = s.entryAt c' i := by
  by_cases hc : c' = c
  · subst hc
    rw [← h.entries i]
    simp [State.entryAt, State.withArray, h.ne_zero, h.self]
  · refine entryAt_congr (Function.update_of_ne hc _ _) (fun hne => ?_) i
    obtain ⟨_, n, -, -, -, hlive⟩ := hheld.array c' hne
    have hother : s.storage c' ≠ s.storage c := fun heq => hc (hheld.single_storage hne heq)
    exact h.others _ (h.ne hheld hlive hother) hother

theorem Renewed.block (h : Renewed s c p size array arrays') (hheld : Held objects s)
    {w : Owner κ} (hw : w ≠ .array c) :
    (s.withArray c p size arrays').block w = s.block w := by
  cases w with
  | array c' =>
      have hc : c' ≠ c := fun heq => hw (by rw [heq])
      simp [State.block, State.withArray, Function.update_of_ne hc]
  | copy c' i =>
      simp only [State.block, h.entryAt hheld]
      rfl

theorem Renewed.block_array (h : Renewed s c p size array arrays') :
    (s.withArray c p size arrays').block (.array c) = some p := by
  simp [State.block, State.withArray, h.ne_zero]

theorem Held.renew (hheld : Held objects s) (h : Renewed s c p size array arrays') :
    Held objects (s.withArray c p size arrays') where
  sound := hheld.sound.free.alloc h.fresh
  offsets := hheld.offsets
  distinct := hheld.distinct
  array c' hne := by
    by_cases hc : c' = c
    · subst hc
      exact ⟨array, size, by simp [State.withArray, h.self], h.length, h.asked,
        by simp [State.withArray]⟩
    · have hstorage : (s.withArray c p size arrays').storage c' = s.storage c' :=
        Function.update_of_ne hc _ _
      rw [hstorage] at hne ⊢
      obtain ⟨array', n, harray, hlength, hsize, hlive⟩ := hheld.array c' hne
      obtain ⟨hother, hp⟩ := h.keeps hheld (w := .array c') (by simpa using hc)
        (block_array_eq_some.mpr ⟨rfl, hne⟩) hlive
      refine ⟨array', n, ?_, hlength, hsize, ?_⟩
      · rw [← harray]
        exact h.others _ hp hother
      · simpa [State.withArray, Function.update_of_ne hp, Function.update_of_ne hother] using hlive
  copy c' i a ha := by
    rw [h.entryAt hheld] at ha
    obtain ⟨o, q, n, ho, hcopied⟩ := hheld.copy c' i a ha
    obtain ⟨hother, hp⟩ := h.keeps hheld (w := .copy c' i) (by simp)
      (block_copy_eq_some.mpr ⟨a, ha, hcopied.base_eq⟩) hcopied.live
    refine ⟨o, q, n, ho, hcopied.address, hcopied.header, hcopied.asked, ?_⟩
    simpa [State.withArray, Function.update_of_ne hp, Function.update_of_ne hother]
      using hcopied.live
  single w w' q hw hw' := by
    have hnew : ∀ {w}, w ≠ .array c → (s.withArray c p size arrays').block w = some q → q ≠ p := by
      intro w hne hw
      rw [h.block hheld hne] at hw
      obtain ⟨n, hn⟩ := hheld.live_of_block hw
      exact (h.keeps hheld hne hw hn).2
    by_cases h₁ : w = .array c <;> by_cases h₂ : w' = .array c
    · rw [h₁, h₂]
    · rw [h₁, h.block_array, Option.some.injEq] at hw
      exact absurd hw.symm (hnew h₂ hw')
    · rw [h₂, h.block_array, Option.some.injEq] at hw'
      exact absurd hw'.symm (hnew h₁ hw)
    · rw [h.block hheld h₁] at hw
      rw [h.block hheld h₂] at hw'
      exact hheld.single w w' q hw hw'
  ledger q hq := by
    by_cases hqp : q = p
    · exact ⟨.array c, by rw [h.block_array, hqp]⟩
    · have hne : q ≠ s.storage c := by
        rintro rfl
        simp [State.withArray, Function.update_of_ne hqp] at hq
      simp only [State.withArray, Function.update_of_ne hqp, Function.update_of_ne hne] at hq
      obtain ⟨w, hw⟩ := hheld.ledger q hq
      refine ⟨w, ?_⟩
      rw [h.block hheld, hw]
      rintro rfl
      exact hne (block_array_eq_some.mp hw).1.symm

end NewArray

/-! ## Memory -/

/-- Memory may change where no copy has its pointer. -/
theorem Held.remember (h : Held objects s) {m : Memory}
    (hm : ∀ c i a, s.entryAt c i = some a →
      m.loadPointer (a - pointerSize) = s.memory.loadPointer (a - pointerSize)) :
    Held objects { s with memory := m } := by
  have hbase : ∀ c i a, s.entryAt c i = some a →
      ({ s with memory := m } : State κ ι).base a = s.base a := by
    intro c i a ha
    show (m.loadPointer (a - pointerSize)).getD 0 = _
    rw [hm c i a ha]
    rfl
  have hstorage : ∀ c, ({ s with memory := m } : State κ ι).storage c = s.storage c := fun _ => rfl
  have hblock : ∀ w, ({ s with memory := m } : State κ ι).block w = s.block w := fun w =>
    block_congr (hstorage w.context) (fun _ => rfl) (hbase w.context) w rfl
  exact {
    sound := h.sound
    offsets := h.offsets
    distinct := h.distinct
    array := h.array
    copy := by
      intro c i a ha
      obtain ⟨o, p, size, ho, hcopied⟩ := h.copy c i a ha
      refine ⟨o, p, size, ho, hcopied.address, ?_, hcopied.asked, hcopied.live⟩
      rw [← hcopied.header]
      exact hm c i a ha
    single := by
      intro w w' p hw hw'
      rw [hblock] at hw hw'
      exact h.single w w' p hw hw'
    ledger := by
      intro p hp
      obtain ⟨w, hw⟩ := h.ledger p hp
      exact ⟨w, by rw [hblock, hw]⟩ }

/-- The bytes of a copy are no part of a pointer. -/
theorem Held.store (h : Held objects s) {object : EmutlsObject} {i a size j : Nat} {x : UInt8}
    (ha : s.entryAt c i = some a) (hcopied : Copied s object a p size) (hj : j < object.size) :
    Held objects { s with memory := Function.update s.memory (a + j) (.byte x) } := by
  refine h.remember fun c' i' a' ha' => Memory.loadPointer_congr fun y hy hy' => ?_
  refine Function.update_of_ne ?_ _ _
  obtain ⟨o', p', size', -, hcopied'⟩ := h.copy c' i' a' ha'
  have hwithin' := hcopied'.within h.sound
  by_cases hw : (Owner.copy c' i' : Owner κ) = .copy c i
  · -- its own pointer is before it
    cases hw
    rw [ha, Option.some.injEq] at ha'
    omega
  · have := h.copied_apart ha hcopied
      (block_copy_eq_some.mpr ⟨a', ha', hcopied'.base_eq⟩) hw hcopied'.live
    omega

/-! ## Copies -/

theorem EmutlsObject.length_initial (object : EmutlsObject) :
    object.initial.length = object.size := by
  unfold EmutlsObject.initial
  split
  · exact object.initialized _ (by assumption)
  · simp

section NewCopy

variable {o : ι} {i : Nat} {array : EmutlsArray} {size : Nat}

/-- An entry gets its copy. -/
def State.withCopy (s : State κ ι) (base i : Nat) (array : EmutlsArray) (object : EmutlsObject)
    (p size : Nat) : State κ ι :=
  { s with
    live := Function.update s.live p (some size)
    memory := (s.memory.storePointer (objectAddress object p - pointerSize) p).storeBytes
      (objectAddress object p) object.initial
    arrays := Function.update s.arrays base
      (some { array with entries := array.entries.set i (objectAddress object p) }) }

/-- The entry of an object is there and null, and the block is a new one. -/
structure Unfilled (s : State κ ι) (object : EmutlsObject) (c : κ) (i : Nat) (array : EmutlsArray)
    (p size : Nat) : Prop where
  storage : s.storage c ≠ 0
  found : s.arrays (s.storage c) = some array
  lt : i < array.entries.length
  null : s.entryAt c i = none
  asked : allocationSize object = some size
  fresh : Blocks.Fresh sizeMax s.live p size

variable {object : EmutlsObject} (hu : Unfilled s object c i array p size)
include hu

theorem Unfilled.within : p + pointerSize ≤ objectAddress object p ∧
    objectAddress object p + object.size ≤ p + size ∧
    object.alignment ∣ objectAddress object p :=
  objectAddress_spec hu.asked hu.fresh.within.2.2

theorem Unfilled.memory_other {x : Nat} (hx : x < p ∨ p + size ≤ x) :
    (s.withCopy (s.storage c) i array object p size).memory x = s.memory x := by
  have hwithin := hu.within
  have hlength := object.length_initial
  show ((s.memory.storePointer _ p).storeBytes _ _) x = _
  rw [Memory.storeBytes_other (by omega), Memory.storePointer_other (by omega)]

theorem Unfilled.header : (s.withCopy (s.storage c) i array object p size).memory.loadPointer
    (objectAddress object p - pointerSize) = some p := by
  have hwithin := hu.within
  rw [← Memory.loadPointer_storePointer (m := s.memory)]
  refine Memory.loadPointer_congr fun x _ hx => Memory.storeBytes_other (.inl ?_)
  omega

omit hu in
theorem withCopy_load : (s.withCopy (s.storage c) i array object p size).memory.load
    (objectAddress object p) object.size = object.initial.map .byte := by
  rw [← object.length_initial]
  exact Memory.load_storeBytes

/-- The other copies keep their cells, and the pointers before them. -/
theorem Unfilled.memory_copied {object' : EmutlsObject} {a' p' size' x : Nat}
    (hs : Blocks.Sound sizeMax s.live) (hcopied : Copied s object' a' p' size')
    (hle : a' - pointerSize ≤ x) (hlt : x < a' + object'.size) :
    (s.withCopy (s.storage c) i array object p size).memory x = s.memory x := by
  apply hu.memory_other
  have hwithin := hcopied.within hs
  have := hu.fresh.apart p' size' hcopied.live
  omega

omit hu in
theorem entryAt_of_array {j : Nat} (hne : s.storage c ≠ 0)
    (harray : s.arrays (s.storage c) = some array) :
    s.entryAt c j = (array.entries[j]?).filter (· ≠ 0) := by
  rw [State.entryAt, if_neg hne, harray]
  rfl

omit hu in
theorem withCopy_array_self :
    (s.withCopy (s.storage c) i array object p size).arrays (s.storage c) =
      some { array with entries := array.entries.set i (objectAddress object p) } :=
  Function.update_self _ _ _

theorem Unfilled.entryAt_set (j : Nat) :
    (s.withCopy (s.storage c) i array object p size).entryAt c j =
      ((array.entries.set i (objectAddress object p))[j]?).filter (· ≠ 0) := by
  rw [State.entryAt]
  show (if s.storage c = 0 then none else _) = _
  rw [if_neg hu.storage]
  show Option.bind ((s.withCopy (s.storage c) i array object p size).arrays (s.storage c)) _ = _
  rw [withCopy_array_self]
  rfl

theorem Unfilled.entryAt_self : (s.withCopy (s.storage c) i array object p size).entryAt c i =
    some (objectAddress object p) := by
  have hwithin := hu.within
  have hpos := hu.fresh.within
  rw [hu.entryAt_set, List.getElem?_set_self hu.lt]
  exact Option.filter_some_pos (by simp; omega)

theorem Unfilled.entryAt_other (h : Held objects s) {c' : κ} {j : Nat}
    (hne : ¬ (c' = c ∧ j = i)) :
    (s.withCopy (s.storage c) i array object p size).entryAt c' j = s.entryAt c' j := by
  by_cases hc : c' = c
  · subst hc
    have hij : i ≠ j := fun hij => hne ⟨rfl, hij.symm⟩
    rw [hu.entryAt_set, entryAt_of_array hu.storage hu.found, List.getElem?_set_ne hij]
  · have hsame : (s.withCopy (s.storage c) i array object p size).storage c' = s.storage c' := rfl
    refine entryAt_congr hsame (fun hstorage => ?_) j
    exact Function.update_of_ne (fun heq => hc (h.single_storage hstorage heq)) _ _

theorem Unfilled.block_self :
    (s.withCopy (s.storage c) i array object p size).block (.copy c i) = some p := by
  refine block_copy_eq_some.mpr ⟨_, hu.entryAt_self, ?_⟩
  rw [State.base, hu.header]
  rfl

theorem Unfilled.block_other (h : Held objects s) {w : Owner κ} (hw : w ≠ .copy c i) :
    (s.withCopy (s.storage c) i array object p size).block w = s.block w := by
  cases w with
  | array c' => rfl
  | copy c' j =>
      have hne : ¬ (c' = c ∧ j = i) := fun heq => hw (by rw [heq.1, heq.2])
      simp only [State.block, hu.entryAt_other h hne]
      refine Option.map_congr fun a' ha' => ?_
      obtain ⟨o', p', size', -, hcopied⟩ := h.copy c' j a' ha'
      refine base_congr fun x hle hlt => ?_
      have hwithin := hcopied.within h.sound
      exact (hu.memory_copied h.sound hcopied hle (by omega)).symm

theorem Held.fill (h : Held objects s) (ho : s.offsets o = i + 1) (hobject : object = objects o) :
    Held objects (s.withCopy (s.storage c) i array object p size) := by
  have hlive : ∀ q n, s.live q = some n →
      (s.withCopy (s.storage c) i array object p size).live q = some n := by
    intro q n hq
    show Function.update s.live p (some size) q = some n
    rw [Function.update_of_ne (hu.fresh.ne h.sound hq), hq]
  have hnew : ∀ {w q}, w ≠ .copy c i →
      (s.withCopy (s.storage c) i array object p size).block w = some q → q ≠ p := by
    intro w q hne hw
    rw [hu.block_other h hne] at hw
    obtain ⟨n, hn⟩ := h.live_of_block hw
    exact hu.fresh.ne h.sound hn
  exact {
    sound := h.sound.alloc hu.fresh
    offsets := h.offsets
    distinct := h.distinct
    array := by
      intro c' hne
      obtain ⟨array', n, harray, hlength, hsize, hn⟩ := h.array c' hne
      by_cases hbase : s.storage c' = s.storage c
      · rw [hbase, hu.found, Option.some.injEq] at harray
        subst harray
        have hstorage : (s.withCopy (s.storage c) i array object p size).storage c' =
            s.storage c := hbase
        rw [hstorage, withCopy_array_self]
        refine ⟨_, n, rfl, ?_, hsize, hlive _ _ (by rw [← hbase]; exact hn)⟩
        rw [← hlength]
        exact List.length_set
      · exact ⟨array', n, by rw [← harray]; exact Function.update_of_ne hbase _ _, hlength, hsize,
          hlive _ _ hn⟩
    copy := by
      intro c' j a' ha'
      by_cases hcj : c' = c ∧ j = i
      · obtain ⟨rfl, rfl⟩ := hcj
        rw [hu.entryAt_self, Option.some.injEq] at ha'
        subst ha'
        refine ⟨o, p, size, ho, by rw [hobject], hu.header, by rw [← hobject]; exact hu.asked, ?_⟩
        exact Function.update_self _ _ _
      · rw [hu.entryAt_other h hcj] at ha'
        obtain ⟨o', p', size', ho', hcopied⟩ := h.copy c' j a' ha'
        have hwithin := hcopied.within h.sound
        refine ⟨o', p', size', ho', hcopied.address, ?_, hcopied.asked, hlive _ _ hcopied.live⟩
        rw [← hcopied.header]
        exact Memory.loadPointer_congr fun x hle hlt =>
          hu.memory_copied h.sound hcopied hle (by omega)
    single := by
      intro w w' q hw hw'
      by_cases h₁ : w = .copy c i <;> by_cases h₂ : w' = .copy c i
      · rw [h₁, h₂]
      · rw [h₁, hu.block_self, Option.some.injEq] at hw
        exact absurd hw.symm (hnew h₂ hw')
      · rw [h₂, hu.block_self, Option.some.injEq] at hw'
        exact absurd hw'.symm (hnew h₁ hw)
      · rw [hu.block_other h h₁] at hw
        rw [hu.block_other h h₂] at hw'
        exact h.single w w' q hw hw'
    ledger := by
      intro q hq
      by_cases hqp : q = p
      · exact ⟨.copy c i, by rw [hu.block_self, hqp]⟩
      · simp only [State.withCopy, Function.update_of_ne hqp] at hq
        obtain ⟨w, hw⟩ := h.ledger q hq
        refine ⟨w, ?_⟩
        rw [hu.block_other h, hw]
        rintro rfl
        obtain ⟨a, ha, -⟩ := block_copy_eq_some.mp hw
        rw [hu.null] at ha
        cases ha }

end NewCopy

/-! ## Destruction -/

/-- The loop frees the allocation of every entry that is not null. -/
theorem freeEntries_eq (entries : List Nat) {s : State κ ι}
    (hlive : ∀ e ∈ entries, e ≠ 0 → ∃ p n, s.memory.loadPointer (e - pointerSize) = some p ∧
      s.live p = some n)
    (hapart : entries.Pairwise fun e e' => e ≠ 0 → e' ≠ 0 → s.base e ≠ s.base e') :
    ∃ live, freeEntries s entries = some { s with live := live } ∧
      ∀ q, live q = if q ∈ (entries.filter (· ≠ 0)).map s.base then none else s.live q := by
  -- by induction on the entries, the live blocks being what is left
  induction entries generalizing s with
  | nil => exact ⟨s.live, rfl, by simp⟩
  | cons e rest ih =>
      obtain ⟨hhead, htail⟩ := List.pairwise_cons.mp hapart
      by_cases he : e = 0
      · obtain ⟨live, hfree, hq⟩ := ih (fun e he => hlive e (List.mem_cons_of_mem _ he)) htail
        refine ⟨live, by simp [freeEntries, he, hfree], fun q => ?_⟩
        rw [hq, List.filter_cons_of_neg (by simp [he])]
      · obtain ⟨p, n, hp, hn⟩ := hlive e List.mem_cons_self he
        have hbase : s.base e = p := by rw [State.base, hp]; rfl
        have hrest : ∀ e' ∈ rest, e' ≠ 0 → ∃ p' n',
            s.memory.loadPointer (e' - pointerSize) = some p' ∧
              Function.update s.live p none p' = some n' := by
          intro e' he' hne
          obtain ⟨p', n', hp', hn'⟩ := hlive e' (List.mem_cons_of_mem _ he') hne
          have hother : p' ≠ p := by
            have hbase' : s.base e' = p' := by rw [State.base, hp']; rfl
            rw [← hbase, ← hbase']
            exact (hhead e' he' he hne).symm
          exact ⟨p', n', hp', by rw [Function.update_of_ne hother, hn']⟩
        obtain ⟨live, hfree, hq⟩ := ih (s := { s with live := Function.update s.live p none })
          hrest htail
        refine ⟨live, ?_, fun q => ?_⟩
        · simp only [freeEntries, he, ne_eq, not_false_eq_true, if_true, hp, free, hn,
            reduceCtorEq, if_false, Option.bind_eq_bind, Option.bind_some]
          exact hfree
        · have hsame : ({ s with live := Function.update s.live p none } : State κ ι).base =
              s.base := rfl
          rw [hq, hsame, List.filter_cons_of_pos (by simpa using he), List.map_cons, hbase]
          by_cases hqp : q = p
          · subst hqp
            simp
          · show (if _ then none else Function.update s.live p none q) = _
            rw [Function.update_of_ne hqp]
            simp only [List.mem_cons, hqp, false_or]

/-- The storage of a context is gone, and no other. -/
structure Released [DecidableEq κ] (s : State κ ι) (c : κ) (s' : State κ ι) : Prop where
  objectCount : s'.objectCount = s.objectCount
  offsets : s'.offsets = s.offsets
  memory : s'.memory = s.memory
  pc : s'.pc = s.pc
  storage : s'.storage = Function.update s.storage c 0
  arrays : ∀ q, q ≠ s.storage c → s'.arrays q = s.arrays q
  gone : ∀ w q, w.context = c → s.block w = some q → s'.live q = none
  kept : ∀ q, (∀ w, w.context = c → s.block w ≠ some q) → s'.live q = s.live q

/-- The entries of an array that are not null are those that `entryAt` finds. -/
theorem mem_entries {array : EmutlsArray} (hne : s.storage c ≠ 0)
    (harray : s.arrays (s.storage c) = some array) {q : Nat} :
    q ∈ (array.entries.filter (· ≠ 0)).map s.base ↔ ∃ i, s.block (.copy c i) = some q := by
  simp only [List.mem_map, List.mem_filter, block_copy_eq_some, entryAt_of_array hne harray,
    Option.filter_eq_some_iff]
  constructor
  · rintro ⟨a, ⟨hmem, ha⟩, rfl⟩
    obtain ⟨i, hi⟩ := List.mem_iff_getElem?.mp hmem
    exact ⟨i, a, ⟨hi, ha⟩, rfl⟩
  · rintro ⟨i, a, ⟨hi, ha⟩, rfl⟩
    exact ⟨a, ⟨List.mem_iff_getElem?.mpr ⟨i, hi⟩, ha⟩, rfl⟩

/-- Destruction frees each block of the context once, and never gets stuck. -/
theorem Held.destroyEmutls [DecidableEq κ] (h : Held objects s) (c : κ) :
    ∃ s', destroyEmutls s c = some s' ∧ Released s c s' := by
  by_cases hne : s.storage c = 0
  · refine ⟨s, by rw [Emutls.destroyEmutls, if_pos hne], rfl, rfl, rfl, rfl, ?_, fun _ _ => rfl, ?_,
      fun _ _ => rfl⟩
    · rw [← hne, Function.update_eq_self]
    · intro w q hwc hw
      cases w with
      | array c' =>
          obtain ⟨rfl, hzero⟩ := block_array_eq_some.mp hw
          exact absurd (by rw [← hne, ← hwc]; rfl) hzero
      | copy c' i =>
          obtain ⟨a, ha, -⟩ := block_copy_eq_some.mp hw
          exact absurd (by rw [← hne, ← hwc]; rfl) (State.entryAt_ne_zero ha).1
  · obtain ⟨array, size, harray, hlength, -, hlive⟩ := h.array c hne
    have hentry : ∀ i a, array.entries[i]? = some a → a ≠ 0 → s.entryAt c i = some a := by
      intro i a ha hzero
      rw [entryAt_of_array hne harray, ha]
      exact Option.filter_some_pos (by simpa using hzero)
    obtain ⟨live, hfree, hrest⟩ := freeEntries_eq array.entries (s := s)
      (fun e he hzero => by
        obtain ⟨i, hi⟩ := List.mem_iff_getElem?.mp he
        obtain ⟨o, p, n, -, hcopied⟩ := h.copy c i e (hentry i e hi hzero)
        exact ⟨p, n, hcopied.header, hcopied.live⟩)
      (List.pairwise_iff_getElem.mpr fun i j hi hj hij hzero hzero' heq => by
        have hi' := hentry i _ (List.getElem?_eq_getElem hi) hzero
        have hj' := hentry j _ (List.getElem?_eq_getElem hj) hzero'
        have := h.single (.copy c i) (.copy c j) _ (block_copy_eq_some.mpr ⟨_, hi', rfl⟩)
          (block_copy_eq_some.mpr ⟨_, hj', heq.symm⟩)
        simp only [Owner.copy.injEq, true_and] at this
        omega)
    have harrayLive : live (s.storage c) = some size := by
      rw [hrest, if_neg, hlive]
      intro hmem
      obtain ⟨i, hi⟩ := (mem_entries hne harray).mp hmem
      have := h.single _ _ _ hi (block_array_eq_some.mpr ⟨rfl, hne⟩)
      cases this
    refine ⟨{ s with
        live := Function.update live (s.storage c) none
        arrays := Function.update s.arrays (s.storage c) none
        storage := Function.update s.storage c 0 }, ?_, rfl, rfl, rfl, rfl, rfl,
      fun q hq => Function.update_of_ne hq _ _, ?_, ?_⟩
    · have hfull : ¬ array.entries.length < array.capacity := by omega
      have htake : array.entries.take array.capacity = array.entries := by
        rw [← hlength, List.take_length]
      simp only [Emutls.destroyEmutls, if_neg hne, harray, Option.bind_eq_bind, Option.bind_some,
        if_neg hfull, htake, hfree, free, harrayLive, reduceCtorEq, if_false]
    · intro w q hwc hw
      show Function.update live (s.storage c) none q = none
      by_cases hq : q = s.storage c
      · rw [hq, Function.update_self]
      · rw [Function.update_of_ne hq, hrest, if_pos]
        apply (mem_entries hne harray).mpr
        cases w with
        | array c' => exact absurd ((block_array_eq_some.mp hw).1.symm.trans (by rw [← hwc]; rfl)) hq
        | copy c' i => exact ⟨i, by rw [← hwc]; exact hw⟩
    · intro q hq
      have hother : q ≠ s.storage c := fun heq =>
        hq (.array c) rfl (block_array_eq_some.mpr ⟨heq.symm, by rwa [heq]⟩)
      show Function.update live _ none q = s.live q
      rw [Function.update_of_ne hother, hrest, if_neg]
      intro hmem
      obtain ⟨i, hi⟩ := (mem_entries hne harray).mp hmem
      exact hq (.copy c i) rfl hi

section Release

variable [DecidableEq κ] (hr : Released s c s')
include hr

theorem Released.entryAt_self (i : Nat) : s'.entryAt c i = none := by
  rw [State.entryAt, if_pos]
  rw [hr.storage, Function.update_self]

theorem Released.block_self {w : Owner κ} (hw : w.context = c) : s'.block w = none := by
  rcases w with d | ⟨d, i⟩
  · obtain rfl : d = c := hw
    simp [State.block, hr.storage]
  · obtain rfl : d = c := hw
    simp only [State.block, hr.entryAt_self, Option.map_none]

theorem Released.storage_other {c' : κ} (hc : c' ≠ c) : s'.storage c' = s.storage c' := by
  rw [hr.storage, Function.update_of_ne hc]

theorem Released.entryAt_other (h : Held objects s) {c' : κ} (hc : c' ≠ c) (i : Nat) :
    s'.entryAt c' i = s.entryAt c' i :=
  entryAt_congr (hr.storage_other hc)
    (fun hne => hr.arrays _ fun heq => hc (h.single_storage hne heq)) i

theorem Released.base : s'.base = s.base := by
  funext a
  rw [State.base, State.base, hr.memory]

theorem Released.block_other (h : Held objects s) {w : Owner κ} (hw : w.context ≠ c) :
    s'.block w = s.block w :=
  block_congr (hr.storage_other hw) (hr.entryAt_other h hw) (fun _ a _ => by rw [hr.base]) w rfl

/-- What the context does not own stays live. -/
theorem Released.live_other (h : Held objects s) {w : Owner κ} (hw : w.context ≠ c) {q : Nat}
    (hq : s.block w = some q) : s'.live q = s.live q :=
  hr.kept q fun w' hw' hq' => hw (by rw [← hw', h.single w w' q hq hq'])

theorem Held.release (h : Held objects s) : Held objects s' where
  sound := by
    have hlive : ∀ q n, s'.live q = some n → s.live q = some n := by
      intro q n hq
      by_cases hw : ∃ w, w.context = c ∧ s.block w = some q
      · obtain ⟨w, hwc, hw⟩ := hw
        rw [hr.gone w q hwc hw] at hq
        cases hq
      · rw [hr.kept q fun w hwc hw' => hw ⟨w, hwc, hw'⟩] at hq
        exact hq
    exact ⟨fun q n hq => h.sound.within q n (hlive q n hq),
      fun q n q' n' hq hq' => h.sound.apart q n q' n' (hlive q n hq) (hlive q' n' hq')⟩
  offsets o := by
    rw [hr.offsets, hr.objectCount]
    exact h.offsets o
  distinct := by
    rw [hr.offsets]
    exact h.distinct
  array c' hne := by
    have hc : c' ≠ c := by
      rintro rfl
      exact hne (by rw [hr.storage, Function.update_self])
    rw [hr.storage_other hc] at hne ⊢
    obtain ⟨array, size, harray, hlength, hsize, hlive⟩ := h.array c' hne
    refine ⟨array, size, ?_, hlength, hsize, ?_⟩
    · rw [hr.arrays _ fun heq => hc (h.single_storage hne heq), harray]
    · have hblock := block_array_eq_some.mpr ⟨rfl, hne⟩
      rw [hr.live_other h (w := .array c') hc hblock, hlive]
  copy c' i a ha := by
    have hc : c' ≠ c := by
      rintro rfl
      rw [hr.entryAt_self] at ha
      cases ha
    rw [hr.entryAt_other h hc] at ha
    obtain ⟨o, p, size, ho, hcopied⟩ := h.copy c' i a ha
    refine ⟨o, p, size, by rw [hr.offsets, ho], hcopied.address, by rw [hr.memory, hcopied.header],
      hcopied.asked, ?_⟩
    rw [hr.live_other h (w := .copy c' i) hc (block_copy_eq_some.mpr ⟨a, ha, hcopied.base_eq⟩),
      hcopied.live]
  single w w' q hw hw' := by
    have hother : ∀ {w}, s'.block w = some q → w.context ≠ c := by
      intro w hw hc
      rw [hr.block_self hc] at hw
      cases hw
    have h₁ := hother hw
    have h₂ := hother hw'
    rw [hr.block_other h h₁] at hw
    rw [hr.block_other h h₂] at hw'
    exact h.single w w' q hw hw'
  ledger q hq := by
    by_cases hw : ∃ w, w.context = c ∧ s.block w = some q
    · obtain ⟨w, hwc, hw⟩ := hw
      exact absurd (hr.gone w q hwc hw) hq
    · rw [hr.kept q fun w hwc hw' => hw ⟨w, hwc, hw'⟩] at hq
      obtain ⟨w, hw'⟩ := h.ledger q hq
      exact ⟨w, by rw [hr.block_other h fun hwc => hw ⟨w, hwc, hw'⟩, hw']⟩

end Release

/-! ## Handing over -/

section Hand

variable [DecidableEq κ] {c' : κ}

/-- The second context goes on with the storage of the first. -/
def State.hand (s : State κ ι) (c c' : κ) : State κ ι :=
  { s with storage := Function.update (Function.update s.storage c' (s.storage c)) c 0 }

theorem hand_storage_old : (s.hand c c').storage c = 0 := Function.update_self _ _ _

theorem hand_storage_new (hne : c ≠ c') : (s.hand c c').storage c' = s.storage c := by
  rw [State.hand]
  simp only [Function.update_of_ne hne.symm, Function.update_self]

theorem hand_storage_other {d : κ} (h₁ : d ≠ c) (h₂ : d ≠ c') :
    (s.hand c c').storage d = s.storage d := by
  rw [State.hand]
  simp only [Function.update_of_ne h₁, Function.update_of_ne h₂]

/-- Whose storage the storage of a context was. -/
def former (c c' d : κ) : κ := if d = c' then c else d

theorem hand_storage (hne : c ≠ c') {d : κ} (hd : d ≠ c) :
    (s.hand c c').storage d = s.storage (former c c' d) := by
  unfold former
  split
  · rename_i heq
    rw [heq, hand_storage_new hne]
  · exact hand_storage_other hd ‹_›

theorem hand_entryAt_old (i : Nat) : (s.hand c c').entryAt c i = none := by
  rw [State.entryAt, if_pos hand_storage_old]

theorem hand_entryAt (hne : c ≠ c') {d : κ} (hd : d ≠ c) (i : Nat) :
    (s.hand c c').entryAt d i = s.entryAt (former c c' d) i := by
  rw [State.entryAt, State.entryAt, hand_storage hne hd]
  rfl

/-- Whose block the block of an owner was. -/
def Owner.former (c c' : κ) : Owner κ → Owner κ
  | .array d => .array (Emutls.former c c' d)
  | .copy d i => .copy (Emutls.former c c' d) i

theorem hand_block_old {w : Owner κ} (hw : w.context = c) : (s.hand c c').block w = none := by
  rcases w with d | ⟨d, i⟩
  · obtain rfl : d = c := hw
    simp only [State.block, hand_storage_old, if_true]
  · obtain rfl : d = c := hw
    simp only [State.block, hand_entryAt_old, Option.map_none]

theorem hand_block (hne : c ≠ c') {w : Owner κ} (hw : w.context ≠ c) :
    (s.hand c c').block w = s.block (w.former c c') := by
  rcases w with d | ⟨d, i⟩
  · have hd : d ≠ c := hw
    simp only [State.block, Owner.former, hand_storage hne hd]
  · have hd : d ≠ c := hw
    simp only [State.block, Owner.former, hand_entryAt hne hd]
    rfl

/-- Nothing changes hands but the storage of the first context. -/
theorem Held.hand (h : Held objects s) (hne : c ≠ c') (hnone : s.storage c' = 0) :
    Held objects (s.hand c c') := by
  have hold : ∀ {w : Owner κ} {q}, (s.hand c c').block w = some q → w.context ≠ c := by
    intro w q hw hc
    rw [hand_block_old hc] at hw
    cases hw
  have hinj : ∀ {d d' : κ}, d ≠ c → d' ≠ c → former c c' d = former c c' d' → d = d' := by
    intro d d' hd hd' heq
    unfold former at heq
    split at heq <;> split at heq <;> simp_all
  exact {
    sound := h.sound
    offsets := h.offsets
    distinct := h.distinct
    array := by
      intro d hd
      have hdc : d ≠ c := by
        rintro rfl
        exact hd hand_storage_old
      rw [hand_storage hne hdc] at hd ⊢
      exact h.array _ hd
    copy := by
      intro d i a ha
      have hdc : d ≠ c := by
        rintro rfl
        rw [hand_entryAt_old] at ha
        cases ha
      rw [hand_entryAt hne hdc] at ha
      obtain ⟨o, p, size, ho, hcopied⟩ := h.copy _ i a ha
      exact ⟨o, p, size, ho, hcopied.address, hcopied.header, hcopied.asked, hcopied.live⟩
    single := by
      intro w w' q hw hw'
      have h₁ := hold hw
      have h₂ := hold hw'
      rw [hand_block hne h₁] at hw
      rw [hand_block hne h₂] at hw'
      have heq := h.single _ _ q hw hw'
      rcases w with d | ⟨d, i⟩ <;> rcases w' with d' | ⟨d', i'⟩ <;>
        simp only [Owner.former, Owner.array.injEq, Owner.copy.injEq, reduceCtorEq] at heq
      · exact congrArg _ (hinj h₁ h₂ heq)
      · obtain ⟨hd, rfl⟩ := heq
        exact congrArg (Owner.copy · i) (hinj h₁ h₂ hd)
    ledger := by
      intro q hq
      obtain ⟨w, hw⟩ := h.ledger q hq
      -- the owner, or the second context where it was the first
      have hsecond : w.context ≠ c' := by
        rcases w with d | ⟨d, i⟩
        · rintro rfl
          exact (block_array_eq_some.mp hw).2 ((block_array_eq_some.mp hw).1.symm.trans hnone)
        · rintro rfl
          obtain ⟨a, ha, -⟩ := block_copy_eq_some.mp hw
          exact (State.entryAt_ne_zero ha).1 hnone
      by_cases hfirst : w.context = c
      · rcases w with d | ⟨d, i⟩
        · obtain rfl : d = c := hfirst
          refine ⟨.array c', ?_⟩
          rw [hand_block hne (w := .array c') hne.symm]
          simpa [Owner.former, former] using hw
        · obtain rfl : d = c := hfirst
          refine ⟨.copy c' i, ?_⟩
          rw [hand_block hne (w := .copy c' i) hne.symm]
          simpa [Owner.former, former] using hw
      · refine ⟨w, ?_⟩
        rw [hand_block hne hfirst, ← hw]
        rcases w with d | ⟨d, i⟩ <;> simp only [Owner.context] at hsecond <;>
          simp [Owner.former, former, hsecond] }

end Hand

end Emutls
end Backend
end NucleoBase
