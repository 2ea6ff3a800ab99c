/-
  NucleoBase.Hal.EthernetReceiveCorrect

  Who holds the receive slots.  `Pool` says that the allocated slots are those
  held by the descriptors, by the packet under construction and by the packet
  in hand, each by one of them; allocating, linking, handing out, releasing and
  resetting keep it.  What a stop can break, it breaks exactly when the step is
  not `Orderly`.
-/

import NucleoBase.Hal.EthernetReceive

namespace NucleoBase
namespace Hal
namespace EthernetReceive

open Lib

variable {n : Nat}

/-! ## The functions on the slots -/

section Functions

variable {slots slots' : Slots n} {p : Option (Fin n)} {l : List (Fin n)}

/-- `release_frame` frees the slots of the chain it is given, however long, and
    touches no other. -/
theorem releaseFrame_chain (h : Chain slots.next p l) (hnodup : l.Nodup) {k : Nat}
    (hk : l.length ≤ k) :
    releaseFrame k slots p = some fun i => if i ∈ l then (slots i).free else slots i := by
  induction l generalizing slots p k with
  | nil =>
      obtain rfl : p = none := h
      cases k <;> simp [releaseFrame]
  | cons a l ih =>
      obtain ⟨rfl, hl⟩ := h
      obtain ⟨ha, hnodup⟩ := List.nodup_cons.mp hnodup
      cases k with
      | zero => simp at hk
      | succ k =>
          have hsame : ∀ b ∈ l, Slots.next (Function.update slots a (slots a).free) b =
              slots.next b := by
            intro b hb
            have hne : b ≠ a := fun h => ha (h ▸ hb)
            simp [Slots.next, hne]
          rw [releaseFrame, ih (hl.congr hsame) hnodup (Nat.le_of_succ_le_succ hk)]
          congr 1
          funext i
          rcases eq_or_ne i a with rfl | hne
          · simp [ha]
          · simp [hne]

/-- A chain of a pool of `n` slots has at most `n` links. -/
theorem length_le_of_nodup (h : l.Nodup) : l.length ≤ n := by
  simpa using h.length_le_card

theorem freed_release :
    freed slots (fun i => if i ∈ l then (slots i).free else slots i) =
      (List.finRange n).filter fun i => (slots i).allocated && decide (i ∈ l) := by
  apply List.filter_congr
  intro i _
  by_cases hi : i ∈ l
  · simp [hi, RxSlot.free]
  · simp [hi]

/-- The buffer handed out belonged to a free slot. -/
theorem rxAllocateCallback_some {i : Fin n} (h : rxAllocateCallback slots = (some i, slots')) :
    (slots i).allocated = false ∧
      slots' = Function.update slots i { slots i with link := .null, allocated := true } := by
  unfold rxAllocateCallback at h
  split at h
  · cases h
  · next j hfind =>
      cases h
      have := List.find?_some hfind
      exact ⟨by simpa using this, rfl⟩

theorem next_update (slots : Slots n) (i : Fin n) (slot : RxSlot n) :
    Slots.next (Function.update slots i slot) =
      Function.update slots.next i slot.link.next := by
  funext j
  rcases eq_or_ne j i with rfl | hne
  · simp [Slots.next]
  · simp [Slots.next, hne]

/-- The link callback links the slot behind the last of the chain and leaves
    every slot as allocated as it was. -/
theorem rxLinkCallback_chain {ends : Ends n} {slot : Fin n} (length : UInt16)
    (h : Chain slots.next ends.start l) (hnodup : l.Nodup)
    (hlast : ∀ z, l.getLast? = some z → ends.last = some z) (hslot : slot ∉ l) :
    ∃ slots' ends', rxLinkCallback slots ends slot length = some (slots', ends') ∧
      Chain slots'.next ends'.start (l ++ [slot]) ∧ ends'.last = some slot ∧
      (∀ i, (slots' i).allocated = (slots i).allocated) ∧
      ∀ i, i ∉ l → i ≠ slot → slots' i = slots i := by
  let linked := Function.update slots slot
    { slots slot with link := ⟨some slot, length.toUInt32, none⟩ }
  have hkeep : ∀ i, (linked i).allocated = (slots i).allocated := by
    intro i
    rcases eq_or_ne i slot with rfl | hne
    · simp [linked]
    · simp [linked, hne]
  cases l with
  | nil =>
      have hstart : ends.start = none := h
      refine ⟨linked, ⟨some slot, some slot⟩, ?_, ⟨rfl, ?_⟩, rfl, hkeep, ?_⟩
      · simp only [rxLinkCallback, hstart]
        rfl
      · simp [Chain, linked, Slots.next]
      · intro i _ hne
        simp [linked, hne]
  | cons a l =>
      obtain ⟨z, hz⟩ : ∃ z, (a :: l).getLast? = some z := by
        simp [List.getLast?_cons]
      have hend := hlast z hz
      have hzl : z ∈ a :: l := List.mem_of_getLast? hz
      refine ⟨Function.update linked z
        { linked z with link := { (linked z).link with next := some slot } },
        ⟨some a, some slot⟩, ?_, ?_, rfl, ?_, ?_⟩
      · simp only [rxLinkCallback, h.1, hend]
        rfl
      · rw [next_update, next_update]
        have hconcat := h.concat hnodup hz hslot
        rw [h.1] at hconcat
        exact hconcat
      · intro i
        rcases eq_or_ne i z with rfl | hne
        · simpa using hkeep i
        · simpa [hne] using hkeep i
      · intro i hi hne
        have hiz : i ≠ z := fun h => hi (h ▸ hzl)
        simp [linked, hne, hiz]

end Functions

/-! ## Who holds the slots -/

/-- The holders are distinct, and the slots they hold are the allocated ones. -/
structure Pool (slots : Slots n) (held : List (Fin n)) : Prop where
  nodup : held.Nodup
  allocated : ∀ i, (slots i).allocated = true ↔ i ∈ held

namespace Pool

variable {slots slots' : Slots n} {held held' : List (Fin n)}

theorem perm (h : Pool slots held) (hperm : held.Perm held')
    (hslots : ∀ i, (slots' i).allocated = (slots i).allocated) : Pool slots' held' where
  nodup := hperm.nodup_iff.mp h.nodup
  allocated i := by
    rw [hslots, h.allocated, hperm.mem_iff]

/-- A free slot is taken. -/
theorem take (h : Pool slots held) {i : Fin n} {slot : RxSlot n}
    (hi : (slots i).allocated = false) (hslot : slot.allocated = true) :
    Pool (Function.update slots i slot) (i :: held) where
  nodup := by
    refine List.nodup_cons.mpr ⟨fun hmem => ?_, h.nodup⟩
    rw [(h.allocated i).mpr hmem] at hi
    cases hi
  allocated j := by
    rcases eq_or_ne j i with rfl | hne
    · simp [hslot]
    · simp [hne, h.allocated]

/-- The last of the holders gives its slots up. -/
theorem release {l : List (Fin n)} (h : Pool slots (held ++ l)) :
    Pool (fun i => if i ∈ l then (slots i).free else slots i) held where
  nodup := (List.nodup_append.mp h.nodup).1
  allocated i := by
    by_cases hi : i ∈ l
    · have hne : i ∉ held := fun hh => (List.nodup_append.mp h.nodup).2.2 i hh i hi rfl
      simp [hi, hne, RxSlot.free]
    · simp [hi, h.allocated]

theorem not_allocated (h : Pool slots []) (i : Fin n) : (slots i).allocated = false := by
  cases hi : (slots i).allocated with
  | false => rfl
  | true => cases (h.allocated i).mp hi

end Pool

/-- What a release frees is the released packet. -/
theorem freed_perm {slots : Slots n} {held l : List (Fin n)} (h : Pool slots (held ++ l)) :
    (freed slots fun i => if i ∈ l then (slots i).free else slots i).Perm l := by
  have hl : l.Nodup := (List.nodup_append.mp h.nodup).2.1
  rw [freed_release, List.perm_ext_iff_of_nodup ((List.nodup_finRange n).filter _) hl]
  intro i
  have hi : i ∈ l → (slots i).allocated = true :=
    fun hmem => (h.allocated i).mpr (List.mem_append_right _ hmem)
  simp only [List.mem_filter, List.mem_finRange, true_and, Bool.and_eq_true, decide_eq_true_eq]
  exact ⟨fun h => h.2, fun h => ⟨hi h, h⟩⟩

/-! ## The guarantee -/

/-- The buffers held by the descriptors, by the packet under construction and
    by the packet in hand. -/
def State.held (s : State n) : List (Fin n) :=
  s.descriptors ++ s.trace.linked ++ s.trace.inHand

structure Guarantee (s : State n) : Prop where
  /-- No buffer has two holders, so each slot of a packet is linked once. -/
  exclusive : s.held.Nodup
  /-- The allocate callback hands out no buffer that is held. -/
  handOut : ∀ i, (rxAllocateCallback s.slots).1 = some i → i ∉ s.held
  /-- No slot is allocated that nobody holds. -/
  leaked : ∀ i, (s.slots i).allocated = true → i ∈ s.held
  /-- The packets are chained in arrival order. -/
  linked : Chain s.slots.next s.ends.start s.trace.linked
  inHand : Chain s.slots.next s.pc.packet s.trace.inHand
  /-- The loops over the packet in hand end. -/
  released : ∃ slots, releaseFrame n s.slots s.pc.packet = some slots
  /-- With no packet in hand, as whenever `receive` returns, every packet
      obtained has been released: once, and no slot but its own. -/
  settled : s.pc.packet = none → List.Forall₂ List.Perm s.trace.released s.trace.obtained
  /-- A stop that succeeds leaves every slot free. -/
  stopped : s.pc = .leaveStop true → ∀ i, (s.slots i).allocated = false

/-- The steps of a stop that lose no slot: one that has nothing to stop finds
    the HAL without a buffer, and `HAL_ETH_Init` does not fail with a packet
    under construction. -/
def Orderly (s : State n) : Event n → Prop
  | .stop => s.running = false → s.held = []
  | .halInit ok => ok = false → s.trace.linked = []
  | _ => True

/-! ## The invariant -/

/-- Where every slot is free. -/
def Pc.allFree : Pc n → Bool
  | .restore | .leaveStop true => true
  | _ => false

structure Inv (s : State n) : Prop where
  pool : Pool s.slots s.held
  linked : Chain s.slots.next s.ends.start s.trace.linked
  last : ∀ z, s.trace.linked.getLast? = some z → s.ends.last = some z
  inHand : Chain s.slots.next s.pc.packet s.trace.inHand
  /-- All packets but the one in hand have been released. -/
  ledger : ∃ done, List.Forall₂ List.Perm s.trace.released done ∧
    s.trace.obtained = done ++ s.pc.packet.toList.map fun _ => s.trace.inHand
  free : s.pc.allFree = true → s.held = []

variable {s s' : State n} {e : Event n}

theorem Inv.initial (h0 : init s) : Inv s := by
  obtain ⟨-, hslots, hdescriptors, hends, hpc, htrace⟩ := h0
  have hheld : s.held = [] := by
    simp [State.held, hdescriptors, htrace]
  refine ⟨?_, ?_, ?_, ?_, ?_, fun _ => hheld⟩
  · rw [hheld]
    exact ⟨List.nodup_nil, fun i => by simp [(hslots i).2]⟩
  · rw [hends, htrace]
    rfl
  · simp [htrace]
  · rw [hpc, htrace]
    rfl
  · exact ⟨[], by simp [htrace], by simp [htrace, hpc, Pc.packet]⟩

theorem Inv.nodup_linked (inv : Inv s) : s.trace.linked.Nodup :=
  (List.nodup_append.mp (List.nodup_append.mp inv.pool.nodup).1).2.1

theorem Inv.nodup_inHand (inv : Inv s) : s.trace.inHand.Nodup :=
  (List.nodup_append.mp inv.pool.nodup).2.1

/-- With no packet in hand nothing is in hand. -/
theorem Inv.inHand_nil (inv : Inv s) (hp : s.pc.packet = none) : s.trace.inHand = [] := by
  have h := inv.inHand
  rw [hp] at h
  exact h.of_none

theorem Inv.guarantee (inv : Inv s) : Guarantee s where
  exclusive := inv.pool.nodup
  handOut i hi hheld := by
    have hsome : rxAllocateCallback s.slots = (some i, (rxAllocateCallback s.slots).2) := by
      rw [← hi]
    have hfree := (rxAllocateCallback_some hsome).1
    rw [(inv.pool.allocated i).mpr hheld] at hfree
    cases hfree
  leaked i hi := (inv.pool.allocated i).mp hi
  linked := inv.linked
  inHand := inv.inHand
  released := ⟨_, releaseFrame_chain inv.inHand inv.nodup_inHand
    (length_le_of_nodup inv.nodup_inHand)⟩
  settled hp := by
    obtain ⟨done, hdone, heq⟩ := inv.ledger
    rw [hp] at heq
    simpa [heq] using hdone
  stopped hpc i := by
    have hheld := inv.free (by rw [hpc]; rfl)
    exact (hheld ▸ inv.pool).not_allocated i

/-! ## The steps -/

/-- A step that only moves the call in progress. -/
theorem Inv.goto (inv : Inv s) {r : Bool} {pc : Pc n} (hp : pc.packet = s.pc.packet)
    (hfree : pc.allFree = true → s.held = []) :
    Inv { s with running := r, pc := pc } where
  pool := inv.pool
  linked := inv.linked
  last := inv.last
  inHand := by
    rw [hp]
    exact inv.inHand
  ledger := by
    rw [hp]
    exact inv.ledger
  free := hfree

/-- Slots that nobody holds, and data, may change. -/
theorem Inv.setSlots (inv : Inv s) {slots : Slots n} {descriptors : List (Fin n)}
    (hpool : Pool slots (descriptors ++ s.trace.linked ++ s.trace.inHand))
    (hnext : ∀ i ∈ s.trace.linked ++ s.trace.inHand, slots.next i = s.slots.next i)
    (hfree : s.pc.allFree = false) :
    Inv { s with slots := slots, descriptors := descriptors } where
  pool := hpool
  linked := inv.linked.congr fun i hi => hnext i (List.mem_append_left _ hi)
  last := inv.last
  inHand := inv.inHand.congr fun i hi => hnext i (List.mem_append_right _ hi)
  ledger := inv.ledger
  free h := by
    rw [hfree] at h
    cases h

theorem Inv.allocate (inv : Inv s) (hfree : s.pc.allFree = false) : Inv s.allocate := by
  unfold State.allocate
  split
  · exact inv
  · next i slots h =>
      obtain ⟨hi, rfl⟩ := rxAllocateCallback_some h
      refine inv.setSlots (inv.pool.take hi rfl) (fun j hj => ?_) hfree
      have hne : j ≠ i := by
        rintro rfl
        have hmem : j ∈ s.held := by
          rw [State.held, List.append_assoc]
          exact List.mem_append_right _ hj
        rw [(inv.pool.allocated j).mpr hmem] at hi
        cases hi
      simp [Slots.next, hne]

theorem Inv.dma (inv : Inv s) (slot : Fin n) (data : List UInt8) :
    Inv { s with slots := Function.update s.slots slot { s.slots slot with data := data } } := by
  have hnext : ∀ i, Slots.next (Function.update s.slots slot
      { s.slots slot with data := data }) i = s.slots.next i := by
    intro i
    rcases eq_or_ne i slot with rfl | hne
    · simp [Slots.next]
    · simp [Slots.next, hne]
  refine ⟨inv.pool.perm (List.Perm.refl _) fun i => ?_, inv.linked.congr fun i _ => hnext i,
    inv.last, inv.inHand.congr fun i _ => hnext i, inv.ledger, inv.free⟩
  rcases eq_or_ne i slot with rfl | hne
  · simp
  · simp [hne]

/-- A filled buffer goes from its descriptor to the packet under construction. -/
theorem Inv.link (inv : Inv s) {slot : Fin n} {length : UInt16} (hslot : slot ∈ s.descriptors)
    (hp : s.pc.packet = none) (hfree : s.pc.allFree = false)
    (hs : s.link slot length = some s') : Inv s' := by
  have hinHand := inv.inHand_nil hp
  have hnodup := inv.pool.nodup
  rw [State.held, hinHand, List.append_nil] at hnodup
  have hnot : slot ∉ s.trace.linked :=
    fun h => (List.nodup_append.mp hnodup).2.2 slot hslot slot h rfl
  obtain ⟨slots, ends, hcall, hchain, hlast, hallocated, -⟩ :=
    rxLinkCallback_chain length inv.linked inv.nodup_linked inv.last hnot
  simp only [State.link, hcall, Option.map_some, Option.some.injEq] at hs
  subst hs
  refine ⟨?_, hchain, ?_, ?_, inv.ledger, ?_⟩
  · refine inv.pool.perm ?_ hallocated
    have hfront : (s.descriptors ++ s.trace.linked).Perm
        (slot :: (s.descriptors.erase slot ++ s.trace.linked)) :=
      (List.perm_cons_erase hslot).append_right _
    have hback : (slot :: (s.descriptors.erase slot ++ s.trace.linked)).Perm
        (s.descriptors.erase slot ++ (s.trace.linked ++ [slot])) := by
      rw [← List.append_assoc]
      exact (List.perm_append_singleton _ _).symm
    simp only [State.held, hinHand, List.append_nil]
    exact hfront.trans hback
  · intro z hz
    simp only [List.getLast?_concat, Option.some.injEq] at hz
    rw [hlast, hz]
  · show Chain slots.next s.pc.packet s.trace.inHand
    rw [hp, hinHand]
    rfl
  · intro h
    rw [hfree] at h
    cases h

/-- The packet under construction becomes the packet in hand. -/
theorem Inv.obtain (inv : Inv s) {c : Call} {packet : Fin n} (hp : s.pc.packet = none)
    (hstart : s.ends.start = some packet) : Inv (s.obtain c packet) := by
  have hinHand := inv.inHand_nil hp
  obtain ⟨done, hdone, heq⟩ := inv.ledger
  rw [hp] at heq
  refine ⟨?_, rfl, fun z hz => (nomatch hz), ?_, ⟨done, hdone, ?_⟩, fun h => (nomatch h)⟩
  · refine inv.pool.perm (List.Perm.of_eq ?_) fun _ => rfl
    simp [State.held, State.obtain, hinHand]
  · have hlinked := inv.linked
    rw [hstart] at hlinked
    exact hlinked
  · simp [State.obtain, Pc.packet, heq]

/-- The packet in hand is released. -/
theorem Inv.release (inv : Inv s) {packet : Fin n} {pc : Pc n} (hp : s.pc.packet = some packet)
    (hpc : pc.packet = none) (hfree : pc.allFree = false)
    (hs : s.release packet pc = some s') : Inv s' := by
  have hchain := inv.inHand
  rw [hp] at hchain
  have hrelease := releaseFrame_chain hchain inv.nodup_inHand
    (length_le_of_nodup inv.nodup_inHand)
  simp only [State.release, hrelease, Option.map_some, Option.some.injEq] at hs
  subst hs
  obtain ⟨done, hdone, heq⟩ := inv.ledger
  rw [hp] at heq
  have hsame : ∀ i ∈ s.trace.linked, Slots.next
      (fun i => if i ∈ s.trace.inHand then (s.slots i).free else s.slots i) i =
        s.slots.next i := by
    intro i hi
    have hne : i ∉ s.trace.inHand := fun h =>
      (List.nodup_append.mp inv.pool.nodup).2.2 i (List.mem_append_right _ hi) i h rfl
    simp [Slots.next, hne]
  refine ⟨?_, inv.linked.congr hsame, inv.last, ?_, ⟨done ++ [s.trace.inHand], ?_, ?_⟩, ?_⟩
  · have hpool := inv.pool.release
    simpa [State.held] using hpool
  · show Chain _ pc.packet []
    rw [hpc]
    rfl
  · exact List.rel_append hdone (.cons (freed_perm inv.pool) .nil)
  · simp [hpc, heq]
  · intro h
    rw [hfree] at h
    cases h

/-- A failed `HAL_ETH_Init` loses nothing if no packet is under construction. -/
theorem Inv.failInit (inv : Inv s) (hp : s.pc.packet = none) (hlinked : s.trace.linked = []) :
    Inv s.failInit := by
  have hinHand := inv.inHand_nil hp
  obtain ⟨done, hdone, heq⟩ := inv.ledger
  rw [hp] at heq
  refine ⟨?_, rfl, fun z hz => (nomatch hz), ?_, ⟨done, hdone, heq⟩, fun h => (nomatch h)⟩
  · have hpool := inv.pool
    rw [State.held, hlinked] at hpool
    exact hpool
  · show Chain _ none s.trace.inHand
    rw [hinHand]
    rfl

/-- After a successful one the loop frees every slot. -/
theorem Inv.reset (inv : Inv s) (hp : s.pc.packet = none) : Inv s.reset := by
  have hinHand := inv.inHand_nil hp
  obtain ⟨done, hdone, heq⟩ := inv.ledger
  rw [hp] at heq
  have hheld : s.reset.held = [] := by
    simp [State.held, State.reset, hinHand]
  refine ⟨?_, rfl, fun z hz => (nomatch hz), ?_, ⟨done, hdone, heq⟩, fun _ => hheld⟩
  · rw [hheld]
    exact ⟨List.nodup_nil, fun i => by simp [State.reset, RxSlot.free]⟩
  · show Chain _ none s.trace.inHand
    rw [hinHand]
    rfl

theorem Inv.preserve (inv : Inv s) (ho : Orderly s e) (hs : step s e = some s') : Inv s' := by
  cases e with
  | receive capacity timeout =>
      simp only [step] at hs
      split at hs
      · next hpc =>
          split at hs <;> cases hs
          · exact inv.goto (by rw [hpc]; rfl) fun h => (nomatch h)
          · exact inv.goto (by rw [hpc]; rfl) fun h => (nomatch h)
      · cases hs
  | isRunning tick =>
      simp only [step] at hs
      split at hs
      · next hpc =>
          split at hs <;> cases hs
          · exact inv.goto (by rw [hpc]; rfl) fun h => (nomatch h)
          · exact inv.goto (by rw [hpc]; rfl) fun h => (nomatch h)
      · cases hs
  | allocate =>
      simp only [step] at hs
      split at hs
      · next hpc =>
          cases hs
          exact inv.allocate (by rw [hpc]; rfl)
      · next hpc =>
          cases hs
          exact inv.allocate (by rw [hpc]; rfl)
      · cases hs
  | link slot length =>
      simp only [step] at hs
      split at hs
      · next hpc =>
          split at hs
          · next hslot => exact inv.link hslot (by rw [hpc]; rfl) (by rw [hpc]; rfl) hs
          · cases hs
      · cases hs
  | dma slot data =>
      simp only [step] at hs
      split at hs
      · cases hs
        exact inv.dma slot data
      · cases hs
  | packet =>
      simp only [step] at hs
      split at hs
      · next hpc hstart =>
          cases hs
          exact inv.obtain (by rw [hpc]; rfl) hstart
      · cases hs
  | noPacket =>
      simp only [step] at hs
      split at hs
      · next hpc =>
          cases hs
          exact inv.goto (by rw [hpc]; rfl) fun h => (nomatch h)
      · cases hs
  | inspect errors =>
      simp only [step] at hs
      split at hs
      · next hpc =>
          split at hs <;> cases hs
          · exact inv.goto (by rw [hpc]; rfl) fun h => (nomatch h)
          · exact inv.goto (by rw [hpc]; rfl) fun h => (nomatch h)
      · cases hs
  | measure =>
      simp only [step] at hs
      split at hs
      · next hpc =>
          obtain ⟨size, -, hs⟩ := Option.map_eq_some_iff.mp hs
          split at hs <;> subst hs
          · exact inv.goto (by rw [hpc]; rfl) fun h => (nomatch h)
          · exact inv.goto (by rw [hpc]; rfl) fun h => (nomatch h)
      · cases hs
  | copy =>
      simp only [step] at hs
      split at hs
      · next hpc =>
          obtain ⟨frame, -, rfl⟩ := Option.map_eq_some_iff.mp hs
          exact inv.goto (by rw [hpc]; rfl) fun h => (nomatch h)
      · cases hs
  | release =>
      simp only [step] at hs
      split at hs
      · next hpc => exact inv.release (by rw [hpc]; rfl) rfl rfl hs
      · next hpc => exact inv.release (by rw [hpc]; rfl) rfl rfl hs
      · next hpc => exact inv.release (by rw [hpc]; rfl) rfl rfl hs
      · cases hs
  | tick now =>
      simp only [step] at hs
      split at hs
      · next hpc =>
          split at hs <;> cases hs
          · exact inv.goto (by rw [hpc]; rfl) fun h => (nomatch h)
          · exact inv.goto (by rw [hpc]; rfl) fun h => (nomatch h)
      · cases hs
  | leave =>
      simp only [step] at hs
      split at hs
      · next hpc =>
          cases hs
          exact inv.goto (by rw [hpc]; rfl) fun h => (nomatch h)
      · next hpc =>
          cases hs
          exact inv.goto (by rw [hpc]; rfl) fun h => (nomatch h)
      · next hpc =>
          cases hs
          exact inv.goto (by rw [hpc]; rfl) fun h => (nomatch h)
      · cases hs
  | start =>
      simp only [step] at hs
      split at hs
      · next hpc =>
          cases hs
          cases s.running
          · exact inv.goto (by rw [hpc]; rfl) fun h => (nomatch h)
          · exact inv.goto (by rw [hpc]; rfl) fun h => (nomatch h)
      · cases hs
  | configure ok =>
      simp only [step] at hs
      split at hs
      · next hpc =>
          cases hs
          cases ok
          · exact inv.goto (by rw [hpc]; rfl) fun h => (nomatch h)
          · exact inv.goto (by rw [hpc]; rfl) fun h => (nomatch h)
      · cases hs
  | halStart ok =>
      simp only [step] at hs
      split at hs
      · next hpc =>
          cases hs
          exact inv.goto (by rw [hpc]; rfl) fun h => (nomatch h)
      · cases hs
  | stop =>
      simp only [step] at hs
      split at hs
      · next hpc =>
          cases hs
          cases hrun : s.running
          · exact inv.goto (by rw [hpc]; rfl) fun _ => ho hrun
          · exact inv.goto (by rw [hpc]; rfl) fun h => (nomatch h)
      · cases hs
  | saveConfig ok =>
      simp only [step] at hs
      split at hs
      · next hpc =>
          cases hs
          cases ok
          · exact inv.goto (by rw [hpc]; rfl) fun h => (nomatch h)
          · exact inv.goto (by rw [hpc]; rfl) fun h => (nomatch h)
      · cases hs
  | halStop ok =>
      simp only [step] at hs
      split at hs
      · next hpc =>
          split at hs <;> cases hs
          · exact inv.goto (by rw [hpc]; rfl) fun h => (nomatch h)
          · exact inv.goto (by rw [hpc]; rfl) fun h => (nomatch h)
      · cases hs
  | halInit ok =>
      simp only [step] at hs
      split at hs
      · next hpc =>
          cases hs
          cases ok with
          | true => exact inv.reset (by rw [hpc]; rfl)
          | false => exact inv.failInit (by rw [hpc]; rfl) (ho rfl)
      · cases hs
  | restoreConfig ok =>
      simp only [step] at hs
      split at hs
      · next hpc =>
          cases hs
          exact inv.goto (by rw [hpc]; rfl) fun _ => inv.free (by rw [hpc]; rfl)
      · cases hs

/-- A step that is not orderly breaks the guarantee at once. -/
theorem Inv.orderly (inv : Inv s) (hs : step s e = some s') (hg : Guarantee s') :
    Orderly s e := by
  cases e with
  | stop =>
      intro hrun
      simp only [step] at hs
      split at hs
      · simp only [hrun, Bool.false_eq_true, ↓reduceIte, Option.some.injEq] at hs
        subst hs
        refine List.eq_nil_iff_forall_not_mem.mpr fun i hi => ?_
        have hfree : (s.slots i).allocated = false := hg.stopped rfl i
        rw [(inv.pool.allocated i).mpr hi] at hfree
        cases hfree
      · cases hs
  | halInit ok =>
      rintro rfl
      simp only [step] at hs
      split at hs
      · next hpc =>
          cases hs
          have hinHand := inv.inHand_nil (by rw [hpc]; rfl)
          have hnodup := inv.pool.nodup
          rw [State.held, hinHand, List.append_nil] at hnodup
          refine List.eq_nil_iff_forall_not_mem.mpr fun i hi => ?_
          have hallocated : (s.slots i).allocated = true :=
            (inv.pool.allocated i).mpr (by simp [State.held, hi])
          have hheld : i ∈ s.failInit.held := hg.leaked i hallocated
          have hmem : i ∈ s.descriptors := by
            simpa [State.held, State.failInit, hinHand] using hheld
          exact (List.nodup_append.mp hnodup).2.2 i hmem i hi rfl
      · cases hs
  | _ => trivial

/-! ## Every run -/

/-- `release_frame` frees the slots of the chain it is given and no other; in
    every run of orderly steps the pool is as guaranteed; and from there a step
    keeps the guarantee if and only if it is orderly. -/
theorem pool_guarantee {h : List (Event n)} (hrun : Run step (fun _ => Orderly) init h s) :
    (∀ (slots : Slots n) (p : Option (Fin n)) (l : List (Fin n)), Chain slots.next p l →
      l.Nodup → releaseFrame n slots p =
        some fun i => if i ∈ l then (slots i).free else slots i) ∧
    Guarantee s ∧ ∀ e s', step s e = some s' → (Guarantee s' ↔ Orderly s e) := by
  have hstep : ∀ (_ : List (Event n)) (s : State n) (e : Event n) (s' : State n),
      Inv s → Orderly s e → step s e = some s' → Inv s' :=
    fun _ _ _ _ inv ho hs => inv.preserve ho hs
  have inv : Inv s := Run.history_invariant (fun _ => Inv.initial) hstep hrun
  refine ⟨fun slots p l hchain hnodup => ?_, inv.guarantee, fun e s' hs => ⟨?_, ?_⟩⟩
  · exact releaseFrame_chain hchain hnodup (length_le_of_nodup hnodup)
  · exact inv.orderly hs
  · exact fun ho => (inv.preserve ho hs).guarantee

instance instDecidableOrderly (s : State n) : ∀ e, Decidable (Orderly s e)
  | .stop => inferInstanceAs (Decidable (_ → _))
  | .halInit _ => inferInstanceAs (Decidable (_ → _))
  | .receive _ _ | .isRunning _ | .allocate | .link _ _ | .dma _ _ | .packet | .noPacket
  | .inspect _ | .measure | .copy | .release | .tick _ | .leave | .start | .configure _
  | .halStart _ | .saveConfig _ | .halStop _ | .restoreConfig _ => isTrue trivial

/-- The driver of the board, with twice as many slots as descriptors. -/
def constructed : State 8 where
  running := false
  receiveEtherType := none
  slots := fun _ => ⟨.null, [], false⟩
  descriptors := []
  ends := ⟨none, none⟩
  pc := .idle
  trace := ⟨[], [], [], []⟩

theorem init_constructed : init constructed := ⟨rfl, fun _ => ⟨rfl, rfl⟩, rfl, rfl, rfl, rfl⟩

/-- `start`, and a buffer for every descriptor. -/
def started : List (Event 8) :=
  [.start, .configure true, .allocate, .allocate, .allocate, .allocate, .halStart true, .leave]

/-- `receive`, and a frame in two buffers. -/
def linkedTwo : List (Event 8) := [.receive 64 5, .isRunning 0, .link 0 3, .link 1 2]

/-- `stop`, up to `HAL_ETH_Init`. -/
def stopping : List (Event 8) := [.stop, .saveConfig true, .halStop true]

/-- The frame is received, and the driver is stopped. -/
def received : List (Event 8) :=
  started ++ [.dma 0 [1, 2, 3], .dma 1 [4, 5]] ++ linkedTwo ++
    [.packet, .inspect 0, .measure, .copy, .release, .leave] ++ stopping ++
    [.halInit true, .restoreConfig true]

theorem pool_guarantee_received :
    ∃ s, replay step constructed received = some s ∧ s.pc = .leaveStop true ∧
      s.trace.released = [[0, 1]] ∧ Guarantee s := by
  have hend : (replay step constructed received).map (fun s => (s.pc, s.trace.released)) =
      some (.leaveStop true, [[0, 1]]) := by
    decide +kernel
  have hguard : Guarded step (fun _ => Orderly) [] constructed received := by
    decide +kernel
  obtain ⟨s, hs, heq⟩ := Option.map_eq_some_iff.mp hend
  obtain ⟨hpc, hreleased⟩ := Prod.mk.inj heq
  exact ⟨s, hs, hpc, hreleased, (pool_guarantee (Run.of_replay init_constructed hguard hs)).2.1⟩

/-- `HAL_ETH_Init` fails, and the stop is tried again. -/
def stoppedTwice : List (Event 8) :=
  started ++ stopping ++ [.halInit false, .leave, .stop]

/-- `HAL_ETH_Init` fails while part of a frame has been linked. -/
def stoppedAmid : List (Event 8) :=
  started ++ linkedTwo ++ [.noPacket, .tick 5, .leave] ++ stopping ++ [.halInit false]

/-- The second stop succeeds and leaves slots allocated; the slots of the frame
    under construction are nobody's. -/
theorem pool_leaks :
    (∃ s : State 8, Run step anyStep init stoppedTwice.reverse s ∧ ¬ Guarantee s) ∧
    ∃ s : State 8, Run step anyStep init stoppedAmid.reverse s ∧ ¬ Guarantee s := by
  refine ⟨?_, ?_⟩
  · have hend : (replay step constructed stoppedTwice).map
        (fun s => (s.pc, (s.slots 0).allocated)) = some (.leaveStop true, true) := by
      decide +kernel
    obtain ⟨s, hs, heq⟩ := Option.map_eq_some_iff.mp hend
    obtain ⟨hpc, hallocated⟩ := Prod.mk.inj heq
    refine ⟨s, Run.of_replay init_constructed (guarded_anyStep _ _ _) hs, fun hg => ?_⟩
    rw [hg.stopped hpc 0] at hallocated
    cases hallocated
  · have hend : (replay step constructed stoppedAmid).map
        (fun s => ((s.slots 0).allocated, s.held)) = some (true, [3, 2]) := by
      decide +kernel
    obtain ⟨s, hs, heq⟩ := Option.map_eq_some_iff.mp hend
    obtain ⟨hallocated, hheld⟩ := Prod.mk.inj heq
    refine ⟨s, Run.of_replay init_constructed (guarded_anyStep _ _ _) hs, fun hg => ?_⟩
    have hmem := hg.leaked 0 hallocated
    rw [hheld] at hmem
    revert hmem
    decide

end EthernetReceive
end Hal
end NucleoBase
