/-
  NucleoBase.Hal.EthernetTransmitCorrect

  Who owns the transmit buffer, over every sequence of calls and every progress
  of the DMA between their steps: at most the one descriptor the driver keeps
  track of is with the DMA, and while it is the buffer is left alone.

  The ledger relates the descriptors to what has become of the packets; the
  four things that change it (handing over, completing, forgetting and
  resetting) keep it, and every other step only moves the call in progress.
-/

import NucleoBase.Hal.EthernetTransmit

namespace NucleoBase
namespace Hal
namespace EthernetTransmit

open Lib

/-! ## The ledger of packets -/

/-- The descriptors, of which `tracked` is the one the driver keeps track of,
    and what has become of the packets. -/
structure Ledger (tracked : Option Nat) (txDesc : Nat → Descriptor) (t : Trace) : Prop where
  owned : ∀ d, (txDesc d).own = true → tracked = some d
  /-- The tracked packet is unreported, and with the DMA or completed. -/
  packetOf : ∀ d, tracked = some d → ∃ i, (txDesc d).packet = some i ∧ i ∈ t.given ∧
    (∀ r ∈ t.reports, r.packet ≠ i) ∧ i ∉ t.cancelled ∧
    ((txDesc d).own = true ∧ i ∉ t.completed.map Prod.fst ∨
      (txDesc d).own = false ∧ (i, (txDesc d).error) ∈ t.completed)
  given : t.given.Nodup
  completed : (t.completed.map Prod.fst).Nodup ∧ ∀ p ∈ t.completed, p.1 ∈ t.given
  reports : (t.reports.map Report.packet).Nodup ∧
    ∀ r ∈ t.reports, (r.packet, r.failed) ∈ t.completed
  cancelled : ∀ i ∈ t.cancelled, i ∈ t.given
  settled : ∀ p ∈ t.completed, (∃ r ∈ t.reports, r.packet = p.1) ∨ p.1 ∈ t.cancelled ∨
    ∃ d, tracked = some d ∧ (txDesc d).packet = some p.1

section Ledgers

variable {tracked : Option Nat} {txDesc : Nat → Descriptor} {t : Trace}

/-- A new packet is handed over while none is tracked. -/
theorem Ledger.handOver (l : Ledger none txDesc t) {d i : Nat} (hi : i ∉ t.given) :
    Ledger (some d) (Function.update txDesc d ⟨true, false, some i⟩)
      { t with given := t.given ++ [i] } where
  owned := by
    intro e he
    rcases eq_or_ne e d with rfl | hne
    · rfl
    · rw [Function.update_of_ne hne] at he
      exact absurd (l.owned e he) (by simp)
  packetOf := by
    rintro e ⟨⟩
    rw [Function.update_self]
    refine ⟨i, rfl, by simp, ?_, fun hc => hi (l.cancelled i hc), .inl ⟨rfl, ?_⟩⟩
    · rintro r hr rfl
      exact hi (l.completed.2 _ (l.reports.2 r hr))
    · intro hmem
      obtain ⟨p, hp, rfl⟩ := List.mem_map.mp hmem
      exact hi (l.completed.2 p hp)
  given := by
    refine List.nodup_append.mpr ⟨l.given, by simp, ?_⟩
    intro a ha b hb
    rcases List.mem_singleton.mp hb with rfl
    exact fun h => hi (h ▸ ha)
  completed := ⟨l.completed.1, fun p hp => List.mem_append_left _ (l.completed.2 p hp)⟩
  reports := l.reports
  cancelled := fun j hj => List.mem_append_left _ (l.cancelled j hj)
  settled := by
    intro p hp
    rcases l.settled p hp with hs | hs | ⟨e, he, -⟩
    · exact .inl hs
    · exact .inr (.inl hs)
    · cases he

/-- The DMA releases the descriptor it owns. -/
theorem Ledger.complete (l : Ledger tracked txDesc t) {d : Nat} (hd : (txDesc d).own = true)
    (error : Bool) :
    Ledger tracked (Function.update txDesc d { txDesc d with own := false, error := error })
      { t with completed := t.completed ++
        (txDesc d).packet.toList.map fun packet => (packet, error) } := by
  have htrack := l.owned d hd
  obtain ⟨i, hpacket, hgiven, hunreported, huncancelled, hstate⟩ := l.packetOf d htrack
  have hfresh : i ∉ t.completed.map Prod.fst := by
    rcases hstate with ⟨-, h⟩ | ⟨h, -⟩
    · exact h
    · rw [hd] at h
      cases h
  rw [hpacket]
  refine ⟨?_, ?_, l.given, ⟨?_, ?_⟩, ⟨l.reports.1, ?_⟩, l.cancelled, ?_⟩
  · intro e he
    rcases eq_or_ne e d with rfl | hne
    · rw [Function.update_self] at he
      cases he
    · rw [Function.update_of_ne hne] at he
      exact l.owned e he
  · intro e he
    obtain rfl : e = d := Option.some.inj (he.symm.trans htrack)
    rw [Function.update_self]
    exact ⟨i, hpacket, hgiven, hunreported, huncancelled, .inr ⟨rfl, by simp⟩⟩
  · simp only [Option.toList_some, List.map_cons, List.map_nil, List.map_append]
    refine List.nodup_append.mpr ⟨l.completed.1, by simp, ?_⟩
    intro a ha b hb
    rcases List.mem_singleton.mp hb with rfl
    exact fun h => hfresh (h ▸ ha)
  · intro p hp
    rcases List.mem_append.mp hp with hp | hp
    · exact l.completed.2 p hp
    · rcases List.mem_singleton.mp hp with rfl
      exact hgiven
  · exact fun r hr => List.mem_append_left _ (l.reports.2 r hr)
  · intro p hp
    have hkeep : ∀ e, ((Function.update txDesc d
        { txDesc d with own := false, error := error }) e).packet = (txDesc e).packet := by
      intro e
      rcases eq_or_ne e d with rfl | hne
      · rw [Function.update_self]
      · rw [Function.update_of_ne hne]
    simp only [hkeep]
    rcases List.mem_append.mp hp with hp | hp
    · exact l.settled p hp
    · rcases List.mem_singleton.mp hp with rfl
      exact .inr (.inr ⟨d, htrack, hpacket⟩)

/-- The error flag of the tracked packet, completed, is reported, and the packet
    forgotten. -/
theorem Ledger.forget {d : Nat} (l : Ledger (some d) txDesc t) (hd : (txDesc d).own = false)
    (call : Nat) :
    Ledger none txDesc { t with reports := t.reports ++
      (txDesc d).packet.toList.map fun packet => ⟨packet, call, (txDesc d).error⟩ } := by
  obtain ⟨i, hpacket, -, hunreported, -, hstate⟩ := l.packetOf d rfl
  have hcompleted : (i, (txDesc d).error) ∈ t.completed := by
    rcases hstate with ⟨h, -⟩ | ⟨-, h⟩
    · rw [hd] at h
      cases h
    · exact h
  rw [hpacket]
  refine ⟨?_, fun e he => (nomatch he), l.given, l.completed, ⟨?_, ?_⟩, l.cancelled, ?_⟩
  · intro e he
    obtain rfl : d = e := Option.some.inj (l.owned e he)
    rw [hd] at he
    cases he
  · simp only [Option.toList_some, List.map_cons, List.map_nil, List.map_append]
    refine List.nodup_append.mpr ⟨l.reports.1, by simp, ?_⟩
    intro a ha b hb
    rcases List.mem_singleton.mp hb with rfl
    obtain ⟨r, hr, rfl⟩ := List.mem_map.mp ha
    exact hunreported r hr
  · intro r hr
    rcases List.mem_append.mp hr with hr | hr
    · exact l.reports.2 r hr
    · rcases List.mem_singleton.mp hr with rfl
      exact hcompleted
  · intro p hp
    rcases l.settled p hp with ⟨r, hr, heq⟩ | hs | ⟨e, he, hpe⟩
    · exact .inl ⟨r, List.mem_append_left _ hr, heq⟩
    · exact .inr (.inl hs)
    · obtain rfl : d = e := Option.some.inj he
      rw [hpacket] at hpe
      exact .inl ⟨⟨i, call, (txDesc d).error⟩, by simp, Option.some.inj hpe⟩

/-- A reset takes every descriptor back and cancels the tracked packet. -/
theorem Ledger.reset (l : Ledger tracked txDesc t) :
    Ledger none (fun d => { txDesc d with own := false, error := false, packet := none })
      { t with cancelled := t.cancelled ++
        (tracked.bind fun d => (txDesc d).packet).toList } where
  owned := fun d hd => (nomatch hd)
  packetOf := fun d hd => (nomatch hd)
  given := l.given
  completed := l.completed
  reports := l.reports
  cancelled := by
    intro i hi
    rcases List.mem_append.mp hi with hi | hi
    · exact l.cancelled i hi
    · simp only [Option.mem_toList, Option.bind_eq_some_iff] at hi
      obtain ⟨d, hd, hpacket⟩ := hi
      obtain ⟨j, hj, hgiven, -⟩ := l.packetOf d hd
      rw [hpacket] at hj
      cases hj
      exact hgiven
  settled := by
    intro p hp
    rcases l.settled p hp with hs | hs | ⟨d, rfl, hpacket⟩
    · exact .inl hs
    · exact .inr (.inl (List.mem_append_left _ hs))
    · exact .inr (.inl (List.mem_append_right _ (by simp [hpacket])))

end Ledgers

/-! ## The call in progress -/

/-- The descriptor the driver keeps track of: the remembered one, or the one
    just queued. -/
def State.tracked (s : State) : Option Nat :=
  match s.pc with
  | .remember _ d => some d
  | _ => s.pendingTransmitDescriptor

/-- Nothing has changed for the earlier packet since the call began. -/
def State.Before (s : State) (c : Call) : Prop :=
  s.pendingTransmitDescriptor = c.pendingBefore ∧ s.remembered = c.earlier ∧
    s.txFrame = c.bufferBefore

/-- The packet remembered when the call began is no longer with the DMA. -/
def State.After (s : State) (c : Call) : Prop :=
  ∀ d i, (s.txDesc d).own = true → c.earlier = some i → (s.txDesc d).packet ≠ some i

/-- The call has not given its packet to the DMA. -/
def State.Fresh (s : State) (c : Call) : Prop :=
  c.id ∉ s.trace.given ∧ c.id < s.calls ∧ ∀ i, c.earlier = some i → i < c.id

/-- The remembered descriptor carries the call's own packet. -/
def State.Own (s : State) (c : Call) : Prop :=
  ∃ d, s.pendingTransmitDescriptor = some d ∧ (s.txDesc d).packet = some c.id

def State.WaitOk (s : State) (c : Call) : Wait → Prop
  | .earlier => s.Before c ∧ s.Fresh c
  | .own => s.After c ∧ s.Own c

/-- What holds where the call in progress stands. -/
def State.PcOk (s : State) : Pc → Prop
  | .running c => s.Before c ∧ s.Fresh c
  | .wait w c | .owned w c | .overdue w c => s.WaitOk c w
  | .readError w c => s.WaitOk c w ∧
      ∃ d, s.pendingTransmitDescriptor = some d ∧ (s.txDesc d).own = false
  | .forget w c failed => s.WaitOk c w ∧
      ∃ d, s.pendingTransmitDescriptor = some d ∧ (s.txDesc d).own = false ∧
        (s.txDesc d).error = failed
  | .copyFrame c | .writeSource c | .queue c => s.pendingTransmitDescriptor = none ∧ s.Fresh c
  | .remember c d => s.pendingTransmitDescriptor = none ∧ s.After c ∧
      (s.txDesc d).packet = some c.id
  | .leave c result => (s.Before c ∨ s.After c) ∧
      (result = .success → (c.id, false) ∈ s.trace.completed)
  | _ => True

structure Inv (s : State) : Prop where
  ledger : Ledger s.tracked s.txDesc s.trace
  given : ∀ i ∈ s.trace.given, i < s.calls
  pc : s.PcOk s.pc

variable {s s' : State} {e : Event}

theorem Inv.initial (h0 : init s) : Inv s := by
  obtain ⟨-, hpending, hdesc, -, hpc, htrace⟩ := h0
  have htracked : s.tracked = none := by
    simp [State.tracked, hpc, hpending]
  refine ⟨?_, ?_, ?_⟩
  · rw [htracked, htrace]
    refine ⟨fun d hd => ?_, fun d hd => (nomatch hd), List.nodup_nil,
      ⟨List.nodup_nil, fun p hp => (nomatch hp)⟩, ⟨List.nodup_nil, fun r hr => (nomatch hr)⟩,
      fun i hi => (nomatch hi), fun p hp => (nomatch hp)⟩
    rw [hdesc] at hd
    cases hd
  · rw [htrace]
    exact fun i hi => (nomatch hi)
  · rw [hpc]
    trivial

/-- With nothing tracked nothing is with the DMA. -/
theorem Inv.none_owned (inv : Inv s) (h : s.tracked = none) (d : Nat) :
    (s.txDesc d).own = false := by
  cases hd : (s.txDesc d).own with
  | false => rfl
  | true =>
      have := inv.ledger.owned d hd
      rw [h] at this
      cases this

/-- A step that only moves the call in progress. -/
theorem Inv.goto (inv : Inv s) {r : Bool} {k : Nat} {q : Pc}
    (ht : State.tracked { s with running := r, curTxDesc := k, pc := q } = s.tracked)
    (hq : State.PcOk s q) : Inv { s with running := r, curTxDesc := k, pc := q } where
  ledger := by
    rw [ht]
    exact inv.ledger
  given := inv.given
  pc := by
    show State.PcOk { s with running := r, curTxDesc := k, pc := q } q
    cases q <;> exact hq

/-- The completion of a descriptor disturbs nobody's knowledge. -/
theorem Inv.complete (inv : Inv s) {d : Nat} (hd : (s.txDesc d).own = true) (error : Bool) :
    Inv (s.complete d error) := by
  have hkeep : ∀ e, ((s.complete d error).txDesc e).packet = (s.txDesc e).packet := by
    intro e
    rcases eq_or_ne e d with rfl | hne
    · simp [State.complete]
    · simp [State.complete, hne]
  have hown : ∀ e, ((s.complete d error).txDesc e).own = true → (s.txDesc e).own = true := by
    intro e he
    rcases eq_or_ne e d with rfl | hne
    · exact hd
    · simpa [State.complete, hne] using he
  have hfree : ∀ e, (s.txDesc e).own = false → (s.complete d error).txDesc e = s.txDesc e := by
    intro e he
    have hne : e ≠ d := by
      rintro rfl
      rw [hd] at he
      cases he
    simp [State.complete, hne]
  have hbefore : ∀ c, s.Before c → (s.complete d error).Before c := by
    intro c hb
    refine ⟨hb.1, ?_, hb.2.2⟩
    rw [← hb.2.1]
    simp only [State.remembered, hkeep]
    rfl
  have hafter : ∀ c, s.After c → (s.complete d error).After c := by
    intro c ha e i he hi
    rw [hkeep]
    exact ha e i (hown e he) hi
  have hwait : ∀ c w, s.WaitOk c w → (s.complete d error).WaitOk c w := by
    intro c w hw
    cases w with
    | earlier => exact ⟨hbefore c hw.1, hw.2⟩
    | own =>
        obtain ⟨ha, e, he, hp⟩ := hw
        exact ⟨hafter c ha, e, he, by rwa [hkeep]⟩
  refine ⟨inv.ledger.complete hd error, inv.given, ?_⟩
  have hpc := inv.pc
  show (s.complete d error).PcOk s.pc
  cases hcases : s.pc <;> rw [hcases] at hpc
  case running c => exact ⟨hbefore c hpc.1, hpc.2⟩
  case wait w c => exact hwait c w hpc
  case owned w c => exact hwait c w hpc
  case overdue w c => exact hwait c w hpc
  case readError w c =>
    obtain ⟨hw, e, he, ho⟩ := hpc
    exact ⟨hwait c w hw, e, he, by rwa [hfree e ho]⟩
  case forget w c failed =>
    obtain ⟨hw, e, he, ho, hf⟩ := hpc
    exact ⟨hwait c w hw, e, he, by rwa [hfree e ho], by rwa [hfree e ho]⟩
  case copyFrame c => exact hpc
  case writeSource c => exact hpc
  case queue c => exact hpc
  case remember c e =>
    obtain ⟨hp, ha, he⟩ := hpc
    exact ⟨hp, hafter c ha, by rwa [hkeep]⟩
  case leave c result =>
    refine ⟨hpc.1.imp (hbefore c) (hafter c), fun hr => ?_⟩
    exact List.mem_append_left _ (hpc.2 hr)
  all_goals trivial

/-- A wait that fails leaves the earlier packet as it was, or it is not the
    earlier packet that is waited for. -/
theorem State.WaitOk.before_or_after {c : Call} {w : Wait} (h : s.WaitOk c w) :
    s.Before c ∨ s.After c := by
  cases w with
  | earlier => exact .inl h.1
  | own => exact .inr h.1

theorem Inv.transmit (inv : Inv s) {frame : List UInt8} {timeout : Int} {q : Pc}
    (hpc : s.pc = .idle)
    (hq : q = .leave (s.newCall frame timeout) .invalidArgument ∨
      q = .running (s.newCall frame timeout)) :
    Inv { s with calls := s.calls + 1, pc := q } := by
  have hbefore : State.Before { s with calls := s.calls + 1, pc := q }
      (s.newCall frame timeout) := ⟨rfl, rfl, rfl⟩
  have htracked : s.tracked = s.pendingTransmitDescriptor := by
    simp only [State.tracked, hpc]
  have hfresh : State.Fresh { s with calls := s.calls + 1, pc := q }
      (s.newCall frame timeout) := by
    refine ⟨fun hmem => Nat.lt_irrefl _ (inv.given _ hmem), Nat.lt_succ_self _, fun i hi => ?_⟩
    simp only [State.newCall, State.remembered, Option.bind_eq_some_iff] at hi
    obtain ⟨d, hd, hpacket⟩ := hi
    obtain ⟨j, hj, hgiven, -⟩ := inv.ledger.packetOf d (htracked.trans hd)
    rw [hpacket] at hj
    cases hj
    exact inv.given i hgiven
  have hsame : State.tracked { s with calls := s.calls + 1, pc := q } = s.tracked := by
    rcases hq with rfl | rfl <;> exact htracked.symm
  refine ⟨?_, fun i hi => Nat.lt_succ_of_lt (inv.given i hi), ?_⟩
  · rw [hsame]
    exact inv.ledger
  · rcases hq with rfl | rfl
    · exact ⟨.inl hbefore, fun h => nomatch h⟩
    · exact ⟨hbefore, hfresh⟩

/-- The end of a wait: the packet is reported and forgotten. -/
theorem Inv.forget (inv : Inv s) {w : Wait} {c : Call} {failed : Bool}
    (hpc : s.pc = .forget w c failed) : Inv (s.forget w c failed) := by
  have hok := inv.pc
  rw [hpc] at hok
  obtain ⟨hw, d, hd, hown, rfl⟩ := hok
  have htracked : s.tracked = some d := by
    simp only [State.tracked, hpc, hd]
  have hledger := inv.ledger
  rw [htracked] at hledger
  have hnew := hledger.forget hown c.id
  have hremembered : s.remembered = (s.txDesc d).packet := by
    simp only [State.remembered, hd, Option.bind_some]
  rw [← hremembered] at hnew
  have hpcs : (s.forget w c (s.txDesc d).error).tracked = none := by
    simp only [State.tracked, State.forget]
    cases (s.txDesc d).error <;> cases w <;> rfl
  have hafter : (s.forget w c (s.txDesc d).error).After c := by
    intro e i he
    have := hnew.owned e he
    cases this
  refine ⟨?_, inv.given, ?_⟩
  · rw [hpcs]
    exact hnew
  · obtain ⟨i, hpacket, -, -, -, hstate⟩ := hledger.packetOf d rfl
    cases herror : (s.txDesc d).error with
    | true =>
        rw [herror] at hafter
        exact ⟨.inr hafter, fun h => nomatch h⟩
    | false =>
        rw [herror] at hafter
        cases w with
        | earlier => exact ⟨rfl, hw.2⟩
        | own =>
            refine ⟨.inr hafter, fun _ => ?_⟩
            obtain ⟨-, e, he, hpe⟩ := hw
            obtain rfl : d = e := Option.some.inj (hd.symm.trans he)
            rw [hpacket] at hpe
            cases hpe
            rcases hstate with ⟨h, -⟩ | ⟨-, h⟩
            · rw [hown] at h
              cases h
            · rwa [herror] at h

/-- The frame is handed to the DMA while nothing else is. -/
theorem Inv.handOver (inv : Inv s) {c : Call} (hpc : s.pc = .queue c) : Inv (s.handOver c) := by
  have hok := inv.pc
  rw [hpc] at hok
  obtain ⟨hpending, hid, hcalls, hearlier⟩ := hok
  have htracked : s.tracked = none := by
    simp only [State.tracked, hpc, hpending]
  have hledger := inv.ledger
  rw [htracked] at hledger
  refine ⟨hledger.handOver hid, ?_, hpending, ?_, ?_⟩
  · intro i hi
    rcases List.mem_append.mp hi with hi | hi
    · exact inv.given i hi
    · rcases List.mem_singleton.mp hi with rfl
      exact hcalls
  · intro d i hd hi
    have hlt := hearlier i hi
    rcases eq_or_ne d s.curTxDesc with rfl | hne
    · simp only [State.handOver, Function.update_self, ne_eq, Option.some.injEq]
      omega
    · simp only [State.handOver, Function.update_of_ne hne] at hd
      rw [inv.none_owned htracked] at hd
      cases hd
  · simp [State.handOver]

theorem Inv.reset (inv : Inv s) (hpc : s.pc = .halInit) : Inv s.reset := by
  have htracked : s.tracked = s.pendingTransmitDescriptor := by
    simp only [State.tracked, hpc]
  have hledger := inv.ledger.reset
  rw [htracked] at hledger
  exact ⟨hledger, inv.given, trivial⟩

theorem Inv.preserve (inv : Inv s) (hs : step s e = some s') : Inv s' := by
  have hok := inv.pc
  cases e with
  | transmit frame timeout =>
      simp only [step] at hs
      split at hs
      · rename_i hpc
        split at hs
        · cases hs
          exact inv.transmit hpc (.inl rfl)
        · cases hs
          exact inv.transmit hpc (.inr rfl)
      · cases hs
  | isRunning tick =>
      simp only [step] at hs
      split at hs
      · rename_i c hpc
        rw [hpc] at hok
        have ht : s.tracked = s.pendingTransmitDescriptor := by simp only [State.tracked, hpc]
        split at hs
        · cases hs
          exact inv.goto ht.symm hok
        · cases hs
          exact inv.goto ht.symm ⟨.inl hok.1, fun h => nomatch h⟩
      · cases hs
  | look =>
      simp only [step] at hs
      split at hs
      · rename_i w c hpc
        rw [hpc] at hok
        have ht : s.tracked = s.pendingTransmitDescriptor := by simp only [State.tracked, hpc]
        split at hs
        · rename_i hnone
          cases hs
          cases w with
          | earlier => exact inv.goto ht.symm ⟨hnone, hok.2⟩
          | own =>
              obtain ⟨-, d, hd, -⟩ := hok
              rw [hnone] at hd
              cases hd
        · rename_i d hd
          split at hs
          · cases hs
            exact inv.goto ht.symm hok
          · rename_i hown
            cases hs
            exact inv.goto ht.symm ⟨hok, d, hd, by simpa using hown⟩
      · cases hs
  | busError set =>
      simp only [step] at hs
      split at hs
      · rename_i w c hpc
        rw [hpc] at hok
        have ht : s.tracked = s.pendingTransmitDescriptor := by simp only [State.tracked, hpc]
        split at hs
        · cases hs
          exact inv.goto ht.symm ⟨State.WaitOk.before_or_after hok, fun h => nomatch h⟩
        · cases hs
          exact inv.goto ht.symm hok
      · cases hs
  | tick now =>
      simp only [step] at hs
      split at hs
      · rename_i w c hpc
        rw [hpc] at hok
        have ht : s.tracked = s.pendingTransmitDescriptor := by simp only [State.tracked, hpc]
        split at hs
        · cases hs
          exact inv.goto ht.symm ⟨State.WaitOk.before_or_after hok, fun h => nomatch h⟩
        · cases hs
          exact inv.goto ht.symm hok
      · cases hs
  | readError =>
      simp only [step] at hs
      split at hs
      · rename_i w c d hpc hd
        rw [hpc] at hok
        have ht : s.tracked = s.pendingTransmitDescriptor := by simp only [State.tracked, hpc]
        obtain ⟨hw, e, he, hown⟩ := hok
        rw [hd] at he
        cases he
        cases hs
        exact inv.goto ht.symm ⟨hw, d, hd, hown, rfl⟩
      · cases hs
  | forget =>
      simp only [step] at hs
      split at hs
      · rename_i w c failed hpc
        cases hs
        exact inv.forget hpc
      · cases hs
  | copyFrame =>
      simp only [step] at hs
      split at hs
      · rename_i c hpc
        rw [hpc] at hok
        have ht : s.tracked = s.pendingTransmitDescriptor := by simp only [State.tracked, hpc]
        cases hs
        refine ⟨?_, inv.given, hok⟩
        have hl := inv.ledger
        rwa [ht] at hl
      · cases hs
  | writeSource =>
      simp only [step] at hs
      split at hs
      · rename_i c hpc
        rw [hpc] at hok
        have ht : s.tracked = s.pendingTransmitDescriptor := by simp only [State.tracked, hpc]
        cases hs
        refine ⟨?_, inv.given, hok⟩
        have hl := inv.ledger
        rwa [ht] at hl
      · cases hs
  | transmitIt ok =>
      simp only [step] at hs
      split at hs
      · rename_i c hpc
        split at hs
        · cases hs
          exact inv.handOver hpc
        · rw [hpc] at hok
          have ht : s.tracked = s.pendingTransmitDescriptor := by simp only [State.tracked, hpc]
          cases hs
          refine inv.goto ht.symm ⟨.inr ?_, fun h => nomatch h⟩
          intro d i hd
          rw [inv.none_owned (ht.trans hok.1)] at hd
          cases hd
      · cases hs
  | remember =>
      simp only [step] at hs
      split at hs
      · rename_i c index hpc
        rw [hpc] at hok
        obtain ⟨-, ha, hpacket⟩ := hok
        have ht : s.tracked = some index := by simp only [State.tracked, hpc]
        have hl := inv.ledger
        rw [ht] at hl
        cases hs
        exact ⟨hl, inv.given, ha, index, rfl, hpacket⟩
      · cases hs
  | leave =>
      simp only [step] at hs
      split at hs
      · rename_i c result hpc
        have ht : s.tracked = s.pendingTransmitDescriptor := by simp only [State.tracked, hpc]
        cases hs
        exact inv.goto ht.symm trivial
      · cases hs
  | start =>
      simp only [step] at hs
      split at hs
      · rename_i hpc
        have ht : s.tracked = s.pendingTransmitDescriptor := by simp only [State.tracked, hpc]
        split at hs
        · cases hs
          exact inv
        · cases hs
          exact inv.goto ht.symm trivial
      · cases hs
  | halStart ok =>
      simp only [step] at hs
      split at hs
      · rename_i hpc
        have ht : s.tracked = s.pendingTransmitDescriptor := by simp only [State.tracked, hpc]
        cases hs
        exact inv.goto ht.symm trivial
      · cases hs
  | stop =>
      simp only [step] at hs
      split at hs
      · rename_i hpc
        have ht : s.tracked = s.pendingTransmitDescriptor := by simp only [State.tracked, hpc]
        split at hs
        · cases hs
          exact inv.goto ht.symm trivial
        · cases hs
          exact inv
      · cases hs
  | saveConfig ok =>
      simp only [step] at hs
      split at hs
      · rename_i hpc
        have ht : s.tracked = s.pendingTransmitDescriptor := by simp only [State.tracked, hpc]
        cases hs
        cases ok
        · exact inv.goto ht.symm trivial
        · exact inv.goto ht.symm trivial
      · cases hs
  | halStop ok =>
      simp only [step] at hs
      split at hs
      · rename_i hpc
        have ht : s.tracked = s.pendingTransmitDescriptor := by simp only [State.tracked, hpc]
        split at hs
        · cases hs
          exact inv.goto ht.symm trivial
        · cases hs
          exact inv.goto ht.symm trivial
      · cases hs
  | halInit ok =>
      simp only [step] at hs
      split at hs
      · rename_i hpc
        split at hs
        · cases hs
          exact inv.reset hpc
        · have ht : s.tracked = s.pendingTransmitDescriptor := by simp only [State.tracked, hpc]
          cases hs
          exact inv.goto ht.symm trivial
      · cases hs
  | restoreConfig ok =>
      simp only [step] at hs
      split at hs
      · rename_i hpc
        have ht : s.tracked = s.pendingTransmitDescriptor := by simp only [State.tracked, hpc]
        cases hs
        exact inv.goto ht.symm trivial
      · cases hs
  | complete d error =>
      simp only [step] at hs
      split at hs
      · rename_i hown
        cases hs
        exact inv.complete hown error
      · cases hs

theorem inv_of_run {h : List Event} (hrun : Run step anyStep init h s) : Inv s :=
  Run.invariant (fun _ h0 => Inv.initial h0) (fun _ _ _ inv hs => inv.preserve hs) hrun

/-! ## What the transmit path guarantees -/

/-- The guarantees of the transmit path at every moment. -/
structure Guarantee (s : State) : Prop where
  /-- The frame buffer is written only while no descriptor is with the DMA. -/
  buffer : ∀ e s', step s e = some s' → e.writesBuffer = true →
    ∀ d, (s.txDesc d).own = false
  buffer_only : ∀ e s', step s e = some s' → e.writesBuffer = false → s'.txFrame = s.txFrame
  /-- A call succeeds only after the DMA has released its own packet without error. -/
  success : ∀ c, s.pc = .leave c .success → (c.id, false) ∈ s.trace.completed
  /-- No packet is given to the DMA twice, or completed twice. -/
  given_once : s.trace.given.Nodup
  completed_once : (s.trace.completed.map Prod.fst).Nodup
  /-- A call that returns while the earlier packet is still with the DMA leaves the
      buffer and the remembered descriptor as it found them. -/
  untouched : ∀ c result d i, s.pc = .leave c result → (s.txDesc d).own = true →
    (s.txDesc d).packet = some i → c.earlier = some i →
    s.txFrame = c.bufferBefore ∧ s.pendingTransmitDescriptor = c.pendingBefore
  /-- No packet's error flag is reported twice, and what is reported is its flag. -/
  reported_once : (s.trace.reports.map Report.packet).Nodup
  reported_flag : ∀ r ∈ s.trace.reports, (r.packet, r.failed) ∈ s.trace.completed
  /-- A completed packet has been reported, or a stop has intervened, or it is the
      one that the driver keeps track of ... -/
  settled : ∀ p ∈ s.trace.completed, (∃ r ∈ s.trace.reports, r.packet = p.1) ∨
    p.1 ∈ s.trace.cancelled ∨ ∃ d, s.tracked = some d ∧ (s.txDesc d).packet = some p.1
  /-- ... which the next call to reach the wait reports. -/
  reported_next : ∀ d i frame timeout tick, s.pc = .idle → s.running = true →
    s.pendingTransmitDescriptor = some d → (s.txDesc d).packet = some i →
    (s.txDesc d).own = false → ethernetHeaderSize ≤ frame.length →
    frame.length ≤ maxFrameSize → 0 ≤ timeout →
    ∃ s', replay step s [.transmit frame timeout, .isRunning tick, .look, .readError, .forget] =
        some s' ∧
      s'.trace.reports = s.trace.reports ++ [⟨i, s.calls, (s.txDesc d).error⟩]
  /-- A call that reports an error flag returns an error. -/
  reported_error : ∀ e s' r, step s e = some s' → s'.trace.reports = s.trace.reports ++ [r] →
    r.failed = true → ∃ c, c.id = r.call ∧ s'.pc = .leave c .ioError

/-- What a report says is what the reporting call returns. -/
theorem reported_error {r : Report} (hs : step s e = some s')
    (hr : s'.trace.reports = s.trace.reports ++ [r]) (hf : r.failed = true) :
    ∃ c, c.id = r.call ∧ s'.pc = .leave c .ioError := by
  have hsame : s'.trace.reports ≠ s.trace.reports := by
    rw [hr]
    simp
  cases e with
  | forget =>
      simp only [step] at hs
      split at hs
      · rename_i w c failed hpc
        cases hs
        simp only [State.forget] at hr
        have hlist := List.append_cancel_left hr
        rcases hrem : s.remembered with - | i
        · rw [hrem] at hlist
          cases hlist
        · rw [hrem] at hlist
          cases hlist
          simp only at hf
          subst hf
          exact ⟨c, rfl, rfl⟩
      · cases hs
  | _ =>
      simp only [step] at hs
      refine absurd ?_ hsame
      repeat' split at hs
      all_goals first
        | (cases hs; rfl)
        | cases hs

/-- The driver as constructed, with an empty buffer. -/
def constructed : State :=
  ⟨false, none, List.replicate 14 0, [2, 0, 0, 0, 0, 1], fun _ => ⟨false, false, none⟩, 0, 0,
    .idle, ⟨[], [], [], []⟩⟩

end EthernetTransmit
end Hal
end NucleoBase
