/-
  NucleoBase.Backend.SteadyTicks

  The steady clock's tick count (backend.cpp): ThreadX counts ticks in a word
  of 32 bits, and `extend_tick_counter` adds the wraps it has seen.

  `steady_ticks` runs with interrupts disabled, so a call is one event.  The
  true count is part of the state; the code reads its low 32 bits.
-/

import NucleoBase.Lib.Run
import Mathlib.Data.List.Chain
import Mathlib.Tactic.Ring

namespace NucleoBase
namespace Backend
namespace SteadyTicks

open Lib

/-! ## The model -/

/-- The two references `extend_tick_counter` writes, and its result. -/
structure Extended where
  epoch : UInt64
  previous : UInt32
  result : UInt64
  deriving DecidableEq, Repr

/-- `extend_tick_counter`. -/
def extendTickCounter (epoch : UInt64) (previous current : UInt32) : Extended :=
  let epoch := if current < previous then epoch + 4294967296 else epoch
  { epoch, previous := current, result := epoch ||| current.toUInt64 }

/-- Who calls `steady_ticks`. -/
inductive Caller (Thread : Type*)
  | thread (t : Thread)
  | rolloverTimer
  deriving DecidableEq, Repr

/-- A finished call of `steady_ticks`. -/
structure Sample (Thread : Type*) where
  caller : Caller Thread
  /-- The true count at the start of the epoch the code counts from. -/
  origin : Nat
  time : Nat
  value : UInt64
  deriving DecidableEq, Repr

structure State (Thread : Type*) where
  /-- The true count of ticks. -/
  time : Nat
  tickEpoch : UInt64
  lastTick : UInt32
  /-- The true count that the code counts from. -/
  origin : Nat
  /-- The true count when the code last read it. -/
  sampled : Nat
  /-- Most recent first. -/
  returned : List (Sample Thread)
  deriving DecidableEq, Repr

inductive Event (Thread : Type*)
  | elapse (ticks : Nat)
  | initializeTicks
  | sample (caller : Caller Thread)
  deriving DecidableEq, Repr

variable {Thread : Type*}

/-- The value of `tx_time_get`, cut down to 32 bits. -/
def State.currentTick (s : State Thread) : UInt32 := s.time.toUInt32

/-- What `initialize` does to the tick count. -/
def State.initializeTicks (s : State Thread) : State Thread :=
  { s with
    lastTick := s.currentTick
    tickEpoch := 0
    origin := s.time / 2 ^ 32 * 2 ^ 32
    sampled := s.time }

/-- `steady_ticks`. -/
def State.steadyTicks (s : State Thread) (caller : Caller Thread) : State Thread :=
  let extended := extendTickCounter s.tickEpoch s.lastTick s.currentTick
  { s with
    tickEpoch := extended.epoch
    lastTick := extended.previous
    sampled := s.time
    returned := ⟨caller, s.origin, s.time, extended.result⟩ :: s.returned }

def step (s : State Thread) : Event Thread → Option (State Thread)
  | .elapse ticks => some { s with time := s.time + ticks }
  | .initializeTicks => some s.initializeTicks
  | .sample caller => some (s.steadyTicks caller)

/-- The state after the first initialization, at any true count. -/
def init (s : State Thread) : Prop :=
  s = s.initializeTicks ∧ s.returned = []

/-- The code reads the count again before it has run through all 32 bits. -/
def frequent (_ : List (Event Thread)) (s : State Thread) : Event Thread → Prop
  | .sample _ => s.time - s.sampled < 2 ^ 32
  | _ => True

instance (h : List (Event Thread)) (s : State Thread) (e : Event Thread) :
    Decidable (frequent h s e) :=
  match e with
  | .elapse _ => isTrue trivial
  | .initializeTicks => isTrue trivial
  | .sample _ => inferInstanceAs (Decidable (_ < _))

/-! ## One extension -/

/-- The epoch and the previous sample of a count that was last read at `sampled`. -/
structure Counts (origin sampled : Nat) (epoch : UInt64) (previous : UInt32) : Prop where
  aligned : origin % 2 ^ 32 = 0
  start : origin ≤ sampled
  epoch : epoch.toNat = (sampled / 2 ^ 32 * 2 ^ 32 - origin) % 2 ^ 64
  previous : previous.toNat = sampled % 2 ^ 32

section Extend

variable {origin sampled time : Nat} {epoch : UInt64} {previous : UInt32}

theorem toNat_toUInt32 (n : Nat) : n.toUInt32.toNat = n % 2 ^ 32 := UInt32.toNat_ofNat'

/-- The samples are compared to find a wrap; a second one would go unseen. -/
theorem wrapped_iff (hle : sampled ≤ time) (hnear : time - sampled < 2 ^ 32)
    (hprevious : previous.toNat = sampled % 2 ^ 32) :
    time.toUInt32 < previous ↔ time / 2 ^ 32 = sampled / 2 ^ 32 + 1 := by
  rw [UInt32.lt_iff_toNat_lt, toNat_toUInt32, hprevious]
  omega

theorem block_le (hle : sampled ≤ time) (hnear : time - sampled < 2 ^ 32) :
    time / 2 ^ 32 = sampled / 2 ^ 32 ∨ time / 2 ^ 32 = sampled / 2 ^ 32 + 1 := by
  omega

/-- Extending keeps the epoch in step with the true count. -/
theorem extend_counts (h : Counts origin sampled epoch previous) (hle : sampled ≤ time)
    (hnear : time - sampled < 2 ^ 32) :
    Counts origin time (extendTickCounter epoch previous time.toUInt32).epoch
      (extendTickCounter epoch previous time.toUInt32).previous := by
  have hstart := h.start
  have haligned := h.aligned
  refine ⟨haligned, by omega, ?_, toNat_toUInt32 time⟩
  have hwrapped := wrapped_iff hle hnear h.previous
  show (if time.toUInt32 < previous then epoch + 4294967296 else epoch).toNat = _
  rcases block_le hle hnear with hsame | hnext
  · -- no wrap since the last sample
    have hnot : ¬ time.toUInt32 < previous := by
      rw [hwrapped]
      omega
    rw [if_neg hnot, hsame]
    exact h.epoch
  · have hadd : (4294967296 : UInt64).toNat = 2 ^ 32 := rfl
    rw [if_pos (hwrapped.mpr hnext), UInt64.toNat_add, h.epoch, hadd, Nat.mod_add_mod, hnext]
    congr 1
    omega

/-- The low bits do not overlap the epoch, so `|` adds them. -/
theorem or_eq (h : Counts origin sampled epoch previous) (hbound : sampled - origin < 2 ^ 64) :
    (epoch ||| previous.toUInt64).toNat = sampled - origin := by
  have haligned := h.aligned
  have hstart := h.start
  have hepoch : epoch.toNat = 2 ^ 32 * (sampled / 2 ^ 32 - origin / 2 ^ 32) := by
    rw [h.epoch, Nat.mod_eq_of_lt (by omega)]
    omega
  have hlow : sampled % 2 ^ 32 < 2 ^ 32 := Nat.mod_lt _ (by decide)
  rw [UInt64.toNat_or, UInt32.toNat_toUInt64, hepoch, h.previous,
    ← Nat.two_pow_add_eq_or_of_lt hlow]
  omega

theorem extend_result (h : Counts origin sampled epoch previous) (hle : sampled ≤ time)
    (hnear : time - sampled < 2 ^ 32) (hbound : time - origin < 2 ^ 64) :
    (extendTickCounter epoch previous time.toUInt32).result.toNat = time - origin :=
  or_eq (extend_counts h hle hnear) hbound

end Extend

/-! ## Runs -/

/-- The value is the true count since the origin, as far as 64 bits hold it. -/
def Sample.Exact (r : Sample Thread) : Prop :=
  r.time - r.origin < 2 ^ 64 → r.value.toNat = r.time - r.origin

/-- Between two samples of one epoch the value grows by the ticks that passed. -/
def Advances (later earlier : Sample Thread) : Prop :=
  later.origin = earlier.origin → later.time - later.origin < 2 ^ 64 →
    earlier.value ≤ later.value ∧
      later.value.toNat - earlier.value.toNat = later.time - earlier.time

/-- Between neighbours of one epoch, the upper half counts the wrap if there was one. -/
def CountsWrap (later earlier : Sample Thread) : Prop :=
  later.origin = earlier.origin → later.time - later.origin < 2 ^ 64 →
    later.value.toNat / 2 ^ 32 =
      earlier.value.toNat / 2 ^ 32 + (later.time / 2 ^ 32 - earlier.time / 2 ^ 32) ∧
    later.time / 2 ^ 32 - earlier.time / 2 ^ 32 ≤ 1

/-- What holds between the true count and the code's variables. -/
structure Inv (s : State Thread) : Prop where
  counts : Counts s.origin s.sampled s.tickEpoch s.lastTick
  sampled : s.sampled ≤ s.time
  /-- What has been returned was read before, in an epoch that began before. -/
  past : ∀ r ∈ s.returned, r.origin ≤ r.time ∧ r.time ≤ s.sampled ∧ r.origin % 2 ^ 32 = 0
  exact : ∀ r ∈ s.returned, r.Exact
  ordered : s.returned.Pairwise fun later earlier => earlier.time ≤ later.time
  /-- The last sample of this epoch is in the same block of 2^32 ticks as the last reading. -/
  block : ∀ r ∈ s.returned.head?, r.origin = s.origin → s.sampled / 2 ^ 32 = r.time / 2 ^ 32
  wraps : s.returned.IsChain CountsWrap

section Steps

variable {s s' : State Thread} {e : Event Thread} {h : List (Event Thread)}

theorem Inv.initializeTicks (hinv : Inv s) : Inv s.initializeTicks where
  counts := by
    refine ⟨?_, ?_, ?_, toNat_toUInt32 s.time⟩
    · show s.time / 2 ^ 32 * 2 ^ 32 % 2 ^ 32 = 0
      omega
    · show s.time / 2 ^ 32 * 2 ^ 32 ≤ s.time
      omega
    · show (0 : UInt64).toNat = (s.time / 2 ^ 32 * 2 ^ 32 - s.time / 2 ^ 32 * 2 ^ 32) % 2 ^ 64
      rw [Nat.sub_self]
      rfl
  sampled := Nat.le_refl _
  past r hr := by
    obtain ⟨horigin, htime, haligned⟩ := hinv.past r hr
    exact ⟨horigin, Nat.le_trans htime hinv.sampled, haligned⟩
  exact := hinv.exact
  ordered := hinv.ordered
  block r hr horigin := by
    -- an epoch that begins at the same origin has not left its first block
    have hmem : r ∈ s.returned := List.mem_of_mem_head? hr
    obtain ⟨hstart, htime, -⟩ := hinv.past r hmem
    have hsampled := hinv.sampled
    change r.origin = s.time / 2 ^ 32 * 2 ^ 32 at horigin
    show s.time / 2 ^ 32 = r.time / 2 ^ 32
    omega
  wraps := hinv.wraps

theorem Inv.elapse (hinv : Inv s) (ticks : Nat) : Inv { s with time := s.time + ticks } where
  counts := hinv.counts
  sampled := Nat.le_trans hinv.sampled (Nat.le_add_right _ _)
  past := hinv.past
  exact := hinv.exact
  ordered := hinv.ordered
  block := hinv.block
  wraps := hinv.wraps

/-- The new sample and the one before it. -/
theorem Inv.countsWrap (hinv : Inv s) (hnear : s.time - s.sampled < 2 ^ 32) (caller : Caller Thread)
    {r : Sample Thread} (hr : r ∈ s.returned.head?) :
    CountsWrap ⟨caller, s.origin, s.time,
      (extendTickCounter s.tickEpoch s.lastTick s.currentTick).result⟩ r := by
  intro horigin hbound
  change s.origin = r.origin at horigin
  change s.time - s.origin < 2 ^ 64 at hbound
  have hmem : r ∈ s.returned := List.mem_of_mem_head? hr
  obtain ⟨hstart, htime, haligned⟩ := hinv.past r hmem
  have hsampled := hinv.sampled
  have hblock := hinv.block r hr horigin.symm
  have hbefore : r.value.toNat = r.time - r.origin := hinv.exact r hmem (by omega)
  have hnow := extend_result hinv.counts hsampled hnear hbound
  show (extendTickCounter s.tickEpoch s.lastTick s.time.toUInt32).result.toNat / 2 ^ 32 = _ ∧ _
  rw [hnow, hbefore]
  show (s.time - s.origin) / 2 ^ 32 =
    (r.time - r.origin) / 2 ^ 32 + (s.time / 2 ^ 32 - r.time / 2 ^ 32) ∧
    s.time / 2 ^ 32 - r.time / 2 ^ 32 ≤ 1
  omega

theorem Inv.steadyTicks (hinv : Inv s) (hnear : s.time - s.sampled < 2 ^ 32)
    (caller : Caller Thread) : Inv (s.steadyTicks caller) where
  counts := extend_counts hinv.counts hinv.sampled hnear
  sampled := Nat.le_refl _
  past r hr := by
    have haligned := hinv.counts.aligned
    have hstart := hinv.counts.start
    have hsampled := hinv.sampled
    rcases List.mem_cons.mp hr with rfl | hr
    · exact ⟨by show s.origin ≤ s.time; omega, Nat.le_refl _, haligned⟩
    · obtain ⟨horigin, htime, halign⟩ := hinv.past r hr
      exact ⟨horigin, Nat.le_trans htime hsampled, halign⟩
  exact r hr := by
    rcases List.mem_cons.mp hr with rfl | hr
    · exact extend_result hinv.counts hinv.sampled hnear
    · exact hinv.exact r hr
  ordered := by
    refine List.pairwise_cons.mpr ⟨fun r hr => ?_, hinv.ordered⟩
    exact Nat.le_trans (hinv.past r hr).2.1 hinv.sampled
  block r hr _ := by
    have heq : r = _ := (Option.mem_some.mp hr).symm
    subst heq
    rfl
  wraps := by
    refine List.isChain_cons.mpr ⟨fun r hr => ?_, hinv.wraps⟩
    exact hinv.countsWrap hnear caller hr

theorem inv_of_init (hinit : init s) : Inv s := by
  obtain ⟨heq, hnil⟩ := hinit
  have hempty : ∀ r, r ∉ s.returned := fun r hr => by simp [hnil] at hr
  rw [heq]
  refine ⟨?_, Nat.le_refl _, fun r hr => absurd hr (hempty r), fun r hr => absurd hr (hempty r),
    ?_, fun r hr => absurd (List.mem_of_mem_head? hr) (hempty r), ?_⟩
  · refine ⟨?_, ?_, ?_, toNat_toUInt32 s.time⟩
    · show s.time / 2 ^ 32 * 2 ^ 32 % 2 ^ 32 = 0
      omega
    · show s.time / 2 ^ 32 * 2 ^ 32 ≤ s.time
      omega
    · show (0 : UInt64).toNat = (s.time / 2 ^ 32 * 2 ^ 32 - s.time / 2 ^ 32 * 2 ^ 32) % 2 ^ 64
      rw [Nat.sub_self]
      rfl
  · show s.returned.Pairwise _
    rw [hnil]
    exact List.Pairwise.nil
  · show s.returned.IsChain _
    rw [hnil]
    exact List.isChain_nil

theorem Inv.step (hinv : Inv s) (hguard : frequent h s e) (hs : step s e = some s') : Inv s' := by
  cases e with
  | elapse ticks =>
      obtain rfl := Option.some.inj hs
      exact hinv.elapse ticks
  | initializeTicks =>
      obtain rfl := Option.some.inj hs
      exact hinv.initializeTicks
  | sample caller =>
      obtain rfl := Option.some.inj hs
      exact hinv.steadyTicks hguard caller

theorem inv_of_run (hrun : Run step frequent init h s) : Inv s := by
  induction hrun with
  | start hinit => exact inv_of_init hinit
  | step _ hguard hs ih => exact ih.step hguard hs

/-- Samples whose values are exact advance with the true count. -/
theorem advances_of_exact {later earlier : Sample Thread} (hlater : later.Exact)
    (hearlier : earlier.Exact) (hstart : earlier.origin ≤ earlier.time)
    (hle : earlier.time ≤ later.time) : Advances later earlier := by
  intro horigin hbound
  have hnow := hlater hbound
  have hbefore := hearlier (by omega)
  rw [UInt64.le_iff_toNat_le]
  omega

end Steps

/-! ## The result -/

/-- Whoever samples, in every run that samples often enough: a value below 2^64 is the true
    count since the origin of its epoch; two values of one epoch differ by the ticks between
    them, so they never decrease; and a wrap between neighbours is counted once. -/
theorem steadyTicks_exact {h : List (Event Thread)} {s : State Thread}
    (hrun : Run step frequent init h s) :
    (∀ r ∈ s.returned, r.Exact) ∧
      s.returned.Pairwise Advances ∧
      s.returned.IsChain CountsWrap := by
  have hinv := inv_of_run hrun
  refine ⟨hinv.exact, ?_, hinv.wraps⟩
  refine hinv.ordered.imp_of_mem ?_
  intro later earlier hlater hearlier hle
  exact advances_of_exact (hinv.exact later hlater) (hinv.exact earlier hearlier)
    (hinv.past earlier hearlier).1 hle

/-- A count one tick before its first wrap, and two callers after it. -/
def beforeWrap : State Nat :=
  ⟨4294967295, 0, 4294967295, 0, 4294967295, []⟩

def acrossWrap : List (Event Nat) :=
  [.sample (.thread 0), .elapse 1, .sample .rolloverTimer, .sample (.thread 1)]

theorem steadyTicks_exact_across :
    (replay step beforeWrap acrossWrap).map (fun s => s.returned.map fun r => r.value) =
      some [4294967296, 4294967296, 4294967295] ∧
    ∀ s ∈ replay step beforeWrap acrossWrap, (∀ r ∈ s.returned, r.Exact) ∧
      s.returned.Pairwise Advances ∧ s.returned.IsChain CountsWrap := by
  refine ⟨by decide, fun s hs => ?_⟩
  exact steadyTicks_exact
    (Run.of_replay (show init beforeWrap from ⟨by decide, rfl⟩) (by decide) hs)

end SteadyTicks
end Backend
end NucleoBase
