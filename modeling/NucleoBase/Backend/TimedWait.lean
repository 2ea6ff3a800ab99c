/-
  NucleoBase.Backend.TimedWait

  Waiting until an absolute time and sleeping (backend.cpp, sleep.cpp): the
  conversions of deadlines and durations to ThreadX ticks, the loop of
  `wait_until` around a wait with a relative timeout, and the loop that sleeps
  in chunks.

  Conversions are in `Wrapped`, word by word as the code computes them.  The
  clock and the results of the underlying waits are streams; the n-th round of
  `wait_until` takes the n-th of both.
-/

import NucleoBase.Lib.FixedWidth
import Mathlib.Data.Nat.Basic

namespace NucleoBase
namespace Backend
namespace TimedWait

open Lib

/-! ## Durations -/

/-- `NANOSECONDS_PER_SECOND`. -/
def nanosecondsPerSecond : Nat := 1000000000

/-- `TX_TIMER_TICKS_PER_SECOND`. -/
def ticksPerSecond : Nat := 1000

/-- `TX_NO_WAIT`. -/
def noWait : Nat := 0

/-- `TX_WAIT_FOREVER`. -/
def waitForever : Nat := 4294967295

/-- `MAX_FINITE_WAIT`. -/
def maximumFiniteWait : Nat := 4294967294

/-- The whole seconds and the rest of a duration, in ticks rounded up. -/
def ticksOf (nanoseconds : Nat) : Wrapped Nat := do
  let scaled ← Wrapped.mul 64 (nanoseconds % nanosecondsPerSecond) ticksPerSecond
  let raised ← Wrapped.add 64 scaled nanosecondsPerSecond
  let rounded ← Wrapped.sub 64 raised 1
  let whole ← Wrapped.mul 64 (nanoseconds / nanosecondsPerSecond) ticksPerSecond
  Wrapped.add 64 whole (rounded / nanosecondsPerSecond)

/-- `duration_to_ticks`. -/
def durationToTicks (nanoseconds : Nat) : Wrapped Nat := do
  if nanoseconds = 0 then pure noWait
  else if waitForever / ticksPerSecond < nanoseconds / nanosecondsPerSecond then
    pure maximumFiniteWait
  else do
    let ticks ← ticksOf nanoseconds
    pure (min ticks maximumFiniteWait)

/-- The ticks that a duration takes, the last one counted whole. -/
def ceilTicks (nanoseconds : Nat) : Nat :=
  (nanoseconds * ticksPerSecond + (nanosecondsPerSecond - 1)) / nanosecondsPerSecond

theorem ticksOf_eq {ns : Nat} (h : ns < 2 ^ 64) : ticksOf ns = pure (ceilTicks ns) := by
  have hrest : ns % 1000000000 < 1000000000 := Nat.mod_lt _ (by decide)
  have hwhole : ns / 1000000000 < 2 ^ 64 / 1000000000 + 1 := by omega
  rw [ticksOf]
  simp only [nanosecondsPerSecond, ticksPerSecond]
  rw [Wrapped.mul_eq (by omega), pure_bind, Wrapped.add_eq (by omega), pure_bind,
    Wrapped.sub_eq (by omega) (by omega), pure_bind, Wrapped.mul_eq (by omega), pure_bind,
    Wrapped.add_eq (by omega), ceilTicks, nanosecondsPerSecond, ticksPerSecond]
  congr 1
  omega

/-- The conversion is exact up to the longest finite wait, for every 64-bit duration. -/
theorem durationToTicks_eq {ns : Nat} (h : ns < 2 ^ 64) :
    durationToTicks ns = pure (min (ceilTicks ns) maximumFiniteWait) := by
  rw [durationToTicks]
  by_cases hzero : ns = 0
  · rw [if_pos hzero, hzero]
    rfl
  rw [if_neg hzero]
  by_cases hlong : waitForever / ticksPerSecond < ns / nanosecondsPerSecond
  · have hcap : maximumFiniteWait ≤ ceilTicks ns := by
      simp only [waitForever, ticksPerSecond, nanosecondsPerSecond, ceilTicks,
        maximumFiniteWait] at hlong ⊢
      omega
    rw [if_pos hlong, Nat.min_eq_right hcap]
  · rw [if_neg hlong, ticksOf_eq h, pure_bind]

theorem ceilTicks_pos {ns : Nat} (h : 0 < ns) : 0 < ceilTicks ns := by
  simp only [ceilTicks, nanosecondsPerSecond, ticksPerSecond]
  omega

theorem ceilTicks_mono {a b : Nat} (h : a ≤ b) : ceilTicks a ≤ ceilTicks b :=
  Nat.div_le_div_right (Nat.add_le_add_right (Nat.mul_le_mul_right _ h) _)

/-- Whole ticks that are as many as counted last at least as long. -/
theorem le_ceilTicks_mul (ns : Nat) :
    ns ≤ ceilTicks ns * (nanosecondsPerSecond / ticksPerSecond) := by
  simp only [ceilTicks, nanosecondsPerSecond, ticksPerSecond]
  omega

/-! ## Deadlines -/

/-- `TimePoint`. -/
structure TimePoint where
  seconds : Int
  nanoseconds : Int
  deriving DecidableEq, Repr

/-- `std::numeric_limits<std::int64_t>::max()`. -/
def maximum : Int := 9223372036854775807

/-- `timespec_to_nanoseconds`. -/
def timespecToNanoseconds (time : TimePoint) : Wrapped Int := do
  if maximum / nanosecondsPerSecond ≤ time.seconds then pure maximum
  else if time.seconds < 0 then pure (-1)
  else do
    let whole ← Wrapped.signed 64 (time.seconds * nanosecondsPerSecond)
    Wrapped.signed 64 (whole + max 0 (min time.nanoseconds (nanosecondsPerSecond - 1)))

/-- `deadline_wait_ticks`, with what the clock says. -/
def deadlineWaitTicks (deadline : Option TimePoint) (now : Int) : Wrapped Nat :=
  match deadline with
  | none => pure noWait
  | some time => do
      let due ← timespecToNanoseconds time
      if due ≤ now then pure noWait
      else do
        let remaining ← Wrapped.signed 64 (due - now)
        let ticks ← durationToTicks remaining.toNat
        pure (min ticks maximumFiniteWait)

/-- A time as a caller writes it down. -/
structure TimePoint.Normalized (time : TimePoint) : Prop where
  low : 0 ≤ time.nanoseconds
  high : time.nanoseconds < nanosecondsPerSecond

/-- The nanoseconds of a time, saturated at the largest count. -/
def TimePoint.due (time : TimePoint) : Int :=
  min (time.seconds * nanosecondsPerSecond + time.nanoseconds) maximum

/-- The time that the code waits for. -/
def target (time : TimePoint) : Int := (timespecToNanoseconds time).value

theorem timespec_spec {time : TimePoint} (h : time.Normalized) :
    timespecToNanoseconds time = pure (target time) ∧ time.due ≤ target time ∧
      -1 ≤ target time ∧ target time ≤ maximum := by
  obtain ⟨hlow, hhigh⟩ := h
  simp only [nanosecondsPerSecond] at hhigh
  by_cases hlarge : maximum / nanosecondsPerSecond ≤ time.seconds
  · have heq : timespecToNanoseconds time = pure maximum := if_pos hlarge
    have htarget : target time = maximum := by rw [target, heq, Wrapped.value_pure]
    rw [heq, htarget]
    exact ⟨rfl, Int.min_le_right _ _, by decide, Int.le_refl _⟩
  by_cases hnegative : time.seconds < 0
  · have heq : timespecToNanoseconds time = pure (-1) :=
      (if_neg hlarge).trans (if_pos hnegative)
    have htarget : target time = -1 := by rw [target, heq, Wrapped.value_pure]
    rw [heq, htarget]
    refine ⟨rfl, ?_, Int.le_refl _, by decide⟩
    simp only [TimePoint.due, nanosecondsPerSecond, maximum]
    omega
  · have hseconds : time.seconds < 9223372036 := by
      simp only [maximum, nanosecondsPerSecond] at hlarge
      omega
    have hclamp : max 0 (min time.nanoseconds ((nanosecondsPerSecond : Int) - 1)) =
        time.nanoseconds := by
      simp only [nanosecondsPerSecond]
      omega
    have heq : timespecToNanoseconds time =
        pure (time.seconds * nanosecondsPerSecond + time.nanoseconds) := by
      rw [timespecToNanoseconds, if_neg hlarge, if_neg hnegative, hclamp]
      simp only [nanosecondsPerSecond]
      rw [Wrapped.signed_eq (by decide) ⟨by omega, by omega⟩, pure_bind,
        Wrapped.signed_eq (by decide) ⟨by omega, by omega⟩]
    have htarget : target time = time.seconds * nanosecondsPerSecond + time.nanoseconds := by
      rw [target, heq, Wrapped.value_pure]
    rw [heq, htarget]
    refine ⟨rfl, Int.min_le_left _ _, ?_, ?_⟩
    · simp only [nanosecondsPerSecond]
      omega
    · simp only [nanosecondsPerSecond, maximum]
      omega

/-- A reading of the system clock is never negative, and is a 64-bit count. -/
def Reading (now : Int) : Prop := 0 ≤ now ∧ now ≤ maximum

/-- The timeout of an attempt, from the time that is left. -/
theorem deadlineWaitTicks_eq {time : TimePoint} (h : time.Normalized) {now : Int}
    (hnow : Reading now) :
    deadlineWaitTicks (some time) now =
      pure (if target time ≤ now then noWait
        else min (ceilTicks (target time - now).toNat) maximumFiniteWait) := by
  obtain ⟨heq, -, hlow, hhigh⟩ := timespec_spec h
  obtain ⟨hnow0, hnow1⟩ := hnow
  simp only [maximum] at hhigh hnow1
  simp only [deadlineWaitTicks, heq, pure_bind]
  by_cases hpast : target time ≤ now
  · rw [if_pos hpast, if_pos hpast]
  · rw [if_neg hpast, if_neg hpast, Wrapped.signed_eq (by decide) ⟨by omega, by omega⟩, pure_bind,
      durationToTicks_eq (by omega), pure_bind, Nat.min_assoc, Nat.min_self]

/-! ## Waiting -/

/-- What the underlying wait returns. -/
inductive Status
  | success | noInstance | notAvailable
  | other (code : Nat)
  deriving DecidableEq, Repr

/-- What `wait_until` returns. -/
inductive Code
  | ok | timedOut | invalid
  deriving DecidableEq, Repr

/-- One call of the underlying wait, after the clock has been read. -/
structure Attempt where
  now : Int
  ticks : Nat
  status : Status
  deriving DecidableEq, Repr

/-- What `wait_until` makes of an attempt; `none` is the next round. -/
def verdict (attempt : Attempt) : Option Code :=
  if attempt.ticks = noWait then
    some (if attempt.status = .success then .ok else .timedOut)
  else if attempt.status = .success then some .ok
  else if attempt.status ≠ .noInstance ∧ attempt.status ≠ .notAvailable then some .invalid
  else none

section Loop

variable (deadline : Option TimePoint) (clock : Nat → Int) (wait : Nat → Status)

def attempt (round : Nat) : Attempt :=
  ⟨clock round, (deadlineWaitTicks deadline (clock round)).value, wait round⟩

/-- `wait_until` from some round on, for so many rounds, with its attempts. -/
def waitUntil : Nat → Nat → Option (Code × List Attempt)
  | 0, _ => none
  | rounds + 1, round =>
      let a := attempt deadline clock wait round
      match verdict a with
      | some code => some (code, [a])
      | none => (waitUntil rounds (round + 1)).map fun r => (r.1, a :: r.2)

end Loop

/-- A blocking attempt is given a finite time, and all the time that is left if that fits. -/
def Attempt.Patient (time : TimePoint) (a : Attempt) : Prop :=
  a.ticks = noWait ∨
    1 ≤ a.ticks ∧ a.ticks ≠ waitForever ∧
      (a.ticks = maximumFiniteWait ∨ ceilTicks (time.due - a.now).toNat ≤ a.ticks)

/-- The attempt that a timeout is reported after. -/
def Attempt.Late (time : TimePoint) (a : Attempt) : Prop :=
  a.ticks = noWait ∧ time.due ≤ a.now ∧ a.status ≠ .success

section Results

variable {time : TimePoint} {clock : Nat → Int} {w : Nat → Status}

theorem attempt_ticks (h : time.Normalized) (hclock : ∀ n, Reading (clock n)) (round : Nat) :
    (attempt (some time) clock w round).ticks =
      if target time ≤ clock round then noWait
      else min (ceilTicks (target time - clock round).toNat) maximumFiniteWait := by
  rw [attempt, deadlineWaitTicks_eq h (hclock round), Wrapped.value_pure]

/-- Only a reading at or past the target makes an attempt that does not block. -/
theorem attempt_noWait (h : time.Normalized) (hclock : ∀ n, Reading (clock n)) (round : Nat) :
    (attempt (some time) clock w round).ticks = noWait ↔ target time ≤ clock round := by
  rw [attempt_ticks h hclock]
  split
  · next hpast => exact ⟨fun _ => hpast, fun _ => rfl⟩
  · next hpast =>
      have hpos : 0 < ceilTicks (target time - clock round).toNat := ceilTicks_pos (by omega)
      refine ⟨fun hzero => ?_, fun hle => absurd hle hpast⟩
      simp only [noWait, maximumFiniteWait] at hzero
      omega

theorem attempt_patient (h : time.Normalized) (hclock : ∀ n, Reading (clock n)) (round : Nat) :
    (attempt (some time) clock w round).Patient time := by
  have hdue := (timespec_spec h).2.1
  by_cases hpast : target time ≤ clock round
  · exact .inl ((attempt_noWait h hclock round).mpr hpast)
  · right
    have hticks := attempt_ticks (w := w) h hclock round
    rw [if_neg hpast] at hticks
    have hpos : 0 < ceilTicks (target time - clock round).toNat := ceilTicks_pos (by omega)
    have hmono : ceilTicks (time.due - clock round).toNat ≤
        ceilTicks (target time - clock round).toNat := ceilTicks_mono (by omega)
    rw [hticks]
    simp only [maximumFiniteWait, waitForever]
    refine ⟨by omega, by omega, ?_⟩
    have hnow : (attempt (some time) clock w round).now = clock round := rfl
    rw [hnow]
    omega

theorem verdict_cases {a : Attempt} {code : Code} (h : verdict a = some code) :
    (code = .ok ∧ a.status = .success) ∨
      (code = .timedOut ∧ a.ticks = noWait ∧ a.status ≠ .success) ∨
      (code = .invalid ∧ a.status ≠ .success) := by
  simp only [verdict] at h
  split at h
  · next hticks =>
      split at h
      · next hsuccess =>
          cases h
          exact .inl ⟨rfl, hsuccess⟩
      · next hfail =>
          cases h
          exact .inr (.inl ⟨rfl, hticks, hfail⟩)
  · split at h
    · next hsuccess =>
        cases h
        exact .inl ⟨rfl, hsuccess⟩
    · next hfail =>
        split at h
        · cases h
          exact .inr (.inr ⟨rfl, hfail⟩)
        · cases h

theorem verdict_none {a : Attempt} (h : verdict a = none) : a.status ≠ .success := by
  intro hsuccess
  simp only [verdict, hsuccess, ↓reduceIte] at h
  split at h <;> cases h

/-- What a call that returns has done, by induction over its rounds. -/
theorem waitUntil_spec (h : time.Normalized) (hclock : ∀ n, Reading (clock n)) {rounds round : Nat}
    {code : Code} {attempts : List Attempt}
    (hrun : waitUntil (some time) clock w rounds round = some (code, attempts)) :
    (code = .timedOut → ∃ a ∈ attempts.getLast?, a.Late time) ∧
      (code = .ok ↔ ∃ a ∈ attempts, a.status = .success) ∧
      ∀ a ∈ attempts, a.Patient time := by
  induction rounds generalizing round code attempts with
  | zero => cases hrun
  | succ rounds ih =>
      have hpatient := attempt_patient (w := w) h hclock round
      have hzero := attempt_noWait (w := w) h hclock round
      simp only [waitUntil] at hrun
      cases hverdict : verdict (attempt (some time) clock w round) with
      | some code' =>
          rw [hverdict] at hrun
          simp only [Option.some.injEq, Prod.mk.injEq] at hrun
          obtain ⟨rfl, rfl⟩ := hrun
          simp only [List.getLast?_singleton, Option.mem_def, Option.some.injEq, exists_eq_left',
            List.mem_singleton, exists_eq_left, forall_eq]
          rcases verdict_cases hverdict with ⟨rfl, hsuccess⟩ | ⟨rfl, hticks, hfail⟩ | ⟨rfl, hfail⟩
          · exact ⟨nofun, ⟨fun _ => hsuccess, fun _ => rfl⟩, hpatient⟩
          · have hlate := Int.le_trans (timespec_spec h).2.1 (hzero.mp hticks)
            exact ⟨fun _ => ⟨hticks, hlate, hfail⟩, ⟨nofun, fun hs => absurd hs hfail⟩, hpatient⟩
          · exact ⟨nofun, ⟨nofun, fun hs => absurd hs hfail⟩, hpatient⟩
      | none =>
          rw [hverdict] at hrun
          simp only [Option.map_eq_some_iff] at hrun
          obtain ⟨⟨code', rest⟩, hrest, heq⟩ := hrun
          cases heq
          obtain ⟨hlate, hok, hall⟩ := ih hrest
          have hfail := verdict_none hverdict
          refine ⟨fun htimeout => ?_, ?_, ?_⟩
          · obtain ⟨a, ha, hl⟩ := hlate htimeout
            refine ⟨a, ?_, hl⟩
            rw [Option.mem_def] at ha ⊢
            rw [List.getLast?_cons, ha]
            rfl
          · rw [hok]
            simp [hfail]
          · intro a ha
            rcases List.mem_cons.mp ha with rfl | ha
            · exact hpatient
            · exact hall a ha

/-- The call returns in the first round whose reading is at or past the target. -/
theorem waitUntil_returns (h : time.Normalized) (hclock : ∀ n, Reading (clock n))
    {rounds round : Nat} (hpast : target time ≤ clock (round + rounds)) :
    (waitUntil (some time) clock w (rounds + 1) round).isSome = true := by
  induction rounds generalizing round with
  | zero =>
      have hticks := (attempt_noWait (w := w) h hclock round).mpr hpast
      have hverdict : ∃ code, verdict (attempt (some time) clock w round) = some code :=
        ⟨_, if_pos hticks⟩
      obtain ⟨code, hcode⟩ := hverdict
      simp only [waitUntil, hcode, Option.isSome_some]
  | succ rounds ih =>
      rw [waitUntil]
      cases hverdict : verdict (attempt (some time) clock w round) with
      | some code => simp only [hverdict, Option.isSome_some]
      | none =>
          simp only [hverdict, Option.isSome_map]
          exact ih (by rw [Nat.add_assoc, Nat.add_comm 1 rounds]; exact hpast)

/-- Timeouts are reported late, success is reported exactly when an attempt has succeeded,
    blocking attempts wait as long as is left or as long as they can, the call ends once the
    clock has got there, and the conversion to ticks is exact for every 64-bit duration. -/
theorem waitUntil_correct (time : TimePoint) (h : time.Normalized) (clock : Nat → Int)
    (hclock : ∀ n, Reading (clock n)) (w : Nat → Status) :
    (∀ rounds code attempts,
      waitUntil (some time) clock w rounds 0 = some (code, attempts) →
        (code = .timedOut → ∃ a ∈ attempts.getLast?, a.Late time) ∧
        (code = .ok ↔ ∃ a ∈ attempts, a.status = .success) ∧
        ∀ a ∈ attempts, a.Patient time) ∧
      (∀ n, target time ≤ clock n →
        (waitUntil (some time) clock w (n + 1) 0).isSome = true) ∧
      (∀ now, Reading now → (deadlineWaitTicks (some time) now).exact = true) ∧
      ∀ ns, ns < 2 ^ 64 → durationToTicks ns = pure (min (ceilTicks ns) maximumFiniteWait) := by
  refine ⟨fun rounds code attempts hrun => waitUntil_spec h hclock hrun, ?_, ?_, ?_⟩
  · intro n hpast
    exact waitUntil_returns h hclock (by rw [Nat.zero_add]; exact hpast)
  · intro now hnow
    rw [deadlineWaitTicks_eq h hnow, Wrapped.exact_pure]
  · exact fun ns hns => durationToTicks_eq hns

/-- A wait of two rounds until one second, by a clock that goes on by half a second. -/
theorem waitUntil_correct_twice :
    (∃ a ∈ [Attempt.mk 500000000 500 .noInstance, ⟨1000000000, 0, .noInstance⟩].getLast?,
        a.Late ⟨1, 0⟩) ∧
      (deadlineWaitTicks (some ⟨1, 0⟩) 0).exact = true ∧
      durationToTicks 1 = pure (min (ceilTicks 1) maximumFiniteWait) := by
  have hclock : ∀ n : Nat, Reading ((fun n => if n = 0 then 500000000 else 1000000000) n) := by
    intro n
    simp only [Reading, maximum]
    split <;> omega
  have h := waitUntil_correct ⟨1, 0⟩ ⟨by decide, by decide⟩ _ hclock fun _ => .noInstance
  exact ⟨(h.1 2 .timedOut _ rfl).1 rfl, h.2.2.1 0 ⟨by decide, by decide⟩, h.2.2.2 1 (by decide)⟩

end Results

end TimedWait
end Backend
end NucleoBase
