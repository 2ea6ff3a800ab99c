/-
  NucleoBase.Backend.Sleep

  `std::this_thread::__sleep_for` (sleep.cpp) and `sleep_for` (backend.cpp), of
  a call in a thread: what is given to `tx_thread_sleep`, call by call.

  `tx_thread_sleep(k)` lasts for at least k - 1 full ticks.
-/

import NucleoBase.Backend.TimedWait
import Mathlib.Algebra.BigOperators.Group.List.Basic

namespace NucleoBase
namespace Backend
namespace Sleep

open Lib TimedWait

/-! ## Sleeping -/

/-- `maximum_chunk`. -/
def maximumChunk : Nat := maximumFiniteWait - 1

/-- The loop of `sleep_for`: the arguments of its calls of `tx_thread_sleep`. -/
def sleepChunks (ticks : Nat) : List Nat :=
  if ticks = 0 then []
  else (min ticks maximumChunk + 1) :: sleepChunks (ticks - min ticks maximumChunk)
  termination_by ticks
  decreasing_by simp only [maximumChunk, maximumFiniteWait]; omega

/-- `sleep_for`. -/
def sleepFor (nanoseconds : Nat) : Wrapped (List Nat) := do
  if nanoseconds = 0 then pure []
  else do
    let ticks ← ticksOf nanoseconds
    pure (sleepChunks ticks)

/-- `__sleep_for`, from where the counts are `uint64_t`. -/
def sleepForCounts (seconds nanoseconds : Nat) : Wrapped (List Nat) := do
  if (2 ^ 64 - 1) / nanosecondsPerSecond < seconds then sleepFor (2 ^ 64 - 1)
  else do
    let whole ← Wrapped.mul 64 seconds nanosecondsPerSecond
    Wrapped.add 64 whole nanoseconds >>= sleepFor

/-- `__sleep_for`. -/
def sleepForDuration (seconds nanoseconds : Int) : Wrapped (List Nat) :=
  if seconds < 0 ∨ nanoseconds < 0 then pure []
  else sleepForCounts seconds.toNat nanoseconds.toNat

/-- The nanoseconds that the calls last at least. -/
def slept (calls : List Nat) : Nat :=
  (calls.map fun k => k - 1).sum * (nanosecondsPerSecond / ticksPerSecond)

/-- Every call sleeps for a finite time that is not 0. -/
def Finite (calls : List Nat) : Prop := ∀ k ∈ calls, k ≠ 0 ∧ k ≠ waitForever

/-! ## The loop -/

theorem sleepChunks_finite (ticks : Nat) : Finite (sleepChunks ticks) := by
  induction ticks using sleepChunks.induct with
  | case1 =>
      rw [sleepChunks, if_pos rfl]
      exact nofun
  | case2 ticks hticks ih =>
      rw [sleepChunks, if_neg hticks]
      intro k hk
      rcases List.mem_cons.mp hk with rfl | hk
      · simp only [maximumChunk, maximumFiniteWait, waitForever]
        omega
      · exact ih k hk

theorem sleepChunks_sum (ticks : Nat) :
    ((sleepChunks ticks).map fun k => k - 1).sum = ticks := by
  induction ticks using sleepChunks.induct with
  | case1 =>
      rw [sleepChunks, if_pos rfl]
      rfl
  | case2 ticks hticks ih =>
      rw [sleepChunks, if_neg hticks, List.map_cons, List.sum_cons, ih]
      omega

theorem sleepFor_eq {ns : Nat} (h : ns < 2 ^ 64) :
    sleepFor ns = pure (sleepChunks (ceilTicks ns)) := by
  rw [sleepFor]
  split
  · next hzero =>
      have hticks : ceilTicks 0 = 0 := rfl
      rw [hzero, hticks, sleepChunks, if_pos rfl]
  · rw [ticksOf_eq h, pure_bind]

/-- `sleep_for` never ends early. -/
theorem le_slept (ns : Nat) : ns ≤ slept (sleepChunks (ceilTicks ns)) := by
  rw [slept, sleepChunks_sum]
  exact le_ceilTicks_mul ns

/-! ## Seconds and nanoseconds -/

theorem sleepForDuration_natCast (seconds nanoseconds : Nat) :
    sleepForDuration seconds nanoseconds = sleepForCounts seconds nanoseconds := by
  rw [sleepForDuration, if_neg (by omega), Int.toNat_natCast, Int.toNat_natCast]

/-- Seconds that are too many alone are cut to the longest sleep. -/
theorem sleepForCounts_large {seconds nanoseconds : Nat}
    (h : (2 ^ 64 - 1) / nanosecondsPerSecond < seconds) :
    (sleepForCounts seconds nanoseconds).value = sleepChunks (ceilTicks (2 ^ 64 - 1)) := by
  rw [sleepForCounts, if_pos h, sleepFor_eq (by decide), Wrapped.value_pure]

/-- Otherwise the sum of both is slept for, as 64 bits have it. -/
theorem sleepForCounts_sum {seconds nanoseconds : Nat}
    (h : ¬ (2 ^ 64 - 1) / nanosecondsPerSecond < seconds) :
    (sleepForCounts seconds nanoseconds).value =
      sleepChunks (ceilTicks ((seconds * nanosecondsPerSecond + nanoseconds) % 2 ^ 64)) := by
  have hseconds : seconds * nanosecondsPerSecond < 2 ^ 64 := by
    simp only [nanosecondsPerSecond] at h ⊢
    omega
  rw [sleepForCounts, if_neg h, Wrapped.mul_eq hseconds, pure_bind, Wrapped.value_bind,
    Wrapped.value_add, sleepFor_eq (Nat.mod_lt _ (by decide)), Wrapped.value_pure]

/-- A sleep is never too short, or infinite, unless the nanoseconds make the sum wrap. -/
theorem sleep_never_early (seconds nanoseconds : Nat) (hn : nanoseconds < nanosecondsPerSecond) :
    (Finite (sleepForDuration seconds nanoseconds).value ∧
      min (seconds * nanosecondsPerSecond + nanoseconds) (2 ^ 64 - 1) ≤
        slept (sleepForDuration seconds nanoseconds).value) ↔
      ¬ (seconds = (2 ^ 64 - 1) / nanosecondsPerSecond ∧
        2 ^ 64 ≤ seconds * nanosecondsPerSecond + nanoseconds) := by
  rw [sleepForDuration_natCast]
  by_cases hlarge : (2 ^ 64 - 1) / nanosecondsPerSecond < seconds
  · rw [sleepForCounts_large hlarge]
    have hlong : min (seconds * nanosecondsPerSecond + nanoseconds) (2 ^ 64 - 1) ≤
        slept (sleepChunks (ceilTicks (2 ^ 64 - 1))) :=
      Nat.le_trans (Nat.min_le_right _ _) (le_slept (2 ^ 64 - 1))
    refine ⟨fun _ hwrap => ?_, fun _ => ⟨sleepChunks_finite _, hlong⟩⟩
    exact absurd hwrap.1 (Nat.ne_of_gt hlarge)
  rw [sleepForCounts_sum hlarge]
  simp only [nanosecondsPerSecond] at hn hlarge ⊢
  constructor
  · rintro ⟨-, hlong⟩ ⟨rfl, hwrap⟩
    -- what is left of the sum is less than a second
    rw [slept, sleepChunks_sum] at hlong
    simp only [ceilTicks, nanosecondsPerSecond, ticksPerSecond] at hlong
    omega
  · intro hfits
    refine ⟨sleepChunks_finite _, ?_⟩
    have hsum : seconds * 1000000000 + nanoseconds < 2 ^ 64 := by omega
    rw [Nat.mod_eq_of_lt hsum]
    exact Nat.le_trans (Nat.min_le_left _ _) (le_slept _)

theorem sleep_never_early_second :
    (Finite (sleepForDuration 1 0).value ∧
      min (1 * nanosecondsPerSecond + 0) (2 ^ 64 - 1) ≤ slept (sleepForDuration 1 0).value) ↔
      ¬ (1 = (2 ^ 64 - 1) / nanosecondsPerSecond ∧ 2 ^ 64 ≤ 1 * nanosecondsPerSecond + 0) :=
  sleep_never_early 1 0 (by decide)

/-- The sum of these two is 0 in 64 bits, and the call does not sleep at all. -/
theorem sleep_wraps :
    (sleepForDuration 18446744073 709551616).value = [] ∧
      min (18446744073 * nanosecondsPerSecond + 709551616) (2 ^ 64 - 1) = 2 ^ 64 - 1 ∧
      slept (sleepForDuration 18446744073 709551616).value = 0 := by
  have hcalls : (sleepForDuration 18446744073 709551616).value = [] := rfl
  rw [hcalls]
  exact ⟨rfl, by decide, rfl⟩

end Sleep
end Backend
end NucleoBase
