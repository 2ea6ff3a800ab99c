/-
  NucleoBase.Lib.PeriodicCounter

  A counter that runs at a rational rate and starts again at zero whenever it
  reaches its period, as a function of the time that has passed: `rate` ticks
  in every `unit` of time, only whole ticks counted.
-/

import Mathlib.Data.Nat.Basic
import Mathlib.Tactic.Common

namespace NucleoBase
namespace Lib

structure PeriodicCounter where
  start : Nat
  rate : Nat
  unit : Nat
  period : Nat

namespace PeriodicCounter

/-- The whole ticks in the first `elapsed` units of time. -/
def ticks (c : PeriodicCounter) (elapsed : Nat) : Nat := elapsed * c.rate / c.unit

/-- The count if it never started again. -/
def total (c : PeriodicCounter) (elapsed : Nat) : Nat := c.start + c.ticks elapsed

def value (c : PeriodicCounter) (elapsed : Nat) : Nat := c.total elapsed % c.period

/-- How often the counter has started again by then. -/
def overflows (c : PeriodicCounter) (elapsed : Nat) : Nat := c.total elapsed / c.period

/-- The counter starts again at a time after `a` and not after `b`. -/
def Overflowed (c : PeriodicCounter) (a b : Nat) : Prop := c.overflows a < c.overflows b

instance (c : PeriodicCounter) (a b : Nat) : Decidable (c.Overflowed a b) :=
  inferInstanceAs (Decidable (_ < _))

/-- The time after which as many more ticks have certainly been counted. -/
def delay (c : PeriodicCounter) (ticks : Nat) : Nat := (ticks * c.unit + c.rate - 1) / c.rate

variable {c : PeriodicCounter}

theorem ticks_mono {a b : Nat} (h : a ≤ b) : c.ticks a ≤ c.ticks b :=
  Nat.div_le_div_right (Nat.mul_le_mul_right _ h)

theorem overflows_mono {a b : Nat} (h : a ≤ b) : c.overflows a ≤ c.overflows b :=
  Nat.div_le_div_right (Nat.add_le_add_left (ticks_mono h) _)

theorem Overflowed.mono {a a' b b' : Nat} (h : c.Overflowed a b) (ha : a' ≤ a) (hb : b ≤ b') :
    c.Overflowed a' b' :=
  Nat.lt_of_le_of_lt (overflows_mono ha) (Nat.lt_of_lt_of_le h (overflows_mono hb))

/-- The ticks of whole units and of the rest of a time may be counted apart. -/
theorem ticks_split (hunit : 0 < c.unit) (elapsed : Nat) :
    c.ticks elapsed = elapsed / c.unit * c.rate + elapsed % c.unit * c.rate / c.unit := by
  have hsplit : elapsed * c.rate =
      elapsed % c.unit * c.rate + c.unit * (elapsed / c.unit * c.rate) := by
    calc elapsed * c.rate
        = (elapsed % c.unit + c.unit * (elapsed / c.unit)) * c.rate := by
          rw [Nat.mod_add_div]
      _ = elapsed % c.unit * c.rate + c.unit * (elapsed / c.unit * c.rate) := by
          rw [Nat.add_mul, Nat.mul_assoc]
  rw [ticks, hsplit, Nat.add_mul_div_left _ _ hunit, Nat.add_comm]

/-- After `delay k`, at least `k` more ticks have been counted. -/
theorem ticks_delay (hunit : 0 < c.unit) (hrate : 0 < c.rate) (a k : Nat) :
    c.ticks a + k ≤ c.ticks (a + c.delay k) := by
  have hround : k * c.unit ≤ c.delay k * c.rate := by
    have hdiv := Nat.div_add_mod (k * c.unit + c.rate - 1) c.rate
    have hmod := Nat.mod_lt (k * c.unit + c.rate - 1) hrate
    have hcomm : c.rate * c.delay k = c.delay k * c.rate := Nat.mul_comm _ _
    simp only [delay] at hcomm ⊢
    omega
  calc c.ticks a + k
      = (a * c.rate + k * c.unit) / c.unit := by
        rw [ticks, Nat.add_mul_div_right _ _ hunit]
    _ ≤ (a * c.rate + c.delay k * c.rate) / c.unit :=
        Nat.div_le_div_right (Nat.add_le_add_left hround _)
    _ = c.ticks (a + c.delay k) := by
        rw [ticks, Nat.add_mul]

/-- Waiting for as long as the ticks left in the period take passes an
    overflow. -/
theorem overflowed_delay (hunit : 0 < c.unit) (hrate : 0 < c.rate) (hperiod : 0 < c.period)
    (a : Nat) : c.Overflowed a (a + c.delay (c.period - c.value a)) := by
  have hticks := ticks_delay (c := c) hunit hrate a (c.period - c.value a)
  have hvalue : c.value a < c.period := Nat.mod_lt _ hperiod
  have hnext : c.total a + (c.period - c.value a) = c.period * (c.overflows a + 1) := by
    have hsplit := Nat.div_add_mod (c.total a) c.period
    rw [Nat.mul_add]
    simp only [value, overflows] at hvalue ⊢
    omega
  have hreach : c.period * (c.overflows a + 1) ≤
      c.total (a + c.delay (c.period - c.value a)) := by
    rw [← hnext]
    simp only [total]
    omega
  have hcount : c.overflows a + 1 ≤ c.total (a + c.delay (c.period - c.value a)) / c.period := by
    rw [Nat.le_div_iff_mul_le hperiod, Nat.mul_comm]
    exact hreach
  exact hcount

/-- That wait passes no second overflow if a tick takes at least a unit of time and a period
    more than one tick. -/
theorem overflows_delay (hunit : 0 < c.unit) (hrate : 0 < c.rate) (hslow : c.rate ≤ c.unit)
    (hperiod : 2 ≤ c.period) (a : Nat) :
    c.overflows (a + c.delay (c.period - c.value a)) = c.overflows a + 1 := by
  have hvalue : c.value a < c.period := Nat.mod_lt _ (by omega)
  have hsplit := Nat.div_add_mod (c.total a) c.period
  have hpassed := overflowed_delay (c := c) hunit hrate (by omega) a
  -- the wait is rounded up by less than one tick
  have hround : c.delay (c.period - c.value a) * c.rate <
      (c.period - c.value a) * c.unit + c.unit := by
    have hle := Nat.div_mul_le_self ((c.period - c.value a) * c.unit + c.rate - 1) c.rate
    simp only [delay] at hle ⊢
    omega
  have hticks : c.ticks (a + c.delay (c.period - c.value a)) ≤
      c.ticks a + (c.period - c.value a) + 1 := by
    have hlt := Nat.lt_mul_div_succ (a * c.rate) hunit
    have hsum : (c.ticks a + (c.period - c.value a) + 2) * c.unit =
        c.unit * (a * c.rate / c.unit + 1) + (c.period - c.value a) * c.unit + c.unit := by
      simp only [ticks]
      rw [Nat.add_mul, Nat.add_mul, Nat.mul_add, Nat.mul_comm (a * c.rate / c.unit)]
      omega
    refine Nat.le_of_lt_succ ((Nat.div_lt_iff_lt_mul hunit).mpr ?_)
    rw [Nat.succ_eq_add_one, Nat.add_assoc (c.ticks a + _) 1 1, hsum, Nat.add_mul]
    omega
  have htotal : c.total (a + c.delay (c.period - c.value a)) <
      (c.overflows a + 2) * c.period := by
    have hnext : (c.overflows a + 2) * c.period =
        c.period * (c.total a / c.period) + c.period + c.period := by
      rw [overflows, Nat.add_mul, Nat.mul_comm, Nat.two_mul, Nat.add_assoc]
    rw [hnext]
    simp only [total, value] at hsplit hvalue hticks ⊢
    omega
  have hless : c.overflows (a + c.delay (c.period - c.value a)) < c.overflows a + 2 :=
    (Nat.div_lt_iff_lt_mul (by omega)).mpr htotal
  have hmore : c.overflows a < c.overflows (a + c.delay (c.period - c.value a)) := hpassed
  omega

/-- A counter that does not run never starts again. -/
theorem not_overflowed_of_rate (hrate : c.rate = 0) (a b : Nat) : ¬ c.Overflowed a b := by
  simp [Overflowed, overflows, total, ticks, hrate]

end PeriodicCounter

end Lib
end NucleoBase
