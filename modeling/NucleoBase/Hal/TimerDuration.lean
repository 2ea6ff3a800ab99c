/-
  NucleoBase.Hal.TimerDuration

  Durations and timer ticks (linux/Timer.cpp, stm32/Timer.cpp): the conversion
  that rounds up, the period that it programs, and the conversion back, which
  rounds down.  Both drivers write the same code for it.
-/

import NucleoBase.Hal.LinuxTimerTicks

namespace NucleoBase
namespace Hal
namespace TimerDuration

open Lib LinuxTimer

/-! ## The code of both drivers -/

/-- `maximum_tick`. -/
def maximumTick : Nat := 4294967295

/-- `durationToTicksImpl`, for this tick frequency. -/
def ticksWords (frequency : Nat) (duration : Int) : Wrapped Nat := do
  if duration ≤ 0 ∨ frequency = 0 then pure 0
  else if maximumTick / frequency < duration.toNat / nanosecondsPerSecond then pure maximumTick
  else do
    let whole ← Wrapped.mul 64 (duration.toNat / nanosecondsPerSecond) frequency
    let scaled ← Wrapped.mul 64 (duration.toNat % nanosecondsPerSecond) frequency
    let raised ← Wrapped.add 64 scaled nanosecondsPerSecond
    let rounded ← Wrapped.sub 64 raised 1
    let room ← Wrapped.sub 64 maximumTick whole
    if room < rounded / nanosecondsPerSecond then pure maximumTick
    else do
      let sum ← Wrapped.add 64 whole (rounded / nanosecondsPerSecond)
      Wrapped.narrow 32 sum

/-- `getElapsedTime`, for this counter and tick frequency. -/
def elapsedWords (counter frequency : Nat) : Wrapped Int := do
  if frequency = 0 then pure 0
  else do
    let scaled ← Wrapped.mul 64 counter nanosecondsPerSecond
    Wrapped.signed 64 (scaled / frequency : Nat)

/-- `getElapsedTime` of the Linux timer. -/
def elapsedTime (t : Timer) (now : UInt64) : Wrapped Int :=
  elapsedWords (t.getCounter now).toNat t.tickFrequencyHz.toNat

/-- The registers of the STM32 timer. -/
structure Stm32Timer where
  timerInputHz : UInt32
  /-- `PSC`. -/
  prescaler : Tick
  /-- `ARR`. -/
  autoReload : Tick
  /-- `CNT`. -/
  counter : Tick
  deriving DecidableEq, Repr

namespace Stm32Timer

def tickFrequencyHz (s : Stm32Timer) : UInt32 :=
  (s.timerInputHz.toUInt64 / (s.prescaler.toUInt64 + 1)).toUInt32

/-- `durationToTicksImpl`. -/
def durationToTicks (s : Stm32Timer) (duration : Int64) : Wrapped Nat :=
  ticksWords s.tickFrequencyHz.toNat duration.toInt

/-- `setPeriodImpl`: the auto-reload register, and an update event. -/
def setPeriod (s : Stm32Timer) (duration : Int64) : Wrapped Stm32Timer := do
  let ticks ← s.durationToTicks duration
  pure { s with
    autoReload := if ticks = 0 then 0 else UInt32.ofNat (ticks - 1)
    counter := 0 }

/-- `getElapsedTime`. -/
def elapsedTime (s : Stm32Timer) : Wrapped Int :=
  elapsedWords s.counter.toNat s.tickFrequencyHz.toNat

end Stm32Timer

/-! ## The conversion -/

/-- The ticks that a duration takes, the last one counted whole. -/
def ceilTicks (frequency nanoseconds : Nat) : Nat :=
  (nanoseconds * frequency + (nanosecondsPerSecond - 1)) / nanosecondsPerSecond

/-- The ticks that the drivers should give. -/
def ticksOf (frequency : Nat) (duration : Int) : Nat :=
  if duration ≤ 0 then 0 else min (ceilTicks frequency duration.toNat) maximumTick

/-- Whole seconds and the rest may be rounded up apart. -/
theorem ceilTicks_split (frequency nanoseconds : Nat) :
    ceilTicks frequency nanoseconds = nanoseconds / nanosecondsPerSecond * frequency +
      (nanoseconds % nanosecondsPerSecond * frequency + nanosecondsPerSecond - 1) /
        nanosecondsPerSecond := by
  have hsplit : nanoseconds * frequency = nanosecondsPerSecond *
      (nanoseconds / nanosecondsPerSecond * frequency) +
      nanoseconds % nanosecondsPerSecond * frequency := by
    rw [← Nat.mul_assoc, ← Nat.add_mul, Nat.div_add_mod]
  rw [ceilTicks, hsplit, Nat.add_assoc, Nat.mul_add_div (by decide),
    Nat.add_sub_assoc (by decide)]

theorem le_ceilTicks_mul (frequency nanoseconds : Nat) :
    nanoseconds * frequency ≤ ceilTicks frequency nanoseconds * nanosecondsPerSecond := by
  simp only [ceilTicks, nanosecondsPerSecond]
  omega

theorem ticksWords_eq {frequency : Nat} {duration : Int} (hpos : 0 < frequency)
    (hf : frequency < 2 ^ 32) :
    ticksWords frequency duration = pure (ticksOf frequency duration) := by
  rw [ticksWords, ticksOf]
  by_cases hd : duration ≤ 0
  · rw [if_pos (.inl hd), if_pos hd]
  rw [if_neg (by omega), if_neg hd]
  generalize duration.toNat = nanoseconds
  have hsplit := ceilTicks_split frequency nanoseconds
  have hrest : nanoseconds % nanosecondsPerSecond < 1000000000 := Nat.mod_lt _ (by decide)
  have hscaled : nanoseconds % nanosecondsPerSecond * frequency ≤ 1000000000 * 4294967295 :=
    Nat.mul_le_mul (by omega) (by omega)
  by_cases hlong : maximumTick / frequency < nanoseconds / nanosecondsPerSecond
  · have hmore := (Nat.div_lt_iff_lt_mul hpos).mp hlong
    have hall : maximumTick ≤ ceilTicks frequency nanoseconds := by
      rw [hsplit]
      exact Nat.le_trans (Nat.le_of_lt hmore) (Nat.le_add_right _ _)
    rw [if_pos hlong, Nat.min_eq_right hall]
  have hwhole : nanoseconds / nanosecondsPerSecond * frequency ≤ maximumTick := by
    by_contra hmore
    exact hlong ((Nat.div_lt_iff_lt_mul hpos).mpr (by omega))
  have hmaximum : maximumTick < 2 ^ 32 := by decide
  have hunit : nanosecondsPerSecond = 1000000000 := rfl
  rw [if_neg hlong, Wrapped.mul_eq (by omega), pure_bind, Wrapped.mul_eq (by omega), pure_bind,
    Wrapped.add_eq (by omega), pure_bind, Wrapped.sub_eq (by omega) (by omega), pure_bind,
    Wrapped.sub_eq (by omega) hwhole, pure_bind, hsplit]
  generalize (nanoseconds % nanosecondsPerSecond * frequency + nanosecondsPerSecond - 1) /
    nanosecondsPerSecond = fractional
  by_cases hover : maximumTick - nanoseconds / nanosecondsPerSecond * frequency < fractional
  · rw [if_pos hover, Nat.min_eq_right (by omega)]
  · rw [if_neg hover, Wrapped.add_eq (by omega), pure_bind, Wrapped.narrow_eq (by omega),
      Nat.min_eq_left (by omega)]

/-- The Linux timer, which computes in 64 bits, gives the same ticks. -/
theorem durationToTicks_toNat {t : Timer} (hf : t.tickFrequencyHz ≠ 0) (duration : Int64) :
    (t.durationToTicks duration).toNat = ticksOf t.tickFrequencyHz.toNat duration.toInt := by
  have hpos : 0 < t.tickFrequencyHz.toNat := Timer.rate_pos hf
  have hrate := t.tickFrequencyHz.toNat_lt
  have hfrequency : t.tickFrequencyHz.toUInt64.toNat = t.tickFrequencyHz.toNat :=
    UInt32.toNat_toUInt64 _
  have hnonzero := Timer.frequency_ne_zero hf
  rw [ticksOf, Timer.durationToTicks]
  by_cases hd : duration ≤ 0
  · have hd' : duration.toInt ≤ 0 := Int64.le_iff_toInt_le.mp hd
    rw [if_pos hd', if_pos (.inl hd)]
    rfl
  have hd' : ¬ duration.toInt ≤ 0 := fun h => hd (Int64.le_iff_toInt_le.mpr h)
  have hcount : duration.toUInt64.toNat = duration.toInt.toNat := by
    refine Int64.toNat_toUInt64_of_le (Int64.le_iff_toInt_le.mpr ?_)
    have hzero : (0 : Int64).toInt = 0 := rfl
    omega
  have hsplit := ceilTicks_split t.tickFrequencyHz.toNat duration.toInt.toNat
  have hunit : (UInt64.ofNat nanosecondsPerSecond).toNat = nanosecondsPerSecond := rfl
  have hsecond : nanosecondsPerSecond = 1000000000 := rfl
  rw [if_neg hd', if_neg (by simp [hd, hnonzero])]
  rw [← hcount] at hsplit ⊢
  generalize duration.toUInt64 = nanoseconds at hsplit ⊢
  generalize t.tickFrequencyHz.toUInt64 = frequency at hfrequency hnonzero ⊢
  rw [← hfrequency] at hsplit hpos hrate ⊢
  simp only [gt_iff_lt, UInt64.lt_iff_toNat_lt, UInt64.toNat_div, hunit]
  have hrest : nanoseconds.toNat % nanosecondsPerSecond < 1000000000 := Nat.mod_lt _ (by decide)
  by_cases hlong : (4294967295 : UInt64).toNat / frequency.toNat <
      nanoseconds.toNat / nanosecondsPerSecond
  · have hmore := (Nat.div_lt_iff_lt_mul hpos).mp hlong
    have hall : maximumTick ≤ ceilTicks frequency.toNat nanoseconds.toNat := by
      rw [hsplit]
      exact Nat.le_trans (Nat.le_of_lt hmore) (Nat.le_add_right _ _)
    rw [if_pos hlong, Nat.min_eq_right hall]
    rfl
  rw [if_neg hlong]
  have hwhole : nanoseconds.toNat / nanosecondsPerSecond * frequency.toNat ≤ maximumTick := by
    by_contra hmore
    exact hlong ((Nat.div_lt_iff_lt_mul hpos).mpr (Nat.not_le.mp hmore))
  have hscaled : nanoseconds.toNat % nanosecondsPerSecond * frequency.toNat ≤
      1000000000 * 4294967295 := Nat.mul_le_mul (by omega) (by omega)
  have hmaximum : maximumTick = 4294967295 := rfl
  have hwholeNat : (nanoseconds / UInt64.ofNat nanosecondsPerSecond * frequency).toNat =
      nanoseconds.toNat / nanosecondsPerSecond * frequency.toNat := by
    rw [UInt64.toNat_mul, UInt64.toNat_div, hunit]
    exact Nat.mod_eq_of_lt (by omega)
  have hscaledNat : (nanoseconds % UInt64.ofNat nanosecondsPerSecond * frequency).toNat =
      nanoseconds.toNat % nanosecondsPerSecond * frequency.toNat := by
    rw [UInt64.toNat_mul, UInt64.toNat_mod, hunit]
    exact Nat.mod_eq_of_lt (by omega)
  have hraisedNat : (nanoseconds % UInt64.ofNat nanosecondsPerSecond * frequency +
      UInt64.ofNat nanosecondsPerSecond).toNat =
      nanoseconds.toNat % nanosecondsPerSecond * frequency.toNat + nanosecondsPerSecond := by
    rw [UInt64.toNat_add, hscaledNat, hunit]
    exact Nat.mod_eq_of_lt (by omega)
  have hroundedNat : (nanoseconds % UInt64.ofNat nanosecondsPerSecond * frequency +
      UInt64.ofNat nanosecondsPerSecond - 1).toNat =
      nanoseconds.toNat % nanosecondsPerSecond * frequency.toNat + nanosecondsPerSecond - 1 := by
    rw [UInt64.toNat_sub_of_le, hraisedNat, UInt64.toNat_one]
    rw [UInt64.le_iff_toNat_le, hraisedNat, UInt64.toNat_one]
    omega
  have hroomNat : (4294967295 - nanoseconds / UInt64.ofNat nanosecondsPerSecond *
      frequency).toNat = maximumTick - nanoseconds.toNat / nanosecondsPerSecond *
        frequency.toNat := by
    rw [UInt64.toNat_sub_of_le, hwholeNat]
    · rfl
    · rw [UInt64.le_iff_toNat_le, hwholeNat]
      exact hwhole
  rw [hroomNat, hroundedNat, hsplit]
  generalize hfractional : (nanoseconds.toNat % nanosecondsPerSecond * frequency.toNat +
    nanosecondsPerSecond - 1) / nanosecondsPerSecond = fractional
  by_cases hover : maximumTick - nanoseconds.toNat / nanosecondsPerSecond * frequency.toNat <
      fractional
  · rw [if_pos hover, Nat.min_eq_right (by omega)]
    rfl
  · have hdivided : ((nanoseconds % UInt64.ofNat nanosecondsPerSecond * frequency +
        UInt64.ofNat nanosecondsPerSecond - 1) / UInt64.ofNat nanosecondsPerSecond).toNat =
        fractional := by
      rw [UInt64.toNat_div, hroundedNat, hunit, hfractional]
    rw [if_neg hover, Nat.min_eq_left (by omega), UInt64.toNat_toUInt32, UInt64.toNat_add,
      hwholeNat, hdivided]
    omega

/-! ## Periods and elapsed times -/

/-- Ticks that were rounded up last at least as long, whatever the sign of the duration. -/
theorem le_ticksOf_mul {frequency : Nat} {duration : Int}
    (h : ceilTicks frequency duration.toNat ≤ maximumTick) :
    duration * frequency ≤ (ticksOf frequency duration * nanosecondsPerSecond : Nat) := by
  rw [ticksOf]
  split
  · next hd =>
      have hneg : duration * frequency ≤ 0 :=
        Int.mul_nonpos_of_nonpos_of_nonneg hd (Int.natCast_nonneg _)
      omega
  · next hd =>
      have hcount : (duration.toNat : Int) = duration := Int.toNat_of_nonneg (by omega)
      rw [Nat.min_eq_left h, ← hcount, ← Int.natCast_mul, Int.toNat_natCast]
      exact_mod_cast le_ceilTicks_mul frequency duration.toNat

/-- A period of so many ticks, or of one if there are none. -/
theorem le_period {frequency : Nat} {duration : Int} {ticks autoReload : Tick}
    (hticks : ticks.toNat = ticksOf frequency duration)
    (hreload : autoReload = if ticks = 0 then 0 else ticks - 1)
    (h : ceilTicks frequency duration.toNat ≤ maximumTick) :
    duration * frequency ≤ ((autoReload.toNat + 1) * nanosecondsPerSecond : Nat) := by
  have hlasts := le_ticksOf_mul h
  rw [← hticks] at hlasts
  by_cases hzero : ticks = 0
  · rw [hzero, UInt32.toNat_zero, Nat.zero_mul] at hlasts
    omega
  · have hone : (1 : UInt32) ≤ ticks := by
      rw [UInt32.le_iff_toNat_le, UInt32.toNat_one]
      have hne : ticks.toNat ≠ 0 := fun h => hzero (UInt32.toNat_inj.mp h)
      omega
    have hsucc : (ticks - 1).toNat + 1 = ticks.toNat := by
      have := UInt32.le_iff_toNat_le.mp hone
      rw [UInt32.toNat_sub_of_le _ _ hone, UInt32.toNat_one] at *
      omega
    rw [hreload, if_neg hzero, hsucc]
    exact hlasts

/-- The elapsed time is rounded down, but not below a duration that is whole nanoseconds. -/
theorem elapsedWords_le {frequency ticks : Nat} {duration : Int} (hpos : 0 < frequency)
    (hticks : ticks < 2 ^ 32)
    (hlasts : duration * frequency ≤ (ticks * nanosecondsPerSecond : Nat)) :
    ∃ e, elapsedWords ticks frequency = pure e ∧ duration ≤ e := by
  have hscaled : ticks * nanosecondsPerSecond < 2 ^ 63 := by
    simp only [nanosecondsPerSecond]
    omega
  have hquotient : ticks * nanosecondsPerSecond / frequency < 2 ^ 63 :=
    Nat.lt_of_le_of_lt (Nat.div_le_self _ _) hscaled
  have hrange : Wrapped.InRange 64 (ticks * nanosecondsPerSecond / frequency : Nat) := by
    generalize ticks * nanosecondsPerSecond / frequency = quotient at hquotient
    have hlimit : (2 : Int) ^ (64 - 1) = 9223372036854775808 := by decide
    rw [Wrapped.InRange, hlimit]
    omega
  refine ⟨(ticks * nanosecondsPerSecond / frequency : Nat), ?_, ?_⟩
  · rw [elapsedWords, if_neg (Nat.ne_of_gt hpos), Wrapped.mul_eq (by omega), pure_bind,
      Wrapped.signed_eq (by decide) hrange]
  · rw [Int.natCast_ediv]
    exact Int.le_ediv_of_mul_le (by exact_mod_cast hpos) hlasts

/-- The conversion is exact and the same on both timers; a period and an elapsed time are no
shorter than what was asked for, unless there are too many ticks. -/
theorem durationToTicks_correct {t : Timer} {s : Stm32Timer} (hf : t.tickFrequencyHz ≠ 0)
    (hs : s.tickFrequencyHz = t.tickFrequencyHz) (duration : Int64) (now : UInt64) :
    (t.durationToTicks duration).toNat = ticksOf t.tickFrequencyHz.toNat duration.toInt ∧
    ticksWords t.tickFrequencyHz.toNat duration.toInt =
      pure (t.durationToTicks duration).toNat ∧
    s.durationToTicks duration = pure (t.durationToTicks duration).toNat ∧
    (ceilTicks t.tickFrequencyHz.toNat duration.toInt.toNat ≤ maximumTick →
      duration.toInt * t.tickFrequencyHz.toNat ≤
        (((t.setPeriod duration now).autoReload.toNat + 1) * nanosecondsPerSecond : Nat) ∧
      (∃ s', s.setPeriod duration = pure s' ∧
        s'.autoReload = (t.setPeriod duration now).autoReload) ∧
      (∀ u later, u.tickFrequencyHz = t.tickFrequencyHz →
        u.getCounter later = t.durationToTicks duration →
        ∃ e, elapsedTime u later = pure e ∧ duration.toInt ≤ e) ∧
      (∀ s' : Stm32Timer, s'.tickFrequencyHz = t.tickFrequencyHz →
        s'.counter = t.durationToTicks duration →
        ∃ e, s'.elapsedTime = pure e ∧ duration.toInt ≤ e)) := by
  have hpos : 0 < t.tickFrequencyHz.toNat := Timer.rate_pos hf
  have hrate : t.tickFrequencyHz.toNat < 2 ^ 32 := t.tickFrequencyHz.toNat_lt
  have hticks := durationToTicks_toNat hf duration
  have hwords : ticksWords t.tickFrequencyHz.toNat duration.toInt =
      pure (t.durationToTicks duration).toNat := by
    rw [ticksWords_eq hpos hrate, hticks]
  have hboth : s.durationToTicks duration = pure (t.durationToTicks duration).toNat := by
    rw [Stm32Timer.durationToTicks, hs, hwords]
  have hlt := (t.durationToTicks duration).toNat_lt
  refine ⟨hticks, hwords, hboth, fun hfits => ⟨le_period hticks rfl hfits, ?_, ?_, ?_⟩⟩
  · refine ⟨_, by rw [Stm32Timer.setPeriod, hboth, pure_bind], ?_⟩
    change (if (t.durationToTicks duration).toNat = 0 then (0 : Tick) else _) =
      if t.durationToTicks duration = 0 then (0 : Tick) else _
    by_cases hzero : t.durationToTicks duration = 0
    · rw [if_pos hzero, if_pos (by rw [hzero]; rfl)]
    · have hne : (t.durationToTicks duration).toNat ≠ 0 := fun h =>
        hzero (UInt32.toNat_inj.mp h)
      rw [if_neg hzero, if_neg hne]
      apply UInt32.toNat_inj.mp
      rw [UInt32.toNat_ofNat', UInt32.toNat_sub_of_le, UInt32.toNat_one]
      · omega
      · rw [UInt32.le_iff_toNat_le, UInt32.toNat_one]
        omega
  · intro u later hu hcounter
    rw [elapsedTime, hu, hcounter]
    exact elapsedWords_le hpos hlt (hticks ▸ le_ticksOf_mul hfits)
  · intro s' hs' hcounter
    rw [Stm32Timer.elapsedTime, hs', hcounter]
    exact elapsedWords_le hpos hlt (hticks ▸ le_ticksOf_mul hfits)

/-- A nanosecond and a half at a megahertz are two ticks. -/
theorem durationToTicks_correct_megahertz :
    (Timer.durationToTicks ⟨1000000, 0, 999, 0, 0, false, false, false, 1, none⟩ 1500).toNat =
      ticksOf 1000000 1500 ∧
    Stm32Timer.durationToTicks ⟨2000000, 1, 999, 0⟩ 1500 = pure 2 := by
  have hcorrect := @durationToTicks_correct
    ⟨1000000, 0, 999, 0, 0, false, false, false, 1, none⟩ ⟨2000000, 1, 999, 0⟩ (by decide)
    (by decide) 1500 0
  exact ⟨hcorrect.1, hcorrect.2.2.1⟩

end TimerDuration
end Hal
end NucleoBase
