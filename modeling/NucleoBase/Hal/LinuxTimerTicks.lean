/-
  NucleoBase.Hal.LinuxTimerTicks

  The arithmetic of the Linux timer (linux/Timer.cpp) operation by operation,
  in `Wrapped`: the counter at a time and the time until it overflows.  No
  operation wraps, so the functions of the model, which compute in 64 bits,
  are exact.  At last, what a call on a running timer does to its time base.
-/

import NucleoBase.Lib.FixedWidth
import NucleoBase.Hal.LinuxTimerCorrect

namespace NucleoBase
namespace Hal
namespace LinuxTimer

open Lib

namespace Timer

/-! ## Word by word -/

/-- `getTickFrequencyHzUnlocked`. -/
def tickFrequencyWords (t : Timer) : Wrapped Nat := do
  let divisor ← Wrapped.add 64 t.prescaler.toNat 1
  Wrapped.narrow 32 (t.timerInputHz.toNat / divisor)

/-- `counterAt`. -/
def counterWords (t : Timer) (now : Nat) : Wrapped Nat := do
  let period ← Wrapped.add 64 t.autoReload.toNat 1
  let frequency ← t.tickFrequencyWords
  if frequency = 0 then pure t.counter.toNat
  else do
    let elapsed ← Wrapped.sub 64 now t.startedAtNanoseconds.toNat
    let product ← Wrapped.mul 64 (elapsed / nanosecondsPerSecond % period) (frequency % period)
    let scaled ← Wrapped.mul 64 (elapsed % nanosecondsPerSecond) frequency
    let elapsedTicks ← Wrapped.add 64 (product % period) (scaled / nanosecondsPerSecond % period)
    let sum ← Wrapped.add 64 t.counter.toNat (elapsedTicks % period)
    Wrapped.narrow 32 (sum % period)

/-- `nanosecondsUntilOverflowUnlocked`. -/
def untilOverflowWords (t : Timer) (now : Nat) : Wrapped Nat := do
  let frequency ← t.tickFrequencyWords
  if frequency = 0 then pure nanosecondsPerSecond
  else do
    let period ← Wrapped.add 64 t.autoReload.toNat 1
    let counter ← if t.running then t.counterWords now else pure (t.counter.toNat % period)
    let ticks ← Wrapped.sub 64 period counter
    let scaled ← Wrapped.mul 64 ticks nanosecondsPerSecond
    let raised ← Wrapped.add 64 scaled frequency
    let rounded ← Wrapped.sub 64 raised 1
    pure (rounded / frequency)

variable {t : Timer} {now : UInt64}

theorem tickFrequencyWords_eq : t.tickFrequencyWords = pure t.tickFrequencyHz.toNat := by
  have hprescaler := t.prescaler.toNat_lt
  have hinput := t.timerInputHz.toNat_lt
  have hdivisor : (t.prescaler.toUInt64 + 1).toNat = t.prescaler.toNat + 1 := by
    rw [UInt64.toNat_add, UInt32.toNat_toUInt64, UInt64.toNat_one]
    exact Nat.mod_eq_of_lt (by omega)
  have hle : t.timerInputHz.toNat / (t.prescaler.toNat + 1) ≤ t.timerInputHz.toNat :=
    Nat.div_le_self _ _
  have hfrequency : t.tickFrequencyHz.toNat = t.timerInputHz.toNat / (t.prescaler.toNat + 1) := by
    rw [tickFrequencyHz, UInt64.toNat_toUInt32, UInt64.toNat_div, hdivisor,
      UInt32.toNat_toUInt64]
    exact Nat.mod_eq_of_lt (by omega)
  rw [tickFrequencyWords, Wrapped.add_eq (by omega), pure_bind, Wrapped.narrow_eq (by omega),
    hfrequency]

theorem counterWords_eq (hf : t.tickFrequencyHz ≠ 0) (hnow : t.startedAtNanoseconds ≤ now) :
    t.counterWords now.toNat =
      pure (t.periodic.value (now.toNat - t.startedAtNanoseconds.toNat)) := by
  have hreload := t.autoReload.toNat_lt
  have hperiod : 0 < t.autoReload.toNat + 1 := Nat.succ_pos _
  have hle : t.autoReload.toNat + 1 ≤ 4294967296 := hreload
  have hcounter := t.counter.toNat_lt
  have hrate := t.tickFrequencyHz.toNat_lt
  have hpos : t.tickFrequencyHz.toNat ≠ 0 := Nat.ne_of_gt (rate_pos hf)
  have hlt := now.toNat_lt
  have hticks := PeriodicCounter.ticks_split (c := t.periodic) unit_pos
    (now.toNat - t.startedAtNanoseconds.toNat)
  simp only [periodic, PeriodicCounter.value, PeriodicCounter.total] at hticks ⊢
  rw [hticks, counterWords, Wrapped.add_eq (by omega), pure_bind, tickFrequencyWords_eq,
    pure_bind, if_neg hpos, Wrapped.sub_eq hlt (UInt64.le_iff_toNat_le.mp hnow), pure_bind]
  generalize now.toNat - t.startedAtNanoseconds.toNat = elapsed
  generalize t.autoReload.toNat + 1 = period at *
  generalize t.tickFrequencyHz.toNat = frequency at *
  have hwhole := Nat.mod_lt (elapsed / nanosecondsPerSecond) hperiod
  have hfrequency := Nat.mod_lt frequency hperiod
  have hproduct : elapsed / nanosecondsPerSecond % period * (frequency % period) ≤
      4294967295 * 4294967295 := Nat.mul_le_mul (by omega) (by omega)
  have hremainder : elapsed % nanosecondsPerSecond < 1000000000 := Nat.mod_lt _ (by decide)
  have hscaled : elapsed % nanosecondsPerSecond * frequency ≤ 1000000000 * 4294967295 :=
    Nat.mul_le_mul (by omega) (by omega)
  rw [Wrapped.mul_eq (by omega), pure_bind, Wrapped.mul_eq (by omega), pure_bind, ← Nat.mul_mod]
  generalize elapsed / nanosecondsPerSecond * frequency = whole
  generalize elapsed % nanosecondsPerSecond * frequency / nanosecondsPerSecond = fractional
  have hw := Nat.mod_lt whole hperiod
  have hr := Nat.mod_lt fractional hperiod
  have hsum := Nat.mod_lt (whole + fractional) hperiod
  have htotal := Nat.mod_lt (t.counter.toNat + (whole + fractional)) hperiod
  rw [Wrapped.add_eq (by omega), pure_bind, ← Nat.add_mod, Wrapped.add_eq (by omega), pure_bind,
    Nat.add_mod_mod, Wrapped.narrow_eq (by omega)]

theorem untilOverflowWords_eq (hf : t.tickFrequencyHz ≠ 0) (hrun : t.running = true)
    (hnow : t.startedAtNanoseconds ≤ now) :
    t.untilOverflowWords now.toNat = pure (t.periodic.delay (t.periodic.period -
      t.periodic.value (now.toNat - t.startedAtNanoseconds.toNat))) := by
  have hreload := t.autoReload.toNat_lt
  have hrate := t.tickFrequencyHz.toNat_lt
  have hpos : t.tickFrequencyHz.toNat ≠ 0 := Nat.ne_of_gt (rate_pos hf)
  have hvalue : t.periodic.value (now.toNat - t.startedAtNanoseconds.toNat) <
      t.autoReload.toNat + 1 := Nat.mod_lt _ (Nat.succ_pos _)
  rw [untilOverflowWords, tickFrequencyWords_eq, pure_bind, if_neg hpos,
    Wrapped.add_eq (by omega), pure_bind, hrun, if_pos rfl, counterWords_eq hf hnow, pure_bind]
  generalize t.periodic.value (now.toNat - t.startedAtNanoseconds.toNat) = value at hvalue ⊢
  simp only [PeriodicCounter.delay, periodic, nanosecondsPerSecond]
  rw [Wrapped.sub_eq (by omega) (by omega), pure_bind, Wrapped.mul_eq (by omega), pure_bind,
    Wrapped.add_eq (by omega), pure_bind, Wrapped.sub_eq (by omega) (by omega), pure_bind]

/-! ## Exactness -/

/-- The counter is what unbounded integers give, and overflows exactly once in the time until
its overflow; nothing on the way to either wraps. -/
theorem counterAt_exact (hf : t.tickFrequencyHz ≠ 0) (hnow : t.startedAtNanoseconds ≤ now) :
    (t.counterAt now).toNat = (t.counter.toNat +
        (now.toNat - t.startedAtNanoseconds.toNat) * t.tickFrequencyHz.toNat / 1000000000) %
      (t.autoReload.toNat + 1) ∧
    t.counterWords now.toNat = pure (t.counterAt now).toNat ∧
    (t.running = true → t.tickFrequencyHz.toNat ≤ 1000000000 → 1 ≤ t.autoReload.toNat →
      t.untilOverflowWords now.toNat = pure (t.nanosecondsUntilOverflow now).toNat ∧
      t.periodic.overflows (now.toNat - t.startedAtNanoseconds.toNat +
          (t.nanosecondsUntilOverflow now).toNat) =
        t.periodic.overflows (now.toNat - t.startedAtNanoseconds.toNat) + 1) := by
  have hcounter := counterAt_toNat hf hnow
  refine ⟨hcounter, ?_, fun hrun hslow hreload => ?_⟩
  · rw [counterWords_eq hf hnow, hcounter]
  · rw [untilOverflowWords_eq hf hrun hnow, nanosecondsUntilOverflow_toNat hf hrun hnow]
    exact ⟨rfl, PeriodicCounter.overflows_delay unit_pos (rate_pos hf) hslow
      (Nat.succ_le_succ hreload) _⟩

/-- A timer of one megahertz and a period of a second, half a millisecond before its overflow. -/
theorem counterAt_exact_running :
    let t : Timer := ⟨1000000, 0, 999999, 999000, 7, true, true, false, 1, none⟩
    (t.counterAt 500007).toNat = 999500 ∧
      t.periodic.overflows (500000 + (t.nanosecondsUntilOverflow 500007).toNat) =
        t.periodic.overflows 500000 + 1 := by
  have hexact := @counterAt_exact ⟨1000000, 0, 999999, 999000, 7, true, true, false, 1, none⟩
    500007 (by decide) (by decide)
  exact ⟨hexact.1, (hexact.2.2 rfl (by decide) (by decide)).2⟩

/-! ## The time base -/

def getCounter (t : Timer) (now : UInt64) : Tick :=
  if t.running then t.counterAt now else t.counter

/-- A call that asks of a running timer what it does already. -/
inductive Reassertion
  | start | startIt | setAutoReload | setPrescaler
  deriving DecidableEq, Repr

def Reassertion.operation (t : Timer) : Reassertion → Operation
  | .start => .start
  | .startIt => .startIt
  | .setAutoReload => .setAutoReload t.autoReload
  | .setPrescaler => .setPrescaler t.prescaler

/-- The timer after a call; it stays as it is if the call fails. -/
def reassert (t : Timer) (call : Reassertion × UInt64) : Timer :=
  (t.apply call.2 (call.1.operation t)).getD t

def reassertAll (t : Timer) (calls : List (Reassertion × UInt64)) : Timer :=
  calls.foldl reassert t

/-- After any of the calls, the counter reads as if there had been none. -/
def Unnoticed (t : Timer) (calls : List (Reassertion × UInt64)) : Prop :=
  ∀ made, made <+: calls → ∀ now, (t.reassertAll made).startedAtNanoseconds ≤ now →
    (t.reassertAll made).getCounter now = t.getCounter now

/-- The counter has just counted a tick at that time. -/
def AtTick (t : Timer) (now : UInt64) : Prop :=
  (now.toNat - t.startedAtNanoseconds.toNat) * t.tickFrequencyHz.toNat % nanosecondsPerSecond = 0

/-- What a call leaves as it is, and what it takes anew. -/
structure Rebased (t t' : Timer) (now : UInt64) : Prop where
  running : t'.running = true
  autoReload : t'.autoReload = t.autoReload
  frequency : t'.tickFrequencyHz = t.tickFrequencyHz
  counter : t'.counter = t.counterAt now
  started : t'.startedAtNanoseconds = now

theorem reassert_rebased (hrun : t.running = true) (hf : t.tickFrequencyHz ≠ 0)
    (r : Reassertion) : Rebased t (t.reassert (r, now)) now := by
  cases r with
  | start | startIt =>
      simp only [reassert, Reassertion.operation, apply, start, startIt, startWith, if_neg hf,
        Option.getD_some, captureCounter, hrun, if_true]
      exact ⟨rfl, rfl, rfl, rfl, rfl⟩
  | setAutoReload | setPrescaler =>
      simp only [reassert, Reassertion.operation, apply, setAutoReload, setPrescaler,
        Option.getD_some, captureCounter, hrun, if_true]
      exact ⟨rfl, rfl, rfl, rfl, rfl⟩

theorem getCounter_toNat (hrun : t.running = true) (hf : t.tickFrequencyHz ≠ 0)
    (hnow : t.startedAtNanoseconds ≤ now) :
    (t.getCounter now).toNat =
      t.periodic.value (now.toNat - t.startedAtNanoseconds.toNat) := by
  rw [getCounter, hrun, if_pos rfl, counterAt_toNat hf hnow]

/-- What a timer that was rebased reads later: the ticks are counted in two parts. -/
theorem Rebased.getCounter {t' : Timer} {later : UInt64} (h : Rebased t t' now)
    (hf : t.tickFrequencyHz ≠ 0) (hnow : t.startedAtNanoseconds ≤ now) (hlater : now ≤ later) :
    (t'.getCounter later).toNat = (t.counter.toNat +
      ((now.toNat - t.startedAtNanoseconds.toNat) * t.tickFrequencyHz.toNat /
          nanosecondsPerSecond +
        (later.toNat - now.toNat) * t.tickFrequencyHz.toNat / nanosecondsPerSecond)) %
      (t.autoReload.toNat + 1) := by
  rw [getCounter_toNat h.running (h.frequency ▸ hf) (h.started ▸ hlater)]
  simp only [periodic, PeriodicCounter.value, PeriodicCounter.total, PeriodicCounter.ticks,
    h.counter, h.frequency, h.autoReload, h.started]
  rw [counterAt_toNat hf hnow]
  simp only [periodic, PeriodicCounter.value, PeriodicCounter.total, PeriodicCounter.ticks]
  rw [Nat.mod_add_mod, Nat.add_assoc]

/-- Ticks counted in two parts are counted at once if the first part is whole. -/
theorem div_add_div_of_whole {x y unit : Nat} (h : x % unit = 0) :
    x / unit + y / unit = (x + y) / unit := by
  obtain ⟨k, rfl⟩ := Nat.dvd_of_mod_eq_zero h
  rcases Nat.eq_zero_or_pos unit with rfl | hunit
  · simp
  · rw [Nat.mul_div_cancel_left _ hunit, Nat.mul_add_div hunit]

/-- The elapsed time until later is the time until now and the time from then. -/
theorem elapsed_add {later : UInt64} (hnow : t.startedAtNanoseconds ≤ now) (hlater : now ≤ later)
    (f : Nat) :
    (now.toNat - t.startedAtNanoseconds.toNat) * f + (later.toNat - now.toNat) * f =
      (later.toNat - t.startedAtNanoseconds.toNat) * f := by
  have hfirst := UInt64.le_iff_toNat_le.mp hnow
  have hsecond := UInt64.le_iff_toNat_le.mp hlater
  rw [← Nat.add_mul]
  congr 1
  omega

theorem Rebased.getCounter_of_atTick {t' : Timer} {later : UInt64} (h : Rebased t t' now)
    (hrun : t.running = true) (hf : t.tickFrequencyHz ≠ 0) (hnow : t.startedAtNanoseconds ≤ now)
    (hlater : now ≤ later) (htick : t.autoReload = 0 ∨ t.AtTick now) :
    t'.getCounter later = t.getCounter later := by
  have hall : t.startedAtNanoseconds ≤ later := UInt64.le_trans hnow hlater
  apply UInt32.toNat_inj.mp
  rw [h.getCounter hf hnow hlater, getCounter_toNat hrun hf hall]
  simp only [periodic, PeriodicCounter.value, PeriodicCounter.total, PeriodicCounter.ticks]
  rcases htick with hreload | htick
  · rw [hreload, UInt32.toNat_zero, Nat.zero_add, Nat.mod_one, Nat.mod_one]
  · rw [div_add_div_of_whole htick, elapsed_add hnow hlater]

/-- Within a second of a time that is not at a tick, the two parts miss a tick. -/
theorem exists_missed {x f unit : Nat} (e : Nat) (hunit : 0 < unit) (hx : e * f = x)
    (hrest : x % unit ≠ 0) :
    ∃ k < unit, (x + k * f) / unit = x / unit + k * f / unit + 1 := by
  have hlt := Nat.mod_lt x hunit
  refine ⟨(unit - 1) * e % unit, Nat.mod_lt _ hunit, ?_⟩
  have hback : (unit - 1) * e % unit * f % unit = unit - x % unit := by
    have hmul : ((unit - 1) * e * f + x) % unit = 0 := by
      rw [Nat.mul_assoc, hx]
      have hsum : (unit - 1) * x + x = unit * x := by
        rw [← Nat.add_one_mul, Nat.sub_add_cancel hunit]
      rw [hsum, Nat.mul_mod_right]
    rw [Nat.mod_mul_mod]
    have hother := Nat.mod_lt ((unit - 1) * e * f) hunit
    rw [Nat.add_mod] at hmul
    have hzero : ((unit - 1) * e * f % unit + x % unit) = unit := by
      rcases Nat.lt_or_ge ((unit - 1) * e * f % unit + x % unit) unit with h | h
      · rw [Nat.mod_eq_of_lt h] at hmul
        omega
      · rw [Nat.mod_eq_sub_mod h, Nat.mod_eq_of_lt (by omega)] at hmul
        omega
    omega
  have hsplitx := Nat.div_add_mod x unit
  have hsplity := Nat.div_add_mod ((unit - 1) * e % unit * f) unit
  rw [hback] at hsplity
  generalize (unit - 1) * e % unit * f = y at hsplity ⊢
  rw [Nat.div_eq_iff hunit]
  have hexpand : (x / unit + y / unit + 1) * unit =
      unit * (x / unit) + unit * (y / unit) + unit := by
    rw [Nat.add_mul, Nat.add_mul, Nat.one_mul, Nat.mul_comm unit, Nat.mul_comm unit]
  constructor <;> omega

theorem Rebased.atTick {t' : Timer} (h : Rebased t t' now) (hrun : t.running = true)
    (hf : t.tickFrequencyHz ≠ 0) (hnow : t.startedAtNanoseconds ≤ now)
    (hclock : now.toNat < 9223372036854775808)
    (hsame : ∀ later, now ≤ later → t'.getCounter later = t.getCounter later) :
    t.autoReload = 0 ∨ t.AtTick now := by
  by_contra hno
  rw [not_or] at hno
  obtain ⟨hreload, htick⟩ := hno
  obtain ⟨k, hk, hmissed⟩ := exists_missed (now.toNat - t.startedAtNanoseconds.toNat)
    (show 0 < nanosecondsPerSecond by decide) rfl htick
  have hk' : k < 1000000000 := hk
  have hlaterNat : (now + UInt64.ofNat k).toNat = now.toNat + k := by
    rw [UInt64.toNat_add, UInt64.toNat_ofNat', Nat.mod_eq_of_lt (a := k) (by omega)]
    exact Nat.mod_eq_of_lt (by omega)
  have hlater : now ≤ now + UInt64.ofNat k := by
    rw [UInt64.le_iff_toNat_le, hlaterNat]
    omega
  have hequal := congrArg UInt32.toNat (hsame _ hlater)
  have helapsed := elapsed_add hnow hlater t.tickFrequencyHz.toNat
  rw [h.getCounter hf hnow hlater, getCounter_toNat hrun hf (UInt64.le_trans hnow hlater)] at hequal
  simp only [periodic, PeriodicCounter.value, PeriodicCounter.total, PeriodicCounter.ticks]
    at hequal
  rw [← helapsed, hlaterNat, Nat.add_sub_cancel_left, hmissed, ← Nat.add_assoc,
    ← Nat.add_assoc, ← Nat.add_assoc] at hequal
  generalize t.counter.toNat + _ + _ = total at hequal
  -- one more tick is another count, unless there is only one
  have hperiod : 1 < t.autoReload.toNat + 1 := by
    have hpos : t.autoReload.toNat ≠ 0 := fun hzero => hreload (UInt32.toNat_inj.mp hzero)
    omega
  have hdivides : (t.autoReload.toNat + 1) ∣ (total + 1 - total) :=
    (Nat.modEq_iff_dvd' (Nat.le_succ total)).mp hequal
  rw [Nat.add_sub_cancel_left] at hdivides
  exact absurd (Nat.le_of_dvd (by decide) hdivides) (by omega)

/-- A timer that never ticks reads its counter, and keeps it. -/
theorem getCounter_of_frequency (hf : t.tickFrequencyHz = 0) : t.getCounter now = t.counter := by
  have hzero : t.tickFrequencyHz.toUInt64 = 0 := by
    rw [hf]
    rfl
  rw [getCounter]
  split
  · simp only [counterAt, hzero, if_true]
  · rfl

theorem reassert_of_frequency (hf : t.tickFrequencyHz = 0) (call : Reassertion × UInt64) :
    (t.reassert call).tickFrequencyHz = 0 ∧ (t.reassert call).counter = t.counter := by
  obtain ⟨r, now⟩ := call
  have hcapture : t.captureCounter now = t := by
    rw [captureCounter]
    split
    · next hrun =>
        have hcounter : t.getCounter now = t.counter := getCounter_of_frequency hf
        rw [getCounter, if_pos hrun] at hcounter
        rw [hcounter]
    · rfl
  cases r with
  | start | startIt =>
      simp only [reassert, Reassertion.operation, apply, start, startIt, startWith, if_pos hf,
        Option.getD_none]
      exact ⟨hf, trivial⟩
  | setAutoReload | setPrescaler =>
      simp only [reassert, Reassertion.operation, apply, setAutoReload, setPrescaler,
        Option.getD_some, hcapture]
      exact ⟨hf, trivial⟩

theorem reassertAll_of_frequency (hf : t.tickFrequencyHz = 0)
    (calls : List (Reassertion × UInt64)) :
    (t.reassertAll calls).tickFrequencyHz = 0 ∧ (t.reassertAll calls).counter = t.counter := by
  induction calls generalizing t with
  | nil => exact ⟨hf, rfl⟩
  | cons call calls ih =>
      obtain ⟨hf', hcounter⟩ := reassert_of_frequency hf call
      obtain ⟨hlast, hkept⟩ := ih hf'
      exact ⟨hlast, hkept.trans hcounter⟩

/-- A time is at a tick of the first time base if it is of one that began at such a tick. -/
theorem Rebased.atTick_iff {t' : Timer} {later : UInt64} (h : Rebased t t' now)
    (hnow : t.startedAtNanoseconds ≤ now) (hlater : now ≤ later) (htick : t.AtTick now) :
    t'.AtTick later ↔ t.AtTick later := by
  have helapsed := elapsed_add hnow hlater t.tickFrequencyHz.toNat
  simp only [AtTick, h.frequency, h.started] at htick ⊢
  rw [← helapsed, Nat.add_mod, htick, Nat.zero_add, Nat.mod_mod]

/-- Calls do not take the time base back. -/
theorem reassertAll_started {calls : List (Reassertion × UInt64)} (hrun : t.running = true)
    (hf : t.tickFrequencyHz ≠ 0)
    (htimes : (t.startedAtNanoseconds :: calls.map Prod.snd).Pairwise (· ≤ ·)) :
    t.startedAtNanoseconds ≤ (t.reassertAll calls).startedAtNanoseconds := by
  induction calls generalizing t with
  | nil => exact UInt64.le_refl _
  | cons call calls ih =>
      obtain ⟨r, now⟩ := call
      obtain ⟨hfirst, hrest⟩ := List.pairwise_cons.mp htimes
      have hbase : Rebased t (t.reassert (r, now)) now := reassert_rebased hrun hf r
      have hlast := ih hbase.running (hbase.frequency ▸ hf) (hbase.started.symm ▸ hrest)
      rw [hbase.started] at hlast
      exact UInt64.le_trans (hfirst now (by simp)) hlast

/-- Calls go unnoticed exactly if each of them is made at a tick, or the counter has one
value only. -/
theorem unnoticed_iff {calls : List (Reassertion × UInt64)} (hrun : t.running = true)
    (htimes : (t.startedAtNanoseconds :: calls.map Prod.snd).Pairwise (· ≤ ·))
    (hclock : ∀ call ∈ calls, call.2.toNat < 9223372036854775808) :
    t.Unnoticed calls ↔ t.autoReload = 0 ∨ ∀ call ∈ calls, t.AtTick call.2 := by
  by_cases hf : t.tickFrequencyHz = 0
  · refine ⟨fun _ => .inr fun call _ => ?_, fun _ made _ now _ => ?_⟩
    · rw [AtTick, hf, UInt32.toNat_zero, Nat.mul_zero, Nat.zero_mod]
    · obtain ⟨hfrequency, hcounter⟩ := reassertAll_of_frequency hf made
      rw [getCounter_of_frequency hfrequency, getCounter_of_frequency hf, hcounter]
  induction calls generalizing t with
  | nil =>
      refine ⟨fun _ => .inr nofun, fun _ made hmade now _ => ?_⟩
      rw [List.prefix_nil.mp hmade]
      rfl
  | cons call calls ih =>
      obtain ⟨r, now⟩ := call
      obtain ⟨hfirst, hrest⟩ := List.pairwise_cons.mp htimes
      rw [List.map_cons] at hrest
      have hnow : t.startedAtNanoseconds ≤ now := hfirst now (by simp)
      have hbase : Rebased t (t.reassert (r, now)) now := reassert_rebased hrun hf r
      have hafter : ((t.reassert (r, now)).startedAtNanoseconds :: calls.map Prod.snd).Pairwise
          (· ≤ ·) := hbase.started.symm ▸ hrest
      have hafterIff := ih hbase.running hafter
        (fun call hcall => hclock call (List.mem_cons_of_mem _ hcall)) (hbase.frequency ▸ hf)
      have hlate : ∀ call ∈ calls, now ≤ call.2 := fun call hcall =>
        (List.pairwise_cons.mp hrest).1 _ (List.mem_map_of_mem hcall)
      have hreached : ∀ made, made <+: calls →
          now ≤ ((t.reassert (r, now)).reassertAll made).startedAtNanoseconds := by
        intro made hmade
        have htimes' := hafter.sublist ((hmade.map Prod.snd).sublist.cons_cons _)
        have hle := reassertAll_started hbase.running (hbase.frequency ▸ hf) htimes'
        rwa [hbase.started] at hle
      constructor
      · intro hcalls
        have hone : ∀ later, now ≤ later →
            (t.reassert (r, now)).getCounter later = t.getCounter later := fun later hlater =>
          hcalls [(r, now)] (List.prefix_append [_] calls) later
            (UInt64.le_trans (UInt64.le_of_eq hbase.started) hlater)
        rcases hbase.atTick hrun hf hnow (hclock (r, now) List.mem_cons_self) hone with
          hreload | htick
        · exact .inl hreload
        have hothers := hafterIff.mp fun made hmade later hlater => by
          have hmore := hcalls ((r, now) :: made) ((List.prefix_cons_inj _).mpr hmade) later hlater
          exact hmore.trans (hone later (UInt64.le_trans (hreached made hmade) hlater)).symm
        rw [hbase.autoReload] at hothers
        refine hothers.imp id fun hticks call hcall => ?_
        rcases List.mem_cons.mp hcall with rfl | hcall
        · exact htick
        · exact (hbase.atTick_iff hnow (hlate call hcall) htick).mp (hticks call hcall)
      · intro hticks made hmade later hlater
        have hfirstTick : t.autoReload = 0 ∨ t.AtTick now :=
          hticks.imp id fun h => h (r, now) List.mem_cons_self
        have hothers : (t.reassert (r, now)).Unnoticed calls := by
          refine hafterIff.mpr ?_
          rw [hbase.autoReload]
          refine hticks.imp id fun h call hcall => ?_
          exact (hbase.atTick_iff hnow (hlate call hcall) (h (r, now) List.mem_cons_self)).mpr
            (h call (List.mem_cons_of_mem _ hcall))
        cases made with
        | nil => rfl
        | cons first made =>
            obtain ⟨rfl, hrestMade⟩ := List.cons_prefix_cons.mp hmade
            have hstart := UInt64.le_trans (hreached made hrestMade) hlater
            exact (hothers made hrestMade later hlater).trans
              (hbase.getCounter_of_atTick hrun hf hnow hstart hfirstTick)

/-- Two calls at a kilohertz, after one and after two ticks. -/
theorem unnoticed_iff_kilohertz :
    let t : Timer := ⟨1000, 0, 999, 0, 0, true, false, false, 1, none⟩
    t.Unnoticed [(.start, 1000000), (.setPrescaler, 2000000)] ↔
      t.autoReload = 0 ∨
        ∀ call ∈ [(Reassertion.start, 1000000), (.setPrescaler, 2000000)], t.AtTick call.2 :=
  unnoticed_iff rfl (by decide) (by decide)

/-- A call in the middle of a tick loses what has passed of it. -/
theorem start_noticed :
    let t : Timer := ⟨1000, 0, 999, 0, 0, true, false, false, 1, none⟩
    t.running = true ∧ (t.reassertAll [(.start, 500000)]).getCounter 1000000 = 0 ∧
      t.getCounter 1000000 = 1 := by
  decide

end Timer

end LinuxTimer
end Hal
end NucleoBase
