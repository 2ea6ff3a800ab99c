/-
  NucleoBase.Backend.HighResolution

  The time since the start from a hardware timer (backend.cpp): the timer
  counts in a word that wraps, ThreadX counts coarse ticks that do not, and
  `high_resolution_elapsed_nanoseconds` takes the wraps from the difference.

  A call reads the timer field by field; what it reads is one `TimerReading`.
-/

import NucleoBase.Backend.TimedWait
import NucleoBase.Lib.PeriodicCounter
import Mathlib.Tactic.Linarith

namespace NucleoBase
namespace Backend
namespace HighResolution

open Lib TimedWait

/-! ## Readings -/

/-- The answers of the timer, in the order of the questions. -/
structure TimerReading where
  stateVersion : Nat
  running : Bool
  counter : Nat
  tickFrequencyHz : Nat
  autoReload : Nat
  runningAfter : Bool
  stateVersionAfter : Nat
  deriving DecidableEq, Repr

/-- `HighResolutionCounter`. -/
structure HighResolutionCounter where
  ticks : Nat
  ticksPerSecond : Nat
  modulus : Nat
  stateVersion : Nat
  deriving DecidableEq, Repr

/-- `valid_high_resolution_counter`. -/
def HighResolutionCounter.Valid (c : HighResolutionCounter) : Prop :=
  c.ticksPerSecond ≠ 0 ∧ c.ticksPerSecond ≤ nanosecondsPerSecond ∧
    (c.modulus = 0 ∨ c.ticks < c.modulus)

instance (c : HighResolutionCounter) : Decidable c.Valid :=
  inferInstanceAs (Decidable (_ ∧ _ ∧ _))

/-- `read_high_resolution_counter`: the counter it leaves and its result.  There
may be no timer. -/
def readHighResolutionCounter (counter : HighResolutionCounter) :
    Option TimerReading → Wrapped (HighResolutionCounter × Bool)
  | none => pure (counter, false)
  | some r =>
      if r.running = false then pure (counter, false)
      else do
        let modulus ← Wrapped.add 64 r.autoReload 1
        let read : HighResolutionCounter :=
          ⟨r.counter, r.tickFrequencyHz, modulus, r.stateVersion⟩
        pure (read, r.runningAfter && r.stateVersionAfter == r.stateVersion && decide read.Valid)

/-- What a later call finds. -/
structure Clock where
  /-- `high_resolution_counter_available`. -/
  available : Bool
  /-- `high_resolution_counter_epoch`. -/
  epoch : HighResolutionCounter
  /-- `system_clock_epoch_ticks`. -/
  epochTicks : Nat
  deriving DecidableEq, Repr

/-- The part of the initialization that is about the timer. -/
def initializeClock (reading : Option TimerReading) (epochTicks : Nat) : Wrapped Clock := do
  let (epoch, available) ← readHighResolutionCounter ⟨0, 0, 0, 0⟩ reading
  pure ⟨available, epoch, epochTicks⟩

/-! ## Conversions -/

/-- `std::numeric_limits<std::uint64_t>::max()`. -/
def maximumUnsigned : Nat := 18446744073709551615

/-- `ticks` at `unit` a second as ticks at `rate` a second, unless they are
more than `limit`. -/
def convertTicks (rate unit limit ticks : Nat) : Wrapped (Option Nat) := do
  let scaled ← Wrapped.mul 64 (ticks % unit) rate
  let room ← Wrapped.sub 64 limit (scaled / unit)
  if room / rate < ticks / unit then pure none
  else do
    let whole ← Wrapped.mul 64 (ticks / unit) rate
    let total ← Wrapped.add 64 whole (scaled / unit)
    pure (some total)

/-- `thread_ticks_to_counter_ticks`. -/
def threadTicksToCounterTicks (ticks frequency : Nat) : Wrapped (Option Nat) :=
  convertTicks frequency ticksPerSecond maximumUnsigned ticks

/-- `counter_ticks_to_nanoseconds`. -/
def counterTicksToNanoseconds (ticks frequency : Nat) : Wrapped (Option Nat) :=
  convertTicks nanosecondsPerSecond frequency maximum.toNat ticks

/-! ## Elapsed ticks -/

/-- The ticks from the epoch as the wrapped counter has them. -/
def modularElapsed (epoch current : HighResolutionCounter) : Wrapped Nat :=
  if epoch.ticks ≤ current.ticks then Wrapped.sub 64 current.ticks epoch.ticks
  else do
    let rest ← Wrapped.sub 64 current.modulus epoch.ticks
    Wrapped.add 64 rest current.ticks

/-- How often the counter has wrapped, going by the coarse clock. -/
def wrapsOf (modulus modular coarse : Nat) : Wrapped (Option Nat) :=
  if modular ≤ coarse then do
    let difference ← Wrapped.sub 64 coarse modular
    let missing ← Wrapped.sub 64 modulus (difference % modulus)
    if missing ≤ difference % modulus then do
      let wraps ← Wrapped.add 64 (difference / modulus) 1
      pure (some wraps)
    else pure (some (difference / modulus))
  else do
    let ahead ← Wrapped.sub 64 modular coarse
    -- a reset or stopped timer can look like a wrap
    if modulus / 2 < ahead then pure none else pure (some 0)

/-- The ticks from the epoch, unless 64 bits do not hold them. -/
def elapsedTicks (modulus modular coarse : Nat) : Wrapped (Option Nat) := do
  match ← wrapsOf modulus modular coarse with
  | none => pure none
  | some wraps =>
      let room ← Wrapped.sub 64 maximumUnsigned modular
      if room / modulus < wraps then pure none
      else do
        let whole ← Wrapped.mul 64 wraps modulus
        let total ← Wrapped.add 64 modular whole
        pure (some total)

/-- `elapsed_counter_ticks` of a counter with the settings of the epoch. -/
def elapsedCounterTicks (clock : Clock) (current : HighResolutionCounter)
    (currentThreadTicks : Nat) : Wrapped (Option Nat) :=
  if current.modulus = 0 then
    if current.ticks < clock.epoch.ticks then pure none
    else do
      let ticks ← Wrapped.sub 64 current.ticks clock.epoch.ticks
      pure (some ticks)
  else do
    let modular ← modularElapsed clock.epoch current
    let threadTicks ← Wrapped.sub 64 currentThreadTicks clock.epochTicks
    match ← threadTicksToCounterTicks threadTicks current.ticksPerSecond with
    | none => pure none
    | some coarse => elapsedTicks current.modulus modular coarse

/-- `high_resolution_elapsed_nanoseconds`: its result, unless it returns false,
and whether the counter stays available. -/
def highResolutionElapsedNanoseconds (clock : Clock) (reading : Option TimerReading)
    (currentThreadTicks : Nat) : Wrapped (Option Nat × Bool) := do
  if clock.available = false then pure (none, false)
  else do
    let (current, valid) ← readHighResolutionCounter ⟨0, 0, 0, 0⟩ reading
    if !valid || current.stateVersion != clock.epoch.stateVersion ||
        current.ticksPerSecond != clock.epoch.ticksPerSecond ||
        current.modulus != clock.epoch.modulus then pure (none, false)
    else
      match ← elapsedCounterTicks clock current currentThreadTicks with
      | none => pure (none, true)
      | some elapsed => do
          let result ← counterTicksToNanoseconds elapsed current.ticksPerSecond
          pure (result, true)

/-! ## Conversions are exact -/

/-- A conversion gives the whole ticks, unless they are more than the limit. -/
theorem convertTicks_eq {rate unit limit ticks : Nat} (hunit : 0 < unit) (hrate : 0 < rate)
    (hfits : unit * rate ≤ 2 ^ 64) (hfraction : rate ≤ limit) (hlimit : limit < 2 ^ 64) :
    convertTicks rate unit limit ticks =
      pure (if ticks * rate / unit ≤ limit then some (ticks * rate / unit) else none) := by
  have hsplit : ticks * rate / unit = ticks / unit * rate + ticks % unit * rate / unit :=
    PeriodicCounter.ticks_split (c := ⟨0, rate, unit, 1⟩) hunit ticks
  have hscaled : ticks % unit * rate < unit * rate :=
    Nat.mul_lt_mul_of_pos_right (Nat.mod_lt _ hunit) hrate
  have hfractional : ticks % unit * rate / unit < rate :=
    Nat.div_lt_of_lt_mul hscaled
  have hroom : (limit - ticks % unit * rate / unit) / rate < ticks / unit ↔
      ¬ ticks * rate / unit ≤ limit := by
    rw [Nat.div_lt_iff_lt_mul hrate, hsplit]
    omega
  rw [convertTicks, Wrapped.mul_eq (by omega), pure_bind, Wrapped.sub_eq hlimit (by omega),
    pure_bind]
  by_cases hover : (limit - ticks % unit * rate / unit) / rate < ticks / unit
  · rw [if_pos hover, if_neg (hroom.mp hover)]
  · have hin : ticks * rate / unit ≤ limit := by
      by_contra hout
      exact hover (hroom.mpr hout)
    rw [hsplit] at hin
    have hwhole : ticks / unit * rate ≤ limit := Nat.le_trans (Nat.le_add_right _ _) hin
    rw [if_neg hover, hsplit, if_pos hin, Wrapped.mul_eq (by omega), pure_bind,
      Wrapped.add_eq (by omega), pure_bind]

theorem threadTicksToCounterTicks_eq {ticks frequency : Nat} (hpos : 0 < frequency)
    (hslow : frequency ≤ nanosecondsPerSecond) :
    threadTicksToCounterTicks ticks frequency =
      pure (if ticks * frequency / ticksPerSecond ≤ maximumUnsigned then
        some (ticks * frequency / ticksPerSecond) else none) := by
  simp only [nanosecondsPerSecond] at hslow
  refine convertTicks_eq (by decide) hpos ?_ ?_ (by decide)
  · simp only [ticksPerSecond]
    omega
  · simp only [maximumUnsigned]
    omega

theorem counterTicksToNanoseconds_eq {ticks frequency : Nat} (hpos : 0 < frequency)
    (hslow : frequency ≤ nanosecondsPerSecond) :
    counterTicksToNanoseconds ticks frequency =
      pure (if ticks * nanosecondsPerSecond / frequency ≤ maximum.toNat then
        some (ticks * nanosecondsPerSecond / frequency) else none) := by
  simp only [nanosecondsPerSecond] at hslow
  refine convertTicks_eq hpos (by decide) ?_ (by decide) (by decide)
  simp only [nanosecondsPerSecond]
  omega

/-! ## Wraps -/

/-- The counter after `elapsed` ticks from `first`. -/
theorem modularElapsed_eq {epoch current : HighResolutionCounter} {elapsed : Nat}
    (hmodulus : current.modulus ≤ 2 ^ 32) (hepoch : epoch.ticks < current.modulus)
    (hcurrent : current.ticks = (epoch.ticks + elapsed) % current.modulus) :
    modularElapsed epoch current = pure (elapsed % current.modulus) := by
  have hlt : current.ticks < current.modulus := by
    rw [hcurrent]
    exact Nat.mod_lt _ (by omega)
  have hrest : elapsed % current.modulus < current.modulus := Nat.mod_lt _ (by omega)
  rw [Nat.add_mod, Nat.mod_eq_of_lt hepoch] at hcurrent
  rw [modularElapsed]
  -- one turn more or not, from the epoch's count
  rcases Nat.lt_or_ge (epoch.ticks + elapsed % current.modulus) current.modulus with hturn | hturn
  · rw [Nat.mod_eq_of_lt hturn] at hcurrent
    rw [if_pos (by omega), Wrapped.sub_eq (by omega) (by omega), hcurrent,
      Nat.add_sub_cancel_left]
  · rw [Nat.mod_eq_sub_mod hturn, Nat.mod_eq_of_lt (by omega)] at hcurrent
    rw [if_neg (by omega), Wrapped.sub_eq (by omega) (by omega), pure_bind,
      Wrapped.add_eq (by omega)]
    congr 1
    omega

/-- A multiple that is nearer than half the modulus is the rounded one. -/
theorem wraps_unique {modulus : Nat} (difference wraps : Nat) (hpos : 0 < modulus)
    (hnear : 2 * ((wraps * modulus : Int) - difference) < modulus ∧
      2 * ((difference : Int) - wraps * modulus) < modulus) :
    wraps = difference / modulus ∧ ¬ modulus - difference % modulus ≤ difference % modulus ∨
      wraps = difference / modulus + 1 ∧
        modulus - difference % modulus ≤ difference % modulus := by
  have hdivision := Nat.div_add_mod difference modulus
  have hrest : difference % modulus < modulus := Nat.mod_lt _ hpos
  generalize difference / modulus = q at hdivision ⊢
  generalize difference % modulus = r at hdivision hrest ⊢
  have hcast : (difference : Int) = modulus * q + r := by exact_mod_cast hdivision.symm
  rw [hcast] at hnear
  rcases Nat.lt_trichotomy wraps q with hless | rfl | hmore
  · obtain ⟨k, rfl⟩ := Nat.exists_eq_add_of_lt hless
    push_cast at hnear
    nlinarith [hnear.2]
  · left
    refine ⟨rfl, ?_⟩
    have : 2 * (r : Int) < modulus := by linarith [hnear.2, Int.mul_comm (modulus : Int) wraps]
    omega
  · right
    obtain ⟨k, rfl⟩ := Nat.exists_eq_add_of_lt hmore
    push_cast at hnear
    have hk : k = 0 := by
      by_contra hk
      have : 1 ≤ k := Nat.one_le_iff_ne_zero.mpr hk
      nlinarith [hnear.1]
    subst hk
    refine ⟨rfl, ?_⟩
    have : (modulus : Int) < 2 * r := by
      push_cast at hnear
      linarith [hnear.1, Int.mul_comm (modulus : Int) q]
    omega

/-- The wraps that the coarse clock gives are the true ones. -/
theorem wrapsOf_eq {modulus elapsed coarse : Nat} (hpos : 0 < modulus)
    (hmodulus : modulus ≤ 2 ^ 32) (hcoarse : coarse < 2 ^ 64)
    (hnear : 2 * ((elapsed : Int) - coarse) < modulus ∧ 2 * ((coarse : Int) - elapsed) < modulus) :
    wrapsOf modulus (elapsed % modulus) coarse = pure (some (elapsed / modulus)) := by
  have hdivision := Nat.div_add_mod elapsed modulus
  have hrest : elapsed % modulus < modulus := Nat.mod_lt _ hpos
  rw [Nat.mul_comm] at hdivision
  have hcast : (elapsed : Int) =
      (elapsed / modulus : Nat) * modulus + (elapsed % modulus : Nat) := by
    exact_mod_cast hdivision.symm
  rw [wrapsOf]
  by_cases hahead : elapsed % modulus ≤ coarse
  · have hunique := wraps_unique (coarse - elapsed % modulus) (elapsed / modulus) hpos
      (by omega)
    have hremainder : (coarse - elapsed % modulus) % modulus < modulus := Nat.mod_lt _ hpos
    have hquotient : (coarse - elapsed % modulus) / modulus ≤ coarse - elapsed % modulus :=
      Nat.div_le_self _ _
    rw [if_pos hahead, Wrapped.sub_eq hcoarse hahead, pure_bind,
      Wrapped.sub_eq (by omega) (Nat.le_of_lt hremainder), pure_bind]
    rcases hunique with ⟨hwraps, hround⟩ | ⟨hwraps, hround⟩
    · rw [if_neg hround, hwraps]
    · have hsmall : (coarse - elapsed % modulus) / modulus + 1 < 2 ^ 64 := by
        have htwo : 2 ≤ modulus := by omega
        have hhalf := Nat.div_le_div_left (a := coarse - elapsed % modulus) htwo (by decide)
        omega
      rw [if_pos hround, Wrapped.add_eq hsmall, pure_bind, hwraps]
  · -- behind the counter, the coarse clock leaves room for no wrap
    have hzero : elapsed / modulus = 0 := by
      by_contra hwraps
      have hle : 1 * modulus ≤ elapsed / modulus * modulus :=
        Nat.mul_le_mul_right _ (Nat.one_le_iff_ne_zero.mpr hwraps)
      omega
    rw [hzero, Nat.zero_mul, Nat.zero_add] at hdivision
    rw [if_neg hahead, Wrapped.sub_eq (by omega) (by omega), pure_bind, if_neg (by omega), hzero]

/-- The elapsed ticks are recovered from what is left of them and the coarse clock. -/
theorem elapsedTicks_eq {modulus elapsed coarse : Nat} (hpos : 0 < modulus)
    (hmodulus : modulus ≤ 2 ^ 32) (hcoarse : coarse < 2 ^ 64)
    (hnear : 2 * ((elapsed : Int) - coarse) < modulus ∧ 2 * ((coarse : Int) - elapsed) < modulus) :
    elapsedTicks modulus (elapsed % modulus) coarse =
      pure (if elapsed ≤ maximumUnsigned then some elapsed else none) := by
  have hdivision := Nat.mod_add_div elapsed modulus
  rw [Nat.mul_comm] at hdivision
  have hrest : elapsed % modulus < modulus := Nat.mod_lt _ hpos
  have hunsigned : maximumUnsigned < 2 ^ 64 := by decide
  have hwide : elapsed % modulus ≤ maximumUnsigned := by
    simp only [maximumUnsigned]
    omega
  have hroom : (maximumUnsigned - elapsed % modulus) / modulus < elapsed / modulus ↔
      ¬ elapsed ≤ maximumUnsigned := by
    rw [Nat.div_lt_iff_lt_mul hpos]
    omega
  rw [elapsedTicks, wrapsOf_eq hpos hmodulus hcoarse hnear, pure_bind]
  simp only []
  rw [Wrapped.sub_eq hunsigned hwide, pure_bind]
  by_cases hover : (maximumUnsigned - elapsed % modulus) / modulus < elapsed / modulus
  · rw [if_pos hover, if_neg (hroom.mp hover)]
  · have hin : elapsed ≤ maximumUnsigned := by
      by_contra hout
      exact hover (hroom.mpr hout)
    rw [if_neg hover, if_pos hin, Wrapped.mul_eq (by omega), pure_bind,
      Wrapped.add_eq (by omega), pure_bind, hdivision]

/-! ## The clock -/

/-- The timer is not stopped, reset or set otherwise from one reading to another. -/
structure Steady (first now : TimerReading) : Prop where
  running : first.running = true
  runningAfter : first.runningAfter = true
  stateVersionAfter : first.stateVersionAfter = first.stateVersion
  nowRunning : now.running = true
  nowRunningAfter : now.runningAfter = true
  nowStateVersion : now.stateVersion = first.stateVersion
  nowStateVersionAfter : now.stateVersionAfter = first.stateVersion
  nowFrequency : now.tickFrequencyHz = first.tickFrequencyHz
  nowAutoReload : now.autoReload = first.autoReload

/-- The counter that a reading stands for. -/
def TimerReading.toCounter (r : TimerReading) : HighResolutionCounter :=
  ⟨r.counter, r.tickFrequencyHz, r.autoReload + 1, r.stateVersion⟩

theorem readHighResolutionCounter_eq {counter : HighResolutionCounter} {r : TimerReading}
    (hrunning : r.running = true) (hafter : r.runningAfter = true)
    (hversion : r.stateVersionAfter = r.stateVersion) (hreload : r.autoReload < 2 ^ 32)
    (hpos : 0 < r.tickFrequencyHz) (hslow : r.tickFrequencyHz ≤ nanosecondsPerSecond)
    (hcounter : r.counter < r.autoReload + 1) :
    readHighResolutionCounter counter (some r) = pure (r.toCounter, true) := by
  have hvalid : r.toCounter.Valid := ⟨Nat.ne_of_gt hpos, hslow, .inr hcounter⟩
  rw [readHighResolutionCounter, hrunning, if_neg (by decide), Wrapped.add_eq (by omega),
    pure_bind, hafter, hversion, beq_self_eq_true]
  change pure (r.toCounter, decide r.toCounter.Valid) = _
  rw [decide_eq_true hvalid]

/-- A count that is more than 64 bits hold is too long in nanoseconds too. -/
theorem nanoseconds_large {elapsed frequency : Nat} (hpos : 0 < frequency)
    (hslow : frequency ≤ nanosecondsPerSecond) (hlarge : maximum.toNat < elapsed) :
    ¬ elapsed * nanosecondsPerSecond / frequency ≤ maximum.toNat := by
  have hle : elapsed ≤ elapsed * nanosecondsPerSecond / frequency :=
    (Nat.le_div_iff_mul_le hpos).mpr (Nat.mul_le_mul_left _ hslow)
  omega

/-- From the wrapped counter and the coarse clock, `elapsed_counter_ticks` is the true count. -/
theorem elapsedCounterTicks_eq {clock : Clock} {first now : TimerReading}
    {currentTicks elapsed : Nat} (hclock : clock.epoch = first.toCounter)
    (h : Steady first now) (hpos : 0 < first.tickFrequencyHz)
    (hslow : first.tickFrequencyHz ≤ nanosecondsPerSecond) (hreload : first.autoReload < 2 ^ 32)
    (hepoch : first.counter < first.autoReload + 1)
    (hnow : now.counter = (first.counter + elapsed) % (first.autoReload + 1))
    (hticks : clock.epochTicks ≤ currentTicks) (hcurrent : currentTicks < 2 ^ 64)
    (hnear : 2 * |((currentTicks - clock.epochTicks) * first.tickFrequencyHz / ticksPerSecond :
      Nat) - (elapsed : Int)| < first.autoReload + 1) :
    elapsedCounterTicks clock now.toCounter currentTicks = pure (some elapsed) ∨
      elapsedCounterTicks clock now.toCounter currentTicks = pure none ∧
        maximum.toNat < elapsed := by
  have hmodulus : now.toCounter.modulus = first.autoReload + 1 := by
    rw [TimerReading.toCounter, h.nowAutoReload]
  have hmodular : modularElapsed first.toCounter now.toCounter =
      pure (elapsed % now.toCounter.modulus) := by
    refine modularElapsed_eq (by omega) ?_ ?_
    · rw [hmodulus]
      exact hepoch
    · rw [hmodulus]
      exact hnow
  have hfrequency : now.toCounter.ticksPerSecond = first.tickFrequencyHz := h.nowFrequency
  rw [elapsedCounterTicks, if_neg (by omega), hclock, hmodular, pure_bind,
    Wrapped.sub_eq hcurrent hticks, pure_bind, hfrequency,
    threadTicksToCounterTicks_eq hpos hslow, pure_bind, hmodulus]
  generalize (currentTicks - clock.epochTicks) * first.tickFrequencyHz / ticksPerSecond = coarse
    at hnear ⊢
  have hbounds := abs_lt.mp (show |(coarse : Int) - elapsed| < (first.autoReload + 2) / 2 by omega)
  by_cases hcoarse : coarse ≤ maximumUnsigned
  · have hcoarse' : coarse < 2 ^ 64 := by
      simp only [maximumUnsigned] at hcoarse
      omega
    rw [if_pos hcoarse]
    simp only []
    rw [elapsedTicks_eq (by omega) (by omega) hcoarse' (by omega)]
    by_cases hin : elapsed ≤ maximumUnsigned
    · exact .inl (by rw [if_pos hin])
    · refine .inr ⟨by rw [if_neg hin], ?_⟩
      simp only [maximumUnsigned, maximum] at hin ⊢
      omega
  · rw [if_neg hcoarse]
    refine .inr ⟨rfl, ?_⟩
    simp only [maximumUnsigned, maximum] at hcoarse ⊢
    omega

/-- What a call returns of a clock whose timer has run on with the settings of the epoch. -/
theorem highResolutionElapsed_eq {clock : Clock} {first now : TimerReading}
    {currentTicks elapsed : Nat} (havailable : clock.available = true)
    (hclock : clock.epoch = first.toCounter)
    (h : Steady first now) (hpos : 0 < first.tickFrequencyHz)
    (hslow : first.tickFrequencyHz ≤ nanosecondsPerSecond) (hreload : first.autoReload < 2 ^ 32)
    (hepoch : first.counter < first.autoReload + 1)
    (hnow : now.counter = (first.counter + elapsed) % (first.autoReload + 1))
    (hticks : clock.epochTicks ≤ currentTicks) (hcurrent : currentTicks < 2 ^ 64)
    (hnear : 2 * |((currentTicks - clock.epochTicks) * first.tickFrequencyHz / ticksPerSecond :
      Nat) - (elapsed : Int)| < first.autoReload + 1) :
    highResolutionElapsedNanoseconds clock (some now) currentTicks =
      pure (if elapsed * nanosecondsPerSecond / first.tickFrequencyHz ≤ maximum.toNat then
        some (elapsed * nanosecondsPerSecond / first.tickFrequencyHz) else none, true) := by
  have hnowCounter : now.counter < now.autoReload + 1 := by
    rw [hnow, h.nowAutoReload]
    exact Nat.mod_lt _ (Nat.succ_pos _)
  have hread : readHighResolutionCounter ⟨0, 0, 0, 0⟩ (some now) = pure (now.toCounter, true) := by
    refine readHighResolutionCounter_eq h.nowRunning h.nowRunningAfter
      (h.nowStateVersionAfter.trans h.nowStateVersion.symm) ?_ ?_ ?_ hnowCounter
    · rw [h.nowAutoReload]
      exact hreload
    · rw [h.nowFrequency]
      exact hpos
    · rw [h.nowFrequency]
      exact hslow
  have hfrequency : now.toCounter.ticksPerSecond = first.tickFrequencyHz := h.nowFrequency
  have hsame : (!true || now.toCounter.stateVersion != first.toCounter.stateVersion ||
      now.toCounter.ticksPerSecond != first.toCounter.ticksPerSecond ||
      now.toCounter.modulus != first.toCounter.modulus) = false := by
    simp only [TimerReading.toCounter, h.nowStateVersion, h.nowFrequency, h.nowAutoReload,
      bne_self_eq_false, Bool.not_true, Bool.or_false]
  rw [highResolutionElapsedNanoseconds, havailable, if_neg Bool.noConfusion, hread, pure_bind]
  simp only []
  rw [hclock, hsame, if_neg Bool.noConfusion]
  rcases elapsedCounterTicks_eq hclock h hpos hslow hreload hepoch hnow hticks hcurrent hnear with
    hcount | ⟨hcount, hlarge⟩
  · rw [hcount, pure_bind]
    simp only []
    rw [hfrequency, counterTicksToNanoseconds_eq hpos hslow, pure_bind]
  · rw [hcount, pure_bind, if_neg (nanoseconds_large hpos hslow hlarge)]

/-- While the coarse clock is less than half a turn off, the time since the start is exact,
unless 64 bits do not hold it, and no operation on the way wraps. -/
theorem highResolutionElapsed_correct {first now : TimerReading}
    {epochTicks currentTicks elapsed : Nat}
    (h : Steady first now) (hpos : 0 < first.tickFrequencyHz)
    (hslow : first.tickFrequencyHz ≤ nanosecondsPerSecond) (hreload : first.autoReload < 2 ^ 32)
    (hepoch : first.counter < first.autoReload + 1)
    (hnow : now.counter = (first.counter + elapsed) % (first.autoReload + 1))
    (hticks : epochTicks ≤ currentTicks) (hcurrent : currentTicks < 2 ^ 64)
    (hnear : 2 * |((currentTicks - epochTicks) * first.tickFrequencyHz / ticksPerSecond : Nat) -
      (elapsed : Int)| < first.autoReload + 1) :
    (do let clock ← initializeClock (some first) epochTicks
        highResolutionElapsedNanoseconds clock (some now) currentTicks) =
      pure (if elapsed * nanosecondsPerSecond / first.tickFrequencyHz ≤ maximum.toNat then
        some (elapsed * nanosecondsPerSecond / first.tickFrequencyHz) else none, true) := by
  have hclock : initializeClock (some first) epochTicks =
      pure ⟨true, first.toCounter, epochTicks⟩ := by
    rw [initializeClock, readHighResolutionCounter_eq h.running h.runningAfter
      h.stateVersionAfter hreload hpos hslow hepoch, pure_bind]
  rw [hclock, pure_bind]
  exact highResolutionElapsed_eq rfl rfl h hpos hslow hreload hepoch hnow hticks hcurrent hnear

theorem highResolutionElapsed_correct_wrapped :
    (do let clock ← initializeClock (some ⟨7, true, 900, 1000000, 999, true, 7⟩) 5
        highResolutionElapsedNanoseconds clock (some ⟨7, true, 100, 1000000, 999, true, 7⟩) 1239) =
      pure (some 1234200000, true) :=
  @highResolutionElapsed_correct ⟨7, true, 900, 1000000, 999, true, 7⟩
    ⟨7, true, 100, 1000000, 999, true, 7⟩ 5 1239 1234200
    ⟨rfl, rfl, rfl, rfl, rfl, rfl, rfl, rfl, rfl⟩ (by decide) (by decide) (by decide) (by decide)
    rfl (by decide) (by decide) (by decide)

/-- A timer that counts faster than nanoseconds is not used, also right after the start. -/
theorem highResolutionElapsed_fast :
    Steady ⟨7, true, 0, 2000000000, 999, true, 7⟩ ⟨7, true, 0, 2000000000, 999, true, 7⟩ ∧
      2000000000 < 2 ^ 32 ∧
      2 * |((5 - 5) * 2000000000 / ticksPerSecond : Nat) - (0 : Int)| < 999 + 1 ∧
      0 * nanosecondsPerSecond / 2000000000 ≤ maximum.toNat ∧
      (do let clock ← initializeClock (some ⟨7, true, 0, 2000000000, 999, true, 7⟩) 5
          highResolutionElapsedNanoseconds clock
            (some ⟨7, true, 0, 2000000000, 999, true, 7⟩) 5) = pure (none, false) :=
  ⟨⟨rfl, rfl, rfl, rfl, rfl, rfl, rfl, rfl, rfl⟩, by decide, by decide, by decide, by decide⟩

end HighResolution
end Backend
end NucleoBase
