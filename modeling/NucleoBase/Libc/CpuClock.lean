/-
  NucleoBase.Libc.CpuClock

  CPU time (cpu_clock.h, cpu_clock.c): a 32-bit cycle counter, read at every
  thread switch, interrupt and call of `_times`, extended to two 64-bit sums.

  A reading and the update it makes run with interrupts disabled, so each is
  one event.  The history of a run is what the true amounts are taken from.
-/

import NucleoBase.Lib.PeriodicCounter
import NucleoBase.Lib.Run
import Mathlib.Tactic.Ring

namespace NucleoBase
namespace Libc
namespace CpuClock

open Lib

/-! ## The model -/

/-- `runtime_cpu_clock_counter`. -/
structure Counter where
  executionCycles : UInt64
  elapsedCycles : UInt64
  lastCycle : UInt32
  running : Bool
  deriving DecidableEq, Repr

/-- `runtime_cpu_clock_update`. -/
def runtimeCpuClockUpdate (counter : Counter) (now : UInt32) : Counter :=
  let elapsed := now - counter.lastCycle
  { counter with
    elapsedCycles := counter.elapsedCycles + elapsed.toUInt64
    executionCycles :=
      if counter.running then counter.executionCycles + elapsed.toUInt64
      else counter.executionCycles
    lastCycle := now }

/-- `runtime_cpu_clock_ticks`. -/
def runtimeCpuClockTicks (cycles : UInt64) (frequency rate : UInt32) : UInt64 :=
  cycles / frequency.toUInt64 * rate.toUInt64 +
    cycles % frequency.toUInt64 * rate.toUInt64 / frequency.toUInt64

/-- `CLOCKS_PER_SEC`. -/
def clocksPerSec : UInt32 := 100

/-- `UINT32_MAX`. -/
def uint32Max : UInt64 := 4294967295

inductive TimesErrno
  | EFAULT | EAGAIN | EOVERFLOW
  deriving DecidableEq, Repr

/-- What a call of `_times` ends with: the user time it stores and the value it
    returns, or `(clock_t)-1` and an error number. -/
inductive Outcome
  | done (utime elapsed : UInt32)
  | failed (errno : TimesErrno)
  deriving DecidableEq, Repr

/-- The returned `clock_t`. -/
def Outcome.result : Outcome → UInt32
  | .done _ elapsed => elapsed
  | .failed _ => 4294967295

structure State where
  counter : Counter
  /-- `DWT->CYCCNT`. -/
  cyccnt : UInt32
  /-- `counter_frequency`. -/
  frequency : UInt32
  deriving DecidableEq, Repr

/-- `runtime_cpu_clock_sample`. -/
def State.sample (s : State) : State :=
  { s with counter := runtimeCpuClockUpdate s.counter s.cyccnt }

/-- `set_running`. -/
def State.setRunning (s : State) (running : Bool) : State :=
  { s with counter := { runtimeCpuClockUpdate s.counter s.cyccnt with running } }

/-- What `_times` does with its snapshot. -/
def timesOf (snapshot : Counter) (frequency : UInt32) : Outcome :=
  if frequency = 0 then .failed .EAGAIN
  else
    let execution := runtimeCpuClockTicks snapshot.executionCycles frequency clocksPerSec
    let elapsed := runtimeCpuClockTicks snapshot.elapsedCycles frequency clocksPerSec
    if uint32Max ≤ execution ∨ uint32Max ≤ elapsed then .failed .EOVERFLOW
    else .done execution.toUInt32 elapsed.toUInt32

/-- `_times`, with `null` for a null argument. -/
def State.times (s : State) (null : Bool) : State × Outcome :=
  if null then (s, .failed .EFAULT)
  else (s.sample, timesOf s.sample.counter s.frequency)

inductive Event
  | elapse (cycles : Nat)
  | threadEnter
  | threadExit
  | sample
  | times (null : Bool) (outcome : Outcome)
  deriving DecidableEq, Repr

def step (s : State) : Event → Option State
  | .elapse cycles => some { s with cyccnt := s.cyccnt + cycles.toUInt32 }
  | .threadEnter => some (s.setRunning true)
  | .threadExit => some (s.setRunning false)
  | .sample => some s.sample
  | .times null outcome =>
      if (s.times null).2 = outcome then some (s.times null).1 else none

/-- The state that `runtime_cpu_clock_initialize` leaves. -/
def init (s : State) : Prop := s.counter = ⟨0, 0, s.cyccnt, false⟩

/-! ## The true amounts -/

/-- The event reads the cycle counter. -/
def Event.reads : Event → Bool
  | .elapse _ => false
  | .times null _ => !null
  | _ => true

/-- The cycles since the start. -/
def total : List Event → Nat
  | [] => 0
  | .elapse n :: h => total h + n
  | _ :: h => total h

/-- The cycles since the last reading. -/
def unread : List Event → Nat
  | [] => 0
  | .elapse n :: h => unread h + n
  | e :: h => if e.reads then 0 else unread h

/-- A thread has been entered and not yet left. -/
def running : List Event → Bool
  | [] => false
  | .threadEnter :: _ => true
  | .threadExit :: _ => false
  | _ :: h => running h

/-- The cycles of the intervals between readings that began while running was set. -/
def executed : List Event → Nat
  | [] => 0
  | e :: h => executed h + if e.reads ∧ running h then unread h else 0

/-- The counter is read again before it has run through all 32 bits. -/
def frequent (h : List Event) (_ : State) (e : Event) : Prop :=
  e.reads → unread h < 2 ^ 32

instance (h : List Event) (s : State) (e : Event) : Decidable (frequent h s e) :=
  inferInstanceAs (Decidable (_ → _))

theorem total_cons_of_reads {e : Event} (h : List Event) (he : e.reads = true) :
    total (e :: h) = total h := by
  cases e with
  | elapse n => exact absurd he Bool.false_ne_true
  | threadEnter | threadExit | sample | times => rfl

theorem unread_cons_of_reads {e : Event} (h : List Event) (he : e.reads = true) :
    unread (e :: h) = 0 := by
  cases e with
  | elapse n => exact absurd he Bool.false_ne_true
  | threadEnter | threadExit | sample => rfl
  | times null outcome => exact if_pos he

theorem executed_cons_of_reads {e : Event} (h : List Event) (he : e.reads = true) :
    executed (e :: h) = executed h + if running h then unread h else 0 := by
  simp only [executed, he, true_and]

/-- The intervals that count are among all intervals. -/
theorem executed_add_unread_le (h : List Event) : executed h + unread h ≤ total h := by
  induction h with
  | nil => exact Nat.le_refl _
  | cons e h ih =>
      by_cases he : e.reads = true
      · rw [executed_cons_of_reads h he, unread_cons_of_reads h he, total_cons_of_reads h he]
        split <;> omega
      · cases e with
        | elapse n =>
            simp only [executed, unread, total, Event.reads, Bool.false_eq_true, false_and, if_false]
            omega
        | times null outcome =>
            have hread : (Event.times null outcome).reads = false := Bool.eq_false_iff.mpr he
            simp only [executed, unread, total, hread, Bool.false_eq_true, false_and, if_false]
            exact ih
        | threadEnter | threadExit | sample => exact absurd rfl he

/-! ## Ticks -/

theorem toNat_runtimeCpuClockTicks {frequency rate : UInt32} (cycles : UInt64)
    (hpos : 0 < frequency.toNat) (hrate : rate ≤ frequency) :
    (runtimeCpuClockTicks cycles frequency rate).toNat =
      cycles.toNat * rate.toNat / frequency.toNat := by
  have hle : rate.toNat ≤ frequency.toNat := UInt32.le_iff_toNat_le.mp hrate
  have hcycles := cycles.toNat_lt
  have hfrequency := frequency.toNat_lt
  have hsplit := PeriodicCounter.ticks_split
    (c := ⟨0, rate.toNat, frequency.toNat, 1⟩) hpos cycles.toNat
  simp only [PeriodicCounter.ticks] at hsplit
  -- the exact result is no more than the cycles, so it fits
  have hfits : cycles.toNat * rate.toNat / frequency.toNat ≤ cycles.toNat := by
    calc cycles.toNat * rate.toNat / frequency.toNat
        ≤ cycles.toNat * frequency.toNat / frequency.toNat :=
          Nat.div_le_div_right (Nat.mul_le_mul_left _ hle)
      _ = cycles.toNat := Nat.mul_div_cancel _ hpos
  have hrest : cycles.toNat % frequency.toNat * rate.toNat < 2 ^ 64 := by
    have hmod := Nat.mod_lt cycles.toNat hpos
    calc cycles.toNat % frequency.toNat * rate.toNat
        ≤ cycles.toNat % frequency.toNat * 2 ^ 32 := Nat.mul_le_mul_left _ (by omega)
      _ < 2 ^ 32 * 2 ^ 32 := Nat.mul_lt_mul_of_pos_right (by omega) (by decide)
      _ = 2 ^ 64 := rfl
  rw [runtimeCpuClockTicks, UInt64.toNat_add, UInt64.toNat_div, UInt64.toNat_mul,
    UInt64.toNat_mul, UInt64.toNat_div, UInt64.toNat_mod, UInt32.toNat_toUInt64,
    UInt32.toNat_toUInt64, Nat.mod_eq_of_lt hrest, Nat.mod_add_mod, ← hsplit,
    Nat.mod_eq_of_lt (by omega)]

/-! ## The accounts -/

/-- The counter agrees with the history as of the last reading. -/
structure Accounts (h : List Event) (counter : Counter) (now : UInt32) : Prop where
  elapsed : counter.elapsedCycles.toNat + unread h = total h
  execution : counter.executionCycles.toNat = executed h
  cycle : now.toNat = (counter.lastCycle.toNat + unread h) % 2 ^ 32
  running : counter.running = running h

section Steps

variable {h : List Event} {s s' : State} {e : Event} {counter : Counter} {now : UInt32}

/-- The unsigned difference of two readings, with at most one wrap between them. -/
theorem Accounts.interval (hacc : Accounts h counter now) (hnear : unread h < 2 ^ 32) :
    (now - counter.lastCycle).toNat = unread h := by
  have hnow := hacc.cycle
  have hlast := counter.lastCycle.toNat_lt
  rw [UInt32.toNat_sub]
  omega

theorem Accounts.elapse (hacc : Accounts h counter now) (n : Nat) :
    Accounts (.elapse n :: h) counter (now + n.toUInt32) where
  elapsed := by
    have helapsed := hacc.elapsed
    show _ + (unread h + n) = total h + n
    omega
  execution := by
    simp only [executed, Event.reads, Bool.false_eq_true, false_and, if_false]
    exact hacc.execution
  cycle := by
    have hn : n.toUInt32.toNat = n % 2 ^ 32 := UInt32.toNat_ofNat'
    show _ = (counter.lastCycle.toNat + (unread h + n)) % 2 ^ 32
    rw [UInt32.toNat_add, hn, hacc.cycle]
    omega
  running := hacc.running

/-- A reading brings both sums up to date; the flag may then be switched. -/
theorem Accounts.update (hacc : Accounts h counter now) (hnear : unread h < 2 ^ 32)
    (htotal : total h < 2 ^ 64) (he : e.reads = true) :
    Accounts (e :: h) { runtimeCpuClockUpdate counter now with running := CpuClock.running (e :: h) }
      now where
  elapsed := by
    have helapsed := hacc.elapsed
    rw [unread_cons_of_reads h he, total_cons_of_reads h he]
    show (counter.elapsedCycles + (now - counter.lastCycle).toUInt64).toNat + 0 = total h
    rw [UInt64.toNat_add, UInt32.toNat_toUInt64, hacc.interval hnear, helapsed]
    omega
  execution := by
    have hle := executed_add_unread_le h
    rw [executed_cons_of_reads h he, ← hacc.running]
    show (if counter.running then counter.executionCycles + (now - counter.lastCycle).toUInt64
      else counter.executionCycles).toNat = _
    by_cases hrunning : counter.running = true
    · rw [if_pos hrunning, if_pos hrunning, UInt64.toNat_add, UInt32.toNat_toUInt64,
        hacc.interval hnear, hacc.execution]
      omega
    · rw [if_neg hrunning, if_neg hrunning, hacc.execution]
      rfl
  cycle := by
    rw [unread_cons_of_reads h he]
    show now.toNat = (now.toNat + 0) % 2 ^ 32
    have hnow := now.toNat_lt
    omega
  running := rfl

/-- A reading that leaves the flag as it is. -/
theorem Accounts.sample (hacc : Accounts h counter now) (hnear : unread h < 2 ^ 32)
    (htotal : total h < 2 ^ 64) (he : e.reads = true)
    (hkeep : CpuClock.running (e :: h) = CpuClock.running h) :
    Accounts (e :: h) (runtimeCpuClockUpdate counter now) now := by
  have hupdate := hacc.update hnear htotal he
  rw [hkeep, ← hacc.running] at hupdate
  exact hupdate

/-- A null argument is refused before anything is read. -/
theorem Accounts.refuse (hacc : Accounts h counter now) (outcome : Outcome) :
    Accounts (.times true outcome :: h) counter now where
  elapsed := hacc.elapsed
  execution := hacc.execution
  cycle := hacc.cycle
  running := hacc.running

theorem accounts_of_init (hinit : init s) : Accounts [] s.counter s.cyccnt := by
  rw [show s.counter = _ from hinit]
  refine ⟨rfl, rfl, ?_, rfl⟩
  have hnow := s.cyccnt.toNat_lt
  show s.cyccnt.toNat = (s.cyccnt.toNat + 0) % 2 ^ 32
  omega

theorem Accounts.step (hacc : Accounts h s.counter s.cyccnt) (hguard : frequent h s e)
    (htotal : total h < 2 ^ 64) (hs : step s e = some s') :
    Accounts (e :: h) s'.counter s'.cyccnt ∧ s'.frequency = s.frequency := by
  cases e with
  | elapse n =>
      obtain rfl := Option.some.inj hs
      exact ⟨hacc.elapse n, rfl⟩
  | threadEnter | threadExit =>
      obtain rfl := Option.some.inj hs
      exact ⟨hacc.update (hguard rfl) htotal rfl, rfl⟩
  | sample =>
      obtain rfl := Option.some.inj hs
      exact ⟨hacc.sample (hguard rfl) htotal rfl rfl, rfl⟩
  | times null outcome =>
      simp only [CpuClock.step, Option.ite_none_right_eq_some, Option.some.injEq] at hs
      obtain ⟨-, rfl⟩ := hs
      cases null with
      | true => exact ⟨hacc.refuse outcome, rfl⟩
      | false => exact ⟨hacc.sample (hguard rfl) htotal rfl rfl, rfl⟩

end Steps

/-! ## The results of `_times` -/

/-- The outcome of a call for the true amounts: exact values below the value of
    an error, or the error that applies. -/
def Outcome.Correct (frequency : UInt32) (null : Bool) (executed total : Nat) : Outcome → Prop
  | .done utime elapsed =>
      null = false ∧ frequency ≠ 0 ∧
        utime.toNat = executed * clocksPerSec.toNat / frequency.toNat ∧
        elapsed.toNat = total * clocksPerSec.toNat / frequency.toNat ∧
        elapsed.toNat < 2 ^ 32 - 1
  | .failed .EFAULT => null = true
  | .failed .EAGAIN => null = false ∧ frequency = 0
  | .failed .EOVERFLOW =>
      null = false ∧ frequency ≠ 0 ∧
        2 ^ 32 - 1 ≤ total * clocksPerSec.toNat / frequency.toNat

/-- Every call so far had the outcome for the true amounts at its time. -/
def Answers (frequency : UInt32) : List Event → Prop
  | [] => True
  | .times null outcome :: h =>
      outcome.Correct frequency null (executed (.sample :: h)) (total h) ∧ Answers frequency h
  | _ :: h => Answers frequency h

/-- The values returned without an error, most recent first. -/
def returned : List Event → List UInt32
  | [] => []
  | .times _ (.done utime elapsed) :: h => (Outcome.done utime elapsed).result :: returned h
  | _ :: h => returned h

section Results

variable {h : List Event} {s s' : State} {e : Event} {frequency : UInt32}

/-- The snapshot of a call decides its outcome. -/
theorem timesOf_correct {snapshot : Counter} {executed total : Nat}
    (hexecution : snapshot.executionCycles.toNat = executed)
    (helapsed : snapshot.elapsedCycles.toNat = total) (hle : executed ≤ total)
    (hrate : frequency = 0 ∨ clocksPerSec ≤ frequency) :
    (timesOf snapshot frequency).Correct frequency false executed total := by
  unfold timesOf
  by_cases hzero : frequency = 0
  · rw [if_pos hzero]
    exact ⟨rfl, hzero⟩
  rw [if_neg hzero]
  have hslow : clocksPerSec ≤ frequency := hrate.resolve_left hzero
  have hpos : 0 < frequency.toNat := by
    have hle := UInt32.le_iff_toNat_le.mp hslow
    have hrate : clocksPerSec.toNat = 100 := rfl
    omega
  have huser := toNat_runtimeCpuClockTicks snapshot.executionCycles hpos hslow
  have hreal := toNat_runtimeCpuClockTicks snapshot.elapsedCycles hpos hslow
  rw [hexecution] at huser
  rw [helapsed] at hreal
  have hmono : executed * clocksPerSec.toNat / frequency.toNat ≤
      total * clocksPerSec.toNat / frequency.toNat :=
    Nat.div_le_div_right (Nat.mul_le_mul_right _ hle)
  have hmax : uint32Max.toNat = 2 ^ 32 - 1 := rfl
  simp only [UInt64.le_iff_toNat_le, huser, hreal, hmax]
  split
  · next hover => exact ⟨rfl, hzero, by omega⟩
  · next hfits =>
      -- both values are below `UINT32_MAX`, so the conversion to `clock_t` keeps them
      refine ⟨rfl, hzero, ?_, ?_, ?_⟩ <;> rw [UInt64.toNat_toUInt32] <;> omega

theorem answers_step (hacc : Accounts h s.counter s.cyccnt) (hguard : frequent h s e)
    (htotal : total h < 2 ^ 64) (hrate : s.frequency = 0 ∨ clocksPerSec ≤ s.frequency)
    (hs : step s e = some s') (hall : Answers s.frequency h) : Answers s.frequency (e :: h) := by
  cases e with
  | elapse | threadEnter | threadExit | sample => exact hall
  | times null outcome =>
      simp only [step, Option.ite_none_right_eq_some] at hs
      obtain ⟨rfl, -⟩ := hs
      refine ⟨?_, hall⟩
      cases null with
      | true => rfl
      | false =>
          have hread : Event.sample.reads = true := rfl
          have hnow := hacc.sample (hguard rfl) htotal hread rfl
          have helapsed := hnow.elapsed
          have hle := executed_add_unread_le (.sample :: h)
          rw [unread_cons_of_reads h hread, total_cons_of_reads h hread] at helapsed hle
          exact timesOf_correct hnow.execution helapsed hle hrate

/-- No value was more than the cycles so far are worth. -/
theorem returned_le (hall : Answers frequency h) {v : UInt32} (hv : v ∈ returned h) :
    v.toNat ≤ total h * clocksPerSec.toNat / frequency.toNat := by
  induction h with
  | nil => exact absurd hv List.not_mem_nil
  | cons e h ih =>
      cases e with
      | elapse n =>
          refine Nat.le_trans (ih hall hv) (Nat.div_le_div_right (Nat.mul_le_mul_right _ ?_))
          exact Nat.le_add_right _ _
      | threadEnter | threadExit | sample => exact ih hall hv
      | times null outcome =>
          obtain ⟨hcorrect, hall⟩ := hall
          cases outcome with
          | failed errno => exact ih hall hv
          | done utime elapsed =>
              rcases List.mem_cons.mp hv with rfl | hv
              · exact Nat.le_of_eq hcorrect.2.2.2.1
              · exact ih hall hv

theorem returned_pairwise (hall : Answers frequency h) :
    (returned h).Pairwise fun later earlier => earlier ≤ later := by
  induction h with
  | nil => exact List.Pairwise.nil
  | cons e h ih =>
      cases e with
      | elapse | threadEnter | threadExit | sample => exact ih hall
      | times null outcome =>
          obtain ⟨hcorrect, hall⟩ := hall
          cases outcome with
          | failed errno => exact ih hall
          | done utime elapsed =>
              refine List.pairwise_cons.mpr ⟨fun v hv => ?_, ih hall⟩
              have hle := returned_le hall hv
              rw [← hcorrect.2.2.2.1] at hle
              exact UInt32.le_iff_toNat_le.mpr hle

theorem total_le_cons (e : Event) (h : List Event) : total h ≤ total (e :: h) := by
  cases e with
  | elapse n => exact Nat.le_add_right _ _
  | threadEnter | threadExit | sample | times => exact Nat.le_refl _

theorem accounts_of_run (hrun : Run step frequent init h s) (htotal : total h < 2 ^ 64) :
    Accounts h s.counter s.cyccnt ∧
      (s.frequency = 0 ∨ clocksPerSec ≤ s.frequency → Answers s.frequency h) := by
  induction hrun with
  | start hinit => exact ⟨accounts_of_init hinit, fun _ => trivial⟩
  | @step h s s' e _ hguard hs ih =>
      have hbefore : total h < 2 ^ 64 := Nat.lt_of_le_of_lt (total_le_cons e h) htotal
      obtain ⟨hacc, hanswers⟩ := ih hbefore
      obtain ⟨hnow, hfrequency⟩ := hacc.step hguard hbefore hs
      refine ⟨hnow, fun hrate => ?_⟩
      rw [hfrequency] at hrate ⊢
      exact answers_step hacc hguard hbefore hrate hs (hanswers hrate)

/-- CPU time in every run that reads the cycle counter often enough and lasts less than 2^64
    cycles: the elapsed cycles are all cycles up to the last reading, the execution cycles
    those of the intervals that began while running; the conversion to ticks is exact; and
    `_times` returns exact, never decreasing values, or an error. -/
theorem cpuClock_correct (hrun : Run step frequent init h s) (htotal : total h < 2 ^ 64) :
    s.counter.elapsedCycles.toNat = total h - unread h ∧
      s.counter.executionCycles.toNat = executed h ∧
      s.counter.executionCycles ≤ s.counter.elapsedCycles ∧
      (∀ (cycles : UInt64) (frequency rate : UInt32), 0 < frequency → rate ≤ frequency →
        (runtimeCpuClockTicks cycles frequency rate).toNat =
          cycles.toNat * rate.toNat / frequency.toNat) ∧
      (s.frequency = 0 ∨ clocksPerSec ≤ s.frequency →
        Answers s.frequency h ∧ (returned h).Pairwise fun later earlier => earlier ≤ later) := by
  obtain ⟨hacc, hanswers⟩ := accounts_of_run hrun htotal
  have helapsed := hacc.elapsed
  have hle := executed_add_unread_le h
  refine ⟨by omega, hacc.execution, ?_, ?_, fun hrate => ?_⟩
  · rw [UInt64.le_iff_toNat_le, hacc.execution]
    omega
  · intro cycles frequency rate hpos hrate
    exact toNat_runtimeCpuClockTicks cycles (UInt32.lt_iff_toNat_lt.mp hpos) hrate
  · exact ⟨hanswers hrate, returned_pairwise (hanswers hrate)⟩

end Results

/-- The counter wraps while a thread runs; its time, but not the idle time, counts. -/
def wrapping : State := ⟨⟨0, 0, 4294967196, false⟩, 4294967196, 1000⟩

def aThread : List Event :=
  [.threadEnter, .elapse 150, .threadExit, .elapse 1000, .times false (.done 15 115)]

theorem cpuClock_correct_wrapping :
    (replay step wrapping aThread).isSome = true ∧ total aThread.reverse < 2 ^ 64 ∧
    ∀ s ∈ replay step wrapping aThread,
      s.counter.elapsedCycles.toNat = total aThread.reverse - unread aThread.reverse ∧
        s.counter.executionCycles.toNat = 150 ∧ Answers s.frequency aThread.reverse := by
  have hfrequency : ∀ s ∈ replay step wrapping aThread,
      s.frequency = 0 ∨ clocksPerSec ≤ s.frequency := by decide
  refine ⟨by decide, by decide, fun s hs => ?_⟩
  have hrun : Run step frequent init aThread.reverse s :=
    Run.of_replay (show init wrapping from rfl) (by decide) hs
  obtain ⟨helapsed, hexecution, -, -, htimes⟩ := cpuClock_correct hrun (by decide)
  exact ⟨helapsed, hexecution, (htimes (hfrequency s hs)).1⟩

end CpuClock
end Libc
end NucleoBase
