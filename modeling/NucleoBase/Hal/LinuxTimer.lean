/-
  NucleoBase.Hal.LinuxTimer

  The Linux timer (linux/Timer.cpp): a counter kept as its value at the last
  state change, the calls that change it, and the worker thread that sleeps
  until the next overflow and then calls back.

  Every access is under the timer's mutex.  A call locks it, does all its work
  in one step and unlocks it; the worker is cut at its clock reads, its waits
  and its callback.  The clock may advance between any two steps.  A wait on
  the condition may end at any time with status 0 (notified or not), and a
  timed wait with `ETIMEDOUT` at any time after its deadline, also when it was
  notified in between; either way only once the mutex is free.  Notifying
  therefore adds no step.  `CLOCK_MONOTONIC` counts nanoseconds since the
  system was started in 63 bits.
-/

import NucleoBase.Lib.Run
import NucleoBase.Lib.PeriodicCounter
import Mathlib.Data.UInt

namespace NucleoBase
namespace Hal
namespace LinuxTimer

open Lib

abbrev Tick := UInt32

/-- `NANOSECONDS_PER_SECOND`. -/
def nanosecondsPerSecond : Nat := 1000000000

/-! ## The counter -/

structure Timer where
  timerInputHz : UInt32
  prescaler : Tick
  autoReload : Tick
  counter : Tick
  startedAtNanoseconds : UInt64
  running : Bool
  interruptEnabled : Bool
  shuttingDown : Bool
  stateVersion : UInt32
  /-- `m_periodElapsedCallback`: null, or one of the functions it was set to. -/
  periodElapsedCallback : Option Nat
  deriving DecidableEq, Repr

/-- `monotonic_nanoseconds`, from the time `clock_gettime` returns. -/
def monotonicNanoseconds (clock : Nat) : UInt64 :=
  UInt64.ofNat (clock / nanosecondsPerSecond) * UInt64.ofNat nanosecondsPerSecond +
    UInt64.ofNat (clock % nanosecondsPerSecond)

structure Timespec where
  sec : Nat
  nsec : Nat
  deriving DecidableEq, Repr

/-- `monotonic_deadline`. -/
def monotonicDeadline (clock : Nat) (delayNanoseconds : UInt64) : Timespec :=
  let nanoseconds : UInt64 := UInt64.ofNat (clock % nanosecondsPerSecond) + delayNanoseconds
  { sec := clock / nanosecondsPerSecond +
      (nanoseconds / UInt64.ofNat nanosecondsPerSecond).toNat
    nsec := (nanoseconds % UInt64.ofNat nanosecondsPerSecond).toNat }

/-- The time of a deadline in nanoseconds. -/
def Timespec.nanoseconds (t : Timespec) : Nat := t.sec * nanosecondsPerSecond + t.nsec

namespace Timer

/-- `getTickFrequencyHzUnlocked`. -/
def tickFrequencyHz (t : Timer) : UInt32 :=
  let divisor : UInt64 := t.prescaler.toUInt64 + 1
  (t.timerInputHz.toUInt64 / divisor).toUInt32

def counterAt (t : Timer) (monotonicNanoseconds : UInt64) : Tick :=
  let period : UInt64 := t.autoReload.toUInt64 + 1
  let frequency : UInt64 := t.tickFrequencyHz.toUInt64
  if frequency = 0 then t.counter
  else
    let elapsedNanoseconds := monotonicNanoseconds - t.startedAtNanoseconds
    let seconds := elapsedNanoseconds / UInt64.ofNat nanosecondsPerSecond
    let remainder := elapsedNanoseconds % UInt64.ofNat nanosecondsPerSecond
    let wholeTicks := (seconds % period) * (frequency % period) % period
    let fractionalTicks :=
      remainder * frequency / UInt64.ofNat nanosecondsPerSecond % period
    let elapsedTicks := (wholeTicks + fractionalTicks) % period
    ((t.counter.toUInt64 + elapsedTicks) % period).toUInt32

/-- `nanosecondsUntilOverflowUnlocked`. -/
def nanosecondsUntilOverflow (t : Timer) (monotonicNanoseconds : UInt64) : UInt64 :=
  let frequency : UInt64 := t.tickFrequencyHz.toUInt64
  if frequency = 0 then UInt64.ofNat nanosecondsPerSecond
  else
    let period : UInt64 := t.autoReload.toUInt64 + 1
    let counter : UInt64 :=
      if t.running then (t.counterAt monotonicNanoseconds).toUInt64
      else t.counter.toUInt64 % period
    let ticksUntilOverflow := period - counter
    (ticksUntilOverflow * UInt64.ofNat nanosecondsPerSecond + frequency - 1) / frequency

def captureCounter (t : Timer) (monotonicNanoseconds : UInt64) : Timer :=
  if t.running then { t with counter := t.counterAt monotonicNanoseconds } else t

/-- `durationToTicksUnlocked`. -/
def durationToTicks (t : Timer) (duration : Int64) : Tick :=
  let frequency : UInt64 := t.tickFrequencyHz.toUInt64
  if duration ≤ 0 ∨ frequency = 0 then 0
  else
    let unsignedNanoseconds : UInt64 := duration.toUInt64
    let seconds := unsignedNanoseconds / UInt64.ofNat nanosecondsPerSecond
    let remainder := unsignedNanoseconds % UInt64.ofNat nanosecondsPerSecond
    let maximumTick : UInt64 := 4294967295
    if seconds > maximumTick / frequency then 4294967295
    else
      let wholeTicks := seconds * frequency
      let fractionalTicks :=
        (remainder * frequency + UInt64.ofNat nanosecondsPerSecond - 1) /
          UInt64.ofNat nanosecondsPerSecond
      if fractionalTicks > maximumTick - wholeTicks then 4294967295
      else (wholeTicks + fractionalTicks).toUInt32

/-! ## The calls -/

/-- The part that `start` and `startIt` share. -/
def startWith (interrupt : Bool) (t : Timer) (now : UInt64) : Option Timer :=
  if t.tickFrequencyHz = 0 then none
  else some { t.captureCounter now with
    startedAtNanoseconds := now
    running := true
    interruptEnabled := interrupt
    stateVersion := t.stateVersion + 1 }

/-- `none` is `HalError::Error`. -/
def start (t : Timer) (now : UInt64) : Option Timer := startWith false t now

def startIt (t : Timer) (now : UInt64) : Option Timer := startWith true t now

def stop (t : Timer) (now : UInt64) : Timer :=
  { t.captureCounter now with
    running := false
    interruptEnabled := false
    stateVersion := t.stateVersion + 1 }

def stopIt (t : Timer) (now : UInt64) : Timer := t.stop now

def setCounter (t : Timer) (value : Tick) (now : UInt64) : Timer :=
  { t with
    counter := value
    startedAtNanoseconds := now
    stateVersion := t.stateVersion + 1 }

def setAutoReload (t : Timer) (value : Tick) (now : UInt64) : Timer :=
  { t.captureCounter now with
    autoReload := value
    startedAtNanoseconds := now
    stateVersion := t.stateVersion + 1 }

def setPrescaler (t : Timer) (value : Tick) (now : UInt64) : Timer :=
  { t.captureCounter now with
    prescaler := value
    startedAtNanoseconds := now
    stateVersion := t.stateVersion + 1 }

def forceUpdateEvent (t : Timer) (now : UInt64) : Timer :=
  { t with
    counter := 0
    startedAtNanoseconds := now
    stateVersion := t.stateVersion + 1 }

def reset (t : Timer) (now : UInt64) : Timer := t.setCounter 0 now

/-- `setPeriodImpl`. -/
def setPeriod (t : Timer) (duration : Int64) (now : UInt64) : Timer :=
  let ticks := t.durationToTicks duration
  { t with
    autoReload := if ticks = 0 then 0 else ticks - 1
    counter := 0
    startedAtNanoseconds := now
    stateVersion := t.stateVersion + 1 }

def setPeriodElapsedCallback (t : Timer) (callback : Option Nat) : Timer :=
  { t with periodElapsedCallback := callback }

/-- The locked part of the destructor. -/
def shutDown (t : Timer) : Timer := { t with shuttingDown := true }

end Timer

inductive Operation
  | start | stop | startIt | stopIt
  | setCounter (value : Tick)
  | setAutoReload (value : Tick)
  | setPrescaler (value : Tick)
  | setPeriod (duration : Int64)
  | forceUpdateEvent
  | reset
  | setPeriodElapsedCallback (callback : Option Nat)
  | destroy
  deriving DecidableEq, Repr

/-- The timer after a call, `none` if it returned an error. -/
def Timer.apply (t : Timer) (now : UInt64) : Operation → Option Timer
  | .start => t.start now
  | .stop => some (t.stop now)
  | .startIt => t.startIt now
  | .stopIt => some (t.stopIt now)
  | .setCounter value => some (t.setCounter value now)
  | .setAutoReload value => some (t.setAutoReload value now)
  | .setPrescaler value => some (t.setPrescaler value now)
  | .setPeriod duration => some (t.setPeriod duration now)
  | .forceUpdateEvent => some (t.forceUpdateEvent now)
  | .reset => some (t.reset now)
  | .setPeriodElapsedCallback callback => some (t.setPeriodElapsedCallback callback)
  | .destroy => some t.shutDown

/-- The operations that count as a state change when they succeed. -/
def Operation.changes : Operation → Bool
  | .setPeriodElapsedCallback _ | .destroy => false
  | _ => true

/-! ## The threads -/

inductive CallerPc
  | idle
  | locking (op : Operation)   -- about to lock the mutex
  | locked (op : Operation)    -- about to do its work
  | unlocking                  -- about to unlock the mutex and return
  deriving DecidableEq, Repr

inductive WorkerPc
  | locking                        -- about to lock the mutex
  | loop                           -- about to test the outer loop's condition
  | idle                           -- about to test the inner loop's condition
  | waiting                        -- in `pthread_cond_wait`
  | readNow                        -- about to read `now`
  | readDeadline (delay : UInt64)  -- about to read the clock for the deadline
  | timedWaiting (deadline : Timespec)  -- in `pthread_cond_timedwait`
  | timedOut                       -- the wait has returned `ETIMEDOUT`
  | calling (callback : Nat)       -- about to call back
  | called                         -- in the callback
  | leaving                        -- about to unlock the mutex for good
  | done
  deriving DecidableEq, Repr

inductive Owner (Thread : Type*)
  | worker
  | caller (t : Thread)
  deriving DecidableEq, Repr

/-- A decision to call back, as taken under the mutex. -/
structure Decision where
  timer : Timer
  decidedAt : Nat
  /-- The time of the last state change. -/
  changedAt : Nat
  /-- The time the previous callback returned. -/
  callbackAt : Nat
  /-- `startIt` has succeeded, and neither `stop` nor `stopIt` has since. -/
  armed : Bool
  deriving DecidableEq, Repr

/-- Bookkeeping; no step reads it, except into itself. -/
structure Trace where
  changedAt : Nat
  callbackAt : Nat
  armed : Bool
  /-- The state has changed since the worker last read `now`. -/
  changed : Bool
  decisions : List Decision
  deriving DecidableEq, Repr

structure State (Thread : Type*) where
  timer : Timer
  clock : Nat
  mutex : Option (Owner Thread)
  caller : Thread → CallerPc
  worker : WorkerPc
  trace : Trace

inductive Event (Thread : Type*)
  | elapse (nanoseconds : Nat)
  | call (t : Thread) (op : Operation)
  | lock (t : Thread)
  | work (t : Thread)
  | unlock (t : Thread)
  | worker     -- the worker's next step, where there is but one
  | wake       -- a wait ends with status 0
  | timeOut    -- the timed wait ends with `ETIMEDOUT`
  deriving DecidableEq, Repr

variable {Thread : Type*} [DecidableEq Thread]

def State.goto (s : State Thread) (t : Thread) (pc : CallerPc) : State Thread :=
  { s with caller := Function.update s.caller t pc }

/-- What a call that succeeded is remembered by. -/
def Trace.record (r : Trace) (clock : Nat) (op : Operation) : Trace :=
  if op.changes then
    { r with
      changedAt := clock
      changed := true
      armed := match op with
        | .startIt => true
        | .stop | .stopIt => false
        | _ => r.armed }
  else r

/-- The work of a call, under the mutex. -/
def State.work (s : State Thread) (t : Thread) (op : Operation) : State Thread :=
  match s.timer.apply (monotonicNanoseconds s.clock) op with
  | none => s.goto t .unlocking
  | some timer =>
      { s with
        timer := timer
        caller := Function.update s.caller t .unlocking
        trace := s.trace.record s.clock op }

/-- What a decision taken now would be. -/
def State.decision (s : State Thread) : Decision where
  timer := s.timer
  decidedAt := s.clock
  changedAt := s.trace.changedAt
  callbackAt := s.trace.callbackAt
  armed := s.trace.armed

/-- The worker copies the callback, which settles what it will call. -/
def State.decide (s : State Thread) (callback : Nat) : State Thread :=
  { s with
    mutex := none
    worker := .calling callback
    trace := { s.trace with decisions := s.trace.decisions ++ [s.decision] } }

/-- `workerLoop`, but for the ends of its waits. -/
def State.workerStep (s : State Thread) : Option (State Thread) :=
  match s.worker with
  | .locking =>
      if s.mutex = none then some { s with mutex := some .worker, worker := .loop } else none
  | .loop =>
      if s.timer.shuttingDown then some { s with worker := .leaving }
      else some { s with worker := .idle }
  | .idle =>
      if s.timer.shuttingDown then some { s with worker := .leaving }
      else if !s.timer.running || !s.timer.interruptEnabled then
        some { s with mutex := none, worker := .waiting }
      else some { s with worker := .readNow }
  | .readNow =>
      let now := monotonicNanoseconds s.clock
      some { s with
        worker := .readDeadline (s.timer.nanosecondsUntilOverflow now)
        trace := { s.trace with changed := false } }
  | .readDeadline delay =>
      some { s with
        mutex := none
        worker := .timedWaiting (monotonicDeadline s.clock delay) }
  | .timedOut =>
      match s.timer.periodElapsedCallback with
      | none => some { s with mutex := none, worker := .locking }
      | some callback => some (s.decide callback)
  | .calling _ => some { s with worker := .called }
  | .called =>
      some { s with worker := .locking, trace := { s.trace with callbackAt := s.clock } }
  | .leaving => some { s with mutex := none, worker := .done }
  | .waiting | .timedWaiting _ | .done => none

def step (s : State Thread) : Event Thread → Option (State Thread)
  | .elapse nanoseconds =>
      if s.clock + nanoseconds < 9223372036854775808 then
        some { s with clock := s.clock + nanoseconds }
      else none
  | .call t op =>
      match s.caller t with
      | .idle => some (s.goto t (.locking op))
      | _ => none
  | .lock t =>
      match s.caller t, s.mutex with
      | .locking op, none =>
          some { s with
            mutex := some (.caller t)
            caller := Function.update s.caller t (.locked op) }
      | _, _ => none
  | .work t =>
      match s.caller t with
      | .locked op => some (s.work t op)
      | _ => none
  | .unlock t =>
      match s.caller t with
      | .unlocking =>
          some { s with mutex := none, caller := Function.update s.caller t .idle }
      | _ => none
  | .worker => s.workerStep
  | .wake =>
      match s.worker, s.mutex with
      | .waiting, none => some { s with mutex := some .worker, worker := .idle }
      | .timedWaiting _, none => some { s with mutex := some .worker, worker := .loop }
      | _, _ => none
  | .timeOut =>
      match s.worker, s.mutex with
      | .timedWaiting deadline, none =>
          if deadline.nanoseconds ≤ s.clock then
            some { s with mutex := some .worker, worker := .timedOut }
          else none
      | _, _ => none

/-- The timer as constructed, with any configuration. -/
def init (s : State Thread) : Prop :=
  s.clock < 9223372036854775808 ∧
  s.timer.startedAtNanoseconds = monotonicNanoseconds s.clock ∧
  s.timer.counter = 0 ∧ s.timer.running = false ∧ s.timer.interruptEnabled = false ∧
  s.timer.shuttingDown = false ∧ s.timer.stateVersion = 0 ∧
  s.timer.periodElapsedCallback = none ∧
  s.mutex = none ∧ (∀ t, s.caller t = .idle) ∧ s.worker = .locking ∧
  s.trace = ⟨s.clock, s.clock, false, false, []⟩

end LinuxTimer
end Hal
end NucleoBase
