/-
  NucleoBase.Hal.LinuxTimerCorrect

  When the Linux timer calls back.  The fixed-width arithmetic of the driver
  computes a periodic counter exactly, so a deadline computed from it lies
  past an overflow; what the worker may conclude when its wait times out is
  what it knew when it computed the deadline, provided nothing has changed.
-/

import NucleoBase.Hal.LinuxTimer

namespace NucleoBase
namespace Hal
namespace LinuxTimer

open Lib

/-! ## The arithmetic -/

theorem monotonicNanoseconds_toNat {clock : Nat} (h : clock < 9223372036854775808) :
    (monotonicNanoseconds clock).toNat = clock := by
  have hsplit := Nat.div_add_mod clock 1000000000
  simp only [monotonicNanoseconds, nanosecondsPerSecond, UInt64.toNat_add, UInt64.toNat_mul,
    UInt64.toNat_ofNat', Nat.reducePow, Nat.reduceMod]
  omega

/-- A deadline lies as long after the time it was computed at as asked for. -/
theorem monotonicDeadline_nanoseconds (clock : Nat) {delay : UInt64}
    (h : delay.toNat ≤ 4294967296000000000) :
    (monotonicDeadline clock delay).nanoseconds = clock + delay.toNat := by
  have hsplit := Nat.div_add_mod clock 1000000000
  have hmod := Nat.mod_lt clock (show 0 < 1000000000 by decide)
  simp only [Timespec.nanoseconds, monotonicDeadline, nanosecondsPerSecond, UInt64.toNat_add,
    UInt64.toNat_div, UInt64.toNat_mod, UInt64.toNat_ofNat', Nat.reducePow, Nat.reduceMod]
  omega

namespace Timer

/-- The counter as configured, as a function of the time since. -/
def periodic (t : Timer) : PeriodicCounter where
  start := t.counter.toNat
  rate := t.tickFrequencyHz.toNat
  unit := nanosecondsPerSecond
  period := t.autoReload.toNat + 1

variable {t : Timer} {now : UInt64}

theorem unit_pos : 0 < t.periodic.unit := show 0 < 1000000000 by decide

theorem rate_pos (hf : t.tickFrequencyHz ≠ 0) : 0 < t.periodic.rate := by
  rcases Nat.eq_zero_or_pos t.tickFrequencyHz.toNat with h | h
  · exact absurd (UInt32.toNat_inj.mp h) hf
  · exact h

theorem frequency_ne_zero (hf : t.tickFrequencyHz ≠ 0) : t.tickFrequencyHz.toUInt64 ≠ 0 := by
  intro h
  apply hf
  apply UInt32.toNat_inj.mp
  simpa using congrArg UInt64.toNat h

theorem period_toNat : (t.autoReload.toUInt64 + 1).toNat = t.periodic.period := by
  have := t.autoReload.toNat_lt
  simp only [UInt64.toNat_add, UInt32.toNat_toUInt64, UInt64.toNat_one, Nat.reducePow, periodic]
  omega

theorem period_le : t.periodic.period ≤ 4294967296 := by
  have := t.autoReload.toNat_lt
  simp only [periodic]
  omega

/-- Two factors below `2 ^ 32`, or a fraction of a second and a frequency, have
    a product that fits 64 bits. -/
theorem toNat_mul_of_lt {a b : UInt64} {k : Nat} (ha : a.toNat < k) (hb : b.toNat < 4294967296)
    (hk : k ≤ 4294967296) : (a * b).toNat = a.toNat * b.toNat := by
  have hle : a.toNat * b.toNat ≤ 4294967295 * 4294967295 :=
    Nat.mul_le_mul (by omega) (by omega)
  rw [UInt64.toNat_mul]
  exact Nat.mod_eq_of_lt (by omega)

/-- The modular products and sums of `counterAt` lose nothing. -/
theorem counterAt_toNat (hf : t.tickFrequencyHz ≠ 0) (hnow : t.startedAtNanoseconds ≤ now) :
    (t.counterAt now).toNat =
      t.periodic.value (now.toNat - t.startedAtNanoseconds.toNat) := by
  have hfrequency : t.tickFrequencyHz.toUInt64.toNat = t.periodic.rate := by
    simp [periodic]
  have hrate : t.periodic.rate < 4294967296 := t.tickFrequencyHz.toNat_lt
  have hcounter : t.counter.toUInt64.toNat = t.periodic.start := by
    simp [periodic]
  have hstart : t.periodic.start < 4294967296 := t.counter.toNat_lt
  have hperiod : 0 < t.periodic.period := Nat.succ_pos _
  have hle := period_le (t := t)
  have hunit : (UInt64.ofNat nanosecondsPerSecond).toNat = t.periodic.unit := rfl
  have helapsed := UInt64.toNat_sub_of_le _ _ hnow
  simp only [counterAt, if_neg (frequency_ne_zero hf)]
  generalize hp : t.autoReload.toUInt64 + 1 = period
  have hpn : period.toNat = t.periodic.period := by
    rw [← hp]
    exact period_toNat
  generalize now - t.startedAtNanoseconds = elapsed at helapsed ⊢
  generalize t.tickFrequencyHz.toUInt64 = frequency at hfrequency ⊢
  generalize UInt64.ofNat nanosecondsPerSecond = unit at hunit ⊢
  rw [← helapsed]
  generalize hw : elapsed / unit % period * (frequency % period) % period = whole
  generalize hr : elapsed % unit * frequency / unit % period = fractional
  have hwhole : whole.toNat =
      (elapsed.toNat / t.periodic.unit * t.periodic.rate) % t.periodic.period := by
    have hmul : (elapsed / unit % period * (frequency % period)).toNat =
        (elapsed / unit % period).toNat * (frequency % period).toNat := by
      apply toNat_mul_of_lt (k := t.periodic.period)
      · rw [UInt64.toNat_mod, hpn]
        exact Nat.mod_lt _ hperiod
      · rw [UInt64.toNat_mod, hpn]
        exact Nat.lt_of_lt_of_le (Nat.mod_lt _ hperiod) hle
      · exact hle
    rw [← hw, UInt64.toNat_mod, hmul, UInt64.toNat_mod, UInt64.toNat_mod, UInt64.toNat_div, hpn,
      hunit, hfrequency, ← Nat.mul_mod]
  have hfractional : fractional.toNat =
      (elapsed.toNat % t.periodic.unit * t.periodic.rate / t.periodic.unit) %
        t.periodic.period := by
    have hmul : (elapsed % unit * frequency).toNat =
        (elapsed % unit).toNat * frequency.toNat := by
      apply toNat_mul_of_lt (k := 1000000000)
      · rw [UInt64.toNat_mod, hunit]
        exact Nat.mod_lt _ unit_pos
      · rw [hfrequency]
        exact hrate
      · decide
    rw [← hr, UInt64.toNat_mod, UInt64.toNat_div, hmul, UInt64.toNat_mod, hpn, hunit, hfrequency]
  have hticks := PeriodicCounter.ticks_split (c := t.periodic) unit_pos elapsed.toNat
  have hwlt : whole.toNat < t.periodic.period := hwhole ▸ Nat.mod_lt _ hperiod
  have hrlt : fractional.toNat < t.periodic.period := hfractional ▸ Nat.mod_lt _ hperiod
  have hsum : (whole + fractional).toNat = whole.toNat + fractional.toNat := by
    rw [UInt64.toNat_add]
    exact Nat.mod_eq_of_lt (by omega)
  have hmodlt : (whole.toNat + fractional.toNat) % t.periodic.period < t.periodic.period :=
    Nat.mod_lt _ hperiod
  have htotal : (t.counter.toUInt64 + (whole + fractional) % period).toNat =
      t.periodic.start + (whole.toNat + fractional.toNat) % t.periodic.period := by
    rw [UInt64.toNat_add, UInt64.toNat_mod, hsum, hpn, hcounter]
    exact Nat.mod_eq_of_lt (by omega)
  have hlt : t.periodic.value elapsed.toNat < 4294967296 :=
    Nat.lt_of_lt_of_le (Nat.mod_lt _ hperiod) hle
  rw [UInt64.toNat_toUInt32, UInt64.toNat_mod, htotal, hpn, hwhole, hfractional,
    ← Nat.add_mod, Nat.add_mod_mod, ← hticks]
  exact Nat.mod_eq_of_lt hlt

theorem nanosecondsUntilOverflow_toNat (hf : t.tickFrequencyHz ≠ 0) (hrun : t.running = true)
    (hnow : t.startedAtNanoseconds ≤ now) :
    (t.nanosecondsUntilOverflow now).toNat = t.periodic.delay (t.periodic.period -
      t.periodic.value (now.toNat - t.startedAtNanoseconds.toNat)) := by
  have hle := period_le (t := t)
  have hrate : t.periodic.rate < 4294967296 := t.tickFrequencyHz.toNat_lt
  have hpos := rate_pos hf
  have hfrequency : t.tickFrequencyHz.toUInt64.toNat = t.periodic.rate := by
    simp [periodic]
  have hcounter := counterAt_toNat hf hnow
  have hlt : t.periodic.value (now.toNat - t.startedAtNanoseconds.toNat) < t.periodic.period :=
    Nat.mod_lt _ (Nat.succ_pos _)
  simp only [nanosecondsUntilOverflow, if_neg (frequency_ne_zero hf), hrun, ↓reduceIte]
  generalize t.periodic.value (now.toNat - t.startedAtNanoseconds.toNat) = value at *
  generalize hc : (t.counterAt now).toUInt64 = counter
  have hcn : counter.toNat = value := by
    rw [← hc, UInt32.toNat_toUInt64, hcounter]
  have hticks : (t.autoReload.toUInt64 + 1 - counter).toNat = t.periodic.period - value := by
    rw [UInt64.toNat_sub_of_le, period_toNat, hcn]
    rw [UInt64.le_iff_toNat_le, period_toNat, hcn]
    exact Nat.le_of_lt hlt
  have hmul : ((t.autoReload.toUInt64 + 1 - counter) *
      UInt64.ofNat nanosecondsPerSecond).toNat = (t.periodic.period - value) * 1000000000 := by
    rw [UInt64.toNat_mul, hticks]
    have hunit : (UInt64.ofNat nanosecondsPerSecond).toNat = 1000000000 := rfl
    rw [hunit]
    exact Nat.mod_eq_of_lt (by omega)
  generalize (t.autoReload.toUInt64 + 1 - counter) * UInt64.ofNat nanosecondsPerSecond = product
    at hmul ⊢
  generalize t.tickFrequencyHz.toUInt64 = frequency at hfrequency ⊢
  have hadd : (product + frequency).toNat =
      (t.periodic.period - value) * 1000000000 + t.periodic.rate := by
    rw [UInt64.toNat_add, hmul, hfrequency]
    exact Nat.mod_eq_of_lt (by omega)
  have hone : (1 : UInt64) ≤ product + frequency := by
    rw [UInt64.le_iff_toNat_le, hadd, UInt64.toNat_one]
    omega
  rw [UInt64.toNat_div, UInt64.toNat_sub_of_le _ _ hone, hadd, hfrequency, UInt64.toNat_one]
  rfl

/-- The longest wait is a whole period of ticks of one second. -/
theorem nanosecondsUntilOverflow_le (hf : t.tickFrequencyHz ≠ 0) (hrun : t.running = true)
    (hnow : t.startedAtNanoseconds ≤ now) :
    (t.nanosecondsUntilOverflow now).toNat ≤ 4294967296000000000 := by
  rw [nanosecondsUntilOverflow_toNat hf hrun hnow]
  generalize t.periodic.value _ = value
  have hle := period_le (t := t)
  have hpos := rate_pos hf
  rw [PeriodicCounter.delay, Nat.div_le_iff_le_mul_add_pred hpos]
  have hunit : t.periodic.unit = 1000000000 := rfl
  have hone : 4294967296000000000 ≤ t.periodic.rate * 4294967296000000000 :=
    Nat.le_mul_of_pos_left _ hpos
  rw [hunit]
  omega

end Timer

/-! ## The guarantee -/

/-- What a decision to call back has to be. -/
structure Decision.Justified (d : Decision) : Prop where
  running : d.timer.running = true
  interrupt : d.timer.interruptEnabled = true
  armed : d.armed = true
  /-- The counter, counting since the last state change, has overflowed after
      both that change and the previous callback. -/
  overflowed : d.timer.periodic.Overflowed (max d.changedAt d.callbackAt - d.changedAt)
    (d.decidedAt - d.changedAt)

variable {Thread : Type*} [DecidableEq Thread] {s s' : State Thread} {e : Event Thread}

def Guarantee (s : State Thread) : Prop := ∀ d ∈ s.trace.decisions, d.Justified

/-- A timed wait with a callback to make times out only with the state it was
    begun in, and the counter running. -/
def Current (s : State Thread) : Event Thread → Prop
  | .timeOut => s.timer.periodElapsedCallback ≠ none →
      s.trace.changed = false ∧ s.timer.tickFrequencyHz ≠ 0
  | _ => True

/-! ## The invariant -/

def WorkerPc.holds : WorkerPc → Bool
  | .loop | .idle | .readNow | .readDeadline _ | .timedOut | .leaving => true
  | .locking | .waiting | .timedWaiting _ | .calling _ | .called | .done => false

def CallerPc.holds : CallerPc → Bool
  | .locked _ | .unlocking => true
  | .idle | .locking _ => false

def State.Enabled (s : State Thread) : Prop :=
  s.timer.running = true ∧ s.timer.interruptEnabled = true

/-- A time the worker may have read as `now`. -/
def State.Seen (s : State Thread) (a : Nat) : Prop :=
  s.trace.changedAt ≤ a ∧ s.trace.callbackAt ≤ a ∧ a ≤ s.clock

/-- What the worker knows where it stands. -/
def State.WorkerOk (s : State Thread) : WorkerPc → Prop
  | .readNow => s.Enabled
  | .readDeadline delay => s.Enabled ∧ ∃ a, s.Seen a ∧
      delay = s.timer.nanosecondsUntilOverflow (monotonicNanoseconds a)
  | .timedWaiting deadline => s.trace.changed = false → s.Enabled ∧
      (s.timer.tickFrequencyHz ≠ 0 → ∃ a, s.Seen a ∧
        a + (s.timer.nanosecondsUntilOverflow (monotonicNanoseconds a)).toNat ≤
          deadline.nanoseconds)
  | .timedOut => s.timer.periodElapsedCallback ≠ none → s.decision.Justified
  | _ => True

structure Inv (s : State Thread) : Prop where
  clock : s.clock < 9223372036854775808
  changedAt : s.trace.changedAt ≤ s.clock
  callbackAt : s.trace.callbackAt ≤ s.clock
  started : s.timer.running = true →
    s.timer.startedAtNanoseconds = monotonicNanoseconds s.trace.changedAt
  armed : s.timer.interruptEnabled = true → s.trace.armed = true
  owner : s.worker.holds = true ↔ s.mutex = some .worker
  callers : ∀ t, (s.caller t).holds = true ↔ s.mutex = some (.caller t)
  worker : s.WorkerOk s.worker
  decisions : Guarantee s

theorem Inv.initial (h0 : init s) : Inv s := by
  obtain ⟨hclock, hstarted, -, hrun, hint, -, -, -, hmutex, hcaller, hworker, htrace⟩ := h0
  refine ⟨hclock, ?_, ?_, ?_, ?_, ?_, ?_, ?_, ?_⟩
  · rw [htrace]
  · rw [htrace]
  · intro _
    rw [htrace, hstarted]
  · intro h
    rw [hint] at h
    cases h
  · rw [hworker, hmutex]
    simp [WorkerPc.holds]
  · intro t
    rw [hcaller, hmutex]
    simp [CallerPc.holds]
  · rw [hworker]
    trivial
  · intro d hd
    rw [htrace] at hd
    cases hd

/-! ## The overflow a deadline waits for -/

/-- Past a deadline computed from the present configuration, the counter has
    overflowed since the last state change and the previous callback. -/
theorem Inv.overflowed (inv : Inv s) (hrun : s.timer.running = true)
    (hf : s.timer.tickFrequencyHz ≠ 0) {a : Nat} (ha : s.Seen a)
    (hdeadline : a + (s.timer.nanosecondsUntilOverflow (monotonicNanoseconds a)).toNat ≤
      s.clock) :
    s.timer.periodic.Overflowed (max s.trace.changedAt s.trace.callbackAt - s.trace.changedAt)
      (s.clock - s.trace.changedAt) := by
  obtain ⟨hchanged, hcallback, hclock⟩ := ha
  have hstarted := inv.started hrun
  have hbound := inv.clock
  have hchangedNat : (monotonicNanoseconds s.trace.changedAt).toNat = s.trace.changedAt :=
    monotonicNanoseconds_toNat (by omega)
  have haNat : (monotonicNanoseconds a).toNat = a := monotonicNanoseconds_toNat (by omega)
  have hle : s.timer.startedAtNanoseconds ≤ monotonicNanoseconds a := by
    rw [hstarted, UInt64.le_iff_toNat_le, hchangedNat, haNat]
    exact hchanged
  rw [Timer.nanosecondsUntilOverflow_toNat hf hrun hle, haNat, hstarted, hchangedNat] at hdeadline
  have hover := PeriodicCounter.overflowed_delay (c := s.timer.periodic) Timer.unit_pos
    (Timer.rate_pos hf) (Nat.succ_pos _) (a - s.trace.changedAt)
  exact hover.mono (by omega) (by omega)

/-- The deadline of the worker, from the time it read. -/
theorem Inv.deadline (inv : Inv s) (hrun : s.timer.running = true)
    (hf : s.timer.tickFrequencyHz ≠ 0) {a : Nat} (ha : s.Seen a) :
    a + (s.timer.nanosecondsUntilOverflow (monotonicNanoseconds a)).toNat ≤
      (monotonicDeadline s.clock
        (s.timer.nanosecondsUntilOverflow (monotonicNanoseconds a))).nanoseconds := by
  obtain ⟨hchanged, -, hclock⟩ := ha
  have hbound := inv.clock
  have hle : s.timer.startedAtNanoseconds ≤ monotonicNanoseconds a := by
    rw [inv.started hrun, UInt64.le_iff_toNat_le, monotonicNanoseconds_toNat (by omega),
      monotonicNanoseconds_toNat (by omega)]
    exact hchanged
  rw [monotonicDeadline_nanoseconds _ (Timer.nanosecondsUntilOverflow_le hf hrun hle)]
  omega

/-! ## The steps -/

/-- What the worker knows stays true while time passes. -/
theorem State.WorkerOk.elapse {n : Nat} {pc : WorkerPc} (h : s.WorkerOk pc) :
    State.WorkerOk { s with clock := s.clock + n } pc := by
  have hseen : ∀ a, s.Seen a → State.Seen { s with clock := s.clock + n } a :=
    fun a ha => ⟨ha.1, ha.2.1, Nat.le_add_right_of_le ha.2.2⟩
  cases pc with
  | readDeadline delay =>
      obtain ⟨hen, a, ha, hd⟩ := h
      exact ⟨hen, a, hseen a ha, hd⟩
  | timedWaiting deadline =>
      intro hch
      obtain ⟨hen, hover⟩ := h hch
      refine ⟨hen, fun hf => ?_⟩
      obtain ⟨a, ha, hd⟩ := hover hf
      exact ⟨a, hseen a ha, hd⟩
  | timedOut =>
      intro hcb
      obtain ⟨hrun, hint, harmed, hover⟩ := h hcb
      refine ⟨hrun, hint, harmed, hover.mono (Nat.le_refl _) ?_⟩
      show s.clock - s.trace.changedAt ≤ s.clock + n - s.trace.changedAt
      omega
  | readNow => exact h
  | _ => trivial

/-- The steps of a caller outside its work. -/
theorem Inv.moveCaller (inv : Inv s) {t : Thread} {pc : CallerPc}
    {m : Option (Owner Thread)}
    (hworker : s.worker.holds = true ↔ m = some .worker)
    (hcallers : ∀ u, (Function.update s.caller t pc u).holds = true ↔ m = some (.caller u)) :
    Inv { s with mutex := m, caller := Function.update s.caller t pc } where
  clock := inv.clock
  changedAt := inv.changedAt
  callbackAt := inv.callbackAt
  started := inv.started
  armed := inv.armed
  owner := hworker
  callers := hcallers
  worker := by
    have hw := inv.worker
    show State.WorkerOk { s with mutex := m, caller := Function.update s.caller t pc } s.worker
    cases hpc : s.worker <;> rw [hpc] at hw <;> exact hw
  decisions := inv.decisions

/-- The mutex as the callers see it, when one of them moves. -/
theorem Inv.callers_update (inv : Inv s) {t : Thread} {pc : CallerPc}
    (h : pc.holds = (s.caller t).holds) (u : Thread) :
    (Function.update s.caller t pc u).holds = true ↔ s.mutex = some (.caller u) := by
  rcases eq_or_ne u t with rfl | hne
  · rw [Function.update_self, h]
    exact inv.callers u
  · rw [Function.update_of_ne hne]
    exact inv.callers u

theorem Timer.startWith_changes {t t' : Timer} {now : UInt64} {interrupt : Bool}
    (h : t.startWith interrupt now = some t') :
    t'.startedAtNanoseconds = now ∧ t'.interruptEnabled = interrupt := by
  simp only [Timer.startWith] at h
  split at h
  · cases h
  · cases h
    exact ⟨rfl, rfl⟩

/-- Reading the counter off touches nothing else. -/
@[simp] theorem Timer.captureCounter_interruptEnabled (t : Timer) (now : UInt64) :
    (t.captureCounter now).interruptEnabled = t.interruptEnabled := by
  unfold Timer.captureCounter
  split <;> rfl

/-- A successful state change, seen from the worker's side. -/
theorem Timer.apply_changes {t t' : Timer} {now : UInt64} {op : Operation}
    (hop : op.changes = true) (h : t.apply now op = some t') :
    (t'.running = true → t'.startedAtNanoseconds = now) ∧
      (t'.interruptEnabled = true →
        op = .startIt ∨ t.interruptEnabled = true ∧ op ≠ .stop ∧ op ≠ .stopIt) := by
  cases op with
  | start =>
      obtain ⟨hstarted, hint⟩ := Timer.startWith_changes h
      refine ⟨fun _ => hstarted, fun hi => ?_⟩
      rw [hint] at hi
      cases hi
  | startIt => exact ⟨fun _ => (Timer.startWith_changes h).1, fun _ => .inl rfl⟩
  | stop | stopIt =>
      cases h
      exact ⟨fun hr => (nomatch hr), fun hi => (nomatch hi)⟩
  | setCounter _ | setPeriod _ | forceUpdateEvent | reset =>
      cases h
      exact ⟨fun _ => rfl, fun hi => .inr ⟨hi, by simp, by simp⟩⟩
  | setAutoReload _ | setPrescaler _ =>
      cases h
      refine ⟨fun _ => rfl, fun hi => .inr ⟨?_, by simp, by simp⟩⟩
      rw [← t.captureCounter_interruptEnabled now]
      exact hi
  | setPeriodElapsedCallback _ => cases hop
  | destroy => cases hop

/-- A call that is no state change only sets the callback or the flag of the
    destructor. -/
theorem Timer.apply_quiet {t t' : Timer} {now : UInt64} {op : Operation}
    (hop : op.changes = false) (h : t.apply now op = some t') :
    ∃ callback flag, t' = { t with periodElapsedCallback := callback, shuttingDown := flag } := by
  cases op with
  | setPeriodElapsedCallback callback =>
      cases h
      exact ⟨callback, t.shuttingDown, rfl⟩
  | destroy =>
      cases h
      exact ⟨t.periodElapsedCallback, true, rfl⟩
  | _ => cases hop

/-- What a worker without the mutex knows, it knows of the state it last read. -/
theorem State.WorkerOk.of_changed {pc : WorkerPc} (hholds : pc.holds = false)
    (hchanged : s.trace.changed = true) : s.WorkerOk pc := by
  cases pc with
  | timedWaiting deadline =>
      intro h
      rw [hchanged] at h
      cases h
  | readNow | readDeadline _ | timedOut => cases hholds
  | _ => trivial

/-- The work of a call keeps the invariant. -/
theorem Inv.work (inv : Inv s) {t : Thread} {op : Operation} (hpc : s.caller t = .locked op) :
    Inv (s.work t op) := by
  have hmutex : s.mutex = some (.caller t) := (inv.callers t).mp (by rw [hpc]; rfl)
  have hcallers : ∀ u, (Function.update s.caller t .unlocking u).holds = true ↔
      s.mutex = some (.caller u) := inv.callers_update (by rw [hpc]; rfl)
  have hholds : s.worker.holds = false := by
    cases h : s.worker.holds with
    | false => rfl
    | true =>
        have := inv.owner.mp h
        rw [hmutex] at this
        cases this
  unfold State.work
  split
  · exact inv.moveCaller inv.owner hcallers
  · next timer htimer =>
      cases hop : op.changes with
      | true =>
          obtain ⟨hstarted, hint⟩ := Timer.apply_changes hop htimer
          simp only [Trace.record, hop, ↓reduceIte]
          refine ⟨inv.clock, Nat.le_refl _, inv.callbackAt, hstarted, ?_, inv.owner, hcallers,
            State.WorkerOk.of_changed hholds rfl, inv.decisions⟩
          intro hi
          rcases hint hi with rfl | ⟨hbefore, hstop, hstopIt⟩
          · rfl
          · have := inv.armed hbefore
            cases op <;> simp_all
      | false =>
          obtain ⟨callback, flag, rfl⟩ := Timer.apply_quiet hop htimer
          simp only [Trace.record, hop, Bool.false_eq_true, ↓reduceIte]
          refine ⟨inv.clock, inv.changedAt, inv.callbackAt, inv.started, inv.armed, inv.owner,
            hcallers, ?_, inv.decisions⟩
          have hw := inv.worker
          show State.WorkerOk _ s.worker
          cases hcases : s.worker <;> rw [hcases] at hw hholds <;>
            first | exact hw | cases hholds

/-- The worker moves, with or without the mutex. -/
theorem Inv.moveWorker (inv : Inv s) {pc : WorkerPc} {m : Option (Owner Thread)}
    (howner : pc.holds = true ↔ m = some .worker)
    (hcallers : ∀ t, m = some (.caller t) ↔ s.mutex = some (.caller t))
    (hw : s.WorkerOk pc) : Inv { s with mutex := m, worker := pc } where
  clock := inv.clock
  changedAt := inv.changedAt
  callbackAt := inv.callbackAt
  started := inv.started
  armed := inv.armed
  owner := howner
  callers := fun t => (inv.callers t).trans (hcallers t).symm
  worker := by
    show State.WorkerOk { s with mutex := m, worker := pc } pc
    cases pc <;> exact hw
  decisions := inv.decisions

/-- A decision of the worker, justified, keeps the invariant. -/
theorem Inv.decide (inv : Inv s) {callback : Nat} (hpc : s.worker = .timedOut)
    (hcallback : s.timer.periodElapsedCallback = some callback) : Inv (s.decide callback) := by
  have hmutex : s.mutex = some .worker := inv.owner.mp (by rw [hpc]; rfl)
  have hjustified : s.decision.Justified := by
    have hw := inv.worker
    rw [hpc] at hw
    exact hw (by simp [hcallback])
  refine ⟨inv.clock, inv.changedAt, inv.callbackAt, inv.started, inv.armed, ?_, ?_, trivial, ?_⟩
  · simp [State.decide, WorkerPc.holds]
  · intro t
    have := inv.callers t
    rw [hmutex] at this
    simpa [State.decide] using this
  · intro d hd
    rcases List.mem_append.mp hd with hd | hd
    · exact inv.decisions d hd
    · rcases List.mem_singleton.mp hd with rfl
      exact hjustified

theorem Inv.workerStep (inv : Inv s) (hs : s.workerStep = some s') : Inv s' := by
  have howns : s.worker.holds = true → ∀ t, none = some (Owner.caller t) ↔
      s.mutex = some (.caller t) := by
    intro h t
    rw [inv.owner.mp h]
    simp
  have hsame : ∀ t, s.mutex = some (.caller t) ↔ s.mutex = some (Owner.caller t) :=
    fun t => Iff.rfl
  have howner := inv.owner
  have hw := inv.worker
  unfold State.workerStep at hs
  cases hpc : s.worker <;> rw [hpc] at hs howns howner hw <;> simp only at hs
  case locking =>
    split at hs
    · next hfree =>
        cases hs
        exact inv.moveWorker (by simp [WorkerPc.holds]) (by simp [hfree]) trivial
    · cases hs
  case loop =>
    split at hs <;> cases hs
    · exact inv.moveWorker howner hsame trivial
    · exact inv.moveWorker howner hsame trivial
  case idle =>
    split at hs
    · cases hs
      exact inv.moveWorker howner hsame trivial
    · split at hs <;> cases hs
      · exact inv.moveWorker (by simp [WorkerPc.holds]) (howns rfl) trivial
      · next hen =>
          simp only [Bool.or_eq_true, Bool.not_eq_true', not_or, Bool.not_eq_false] at hen
          exact inv.moveWorker howner hsame hen
  case readNow =>
    cases hs
    refine ⟨inv.clock, inv.changedAt, inv.callbackAt, inv.started, inv.armed, howner,
      inv.callers, ?_, inv.decisions⟩
    exact ⟨hw, s.clock, ⟨inv.changedAt, inv.callbackAt, Nat.le_refl _⟩, rfl⟩
  case readDeadline delay =>
    cases hs
    obtain ⟨hen, a, ha, rfl⟩ := hw
    refine inv.moveWorker (by simp [WorkerPc.holds]) (howns rfl) fun _ => ⟨hen, fun hf => ?_⟩
    exact ⟨a, ha, inv.deadline hen.1 hf ha⟩
  case timedOut =>
    split at hs <;> cases hs
    · exact inv.moveWorker (by simp [WorkerPc.holds]) (howns rfl) trivial
    · next hcallback => exact inv.decide hpc hcallback
  case calling callback =>
    cases hs
    exact inv.moveWorker howner hsame trivial
  case called =>
    cases hs
    exact ⟨inv.clock, inv.changedAt, Nat.le_refl _, inv.started, inv.armed, howner, inv.callers,
      trivial, inv.decisions⟩
  case leaving =>
    cases hs
    exact inv.moveWorker (by simp [WorkerPc.holds]) (howns rfl) trivial
  all_goals cases hs

/-- A timed wait that times out with the state it was begun in has waited for an
    overflow. -/
theorem Inv.timeOut (inv : Inv s) {deadline : Timespec} (hpc : s.worker = .timedWaiting deadline)
    (hfree : s.mutex = none) (hdeadline : deadline.nanoseconds ≤ s.clock)
    (hcurrent : Current s .timeOut) :
    Inv { s with mutex := some .worker, worker := .timedOut } := by
  refine inv.moveWorker (by simp [WorkerPc.holds]) (by simp [hfree]) fun hcallback => ?_
  obtain ⟨hchanged, hf⟩ := hcurrent hcallback
  have hw := inv.worker
  rw [hpc] at hw
  obtain ⟨⟨hrun, hint⟩, hover⟩ := hw hchanged
  obtain ⟨a, ha, hd⟩ := hover hf
  exact ⟨hrun, hint, inv.armed hint, inv.overflowed hrun hf ha (hd.trans hdeadline)⟩

theorem Inv.preserve (inv : Inv s) (hg : Current s e) (hs : step s e = some s') : Inv s' := by
  cases e with
  | elapse n =>
      simp only [step] at hs
      split at hs
      · next hlt =>
          cases hs
          exact ⟨hlt, Nat.le_add_right_of_le inv.changedAt, Nat.le_add_right_of_le inv.callbackAt,
            inv.started, inv.armed, inv.owner, inv.callers, inv.worker.elapse, inv.decisions⟩
      · cases hs
  | call t op =>
      simp only [step] at hs
      split at hs
      · next hpc =>
          cases hs
          exact inv.moveCaller inv.owner (inv.callers_update (by rw [hpc]; rfl))
      · cases hs
  | lock t =>
      simp only [step] at hs
      split at hs
      · next op hpc hfree =>
          cases hs
          have howner := inv.owner
          rw [hfree] at howner
          refine inv.moveCaller (by simpa using howner) fun u => ?_
          rcases eq_or_ne u t with rfl | hne
          · simp [CallerPc.holds]
          · have := inv.callers u
            rw [hfree] at this
            simpa [Function.update_of_ne hne, hne.symm] using this
      · cases hs
  | work t =>
      simp only [step] at hs
      split at hs
      · next op hpc =>
          cases hs
          exact inv.work hpc
      · cases hs
  | unlock t =>
      simp only [step] at hs
      split at hs
      · next hpc =>
          cases hs
          have hmutex : s.mutex = some (.caller t) := (inv.callers t).mp (by rw [hpc]; rfl)
          have howner := inv.owner
          rw [hmutex] at howner
          refine inv.moveCaller (by simpa using howner) fun u => ?_
          rcases eq_or_ne u t with rfl | hne
          · simp [CallerPc.holds]
          · have := inv.callers u
            rw [hmutex] at this
            simpa [Function.update_of_ne hne, hne.symm] using this
      · cases hs
  | worker => exact inv.workerStep hs
  | wake =>
      simp only [step] at hs
      split at hs
      · next hfree =>
          cases hs
          exact inv.moveWorker (by simp [WorkerPc.holds]) (by simp [hfree]) trivial
      · next hfree =>
          cases hs
          exact inv.moveWorker (by simp [WorkerPc.holds]) (by simp [hfree]) trivial
      · cases hs
  | timeOut =>
      simp only [step] at hs
      split at hs
      · next deadline hpc hfree =>
          split at hs
          · next hdeadline =>
              cases hs
              exact inv.timeOut hpc hfree hdeadline hg
          · cases hs
      · cases hs

/-! ## Every run -/

/-- As long as no timed wait with a callback to make times out on a state that
    has changed since it was begun, or with a counter that does not run, every
    callback is made on a decision that was right under the mutex. -/
theorem callback_guarantee {h : List (Event Thread)}
    (hrun : Run step (fun _ => Current) init h s) : Guarantee s := by
  have hstep : ∀ (_ : List (Event Thread)) (s : State Thread) (e : Event Thread)
      (s' : State Thread), Inv s → Current s e → step s e = some s' → Inv s' :=
    fun _ _ _ _ inv hg hs => inv.preserve hg hs
  exact (Run.history_invariant (fun _ => Inv.initial) hstep hrun).decisions

instance instDecidableCurrent (s : State Thread) : ∀ e, Decidable (Current s e)
  | .timeOut => inferInstanceAs (Decidable (_ → _ ∧ _))
  | .elapse _ | .call _ _ | .lock _ | .work _ | .unlock _ | .worker | .wake => isTrue trivial

/-- A timer of 1 kHz that overflows every 100 ms. -/
def constructed : State Bool where
  timer := ⟨1000, 0, 99, 0, 0, false, false, false, 0, none⟩
  clock := 0
  mutex := none
  caller := fun _ => .idle
  worker := .locking
  trace := ⟨0, 0, false, false, []⟩

theorem init_constructed : init constructed :=
  ⟨by decide, by decide +kernel, rfl, rfl, rfl, rfl, rfl, rfl, rfl, fun _ => rfl, rfl, rfl⟩

/-- One call from beginning to end. -/
def calls (t : Bool) (op : Operation) : List (Event Bool) := [.call t op, .lock t, .work t, .unlock t]

/-- The worker sleeps towards the first overflow. -/
def asleep : List (Event Bool) :=
  calls false (.setPeriodElapsedCallback (some 7)) ++ calls false .startIt ++
    List.replicate 5 .worker

/-- The wait times out, and the callback is made. -/
def wakes : List (Event Bool) := [.timeOut, .worker, .worker]

/-- The callback of the first overflow. -/
def onTime : List (Event Bool) := asleep ++ [.elapse 100000000] ++ wakes

theorem callback_guarantee_onTime :
    ∃ s, replay step constructed onTime = some s ∧ s.worker = .called ∧ Guarantee s := by
  have hend : (replay step constructed onTime).map State.worker = some .called := by
    decide +kernel
  have hguard : Guarded step (fun _ => Current) [] constructed onTime := by
    decide +kernel
  obtain ⟨s, hs, hworker⟩ := Option.map_eq_some_iff.mp hend
  exact ⟨s, hs, hworker, callback_guarantee (Run.of_replay init_constructed hguard hs)⟩

/-- The deadline passes, and `stopIt` returns before the worker gets the mutex. -/
def stopped : List (Event Bool) :=
  asleep ++ [.elapse 100000000] ++ calls true .stopIt ++ wakes

/-- A prescaler stops the counter, and a second passes. -/
def prescaled : List (Event Bool) :=
  calls false (.setPeriodElapsedCallback (some 7)) ++ calls false .startIt ++
    calls false (.setPrescaler 1000) ++ List.replicate 5 .worker ++
    [.elapse 1000000000] ++ wakes

/-- The worker calls back although the timer has been stopped, and although its
    counter does not run. -/
theorem callback_unjustified :
    (∃ s : State Bool, Run step anyStep init stopped.reverse s ∧ s.worker = .called ∧
      ¬ Guarantee s) ∧
    ∃ s : State Bool, Run step anyStep init prescaled.reverse s ∧ s.worker = .called ∧
      ¬ Guarantee s := by
  refine ⟨?_, ?_⟩
  · have hend : (replay step constructed stopped).map
        (fun s => (s.worker, s.trace.decisions.map Decision.armed)) = some (.called, [false]) := by
      decide +kernel
    obtain ⟨s, hs, heq⟩ := Option.map_eq_some_iff.mp hend
    obtain ⟨hworker, hdecisions⟩ := Prod.mk.inj heq
    refine ⟨s, Run.of_replay init_constructed (guarded_anyStep _ _ _) hs, hworker, fun hg => ?_⟩
    obtain ⟨d, hmem, harmed⟩ := List.mem_map.mp (hdecisions ▸ List.mem_singleton.mpr rfl)
    rw [(hg d hmem).armed] at harmed
    cases harmed
  · have hend : (replay step constructed prescaled).map
        (fun s => (s.worker, s.trace.decisions.map fun d => d.timer.periodic.rate)) =
          some (.called, [0]) := by
      decide +kernel
    obtain ⟨s, hs, heq⟩ := Option.map_eq_some_iff.mp hend
    obtain ⟨hworker, hdecisions⟩ := Prod.mk.inj heq
    refine ⟨s, Run.of_replay init_constructed (guarded_anyStep _ _ _) hs, hworker, fun hg => ?_⟩
    obtain ⟨d, hmem, hrate⟩ := List.mem_map.mp (hdecisions ▸ List.mem_singleton.mpr rfl)
    exact PeriodicCounter.not_overflowed_of_rate hrate _ _ (hg d hmem).overflowed

end LinuxTimer
end Hal
end NucleoBase
