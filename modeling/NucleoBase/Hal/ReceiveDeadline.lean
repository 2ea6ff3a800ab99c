/-
  NucleoBase.Hal.ReceiveDeadline

  The loops of `receive` (linux/Ethernet.cpp, stm32/Ethernet.cpp) and their
  deadline.  One round of a loop gets what the kernel or the HAL gives it and
  the clock; a loop runs on a stream of rounds until one of them returns.
-/

import NucleoBase.Hal.EthernetTransmit
import NucleoBase.Hal.EtherTypeFilter
import NucleoBase.Lib.Rounds

namespace NucleoBase
namespace Hal
namespace ReceiveDeadline

open Lib Rounds
open EthernetTransmit (timeoutMilliseconds maxFrameSize)
open EtherTypeFilter (wanted)

inductive Result
  | received (frame : List UInt8)
  | timedOut | messageSize | noBufferSpace | errno
  deriving DecidableEq, Repr

/-! ## The Linux loop -/

/-- `NANOSECONDS_PER_MILLISECOND`. -/
def nanosecondsPerMillisecond : Nat := 1000000

/-- The largest `std::uint64_t`. -/
def uint64Max : Nat := 18446744073709551615

/-- `make_deadline`, at this time. -/
def makeDeadline (now timeout : Nat) : Nat :=
  if (uint64Max - now) / nanosecondsPerMillisecond < timeout then uint64Max
  else now + timeout * nanosecondsPerMillisecond

/-- `INT_MAX`. -/
def intMax : Nat := 2147483647

/-- `poll_timeout`, at this time. -/
def pollTimeout (deadline now : Nat) : Nat :=
  if deadline ≤ now then 0
  else
    min ((deadline - now + nanosecondsPerMillisecond - 1) / nanosecondsPerMillisecond) intMax

inductive PollStatus
  | ready | timedOut | failed
  deriving DecidableEq, Repr

/-- What `recvfrom` gives: nothing for now (`EINTR`, `EAGAIN`), an error, or a packet with its
    whole length, of which the buffer has the first part. -/
inductive Received
  | retry
  | failed
  | packet (outgoing : Bool) (wire : List UInt8)
  deriving DecidableEq, Repr

structure LinuxRound where
  /-- `monotonic_nanoseconds`, in the last attempt of `poll_descriptor`. -/
  now : Nat
  /-- What `poll` answers, given its timeout. -/
  poll : Nat → PollStatus
  recv : Received

/-- One round of `receive` on Linux; `none` is `continue`. -/
def linuxRound (receiveEtherType : Option UInt16) (capacity deadline : Nat) (r : LinuxRound) :
    Option Result :=
  match r.poll (pollTimeout deadline r.now) with
  | .failed => some .errno
  | .timedOut => some .timedOut
  | .ready =>
      match r.recv with
      | .retry => none
      | .failed => some .errno
      | .packet outgoing wire =>
          if outgoing then none
          else if maxFrameSize < wire.length then some .messageSize
          else if !wanted receiveEtherType wire then none
          else if capacity < wire.length then some .noBufferSpace
          else some (.received wire)

/-! ## The STM32 loop -/

/-- A packet of the HAL: its buffers, of which the first one is filtered. -/
structure HalPacket where
  errors : UInt32
  first : List UInt8
  rest : List (List UInt8)
  deriving DecidableEq, Repr

def HalPacket.size (p : HalPacket) : Nat := p.first.length + (p.rest.map List.length).sum

structure Stm32Round where
  /-- The milliseconds since `started_at` when the round begins. -/
  began : Nat
  /-- What `HAL_ETH_ReadData` returns. -/
  packet : Option HalPacket
  /-- The milliseconds since `started_at` when the round reads the clock. -/
  elapsed : Nat

/-- `HAL_GetTick`, so many milliseconds after `started_at`. -/
def tickAt (startedAt : UInt32) (elapsed : Nat) : UInt32 := startedAt + elapsed.toUInt32

/-- The comparison with the deadline. -/
def expired (timeoutTicks startedAt : UInt32) (elapsed : Nat) : Bool :=
  timeoutTicks == 0 || decide (timeoutTicks ≤ tickAt startedAt elapsed - startedAt)

/-- One round of `receive` on the STM32; `none` is another round. -/
def stm32Round (receiveEtherType : Option UInt16) (capacity : Nat)
    (timeoutTicks startedAt : UInt32) (r : Stm32Round) : Option Result :=
  match r.packet with
  | some p =>
      if p.errors ≠ 0 ∨ wanted receiveEtherType p.first = false then
        if expired timeoutTicks startedAt r.elapsed then some .timedOut else none
      else if maxFrameSize < p.size ∨ capacity < p.size then some .noBufferSpace
      else some (.received (p.first ++ p.rest.flatten))
  | none => if expired timeoutTicks startedAt r.elapsed then some .timedOut else none

/-! ## Discarded traffic and the contract -/

/-- A call of `receive` on Linux that has got as far as its loop. -/
structure LinuxCall where
  receiveEtherType : Option UInt16
  capacity : Nat
  timeout : Nat
  /-- The clock when the deadline is computed. -/
  start : Nat

def LinuxCall.deadline (c : LinuxCall) : Nat := makeDeadline c.start c.timeout

def LinuxCall.round (c : LinuxCall) : LinuxRound → Option Result :=
  linuxRound c.receiveEtherType c.capacity c.deadline

/-- The round finds the socket readable. -/
def LinuxCall.Ready (c : LinuxCall) (r : LinuxRound) : Prop :=
  r.poll (pollTimeout c.deadline r.now) = .ready

/-- The clock has passed the deadline when the round looks at it. -/
def LinuxCall.Late (c : LinuxCall) (r : LinuxRound) : Prop := c.deadline ≤ r.now

/-- A call of `receive` on the STM32 that has got as far as its loop. -/
structure Stm32Call where
  receiveEtherType : Option UInt16
  capacity : Nat
  timeout : Nat
  startedAt : UInt32

def Stm32Call.timeoutTicks (c : Stm32Call) : UInt32 := timeoutMilliseconds c.timeout

def Stm32Call.round (c : Stm32Call) : Stm32Round → Option Result :=
  stm32Round c.receiveEtherType c.capacity c.timeoutTicks c.startedAt

/-- The round takes a frame from the HAL. -/
def Stm32Call.Takes (_ : Stm32Call) (r : Stm32Round) : Prop := r.packet.isSome = true

def Stm32Call.Late (c : Stm32Call) (r : Stm32Round) : Prop := c.timeout ≤ r.began

/-- After the deadline, the clock is read before the 32-bit difference of ticks has wrapped
    below the timeout: in the round that begins late, or in the next if the two have not both
    brought a frame. -/
def Stm32Call.SeesDeadline (c : Stm32Call) (rounds : Nat → Stm32Round) : Prop :=
  ∀ n, c.Late (rounds n) → ∃ k ≤ n + 1,
    c.timeoutTicks.toNat ≤ (rounds k).elapsed % 2 ^ 32 ∧
      (k = n + 1 → ¬ (c.Takes (rounds n) ∧ c.Takes (rounds (n + 1))))

/-! ## When a round returns -/

section Linux

variable {c : LinuxCall} {r : LinuxRound} {rounds : Nat → LinuxRound}

end Linux

section Stm32

variable {c : Stm32Call} {r : Stm32Round} {rounds : Nat → Stm32Round}

/-- A late round whose look at the clock comes before the difference of ticks has wrapped sees
    the deadline. -/
theorem stm32_sees_of_lt (hclock : ∀ n, (rounds n).began ≤ (rounds n).elapsed)
    (hwrap : ∀ n, c.Late (rounds n) → (rounds n).elapsed < 2 ^ 32) : c.SeesDeadline rounds := by
  intro n hlate
  have hbegan := hclock n
  have helapsed := hwrap n hlate
  have hle : c.timeout ≤ (rounds n).began := hlate
  refine ⟨n, Nat.le_succ n, ?_, fun h => by omega⟩
  rw [Nat.mod_eq_of_lt helapsed]
  show (timeoutMilliseconds (c.timeout : Int)).toNat ≤ _
  unfold timeoutMilliseconds
  split
  · exact Nat.zero_le _
  · rw [UInt32.toNat_ofNat', Int.toNat_natCast]
    omega

end Stm32

/-! ## The contract of both backends -/

/-- Outgoing copies as fast as they are read. -/
def flood (n : Nat) : LinuxRound := ⟨1000 + 1000000 * n, fun _ => .ready, .packet true []⟩

end ReceiveDeadline
end Hal
end NucleoBase
