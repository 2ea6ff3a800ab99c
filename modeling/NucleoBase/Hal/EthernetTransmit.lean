/-
  NucleoBase.Hal.EthernetTransmit

  The transmit path of the STM32 Ethernet driver (stm32/Ethernet.cpp):
  `transmit` and `waitForTransmit` over the one static frame buffer and the
  remembered descriptor, with `start` and `stop`.

  The transmit mutex is held throughout each of the three functions, so one
  call is in progress at a time; its steps are the accesses to the descriptor,
  the registers and the frame buffer and the calls of the HAL, and between any
  two of them the DMA may complete descriptors it owns, or not.  What the HAL
  calls return is up to the environment.  Of the HAL it is assumed that
  `HAL_ETH_Transmit_IT` hands the descriptor at the current index to the DMA or
  fails and leaves the descriptors alone, that `HAL_ETH_ReleaseTxPacket` gives
  no descriptor to the DMA, and that a successful `HAL_ETH_Stop` followed by a
  successful `HAL_ETH_Init` takes every descriptor back.
-/

import NucleoBase.Lib.Run
import Mathlib.Data.UInt

namespace NucleoBase
namespace Hal
namespace EthernetTransmit

open Lib

/-- `ETH_TX_DESC_CNT`. -/
def txDescriptorCount : Nat := 4

/-- `ETHERNET_HEADER_SIZE`. -/
def ethernetHeaderSize : Nat := 14

/-- `MAX_FRAME_SIZE`. -/
def maxFrameSize : Nat := 1522

/-- `MAC_ADDRESS_SIZE`. -/
def macAddressSize : Nat := 6

/-- `timeout_milliseconds`. -/
def timeoutMilliseconds (timeout : Int) : UInt32 :=
  if timeout ≤ 0 then 0 else UInt32.ofNat (min timeout.toNat 4294967295)

/-- A DMA descriptor: its `OWN` and `ES` flags, and the packet it was last
    handed to the DMA for. -/
structure Descriptor where
  own : Bool
  error : Bool
  packet : Option Nat
  deriving DecidableEq, Repr

inductive Result
  | success | invalidArgument | notConnected | timedOut | ioError
  deriving DecidableEq, Repr

/-- A call of `transmit`, numbered; its packet, if it comes to that, has the
    same number.  The last three fields are bookkeeping: the descriptor and
    the packet remembered when the call began, and the buffer then. -/
structure Call where
  id : Nat
  frame : List UInt8
  timeoutTicks : UInt32
  startedAt : UInt32
  pendingBefore : Option Nat
  earlier : Option Nat
  bufferBefore : List UInt8
  deriving DecidableEq, Repr

/-- The two calls of `waitForTransmit`. -/
inductive Wait
  | earlier  -- for the frame an earlier call left in flight
  | own      -- for the frame just queued
  deriving DecidableEq, Repr

/-- Where the call in progress stands. -/
inductive Pc
  | idle
  -- `transmit`
  | running (c : Call)                   -- about to ask `isRunning` and the tick
  | wait (w : Wait) (c : Call)           -- about to look at the remembered descriptor
  | owned (w : Wait) (c : Call)          -- saw `OWN`, about to read `DMACSR`
  | overdue (w : Wait) (c : Call)        -- about to compare the tick with the timeout
  | readError (w : Wait) (c : Call)      -- saw `OWN` clear, about to read `ES`
  | forget (w : Wait) (c : Call) (failed : Bool)  -- about to release and forget the packet
  | copyFrame (c : Call)                 -- about to copy the frame into `tx_frame`
  | writeSource (c : Call)               -- about to write the source address into it
  | queue (c : Call)                     -- about to call `HAL_ETH_Transmit_IT`
  | remember (c : Call) (index : Nat)    -- about to remember the descriptor
  | leave (c : Call) (result : Result)   -- about to return
  -- `start` and `stop`
  | starting                             -- about to call the HAL
  | stopping                             -- about to save the configurations
  | halStop                              -- about to call `HAL_ETH_Stop`
  | halInit                              -- about to call `HAL_ETH_Init`
  | restore                              -- about to set the configurations again
  deriving DecidableEq, Repr

/-- `ES` of packet `packet` has been reported by call `call`. -/
structure Report where
  packet : Nat
  call : Nat
  failed : Bool
  deriving DecidableEq, Repr

/-- What has become of the packets so far; no step reads it. -/
structure Trace where
  given : List Nat              -- given to the DMA
  completed : List (Nat × Bool) -- completed by the DMA, with the error flag
  reports : List Report
  cancelled : List Nat          -- remembered when a stop reset the controller
  deriving DecidableEq, Repr

structure State where
  running : Bool
  pendingTransmitDescriptor : Option Nat
  txFrame : List UInt8
  macAddress : List UInt8
  txDesc : Nat → Descriptor
  curTxDesc : Nat
  calls : Nat
  pc : Pc
  trace : Trace

inductive Event
  | transmit (frame : List UInt8) (timeout : Int)  -- `transmit` is called
  | isRunning (tick : UInt32)     -- `isRunning`, `HAL_GetTick`
  | look                          -- the descriptor, and its `OWN` flag
  | busError (set : Bool)         -- `DMACSR`
  | tick (now : UInt32)           -- `HAL_GetTick` in the wait loop
  | readError                     -- `ES`
  | forget                        -- `HAL_ETH_ReleaseTxPacket`, the pointer is cleared
  | copyFrame
  | writeSource
  | transmitIt (ok : Bool)        -- `HAL_ETH_Transmit_IT`
  | remember
  | leave                         -- `transmit` returns
  | start                         -- `start` is called
  | halStart (ok : Bool)          -- its HAL calls, the last being `HAL_ETH_Start`
  | stop                          -- `stop` is called
  | saveConfig (ok : Bool)
  | halStop (ok : Bool)           -- `HAL_ETH_Stop`
  | halInit (ok : Bool)           -- `HAL_ETH_Init`
  | restoreConfig (ok : Bool)
  | complete (d : Nat) (error : Bool)  -- the DMA releases a descriptor it owns
  deriving DecidableEq, Repr

/-- The events that write to `tx_frame`. -/
def Event.writesBuffer : Event → Bool
  | .copyFrame | .writeSource => true
  | _ => false

/-! ## Steps -/

/-- The packet that the remembered descriptor was queued for. -/
def State.remembered (s : State) : Option Nat :=
  s.pendingTransmitDescriptor.bind fun d => (s.txDesc d).packet

/-- What follows a wait that succeeded. -/
def Wait.next (c : Call) : Wait → Pc
  | .earlier => .copyFrame c
  | .own => .leave c .success

/-- `HAL_ETH_ReleaseTxPacket`, `m_pendingTransmitDescriptor = nullptr`, and the
    result of the wait. -/
def State.forget (s : State) (w : Wait) (c : Call) (failed : Bool) : State :=
  { s with
    pendingTransmitDescriptor := none
    pc := if failed then .leave c .ioError else w.next c
    trace := { s.trace with
      reports := s.trace.reports ++
        s.remembered.toList.map fun packet => ⟨packet, c.id, failed⟩ } }

/-- `HAL_ETH_Transmit_IT` hands the descriptor at the current index to the DMA. -/
def State.handOver (s : State) (c : Call) : State :=
  { s with
    txDesc := Function.update s.txDesc s.curTxDesc ⟨true, false, some c.id⟩
    curTxDesc := (s.curTxDesc + 1) % txDescriptorCount
    pc := .remember c s.curTxDesc
    trace := { s.trace with given := s.trace.given ++ [c.id] } }

/-- `HAL_ETH_Init` takes every descriptor back; then the pointer is cleared. -/
def State.reset (s : State) : State :=
  { s with
    txDesc := fun d => { s.txDesc d with own := false, error := false, packet := none }
    pendingTransmitDescriptor := none
    pc := .restore
    trace := { s.trace with cancelled := s.trace.cancelled ++ s.remembered.toList } }

/-- The DMA releases descriptor `d`. -/
def State.complete (s : State) (d : Nat) (error : Bool) : State :=
  { s with
    txDesc := Function.update s.txDesc d { s.txDesc d with own := false, error := error }
    trace := { s.trace with
      completed := s.trace.completed ++
        (s.txDesc d).packet.toList.map fun packet => (packet, error) } }

/-- A new call of `transmit`. -/
def State.newCall (s : State) (frame : List UInt8) (timeout : Int) : Call where
  id := s.calls
  frame := frame
  timeoutTicks := timeoutMilliseconds timeout
  startedAt := 0
  pendingBefore := s.pendingTransmitDescriptor
  earlier := s.remembered
  bufferBefore := s.txFrame

def step (s : State) : Event → Option State
  | .transmit frame timeout =>
      if s.pc = .idle then
        let c := s.newCall frame timeout
        if frame.length < ethernetHeaderSize ∨ frame.length > maxFrameSize ∨ timeout < 0 then
          some { s with calls := s.calls + 1, pc := .leave c .invalidArgument }
        else some { s with calls := s.calls + 1, pc := .running c }
      else none
  | .isRunning tick =>
      match s.pc with
      | .running c =>
          if s.running then some { s with pc := .wait .earlier { c with startedAt := tick } }
          else some { s with pc := .leave c .notConnected }
      | _ => none
  | .look =>
      match s.pc with
      | .wait w c =>
          match s.pendingTransmitDescriptor with
          | none => some { s with pc := w.next c }
          | some d =>
              if (s.txDesc d).own then some { s with pc := .owned w c }
              else some { s with pc := .readError w c }
      | _ => none
  | .busError set =>
      match s.pc with
      | .owned w c =>
          if set then some { s with pc := .leave c .ioError }
          else some { s with pc := .overdue w c }
      | _ => none
  | .tick now =>
      match s.pc with
      | .overdue w c =>
          if c.timeoutTicks = 0 ∨ now - c.startedAt ≥ c.timeoutTicks then
            some { s with pc := .leave c .timedOut }
          else some { s with pc := .wait w c }
      | _ => none
  | .readError =>
      match s.pc, s.pendingTransmitDescriptor with
      | .readError w c, some d => some { s with pc := .forget w c (s.txDesc d).error }
      | _, _ => none
  | .forget =>
      match s.pc with
      | .forget w c failed => some (s.forget w c failed)
      | _ => none
  | .copyFrame =>
      match s.pc with
      | .copyFrame c =>
          some { s with
            txFrame := c.frame ++ s.txFrame.drop c.frame.length
            pc := .writeSource c }
      | _ => none
  | .writeSource =>
      match s.pc with
      | .writeSource c =>
          some { s with
            txFrame := s.txFrame.take macAddressSize ++ s.macAddress ++
              s.txFrame.drop (macAddressSize + s.macAddress.length)
            pc := .queue c }
      | _ => none
  | .transmitIt ok =>
      match s.pc with
      | .queue c =>
          if ok then some (s.handOver c) else some { s with pc := .leave c .ioError }
      | _ => none
  | .remember =>
      match s.pc with
      | .remember c index =>
          some { s with pendingTransmitDescriptor := some index, pc := .wait .own c }
      | _ => none
  | .leave =>
      match s.pc with
      | .leave _ _ => some { s with pc := .idle }
      | _ => none
  | .start =>
      if s.pc = .idle then
        if s.running then some s else some { s with pc := .starting }
      else none
  | .halStart ok =>
      if s.pc = .starting then some { s with running := s.running || ok, pc := .idle } else none
  | .stop =>
      if s.pc = .idle then
        if s.running then some { s with pc := .stopping } else some s
      else none
  | .saveConfig ok =>
      if s.pc = .stopping then some { s with pc := if ok then .halStop else .idle } else none
  | .halStop ok =>
      if s.pc = .halStop then
        -- `m_running = false`, and the HAL's lists are zeroed
        if ok then some { s with running := false, curTxDesc := 0, pc := .halInit }
        else some { s with pc := .idle }
      else none
  | .halInit ok =>
      if s.pc = .halInit then
        if ok then some s.reset else some { s with pc := .idle }
      else none
  | .restoreConfig _ => if s.pc = .restore then some { s with pc := .idle } else none
  | .complete d error => if (s.txDesc d).own then some (s.complete d error) else none

/-- The driver as constructed: nothing is owned by the DMA. -/
def init (s : State) : Prop :=
  s.running = false ∧ s.pendingTransmitDescriptor = none ∧
  (∀ d, s.txDesc d = ⟨false, false, none⟩) ∧ s.calls = 0 ∧ s.pc = .idle ∧
  s.trace = ⟨[], [], [], []⟩

end EthernetTransmit
end Hal
end NucleoBase
