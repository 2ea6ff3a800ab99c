/-
  NucleoBase.Hal.EthernetReceive

  The receive path of the STM32 Ethernet driver (stm32/Ethernet.cpp): the pool
  of receive slots, the two callbacks through which the HAL takes buffers from
  it and links filled ones to packets, and `receive`, `start` and `stop`.

  The receive mutex is held throughout each of the three functions, so one call
  is in progress at a time.  Its steps are the calls of the HAL and the driver's
  own work between them.  Inside `HAL_ETH_ReadData` and `HAL_ETH_Start` the HAL
  calls back as it pleases, one buffer at a time; it passes back the buffers its
  descriptors hold and nothing else, hands out a packet by its first link and
  then forgets it, and forgets its buffers in a successful `HAL_ETH_Init`.  The
  DMA writes to buffers of the descriptors at any time.

  A pointer to a slot's link or to its data is the index of the slot, so
  `find_slot` and the search in `release_frame` find the slot by itself.
-/

import NucleoBase.Lib.Run
import NucleoBase.Lib.Chain
import NucleoBase.Hal.EtherType
import NucleoBase.Hal.EthernetTransmit

namespace NucleoBase
namespace Hal
namespace EthernetReceive

open Lib
open EthernetTransmit (timeoutMilliseconds maxFrameSize)

/-! ## The slots -/

/-- `ETH_BufferTypeDef`, the link of a slot in a pool of `n`. -/
structure Link (n : Nat) where
  buffer : Option (Fin n)
  len : UInt32
  next : Option (Fin n)
  deriving DecidableEq, Repr

def Link.null {n : Nat} : Link n := ⟨none, 0, none⟩

structure RxSlot (n : Nat) where
  link : Link n
  data : List UInt8
  allocated : Bool
  deriving DecidableEq, Repr

/-- `rx_slots`, of `RX_SLOT_COUNT` slots. -/
abbrev Slots (n : Nat) := Fin n → RxSlot n

variable {n : Nat}

def Slots.next (slots : Slots n) (i : Fin n) : Option (Fin n) := (slots i).link.next

def RxSlot.free (slot : RxSlot n) : RxSlot n := { slot with link := .null, allocated := false }

/-- `release_frame`, for at most so many links of a chain. -/
def releaseFrame : Nat → Slots n → Option (Fin n) → Option (Slots n)
  | _, slots, none => some slots
  | 0, _, some _ => none
  | k + 1, slots, some first =>
      let next := slots.next first
      releaseFrame k (Function.update slots first (slots first).free) next

/-- `HAL_ETH_RxAllocateCallback`: the buffer, and the slots afterwards. -/
def rxAllocateCallback (slots : Slots n) : Option (Fin n) × Slots n :=
  match (List.finRange n).find? fun i => !(slots i).allocated with
  | none => (none, slots)
  | some i =>
      (some i, Function.update slots i { slots i with link := .null, allocated := true })

/-- The ends of a packet under construction, `pRxStart` and `pRxEnd`. -/
structure Ends (n : Nat) where
  start : Option (Fin n)
  last : Option (Fin n)
  deriving DecidableEq, Repr

/-- `HAL_ETH_RxLinkCallback`; `none` if it would write through a null pointer. -/
def rxLinkCallback (slots : Slots n) (ends : Ends n) (slot : Fin n) (length : UInt16) :
    Option (Slots n × Ends n) :=
  let linked := Function.update slots slot
    { slots slot with link := ⟨some slot, length.toUInt32, none⟩ }
  match ends.start, ends.last with
  | none, _ => some (linked, ⟨some slot, some slot⟩)
  | some start, some last =>
      some (Function.update linked last
        { linked last with link := { (linked last).link with next := some slot } },
        ⟨some start, some slot⟩)
  | some _, none => none

/-- The bytes of one link of a packet. -/
def Slots.bytes (slots : Slots n) (i : Fin n) : List UInt8 :=
  match (slots i).link.buffer with
  | some buffer => (slots buffer).data.take (slots i).link.len.toNat
  | none => []

/-! ## The calls -/

structure Call where
  capacity : Nat
  timeoutTicks : UInt32
  startedAt : UInt32
  deriving DecidableEq, Repr

inductive Result
  | received (frame : List UInt8)
  | invalidArgument | notConnected | noBufferSpace | timedOut
  deriving DecidableEq, Repr

inductive Pc (n : Nat)
  | idle
  -- `receive`
  | asking (c : Call)     -- about to ask `isRunning` and the tick
  | reading (c : Call)    -- in `HAL_ETH_ReadData`
  | inspect (c : Call) (packet : Fin n)   -- about to get its errors and to filter
  | discard (c : Call) (packet : Fin n)   -- about to release a frame not wanted
  | measure (c : Call) (packet : Fin n)   -- about to add up the lengths
  | refuse (c : Call) (packet : Fin n)    -- about to release a frame too long
  | copy (c : Call) (packet : Fin n)      -- about to copy the frame out
  | finish (c : Call) (packet : Fin n) (frame : List UInt8)  -- about to release it
  | deadline (c : Call)   -- about to compare the tick with the timeout
  | leave (result : Result)
  -- `start` and `stop`
  | starting              -- about to configure the MAC
  | halStart              -- in `HAL_ETH_Start`
  | stopping              -- about to save the configurations
  | halStop               -- about to call `HAL_ETH_Stop`
  | halInit               -- about to zero the lists and to call `HAL_ETH_Init`
  | restore               -- about to set the configurations again
  | leaveStart (ok : Bool)
  | leaveStop (ok : Bool)
  deriving DecidableEq, Repr

/-- The packet that `receive` has obtained and not released. -/
def Pc.packet : Pc n → Option (Fin n)
  | .inspect _ packet | .discard _ packet | .measure _ packet | .refuse _ packet
  | .copy _ packet | .finish _ packet _ => some packet
  | _ => none

/-- Bookkeeping; no step reads it, except into itself. -/
structure Trace (n : Nat) where
  linked : List (Fin n)             -- of the packet under construction, in arrival order
  inHand : List (Fin n)             -- of the packet `receive` works on
  obtained : List (List (Fin n))    -- the packets `receive` has obtained
  released : List (List (Fin n))    -- what each `release_frame` has freed
  deriving DecidableEq, Repr

structure State (n : Nat) where
  running : Bool
  receiveEtherType : Option UInt16
  slots : Slots n
  /-- The buffers the HAL's descriptors hold. -/
  descriptors : List (Fin n)
  ends : Ends n
  pc : Pc n
  trace : Trace n

inductive Event (n : Nat)
  | receive (capacity : Nat) (timeout : Int)  -- `receive` is called
  | isRunning (tick : UInt32)
  | allocate                              -- the HAL asks for a buffer
  | link (slot : Fin n) (length : UInt16) -- the HAL links a buffer
  | dma (slot : Fin n) (data : List UInt8)
  | packet                                -- `HAL_ETH_ReadData` returns a packet
  | noPacket                              -- `HAL_ETH_ReadData` returns none
  | inspect (errors : UInt32)             -- `HAL_ETH_GetRxDataErrorCode`, the filter
  | measure
  | copy
  | release                               -- `release_frame`
  | tick (now : UInt32)
  | leave
  | start                                 -- `start` is called
  | configure (ok : Bool)                 -- the link and the configurations
  | halStart (ok : Bool)                  -- `HAL_ETH_Start` returns
  | stop                                  -- `stop` is called
  | saveConfig (ok : Bool)
  | halStop (ok : Bool)                   -- `HAL_ETH_Stop`
  | halInit (ok : Bool)                   -- `HAL_ETH_Init`
  | restoreConfig (ok : Bool)
  deriving DecidableEq, Repr

/-! ## Steps -/

def State.goto (s : State n) (pc : Pc n) : State n := { s with pc := pc }

/-- The slots that were allocated in one pool and are not in another. -/
def freed (before after : Slots n) : List (Fin n) :=
  (List.finRange n).filter fun i => (before i).allocated && !(after i).allocated

/-- Whether `receive` skips a frame whose first buffer holds these bytes. -/
def State.filtered (s : State n) (errors : UInt32) (firstBuffer : List UInt8) : Bool :=
  errors != 0 ||
    match s.receiveEtherType with
    | none => false
    | some type => frameEtherType firstBuffer != some type

/-- The HAL calls `HAL_ETH_RxAllocateCallback` for a descriptor. -/
def State.allocate (s : State n) : State n :=
  match rxAllocateCallback s.slots with
  | (none, _) => s
  | (some i, slots) => { s with slots := slots, descriptors := i :: s.descriptors }

/-- The HAL takes a filled buffer from its descriptor and links it. -/
def State.link (s : State n) (slot : Fin n) (length : UInt16) : Option (State n) :=
  (rxLinkCallback s.slots s.ends slot length).map fun (slots, ends) =>
    { s with
      slots := slots
      ends := ends
      descriptors := s.descriptors.erase slot
      trace := { s.trace with linked := s.trace.linked ++ [slot] } }

/-- `HAL_ETH_ReadData` hands out the packet under construction. -/
def State.obtain (s : State n) (c : Call) (packet : Fin n) : State n :=
  { s with
    ends := { s.ends with start := none }
    pc := .inspect c packet
    trace := { s.trace with
      linked := []
      inHand := s.trace.linked
      obtained := s.trace.obtained ++ [s.trace.linked] } }

/-- `release_frame(packet)`, and on to `pc`. -/
def State.release (s : State n) (packet : Fin n) (pc : Pc n) : Option (State n) :=
  (releaseFrame n s.slots (some packet)).map fun slots =>
    { s with
      slots := slots
      pc := pc
      trace := { s.trace with
        inHand := []
        released := s.trace.released ++ [freed s.slots slots] } }

/-- `RxDescList = {}` and a failed `HAL_ETH_Init`: the packet under construction
    is forgotten. -/
def State.failInit (s : State n) : State n :=
  { s with
    ends := ⟨none, none⟩
    pc := .leaveStop false
    trace := { s.trace with linked := [] } }

/-- `RxDescList = {}`, a successful `HAL_ETH_Init`, and the loop over the slots. -/
def State.reset (s : State n) : State n :=
  { s with
    ends := ⟨none, none⟩
    descriptors := []
    slots := fun i => (s.slots i).free
    pc := .restore
    trace := { s.trace with linked := [] } }

def step (s : State n) : Event n → Option (State n)
  | .receive capacity timeout =>
      match s.pc with
      | .idle =>
          if capacity = 0 ∨ timeout < 0 then some (s.goto (.leave .invalidArgument))
          else some (s.goto (.asking ⟨capacity, timeoutMilliseconds timeout, 0⟩))
      | _ => none
  | .isRunning tick =>
      match s.pc with
      | .asking c =>
          if s.running then some (s.goto (.reading { c with startedAt := tick }))
          else some (s.goto (.leave .notConnected))
      | _ => none
  | .allocate =>
      match s.pc with
      | .reading _ | .halStart => some s.allocate
      | _ => none
  | .link slot length =>
      match s.pc with
      | .reading _ => if slot ∈ s.descriptors then s.link slot length else none
      | _ => none
  | .dma slot data =>
      if slot ∈ s.descriptors then
        some { s with slots := Function.update s.slots slot { s.slots slot with data := data } }
      else none
  | .packet =>
      match s.pc, s.ends.start with
      | .reading c, some packet => some (s.obtain c packet)
      | _, _ => none
  | .noPacket =>
      match s.pc with
      | .reading c => some (s.goto (.deadline c))
      | _ => none
  | .inspect errors =>
      match s.pc with
      | .inspect c packet =>
          if s.filtered errors (s.slots.bytes packet) then some (s.goto (.discard c packet))
          else some (s.goto (.measure c packet))
      | _ => none
  | .measure =>
      match s.pc with
      | .measure c packet =>
          (foldChain s.slots.next (fun size i => size + (s.slots i).link.len.toNat) n 0
              (some packet)).map fun packetSize =>
            if packetSize > maxFrameSize ∨ c.capacity < packetSize then
              s.goto (.refuse c packet)
            else s.goto (.copy c packet)
      | _ => none
  | .copy =>
      match s.pc with
      | .copy c packet =>
          (foldChain s.slots.next (fun output i => output ++ s.slots.bytes i) n []
              (some packet)).map fun frame => s.goto (.finish c packet frame)
      | _ => none
  | .release =>
      match s.pc with
      | .discard c packet => s.release packet (.deadline c)
      | .refuse _ packet => s.release packet (.leave .noBufferSpace)
      | .finish _ packet frame => s.release packet (.leave (.received frame))
      | _ => none
  | .tick now =>
      match s.pc with
      | .deadline c =>
          if c.timeoutTicks = 0 ∨ now - c.startedAt ≥ c.timeoutTicks then
            some (s.goto (.leave .timedOut))
          else some (s.goto (.reading c))
      | _ => none
  | .leave =>
      match s.pc with
      | .leave _ | .leaveStart _ | .leaveStop _ => some (s.goto .idle)
      | _ => none
  | .start =>
      match s.pc with
      | .idle => some (s.goto (if s.running then .leaveStart true else .starting))
      | _ => none
  | .configure ok =>
      match s.pc with
      | .starting => some (s.goto (if ok then .halStart else .leaveStart false))
      | _ => none
  | .halStart ok =>
      match s.pc with
      | .halStart => some { s with running := ok, pc := .leaveStart ok }
      | _ => none
  | .stop =>
      match s.pc with
      | .idle => some (s.goto (if s.running then .stopping else .leaveStop true))
      | _ => none
  | .saveConfig ok =>
      match s.pc with
      | .stopping => some (s.goto (if ok then .halStop else .leaveStop false))
      | _ => none
  | .halStop ok =>
      match s.pc with
      | .halStop =>
          if ok then some { s with running := false, pc := .halInit }
          else some (s.goto (.leaveStop false))
      | _ => none
  | .halInit ok =>
      match s.pc with
      | .halInit => some (if ok then s.reset else s.failInit)
      | _ => none
  | .restoreConfig ok =>
      match s.pc with
      | .restore => some (s.goto (.leaveStop ok))
      | _ => none

/-- The driver as constructed: every slot is free. -/
def init (s : State n) : Prop :=
  s.running = false ∧ (∀ i, (s.slots i).link = .null ∧ (s.slots i).allocated = false) ∧
  s.descriptors = [] ∧ s.ends = ⟨none, none⟩ ∧ s.pc = .idle ∧ s.trace = ⟨[], [], [], []⟩

end EthernetReceive
end Hal
end NucleoBase
