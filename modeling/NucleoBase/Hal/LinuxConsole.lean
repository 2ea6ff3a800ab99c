/-
  NucleoBase.Hal.LinuxConsole

  The output queue of the Linux console (linux/console.cpp): a ring of 256
  messages between `publish` and the interactive frontend's `drain`, with a
  counter of the messages it had to drop, and the mode that decides where
  published text goes.

  Every function takes the console mutex first, so a run is a sequence of
  calls.  Each call returns, beside the new state, the list of what it did to
  the chunks: which it queued, dropped, handed out or wrote, in order.
-/

import NucleoBase.Lib.Ring
import NucleoBase.Lib.Run
import Mathlib.Data.UInt

namespace NucleoBase
namespace Hal
namespace LinuxConsole

open Lib

/-! ## Messages -/

/-- `QUEUE_CAPACITY`. -/
def queueCapacity : Nat := 256

/-- `MESSAGE_PAYLOAD_SIZE`. -/
def messagePayloadSize : Nat := 1024

/-- The number of values of `std::size_t`. -/
def sizeValues : Nat := 18446744073709551616

inductive Channel
  | hal | log | command | system
  deriving DecidableEq, Repr

/-- A queue slot; the first `size` bytes of `text` are meant. -/
structure Message where
  channel : Channel
  text : List UInt8
  size : Nat
  endOfRecord : Bool
  deriving DecidableEq, Repr

/-- What a message says. -/
structure Chunk where
  channel : Channel
  text : List UInt8
  endOfRecord : Bool
  deriving DecidableEq, Repr

def Message.chunk (m : Message) : Chunk :=
  ⟨m.channel, m.text.take m.size, m.endOfRecord⟩

/-- A message as the language initializes it. -/
def Message.initial : Message :=
  ⟨.system, List.replicate messagePayloadSize 0, 0, false⟩

/-- `std::memcpy(dst + offset, src, size)`. -/
def memcpy (dst : List UInt8) (offset : Nat) (src : List UInt8) : List UInt8 :=
  dst.take offset ++ src ++ dst.drop (offset + src.length)

def bytes (s : String) : List UInt8 := s.toList.map fun c => UInt8.ofNat c.toNat

/-- The digits that `std::to_chars` writes. -/
def toChars (amount : Nat) : List UInt8 :=
  (Nat.toDigits 10 amount).map fun c => UInt8.ofNat c.toNat

def dropPrefix : List UInt8 := bytes "[console] dropped "

def dropSuffix : List UInt8 := bytes " queued output chunks\n"

/-- `make_drop_message`. -/
def makeDropMessage (amount : Nat) : Message :=
  let numberBegin := dropPrefix.length
  let numberEnd := messagePayloadSize - dropSuffix.length
  let digits := toChars amount
  let text := memcpy Message.initial.text 0 dropPrefix
  let (text, numberSize) :=
    if digits.length ≤ numberEnd - numberBegin then
      (memcpy text numberBegin digits, digits.length)
    else (text, 0)
  { Message.initial with
    text := memcpy text (numberBegin + numberSize) dropSuffix
    size := dropPrefix.length + numberSize + dropSuffix.length
    endOfRecord := true }

/-! ## The state and what a call does -/

inductive Mode
  | passThrough | buffering | interactive | plain
  deriving DecidableEq, Repr

structure State where
  queue : Nat → Message
  head : Nat
  count : Nat
  dropped : Nat
  mode : Mode

/-- Where a chunk goes that leaves the queue in order. -/
inductive Sink
  | frontend  -- the output array of `drain`
  | stderr    -- written by `flush_queue`
  deriving DecidableEq, Repr

inductive Stream
  | stdout | stderr
  deriving DecidableEq, Repr

/-- What a call did, a message being a `μ`. -/
inductive Entry (μ : Type)
  | enqueued (chunk : Chunk)
  | dropped (message : μ)
  | notice (sink : Sink) (amount : Nat)
  | delivered (sink : Sink) (message : μ)
  | passed (stream : Stream) (text : List UInt8)
  deriving DecidableEq, Repr

/-- The message an entry puts into the output array of `drain`. -/
def Entry.output : Entry Message → Option Message
  | .notice .frontend amount => some (makeDropMessage amount)
  | .delivered .frontend message => some message
  | _ => none

/-- The text an entry writes to `stderr`. -/
def Entry.written : Entry Message → List UInt8
  | .notice .stderr amount => (makeDropMessage amount).chunk.text
  | .delivered .stderr message => message.chunk.text
  | .passed .stderr text => text
  | _ => []

/-! ## The functions -/

/-- `enqueue`. -/
def enqueue (channel : Channel) (text : List UInt8) (endOfRecord : Bool) (s : State) :
    State × List (Entry Message) :=
  let (s, es) :=
    if s.count = queueCapacity then
      ({ s with
          head := (s.head + 1) % queueCapacity
          count := s.count - 1
          dropped := (s.dropped + 1) % sizeValues },
        [Entry.dropped (s.queue s.head)])
    else (s, [])
  let slot := (s.head + s.count) % queueCapacity
  let message := s.queue slot
  let message := { message with
    channel := channel
    size := text.length
    endOfRecord := endOfRecord
    text := memcpy message.text 0 text }
  ({ s with queue := Function.update s.queue slot message, count := s.count + 1 },
    es ++ [.enqueued ⟨channel, text, endOfRecord⟩])

/-- The loops that take messages from the queue, at most `room` of them. -/
def takeMessages (sink : Sink) : Nat → State → State × List (Entry Message)
  | 0, s => (s, [])
  | room + 1, s =>
      if s.count = 0 then (s, [])
      else
        let (s', es) := takeMessages sink room
          { s with head := (s.head + 1) % queueCapacity, count := s.count - 1 }
        (s', .delivered sink (s.queue s.head) :: es)

/-- The drop notice that `flush_queue` and `drain` emit first. -/
def takeNotice (sink : Sink) (s : State) : State × List (Entry Message) :=
  if s.dropped ≠ 0 then ({ s with dropped := 0 }, [.notice sink s.dropped]) else (s, [])

/-- `flush_queue`: only the count bounds its loop. -/
def flushQueue (s : State) : State × List (Entry Message) :=
  let (s, es) := takeNotice .stderr s
  let (s, es') := takeMessages .stderr s.count s
  (s, es ++ es')

def beginBuffering (s : State) : State × List (Entry Message) :=
  if s.mode = .passThrough then ({ s with mode := .buffering }, []) else (s, [])

def activateInteractive (s : State) : State × List (Entry Message) :=
  if s.mode ≠ .plain then ({ s with mode := .interactive }, []) else (s, [])

def activatePlain (s : State) : State × List (Entry Message) :=
  flushQueue { s with mode := .plain }

/-- The loop of `publish`. -/
def publishChunks (channel : Channel) (text : List UInt8) (s : State) :
    State × List (Entry Message) :=
  if h : text = [] then (s, [])
  else
    let chunkSize := min text.length messagePayloadSize
    let last := decide (chunkSize = text.length)
    let (s, es) := enqueue channel (text.take chunkSize) last s
    let (s, es') := publishChunks channel (text.drop chunkSize) s
    (s, es ++ es')
termination_by text.length
decreasing_by
  have hpos : 0 < text.length := List.length_pos_iff.mpr h
  simp only [List.length_drop, messagePayloadSize]
  omega

def publish (channel : Channel) (text : List UInt8) (s : State) : State × List (Entry Message) :=
  match s.mode with
  | .passThrough => (s, [.passed .stdout text])
  | .plain => (s, [.passed .stderr text])
  | _ => if text = [] then enqueue channel [] true s else publishChunks channel text s

/-- `drain` with an output array of `capacity` messages. -/
def drain (capacity : Nat) (s : State) : State × List (Entry Message) :=
  if capacity = 0 ∨ s.mode ≠ .interactive then (s, [])
  else
    let (s, es) := takeNotice .frontend s
    let (s, es') := takeMessages .frontend (capacity - es.length) s
    (s, es ++ es')

/-! ## Runs -/

inductive Call
  | beginBuffering
  | activateInteractive
  | activatePlain
  | publish (channel : Channel) (text : List UInt8)
  | drain (capacity : Nat)
  deriving DecidableEq, Repr

/-- A call; `locked` is whether `pthread_mutex_lock` succeeded. -/
structure Event where
  call : Call
  locked : Bool
  deriving DecidableEq, Repr

def exec (s : State) : Call → State × List (Entry Message)
  | .beginBuffering => beginBuffering s
  | .activateInteractive => activateInteractive s
  | .activatePlain => activatePlain s
  | .publish channel text => publish channel text s
  | .drain capacity => drain capacity s

/-- Without the mutex every function returns at once. -/
def Event.exec (e : Event) (s : State) : State × List (Entry Message) :=
  if e.locked then LinuxConsole.exec s e.call else (s, [])

/-- The console with the record of all that its calls did, oldest first. -/
structure Console where
  state : State
  log : List (Entry Message)

def step (c : Console) (e : Event) : Option Console :=
  some ⟨(e.exec c.state).1, c.log ++ (e.exec c.state).2⟩

/-- The console as the program starts with it. -/
def Console.initial : Console :=
  ⟨⟨fun _ => Message.initial, 0, 0, 0, .passThrough⟩, []⟩

def init (c : Console) : Prop := c = Console.initial

end LinuxConsole
end Hal
end NucleoBase
