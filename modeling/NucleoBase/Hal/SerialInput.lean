/-
  NucleoBase.Hal.SerialInput

  Serial standard input of the STM32 HAL (stm32/hal.cpp): the ring of 256 bytes
  that `USART3_IRQHandler` fills and one reader thread empties through
  `pop_console_character`, the semaphore that wakes the reader, and the line
  endings that `read_console_character` turns into newlines.

  The steps are the loads and stores of the shared variables, the semaphore
  operations and the tests of the status register, of the handler and of the
  reader in any order.  What the status and data registers read is up to the
  environment: bursts of any length, idle or not.
-/

import NucleoBase.Lib.Ring
import NucleoBase.Lib.Run
import Mathlib.Data.UInt

namespace NucleoBase
namespace Hal
namespace SerialInput

open Lib

/-- `CONSOLE_INPUT_BUFFER_SIZE`. -/
def consoleInputBufferSize : Nat := 256

/-- `(index + 1U) & (CONSOLE_INPUT_BUFFER_SIZE - 1U)`. -/
def next (index : Nat) : Nat := (index + 1) &&& (consoleInputBufferSize - 1)

def carriageReturn : UInt8 := 13

def lineFeed : UInt8 := 10

/-! ## Program points -/

/-- Where `USART3_IRQHandler` stands; `notify` is `notify_reader`. -/
inductive Handler
  | off                                     -- no interrupt in progress
  | loop (notify : Bool)                    -- about to test `USART_ISR_RXNE_RXFNE`
  | check (character : UInt8) (notify : Bool)      -- has read `RDR`, about to load the read index
  | storeByte (character : UInt8) (notify : Bool)  -- about to store into the buffer
  | storeWrite (character : UInt8) (notify : Bool) -- about to store the write index
  | idle (notify : Bool)                    -- about to test `USART_ISR_IDLE`
  | leave (notify : Bool)                   -- about to notify the reader, if it is to
  deriving DecidableEq, Repr

/-- Where the reader stands in `read_console_character`. -/
inductive Reader
  | out                        -- in no call
  | compare                    -- `pop`: about to compare the two indices
  | fetch                      -- about to load the byte
  | advance (character : UInt8)  -- about to store the read index
  | get                        -- about to call `tx_semaphore_get`
  | suspended                  -- suspended in `tx_semaphore_get`
  | got (character : UInt8)      -- a byte popped, about to look at line endings
  deriving DecidableEq, Repr

/-- The bytes seen so far on their way through; no step reads them. -/
structure Trace where
  received : List UInt8         -- read from the data register
  fates : List (UInt8 × Bool)   -- those accepted into the ring (`true`) or dropped
  popped : List UInt8           -- popped from the ring
  processed : List UInt8        -- looked at for line endings
  returned : List UInt8         -- returned as characters
  deriving DecidableEq, Repr

/-- The bytes accepted into the ring, in arrival order. -/
def Trace.accepted (t : Trace) : List UInt8 := (t.fates.filter Prod.snd).map Prod.fst

structure State where
  consoleInputBuffer : Nat → UInt8
  consoleInputRead : Nat
  consoleInputWrite : Nat
  consoleInputAvailable : Nat  -- the semaphore's count
  discardLineFeed : Bool
  handler : Handler
  reader : Reader
  trace : Trace

/-! ## Steps -/

inductive Event
  -- the handler
  | interrupt               -- it is entered
  | byte (character : UInt8)  -- the status register shows a byte, which is read
  | noByte                  -- the status register shows none
  | check                   -- the read index is loaded and compared
  | storeByte
  | storeWrite
  | idle (set : Bool)       -- the idle flag is tested, and cleared if set
  | leave                   -- `tx_semaphore_ceiling_put` if to notify; return
  -- the reader
  | call                    -- `read_console_character` is called
  | compare                 -- the indices are loaded and compared
  | fetch
  | advance
  | get                     -- `tx_semaphore_get`
  | getFails                -- it returns an error, and the call -1
  | finish                  -- the line endings are looked at
  deriving DecidableEq, Repr

/-- `tx_semaphore_ceiling_put(&console_input_available, 1U)`: a suspended
    reader is resumed, else the count goes up to 1. -/
def ceilingPut (s : State) : State :=
  if 1 ≤ s.consoleInputAvailable then s
  else if s.reader = .suspended then { s with reader := .compare }
  else { s with consoleInputAvailable := s.consoleInputAvailable + 1 }

/-- What `read_console_character` does with a byte it has received. -/
def finish (s : State) (character : UInt8) : State :=
  let trace := { s.trace with processed := s.trace.processed ++ [character] }
  if s.discardLineFeed ∧ character = lineFeed then
    { s with discardLineFeed := false, reader := .compare, trace := trace }
  else if character = carriageReturn then
    { s with
      discardLineFeed := true
      reader := .out
      trace := { trace with returned := trace.returned ++ [lineFeed] } }
  else
    { s with
      discardLineFeed := false
      reader := .out
      trace := { trace with returned := trace.returned ++ [character] } }

/-- The statements of the interrupt handler. -/
def handlerStep (s : State) : Handler → Event → Option State
  | .off, .interrupt => some { s with handler := .loop false }
  | .loop notify, .byte character =>
      some { s with
        handler := .check character notify
        trace := { s.trace with received := s.trace.received ++ [character] } }
  | .loop notify, .noByte => some { s with handler := .idle notify }
  | .check character notify, .check =>
      if next s.consoleInputWrite ≠ s.consoleInputRead then
        some { s with handler := .storeByte character notify }
      else
        some { s with
          handler := .loop true
          trace := { s.trace with fates := s.trace.fates ++ [(character, false)] } }
  | .storeByte character notify, .storeByte =>
      some { s with
        consoleInputBuffer :=
          Function.update s.consoleInputBuffer s.consoleInputWrite character
        handler := .storeWrite character notify }
  | .storeWrite character _, .storeWrite =>
      some { s with
        consoleInputWrite := next s.consoleInputWrite
        handler := .loop true
        trace := { s.trace with fates := s.trace.fates ++ [(character, true)] } }
  | .idle notify, .idle set => some { s with handler := .leave (notify || set) }
  | .leave notify, .leave =>
      some { (if notify then ceilingPut s else s) with handler := .off }
  | _, _ => none

/-- The statements of the reader thread. -/
def readerStep (s : State) : Reader → Event → Option State
  | .out, .call => some { s with reader := .compare }
  | .compare, .compare =>
      if s.consoleInputRead = s.consoleInputWrite then some { s with reader := .get }
      else some { s with reader := .fetch }
  | .fetch, .fetch =>
      some { s with reader := .advance (s.consoleInputBuffer s.consoleInputRead) }
  | .advance character, .advance =>
      some { s with
        consoleInputRead := next s.consoleInputRead
        reader := .got character
        trace := { s.trace with popped := s.trace.popped ++ [character] } }
  | .get, .get =>
      if 1 ≤ s.consoleInputAvailable then
        some { s with
          consoleInputAvailable := s.consoleInputAvailable - 1
          reader := .compare }
      else some { s with reader := .suspended }
  | .get, .getFails => some { s with reader := .out }
  | .suspended, .getFails => some { s with reader := .out }
  | .got character, .finish => some (finish s character)
  | .out, _ => none
  | .compare, _ => none
  | .fetch, _ => none
  | .advance _, _ => none
  | .get, _ => none
  | .suspended, _ => none
  | .got _, _ => none

/-- The events of the handler. -/
def Event.handler : Event → Bool
  | .interrupt | .byte _ | .noByte | .check | .storeByte | .storeWrite | .idle _ | .leave => true
  | _ => false

def step (s : State) (e : Event) : Option State :=
  if e.handler then handlerStep s s.handler e else readerStep s s.reader e

/-- `initialize_console` has run: the ring is empty and the count 0. -/
def init (s : State) : Prop :=
  s.consoleInputRead = 0 ∧ s.consoleInputWrite = 0 ∧ s.consoleInputAvailable = 0 ∧
  s.discardLineFeed = false ∧ s.handler = .off ∧ s.reader = .out ∧ s.trace = ⟨[], [], [], [], []⟩

end SerialInput
end Hal
end NucleoBase
