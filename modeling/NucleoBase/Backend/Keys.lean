/-
  NucleoBase.Backend.Keys

  Thread-specific keys (backend.cpp): the shared key table guarded by the
  initialization mutex and the two per-thread arrays in the ThreadX control
  block, `tx_thread_runtime_tls_values` and `tx_thread_runtime_tls_generations`.

  `key_create` and `key_delete` are one critical section each.  `key_get` and
  `key_set` check the table in a critical section and touch the calling
  thread's own slot afterwards, so each of them is two events here and any
  other thread's events may come in between.

  Deleting a key does not clear the other threads' slots: what keeps a reused
  slot apart from its predecessor is the generation packed into the handle.
  `creations` counts the creations of each slot; it is bookkeeping for the
  statements and no step reads it.
-/

import NucleoBase.Lib.Run
import Mathlib.Data.UInt
import Mathlib.Data.Nat.Bitwise

namespace NucleoBase
namespace Backend
namespace Keys

open Lib

/-! ## Handles -/

abbrev KeyHandle := UInt32

def runtimeThreadKeyCount : Nat := 16

def keyIndexBits : UInt32 := 8

def keyIndexMask : UInt32 := (1 <<< keyIndexBits) - 1

def keyGenerationMask : UInt32 := ~~~keyIndexMask

def makeKey (index : Nat) (generation : UInt32) : KeyHandle :=
  (generation <<< keyIndexBits) ||| UInt32.ofNat index

def keyIndex (key : KeyHandle) : Nat := (key &&& keyIndexMask).toNat

def keyGeneration (key : KeyHandle) : UInt32 := key >>> keyIndexBits

/-- The generation `key_create` gives a slot whose last generation was `g`. -/
def nextGeneration (g : UInt32) : UInt32 :=
  let g' := (g + 1) &&& (keyGenerationMask >>> keyIndexBits)
  if g' = 0 then g' + 1 else g'

/-! ## The model -/

/-- A `void*`; 0 is the null pointer. -/
abbrev Pointer := Nat

structure KeyDefinition where
  destructor : Pointer
  generation : UInt32
  allocated : Bool
  deriving DecidableEq, Repr

/-- The number of generations: 24 bits, 0 skipped. -/
def generationPeriod : Nat := 2 ^ 24 - 1

/-- The generation of the `n`-th creation of a slot; 0 before the first. -/
def generationOf : Nat → UInt32
  | 0 => 0
  | n + 1 => UInt32.ofNat (n % generationPeriod + 1)

/-- A key as its callers know it: the `number`-th creation of `slot`. -/
structure Creation where
  slot : Nat
  number : Nat
  deriving DecidableEq, Repr

/-- The handle the creation returned. -/
def Creation.handle (c : Creation) : KeyHandle := makeKey c.slot (generationOf c.number)

/-- A call of `key_get` or `key_set` past its check; `known` is the local
    `allocated` of the source. -/
inductive Call
  | get (key : Creation) (known : Bool)
  | set (key : Creation) (value : Pointer) (known : Bool)
  deriving DecidableEq, Repr

def Call.key : Call → Creation
  | .get key _ | .set key _ _ => key

def Call.known : Call → Bool
  | .get _ known | .set _ _ known => known

structure State (Thread : Type*) where
  keys : Nat → KeyDefinition
  tlsValues : Thread → Nat → Pointer
  tlsGenerations : Thread → Nat → UInt32
  call : Thread → Option Call
  creations : Nat → Nat

/-- `key_create`, `key_delete` and the two halves of `key_get` and `key_set`. -/
inductive Event (Thread : Type*)
  | create (t : Thread) (index : Nat) (destructor : Pointer)
  | createFull (t : Thread)                        -- `EAGAIN`
  | delete (t : Thread) (key : Creation)
  | getCheck (t : Thread) (key : Creation)
  | getSlot (t : Thread) (key : Creation) (result : Pointer)
  | setCheck (t : Thread) (key : Creation) (value : Pointer)
  | setSlot (t : Thread) (key : Creation) (value : Pointer) (stored : Bool)
  deriving DecidableEq, Repr

def Event.thread {Thread : Type*} : Event Thread → Thread
  | .create t _ _ | .createFull t | .delete t _ | .getCheck t _ | .getSlot t _ _
  | .setCheck t _ _ | .setSlot t _ _ _ => t

variable {Thread : Type*} [DecidableEq Thread]

/-- The argument check that `key_delete`, `key_get` and `key_set` share. -/
def wellFormed (key : KeyHandle) : Bool :=
  decide (keyIndex key < runtimeThreadKeyCount) && decide (keyGeneration key ≠ 0)

/-- The test of the key table under the mutex. -/
def State.known (s : State Thread) (key : KeyHandle) : Bool :=
  wellFormed key && (s.keys (keyIndex key)).allocated &&
    decide ((s.keys (keyIndex key)).generation = keyGeneration key)

/-- The slot `key_create` takes: the first one that is not allocated. -/
def State.freeIndex (s : State Thread) : Option Nat :=
  (List.range runtimeThreadKeyCount).find? fun i => !(s.keys i).allocated

/-- What `key_get` returns to `t` once the table has been checked. -/
def State.readSlot (s : State Thread) (t : Thread) (key : KeyHandle) (known : Bool) : Pointer :=
  if known && decide (s.tlsGenerations t (keyIndex key) = keyGeneration key) then
    s.tlsValues t (keyIndex key)
  else 0

/-- The table after `key_create` took slot `index`. -/
def State.createAt (s : State Thread) (index : Nat) (destructor : Pointer) : State Thread :=
  { s with
    keys := Function.update s.keys index
      { destructor, generation := nextGeneration (s.keys index).generation, allocated := true }
    creations := Function.update s.creations index (s.creations index + 1) }

/-- The table after `key_delete` released slot `index`. -/
def State.deleteAt (s : State Thread) (index : Nat) : State Thread :=
  { s with
    keys := Function.update s.keys index
      { destructor := 0, generation := (s.keys index).generation, allocated := false } }

/-- The handle `key_create` returns for slot `index`. -/
def State.createdHandle (s : State Thread) (index : Nat) : KeyHandle :=
  makeKey index (nextGeneration (s.keys index).generation)

/-- The slot of `t` after `key_set` stored `value`. -/
def State.writeSlot (s : State Thread) (t : Thread) (key : KeyHandle) (value : Pointer) :
    State Thread :=
  { s with
    tlsGenerations := Function.update s.tlsGenerations t
      (Function.update (s.tlsGenerations t) (keyIndex key) (keyGeneration key))
    tlsValues := Function.update s.tlsValues t
      (Function.update (s.tlsValues t) (keyIndex key) value) }

def State.setCall (s : State Thread) (t : Thread) (c : Option Call) : State Thread :=
  { s with call := Function.update s.call t c }

def step (s : State Thread) : Event Thread → Option (State Thread)
  | .create t index destructor =>
      if s.call t = none ∧ s.freeIndex = some index then some (s.createAt index destructor)
      else none
  | .createFull t => if s.call t = none ∧ s.freeIndex = none then some s else none
  | .delete t key =>
      if s.call t = none then
        if s.known key.handle then some (s.deleteAt (keyIndex key.handle)) else some s
      else none
  | .getCheck t key =>
      if s.call t = none then some (s.setCall t (some (.get key (s.known key.handle)))) else none
  | .getSlot t key result =>
      if s.call t = some (.get key true) ∧ result = s.readSlot t key.handle true ∨
          s.call t = some (.get key false) ∧ result = s.readSlot t key.handle false then
        some (s.setCall t none)
      else none
  | .setCheck t key value =>
      if s.call t = none then some (s.setCall t (some (.set key value (s.known key.handle))))
      else none
  | .setSlot t key value stored =>
      if s.call t = some (.set key value stored) then
        some ((if stored then s.writeSlot t key.handle value else s).setCall t none)
      else none

/-- No key has been created and every thread's arrays are zero, as the thread
    creation hook leaves them. -/
def init (s : State Thread) : Prop :=
  (∀ i, s.keys i = ⟨0, 0, false⟩) ∧ (∀ t i, s.tlsValues t i = 0) ∧
  (∀ t i, s.tlsGenerations t i = 0) ∧ (∀ t, s.call t = none) ∧ ∀ i, s.creations i = 0

end Keys
end Backend
end NucleoBase
