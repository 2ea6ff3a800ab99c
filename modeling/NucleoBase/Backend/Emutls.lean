/-
  NucleoBase.Backend.Emutls

  Emulated thread-local storage (libstdcxx/tls.cpp): the offsets of the objects,
  which all contexts share, and the array of each context, which grows as it
  meets new objects.  A context is a thread, or the startup before the first one.

  A call of `__emutls_get_address` is several steps, between which other contexts
  take theirs; what the allocator returns comes with the step.  `tls_failure`
  does not return, and neither does what the language does not define: such a
  step has no next state.
-/

import NucleoBase.Lib.Memory
import NucleoBase.Lib.Run

namespace NucleoBase
namespace Backend
namespace Emutls

open Lib

/-! ## State -/

/-- The maximum of `std::size_t`, which is that of `std::uintptr_t`. -/
def sizeMax : Nat := 2 ^ 32 - 1

/-- `EmutlsObject`, without its offset. -/
structure EmutlsObject where
  size : Nat
  alignment : Nat
  initializer : Option (List UInt8)
  initialized : ∀ bytes ∈ initializer, bytes.length = size

/-- `EmutlsArray`; a null pointer is 0. -/
structure EmutlsArray where
  capacity : Nat
  entries : List Nat
  deriving DecidableEq, Repr

/-- Where a context is in `__emutls_get_address`. -/
inductive Pc (ι : Type)
  | idle
  /-- The offset that it has loaded is 0. -/
  | assign (o : ι)
  | array (o : ι) (offset : Nat)
  | entry (o : ι) (offset : Nat) (array : Nat)
  | returned (o : ι) (result : Nat)
  deriving DecidableEq, Repr

structure State (κ ι : Type) where
  /-- `emutls_object_count`. -/
  objectCount : Nat
  /-- `location.offset` of the objects. -/
  offsets : ι → Nat
  /-- `tx_thread_runtime_emutls` of the threads, and `startup_emutls`. -/
  storage : κ → Nat
  arrays : Nat → Option EmutlsArray
  live : Blocks
  memory : Memory
  pc : κ → Pc ι

/-- Nothing has been used yet. -/
def State.initial {κ ι : Type} : State κ ι where
  objectCount := 0
  offsets := fun _ => 0
  storage := fun _ => 0
  arrays := fun _ => none
  live := fun _ => none
  memory := fun _ => .byte 0
  pc := fun _ => .idle

variable {κ ι : Type} [DecidableEq κ] [DecidableEq ι]

def State.goto (s : State κ ι) (c : κ) (pc : Pc ι) : State κ ι :=
  { s with pc := Function.update s.pc c pc }

/-! ## Arrays -/

/-- `sizeof(EmutlsArray)`. -/
def arrayHeader : Nat := 8

/-- `emutls_array_size`. -/
def emutlsArraySize (capacity : Nat) : Option Nat :=
  if capacity = 0 ∨ (sizeMax - arrayHeader) / pointerSize < capacity - 1 then none
  else some (arrayHeader + (capacity - 1) * pointerSize)

/-- `allocate_emutls_array`, with what `calloc` returns. -/
def allocateEmutlsArray (s : State κ ι) (capacity p : Nat) : Option (State κ ι) :=
  (emutlsArraySize capacity).map fun size =>
    { s with
      live := Function.update s.live p (some size)
      arrays := Function.update s.arrays p (some ⟨capacity, List.replicate capacity 0⟩) }

/-- The new capacity of `grow_emutls_array`. -/
def grownCapacity (capacity offset : Nat) : Option Nat :=
  let doubled := if capacity ≤ sizeMax / 2 then capacity * 2 else offset
  if doubled < offset then
    if sizeMax - 32 < offset then none else some (offset + 32)
  else some doubled

/-- `grow_emutls_array`, with what `realloc` returns and has behind the old entries. -/
def growEmutlsArray (s : State κ ι) (base : Nat) (array : EmutlsArray) (offset p : Nat)
    (behind : List Nat) : Option (State κ ι) := do
  let capacity ← grownCapacity array.capacity offset
  let size ← emutlsArraySize capacity
  let moved := array.entries ++ behind
  some { s with
    live := Function.update (Function.update s.live base none) p (some size)
    arrays := Function.update (Function.update s.arrays base none) p (some ⟨capacity,
      moved.take array.capacity ++ List.replicate (capacity - array.capacity) 0 ++
        moved.drop capacity⟩) }

/-! ## Objects -/

/-- The size that `allocate_emutls_object` asks for. -/
def allocationSize (object : EmutlsObject) : Option Nat :=
  if object.alignment = 0 ∨ object.alignment &&& (object.alignment - 1) ≠ 0 ∨
      sizeMax - pointerSize < object.alignment - 1 ∨
      sizeMax - pointerSize - (object.alignment - 1) < object.size then none
  else some (object.size + pointerSize + object.alignment - 1)

/-- The bytes that an object starts with. -/
def EmutlsObject.initial (object : EmutlsObject) : List UInt8 :=
  match object.initializer with
  | some bytes => bytes
  | none => List.replicate object.size 0

/-- The address within an allocation. -/
def objectAddress (object : EmutlsObject) (allocation : Nat) : Nat :=
  alignUp 32 (allocation + pointerSize) object.alignment

/-- `allocate_emutls_object`, with what `malloc` returns. -/
def allocateEmutlsObject (s : State κ ι) (object : EmutlsObject) (p : Nat) :
    Option (Nat × State κ ι) :=
  (allocationSize object).map fun size =>
    let result := objectAddress object p
    (result, { s with
      live := Function.update s.live p (some size)
      memory := (s.memory.storePointer (result - pointerSize) p).storeBytes result object.initial })

/-- `free`. -/
def free (s : State κ ι) (p : Nat) : Option (State κ ι) :=
  if s.live p = none then none else some { s with live := Function.update s.live p none }

/-- The loop of `destroy_emutls`. -/
def freeEntries (s : State κ ι) : List Nat → Option (State κ ι)
  | [] => some s
  | entry :: rest => do
      let s' ← if entry ≠ 0 then do
          let allocation ← s.memory.loadPointer (entry - pointerSize)
          free s allocation
        else some s
      freeEntries s' rest

/-- `destroy_emutls`. -/
def destroyEmutls (s : State κ ι) (c : κ) : Option (State κ ι) :=
  if s.storage c = 0 then some s
  else do
    let array ← s.arrays (s.storage c)
    if array.entries.length < array.capacity then none
    else do
      let s' ← freeEntries s (array.entries.take array.capacity)
      let s'' ← free s' (s.storage c)
      some { s'' with
        arrays := Function.update s''.arrays (s.storage c) none
        storage := Function.update s''.storage c 0 }

/-! ## Steps -/

/-- The entry of a context's array at an index, unless it is null. -/
def State.entryAt (s : State κ ι) (c : κ) (i : Nat) : Option Nat :=
  if s.storage c = 0 then none
  else (s.arrays (s.storage c)).bind fun array => (array.entries[i]?).filter (· ≠ 0)

/-- The address of a context's own copy of an object, once there is one. -/
def State.address (s : State κ ι) (c : κ) (o : ι) : Option Nat :=
  if s.offsets o = 0 then none else s.entryAt c (s.offsets o - 1)

inductive Label (κ ι : Type)
  /-- The call, up to the acquire load of the offset. -/
  | call (c : κ) (o : ι)
  /-- The guarded part of `emutls_offset`. -/
  | assign (c : κ)
  /-- The array is made ready. -/
  | array (c : κ) (p : Nat) (behind : List Nat)
  /-- The entry is looked at, and filled in if it is null. -/
  | entry (c : κ) (p : Nat)
  /-- The program writes a byte of its copy of an object. -/
  | store (c : κ) (o : ι) (i : Nat) (x : UInt8)
  /-- `destroy_emutls`, when a thread is deleted. -/
  | destroy (c : κ)
  /-- `runtime_tls_adopt_startup`: the second context goes on with what the first has. -/
  | adopt (c c' : κ)
  deriving DecidableEq, Repr

/-- The context is not within a call. -/
def Pc.Outside : Pc ι → Prop
  | .idle | .returned _ _ => True
  | _ => False

instance : DecidablePred (Pc.Outside (ι := ι))
  | .idle | .returned _ _ => isTrue trivial
  | .assign _ | .array _ _ | .entry _ _ _ => isFalse not_false

/-- The third part of `__emutls_get_address`. -/
def readyArray (s : State κ ι) (c : κ) (o : ι) (offset p : Nat) (behind : List Nat) :
    Option (State κ ι) :=
  if s.storage c = 0 then
    if sizeMax - 32 < offset then none
    else (allocateEmutlsArray s (offset + 32) p).map fun s' =>
      { s' with storage := Function.update s'.storage c p }.goto c (.entry o offset p)
  else do
    let array ← s.arrays (s.storage c)
    if array.capacity < offset then
      (growEmutlsArray s (s.storage c) array offset p behind).map fun s' =>
        { s' with storage := Function.update s'.storage c p }.goto c (.entry o offset p)
    else some (s.goto c (.entry o offset (s.storage c)))

/-- The last part of `__emutls_get_address`. -/
def fillEntry (objects : ι → EmutlsObject) (s : State κ ι) (c : κ) (o : ι) (offset base p : Nat) :
    Option (State κ ι) := do
  let array ← s.arrays base
  let result ← array.entries[offset - 1]?
  if result = 0 then
    (allocateEmutlsObject s (objects o) p).map fun r =>
      { r.2 with
        arrays := Function.update r.2.arrays base
          (some { array with entries := array.entries.set (offset - 1) r.1 }) }.goto c
        (.returned o r.1)
  else some (s.goto c (.returned o result))

def step (objects : ι → EmutlsObject) (s : State κ ι) : Label κ ι → Option (State κ ι)
  | .call c o =>
      if (s.pc c).Outside then
        some (s.goto c (if s.offsets o = 0 then .assign o else .array o (s.offsets o)))
      else none
  | .assign c =>
      match s.pc c with
      | .assign o =>
          if s.offsets o ≠ 0 then some (s.goto c (.array o (s.offsets o)))
          else if s.objectCount = sizeMax then none
          else some ({ s with
            objectCount := s.objectCount + 1
            offsets := Function.update s.offsets o (s.objectCount + 1) }.goto c
              (.array o (s.objectCount + 1)))
      | _ => none
  | .array c p behind =>
      match s.pc c with
      | .array o offset => readyArray s c o offset p behind
      | _ => none
  | .entry c p =>
      match s.pc c with
      | .entry o offset base => fillEntry objects s c o offset base p
      | _ => none
  | .store c o i x =>
      match s.address c o with
      | some a =>
          if i < (objects o).size then
            some { s with memory := Function.update s.memory (a + i) (.byte x) }
          else none
      | none => none
  | .destroy c =>
      if (s.pc c).Outside then (destroyEmutls s c).map fun s' => s'.goto c .idle else none
  | .adopt c c' =>
      if c ≠ c' ∧ (s.pc c).Outside ∧ (s.pc c').Outside then
        (destroyEmutls s c').map fun s' =>
          ({ s' with
            storage := Function.update (Function.update s'.storage c' (s'.storage c)) c 0 }.goto c
              .idle).goto c' .idle
      else none

/-- What the allocator promises of a step: a block that it returns is a new one, and
    `realloc` gives the new size. -/
def Promised (objects : ι → EmutlsObject) (s : State κ ι) : Label κ ι → Prop
  | .array c p behind =>
      match s.pc c with
      | .array _ offset =>
          if s.storage c = 0 then
            ∀ size, emutlsArraySize (offset + 32) = some size → Blocks.Fresh sizeMax s.live p size
          else ∀ array, s.arrays (s.storage c) = some array → array.capacity < offset →
            ∀ capacity size, grownCapacity array.capacity offset = some capacity →
              emutlsArraySize capacity = some size →
              array.entries.length + behind.length = capacity ∧
                Blocks.Fresh sizeMax (Function.update s.live (s.storage c) none) p size
      | _ => True
  | .entry c p =>
      match s.pc c with
      | .entry o _ _ =>
          ∀ size, allocationSize (objects o) = some size → Blocks.Fresh sizeMax s.live p size
      | _ => True
  | _ => True

end Emutls
end Backend
end NucleoBase
