/-
  NucleoBase.Libc.SectorDriver

  The FileX driver of the SD card (libc/storage_media.cpp): the requests of
  `direct_media_driver`, its check of the range and that of `sd_read` and
  `sd_write`, which the STM32 does sector by sector through a bounce buffer and
  Linux in one piece of a file.

  An access outside of the device, the buffer or the bounce buffer has no result.
-/

import NucleoBase.Lib.CharArray
import NucleoBase.Libc.Path

namespace NucleoBase
namespace Libc
namespace SectorDriver

open Lib CharArray

/-! ## Data -/

/-- `sector_size`. -/
def sectorSize : Nat := 512

/-- `fx_media_driver_request`. -/
inductive Request
  | init | uninit | flush | abort | read | write | bootRead | bootWrite | other
  deriving DecidableEq, Repr

/-- `fx_media_driver_status`. -/
inductive Status
  | success | ioError
  deriving DecidableEq, Repr

/-- What the driver reads of an `FX_MEDIA`. -/
structure Media where
  request : Request
  logicalSector : UInt32
  hiddenSectors : UInt32
  sectors : UInt32
  deriving DecidableEq, Repr

structure State where
  /-- The sectors of the card, or of the image. -/
  device : Bytes
  /-- `sd_transfer_buffer`. -/
  bounce : Bytes
  /-- `fx_media_driver_buffer`. -/
  buffer : Bytes
  /-- The offsets and the lengths of all transfers asked of the device so far. -/
  accesses : List (Nat × Nat)
  deriving DecidableEq, Repr

/-- The device and what it does, transfer by transfer. -/
structure Card where
  /-- `runtime_storage_diagnostics.sd_blocks`. -/
  sdBlocks : UInt32
  /-- `hsd1.SdCard.LogBlockNbr`, or `sd_device.sectors`. -/
  capacity : UInt32
  /-- Whether `sd_device.file` is open. -/
  opened : Bool
  /-- What a transfer does that fails. -/
  fault : Nat → Option (State → State)
  /-- Whether the other calls about a transfer succeed. -/
  control : Nat → Bool
  /-- `_fx_partition_offset_calculate`: the partition that a boot record names. -/
  partitionStart : Bytes → Option UInt32

/-- The two builds; on Linux, a `ULONG` may have 64 bits. -/
inductive Platform
  | stm32
  | linux (wide : Bool)
  deriving DecidableEq, Repr

def Platform.ulongBits : Platform → Nat
  | .stm32 => 32
  | .linux wide => if wide then 64 else 32

/-- The bits of a `std::size_t`. -/
def Platform.sizeBits : Platform → Nat
  | .stm32 => 32
  | .linux _ => 64

abbrev Run := StateT State Option

/-! ## Transfers -/

/-- `valid_sector_range`. -/
def validSectorRange (sector hiddenSectors count capacity : Nat) : Bool :=
  hiddenSectors ≤ capacity && sector ≤ capacity - hiddenSectors &&
    count ≤ capacity - hiddenSectors - sector

/-- A transfer between the device and memory, and whether it succeeds. -/
def transfer (c : Card) (offset bytes : Nat) (act : State → Option State) : Run Bool := fun s =>
  let t := { s with accesses := s.accesses ++ [(offset, bytes)] }
  match c.fault s.accesses.length with
  | none => (act t).map fun u => (true, u)
  | some fault => some (false, fault t)

/-- A call about a transfer: waiting for the card, seeking or flushing. -/
def control (c : Card) : Run Bool := fun s => some (c.control s.accesses.length, s)

/-- `HAL_SD_ReadBlocks` of one block. -/
def halReadBlock (c : Card) (sector : Nat) : Run Bool :=
  transfer c (sector * sectorSize) sectorSize fun s => do
    let data ← load s.device (sector * sectorSize) sectorSize
    let bounce ← copy s.bounce 0 data
    pure { s with bounce }

/-- `HAL_SD_WriteBlocks` of one block. -/
def halWriteBlock (c : Card) (sector : Nat) : Run Bool :=
  transfer c (sector * sectorSize) sectorSize fun s => do
    let data ← load s.bounce 0 sectorSize
    let device ← copy s.device (sector * sectorSize) data
    pure { s with device }

/-- `memcpy(output + index * sector_size, sd_transfer_buffer.data(), sector_size)`. -/
def copyOut (index : Nat) : Run Unit := fun s => do
  let data ← load s.bounce 0 sectorSize
  let buffer ← copy s.buffer (index * sectorSize % 2 ^ 32) data
  pure ((), { s with buffer })

/-- `memcpy(sd_transfer_buffer.data(), input + index * sector_size, sector_size)`. -/
def copyIn (index : Nat) : Run Unit := fun s => do
  let data ← load s.buffer (index * sectorSize % 2 ^ 32) sectorSize
  let bounce ← copy s.bounce 0 data
  pure ((), { s with bounce })

/-- The loop of the STM32 `sd_read`, for so many more sectors from `index` on. -/
def readLoop (c : Card) (sector : Nat) : Nat → Nat → Run Bool
  | 0, _ => pure true
  | more + 1, index => do
      if ← halReadBlock c ((sector + index) % 2 ^ 32) then
        if ← control c then do
          copyOut index
          readLoop c sector more (index + 1)
        else pure false
      else pure false

/-- The loop of the STM32 `sd_write`. -/
def writeLoop (c : Card) (sector : Nat) : Nat → Nat → Run Bool
  | 0, _ => pure true
  | more + 1, index => do
      copyIn index
      if ← halWriteBlock c ((sector + index) % 2 ^ 32) then
        if ← control c then writeLoop c sector more (index + 1)
        else pure false
      else pure false

/-- `file_read`. -/
def fileRead (c : Card) (offset bytes : Nat) : Run Bool := do
  if c.opened then
    if ← control c then
      transfer c offset bytes fun s => do
        let data ← load s.device offset bytes
        let buffer ← copy s.buffer 0 data
        pure { s with buffer }
    else pure false
  else pure false

/-- `file_write`. -/
def fileWrite (c : Card) (offset bytes : Nat) : Run Bool := do
  if c.opened then
    if ← control c then
      if ← transfer c offset bytes fun s => do
          let data ← load s.buffer 0 bytes
          let device ← copy s.device offset data
          pure { s with device } then
        control c
      else pure false
    else pure false
  else pure false

/-- `sd_read`. -/
def sdRead (p : Platform) (c : Card) (sector sectors : Nat) : Run Bool := do
  if validSectorRange sector 0 sectors c.capacity.toNat then
    match p with
    | .stm32 => readLoop c sector sectors 0
    | .linux _ => fileRead c (sector * sectorSize % 2 ^ 64) (sectors * sectorSize % 2 ^ 64)
  else pure false

/-- `sd_write`. -/
def sdWrite (p : Platform) (c : Card) (sector sectors : Nat) : Run Bool := do
  if validSectorRange sector 0 sectors c.capacity.toNat then
    match p with
    | .stm32 => writeLoop c sector sectors 0
    | .linux _ => fileWrite c (sector * sectorSize % 2 ^ 64) (sectors * sectorSize % 2 ^ 64)
  else pure false

/-! ## The driver -/

def statusOf (succeeded : Bool) : Status := if succeeded then .success else .ioError

/-- The sector on the device, as a `ULONG` has it. -/
def deviceSector (p : Platform) (m : Media) : Nat :=
  (m.logicalSector.toNat + m.hiddenSectors.toNat) % 2 ^ p.ulongBits

/-- The check of the driver itself. -/
def inRange (c : Card) (m : Media) : Bool :=
  validSectorRange m.logicalSector.toNat m.hiddenSectors.toNat m.sectors.toNat c.sdBlocks.toNat

/-- `FX_DRIVER_BOOT_READ`: the boot record of the card, or of its first partition. -/
def bootRead (p : Platform) (c : Card) : Run Status := do
  if ← sdRead p c 0 1 then
    match c.partitionStart ((← get).buffer.take sectorSize) with
    | none => pure .ioError
    | some start =>
        if start ≠ 0 then return statusOf (← sdRead p c start.toNat 1)
        else pure .success
  else pure .ioError

/-- `direct_media_driver`. -/
def directMediaDriver (p : Platform) (c : Card) (m : Media) : Run Status :=
  match m.request with
  | .init | .uninit | .flush | .abort => pure .success
  | .read => do
      if inRange c m then return statusOf (← sdRead p c (deviceSector p m) m.sectors.toNat)
      else pure .ioError
  | .write => do
      if inRange c m then return statusOf (← sdWrite p c (deviceSector p m) m.sectors.toNat)
      else pure .ioError
  | .bootRead => bootRead p c
  | .bootWrite => do return statusOf (← sdWrite p c m.hiddenSectors.toNat 1)
  | .other => pure .ioError

/-! ## Runs -/

/-- Every transfer succeeds, and every call about one. -/
structure Card.Faultless (c : Card) : Prop where
  opened : c.opened = true
  fault : ∀ n, c.fault n = none
  control : ∀ n, c.control n = true

/-- The device is as large as it says, and the buffer holds so many sectors. -/
structure Sized (p : Platform) (c : Card) (count : Nat) (s : State) : Prop where
  device : s.device.length = c.capacity.toNat * sectorSize
  bounce : s.bounce.length = sectorSize
  buffer : count * sectorSize ≤ s.buffer.length
  addressable : s.buffer.length ≤ 2 ^ p.sizeBits

/-- A transfer of some of these sectors only. -/
def Within (start count : Nat) (access : Nat × Nat) : Prop :=
  start * sectorSize ≤ access.1 ∧ access.1 + access.2 ≤ (start + count) * sectorSize

/-- A run that leaves these contents and has touched only these sectors of the device. -/
structure Moves (s t : State) (device buffer : Bytes) (start count : Nat) : Prop where
  device : t.device = device
  buffer : t.buffer = buffer
  bounce : t.bounce.length = s.bounce.length
  accesses : ∃ log, t.accesses = s.accesses ++ log ∧ ∀ a ∈ log, Within start count a

variable {c : Card} {s t : State}

theorem run_bind {α β : Type} {x : Run α} {f : α → Run β} {a : α} (h : x s = some (a, t)) :
    (x >>= f) s = f a t := by
  change (x s).bind (fun r => f r.1 r.2) = _
  rw [h]
  rfl

theorem run_transfer (hc : c.Faultless) {offset bytes : Nat} {act : State → Option State}
    (h : act { s with accesses := s.accesses ++ [(offset, bytes)] } = some t) :
    transfer c offset bytes act s = some (true, t) := by
  rw [transfer]
  simp only [hc.fault, h, Option.map_some]

theorem run_control (hc : c.Faultless) : control c s = some (true, s) := by
  rw [control, hc.control]

theorem Moves.refl (s : State) (start count : Nat) :
    Moves s s s.device s.buffer start count :=
  ⟨rfl, rfl, rfl, [], by rw [List.append_nil], nofun⟩

/-! ## Sector by sector -/

/-- The whole bounce buffer is replaced. -/
theorem patch_whole {a bs : Bytes} (h : bs.length = a.length) : patch a 0 bs = bs := by
  rw [patch, h, Nat.zero_add, List.drop_length, List.take_zero, List.nil_append, List.append_nil]

theorem slice_whole {a : Bytes} {n : Nat} (h : a.length = n) : slice a 0 n = a := by
  rw [slice, List.drop_zero, ← h, List.take_length]

theorem index_eq {index : Nat} (hbuffer : (index + 1) * sectorSize ≤ s.buffer.length)
    (haddress : s.buffer.length ≤ 2 ^ 32) :
    index * sectorSize % 2 ^ 32 = index * sectorSize ∧
      index * sectorSize + sectorSize ≤ s.buffer.length := by
  rw [Nat.add_one_mul] at hbuffer
  have hpos : 0 < sectorSize := by decide
  exact ⟨Nat.mod_eq_of_lt (by omega), hbuffer⟩

theorem halReadBlock_eq (hc : c.Faultless) {block : Nat}
    (hdevice : (block + 1) * sectorSize ≤ s.device.length)
    (hbounce : s.bounce.length = sectorSize) :
    halReadBlock c block s = some (true, { s with
      bounce := slice s.device (block * sectorSize) sectorSize
      accesses := s.accesses ++ [(block * sectorSize, sectorSize)] }) := by
  rw [Nat.add_one_mul] at hdevice
  have hdata := length_slice hdevice
  refine run_transfer hc ?_
  simp only [load_eq hdevice, Option.bind_eq_bind, Option.bind_some]
  rw [copy_eq (by omega), patch_whole (hdata.trans hbounce.symm)]
  rfl

theorem copyOut_eq {index : Nat} (hbounce : s.bounce.length = sectorSize)
    (hbuffer : (index + 1) * sectorSize ≤ s.buffer.length)
    (haddress : s.buffer.length ≤ 2 ^ 32) :
    copyOut index s = some ((), { s with
      buffer := patch s.buffer (index * sectorSize) s.bounce }) := by
  obtain ⟨hindex, hroom⟩ := index_eq hbuffer haddress
  simp only [copyOut, hindex, Option.bind_eq_bind]
  rw [load_eq (by omega), slice_whole hbounce, Option.bind_some, copy_eq (by omega)]
  rfl

theorem copyIn_eq {index : Nat} (hbounce : s.bounce.length = sectorSize)
    (hbuffer : (index + 1) * sectorSize ≤ s.buffer.length)
    (haddress : s.buffer.length ≤ 2 ^ 32) :
    copyIn index s = some ((), { s with
      bounce := slice s.buffer (index * sectorSize) sectorSize }) := by
  obtain ⟨hindex, hroom⟩ := index_eq hbuffer haddress
  have hdata := length_slice hroom
  simp only [copyIn, hindex, Option.bind_eq_bind]
  rw [load_eq hroom, Option.bind_some, copy_eq (by omega),
    patch_whole (hdata.trans hbounce.symm)]
  rfl

theorem halWriteBlock_eq (hc : c.Faultless) {block : Nat}
    (hdevice : (block + 1) * sectorSize ≤ s.device.length)
    (hbounce : s.bounce.length = sectorSize) :
    halWriteBlock c block s = some (true, { s with
      device := patch s.device (block * sectorSize) s.bounce
      accesses := s.accesses ++ [(block * sectorSize, sectorSize)] }) := by
  rw [Nat.add_one_mul] at hdevice
  refine run_transfer hc ?_
  simp only [Option.bind_eq_bind]
  rw [load_eq (by omega), slice_whole hbounce, Option.bind_some, copy_eq (by omega)]
  rfl

/-- One sector written and then the others are all of them written. -/
theorem patch_sectors {a d : Bytes} {i k more : Nat} (ha : (i + 1) * sectorSize ≤ a.length)
    (hd : (k + 1) * sectorSize ≤ d.length) :
    patch (patch a (i * sectorSize) (slice d (k * sectorSize) sectorSize)) ((i + 1) * sectorSize)
        (slice d ((k + 1) * sectorSize) (more * sectorSize)) =
      patch a (i * sectorSize) (slice d (k * sectorSize) ((more + 1) * sectorSize)) := by
  rw [Nat.add_one_mul] at ha hd
  have hdata := length_slice hd
  have hnext : (i + 1) * sectorSize =
      i * sectorSize + (slice d (k * sectorSize) sectorSize).length := by
    rw [hdata, Nat.add_one_mul]
  rw [hnext, patch_patch (by rw [hdata]; exact ha), Nat.add_one_mul k, Nat.add_one_mul more,
    Nat.add_comm (more * sectorSize), slice_add]

theorem Within.first (start more : Nat) :
    Within start (more + 1) (start * sectorSize, sectorSize) := by
  refine ⟨Nat.le_refl _, ?_⟩
  rw [← Nat.add_one_mul]
  exact Nat.mul_le_mul_right _ (by omega)

theorem Within.rest {start more : Nat} {access : Nat × Nat} (h : Within (start + 1) more access) :
    Within start (more + 1) access :=
  ⟨Nat.le_trans (Nat.mul_le_mul_right _ (by omega)) h.1,
    Nat.le_trans h.2 (Nat.mul_le_mul_right _ (by omega))⟩

/-- The sectors read one by one. -/
theorem readLoop_moves (hc : c.Faultless) {sector more index : Nat}
    (hdevice : (sector + index + more) * sectorSize ≤ s.device.length)
    (hsector : sector + index + more < 2 ^ 32) (hbounce : s.bounce.length = sectorSize)
    (hbuffer : (index + more) * sectorSize ≤ s.buffer.length)
    (haddress : s.buffer.length ≤ 2 ^ 32) :
    ∃ t, readLoop c sector more index s = some (true, t) ∧
      Moves s t s.device (patch s.buffer (index * sectorSize)
        (slice s.device ((sector + index) * sectorSize) (more * sectorSize)))
        (sector + index) more := by
  induction more generalizing s index with
  | zero =>
      refine ⟨s, rfl, ?_⟩
      rw [Nat.zero_mul, slice_zero, patch_nil]
      exact .refl s _ _
  | succ more ih =>
      have hone : (sector + index + 1) * sectorSize ≤ s.device.length :=
        Nat.le_trans (Nat.mul_le_mul_right _ (by omega)) hdevice
      have hfirst : (index + 1) * sectorSize ≤ s.buffer.length :=
        Nat.le_trans (Nat.mul_le_mul_right _ (by omega)) hbuffer
      have hblock : (sector + index) % 2 ^ 32 = sector + index := Nat.mod_eq_of_lt (by omega)
      have hdata : (slice s.device ((sector + index) * sectorSize) sectorSize).length =
          sectorSize := length_slice (Nat.add_one_mul (sector + index) sectorSize ▸ hone)
      have hpatched : (patch s.buffer (index * sectorSize)
          (slice s.device ((sector + index) * sectorSize) sectorSize)).length =
          s.buffer.length := by
        refine length_patch ?_
        rw [hdata, ← Nat.add_one_mul]
        exact hfirst
      have hread := halReadBlock_eq (s := s) hc hone hbounce
      have hcopy := copyOut_eq (s := { s with
        bounce := slice s.device ((sector + index) * sectorSize) sectorSize
        accesses := s.accesses ++ [((sector + index) * sectorSize, sectorSize)] })
        hdata hfirst haddress
      -- the state after the block is in the buffer
      obtain ⟨u, hu, hudevice, hubuffer, hubounce, huaccesses⟩ : ∃ u,
          readLoop c sector (more + 1) index s = readLoop c sector more (index + 1) u ∧
          u.device = s.device ∧ u.buffer = patch s.buffer (index * sectorSize)
            (slice s.device ((sector + index) * sectorSize) sectorSize) ∧
          u.bounce.length = sectorSize ∧
          u.accesses = s.accesses ++ [((sector + index) * sectorSize, sectorSize)] := by
        refine ⟨{ s with
          bounce := slice s.device ((sector + index) * sectorSize) sectorSize
          buffer := patch s.buffer (index * sectorSize)
            (slice s.device ((sector + index) * sectorSize) sectorSize)
          accesses := s.accesses ++ [((sector + index) * sectorSize, sectorSize)] },
          ?_, rfl, rfl, hdata, rfl⟩
        rw [readLoop, hblock, run_bind hread, if_pos rfl, run_bind (run_control hc), if_pos rfl,
          run_bind hcopy]
      obtain ⟨t, hrun, hmoves⟩ := @ih u (index + 1)
        (by rw [hudevice]; exact Nat.le_trans (Nat.mul_le_mul_right _ (by omega)) hdevice)
        (by omega) hubounce
        (by rw [hubuffer, hpatched]; exact Nat.le_trans (Nat.mul_le_mul_right _ (by omega)) hbuffer)
        (by rw [hubuffer, hpatched]; exact haddress)
      obtain ⟨log, hlog, hwithin⟩ := hmoves.accesses
      refine ⟨t, hu.trans hrun, hmoves.device.trans hudevice, ?_,
        hmoves.bounce.trans (hubounce.trans hbounce.symm),
        ((sector + index) * sectorSize, sectorSize) :: log, ?_, ?_⟩
      · rw [hmoves.buffer, hubuffer, hudevice]
        exact patch_sectors hfirst hone
      · rw [hlog, huaccesses, List.append_assoc]
        rfl
      · intro a ha
        rcases List.mem_cons.mp ha with rfl | ha
        · exact .first _ _
        · exact .rest (hwithin a ha)

/-- The sectors written one by one. -/
theorem writeLoop_moves (hc : c.Faultless) {sector more index : Nat}
    (hdevice : (sector + index + more) * sectorSize ≤ s.device.length)
    (hsector : sector + index + more < 2 ^ 32) (hbounce : s.bounce.length = sectorSize)
    (hbuffer : (index + more) * sectorSize ≤ s.buffer.length)
    (haddress : s.buffer.length ≤ 2 ^ 32) :
    ∃ t, writeLoop c sector more index s = some (true, t) ∧
      Moves s t (patch s.device ((sector + index) * sectorSize)
        (slice s.buffer (index * sectorSize) (more * sectorSize))) s.buffer
        (sector + index) more := by
  induction more generalizing s index with
  | zero =>
      refine ⟨s, rfl, ?_⟩
      rw [Nat.zero_mul, slice_zero, patch_nil]
      exact .refl s _ _
  | succ more ih =>
      have hone : (sector + index + 1) * sectorSize ≤ s.device.length :=
        Nat.le_trans (Nat.mul_le_mul_right _ (by omega)) hdevice
      have hfirst : (index + 1) * sectorSize ≤ s.buffer.length :=
        Nat.le_trans (Nat.mul_le_mul_right _ (by omega)) hbuffer
      have hblock : (sector + index) % 2 ^ 32 = sector + index := Nat.mod_eq_of_lt (by omega)
      have hdata : (slice s.buffer (index * sectorSize) sectorSize).length = sectorSize :=
        length_slice (Nat.add_one_mul index sectorSize ▸ hfirst)
      have hpatched : (patch s.device ((sector + index) * sectorSize)
          (slice s.buffer (index * sectorSize) sectorSize)).length = s.device.length := by
        refine length_patch ?_
        rw [hdata, ← Nat.add_one_mul]
        exact hone
      have hcopy := copyIn_eq (s := s) hbounce hfirst haddress
      have hwrite := halWriteBlock_eq (s := { s with
        bounce := slice s.buffer (index * sectorSize) sectorSize }) hc hone hdata
      -- the state after the block is on the device
      obtain ⟨u, hu, hudevice, hubuffer, hubounce, huaccesses⟩ : ∃ u,
          writeLoop c sector (more + 1) index s = writeLoop c sector more (index + 1) u ∧
          u.device = patch s.device ((sector + index) * sectorSize)
            (slice s.buffer (index * sectorSize) sectorSize) ∧ u.buffer = s.buffer ∧
          u.bounce.length = sectorSize ∧
          u.accesses = s.accesses ++ [((sector + index) * sectorSize, sectorSize)] := by
        refine ⟨{ s with
          bounce := slice s.buffer (index * sectorSize) sectorSize
          device := patch s.device ((sector + index) * sectorSize)
            (slice s.buffer (index * sectorSize) sectorSize)
          accesses := s.accesses ++ [((sector + index) * sectorSize, sectorSize)] },
          ?_, rfl, rfl, hdata, rfl⟩
        rw [writeLoop, hblock, run_bind hcopy, run_bind hwrite, if_pos rfl,
          run_bind (run_control hc), if_pos rfl]
      obtain ⟨t, hrun, hmoves⟩ := @ih u (index + 1)
        (by rw [hudevice, hpatched]; exact Nat.le_trans (Nat.mul_le_mul_right _ (by omega)) hdevice)
        (by omega) hubounce
        (by rw [hubuffer]; exact Nat.le_trans (Nat.mul_le_mul_right _ (by omega)) hbuffer)
        (by rw [hubuffer]; exact haddress)
      obtain ⟨log, hlog, hwithin⟩ := hmoves.accesses
      refine ⟨t, hu.trans hrun, ?_, hmoves.buffer.trans hubuffer,
        hmoves.bounce.trans (hubounce.trans hbounce.symm),
        ((sector + index) * sectorSize, sectorSize) :: log, ?_, ?_⟩
      · rw [hmoves.device, hudevice, hubuffer]
        exact patch_sectors hone hfirst
      · rw [hlog, huaccesses, List.append_assoc]
        rfl
      · intro a ha
        rcases List.mem_cons.mp ha with rfl | ha
        · exact .first _ _
        · exact .rest (hwithin a ha)

/-! ## In one piece -/

theorem fileRead_moves (hc : c.Faultless) {start count : Nat}
    (hdevice : (start + count) * sectorSize ≤ s.device.length)
    (hbuffer : count * sectorSize ≤ s.buffer.length) :
    ∃ t, fileRead c (start * sectorSize) (count * sectorSize) s = some (true, t) ∧
      Moves s t s.device (patch s.buffer 0
        (slice s.device (start * sectorSize) (count * sectorSize))) start count := by
  rw [Nat.add_mul] at hdevice
  have hdata := length_slice hdevice
  refine ⟨{ s with
    buffer := patch s.buffer 0 (slice s.device (start * sectorSize) (count * sectorSize))
    accesses := s.accesses ++ [(start * sectorSize, count * sectorSize)] }, ?_, rfl, rfl, rfl,
    [(start * sectorSize, count * sectorSize)], rfl, ?_⟩
  · rw [fileRead, hc.opened, if_pos rfl, run_bind (run_control hc), if_pos rfl]
    refine run_transfer hc ?_
    simp only [load_eq hdevice, Option.bind_eq_bind, Option.bind_some]
    rw [copy_eq (by omega)]
    rfl
  · intro a ha
    rw [List.mem_singleton.mp ha]
    exact ⟨Nat.le_refl _, Nat.le_of_eq (Nat.add_mul _ _ _).symm⟩

theorem fileWrite_moves (hc : c.Faultless) {start count : Nat}
    (hdevice : (start + count) * sectorSize ≤ s.device.length)
    (hbuffer : count * sectorSize ≤ s.buffer.length) :
    ∃ t, fileWrite c (start * sectorSize) (count * sectorSize) s = some (true, t) ∧
      Moves s t (patch s.device (start * sectorSize) (slice s.buffer 0 (count * sectorSize)))
        s.buffer start count := by
  rw [Nat.add_mul] at hdevice
  have hdata : (slice s.buffer 0 (count * sectorSize)).length = count * sectorSize :=
    length_slice (by omega)
  refine ⟨{ s with
    device := patch s.device (start * sectorSize) (slice s.buffer 0 (count * sectorSize))
    accesses := s.accesses ++ [(start * sectorSize, count * sectorSize)] }, ?_, rfl, rfl, rfl,
    [(start * sectorSize, count * sectorSize)], rfl, ?_⟩
  · rw [fileWrite, hc.opened, if_pos rfl, run_bind (run_control hc), if_pos rfl]
    have hact : (do
        let data ← load s.buffer 0 (count * sectorSize)
        let device ← copy s.device (start * sectorSize) data
        pure { s with
          device
          accesses := s.accesses ++ [(start * sectorSize, count * sectorSize)] }) =
        some { s with
          device := patch s.device (start * sectorSize) (slice s.buffer 0 (count * sectorSize))
          accesses := s.accesses ++ [(start * sectorSize, count * sectorSize)] } := by
      simp only [load_eq (show 0 + count * sectorSize ≤ s.buffer.length by omega),
        Option.bind_eq_bind, Option.bind_some]
      rw [copy_eq (by omega)]
      rfl
    rw [run_bind (run_transfer hc hact), if_pos rfl, run_control hc]
  · intro a ha
    rw [List.mem_singleton.mp ha]
    exact ⟨Nat.le_refl _, Nat.le_of_eq (Nat.add_mul _ _ _).symm⟩

/-! ## Both layers -/

theorem validSectorRange_iff {sector hiddenSectors count capacity : Nat} :
    validSectorRange sector hiddenSectors count capacity = true ↔
      hiddenSectors + sector + count ≤ capacity := by
  simp only [validSectorRange, Bool.and_eq_true, decide_eq_true_eq]
  omega

variable {p : Platform} {sector count : Nat}

/-- The sizes that the transfers rely on. -/
theorem Sized.offsets (hs : Sized p c count s) (hin : sector + count ≤ c.capacity.toNat) :
    (sector + count) * sectorSize ≤ s.device.length ∧
      sector * sectorSize % 2 ^ 64 = sector * sectorSize ∧
      count * sectorSize % 2 ^ 64 = count * sectorSize := by
  have hcapacity := c.capacity.toNat_lt
  refine ⟨?_, ?_, ?_⟩
  · rw [hs.device]
    exact Nat.mul_le_mul_right _ hin
  · simp only [sectorSize]
    omega
  · simp only [sectorSize]
    omega

theorem sdRead_moves (hc : c.Faultless) (hs : Sized p c count s)
    (hin : sector + count ≤ c.capacity.toNat) :
    ∃ t, sdRead p c sector count s = some (true, t) ∧
      Moves s t s.device (patch s.buffer 0
        (slice s.device (sector * sectorSize) (count * sectorSize))) sector count := by
  obtain ⟨hdevice, hoffset, hbytes⟩ := hs.offsets hin
  have hcapacity := c.capacity.toNat_lt
  unfold sdRead
  rw [if_pos (validSectorRange_iff.mpr (by omega))]
  cases p with
  | stm32 =>
      have hrun := @readLoop_moves c s hc sector count 0 (by simpa using hdevice) (by omega)
        hs.bounce (by simpa using hs.buffer) hs.addressable
      rwa [Nat.zero_mul, Nat.add_zero] at hrun
  | linux wide =>
      simp only [hoffset, hbytes]
      exact fileRead_moves hc hdevice hs.buffer

theorem sdWrite_moves (hc : c.Faultless) (hs : Sized p c count s)
    (hin : sector + count ≤ c.capacity.toNat) :
    ∃ t, sdWrite p c sector count s = some (true, t) ∧
      Moves s t (patch s.device (sector * sectorSize) (slice s.buffer 0 (count * sectorSize)))
        s.buffer sector count := by
  obtain ⟨hdevice, hoffset, hbytes⟩ := hs.offsets hin
  have hcapacity := c.capacity.toNat_lt
  unfold sdWrite
  rw [if_pos (validSectorRange_iff.mpr (by omega))]
  cases p with
  | stm32 =>
      have hrun := @writeLoop_moves c s hc sector count 0 (by simpa using hdevice) (by omega)
        hs.bounce (by simpa using hs.buffer) hs.addressable
      rwa [Nat.zero_mul, Nat.add_zero] at hrun
  | linux wide =>
      simp only [hoffset, hbytes]
      exact fileWrite_moves hc hdevice hs.buffer

theorem sdRead_out (hout : ¬ sector + count ≤ c.capacity.toNat) :
    sdRead p c sector count s = some (false, s) := by
  unfold sdRead
  rw [if_neg (by rw [validSectorRange_iff]; omega)]
  rfl

theorem sdWrite_out (hout : ¬ sector + count ≤ c.capacity.toNat) :
    sdWrite p c sector count s = some (false, s) := by
  unfold sdWrite
  rw [if_neg (by rw [validSectorRange_iff]; omega)]
  rfl

/-! ## The driver on both platforms -/

/-- The sectors that a request is about. -/
def Media.extent (m : Media) : Nat :=
  match m.request with
  | .read | .write => m.sectors.toNat
  | .bootRead | .bootWrite => 1
  | _ => 0

/-- The first sector on the device. -/
def Media.start (m : Media) : Nat := m.hiddenSectors.toNat + m.logicalSector.toNat

/-- All sectors of a request are on the device. -/
def InDevice (c : Card) (m : Media) : Prop :=
  m.start + m.sectors.toNat ≤ min c.sdBlocks.toNat c.capacity.toNat

/-- Two runs that end alike, the bounce buffer and the number of transfers apart. -/
def Same (x y : Option (Status × State)) : Prop :=
  ∃ r t u, x = some (r, t) ∧ y = some (r, u) ∧ t.device = u.device ∧ t.buffer = u.buffer

variable {m : Media} {q : Platform} {u : State}

theorem deviceSector_eq (h : inRange c m = true) : deviceSector p m = m.start := by
  have hblocks := c.sdBlocks.toNat_lt
  have hle := validSectorRange_iff.mp h
  have hbits : 2 ^ 32 ≤ 2 ^ p.ulongBits := by
    refine Nat.pow_le_pow_right (by decide) ?_
    cases p with
    | stm32 => decide
    | linux wide => cases wide <;> decide
  rw [deviceSector, Media.start, Nat.add_comm, Nat.mod_eq_of_lt (by omega)]

theorem inDevice_iff : InDevice c m ↔ inRange c m = true ∧
    m.start + m.sectors.toNat ≤ c.capacity.toNat := by
  rw [InDevice, inRange, validSectorRange_iff, Media.start]
  omega

theorem driver_read (h : m.request = .read) (hin : inRange c m = true) :
    directMediaDriver p c m = do
      return statusOf (← sdRead p c m.start m.sectors.toNat) := by
  simp only [directMediaDriver, h]
  rw [if_pos hin, deviceSector_eq hin]

theorem driver_write (h : m.request = .write) (hin : inRange c m = true) :
    directMediaDriver p c m = do
      return statusOf (← sdWrite p c m.start m.sectors.toNat) := by
  simp only [directMediaDriver, h]
  rw [if_pos hin, deviceSector_eq hin]

/-- A request that is not all on the device does nothing. -/
theorem driver_out (hm : m.request = .read ∨ m.request = .write) (hout : ¬ InDevice c m) :
    directMediaDriver p c m s = some (.ioError, s) := by
  rw [inDevice_iff] at hout
  by_cases hin : inRange c m = true
  · have hcard : ¬ m.start + m.sectors.toNat ≤ c.capacity.toNat := fun h => hout ⟨hin, h⟩
    rcases hm with hm | hm
    · rw [driver_read hm hin, run_bind (sdRead_out hcard)]
      rfl
    · rw [driver_write hm hin, run_bind (sdWrite_out hcard)]
      rfl
  · rcases hm with hm | hm
    · simp only [directMediaDriver, hm]
      rw [if_neg hin]
      rfl
    · simp only [directMediaDriver, hm]
      rw [if_neg hin]
      rfl

/-- What the device and the buffer hold after a transfer of a request. -/
def Media.moved (m : Media) (s : State) : Bytes × Bytes :=
  if m.request = .read then
    (s.device, patch s.buffer 0
      (slice s.device (m.start * sectorSize) (m.sectors.toNat * sectorSize)))
  else
    (patch s.device (m.start * sectorSize) (slice s.buffer 0 (m.sectors.toNat * sectorSize)),
      s.buffer)

theorem Media.extent_of_transfer (hm : m.request = .read ∨ m.request = .write) :
    m.extent = m.sectors.toNat := by
  rcases hm with hm | hm <;> simp only [Media.extent, hm]

theorem driver_moves (hm : m.request = .read ∨ m.request = .write) (hc : c.Faultless)
    (hs : Sized p c m.extent s) (hin : InDevice c m) :
    ∃ t, directMediaDriver p c m s = some (.success, t) ∧
      Moves s t (m.moved s).1 (m.moved s).2 m.start m.sectors.toNat := by
  rw [m.extent_of_transfer hm] at hs
  obtain ⟨hrange, hcard⟩ := inDevice_iff.mp hin
  rcases hm with hm | hm
  · obtain ⟨t, hrun, hmoves⟩ := sdRead_moves hc hs hcard
    refine ⟨t, ?_, ?_⟩
    · rw [driver_read hm hrange, run_bind hrun]
      rfl
    · rw [Media.moved, if_pos hm]
      exact hmoves
  · obtain ⟨t, hrun, hmoves⟩ := sdWrite_moves hc hs hcard
    refine ⟨t, ?_, ?_⟩
    · rw [driver_write hm hrange, run_bind hrun]
      rfl
    · rw [Media.moved, if_neg (by rw [hm]; decide)]
      exact hmoves

/-- A transfer leaves the sizes as they are. -/
theorem Sized.of_moves {device buffer : Bytes} {start n : Nat} (hs : Sized p c count s)
    (h : Moves s t device buffer start n) (hdevice : device.length = s.device.length)
    (hbuffer : buffer.length = s.buffer.length) : Sized p c count t where
  device := by rw [h.device, hdevice, hs.device]
  bounce := h.bounce.trans hs.bounce
  buffer := by rw [h.buffer, hbuffer]; exact hs.buffer
  addressable := by rw [h.buffer, hbuffer]; exact hs.addressable

/-- Both ways of reading do the same to two states that agree. -/
theorem sdRead_same (hc : c.Faultless) (hs : Sized p c count s) (hu : Sized q c count u)
    (hdevice : s.device = u.device) (hbuffer : s.buffer = u.buffer) :
    ∃ b t v, sdRead p c sector count s = some (b, t) ∧ sdRead q c sector count u = some (b, v) ∧
      t.device = v.device ∧ t.buffer = v.buffer ∧ Sized p c count t ∧ Sized q c count v := by
  by_cases hin : sector + count ≤ c.capacity.toNat
  · obtain ⟨t, hrun, ht⟩ := sdRead_moves hc hs hin
    obtain ⟨v, hrun', hv⟩ := sdRead_moves hc hu hin
    have hroom := (hs.offsets hin).1
    rw [Nat.add_mul] at hroom
    have hdata := length_slice hroom
    have hlen : (patch s.buffer 0
        (slice s.device (sector * sectorSize) (count * sectorSize))).length = s.buffer.length :=
      length_patch (by rw [hdata, Nat.zero_add]; exact hs.buffer)
    refine ⟨true, t, v, hrun, hrun', ?_, ?_, hs.of_moves ht rfl hlen, hu.of_moves hv rfl ?_⟩
    · rw [ht.device, hv.device, hdevice]
    · rw [ht.buffer, hv.buffer, hdevice, hbuffer]
    · rw [← hdevice, ← hbuffer, hlen]
  · exact ⟨false, s, u, sdRead_out hin, sdRead_out hin, hdevice, hbuffer, hs, hu⟩

theorem sdWrite_same (hc : c.Faultless) (hs : Sized p c count s) (hu : Sized q c count s) :
    ∃ b t v, sdWrite p c sector count s = some (b, t) ∧ sdWrite q c sector count s = some (b, v) ∧
      t.device = v.device ∧ t.buffer = v.buffer := by
  by_cases hin : sector + count ≤ c.capacity.toNat
  · obtain ⟨t, hrun, ht⟩ := sdWrite_moves hc hs hin
    obtain ⟨v, hrun', hv⟩ := sdWrite_moves hc hu hin
    exact ⟨true, t, v, hrun, hrun', ht.device.trans hv.device.symm,
      ht.buffer.trans hv.buffer.symm⟩
  · exact ⟨false, s, s, sdWrite_out hin, sdWrite_out hin, rfl, rfl⟩

theorem bootRead_same (hc : c.Faultless) (hs : Sized p c 1 s) (hu : Sized q c 1 s) :
    Same (bootRead p c s) (bootRead q c s) := by
  obtain ⟨b, t, v, hrun, hrun', hdevice, hbuffer, ht, hv⟩ :=
    @sdRead_same c s p 0 1 q s hc hs hu rfl rfl
  unfold bootRead
  rw [run_bind hrun, run_bind hrun']
  cases b with
  | false => exact ⟨.ioError, t, v, rfl, rfl, hdevice, hbuffer⟩
  | true =>
      rw [if_pos rfl, if_pos rfl, run_bind (show (get : Run State) t = some (t, t) from rfl),
        run_bind (show (get : Run State) v = some (v, v) from rfl), ← hbuffer]
      cases c.partitionStart (t.buffer.take sectorSize) with
      | none => exact ⟨.ioError, t, v, rfl, rfl, hdevice, hbuffer⟩
      | some start =>
          by_cases hstart : start ≠ 0
          · simp only []
            rw [if_pos hstart, if_pos hstart]
            obtain ⟨b, t', v', hrun, hrun', hdevice, hbuffer, -, -⟩ :=
              @sdRead_same c t p start.toNat 1 q v hc ht hv hdevice hbuffer
            refine ⟨statusOf b, t', v', ?_, ?_, hdevice, hbuffer⟩
            · rw [run_bind hrun]
              rfl
            · rw [run_bind hrun']
              rfl
          · simp only []
            rw [if_neg hstart, if_neg hstart]
            exact ⟨.success, t, v, rfl, rfl, hdevice, hbuffer⟩

/-- Every request ends alike on both platforms. -/
theorem driver_same (hc : c.Faultless) (hs : Sized p c m.extent s) (hu : Sized q c m.extent s) :
    Same (directMediaDriver p c m s) (directMediaDriver q c m s) := by
  cases hm : m.request with
  | init | uninit | flush | abort =>
      simp only [directMediaDriver, hm]
      exact ⟨.success, s, s, rfl, rfl, rfl, rfl⟩
  | other =>
      simp only [directMediaDriver, hm]
      exact ⟨.ioError, s, s, rfl, rfl, rfl, rfl⟩
  | read | write =>
      have hkind : m.request = .read ∨ m.request = .write := by simp [hm]
      by_cases hin : InDevice c m
      · obtain ⟨t, hrun, ht⟩ := driver_moves hkind hc hs hin
        obtain ⟨v, hrun', hv⟩ := driver_moves hkind hc hu hin
        exact ⟨.success, t, v, hrun, hrun', ht.device.trans hv.device.symm,
          ht.buffer.trans hv.buffer.symm⟩
      · exact ⟨.ioError, s, s, driver_out hkind hin, driver_out hkind hin, rfl, rfl⟩
  | bootRead =>
      simp only [Media.extent, hm] at hs hu
      simp only [directMediaDriver, hm]
      exact bootRead_same hc hs hu
  | bootWrite =>
      simp only [Media.extent, hm] at hs hu
      simp only [directMediaDriver, hm]
      obtain ⟨b, t, v, hrun, hrun', hdevice, hbuffer⟩ :=
        @sdWrite_same c s p m.hiddenSectors.toNat 1 q hc hs hu
      refine ⟨statusOf b, t, v, ?_, ?_, hdevice, hbuffer⟩
      · rw [run_bind hrun]
        rfl
      · rw [run_bind hrun']
        rfl

/-- A transfer succeeds only of sectors that are all on the device, and then moves these and
no others; otherwise it does nothing; and the platforms do not differ. -/
theorem directMediaDriver_sectors (hs : Sized p c m.extent s) :
    (m.request = .read ∨ m.request = .write →
      (¬ InDevice c m → directMediaDriver p c m s = some (.ioError, s)) ∧
      (∀ t, directMediaDriver p c m s = some (.success, t) → InDevice c m) ∧
      (c.Faultless → InDevice c m → ∃ t, directMediaDriver p c m s = some (.success, t) ∧
        Moves s t (m.moved s).1 (m.moved s).2 m.start m.sectors.toNat)) ∧
    (c.Faultless → ∀ q, Sized q c m.extent s →
      Same (directMediaDriver p c m s) (directMediaDriver q c m s)) := by
  refine ⟨fun hm => ⟨driver_out hm, fun t hrun => ?_, fun hc hin => driver_moves hm hc hs hin⟩,
    fun hc q hu => driver_same hc hs hu⟩
  by_contra hout
  rw [driver_out hm hout] at hrun
  cases hrun

/-- One sector into a buffer that is longer. -/
theorem directMediaDriver_sectors_one :
    ∃ t, directMediaDriver .stm32 ⟨2, 2, true, fun _ => none, fun _ => true, fun _ => none⟩
      ⟨.read, 0, 1, 1⟩
      ⟨List.replicate 1024 5, List.replicate 512 0, List.replicate 600 9, []⟩ =
        some (.success, t) := by
  have hsize : (List.replicate 600 (9 : UInt8)).length = 600 := List.length_replicate
  have hs : Sized .stm32 ⟨2, 2, true, fun _ => none, fun _ => true, fun _ => none⟩
      (Media.extent ⟨.read, 0, 1, 1⟩)
      ⟨List.replicate 1024 5, List.replicate 512 0, List.replicate 600 9, []⟩ :=
    ⟨List.length_replicate, List.length_replicate, hsize.symm ▸ (by decide),
      hsize.symm ▸ (by decide)⟩
  have hin : InDevice ⟨2, 2, true, fun _ => none, fun _ => true, fun _ => none⟩
      ⟨.read, 0, 1, 1⟩ := (by decide : 1 + 0 + 1 ≤ min 2 2)
  obtain ⟨t, hrun, -⟩ := ((directMediaDriver_sectors hs).1 (.inl rfl)).2.2
    ⟨rfl, fun _ => rfl, fun _ => rfl⟩ hin
  exact ⟨t, hrun⟩

end SectorDriver
end Libc
end NucleoBase
