import FirmwareUpdate.Device.FileLink
import FirmwareUpdate.Device.FlashLink
import FirmwareUpdate.Topology.Content

/-! Memories as they are registered: plans that have been checked against the device they are to be
kept on. -/
namespace FirmwareUpdate
variable {n k : Nat}

/-- The devices at hand: `n` flash devices and `k` file stores. -/
structure Devices (n k : Nat) where
  flashes : Vector FlashLink n
  stores : Vector FileLink k

/-- One of the devices. -/
inductive DeviceId (n k : Nat) where
  | flash (device : Fin n)
  | files (device : Fin k)
  deriving DecidableEq, Repr

namespace DeviceId

def medium : DeviceId n k → Medium
  | flash _ => .flash
  | files _ => .fileSystem

end DeviceId

namespace Devices

def geometry (d : Devices n k) (device : Fin n) : Geometry := (d.flashes.get device).device.geometry

/-- Bytes a device takes at a time. -/
def granule (d : Devices n k) : DeviceId n k → Nat
  | .flash device => (d.geometry device).granule
  | .files device => (d.stores.get device).device.granule

end Devices

/-- A slot with what it holds; `memory` is the index its memory was registered under. -/
structure Slot extends SlotPlan where
  content : Content
  memory : Nat
  deriving DecidableEq, Repr

def Slot.address? (s : Slot) : Option Nat := s.location.address?

/-- A device cut into slots. -/
structure Memory (n k : Nat) where
  tier : Tier
  device : DeviceId n k
  slots : List Slot
  deriving DecidableEq, Repr

/-- The bytes of the largest granule that writes can be gathered into. -/
def granuleLimit : Nat := 256

namespace Memory

/-- A region is not empty and lies inside the device; it starts on a sector, and ends on one or with
the device. -/
def regionFits (g : Geometry) (address size : Nat) : Bool :=
  size ≠ 0 && g.contains address size && g.isSector address &&
    (address + size = g.stop || g.isSector (address + size))

/-- Whether a slot may be kept on a device. -/
def checkSlot (d : Devices n k) (device : DeviceId n k) (slot : SlotPlan) : Except Error Unit :=
  match device, slot.location with
  | .flash device, .flash address =>
    if regionFits (d.geometry device) address slot.size then .ok () else .error .invalidAddress
  | .files _, .file _ =>
    if slot.size ≠ 0 ∧ slot.size % d.granule device = 0 then .ok ()
    else .error .invalidParameters
  | _, _ => .error .unknownSlotType

/-- Checks the slots in turn, each against the device and then against those before it. -/
def registerSlots (d : Devices n k) (device : DeviceId n k) (index : Nat) (tier : Tier)
    (policy : Policy) : (earlier later : List SlotPlan) → Except Error (List Slot)
  | _, [] => .ok []
  | earlier, slot :: later => do
    checkSlot d device slot
    if earlier.any (·.meets slot) then .error .slotsOverlap
    else do
      let rest ← registerSlots d device index tier policy (earlier ++ [slot]) later
      let content := Content.ofPosition tier earlier.length policy
      return { slot with content, memory := index } :: rest

/-- Checks a memory against its device. The primary memory is always flash. -/
def register (d : Devices n k) (index : Nat) (plan : MemoryPlan) (device : DeviceId n k)
    (policy : Policy) : Except Error (Memory n k) :=
  if memoryLimit ≤ index ∨ plan.slots = [] then .error .invalidParameters
  else if device.medium ≠ plan.medium then .error .unknownMemoryType
  else if plan.tier = .primary ∧ plan.medium ≠ .flash then .error .unknownMemoryType
  else if d.granule device = 0 ∨ granuleLimit < d.granule device then .error .invalidParameters
  else do
    let slots ← registerSlots d device index plan.tier policy [] plan.slots
    return { tier := plan.tier, device, slots }

end Memory
end FirmwareUpdate
