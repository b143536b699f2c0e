import FirmwareUpdate.Storage.Buffer
import FirmwareUpdate.Topology.Memory

/-! The storage of a boot: its devices, the memories registered on them, the files held open for
their slots, and the buffer of written bytes. The memories never change once they are added. -/
namespace FirmwareUpdate
variable {n k : Nat}

/-- A file that is held open for a slot. -/
structure OpenFile where
  slot : SlotId
  handle : Nat
  mode : FileMode
  deriving DecidableEq, Repr

/-- All memories on their devices, with the files that are open and the bytes that are pending. -/
structure Storage (n k : Nat) where
  devices : Devices n k
  memories : List (Memory n k) := []
  openFiles : List OpenFile := []
  buffer : GranuleBuffer := {}

namespace Storage

def addMemory (s : Storage n k) (memory : Memory n k) : Except Error (Storage n k) :=
  if s.memories.length < memoryLimit then .ok { s with memories := s.memories ++ [memory] }
  else .error .invalidParameters

/-- Forgets everything but the devices. -/
def clear (s : Storage n k) : Storage n k := { devices := s.devices }

/-- Every slot with its position, in order. -/
def slots (s : Storage n k) : List (SlotId × Slot) :=
  s.memories.zipIdx.flatMap fun (memory, m) =>
    memory.slots.zipIdx.map fun (slot, i) => (⟨m, i⟩, slot)

/-- The first slot that holds at least this content. -/
def find? (s : Storage n k) (content : Content) : Option SlotId :=
  (s.slots.find? fun (_, slot) => slot.content.includes content).map Prod.fst

def count (s : Storage n k) (content : Content) : Nat :=
  s.slots.countP fun (_, slot) => slot.content.includes content

/-- The memory and the slot at a position. -/
def lookup? (s : Storage n k) (slot : SlotId) : Except Error (Memory n k × Slot) :=
  match s.memories[slot.memory]? with
  | none => .error .invalidParameters
  | some memory =>
    match memory.slots[slot.index]? with
    | none => .error .invalidParameters
    | some entry => .ok (memory, entry)

def slot? (s : Storage n k) (slot : SlotId) : Except Error Slot := (s.lookup? slot).map Prod.snd

def tier? (s : Storage n k) (slot : SlotId) : Except Error Tier :=
  (s.lookup? slot).map fun (memory, _) => memory.tier

/-- The slot exists and its memory is of this tier. -/
def hasTier (s : Storage n k) (slot : SlotId) (tier : Tier) : Bool :=
  match s.tier? slot with
  | .ok actual => actual = tier
  | .error _ => false

/-- Bytes written to the slot at a time. -/
def granule? (s : Storage n k) (slot : SlotId) : Except Error Nat :=
  (s.lookup? slot).map fun (memory, _) => s.devices.granule memory.device

def pending (s : Storage n k) : Nat := s.buffer.bytes.length

def openFile? (s : Storage n k) (slot : SlotId) : Option OpenFile :=
  s.openFiles.find? (·.slot = slot)

def holdsFile (s : Storage n k) (slot : SlotId) : Bool := (s.openFile? slot).isSome

def forget (s : Storage n k) (slot : SlotId) : Storage n k :=
  { s with openFiles := s.openFiles.filter (·.slot ≠ slot) }

def remember (s : Storage n k) (file : OpenFile) : Storage n k :=
  { s with openFiles := file :: s.openFiles }

/-- Device calls made from the storage. -/
abbrev Call (n k : Nat) := Action (Storage n k) DeviceError

/-- What the storage does for the engine. -/
abbrev Op (n k : Nat) := Action (Storage n k) Error

variable {α : Type}

def onFlash (device : Fin n) (call : FlashLink.Call α) : Call n k α :=
  Action.focus (fun s => s.devices.flashes.get device)
    (fun s link => { s with devices.flashes := s.devices.flashes.set device link }) call

def onStore (device : Fin k) (call : FileLink.Call α) : Call n k α :=
  Action.focus (fun s => s.devices.stores.get device)
    (fun s link => { s with devices.stores := s.devices.stores.set device link }) call

end Storage
end FirmwareUpdate
