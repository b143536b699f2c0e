import FirmwareUpdate.Bytes
import FirmwareUpdate.Error

/-! What is planned before a boot: the memories and the slots on them, the pre-shared key, the
policy and the tuning. -/
namespace FirmwareUpdate

/-- Which of the two memories it is. -/
inductive Tier where
  | primary
  | secondary
  deriving DecidableEq, Repr

/-- What a memory is kept in. -/
inductive Medium where
  | flash
  | fileSystem
  deriving DecidableEq, Repr

/-- Where a slot starts. -/
inductive Location where
  | flash (address : Nat)
  | file (path : String)
  deriving DecidableEq, Repr

namespace Location

def medium : Location → Medium
  | flash _ => .flash
  | file _ => .fileSystem

def address? : Location → Option Nat
  | flash address => some address
  | file _ => none

end Location

/-- A slot as it is asked for. -/
structure SlotPlan where
  location : Location
  size : Nat
  deriving DecidableEq, Repr

namespace SlotPlan

def medium (s : SlotPlan) : Medium := s.location.medium

/-- Two regions share an address, or two files a path. -/
def meets (a b : SlotPlan) : Bool :=
  match a.location, b.location with
  | .flash start, .flash start' => start < start' + b.size ∧ start' < start + a.size
  | .file path, .file path' => path = path'
  | _, _ => false

end SlotPlan

/-- Memories a topology can have. -/
def memoryLimit : Nat := 2

/-- Slots a memory can have. -/
def slotLimit : Nat := 3

/-- The position of a slot decides what it holds. -/
structure MemoryPlan where
  tier : Tier
  medium : Medium
  slots : List SlotPlan := []
  slots_le : slots.length ≤ slotLimit := by decide
  deriving DecidableEq, Repr

namespace MemoryPlan

def ofSlots (tier : Tier) (medium : Medium) (slots : List SlotPlan) : Except Error MemoryPlan :=
  if slots_le : slots.length ≤ slotLimit then .ok { tier, medium, slots, slots_le }
  else .error .invalidParameters

def addSlot (m : MemoryPlan) (slot : SlotPlan) : Except Error MemoryPlan :=
  ofSlots m.tier m.medium (m.slots ++ [slot])

end MemoryPlan

/-- Update images may be staged in a second memory; a backup may be kept to go back to; a new image
may be required to have a newer version too; images in the second memory may be encrypted. -/
structure Policy where
  secondMemory : Bool := false
  fallback : Bool := false
  forwardOnly : Bool := false
  encryptSecond : Bool := false
  deriving DecidableEq, Repr

/-- Where the vector table lies in the application slot, and how many bytes are streamed at a
time. -/
structure Tuning where
  tableOffset : Nat := 0
  chunk : Nat := 512
  deriving DecidableEq, Repr

/-- The first memory is the primary one. -/
structure Plan where
  memories : List MemoryPlan
  memories_le : memories.length ≤ memoryLimit := by decide
  key : Bytes := []
  policy : Policy := {}
  tuning : Tuning := {}
  deriving DecidableEq, Repr

namespace Plan

def ofPrimary (primary : MemoryPlan) (policy : Policy) : Plan :=
  { memories := [primary], memories_le := by simp [memoryLimit], policy }

def addMemory (p : Plan) (memory : MemoryPlan) : Except Error Plan :=
  if memories_le : (p.memories ++ [memory]).length ≤ memoryLimit then
    .ok { p with memories := p.memories ++ [memory], memories_le }
  else .error .invalidParameters

/-- Streaming goes by whole cipher blocks. -/
def chunkUnit : Nat := 16

/-- The tiers are in order, and there is a second memory exactly when the policy asks for one. -/
def tiersFit (p : Plan) : Bool :=
  match p.memories with
  | [] => false
  | [first] => first.tier = .primary && !p.policy.secondMemory
  | first :: second :: _ =>
    first.tier = .primary && second.tier = .secondary && p.policy.secondMemory

/-- What can be checked without the devices: the tiers, and that the chunk size is a positive number
of cipher blocks. -/
def check (p : Plan) : Except Error Unit :=
  if p.tiersFit ∧ p.tuning.chunk ≠ 0 ∧ p.tuning.chunk % chunkUnit = 0 then .ok ()
  else .error .invalidParameters

end Plan
end FirmwareUpdate
