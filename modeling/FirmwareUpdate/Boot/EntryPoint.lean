import FirmwareUpdate.Update.Engine

/-! Plausibility of the reset vector: the entry point in the vector table of an application must not
be an erased word and must point into the slot. -/
namespace FirmwareUpdate
variable {n k : Nat}

def blankWord : Nat := 0xFFFFFFFF

/-- Where the reset vector lies in the vector table. -/
def entryOffset : Nat := 4

def checkEntry (vector address size : Nat) : Except Error Unit :=
  if vector ≠ blankWord ∧ address ≤ vector ∧ vector < address + size then .ok ()
  else .error .resetVectorInvalid

namespace Engine

/-- The entry point of the application in a slot, which must be on flash. -/
def entryPoint (slot : SlotId) : Op n k Nat := do
  let e ← get
  let entry ← Action.ofExcept (e.storage.slot? slot)
  match entry.address? with
  | none => Action.fail .unknownSlotType
  | some address => do
    let word ← read slot (e.tuning.tableOffset + entryOffset) 4
    let vector := (Bytes.wordAt word 0).toNat
    Action.ofExcept (checkEntry vector address entry.size)
    return vector

end Engine
end FirmwareUpdate
