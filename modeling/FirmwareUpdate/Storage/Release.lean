import FirmwareUpdate.Storage.State

/-! Bringing devices up, giving them back, and what is done to a memory when a call on its device
fails. -/
namespace FirmwareUpdate.Storage
variable {n k : Nat} {ε α : Type}

/-- Drops the bytes that have not been written. -/
def dropPending : Action (Storage n k) ε Unit :=
  modify fun s => { s with buffer := s.buffer.dropPending }

/-- Closes the file held open for a slot, if there is one. The slot is closed whatever the device
answers; the result is whether the device agreed. -/
def closeSlot (slot : SlotId) (device : Fin k) : Action (Storage n k) ε Bool := do
  match (← get).openFile? slot with
  | none => return true
  | some file => do
    modify (·.forget slot)
    match ← Action.attempt (onStore device (FileLink.close file.handle)) with
    | .ok _ => return true
    | .error _ => return false

/-- Closes the files of slots in turn; the result is whether the device agreed each time. -/
def closeSlots (device : Fin k) : List SlotId → Action (Storage n k) ε Bool
  | [] => return true
  | slot :: rest => do
    let closed ← closeSlot slot device
    let others ← closeSlots device rest
    return closed && others

def slotIds (index : Nat) (memory : Memory n k) : List SlotId :=
  (List.range memory.slots.length).map fun i => ⟨index, i⟩

/-- Closes the files of one memory; a flash memory has none. -/
def closeMemory (index : Nat) (memory : Memory n k) : Action (Storage n k) ε Bool :=
  match memory.device with
  | .flash _ => return true
  | .files device => closeSlots device (slotIds index memory)

/-- Leaves a memory in a known state after a failure: flash is switched off, files are closed. What
the device answers to that is not looked at. -/
def settle (index : Nat) : Action (Storage n k) ε Unit := do
  dropPending
  match (← get).memories[index]? with
  | none => pure ()
  | some memory =>
    match memory.device with
    | .flash device => do
      let _ ← Action.attempt (onFlash device FlashLink.release)
    | .files _ => do
      let _ ← closeMemory index memory

/-- Makes device calls for a memory. A call that fails cleans the memory up. -/
def guarding (index : Nat) (calls : Call n k α) : Op n k α := do
  match ← Action.attempt calls with
  | .ok a => return a
  | .error error => do
    settle index
    Action.fail error.toError

/-- Runs a step for each memory in turn; the result is whether every step agreed. -/
def everyMemory (step : Nat → Memory n k → Action (Storage n k) ε Bool) :
    (index : Nat) → List (Memory n k) → Action (Storage n k) ε Bool
  | _, [] => return true
  | index, memory :: rest => do
    let agreed ← step index memory
    let others ← everyMemory step (index + 1) rest
    return agreed && others

def initMemory (index : Nat) (memory : Memory n k) : Op n k Unit :=
  guarding index <|
    match memory.device with
    | .flash device => onFlash device (do FlashLink.init; FlashLink.awaitReady)
    | .files device => onStore device FileLink.init

def initFrom : (index : Nat) → List (Memory n k) → Op n k Unit
  | _, [] => pure ()
  | index, memory :: rest => do
    initMemory index memory
    initFrom (index + 1) rest

/-- Brings the devices of all memories up, stopping at the first that fails. -/
def init : Op n k Unit := do initFrom 0 (← get).memories

/-- Every slot is closed, even if a device disagrees. -/
def closeFiles : Op n k Unit := do
  if ← everyMemory closeMemory 0 (← get).memories then pure () else Action.fail .driverFailure

def releaseMemory (_index : Nat) (memory : Memory n k) : Action (Storage n k) ε Bool := do
  let answer ← Action.attempt <|
    match memory.device with
    | .flash device => onFlash device FlashLink.release
    | .files device => onStore device FileLink.release
  match answer with
  | .ok _ => return true
  | .error _ => return false

/-- Closes all files and gives every device back, even if a device disagrees. -/
def release : Op n k Unit := do
  dropPending
  let memories := (← get).memories
  let closed ← everyMemory closeMemory 0 memories
  let released ← everyMemory releaseMemory 0 memories
  if closed && released then pure () else Action.fail .driverFailure

end FirmwareUpdate.Storage
