import FirmwareUpdate.Bytes.Span
import FirmwareUpdate.Storage.Release

/-! Reading, writing, erasing and copying by slot, whatever the slot is kept on. Written bytes are
gathered until a granule is full, which is then written in one device call. -/
namespace FirmwareUpdate.Storage
variable {n k : Nat}

/-- Whether a partial granule is kept back or filled with zeros and written. -/
inductive WriteMode where
  | buffered
  | force
  deriving DecidableEq, Repr

def lookup (slot : SlotId) : Op n k (Memory n k × Slot) := do
  Action.ofExcept ((← get).lookup? slot)

def requireInside (slot : Slot) (offset length : Nat) : Op n k Unit :=
  if offset + length ≤ slot.size then pure () else Action.fail .invalidLength

def openFor (slot : SlotId) (device : Fin k) (path : String) (mode : FileMode) : Call n k Nat := do
  let handle ← onStore device (FileLink.openFile path mode)
  modify (·.remember { slot, handle, mode })
  return handle

/-- The handle of a slot, opened on first use. A handle for reading is closed and opened again when
writing needs it. -/
def handleFor (slot : SlotId) (device : Fin k) (path : String) (mode : FileMode) :
    Call n k Nat := do
  match (← get).openFile? slot with
  | none => openFor slot device path mode
  | some file =>
    if file.mode = .readWrite ∨ mode = .read then return file.handle
    else do
      modify (·.forget slot)
      onStore device (FileLink.close file.handle)
      openFor slot device path mode

def readFile (slot : SlotId) (device : Fin k) (path : String) (offset length : Nat) :
    Call n k Bytes := do
  let handle ← handleFor slot device path .read
  let bytes ← onStore device (FileLink.read handle offset length)
  return Bytes.extend bytes length

/-- Bytes past the end of a file read as erased. -/
def read (slot : SlotId) (offset length : Nat) : Op n k Bytes := do
  let (memory, entry) ← lookup slot
  requireInside entry offset length
  match memory.device, entry.location with
  | .flash device, .flash address => do
    let start ← Action.word (address + offset)
    guarding slot.memory (onFlash device (FlashLink.read start length))
  | .files device, .file path => guarding slot.memory (readFile slot device path offset length)
  | _, _ => Action.fail .unknownSlotType

def writeFile (slot : SlotId) (device : Fin k) (path : String) (offset : Nat) (data : Bytes) :
    Call n k Unit := do
  let handle ← handleFor slot device path .readWrite
  onStore device (FileLink.write handle offset data)

/-- Writes the buffered granule. -/
def writeOut : Op n k Unit := do
  let buffer := (← get).buffer
  let (memory, entry) ← lookup buffer.target
  if entry.size < buffer.offset + buffer.granule then do
    dropPending
    Action.fail .invalidLength
  else do
    match memory.device, entry.location with
    | .flash device, .flash address => do
      let start ← Action.word (address + buffer.offset)
      guarding buffer.target.memory <| onFlash device do
        FlashLink.write start buffer.bytes
        FlashLink.awaitReady
    | .files device, .file path =>
      guarding buffer.target.memory
        (writeFile buffer.target device path buffer.offset buffer.bytes)
    | _, _ => Action.fail .unknownSlotType
    modify fun s => { s with buffer := s.buffer.advanced }

/-- Goes on with the pending run, or starts one on a granule of the slot. -/
def continueRun (slot : SlotId) (memory : Memory n k) (offset : Nat) : Op n k Unit := do
  let s ← get
  if s.buffer.isWaiting then
    if s.buffer.target = slot ∧ s.buffer.next = offset then pure ()
    else Action.fail .invalidParameters
  else
    let granule := s.devices.granule memory.device
    if offset % granule = 0 then set { s with buffer := .start slot offset granule }
    else Action.fail .invalidAddress

def pushByte (byte : UInt8) : Op n k Unit := do
  modify fun s => { s with buffer := s.buffer.push byte }
  if (← get).buffer.isComplete then writeOut else pure ()

def pushBytes : Bytes → Op n k Unit
  | [] => pure ()
  | byte :: rest => do
    pushByte byte
    pushBytes rest

/-- Fills a partial granule with zeros and writes it. -/
def forceOut : Op n k Unit := do
  if (← get).buffer.isWaiting then do
    modify fun s => { s with buffer := s.buffer.padded }
    writeOut
  else pure ()

def write (slot : SlotId) (offset : Nat) (data : Bytes) (mode : WriteMode) : Op n k Unit := do
  let (memory, entry) ← lookup slot
  requireInside entry offset data.length
  continueRun slot memory offset
  pushBytes data
  match mode with
  | .buffered => pure ()
  | .force => forceOut

def eraseFile (slot : SlotId) (device : Fin k) (path : String) (offset length : Nat) :
    Call n k Unit := do
  let handle ← handleFor slot device path .readWrite
  onStore device (FileLink.erase handle offset length)

/-- Flash is erased by whole sectors, up to the one that holds the last byte. -/
def erase (slot : SlotId) (offset length : Nat) : Op n k Unit := do
  let (memory, entry) ← lookup slot
  requireInside entry offset length
  if length = 0 then pure ()
  else
    match memory.device, entry.location with
    | .flash device, .flash address => do
      let start ← Action.word (address + offset)
      let geometry := (← get).devices.geometry device
      if geometry.isSector start then
        guarding slot.memory
          (onFlash device (FlashLink.eraseFrom (geometry.sectorsFor length) start))
      else Action.fail .invalidAddress
    | .files device, .file path => guarding slot.memory (eraseFile slot device path offset length)
    | _, _ => Action.fail .unknownSlotType

/-- Bytes copied at a time. -/
def copyChunk : Nat := 256

def copySpans (source target : SlotId) : List Span → Op n k Unit
  | [] => pure ()
  | span :: rest => do
    let bytes ← read source span.start span.length
    write target span.start bytes .buffered
    copySpans source target rest

/-- Copies the front of a slot to the front of another one, which has been erased. -/
def copy (source target : SlotId) (length : Nat) : Op n k Unit := do
  if source = target then Action.fail .invalidParameters
  else do
    let (_, entry) ← lookup source
    requireInside entry 0 length
    let (_, entry) ← lookup target
    requireInside entry 0 length
    copySpans source target (spans copyChunk length)
    write target length [] .force

end FirmwareUpdate.Storage
