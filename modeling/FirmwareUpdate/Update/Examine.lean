import FirmwareUpdate.Update.Engine

/-! Examining the image in a slot. It is valid if its header parses, it fits the slot, the key is
the right one where it is encrypted, and its digest is that of the header's checksum and the body as
stored. -/
namespace FirmwareUpdate.Engine
variable {n k : Nat}

/-- Where the image with this header lies in a slot. The payload of an encrypted image is a whole
number of cipher blocks. -/
def layout? (e : Engine n k) (slot : SlotId) (header : Header) : Except Error Layout := do
  let encrypted := e.holdsEncrypted slot
  let payload := header.size.toNat
  if encrypted ∧ payload % Aes.blockLength ≠ 0 then throw .invalidLength
  else do
    let entry ← e.storage.slot? slot
    let layout : Layout :=
      { bodyStart := e.backend.headerLength
        bodyLength := if encrypted then payload + encryptionLead else payload
        digestLength := e.backend.digestLength
        encrypted }
    if entry.size < layout.totalLength then throw .invalidLength else return layout

def layout (slot : SlotId) (header : Header) : Op n k Layout := do
  Action.ofExcept ((← get).layout? slot header)

/-- Feeds the parts of a slot to a hasher, in turn. -/
def hashSpans (slot : SlotId) (offset : Nat) : List Span → Hasher → Op n k Hasher
  | [], hasher => return hasher
  | span :: rest, hasher => do
    let data ← read slot (offset + span.start) span.length
    hashSpans slot offset rest (hasher.update data)

/-- The digest of the seed and then a part of a slot. -/
def digestPart (slot : SlotId) (seed : Bytes) (offset length : Nat) : Op n k Bytes := do
  let e ← get
  let hasher ← hashSpans slot offset (spans e.chunk length)
    ((Hasher.start e.backend.algorithm).update seed)
  return hasher.value

/-- Decrypts the known block with the pre-shared key. The key does not stay loaded. -/
def checkKey (slot : SlotId) (layout : Layout) : Op n k Unit := do
  let iv ← read slot layout.bodyStart Cbc.ivLength
  let coded ← read slot (layout.bodyStart + Cbc.ivLength) Aes.blockLength
  let result ← Action.attempt do
    loadKey iv
    decrypt coded
  unloadKey
  let block ← Action.ofExcept result
  if Crc32.checksum block = knownChecksum then pure () else Action.fail .wrongKey

def inspect (slot : SlotId) : Op n k Header := do
  let header ← headerOf slot
  let layout ← layout slot header
  if layout.encrypted then checkKey slot layout else pure ()
  let computed ← digestPart slot header.seed layout.bodyStart layout.bodyLength
  let stored ← read slot layout.digestStart computed.length
  if sameBytes computed stored then return header else Action.fail .digestMismatch

/-- Examines the image in a slot and notes the result. -/
def examine (slot : SlotId) : Op n k Header := do
  note .debug "verify" ("checking " ++ slot.label)
  match ← Action.attempt (inspect slot) with
  | .ok header => do
    note .info "verify" (slot.label ++ " valid: index " ++ Text.decimal header.index.toNat ++ " " ++
      header.version.render ++ " (" ++ Text.decimal header.size.toNat ++ " bytes)")
    return header
  | .error error => do
    note .warn "verify" (slot.label ++ " rejected: " ++ error.message)
    Action.fail error

end FirmwareUpdate.Engine
