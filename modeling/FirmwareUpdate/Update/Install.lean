import FirmwareUpdate.Update.Examine

/-! Installing a valid image in the application slot in one streaming pass. The installed image is
plain: its header is that of the source, its digest covers the payload in the clear. -/
namespace FirmwareUpdate.Engine
variable {n k : Nat}

def write (slot : SlotId) (offset : Nat) (data : Bytes) (mode : Storage.WriteMode) : Op n k Unit :=
  onStorage (Storage.write slot offset data mode)

/-- Copies a valid running image to the backup slot before it is replaced, unless the backup is the
source, is to be encrypted, or is too small. -/
def backUp (application source : SlotId) : Op n k Unit := do
  match (← get).backup? with
  | none => pure ()
  | some backup =>
    if backup = source ∨ (← get).holdsEncrypted backup then
      note .debug "transfer" ("backup copy to " ++ backup.label ++ " skipped")
    else
      match ← Action.attempt (examine application) with
      | .error _ => note .warn "transfer" "running image invalid, no backup taken"
      | .ok header => do
        let length := (← layout application header).totalLength
        let entry ← Action.ofExcept ((← get).storage.slot? backup)
        if entry.size < length then
          note .warn "transfer" ("running image does not fit " ++ backup.label)
        else do
          onStorage (Storage.erase backup 0 length)
          onStorage (Storage.copy application backup length)
          note .info "transfer" ("running image backed up to " ++ backup.label ++ " (" ++
            Text.decimal length ++ " bytes)")

/-- Streams parts of a payload: each is read, decrypted, hashed and written. -/
def streamSpans (source target : SlotId) (layout : Layout) : List Span → Hasher → Op n k Hasher
  | [], hasher => return hasher
  | span :: rest, hasher => do
    let stored ← read source (layout.payloadStart + span.start) span.length
    let data ← if layout.encrypted then decrypt stored else pure stored
    write target (layout.bodyStart + span.start) data .buffered
    streamSpans source target layout rest (hasher.update data)

/-- Loads the key and decrypts the known block, which starts the chain but is not installed. -/
def openPayload (source : SlotId) (layout : Layout) : Op n k Unit :=
  if layout.encrypted then do
    let iv ← read source layout.bodyStart Cbc.ivLength
    let coded ← read source (layout.bodyStart + Cbc.ivLength) Aes.blockLength
    loadKey iv
    let _ ← decrypt coded
  else pure ()

/-- Examines the source, keeps the running image, and then replaces it. Nothing is erased before the
source is known to be valid and to fit. -/
def replace (source target : SlotId) : Op n k Unit := do
  let header ← examine source
  let layout ← layout source header
  let e ← get
  let payload := header.size.toNat
  let length := e.backend.headerLength + payload + e.backend.digestLength
  let entry ← Action.ofExcept (e.storage.slot? target)
  if entry.size < length then Action.fail .invalidLength
  else do
    if e.policy.fallback then backUp target source else pure ()
    onStorage (Storage.erase target 0 length)
    let raw ← read source 0 e.backend.headerLength
    write target 0 raw .buffered
    openPayload source layout
    let hasher ← streamSpans source target layout (spans e.chunk payload)
      ((Hasher.start e.backend.algorithm).update header.seed)
    write target (e.backend.headerLength + payload) hasher.value .force
    note .info "transfer" (target.label ++ " installed from " ++ source.label ++ ": index " ++
      Text.decimal header.index.toNat ++ " (" ++ Text.decimal payload ++ " bytes)")

/-- Installs the image of another slot in the application slot. Whatever happens, the key does not
stay loaded, and a failure leaves nothing buffered. -/
def install (source : SlotId) : Op n k Unit := do
  let target ← Action.ofExcept (← get).application?
  if source = target then Action.fail .invalidParameters
  else do
    note .info "transfer" (source.label ++ " -> " ++ target.label)
    let result ← Action.attempt (replace source target)
    unloadKey
    match result with
    | .ok _ => pure ()
    | .error error => do
      onStorage Storage.dropPending
      note .error "transfer" ("aborted: " ++ error.message)
      Action.fail error

end FirmwareUpdate.Engine
