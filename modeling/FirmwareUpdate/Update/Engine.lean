import FirmwareUpdate.Cipher.Key
import FirmwareUpdate.Digest.Hasher
import FirmwareUpdate.Image.Header
import FirmwareUpdate.Image.Layout
import FirmwareUpdate.Log
import FirmwareUpdate.Storage.Access

/-! The update engine: all that one boot owns, which is the storage, the policy, the key and the
cipher, and the log. -/
namespace FirmwareUpdate
variable {n k : Nat}

/-- Bytes of the largest streaming chunk. -/
def chunkLimit : Nat := 1024

/-- Bytes of the largest digest. -/
def digestLimit : Nat := 32

/-- The digest and the header in use, with the sizes that are declared for them. -/
structure Backend where
  algorithm : Algorithm := .crc32
  digestLength : Nat := algorithm.digestLength
  headerLength : Nat := Header.encodedSize
  deriving DecidableEq, Repr

/-- The storage with all that is needed to examine images and to install them. -/
structure Engine (n k : Nat) where
  storage : Storage n k
  policy : Policy
  tuning : Tuning
  key : Key
  backend : Backend
  cipher : Cbc.Cipher := none
  log : Log := {}

namespace Engine

def application? (e : Engine n k) : Except Error SlotId :=
  match e.storage.find? .theApplication with
  | some slot => .ok slot
  | none => .error .invalidParameters

def staged? (e : Engine n k) : Except Error SlotId :=
  match e.storage.find? .anUpdate with
  | some slot => .ok slot
  | none => .error .invalidParameters

/-- The slot that holds a backup and nothing else, when fallback is wanted. -/
def backup? (e : Engine n k) : Option SlotId :=
  if e.policy.fallback then
    (e.storage.slots.find? fun (_, slot) => slot.content = .aBackup).map Prod.fst
  else none

/-- Images in the second memory are encrypted, where the policy says so. -/
def holdsEncrypted (e : Engine n k) (slot : SlotId) : Bool :=
  e.policy.encryptSecond && e.storage.hasTier slot .secondary

/-- Bytes streamed at a time. -/
def chunk (e : Engine n k) : Nat := min e.tuning.chunk chunkLimit

/-- What the engine does. -/
abbrev Op (n k : Nat) := Action (Engine n k) Error

variable {ε α : Type}

def onStorage (act : Action (Storage n k) ε α) : Action (Engine n k) ε α :=
  Action.focus Engine.storage (fun e storage => { e with storage }) act

def note (level : Severity) (tag text : String) : Action (Engine n k) ε Unit :=
  modify fun e => { e with log := e.log.record level tag [text] }

def read (slot : SlotId) (offset length : Nat) : Op n k Bytes :=
  onStorage (Storage.read slot offset length)

def onCipher (act : Action Cbc.Cipher CipherError α) : Op n k α :=
  Action.mapError CipherError.toError
    (Action.focus Engine.cipher (fun e cipher => { e with cipher }) act)

def unloadKey : Action (Engine n k) ε Unit := modify fun e => { e with cipher := none }

/-- Loads the pre-shared key. -/
def loadKey (iv : Bytes) : Op n k Unit := do
  let e ← get
  onCipher (Cbc.Cipher.load e.key.bytes iv)

def decrypt (data : Bytes) : Op n k Bytes := onCipher (Cbc.Cipher.decrypt data)

/-- The header in the bytes that a header is declared to take up. -/
def headerOf (slot : SlotId) : Op n k Header := do
  let raw ← read slot 0 (← get).backend.headerLength
  Action.ofExcept (Header.decode raw)

/-- Gives every device back. -/
def release : Op n k Unit := do
  unloadKey
  let result ← Action.attempt (onStorage Storage.release)
  note .info "boot" "drivers released"
  Action.ofExcept result

end Engine
end FirmwareUpdate
