import FirmwareUpdate.Bytes
import FirmwareUpdate.Cipher.Error
import FirmwareUpdate.Text.Numeral

/-! The pre-shared key of encrypted images: none at all, or the key of an AES variant. -/
namespace FirmwareUpdate

/-- The key that payloads are wrapped with. There is none if it has no bytes. -/
structure Key where
  bytes : Bytes := []
  valid : bytes.length ∈ [0, 16, 24, 32] := by decide
  deriving DecidableEq

namespace Key

/-- Bytes of the longest key. -/
def sizeLimit : Nat := 32

def empty : Key := {}

def ofBytes (bytes : Bytes) : Except CipherError Key :=
  if valid : bytes.length ∈ [0, 16, 24, 32] then .ok { bytes, valid } else .error .invalidKey

def size (k : Key) : Nat := k.bytes.length

def isEmpty (k : Key) : Bool := k.size = 0

/-- What a key shows of itself is its length. -/
def label (k : Key) : String := "PresharedKey(" ++ Text.decimal k.size ++ " bytes)"

end Key
end FirmwareUpdate
