import FirmwareUpdate.Text.Numeral

/-! What may go wrong in an update, grouped by what it concerns: the topology, a device, the
content of an image, or the boot as a whole. -/
namespace FirmwareUpdate

/-- What a request may be answered with when it fails. -/
inductive Error where
  | invalidParameters
  | invalidAddress
  | slotsOverlap
  | unknownMemoryType
  | unknownSlotType
  | driverFailure
  | bufferTooSmall
  | headerInvalid
  | invalidLength
  | digestMismatch
  | wrongKey
  | cryptoFailure
  | resetVectorInvalid
  | noValidImage
  deriving DecidableEq, Repr

/-- The common form of an error message: the code in four hexadecimal digits, then the words. -/
def codedMessage (code : Nat) (description : String) : String :=
  "[0x" ++ Text.paddedHex 4 code ++ "] " ++ description

namespace Error

/-- The high byte is the group. -/
def code : Error → Nat
  | invalidParameters => 0x0101
  | invalidAddress => 0x0102
  | slotsOverlap => 0x0103
  | unknownMemoryType => 0x0104
  | unknownSlotType => 0x0105
  | driverFailure => 0x0201
  | bufferTooSmall => 0x0202
  | headerInvalid => 0x0301
  | invalidLength => 0x0302
  | digestMismatch => 0x0303
  | wrongKey => 0x0304
  | cryptoFailure => 0x0305
  | resetVectorInvalid => 0x0401
  | noValidImage => 0x0402

def description : Error → String
  | invalidParameters => "invalid parameters"
  | invalidAddress => "invalid address"
  | slotsOverlap => "slots overlap"
  | unknownMemoryType => "unknown memory type"
  | unknownSlotType => "unknown slot type"
  | driverFailure => "driver failure"
  | bufferTooSmall => "buffer too small"
  | headerInvalid => "image header invalid"
  | invalidLength => "invalid image length"
  | digestMismatch => "digest mismatch"
  | wrongKey => "wrong decryption key"
  | cryptoFailure => "crypto failure"
  | resetVectorInvalid => "reset vector invalid"
  | noValidImage => "no valid image"

def message (e : Error) : String := codedMessage e.code e.description

/-- The error rejects one image and leaves another to be tried. -/
def concernsImage : Error → Bool
  | headerInvalid | invalidLength | digestMismatch | wrongKey | cryptoFailure
  | resetVectorInvalid => true
  | _ => false

def concernsTopology : Error → Bool
  | invalidParameters | invalidAddress | slotsOverlap | unknownMemoryType
  | unknownSlotType => true
  | _ => false

end Error
end FirmwareUpdate
