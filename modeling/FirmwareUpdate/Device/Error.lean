import FirmwareUpdate.Error

/-! What a device call may answer instead of acting. -/
namespace FirmwareUpdate

/-- What a device may report of a call that fails. -/
inductive DeviceError where
  | notInitialized
  | initFailed
  | outOfBounds
  | unaligned
  | eraseFailed
  | writeFailed
  | readFailed
  | timeout
  | fileNotFound
  | fileError
  | tooManyOpenFiles
  | invalidParameter
  | notSupported
  deriving DecidableEq, Repr

namespace DeviceError

def code : DeviceError → Nat
  | notInitialized => 0x0801
  | initFailed => 0x0802
  | outOfBounds => 0x0810
  | unaligned => 0x0811
  | eraseFailed => 0x0812
  | writeFailed => 0x0813
  | readFailed => 0x0814
  | timeout => 0x0815
  | fileNotFound => 0x0820
  | fileError => 0x0821
  | tooManyOpenFiles => 0x0822
  | invalidParameter => 0x08F0
  | notSupported => 0x08FF

def description : DeviceError → String
  | notInitialized => "not initialized"
  | initFailed => "initialization failed"
  | outOfBounds => "flash address out of bounds"
  | unaligned => "flash write unaligned"
  | eraseFailed => "flash erase failed"
  | writeFailed => "flash write failed"
  | readFailed => "flash read failed"
  | timeout => "flash operation timeout"
  | fileNotFound => "file not found"
  | fileError => "file error"
  | tooManyOpenFiles => "too many open files"
  | invalidParameter => "invalid parameter"
  | notSupported => "not supported"

def message (e : DeviceError) : String := codedMessage e.code e.description

/-- The request is refused for what it asks; a device in order gives this answer too. -/
def isRefusal : DeviceError → Bool
  | outOfBounds | unaligned | eraseFailed | invalidParameter => true
  | _ => false

/-- A device failure as the engine sees it. -/
def toError : DeviceError → Error
  | invalidParameter => .invalidParameters
  | _ => .driverFailure

end DeviceError
end FirmwareUpdate
