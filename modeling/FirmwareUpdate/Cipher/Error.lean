import FirmwareUpdate.Error

/-! What a digest or cipher operation may refuse. -/
namespace FirmwareUpdate

/-- What may be wrong with a call on the cipher. -/
inductive CipherError where
  | invalidKey
  | invalidIv
  | invalidLength
  | notInitialized
  | bufferTooSmall
  deriving DecidableEq, Repr

namespace CipherError

def code : CipherError → Nat
  | invalidKey => 0x0901
  | invalidIv => 0x0902
  | invalidLength => 0x0903
  | notInitialized => 0x0904
  | bufferTooSmall => 0x0905

def description : CipherError → String
  | invalidKey => "invalid key"
  | invalidIv => "invalid IV"
  | invalidLength => "data not block aligned"
  | notInitialized => "cipher not initialized"
  | bufferTooSmall => "buffer too small"

def message (e : CipherError) : String := codedMessage e.code e.description

/-- A refusal as the engine sees it. -/
def toError : CipherError → Error
  | invalidKey => .wrongKey
  | invalidLength => .invalidLength
  | bufferTooSmall => .bufferTooSmall
  | invalidIv | notInitialized => .cryptoFailure

end CipherError
end FirmwareUpdate
