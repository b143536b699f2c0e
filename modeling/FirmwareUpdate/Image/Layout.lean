import FirmwareUpdate.Cipher.Cbc

/-! Where the parts of an image lie in its slot: the header, then the body, then the digest. The
body of an encrypted image starts with an initialization vector and a coded block of known text. -/
namespace FirmwareUpdate

/-- The known text; a key that does not bring it back is the wrong one. -/
def knownBlock : Bytes :=
  [0x51, 0x42, 0x4F, 0x4F, 0x54, 0x2D, 0x4D, 0x41, 0x47, 0x49, 0x43, 0x2D, 0x42, 0x4C, 0x4B, 0x21]

def knownChecksum : UInt32 := 0xE0D0ED89

/-- Bytes in front of the payload of an encrypted image. -/
def encryptionLead : Nat := Cbc.ivLength + Aes.blockLength

/-- Where the parts of an image are behind its header. -/
structure Layout where
  bodyStart : Nat
  bodyLength : Nat
  digestLength : Nat
  encrypted : Bool
  deriving DecidableEq, Repr

namespace Layout

def digestStart (l : Layout) : Nat := l.bodyStart + l.bodyLength

def totalLength (l : Layout) : Nat := l.digestStart + l.digestLength

def payloadStart (l : Layout) : Nat :=
  if l.encrypted then l.bodyStart + encryptionLead else l.bodyStart

end Layout
end FirmwareUpdate
