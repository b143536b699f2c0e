import FirmwareUpdate.Digest.Hasher
import FirmwareUpdate.Image.Header
import FirmwareUpdate.Image.Layout

/-! Writing an image as it is stored. The digest is seeded with the header's checksum and covers the
body as it lies on the media. -/
namespace FirmwareUpdate

/-- What an image is encrypted with. -/
structure Wrapping where
  key : Bytes
  iv : Vector UInt8 16
  deriving DecidableEq

/-- An image as it is to be built: what it carries, and how it is wrapped. -/
structure Image where
  header : Header
  payload : Bytes
  wrapping : Option Wrapping := none
  deriving DecidableEq

namespace Image

/-- A plain application image. -/
def ofPayload (index : UInt32) (version : Version) (payload : Bytes) : Image :=
  { header := .forApplication index (UInt32.ofNat payload.length) version, payload }

/-- The known block and the payload make one chain. -/
def wrapped (w : Wrapping) (payload : Bytes) : Except CipherError Bytes := do
  let stream ← Cbc.Stream.start w.key w.iv.toList
  return w.iv.toList ++ (← stream.encryptWhole (knownBlock ++ payload))

/-- What lies between the header and the digest. -/
def body (image : Image) : Except Error Bytes :=
  match image.wrapping with
  | none => .ok image.payload
  | some w => (wrapped w image.payload).mapError CipherError.toError

def encode (image : Image) (algorithm : Algorithm := .crc32) : Except Error Bytes := do
  let body ← image.body
  return image.header.encode ++ body ++ algorithm.digest (image.header.seed ++ body)

end Image
end FirmwareUpdate
