import FirmwareUpdate.Digest.Crc32
import FirmwareUpdate.Error
import FirmwareUpdate.Version

/-! The image header: sixty-four bytes that name an image, give the size of its payload and end in a
checksum of the rest. -/
namespace FirmwareUpdate

/-- The index counts installs; the size is that of the payload. -/
structure Header where
  layoutVersion : UInt32
  index : UInt32
  imageType : UInt8
  size : UInt32
  version : Version
  checksum : UInt32
  deriving DecidableEq, Repr

namespace Header

/-- Bytes of an encoded header. -/
def encodedSize : Nat := 64

/-- Bytes of the longest header a deployment may declare. -/
def sizeLimit : Nat := 256

def supportedLayout : UInt32 := 0x00010000

def applicationType : UInt8 := 1

/-- Bytes in front of the checksum, which are those it covers. -/
def coveredSize : Nat := 0x3C

/-- The bytes in front of the checksum; those between the fields are zero. -/
def coveredBytes (h : Header) : Bytes :=
  Bytes.ofWord h.layoutVersion ++ Bytes.ofWord h.index ++ [h.imageType, 0, 0, 0] ++
    Bytes.ofWord h.size ++ Bytes.ofWord h.version.pack ++ List.replicate 40 0

/-- The checksum is written as it stands. -/
def encode (h : Header) : Bytes := h.coveredBytes ++ Bytes.ofWord h.checksum

/-- Sets the checksum right. -/
def withChecksum (h : Header) : Header := { h with checksum := Crc32.checksum h.coveredBytes }

/-- The header of an application. -/
def forApplication (index size : UInt32) (version : Version) : Header :=
  withChecksum
    { layoutVersion := supportedLayout, index, imageType := applicationType, size, version,
      checksum := 0 }

/-- What the digest of an image takes in before its body. -/
def seed (h : Header) : Bytes := Bytes.ofWord h.checksum

/-- The fields where they stand, unchecked. -/
def fields (raw : Bytes) : Header :=
  { layoutVersion := Bytes.wordAt raw 0x00
    index := Bytes.wordAt raw 0x04
    imageType := raw.getD 0x08 0
    size := Bytes.wordAt raw 0x0C
    version := .unpack (Bytes.wordAt raw 0x10)
    checksum := Bytes.wordAt raw coveredSize }

/-- Accepts the layout and type that are known, a payload that is not empty, and a checksum that is
right for the bytes as they stand. Bytes after the header are not looked at. -/
def decode (raw : Bytes) : Except Error Header :=
  let h := fields raw
  if encodedSize ≤ raw.length ∧ h.layoutVersion = supportedLayout ∧ h.imageType = applicationType ∧
      h.size ≠ 0 ∧ Crc32.checksum (raw.take coveredSize) = h.checksum then .ok h
  else .error .headerInvalid

@[simp] theorem length_coveredBytes (h : Header) : h.coveredBytes.length = coveredSize := rfl

@[simp] theorem length_encode (h : Header) : h.encode.length = encodedSize := rfl

end Header
end FirmwareUpdate
