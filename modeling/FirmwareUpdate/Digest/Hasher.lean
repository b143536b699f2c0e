import FirmwareUpdate.Action
import FirmwareUpdate.Cipher.Error
import FirmwareUpdate.Digest.Crc32
import FirmwareUpdate.Digest.Sha3

/-! The digests an image may carry, and a hasher that takes its data in any pieces. -/
namespace FirmwareUpdate

/-- The ways to seal an image. -/
inductive Algorithm where
  | crc32
  | sha3
  deriving DecidableEq, Repr

namespace Algorithm

def digestLength : Algorithm → Nat
  | crc32 => 4
  | sha3 => Sha3.digestLength

/-- The digest of all of the data; a checksum is written with its low byte first. -/
def digest : Algorithm → Bytes → Bytes
  | crc32, data => Bytes.ofWord (Crc32.checksum data)
  | sha3, data => Sha3.digest data

end Algorithm

/-- A digest under way. -/
inductive Hasher where
  /-- There is no register until one is asked for or data come in. -/
  | crc32 (register : Option UInt32)
  | sha3 (sponge : Sha3.Sponge)

namespace Hasher

/-- A hasher as it is made, and as it is left once a digest has been taken. -/
def start : Algorithm → Hasher
  | .crc32 => .crc32 none
  | .sha3 => .sha3 {}

def algorithm : Hasher → Algorithm
  | crc32 _ => .crc32
  | sha3 _ => .sha3

def update : Hasher → Bytes → Hasher
  | crc32 register, data => crc32 (some (Crc32.update (register.getD Crc32.initial) data))
  | sha3 sponge, data => sha3 (sponge.update data)

/-- The digest of what has been absorbed so far. -/
def value : Hasher → Bytes
  | crc32 none => Bytes.ofWord (Crc32.checksum [])
  | crc32 (some register) => Bytes.ofWord (Crc32.finish register)
  | sha3 sponge => sponge.finish

/-- Drops what has been absorbed. -/
def restart : Hasher → Hasher
  | crc32 _ => crc32 (some Crc32.initial)
  | sha3 _ => sha3 {}

/-- Starts afresh. -/
def reset : Action Hasher CipherError Unit := modify restart

def absorb (data : Bytes) : Action Hasher CipherError Unit := modify (update · data)

/-- Writes the digest to the front of `out` and starts afresh; the answer is the number of bytes
written and the buffer. A buffer that is too short is refused and nothing is lost. -/
def finishInto (out : Bytes) : Action Hasher CipherError (Nat × Bytes) := do
  let h ← get
  let size := h.algorithm.digestLength
  if out.length < size then Action.fail .bufferTooSmall
  else do
    set (start h.algorithm)
    return (size, Bytes.splice out 0 h.value)

end Hasher

/-- Compares without an early exit: the differences of all bytes are collected first. Strings of
different lengths are never equal. -/
def sameBytes (a b : Bytes) : Bool :=
  a.length = b.length && (List.zipWith (· ^^^ ·) a b).foldl (· ||| ·) 0 = 0

end FirmwareUpdate
