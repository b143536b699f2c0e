import FirmwareUpdate.Bytes
import FirmwareUpdate.Digest.Keccak

/-! SHA3-256, once as a function of the whole message and once as a sponge that takes the message
in any pieces. -/
namespace FirmwareUpdate.Sha3

open Keccak

/-- Bytes absorbed between two permutations. -/
def rate : Nat := 136

def digestLength : Nat := 32

/-- Eight bytes make a lane, the least significant first. -/
def laneOf (bytes : Bytes) : UInt64 :=
  bytes.foldr (fun byte lane => (lane <<< 8) ||| byte.toUInt64) 0

def bytesOfLane (lane : UInt64) : Bytes :=
  (List.range 8).map fun i => (lane >>> (8 * i).toUInt64).toUInt8

/-- Mixes one block of `rate` bytes into the lanes. -/
def absorbBlock (s : Lanes) (block : Bytes) : Lanes :=
  let lanes := Bytes.pieces 8 17 block
  permute (s.mapIdx fun i lane => lane ^^^ laneOf (lanes.getD i []))

/-- The end of the last block, after a message that fills `used` bytes of it. -/
def padding (used : Nat) : Bytes :=
  if used + 1 = rate then [0x86]
  else 0x06 :: (List.replicate (rate - used - 2) 0 ++ [0x80])

def squeeze (s : Lanes) : Bytes := (s.toList.take 4).flatMap bytesOfLane

/-- The digest of a whole message. -/
def digest (message : Bytes) : Bytes :=
  let padded := message ++ padding (message.length % rate)
  squeeze ((Bytes.wholePieces rate padded).foldl absorbBlock zero)

/-- A digest under way: `pending` are the newest bytes, fewer than a block. -/
structure Sponge where
  lanes : Lanes := zero
  pending : Bytes := []
  deriving DecidableEq

namespace Sponge

def absorb (s : Sponge) (byte : UInt8) : Sponge :=
  let pending := s.pending ++ [byte]
  if pending.length = rate then ⟨absorbBlock s.lanes pending, []⟩ else { s with pending }

def update (s : Sponge) (data : Bytes) : Sponge := data.foldl absorb s

def finish (s : Sponge) : Bytes :=
  squeeze (absorbBlock s.lanes (s.pending ++ padding s.pending.length))

/-- A sponge that takes in the data in two parts ends where one ends that takes them in at once. -/
theorem update_append (s : Sponge) (front back : Bytes) :
    s.update (front ++ back) = (s.update front).update back :=
  List.foldl_append

end Sponge
end FirmwareUpdate.Sha3
