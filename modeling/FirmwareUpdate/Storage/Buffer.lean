import FirmwareUpdate.Bytes
import FirmwareUpdate.Topology.SlotId

/-! The buffer that gathers written bytes into granules. A run of writes is sequential, so the
buffer holds one position: a slot and the offset of the granule that is being filled. -/
namespace FirmwareUpdate

/-- Bytes that wait for their granule to be filled. -/
structure GranuleBuffer where
  target : SlotId := ⟨0, 0⟩
  offset : Nat := 0
  granule : Nat := 1
  bytes : Bytes := []
  deriving DecidableEq, Repr

namespace GranuleBuffer

def start (target : SlotId) (offset granule : Nat) : GranuleBuffer := { target, offset, granule }

def isWaiting (b : GranuleBuffer) : Bool := b.bytes.length ≠ 0

def isComplete (b : GranuleBuffer) : Bool := b.bytes.length = b.granule

/-- The offset at which the run goes on. -/
def next (b : GranuleBuffer) : Nat := b.offset + b.bytes.length

def push (b : GranuleBuffer) (byte : UInt8) : GranuleBuffer := { b with bytes := b.bytes ++ [byte] }

/-- Fills the granule with zeros. -/
def padded (b : GranuleBuffer) : GranuleBuffer :=
  { b with bytes := b.bytes ++ List.replicate (b.granule - b.bytes.length) 0 }

def advanced (b : GranuleBuffer) : GranuleBuffer :=
  { b with offset := b.offset + b.granule, bytes := [] }

def dropPending (b : GranuleBuffer) : GranuleBuffer := { b with bytes := [] }

end GranuleBuffer
end FirmwareUpdate
