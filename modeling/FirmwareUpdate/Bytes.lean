/-! Byte strings and the two accesses a device makes to them: a slice read out of the middle and
a patch laid over the middle. -/
namespace FirmwareUpdate

abbrev Bytes := List UInt8

namespace Bytes

def slice (data : Bytes) (start length : Nat) : Bytes := (data.drop start).take length

/-- The bytes from `start` on give way to `patch`. -/
def splice (data : Bytes) (start : Nat) (patch : Bytes) : Bytes :=
  data.take start ++ patch ++ data.drop (start + patch.length)

/-- Erased bytes have every bit set. -/
def blank (length : Nat) : Bytes := List.replicate length 0xFF

/-- Grows to at least `length` with erased bytes; a longer string is kept. -/
def extend (data : Bytes) (length : Nat) : Bytes := data ++ blank (length - data.length)

/-- The first `count` pieces of `size` bytes each. -/
def pieces (size : Nat) : (count : Nat) → Bytes → List Bytes
  | 0, _ => []
  | count + 1, data => data.take size :: pieces size count (data.drop size)

def wholePieces (size : Nat) (data : Bytes) : List Bytes := pieces size (data.length / size) data

/-- A slice is as long as asked for, unless the data end first. -/
theorem length_slice (data : Bytes) (start length : Nat) :
    (slice data start length).length = min length (data.length - start) := by
  simp [slice]

/-- Bytes that are laid inside others do not make them longer. -/
theorem length_splice {data : Bytes} {start : Nat} {patch : Bytes}
    (h : start + patch.length ≤ data.length) : (splice data start patch).length = data.length := by
  simp only [splice, List.length_append, List.length_take, List.length_drop]
  omega

@[simp] theorem length_blank (length : Nat) : (blank length).length = length := by simp [blank]

/-- Extending makes nothing shorter. -/
theorem length_extend (data : Bytes) (length : Nat) :
    (extend data length).length = max data.length length := by
  simp only [extend, List.length_append, length_blank]
  omega

end Bytes
end FirmwareUpdate
