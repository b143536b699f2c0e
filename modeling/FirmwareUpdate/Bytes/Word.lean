import FirmwareUpdate.Bytes

/-! Little-endian words: the least significant byte comes first. -/
namespace FirmwareUpdate.Bytes

def ofWord (word : UInt32) : Bytes :=
  [word.toUInt8, (word >>> 8).toUInt8, (word >>> 16).toUInt8, (word >>> 24).toUInt8]

/-- The word of four bytes, given from the least significant on. -/
def wordOf (b0 b1 b2 b3 : UInt8) : UInt32 :=
  b0.toUInt32 ||| (b1.toUInt32 <<< 8) ||| (b2.toUInt32 <<< 16) ||| (b3.toUInt32 <<< 24)

/-- The word at `offset`; bytes past the end read as zero. -/
def wordAt (data : Bytes) (offset : Nat) : UInt32 :=
  wordOf (data.getD offset 0) (data.getD (offset + 1) 0) (data.getD (offset + 2) 0)
    (data.getD (offset + 3) 0)

@[simp] theorem length_ofWord (word : UInt32) : (ofWord word).length = 4 := rfl

end FirmwareUpdate.Bytes
