import FirmwareUpdate.Bytes.Word

/-! CRC-32/ISO-HDLC: a reflected 32-bit register that takes one byte at a time, starts with every
bit set and is inverted at the end. -/
namespace FirmwareUpdate.Crc32

def polynomial : UInt32 := 0xEDB88320

def bitStep (register : UInt32) : UInt32 :=
  if register &&& 1 = 0 then register >>> 1 else (register >>> 1) ^^^ polynomial

def eightSteps (register : UInt32) : UInt32 :=
  bitStep (bitStep (bitStep (bitStep (bitStep (bitStep (bitStep (bitStep register)))))))

def absorb (register : UInt32) (byte : UInt8) : UInt32 := eightSteps (register ^^^ byte.toUInt32)

def initial : UInt32 := 0xFFFFFFFF

def update (register : UInt32) (data : Bytes) : UInt32 := data.foldl absorb register

def finish (register : UInt32) : UInt32 := ~~~register

def checksum (data : Bytes) : UInt32 := finish (update initial data)

/-- A register that takes in the data in two parts ends where one ends that takes them in at once. -/
theorem update_append (register : UInt32) (front back : Bytes) :
    update register (front ++ back) = update (update register front) back :=
  List.foldl_append

end FirmwareUpdate.Crc32
