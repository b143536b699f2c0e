import FirmwareUpdate.Bytes
import FirmwareUpdate.Cipher.Aes.Substitution

/-! The sixteen-byte AES block as four columns of four bytes, and the four layers of a round with
their inverses. -/
namespace FirmwareUpdate.Aes

/-- Four bytes of a block, which stand in one column. -/
structure Word where
  b0 : UInt8
  b1 : UInt8
  b2 : UInt8
  b3 : UInt8
  deriving DecidableEq, Repr

/-- Sixteen bytes, by columns. -/
structure Block where
  c0 : Word
  c1 : Word
  c2 : Word
  c3 : Word
  deriving DecidableEq, Repr

/-- Multiplication by two in the field of 256 elements. -/
def double (b : UInt8) : UInt8 :=
  if b &&& 0x80 = 0 then b <<< 1 else (b <<< 1) ^^^ 0x1B

namespace Word

def zero : Word := ⟨0, 0, 0, 0⟩

def map (f : UInt8 → UInt8) (w : Word) : Word := ⟨f w.b0, f w.b1, f w.b2, f w.b3⟩

def xor (v w : Word) : Word := ⟨v.b0 ^^^ w.b0, v.b1 ^^^ w.b1, v.b2 ^^^ w.b2, v.b3 ^^^ w.b3⟩

def rotate (w : Word) : Word := ⟨w.b1, w.b2, w.b3, w.b0⟩

/-- Two times one byte, three times the next, and the other two. -/
def mixByte (a b c d : UInt8) : UInt8 := double a ^^^ (double b ^^^ b) ^^^ c ^^^ d

def mix (w : Word) : Word :=
  ⟨mixByte w.b0 w.b1 w.b2 w.b3, mixByte w.b1 w.b2 w.b3 w.b0, mixByte w.b2 w.b3 w.b0 w.b1,
    mixByte w.b3 w.b0 w.b1 w.b2⟩

/-- Fourteen, eleven, thirteen and nine times the four bytes in turn. -/
def unmixByte (a b c d : UInt8) : UInt8 :=
  (double (double (double a)) ^^^ double (double a) ^^^ double a) ^^^
    (double (double (double b)) ^^^ double b ^^^ b) ^^^
    (double (double (double c)) ^^^ double (double c) ^^^ c) ^^^
    (double (double (double d)) ^^^ d)

def unmix (w : Word) : Word :=
  ⟨unmixByte w.b0 w.b1 w.b2 w.b3, unmixByte w.b1 w.b2 w.b3 w.b0, unmixByte w.b2 w.b3 w.b0 w.b1,
    unmixByte w.b3 w.b0 w.b1 w.b2⟩

/-- The word at `offset`; bytes past the end read as zero. -/
def ofBytes (data : Bytes) (offset : Nat) : Word :=
  ⟨data.getD offset 0, data.getD (offset + 1) 0, data.getD (offset + 2) 0,
    data.getD (offset + 3) 0⟩

def toBytes (w : Word) : Bytes := [w.b0, w.b1, w.b2, w.b3]

end Word

namespace Block

def zero : Block := ⟨.zero, .zero, .zero, .zero⟩

def map (f : Word → Word) (s : Block) : Block := ⟨f s.c0, f s.c1, f s.c2, f s.c3⟩

def xor (s t : Block) : Block := ⟨s.c0.xor t.c0, s.c1.xor t.c1, s.c2.xor t.c2, s.c3.xor t.c3⟩

/-- Row `r` moves `r` columns to the left, around the end. -/
def shiftRows (s : Block) : Block :=
  ⟨⟨s.c0.b0, s.c1.b1, s.c2.b2, s.c3.b3⟩, ⟨s.c1.b0, s.c2.b1, s.c3.b2, s.c0.b3⟩,
    ⟨s.c2.b0, s.c3.b1, s.c0.b2, s.c1.b3⟩, ⟨s.c3.b0, s.c0.b1, s.c1.b2, s.c2.b3⟩⟩

def unshiftRows (s : Block) : Block :=
  ⟨⟨s.c0.b0, s.c3.b1, s.c2.b2, s.c1.b3⟩, ⟨s.c1.b0, s.c0.b1, s.c3.b2, s.c2.b3⟩,
    ⟨s.c2.b0, s.c1.b1, s.c0.b2, s.c3.b3⟩, ⟨s.c3.b0, s.c2.b1, s.c1.b2, s.c0.b3⟩⟩

def ofBytes (data : Bytes) : Block :=
  ⟨.ofBytes data 0, .ofBytes data 4, .ofBytes data 8, .ofBytes data 12⟩

def toBytes (s : Block) : Bytes := s.c0.toBytes ++ s.c1.toBytes ++ s.c2.toBytes ++ s.c3.toBytes

@[simp] theorem length_toBytes (s : Block) : s.toBytes.length = 16 := rfl

theorem ofBytes_toBytes (s : Block) : ofBytes s.toBytes = s := rfl

/-- Shifting the rows back undoes shifting them. -/
theorem unshiftRows_shiftRows (s : Block) : s.shiftRows.unshiftRows = s := rfl

end Block

/-- Bytes in a block. -/
def blockLength : Nat := 16

end FirmwareUpdate.Aes
