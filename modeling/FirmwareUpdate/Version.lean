import FirmwareUpdate.Text.Numeral

/-! Firmware versions: three bytes, ordered by major, then minor, then patch, and packed into one
header word in that order. -/
namespace FirmwareUpdate

/-- A version in three parts. -/
structure Version where
  major : UInt8 := 0
  minor : UInt8 := 0
  patch : UInt8 := 0
  deriving DecidableEq, Repr

namespace Version

def zero : Version := {}

def pack (v : Version) : UInt32 :=
  (v.major.toUInt32 <<< 16) ||| (v.minor.toUInt32 <<< 8) ||| v.patch.toUInt32

/-- The top byte of the word is not used. -/
def unpack (word : UInt32) : Version :=
  ⟨(word >>> 16).toUInt8, (word >>> 8).toUInt8, word.toUInt8⟩

instance : Ord Version := ⟨fun a b => compare a.pack b.pack⟩

def newerThan (a b : Version) : Bool := b.pack < a.pack

def render (v : Version) : String :=
  Text.decimal v.major.toNat ++ "." ++ Text.decimal v.minor.toNat ++ "." ++
    Text.decimal v.patch.toNat

/-- The short form that marks itself as a version. -/
def label (v : Version) : String := "v" ++ v.render

def digitsValue (digits : List Char) : Nat :=
  digits.foldl (fun value c => value * 10 + (c.toNat - '0'.toNat)) 0

def digits? (text : List Char) : Option UInt8 :=
  if text ≠ [] ∧ text.all Char.isDigit ∧ digitsValue text ≤ 255 then
    some (UInt8.ofNat (digitsValue text))
  else none

/-- A component is one or more digits, at most 255 in value, after an optional plus sign. -/
def component? : List Char → Option UInt8
  | '+' :: digits => digits? digits
  | digits => digits? digits

def parse? (text : String) : Option Version :=
  match text.toList.splitOn '.' with
  | [major, minor, patch] => do
    return ⟨← component? major, ← component? minor, ← component? patch⟩
  | _ => none

end Version
end FirmwareUpdate
