/-! Numbers as text: decimal and upper-case hexadecimal, padded with zeros to a least width. -/
namespace FirmwareUpdate.Text

def decimal (n : Nat) : String := String.ofList (Nat.toDigits 10 n)

def paddedDecimal (width n : Nat) : String :=
  String.ofList ((Nat.toDigits 10 n).leftpad width '0')

def paddedHex (width n : Nat) : String :=
  String.ofList (((Nat.toDigits 16 n).map Char.toUpper).leftpad width '0')

end FirmwareUpdate.Text
