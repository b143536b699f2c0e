import FirmwareUpdate.Text.Numeral

/-! How a slot is referred to. -/
namespace FirmwareUpdate

/-- The position of a memory and of a slot in it. -/
structure SlotId where
  memory : Nat
  index : Nat
  deriving DecidableEq, Repr

/-- The form in which a slot is shown. -/
def SlotId.label (r : SlotId) : String :=
  "m" ++ Text.decimal r.memory ++ "s" ++ Text.decimal r.index

end FirmwareUpdate
