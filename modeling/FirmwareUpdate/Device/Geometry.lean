/-! Where a flash device lies in the 32-bit address space and how it is cut into sectors. -/
namespace FirmwareUpdate

/-- Sectors fill the device. A granule is the number of bytes programmed together. -/
structure Geometry where
  base : Nat
  size : Nat
  sector : Nat
  granule : Nat
  sector_pos : 0 < sector
  sector_dvd : sector ∣ size
  stop_le : base + size ≤ UInt32.size
  deriving DecidableEq

namespace Geometry

def ofSizes? (base size sector granule : Nat) : Option Geometry :=
  if h : 0 < sector ∧ sector ∣ size ∧ base + size ≤ UInt32.size then
    some ⟨base, size, sector, granule, h.1, h.2.1, h.2.2⟩
  else none

/-- The address one past the last byte; at most the number of addresses there are. -/
def stop (g : Geometry) : Nat := g.base + g.size

def contains (g : Geometry) (address length : Nat) : Bool :=
  g.base ≤ address ∧ address + length ≤ g.stop

/-- Being inside a device, as two inequalities. -/
theorem contains_iff {g : Geometry} {address length : Nat} :
    g.contains address length ↔ g.base ≤ address ∧ address + length ≤ g.base + g.size := by
  rw [contains, decide_eq_true_eq, stop]

/-- The first byte of a sector. -/
def isSector (g : Geometry) (address : Nat) : Bool :=
  g.contains address 1 ∧ (address - g.base) % g.sector = 0

/-- The start of the sector that follows the one holding `address`. For the last sector this is
the end of the device. -/
def nextSector? (g : Geometry) (address : Nat) : Option Nat :=
  if g.contains address 1 then
    some (g.base + ((address - g.base) / g.sector + 1) * g.sector)
  else none

/-- Sectors needed for `length` bytes from a sector start on. -/
def sectorsFor (g : Geometry) (length : Nat) : Nat :=
  (length + g.sector - 1) / g.sector

end Geometry
end FirmwareUpdate
