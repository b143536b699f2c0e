import FirmwareUpdate.Action
import FirmwareUpdate.Bytes
import FirmwareUpdate.Device.Error
import FirmwareUpdate.Device.Geometry

/-! A flash device. Writing can only clear bits and takes whole granules; erasing sets the bytes of
whole sectors. After either the device is busy for a number of polls. -/
namespace FirmwareUpdate

/-- What a flash device answers when it is asked how it is. -/
inductive PollAnswer where
  | idle
  | busy
  | error
  deriving DecidableEq, Repr

/-- A write that took place, with the bytes that were given. -/
structure WriteEntry where
  address : Nat
  bytes : Bytes
  deriving DecidableEq, Repr

/-- A device with its contents. The records hold the newest call first; `writeLimit` is the number
of recorded writes from which on every write fails. -/
structure Flash where
  geometry : Geometry
  contents : Bytes
  contents_length : contents.length = geometry.size
  initialized : Bool := false
  releases : Nat := 0
  writes : List WriteEntry := []
  erases : List (Nat × Nat) := []
  writeLimit : Option Nat := none
  busySpan : Nat := 0
  busyRest : Nat := 0
  deriving DecidableEq

namespace Flash

/-- An erased device. -/
def blank (geometry : Geometry) (busySpan : Nat := 0) : Flash :=
  { geometry, busySpan, contents := Bytes.blank geometry.size, contents_length := by simp }

/-- The bytes of a range, if it lies inside the device. -/
def contentsAt? (f : Flash) (address length : Nat) : Option Bytes :=
  if f.geometry.contains address length then
    some (Bytes.slice f.contents (address - f.geometry.base) length)
  else none

private theorem length_splice_contents {f : Flash} {address : Nat} {data : Bytes}
    (h : f.geometry.contains address data.length) :
    (Bytes.splice f.contents (address - f.geometry.base) data).length = f.geometry.size := by
  have := f.contents_length
  have := Geometry.contains_iff.1 h
  rw [Bytes.length_splice (by omega), f.contents_length]

/-- Puts bytes in place whatever the device would allow. -/
def preset? (f : Flash) (address : Nat) (data : Bytes) : Option Flash :=
  if h : f.geometry.contains address data.length then
    some { f with
      contents := Bytes.splice f.contents (address - f.geometry.base) data
      contents_length := length_splice_contents h }
  else none

/-- Inverts every bit of one byte. -/
def flip? (f : Flash) (address : Nat) : Option Flash := do
  let byte ← f.contentsAt? address 1
  f.preset? address (byte.map (~~~·))

def limitWrites (f : Flash) (count : Nat) : Flash :=
  { f with writeLimit := some (f.writes.length + count) }

def clearRecords (f : Flash) : Flash := { f with writes := [], erases := [] }

/-- Calls on the device. -/
abbrev Call := Action Flash DeviceError

def init : Call Unit := modify fun f => { f with initialized := true }

def release : Call Unit := modify fun f =>
  { f with initialized := false, releases := f.releases + 1 }

def requireInitialized : Call Unit := do
  if (← get).initialized then pure () else Action.fail .notInitialized

def requireInside (address length : Nat) : Call Unit := do
  if (← get).geometry.contains address length then pure () else Action.fail .outOfBounds

def read (address length : Nat) : Call Bytes := do
  requireInitialized
  requireInside address length
  let f ← get
  return Bytes.slice f.contents (address - f.geometry.base) length

/-- Programs a range that is known to lie inside the device. -/
def program (f : Flash) (address : Nat) (data : Bytes)
    (h : f.geometry.contains address data.length) : Flash :=
  let start := address - f.geometry.base
  let programmed := List.zipWith (· &&& ·) (Bytes.slice f.contents start data.length) data
  { f with
    contents := Bytes.splice f.contents start programmed
    contents_length := by
      have hp : programmed.length = data.length := by
        have := f.contents_length
        have := Geometry.contains_iff.1 h
        simp only [programmed, List.length_zipWith, Bytes.length_slice]
        omega
      exact length_splice_contents (by rw [hp]; exact h)
    writes := ⟨address, data⟩ :: f.writes
    busyRest := f.busySpan }

/-- Clears the bits that are clear in `data`. Empty data counts as unaligned. -/
def write (address : Nat) (data : Bytes) : Call Unit := do
  requireInitialized
  requireInside address data.length
  let f ← get
  if data = [] then Action.fail .unaligned
  else if f.geometry.granule = 0 then Action.trap
  else if (address - f.geometry.base) % f.geometry.granule ≠ 0 ∨
      data.length % f.geometry.granule ≠ 0 then Action.fail .unaligned
  else if f.writeLimit.any (· ≤ f.writes.length) then Action.fail .writeFailed
  else if h : f.geometry.contains address data.length then set (f.program address data h)
  else Action.fail .outOfBounds

/-- Erases a range that is known to lie inside the device. -/
def blankRange (f : Flash) (address size : Nat) (h : f.geometry.contains address size) : Flash :=
  { f with
    contents := Bytes.splice f.contents (address - f.geometry.base) (Bytes.blank size)
    contents_length := length_splice_contents (by simpa using h)
    erases := (address, size) :: f.erases
    busyRest := f.busySpan }

/-- Sets every bit of whole sectors. -/
def erase (address size : Nat) : Call Unit := do
  requireInitialized
  requireInside address size
  let f ← get
  if f.geometry.isSector address ∧ size % f.geometry.sector = 0 then
    if h : f.geometry.contains address size then set (f.blankRange address size h)
    else Action.fail .outOfBounds
  else Action.fail .eraseFailed

/-- One poll of the controller. -/
def poll : Call PollAnswer := do
  let f ← get
  if f.busyRest = 0 then return .idle
  else do
    set { f with busyRest := f.busyRest - 1 }
    return .busy

/-- Traps where the next sector would start past the last address. -/
def nextSector? (address : Nat) : Call (Option Nat) := do
  match (← get).geometry.nextSector? address with
  | none => return none
  | some next => return some (← Action.word next)

/-- The device is not made of two halves. -/
def swapHalves : Call Unit := Action.fail .notSupported

/-- Polls after which a busy device is given up. -/
def pollLimit : Nat := 1000000

/-- Polls at most `polls` times until the answer is that the device is idle. -/
def awaitIdle {σ : Type} (poll : Action σ DeviceError PollAnswer) :
    (polls : Nat) → Action σ DeviceError Unit
  | 0 => Action.fail .timeout
  | polls + 1 => do
    match ← poll with
    | .idle => pure ()
    | .busy => awaitIdle poll polls
    | .error => Action.fail .writeFailed

def awaitReady : Call Unit := awaitIdle poll pollLimit

end Flash
end FirmwareUpdate
