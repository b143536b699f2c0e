import FirmwareUpdate.Device.Flash
import FirmwareUpdate.Device.Link

/-! Flash calls as the engine makes them. -/
namespace FirmwareUpdate

abbrev FlashLink := Link Flash

namespace FlashLink

abbrev Call := Action FlashLink DeviceError

def init : Call Unit := Link.call .init Flash.init

def release : Call Unit := Link.call .release Flash.release

def read (address length : Nat) : Call Bytes := Link.call .read (Flash.read address length)

def write (address : Nat) (data : Bytes) : Call Unit := Link.call .write (Flash.write address data)

def erase (address size : Nat) : Call Unit := Link.call .erase (Flash.erase address size)

/-- A poll that the schedule fails answers with an error, and is put on record. -/
def poll : Call PollAnswer := do
  let l ← get
  set (l.count .poll)
  match l.due .poll with
  | some _ => do
    modify (·.addFailedPoll l.calls.poll)
    return .error
  | none => Link.direct Flash.poll

/-- Polls once, and then up to the limit while the device is not idle. A device that is given up is
at fault. -/
def awaitReady : Call Unit := Link.accounted do
  match ← poll with
  | .idle => pure ()
  | _ => Flash.awaitIdle poll Flash.pollLimit

/-- Erases `count` sectors from `address` on, one at a time. -/
def eraseFrom : (count : Nat) → (address : Nat) → Call Unit
  | 0, _ => pure ()
  | count + 1, address => do
    match ← Link.direct (Flash.nextSector? address) with
    | none => Link.accounted (Action.fail .outOfBounds)
    | some next => do
      erase address (next - address)
      awaitReady
      eraseFrom count next

end FlashLink
end FirmwareUpdate
