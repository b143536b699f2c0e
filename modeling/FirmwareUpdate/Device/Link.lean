import FirmwareUpdate.Action
import FirmwareUpdate.Device.Error

/-! How the engine reaches a device. Any call may fail on the way, as a schedule decides; a call
that fails does not reach the device. -/
namespace FirmwareUpdate

/-- The calls that a schedule may fail. -/
inductive CallPoint where
  | init
  | release
  | read
  | write
  | erase
  | openFile
  | close
  | poll
  deriving DecidableEq, Repr

/-- The error of the call of a kind that has been preceded by a number of its kind. -/
abbrev Schedule := CallPoint → Nat → Option DeviceError

/-- From a number of calls of one kind on, every one of them fails. -/
structure Outage where
  point : CallPoint
  start : Nat
  error : DeviceError
  deriving DecidableEq, Repr

namespace Schedule

def quiet : Schedule := fun _ _ => none

/-- For each kind of call the first outage of that kind counts. -/
def ofOutages (outages : List Outage) : Schedule := fun point count =>
  (outages.find? (·.point = point)).bind fun o => if o.start ≤ count then some o.error else none

end Schedule

/-- How many calls of each kind have been made. -/
structure CallCounts where
  init : Nat := 0
  release : Nat := 0
  read : Nat := 0
  write : Nat := 0
  erase : Nat := 0
  openFile : Nat := 0
  close : Nat := 0
  poll : Nat := 0
  deriving DecidableEq, Repr

namespace CallCounts

def of (c : CallCounts) : CallPoint → Nat
  | .init => c.init
  | .release => c.release
  | .read => c.read
  | .write => c.write
  | .erase => c.erase
  | .openFile => c.openFile
  | .close => c.close
  | .poll => c.poll

def bump (c : CallCounts) : CallPoint → CallCounts
  | .init => { c with init := c.init + 1 }
  | .release => { c with release := c.release + 1 }
  | .read => { c with read := c.read + 1 }
  | .write => { c with write := c.write + 1 }
  | .erase => { c with erase := c.erase + 1 }
  | .openFile => { c with openFile := c.openFile + 1 }
  | .close => { c with close := c.close + 1 }
  | .poll => { c with poll := c.poll + 1 }

end CallCounts

/-- `faults` counts the calls that failed although nothing was wrong with the request; `errors` holds what every
call that failed came to, the latest first. A poll only answers that something failed before it, so those that did are
on a record of their own: `failedPolls` holds for each how many polls came before it, the latest first. -/
structure Link (δ : Type) where
  device : δ
  schedule : Schedule := .quiet
  calls : CallCounts := {}
  faults : Nat := 0
  errors : List DeviceError := []
  failedPolls : List Nat := []

namespace Link
variable {δ α : Type}

/-- Runs a call on the device itself. -/
def direct {ε : Type} (call : Action δ ε α) : Action (Link δ) ε α :=
  Action.focus Link.device (fun l device => { l with device }) call

/-- The error the schedule has for the next call of a kind. -/
def due (l : Link δ) (point : CallPoint) : Option DeviceError := l.schedule point (l.calls.of point)

def count (l : Link δ) (point : CallPoint) : Link δ := { l with calls := l.calls.bump point }

def addError (l : Link δ) (error : DeviceError) : Link δ := { l with errors := error :: l.errors }

def addFault (l : Link δ) : Link δ := { l with faults := l.faults + 1 }

def addFailedPoll (l : Link δ) (number : Nat) : Link δ := { l with failedPolls := number :: l.failedPolls }

/-- Keeps the error of a step, and counts it among the faults unless it refuses the request. -/
def accounted (act : Action (Link δ) DeviceError α) : Action (Link δ) DeviceError α := fun l =>
  match act l with
  | .error (.error cause) m =>
    .error (.error cause) (if cause.isRefusal then m.addError cause else (m.addError cause).addFault)
  | result => result

/-- Makes one call, which the schedule may turn into an error. -/
def call (point : CallPoint) (act : Action δ DeviceError α) : Action (Link δ) DeviceError α := do
  let l ← get
  set (l.count point)
  match l.due point with
  | some error => do
    modify fun l => (l.addError error).addFault
    Action.fail error
  | none => accounted (direct act)

end Link
end FirmwareUpdate
