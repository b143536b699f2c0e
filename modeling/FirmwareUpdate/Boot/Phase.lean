import FirmwareUpdate.Error
import FirmwareUpdate.Topology.SlotId

/-! The phases of a boot. Two of them are final: to run the application and to halt. -/
namespace FirmwareUpdate

/-- The phases of a boot. An image that is chosen or installed is named by its slot. -/
inductive BootPhase where
  | init
  | examineRunning
  | chooseImage
  | examineChosen (slot : SlotId)
  | install (slot : SlotId)
  | examineInstalled
  | commit
  | fallback
  | run
  | halt (error : Error)
  deriving DecidableEq, Repr

namespace BootPhase

def isFinal : BootPhase → Bool
  | run | halt _ => true
  | _ => false

def label : BootPhase → String
  | init => "Init"
  | examineRunning => "CheckCurrentApp"
  | chooseImage => "SelectCandidate"
  | examineChosen slot => "Verify(" ++ slot.label ++ ")"
  | install slot => "Transfer(" ++ slot.label ++ ")"
  | examineInstalled => "VerifyTransferred"
  | commit => "CommitAndRun"
  | fallback => "Fallback"
  | run => "Run"
  | halt error => "ErrorHalt(" ++ error.message ++ ")"

end BootPhase

/-- The vector table to run, or the reason to run nothing. -/
inductive Verdict where
  | run (address : Nat)
  | halt (error : Error)
  deriving DecidableEq, Repr

/-- What the work of a phase leads to. -/
inductive PhaseResult where
  | enter (phase : BootPhase)
  | finish (verdict : Verdict)
  deriving DecidableEq, Repr

end FirmwareUpdate
