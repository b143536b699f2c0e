import FirmwareUpdate.Boot.EntryPoint
import FirmwareUpdate.Boot.Phase
import FirmwareUpdate.Update.Choice
import FirmwareUpdate.Update.Install

/-! What a boot does in each of its phases. The work of a phase names the phase that follows; it
always finds one, since an error of the engine is a reason to recover or to halt. The backup image
is reinstalled at most once. -/
namespace FirmwareUpdate
variable {n k : Nat}

/-- `verified` says that the application has been found valid since it was last written. The history
holds every phase entered, oldest first. -/
structure Boot (n k : Nat) where
  engine : Engine n k
  phase : BootPhase := .init
  history : List BootPhase := [.init]
  verified : Bool := false
  installFailed : Bool := false
  backupTried : Bool := false

namespace Boot

def ofEngine (engine : Engine n k) : Boot n k := { engine }

/-- What is done in a phase; it cannot fail. -/
abbrev Work (n k : Nat) := Action (Boot n k) Empty

variable {ε ε' α : Type}

def onEngine (act : Action (Engine n k) ε α) : Action (Boot n k) ε α :=
  Action.focus Boot.engine (fun b engine => { b with engine }) act

def note (level : Severity) (text : String) : Action (Boot n k) ε Unit :=
  onEngine (Engine.note level "boot" text)

/-- Makes an attempt with the engine. -/
def attempt (act : Engine.Op n k α) : Action (Boot n k) ε (Except Error α) :=
  Action.attempt (onEngine act)

/-- Back to the backup while that is wanted and has not been tried, and else the end. -/
def recourse (b : Boot n k) (error : Error) : BootPhase :=
  if b.engine.policy.fallback ∧ ¬b.backupTried then .fallback else .halt error

def takeRecourse (error : Error) : Action (Boot n k) ε BootPhase := do
  return (← get).recourse error

def setVerified (verified : Bool) : Action (Boot n k) ε Unit :=
  modify fun b => { b with verified }

def setInstallFailed (installFailed : Bool) : Work n k Unit :=
  modify fun b => { b with installFailed }

def examineRunning : Work n k BootPhase := do
  match (← get).engine.application? with
  | .error _ => return .halt .noValidImage
  | .ok application =>
    match ← attempt (Engine.examine application) with
    | .ok _ => do
      setVerified true
      return .chooseImage
    | .error _ => takeRecourse .noValidImage

def chooseImage : Work n k BootPhase := do
  match ← attempt Engine.choose with
  | .ok (.current _) => return .run
  | .ok (.update slot) => return .examineChosen slot
  | .error error => return .halt error

def examineChosen (slot : SlotId) : Work n k BootPhase := do
  match ← attempt (Engine.examine slot) with
  | .ok _ => return .install slot
  | .error error => do
    note .warn ("candidate " ++ slot.label ++ " ignored: " ++ error.message)
    return .run

/-- Installs an image. A failure is remembered: what it left behind is looked at in the phase that
follows. -/
def installFrom (slot : SlotId) (failure : String) : Work n k BootPhase := do
  setInstallFailed false
  match ← attempt (Engine.install slot) with
  | .ok _ => return .examineInstalled
  | .error error => do
    note .warn (failure ++ error.message)
    setInstallFailed true
    return .examineInstalled

def installChosen (slot : SlotId) : Work n k BootPhase := do
  setVerified false
  installFrom slot ("transfer from " ++ slot.label ++ " failed: ")

/-- An installation that failed has left its device switched off, so the devices come up first. -/
def examineInstalled : Work n k BootPhase := do
  match (← get).engine.application? with
  | .error _ => return .halt .noValidImage
  | .ok application =>
    match ← attempt (Engine.onStorage Storage.init) with
    | .error _ => takeRecourse .driverFailure
    | .ok _ =>
      match ← attempt (Engine.examine application) with
      | .error _ => takeRecourse .noValidImage
      | .ok _ => do
        setVerified true
        if (← get).installFailed then do
          note .warn ("update not applied, keeping " ++ application.label)
          return .run
        else return .commit

def commit : Work n k BootPhase := do
  match ← attempt (Engine.onStorage Storage.closeFiles) with
  | .ok _ => pure ()
  | .error _ => note .warn "file handles not released cleanly"
  note .info "update committed"
  return .run

/-- Installs the backup, once the devices are up and it has been found valid. -/
def restoreBackup : Work n k BootPhase := do
  modify fun b => { b with backupTried := true, verified := false }
  match (← get).engine.backup? with
  | none => return .halt .noValidImage
  | some backup => do
    note .warn ("falling back to " ++ backup.label)
    match ← attempt (Engine.onStorage Storage.init) with
    | .error _ => return .halt .driverFailure
    | .ok _ =>
      match ← attempt (Engine.examine backup) with
      | .error _ => return .halt .noValidImage
      | .ok _ => installFrom backup "backup reinstall failed: "

/-- Examines the application unless that has been done since it was last written. -/
def ensureVerified (application : SlotId) : Action (Boot n k) BootPhase Unit := do
  if (← get).verified then pure ()
  else
    match ← attempt (Engine.examine application) with
    | .ok _ => setVerified true
    | .error _ => do Action.fail (← takeRecourse .noValidImage)

/-- The address of the vector table, or the phase to go on with instead. -/
def handOver : Action (Boot n k) BootPhase Nat := do
  match (← get).engine.application? with
  | .error _ => Action.fail (.halt .noValidImage)
  | .ok application => do
    ensureVerified application
    match ← attempt (Engine.entryPoint application) with
    | .error error => do
      note .error ("reset vector rejected: " ++ error.message)
      Action.fail (← takeRecourse error)
    | .ok entry => do
      let engine := (← get).engine
      match (engine.storage.slot? application).toOption.bind Slot.address? with
      | none => Action.fail (.halt .unknownSlotType)
      | some address => do
        let table ← Action.word (address + engine.tuning.tableOffset)
        note .info ("running " ++ application.label ++ " (entry 0x" ++ Text.paddedHex 8 entry ++
          ")")
        return table

/-- Does the work of a phase. A final phase gives the verdict, unless the application turns out not
to be fit to run. -/
def work : BootPhase → Work n k PhaseResult
  | .init => return .enter .examineRunning
  | .examineRunning => .enter <$> examineRunning
  | .chooseImage => .enter <$> chooseImage
  | .examineChosen slot => .enter <$> examineChosen slot
  | .install slot => .enter <$> installChosen slot
  | .examineInstalled => .enter <$> examineInstalled
  | .commit => .enter <$> commit
  | .fallback => .enter <$> restoreBackup
  | .run => do
    match ← Action.attempt handOver with
    | .ok address => return .finish (.run address)
    | .error phase => return .enter phase
  | .halt error => do
    note .error ("halted: " ++ error.message)
    return .finish (.halt error)

end Boot
end FirmwareUpdate
