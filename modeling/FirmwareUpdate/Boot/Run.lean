import FirmwareUpdate.Boot.Work

/-! A boot from one phase to the next, and on to its verdict. -/
namespace FirmwareUpdate.Boot
variable {n k : Nat}

/-- Phases a history can hold. -/
def historyLimit : Nat := 16

/-- Enters a phase and adds it to the history. A full history is a reason to halt. -/
def moveTo (next : BootPhase) : Work n k Unit := do
  note .info ((← get).phase.label ++ " -> " ++ next.label)
  modify fun b =>
    if b.history.length < historyLimit then { b with phase := next, history := b.history ++ [next] }
    else { b with phase := .halt .invalidParameters }

/-- Does the work of the current phase and enters the next one. -/
def step : Work n k (Option Verdict) := do
  match ← work (← get).phase with
  | .finish verdict => return some verdict
  | .enter phase => do
    moveTo phase
    return none

/-- Takes at most `steps` steps, stopping at a verdict. -/
def runFor : (steps : Nat) → Work n k (Option Verdict)
  | 0 => return none
  | steps + 1 => do
    match ← step with
    | some verdict => return some verdict
    | none => runFor steps

/-- Runs to a verdict. A boot whose history is full halts with the next step. -/
def run : Work n k (Option Verdict) := runFor (historyLimit + 2)

end FirmwareUpdate.Boot
