import FirmwareUpdate.Update.Engine

/-! Choosing the image to run. The running image is the baseline; the update slot and then the
backup slot take its place when their headers are strictly newer. -/
namespace FirmwareUpdate
variable {n k : Nat}

/-- The slot that is to be run from: the one that runs, or one that holds an update. -/
inductive Choice where
  | current (slot : SlotId)
  | update (slot : SlotId)
  deriving DecidableEq, Repr

namespace Header

/-- A higher index, and against rollback a higher version as well. -/
def supersedes (candidate baseline : Header) (forwardOnly : Bool) : Bool :=
  baseline.index < candidate.index &&
    (!forwardOnly || candidate.version.newerThan baseline.version)

end Header

namespace Engine

/-- The update slot, then the backup slot. -/
def contenders (e : Engine n k) : List SlotId :=
  let update := e.staged?.toOption.toList
  update ++ e.backup?.toList.filter (· ∉ update)

/-- Looks at contenders in turn. One whose header cannot be read is passed over. -/
def chooseFrom : List SlotId → (best : Header) → Choice → Op n k Choice
  | [], _, choice => return choice
  | slot :: rest, best, choice => do
    match ← Action.attempt (headerOf slot) with
    | .error error => do
      note .debug "select" (slot.label ++ " skipped: " ++ error.message)
      chooseFrom rest best choice
    | .ok header =>
      if header.supersedes best (← get).policy.forwardOnly then do
        note .info "select" (slot.label ++ " index " ++ Text.decimal header.index.toNat ++ " " ++
          header.version.render ++ " supersedes index " ++ Text.decimal best.index.toNat)
        chooseFrom rest header (.update slot)
      else do
        note .debug "select" (slot.label ++ " index " ++ Text.decimal header.index.toNat ++
          " not newer")
        chooseFrom rest best choice

/-- Fails only where the header of the running image cannot be read. -/
def choose : Op n k Choice := do
  let current ← Action.ofExcept (← get).application?
  match ← Action.attempt (headerOf current) with
  | .error error => do
    note .warn "select" ("running image header unusable: " ++ error.message)
    Action.fail error
  | .ok header => do chooseFrom (← get).contenders header (.current current)

end Engine
end FirmwareUpdate
