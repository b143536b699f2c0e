import FirmwareUpdate.Topology.Plan

/-! What a slot holds, as its position and the policy decide it. -/
namespace FirmwareUpdate

/-- What a slot may hold. -/
structure Content where
  application : Bool := false
  update : Bool := false
  backup : Bool := false
  deriving DecidableEq, Repr

namespace Content

def none : Content := {}

def theApplication : Content := { application := true }

def anUpdate : Content := { update := true }

def aBackup : Content := { backup := true }

/-- Holds at least what `part` holds. -/
def includes (whole part : Content) : Bool :=
  (!part.application || whole.application) && (!part.update || whole.update) &&
    (!part.backup || whole.backup)

/-- The primary memory holds the application first. The update slot and the backup slot follow in
the same memory, or lead the second memory when there is one. Without fallback the update slot
doubles as the backup. -/
def ofPosition (tier : Tier) (position : Nat) (policy : Policy) : Content :=
  let update : Content := { update := true, backup := !policy.fallback }
  let backup : Content := { backup := policy.fallback }
  match tier, position with
  | .primary, 0 => theApplication
  | .primary, 1 => if policy.secondMemory then none else update
  | .primary, 2 => if policy.secondMemory then none else backup
  | .secondary, 0 => update
  | .secondary, 1 => backup
  | _, _ => none

end Content
end FirmwareUpdate
