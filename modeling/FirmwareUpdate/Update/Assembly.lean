import FirmwareUpdate.Update.Engine

/-! Making an engine from a plan. There is one only if the plan gives every role a slot and the
devices came up. -/
namespace FirmwareUpdate.Engine
variable {n k : Nat}

/-- The parts of the plan fit each other and the backend. -/
def checkPlan (plan : Plan) (backend : Backend) (hosts : List (DeviceId n k)) :
    Except Error Key := do
  plan.check
  if chunkLimit < plan.tuning.chunk ∨ digestLimit < backend.digestLength ∨
      Header.sizeLimit < backend.headerLength then throw .invalidParameters
  else do
    let key ← (Key.ofBytes plan.key).mapError fun _ => Error.invalidParameters
    if plan.policy.encryptSecond ∧ key.isEmpty then throw .invalidParameters
    else if plan.memories.length ≠ hosts.length then throw .invalidParameters
    else return key

/-- Registers the memories in turn. -/
def registerFrom (policy : Policy) : (index : Nat) → List (MemoryPlan × DeviceId n k) →
    Storage n k → Except Error (Storage n k)
  | _, [], storage => .ok storage
  | index, (memory, device) :: rest, storage => do
    let memory ← Memory.register storage.devices index memory device policy
    registerFrom policy (index + 1) rest (← storage.addMemory memory)

/-- There is one application slot, in the primary memory, one update slot, and a slot for nothing
but the backup when fallback is wanted. -/
def requireRoles (storage : Storage n k) (policy : Policy) : Except Error Unit :=
  match storage.find? .theApplication with
  | none => .error .invalidParameters
  | some application =>
    if storage.count .theApplication = 1 ∧ storage.hasTier application .primary ∧
        storage.count .anUpdate = 1 ∧
        (policy.fallback → storage.slots.any fun (_, slot) => slot.content = .aBackup) then .ok ()
    else .error .invalidParameters

def assemble (devices : Devices n k) (plan : Plan) (hosts : List (DeviceId n k)) :
    Except Error (Storage n k) := do
  let storage ← registerFrom plan.policy 0 (plan.memories.zip hosts) { devices }
  requireRoles storage plan.policy
  return storage

/-- Checks the plan, registers the memories and brings the devices up. The state is the storage on
bare devices; a failure leaves it as the attempt did. -/
def bringUp (plan : Plan) (primary : DeviceId n k) (secondary : Option (DeviceId n k))
    (backend : Backend) : Action (Storage n k) Error (Engine n k) := do
  let hosts := primary :: secondary.toList
  let key ← Action.ofExcept (checkPlan plan backend hosts)
  set (← Action.ofExcept (assemble (← get).devices plan hosts))
  Storage.init
  let storage ← get
  let summary := Text.decimal storage.memories.length ++ " memories, " ++
    Text.decimal storage.slots.length ++ " slots registered"
  return { storage, policy := plan.policy, tuning := plan.tuning, key, backend,
           log := Log.record {} .info "registry" [summary] }

end FirmwareUpdate.Engine
