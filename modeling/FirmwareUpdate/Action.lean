/-! Stateful steps with two ways to stop short: an error the caller may handle, and a trap, which
no caller handles. The state reached so far is kept in both cases. -/
namespace FirmwareUpdate

/-- Why a step did not finish. A trap is an address that leaves the 32-bit word. -/
inductive Stop (ε : Type) where
  | error (cause : ε)
  | trap
  deriving DecidableEq, Repr

abbrev Action (σ ε : Type) := EStateM (Stop ε) σ

namespace Action
variable {σ τ ε ε' α : Type}

def fail (cause : ε) : Action σ ε α := fun s => .error (.error cause) s

def trap : Action σ ε α := fun s => .error .trap s

def ofExcept : Except ε α → Action σ ε α
  | .ok a => pure a
  | .error cause => fail cause

/-- The step's error becomes a value; a trap still stops. -/
def attempt (act : Action σ ε α) : Action σ ε' (Except ε α) := fun s =>
  match act s with
  | .ok a t => .ok (.ok a) t
  | .error (.error cause) t => .ok (.error cause) t
  | .error .trap t => .error .trap t

def mapError (f : ε → ε') (act : Action σ ε α) : Action σ ε' α := fun s =>
  match act s with
  | .ok a t => .ok a t
  | .error (.error cause) t => .error (.error (f cause)) t
  | .error .trap t => .error .trap t

/-- Runs a step on a part of the state, which is put back however the step ends. -/
def focus (part : σ → τ) (put : σ → τ → σ) (act : Action τ ε α) : Action σ ε α := fun s =>
  match act (part s) with
  | .ok a t => .ok a (put s t)
  | .error stop t => .error stop (put s t)

/-- The number itself while it fits a 32-bit word. -/
def word (value : Nat) : Action σ ε Nat :=
  if value < UInt32.size then pure value else trap

@[simp] theorem bind_apply {β : Type} (act : Action σ ε α) (next : α → Action σ ε β) (s : σ) :
    (act >>= next) s = match act s with
      | .ok a t => next a t
      | .error stop t => .error stop t := by
  show EStateM.bind act next s = _
  unfold EStateM.bind
  cases act s <;> rfl

@[simp] theorem pure_apply (a : α) (s : σ) : (pure a : Action σ ε α) s = .ok a s := rfl

@[simp] theorem get_apply (s : σ) : (get : Action σ ε σ) s = .ok s s := rfl

@[simp] theorem set_apply (s t : σ) : (set t : Action σ ε PUnit) s = .ok ⟨⟩ t := rfl

@[simp] theorem modify_apply (f : σ → σ) (s : σ) :
    (modify f : Action σ ε PUnit) s = .ok ⟨⟩ (f s) := rfl

end Action
end FirmwareUpdate
