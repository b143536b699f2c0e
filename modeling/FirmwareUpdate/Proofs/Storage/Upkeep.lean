import FirmwareUpdate.Proofs.Action
import FirmwareUpdate.Storage.Access

/-! Conditions that a storage is kept in whatever is asked of it, and the requests that can be made. -/
namespace FirmwareUpdate.Storage
variable {n k : Nat} {ε α : Type} {s₀ s : Storage n k} {J : Storage n k → Prop} {T : SlotId → Prop}
  {trapped : Prop} {slot source target : SlotId} {offset length : Nat}

/-- A storage in the condition `J`, which has the memories of `s₀`, is kept in it, however its steps end. Of
the slots, only those in `T` are written to. -/
structure Upkeep (s₀ : Storage n k) (J : Storage n k → Prop) (T : SlotId → Prop) (trapped : Prop) : Prop where
  memories : ∀ s, J s → s.memories = s₀.memories
  reach : ∀ slot memory entry address, s₀.lookup? slot = .ok (memory, entry) → entry.location = .flash address →
    address + entry.size ≤ UInt32.size
  read : ∀ slot offset length, Action.Preserves J trapped (read slot offset length : Op n k Bytes)
  write : ∀ slot offset data mode, T slot → Action.Preserves J trapped (write slot offset data mode : Op n k Unit)
  erase : ∀ slot offset length, T slot → Action.Preserves J trapped (erase slot offset length : Op n k Unit)
  dropPending : ∀ {ε : Type}, Action.Preserves J trapped (dropPending : Action (Storage n k) ε Unit)
  settle : ∀ {ε : Type} index, Action.Preserves J trapped (settle index : Action (Storage n k) ε Unit)
  init : Action.Preserves J trapped (init : Op n k Unit)
  closeFiles : Action.Preserves J trapped (closeFiles : Op n k Unit)
  release : Action.Preserves J trapped (release : Op n k Unit)

private theorem lookup_preserves : Action.Preserves J trapped (lookup slot : Op n k (Memory n k × Slot)) :=
  .get_bind fun _ _ => .ofExcept _

/-- A request for a slot may be looked at where that slot is there. -/
theorem lookup_bind {next : Memory n k × Slot → Op n k α}
    (h : ∀ s memory entry, J s → s.lookup? slot = .ok (memory, entry) →
      Action.Preserves J trapped (next (memory, entry))) : Action.Preserves J trapped (lookup slot >>= next) := by
  simp only [lookup]
  rw [bind_assoc]
  exact .get_bind fun s hs => .ofExcept_bind fun found hl => h s _ _ hs hl

/-- An access may be looked at where it is inside its slot. -/
theorem requireInside_bind {entry : Slot} {next : Unit → Op n k α}
    (h : offset + length ≤ entry.size → Action.Preserves J trapped (next ())) :
    Action.Preserves J trapped (requireInside entry offset length >>= next) := by
  simp only [requireInside]
  split
  · exact h (by assumption)
  · exact Action.Preserves.fail _

private theorem requireInside_preserves {entry : Slot} :
    Action.Preserves J trapped (requireInside entry offset length : Op n k Unit) := by
  simp only [requireInside]
  split
  · exact .pure ()
  · exact .fail _

/-! ### Access

An access comes down to what is called on the device of its slot. On flash the address of the call may have no word. -/

/-- A read comes down to the calls on the device of its slot. -/
theorem read_of_calls
    (hreach : ∀ s memory entry d address, J s → s.lookup? slot = .ok (memory, entry) → memory.device = .flash d →
      entry.location = .flash address → offset ≤ entry.size → UInt32.size ≤ address + offset → trapped)
    (hflash : ∀ d start, Action.Preserves J trapped
      (guarding slot.memory (onFlash d (FlashLink.read start length)) : Op n k Bytes))
    (hfile : ∀ s memory entry d path, J s → s.lookup? slot = .ok (memory, entry) → memory.device = .files d →
      entry.location = .file path →
      Action.Preserves J trapped (guarding slot.memory (readFile slot d path offset length) : Op n k Bytes)) :
    Action.Preserves J trapped (read slot offset length : Op n k Bytes) := by
  refine lookup_bind fun s memory entry hs hl => requireInside_bind fun hin => ?_
  split
  · rename_i hd ha
    exact .word_bind (hreach s memory entry _ _ hs hl hd ha (by omega)) (hflash _ _)
  · rename_i hd hp
    exact hfile s memory entry _ _ hs hl hd hp
  · exact .fail _

/-- An erase comes down to the calls on the device of its slot. -/
theorem erase_of_calls
    (hreach : ∀ s memory entry d address, J s → s.lookup? slot = .ok (memory, entry) → memory.device = .flash d →
      entry.location = .flash address → offset ≤ entry.size → UInt32.size ≤ address + offset → trapped)
    (hflash : ∀ d count start, Action.Preserves J trapped
      (guarding slot.memory (onFlash d (FlashLink.eraseFrom count start)) : Op n k Unit))
    (hfile : ∀ s memory entry d path, J s → s.lookup? slot = .ok (memory, entry) → memory.device = .files d →
      entry.location = .file path →
      Action.Preserves J trapped (guarding slot.memory (eraseFile slot d path offset length) : Op n k Unit)) :
    Action.Preserves J trapped (erase slot offset length : Op n k Unit) := by
  refine lookup_bind fun s memory entry hs hl => requireInside_bind fun hin => ?_
  split
  · exact .pure ()
  · split
    · rename_i hd ha
      refine .word_bind (hreach s memory entry _ _ hs hl hd ha (by omega)) (.get_bind fun s _ => ?_)
      dsimp only
      split
      · exact hflash _ _ _
      · exact .fail _
    · rename_i hd hp
      exact hfile s memory entry _ _ hs hl hd hp
    · exact .fail _

/-- Finding the handle of a slot opens its file, and may close it before. -/
theorem handleFor_of_calls {d : Fin k} {path : String} {mode : FileMode}
    (hfiles : ∀ (s : Storage n k) openFiles, J s → J { s with openFiles })
    (hopen : Action.Preserves J trapped (onStore d (FileLink.openFile path mode) : Call n k Nat))
    (hclose : ∀ handle, Action.Preserves J trapped (onStore d (FileLink.close handle) : Call n k Unit)) :
    Action.Preserves J trapped (handleFor slot d path mode : Call n k Nat) := by
  have hopenFor : Action.Preserves J trapped (openFor slot d path mode : Call n k Nat) :=
    .bind hopen fun handle => .bind (.modify fun s hs => hfiles s _ hs) fun _ => .pure _
  refine .get_bind fun s _ => ?_
  split
  · exact hopenFor
  · split
    · exact .pure _
    · exact .bind (.modify fun s hs => hfiles s _ hs) fun _ => .bind (hclose _) fun _ => hopenFor

/-- What becomes of the buffer is of no matter to the condition. -/
theorem writeOut_of_calls (hbuffer : ∀ (s : Storage n k) (buffer : GranuleBuffer), J s → J { s with buffer })
    (hreach : ∀ s slot memory entry d address offset, J s → s.lookup? slot = .ok (memory, entry) →
      memory.device = .flash d → entry.location = .flash address → offset ≤ entry.size →
      UInt32.size ≤ address + offset → trapped)
    (hflash : ∀ s slot memory entry d start bytes, J s → s.lookup? slot = .ok (memory, entry) →
      memory.device = .flash d → Action.Preserves J trapped
        (guarding slot.memory (onFlash d (do FlashLink.write start bytes; FlashLink.awaitReady)) : Op n k Unit))
    (hfile : ∀ s slot memory entry d path offset bytes, J s → s.lookup? slot = .ok (memory, entry) →
      memory.device = .files d → entry.location = .file path →
      Action.Preserves J trapped (guarding slot.memory (writeFile slot d path offset bytes) : Op n k Unit)) :
    Action.Preserves J trapped (writeOut : Op n k Unit) := by
  refine .get_bind fun s _ => lookup_bind fun t memory entry ht hl => ?_
  have hadvance : Action.Preserves J trapped
      (modify fun s => { s with buffer := s.buffer.advanced } : Op n k Unit) :=
    .modify fun s hs => hbuffer s _ hs
  by_cases hout : entry.size < s.buffer.offset + s.buffer.granule
  · simp only [if_pos hout]
    exact .bind (.modify fun s hs => hbuffer s _ hs) fun _ => .fail _
  · simp only [if_neg hout]
    split
    · rename_i hd ha
      refine .word_bind (hreach t _ memory entry _ _ _ ht hl hd ha (by omega)) (.bind ?_ fun _ => hadvance)
      exact hflash t _ memory entry _ _ _ ht hl hd
    · rename_i hd hp
      exact .bind (hfile t _ memory entry _ _ _ _ ht hl hd hp) fun _ => hadvance
    · exact .bind (.fail _) fun _ => hadvance

/-- A run goes on where the buffer stands, or is started. -/
theorem continueRun_of_start {memory : Memory n k}
    (hstart : ∀ s, J s → J { s with buffer := .start slot offset (s.devices.granule memory.device) }) :
    Action.Preserves J trapped (continueRun slot memory offset : Op n k Unit) := by
  refine .get_bind fun s hs => ?_
  split
  · split
    · exact .pure ()
    · exact .fail _
  · dsimp only
    split
    · exact .set (hstart s hs)
    · exact .fail _

/-- Pushing bytes comes down to writing granules out. -/
theorem pushBytes_of_writeOut (hpush : ∀ s byte, J s → J { s with buffer := s.buffer.push byte })
    (hout : Action.Preserves J trapped (writeOut : Op n k Unit)) (data : Bytes) :
    Action.Preserves J trapped (pushBytes data : Op n k Unit) := by
  induction data with
  | nil => exact .pure ()
  | cons byte rest ih =>
    refine .bind (.bind (.modify fun s hs => hpush s byte hs) fun _ => .get_bind fun s _ => ?_) fun _ => ih
    split
    · exact hout
    · exact .pure ()

/-- Forcing the end out comes down to writing a granule out. -/
theorem forceOut_of_writeOut (hpad : ∀ s, J s → J { s with buffer := s.buffer.padded })
    (hout : Action.Preserves J trapped (writeOut : Op n k Unit)) :
    Action.Preserves J trapped (forceOut : Op n k Unit) := by
  refine .get_bind fun s _ => ?_
  split
  · exact .bind (.modify hpad) fun _ => hout
  · exact .pure ()

/-- A condition that has nothing to do with the buffer is kept by a write if it is when a granule is written out. -/
theorem write_of_writeOut {data : Bytes} {mode : WriteMode}
    (hbuffer : ∀ (s : Storage n k) (buffer : GranuleBuffer), J s → J { s with buffer })
    (hout : Action.Preserves J trapped (writeOut : Op n k Unit)) :
    Action.Preserves J trapped (write slot offset data mode : Op n k Unit) := by
  refine lookup_bind fun s memory entry hs hl => requireInside_bind fun _ => ?_
  refine .bind (continueRun_of_start fun s hs => hbuffer s _ hs) fun _ => ?_
  refine .bind (pushBytes_of_writeOut (fun s _ hs => hbuffer s _ hs) hout data) fun _ => ?_
  cases mode with
  | buffered => exact .pure ()
  | force => exact forceOut_of_writeOut (fun s hs => hbuffer s _ hs) hout

namespace Upkeep

/-- What upkeep keeps includes which slot a name stands for. -/
theorem lookup? (h : Upkeep s₀ J T trapped) (hs : J s) (slot : SlotId) : s.lookup? slot = s₀.lookup? slot := by
  simp only [Storage.lookup?]
  rw [h.memories s hs]

/-- What upkeep keeps includes the slots that there are. -/
theorem slots (h : Upkeep s₀ J T trapped) (hs : J s) : s.slots = s₀.slots := by
  simp only [Storage.slots]
  rw [h.memories s hs]

private theorem copySpans (h : Upkeep s₀ J T trapped) (hT : T target) (spans : List Span) :
    Action.Preserves J trapped (copySpans source target spans : Op n k Unit) := by
  induction spans with
  | nil => exact .pure ()
  | cons span rest ih => exact .bind (h.read _ _ _) fun bytes => .bind (h.write _ _ _ _ hT) fun _ => ih

/-- A copy keeps what upkeep keeps, if it may write to its target. -/
theorem copy (h : Upkeep s₀ J T trapped) (hT : T target) :
    Action.Preserves J trapped (copy source target length : Op n k Unit) := by
  simp only [Storage.copy]
  split
  · exact .fail _
  · refine .bind lookup_preserves fun _ => .bind requireInside_preserves fun _ => ?_
    refine .bind lookup_preserves fun _ => .bind requireInside_preserves fun _ => ?_
    exact .bind (h.copySpans hT _) fun _ => h.write _ _ _ _ hT

end Upkeep

/-! ### Requests -/

/-- What can be asked of a storage. -/
inductive Request where
  | init
  | read (slot : SlotId) (offset length : Nat)
  | write (slot : SlotId) (offset : Nat) (data : Bytes) (mode : WriteMode)
  | erase (slot : SlotId) (offset length : Nat)
  | copy (source target : SlotId) (length : Nat)
  | dropPending
  | settle (index : Nat)
  | closeFiles
  | release
  deriving DecidableEq, Repr

namespace Request

/-- The slot that is to be written to. -/
def target? : Request → Option SlotId
  | write slot _ _ _ | erase slot _ _ | copy _ slot _ => some slot
  | _ => none

def act : Request → Op n k Unit
  | init => Storage.init
  | read slot offset length => do
    let _ ← Storage.read slot offset length
  | write slot offset data mode => Storage.write slot offset data mode
  | erase slot offset length => Storage.erase slot offset length
  | copy source target length => Storage.copy source target length
  | dropPending => Storage.dropPending
  | settle index => Storage.settle index
  | closeFiles => Storage.closeFiles
  | release => Storage.release

end Request

/-- Meets the requests in turn, each from where the one before it ended. -/
def serve (s : Storage n k) : List Request → Storage n k
  | [] => s
  | request :: rest => (request.act.after s).serve rest

/-- A request keeps what upkeep keeps, if it may write where it does. -/
theorem Upkeep.request (h : Upkeep s₀ J T trapped) (request : Request)
    (hT : ∀ slot, request.target? = some slot → T slot) : Action.Preserves J trapped (request.act : Op n k Unit) := by
  cases request with
  | init => exact h.init
  | read slot offset length => exact .bind (h.read slot offset length) fun _ => .pure ()
  | write slot offset data mode => exact h.write slot offset data mode (hT slot rfl)
  | erase slot offset length => exact h.erase slot offset length (hT slot rfl)
  | copy source target length => exact h.copy (hT target rfl)
  | dropPending => exact h.dropPending
  | settle index => exact h.settle index
  | closeFiles => exact h.closeFiles
  | release => exact h.release

/-- Requests keep what upkeep keeps, if they may all write where they do. -/
theorem Upkeep.serve (h : Upkeep s₀ J T trapped) (ht : ¬trapped) (requests : List Request)
    (hT : ∀ request ∈ requests, ∀ slot, request.target? = some slot → T slot) (hs : J s) :
    J (s.serve requests) := by
  induction requests generalizing s with
  | nil => exact hs
  | cons request rest ih =>
    have hfirst := h.request request fun slot => hT request List.mem_cons_self slot
    exact ih (fun next hnext => hT next (List.mem_cons_of_mem request hnext)) (hfirst.after hs ht)

end FirmwareUpdate.Storage
