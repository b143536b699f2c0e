import FirmwareUpdate.Proofs.Storage.Places
import FirmwareUpdate.Proofs.Storage.Upkeep

/-! What a storage does without writing comes down to a few calls on its devices, which bring a device up, look at
it and give it back. A condition that those calls keep is kept by all of it. -/
namespace FirmwareUpdate.Storage
variable {n k : Nat} {ε α : Type} {s t : Storage n k} {J : Storage n k → Prop} {trapped : Prop} {memory : Memory n k}
  {slot : SlotId} {offset length : Nat}

/-- A condition of the devices of a storage, and of its buffer, that is kept by every call on a device that does not
write. The bytes that are pending may be dropped. -/
structure Tended (J : Storage n k → Prop) (trapped : Prop) : Prop where
  aside : ∀ s t, J s → t.devices = s.devices → t.memories = s.memories →
    t.buffer = s.buffer ∨ t.buffer = s.buffer.dropPending → J t
  initFlash : ∀ d, Action.Preserves J trapped (onFlash d (do FlashLink.init; FlashLink.awaitReady) : Call n k Unit)
  readFlash : ∀ d start length, Action.Preserves J trapped (onFlash d (FlashLink.read start length) : Call n k Bytes)
  releaseFlash : ∀ d, Action.Preserves J trapped (onFlash d FlashLink.release : Call n k Unit)
  initStore : ∀ d, Action.Preserves J trapped (onStore d FileLink.init : Call n k Unit)
  openFile : ∀ d path mode, Action.Preserves J trapped (onStore d (FileLink.openFile path mode) : Call n k Nat)
  readFile : ∀ d handle offset length,
    Action.Preserves J trapped (onStore d (FileLink.read handle offset length) : Call n k Bytes)
  closeFile : ∀ d handle, Action.Preserves J trapped (onStore d (FileLink.close handle) : Call n k Unit)
  releaseStore : ∀ d, Action.Preserves J trapped (onStore d FileLink.release : Call n k Unit)

namespace Tended
variable (h : Tended J trapped)
include h

/-- What is not on a device may change, but of the buffer only that nothing is pending any more. -/
theorem modify {f : Storage n k → Storage n k} (hd : ∀ s, (f s).devices = s.devices)
    (hm : ∀ s, (f s).memories = s.memories) (hb : ∀ s, (f s).buffer = s.buffer ∨ (f s).buffer = s.buffer.dropPending) :
    Action.Preserves J trapped (modify f : Action (Storage n k) ε PUnit) :=
  .modify fun s hs => h.aside s _ hs (hd s) (hm s) (hb s)

/-- Dropping what is pending keeps what is tended to. -/
theorem dropPending : Action.Preserves J trapped (dropPending : Action (Storage n k) ε Unit) :=
  h.modify (fun _ => rfl) (fun _ => rfl) fun _ => Or.inr rfl

/-! ### Settling -/

private theorem closeSlots (device : Fin k) (slots : List SlotId) :
    Action.Preserves J trapped (closeSlots device slots : Action (Storage n k) ε Bool) := by
  have hclose : ∀ slot, Action.Preserves J trapped (closeSlot slot device : Action (Storage n k) ε Bool) := by
    intro slot
    refine .get_bind fun s _ => ?_
    split
    · exact .pure _
    · refine .bind (h.modify (fun _ => rfl) (fun _ => rfl) fun _ => Or.inl rfl) fun _ => ?_
      refine .bind (h.closeFile _ _).attempt fun answer => ?_
      split
      · exact .pure _
      · exact .pure _
  induction slots with
  | nil => exact .pure _
  | cons slot rest ih => exact .bind (hclose slot) fun closed => .bind ih fun others => .pure _

private theorem closeMemory {index : Nat} :
    Action.Preserves J trapped (closeMemory index memory : Action (Storage n k) ε Bool) := by
  simp only [Storage.closeMemory]
  split
  · exact .pure _
  · exact h.closeSlots _ _

omit h in
private theorem everyMemory {step : Nat → Memory n k → Action (Storage n k) ε Bool}
    (hstep : ∀ index memory, Action.Preserves J trapped (step index memory)) (index : Nat)
    (memories : List (Memory n k)) : Action.Preserves J trapped (everyMemory step index memories) := by
  induction memories generalizing index with
  | nil => exact .pure _
  | cons memory rest ih => exact .bind (hstep index memory) fun agreed => .bind (ih _) fun others => .pure _

private theorem releaseDevice (device : DeviceId n k) :
    Action.Preserves J trapped (match device with
      | .flash d => onFlash d FlashLink.release
      | .files d => onStore d FileLink.release : Call n k Unit) := by
  cases device with
  | flash d => exact h.releaseFlash d
  | files d => exact h.releaseStore d

/-- Settling a memory keeps what is tended to. -/
theorem settle (index : Nat) : Action.Preserves J trapped (settle index : Action (Storage n k) ε Unit) := by
  refine .bind h.dropPending fun _ => .get_bind fun s _ => ?_
  split
  · exact .pure _
  · split
    · rename_i d _
      exact .bind (h.releaseFlash d).attempt fun _ => .pure _
    · exact .bind h.closeMemory fun _ => .pure _

/-- A guarded call that keeps what is tended to keeps it also when it fails. -/
theorem guarding {index : Nat} {calls : Call n k α} (hcalls : Action.Preserves J trapped calls) :
    Action.Preserves J trapped (guarding index calls) := by
  refine .bind hcalls.attempt fun answer => ?_
  split
  · exact .pure _
  · exact .bind (h.settle index) fun _ => .fail _

/-- Switching the devices on keeps what is tended to. -/
theorem init : Action.Preserves J trapped (init : Op n k Unit) := by
  have hmemory : ∀ index memory, Action.Preserves J trapped (initMemory index memory : Op n k Unit) := by
    intro index memory
    refine h.guarding ?_
    split
    · exact h.initFlash _
    · exact h.initStore _
  have hfrom : ∀ memories index, Action.Preserves J trapped (initFrom index memories : Op n k Unit) := by
    intro memories
    induction memories with
    | nil => exact fun _ => .pure ()
    | cons memory rest ih => exact fun index => .bind (hmemory index memory) fun _ => ih _
  exact .get_bind fun s _ => hfrom _ _

/-- Closing the files keeps what is tended to. -/
theorem closeFiles : Action.Preserves J trapped (closeFiles : Op n k Unit) := by
  refine .get_bind fun s _ => .bind (everyMemory (fun _ _ => h.closeMemory) _ _) fun closed => ?_
  split
  · exact .pure ()
  · exact .fail _

/-- Giving the devices back keeps what is tended to. -/
theorem release : Action.Preserves J trapped (release : Op n k Unit) := by
  have hmemory : ∀ index memory, Action.Preserves J trapped
      (releaseMemory index memory : Action (Storage n k) Error Bool) := by
    intro index memory
    refine .bind (h.releaseDevice memory.device).attempt fun answer => ?_
    split
    · exact .pure _
    · exact .pure _
  refine .bind h.dropPending fun _ => .get_bind fun s _ => ?_
  refine .bind (everyMemory (fun _ _ => h.closeMemory) _ _) fun closed => ?_
  refine .bind (everyMemory hmemory _ _) fun released => ?_
  split
  · exact .pure ()
  · exact .fail _

/-! ### Reading -/

/-- Finding the handle of a slot keeps what is tended to. -/
theorem handleFor {d : Fin k} {path : String} {mode : FileMode} :
    Action.Preserves J trapped (handleFor slot d path mode : Call n k Nat) :=
  handleFor_of_calls (fun s _ hs => h.aside s _ hs rfl rfl (Or.inl rfl)) (h.openFile _ _ _) (h.closeFile _)

/-- An address inside a slot on flash must be in reach, or the storage may trap. -/
theorem read (hreach : ∀ s memory entry d address, J s → s.lookup? slot = .ok (memory, entry) →
      memory.device = .flash d → entry.location = .flash address → offset ≤ entry.size →
      UInt32.size ≤ address + offset → trapped) :
    Action.Preserves J trapped (read slot offset length : Op n k Bytes) := by
  refine read_of_calls hreach (fun _ _ => h.guarding (h.readFlash _ _ _)) ?_
  intro s memory entry d path hs hl hd hp
  refine h.guarding (.bind h.handleFor fun handle => ?_)
  exact .bind (h.readFile _ _ _ _) fun _ => .pure _

end Tended

/-! ### Links -/

section Links
variable {memories : List (Memory n k)} {F : Fin n → FlashLink → Prop} {G : Fin k → FileLink → Prop}

/-- The memories are these, and each link is in its condition. -/
structure Linked (memories : List (Memory n k)) (F : Fin n → FlashLink → Prop) (G : Fin k → FileLink → Prop)
    (s : Storage n k) : Prop where
  memories : s.memories = memories
  flash : ∀ d, F d (s.flashLink d)
  store : ∀ d, G d (s.fileLink d)

private theorem onFlash_linked {d : Fin n} {call : FlashLink.Call α} (h : Action.Preserves (F d) True call) :
    Action.Preserves (Linked memories F G) True (onFlash d call) := by
  refine h.focus (fun s hs => hs.flash d) fun s link hs hlink => ⟨hs.memories, fun d' => ?_, hs.store⟩
  show F d' ((s.withFlash d link).flashLink d')
  rw [flashLink_withFlash]
  split
  · rename_i hd
    exact hd ▸ hlink
  · exact hs.flash d'

private theorem onStore_linked {d : Fin k} {call : FileLink.Call α} (h : Action.Preserves (G d) True call) :
    Action.Preserves (Linked memories F G) True (onStore d call) := by
  refine h.focus (fun s hs => hs.store d) fun s link hs hlink => ⟨hs.memories, hs.flash, fun d' => ?_⟩
  show G d' ((s.withStore d link).fileLink d')
  rw [fileLink_withStore]
  split
  · rename_i hd
    exact hd ▸ hlink
  · exact hs.store d'

/-- What is indifferent to the devices is kept by all calls but those to write and to erase. -/
theorem tended_of_links (hF : ∀ d, Link.Indifferent (F d)) (hG : ∀ d, Link.Indifferent (G d)) :
    Tended (Linked memories F G) True where
  aside s t hs hd hm _ := by
    refine ⟨hm.trans hs.memories, fun d => ?_, fun d => ?_⟩
    · simp only [flashLink, hd]
      exact hs.flash d
    · simp only [fileLink, hd]
      exact hs.store d
  initFlash d := onFlash_linked (.bind ((hF d).call (by decide) (by decide)) fun _ =>
    FlashLink.awaitReady_of_indifferent (hF d))
  readFlash d _ _ := onFlash_linked ((hF d).call (by decide) (by decide))
  releaseFlash d := onFlash_linked ((hF d).call (by decide) (by decide))
  initStore d := onStore_linked ((hG d).call (by decide) (by decide))
  openFile d _ _ := onStore_linked ((hG d).call (by decide) (by decide))
  readFile d _ _ _ := onStore_linked ((hG d).call (by decide) (by decide))
  closeFile d _ := onStore_linked ((hG d).call (by decide) (by decide))
  releaseStore d := onStore_linked ((hG d).call (by decide) (by decide))

end Links
end FirmwareUpdate.Storage
