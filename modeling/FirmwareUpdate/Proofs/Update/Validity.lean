import FirmwareUpdate.Proofs.Update.Assembly
import FirmwareUpdate.Proofs.Update.Examine
import FirmwareUpdate.Proofs.Update.Frame

/-! Valid images in the slots of an engine in service, and what keeps an image valid. -/
namespace FirmwareUpdate.Engine
variable {n k : Nat} {e e' e'' : Engine n k} {slot : SlotId} {header : Header} {memory : Memory n k} {entry : Slot}
  {P : Place n k → Prop}

/-- The bytes of the slot start with a valid image with this header. -/
def Valid (e : Engine n k) (slot : SlotId) (header : Header) : Prop :=
  ∃ memory entry, e.storage.lookup? slot = .ok (memory, entry) ∧
    e.backend.Accepts e.key (e.holdsEncrypted slot) (e.storage.held memory entry) header

def viewOf (e : Engine n k) (slot : SlotId) (memory : Memory n k) (entry : Slot) : View n k :=
  ⟨slot, memory, entry, e.storage.held memory entry, e.backend, e.key, e.holdsEncrypted slot⟩

/-- Every slot of an engine in service has a view. -/
theorem InService.shows (he : e.InService) (hl : e.storage.lookup? slot = .ok (memory, entry)) :
    e.Shows (e.viewOf slot memory entry) :=
  ⟨he.inOrder, he.chunk_pos, hl, rfl, rfl, rfl, rfl⟩

/-- A valid image in a slot is one that the view of it accepts. -/
theorem Shows.valid_iff {v : View n k} (h : e.Shows v) : e.Valid v.slot header ↔ v.Accepts header := by
  have hsame : e.backend.Accepts e.key (e.holdsEncrypted v.slot) (e.storage.held v.memory v.entry) header ↔
      v.Accepts header := by
    rw [h.backend, h.key, h.encrypted, h.bytes]
    exact Iff.rfl
  constructor
  · rintro ⟨memory, entry, hl, haccepts⟩
    rw [h.lookup] at hl
    cases hl
    exact hsame.mp haccepts
  · exact fun haccepts => ⟨v.memory, v.entry, h.lookup, hsame.mpr haccepts⟩

namespace Valid

/-- A valid image is in a registered slot. -/
theorem lookup (h : e.Valid slot header) : ∃ memory entry, e.storage.lookup? slot = .ok (memory, entry) := by
  obtain ⟨memory, entry, hl, -⟩ := h
  exact ⟨memory, entry, hl⟩

/-- The bytes of a slot are all that matters. -/
theorem of_held (h : e.Valid slot header) (hl : e.storage.lookup? slot = .ok (memory, entry)) (he : Changes P e e')
    (hheld : e'.storage.held memory entry = e.storage.held memory entry) : e'.Valid slot header := by
  obtain ⟨memory', entry', hl', haccepts⟩ := h
  rw [hl] at hl'
  cases hl'
  refine ⟨memory, entry, he.storage.lookup? hl, ?_⟩
  rw [he.backend, he.key, he.holdsEncrypted, hheld]
  exact haccepts

/-- An image stays valid as long as nothing changes in its slot. -/
theorem of_changes (h : e.Valid slot header) (hl : e.storage.lookup? slot = .ok (memory, entry))
    (he : Changes P e e') (hp : ∀ p, e.storage.within memory entry p → ¬P p) : e'.Valid slot header :=
  h.of_held hl he (he.storage.held_eq hp)

/-- A valid image in primary memory is plain. -/
theorem plain (h : e.Valid slot header) (hl : e.storage.lookup? slot = .ok (memory, entry))
    (hprimary : memory.tier = .primary) :
    e.backend.Accepts e.key false (e.storage.held memory entry) header := by
  obtain ⟨memory', entry', hl', haccepts⟩ := h
  rw [hl] at hl'
  cases hl'
  rwa [holdsEncrypted_of_primary hl hprimary] at haccepts

end Valid

/-- An engine that is still has the same valid images. -/
theorem Still.valid_iff (h : e.Still e') : e'.Valid slot header ↔ e.Valid slot header := by
  simp only [Valid]
  rw [h.backend, h.key, h.holdsEncrypted, h.storage.setup.lookup?]
  refine exists_congr fun memory => exists_congr fun entry => ?_
  rw [h.storage.held_eq fun _ _ h => h]

/-- A slot has one valid image at most. -/
theorem valid_unique {header' : Header} (h : e.Valid slot header) (h' : e.Valid slot header') :
    header' = header := by
  obtain ⟨memory, entry, hl, haccepts⟩ := h
  obtain ⟨memory', entry', hl', haccepts'⟩ := h'
  rw [hl] at hl'
  cases hl'
  exact Except.ok.inj (haccepts'.decodes.symm.trans haccepts.decodes)

/-- Bringing the devices up again changes no byte. -/
theorem InService.init_ends (he : e.InService) :
    (onStorage Storage.init : Op n k Unit).Ends e (fun _ e' => e.Still e')
      (fun _ e' => e.Still e' ∧ e.Faulted e') False :=
  onStorage_ends.mpr ((Storage.init_ends he.inOrder).imp (fun _ _ h => .of_storage h.1 (Or.inl h.2))
    (fun _ _ h => ⟨.of_storage h.1 (Or.inr h.2.1), h.2.2⟩) id)

/-- Whether or not its files can be closed, no byte of an engine in service changes. -/
theorem InService.closeFiles_ends (he : e.InService) :
    (onStorage Storage.closeFiles : Op n k Unit).Ends e (fun _ e' => e.Still e') (fun _ e' => e.Still e') False :=
  onStorage_ends.mpr ((Storage.closeFiles_ends he.inOrder).imp (fun _ _ h => .of_storage h.1 (Or.inl h.2))
    (fun _ _ h => .of_storage h.1 (Or.inl h.2)) id)

/-- A fault of its device kept the image from being found valid, or it is not. -/
def Rejects (e : Engine n k) (slot : SlotId) (e' : Engine n k) : Prop :=
  FaultedAt slot e e' ∨ ∀ header, ¬e.Valid slot header

/-- What an engine that is still does before an image is rejected does not matter. -/
theorem Rejects.after (h : e.Still e') (hr : e'.Rejects slot e'') : e.Rejects slot e'' :=
  hr.imp (FaultedAt.after h.toChanges) fun hnone header hvalid => hnone header (h.valid_iff.mpr hvalid)

/-- An image is rejected whatever changes afterwards. -/
theorem Rejects.before (hr : e.Rejects slot e') (h : Changes P e' e'') : e.Rejects slot e'' :=
  hr.imp (·.before h) id

private theorem examine_of_missing {cause : Error} (hl : e.storage.lookup? slot = .error cause) :
    (examine slot).Ends e (fun _ _ => False) (fun _ e' => e.Still e') False := by
  have hread : ∀ log, (inspect slot : Op n k Header) { e with log } = .error (.error cause) { e with log } := by
    intro log
    simp [inspect, headerOf, read, onStorage, Action.focus, Storage.read, Storage.lookup, hl, Action.ofExcept]
  simp only [examine]
  refine note_bind fun log => ?_
  simp only [Action.Ends]
  rw [Action.bind_apply, Action.attempt, hread log]
  exact (still_log e log).trans (still_log _ _)

/-- Examining a slot finds out whether it is valid, but for the fault of a device. -/
theorem InService.examine_ends (he : e.InService) (slot : SlotId) :
    (examine slot).Ends e (fun header e' => e.Still e' ∧ e.Valid slot header)
      (fun _ e' => e.Still e' ∧ e.Rejects slot e') e.storage.AtTop := by
  cases hl : e.storage.lookup? slot with
  | error cause =>
    refine (examine_of_missing hl).imp (fun _ _ h => h.elim) ?_ False.elim
    refine fun _ e' hstill => ⟨hstill, Or.inr fun header hvalid => ?_⟩
    obtain ⟨memory, entry, hl', -⟩ := hvalid
    rw [hl] at hl'
    cases hl'
  | ok found =>
    obtain ⟨memory, entry⟩ := found
    have hshows := he.shows hl
    refine hshows.examine_ends.imp ?_ ?_ False.elim
    · exact fun header e' h => ⟨h.1, hshows.valid_iff.mpr h.2⟩
    · intro _ e' hended
      obtain ⟨hstill, hb | hnone⟩ := hended
      · exact ⟨hstill, Or.inl ⟨memory, entry, hl, hb.onDevice⟩⟩
      · exact ⟨hstill, Or.inr fun header hvalid => hnone header (hshows.valid_iff.mp hvalid)⟩

end FirmwareUpdate.Engine
