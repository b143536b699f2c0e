import FirmwareUpdate.Proofs.Update.Validity

/-! What examining a slot comes to is fixed by the bytes of the slot, the key and the sizes that are declared
for the header and the digest. -/
namespace FirmwareUpdate.Engine
variable {n k : Nat} {e : Engine n k} {slot : SlotId} {memory : Memory n k} {entry : Slot}

/-- Examining a slot gives the verdict on its bytes and changes none of them, whatever the chunk size. Only
the fault of a device keeps the engine from it. -/
theorem examine_gives_verdict (he : e.InService) (hhonest : e.backend.Honest)
    (hl : e.storage.lookup? slot = .ok (memory, entry)) :
    (examine slot).Ends e
      (fun header e' => e.Still e' ∧
        e.backend.assess e.key (e.holdsEncrypted slot) (e.storage.held memory entry) = .ok header)
      (fun cause e' => e.Still e' ∧ (e.Faulted e' ∨
        e.backend.assess e.key (e.holdsEncrypted slot) (e.storage.held memory entry) = .error cause)) False := by
  refine ((he.shows hl).verdict_ends hhonest).imp (fun _ _ hended => hended) ?_ id
  intro cause e' hended
  obtain ⟨hstill, hbroken | hverdict⟩ := hended
  · exact ⟨hstill, Or.inl hbroken.faulted⟩
  · exact ⟨hstill, Or.inr hverdict⟩

/-- An update that was made for another key is told from one that is damaged. -/
theorem sample_examine_gives_verdict : ∃ e : Engine 1 1, e.holdsEncrypted ⟨1, 0⟩ = true ∧
    (examine ⟨1, 0⟩).Ends e (fun _ _ => False) (fun cause e' => e.Still e' ∧ (e.Faulted e' ∨ cause = .wrongKey))
      False := by
  have hcheck : ((bringUp (Sample.securePlan (List.replicate 16 1)) (.flash 0) (some (.files 0)) {}).passes
      (Sample.secureBoard (Sample.codedImage 2 (List.replicate 16 2) [0, 16, 7, 9])) fun e _ =>
        decide (e.storage.memories[1]? = some Sample.secondMemory ∧ e.holdsEncrypted ⟨1, 0⟩ = true ∧
          e.backend.assess e.key true (e.storage.held Sample.secondMemory Sample.updateFile) = .error .wrongKey)) =
        true := by
    decide +kernel
  obtain ⟨e, after, hup, hcheck⟩ := Action.exists_of_passes hcheck
  obtain ⟨hmemory, hencrypted, hverdict⟩ := of_decide_eq_true hcheck
  obtain ⟨he, -, -, -, hbackend, -⟩ := (bringUp_ends (by simp)).done_of_ok hup
  refine ⟨e, hencrypted, (examine_gives_verdict he ?_ (Sample.lookup?_updateFile hmemory)).imp ?_ ?_ id⟩
  · rw [hbackend]
    exact Nat.le_refl _
  · intro header e' hended
    rw [hencrypted, hverdict] at hended
    cases hended.2
  · intro found e' hended
    rw [hencrypted, hverdict] at hended
    exact ⟨hended.1, hended.2.imp id fun hsame => (Except.error.inj hsame).symm⟩

end FirmwareUpdate.Engine
