import FirmwareUpdate.Boot.EntryPoint
import FirmwareUpdate.Proofs.Update.Examine

/-! The reset vector of an application: what the engine reads, and when it takes it for a plausible one. -/
namespace FirmwareUpdate
variable {n k : Nat}

/-- The word after the first one of the vector table is not erased and points into the slot that the
bytes are those of. -/
structure Plausible (tableOffset address : Nat) (bytes : Bytes) : Prop where
  inside : tableOffset + entryOffset + 4 ≤ bytes.length
  programmed : (Bytes.wordAt bytes (tableOffset + entryOffset)).toNat ≠ blankWord
  lower : address ≤ (Bytes.wordAt bytes (tableOffset + entryOffset)).toNat
  upper : (Bytes.wordAt bytes (tableOffset + entryOffset)).toNat < address + bytes.length

instance (tableOffset address : Nat) (bytes : Bytes) : Decidable (Plausible tableOffset address bytes) :=
  decidable_of_iff (tableOffset + entryOffset + 4 ≤ bytes.length ∧
      (Bytes.wordAt bytes (tableOffset + entryOffset)).toNat ≠ blankWord ∧
      address ≤ (Bytes.wordAt bytes (tableOffset + entryOffset)).toNat ∧
      (Bytes.wordAt bytes (tableOffset + entryOffset)).toNat < address + bytes.length)
    ⟨fun h => ⟨h.1, h.2.1, h.2.2.1, h.2.2.2⟩, fun h => ⟨h.inside, h.programmed, h.lower, h.upper⟩⟩

private theorem Bytes.wordAt_slice (bytes : Bytes) (start : Nat) :
    wordAt (slice bytes start 4) 0 = wordAt bytes start := by
  have hbyte : ∀ i, i < 4 → (slice bytes start 4).getD i 0 = bytes.getD (start + i) 0 := by
    intro i hi
    rw [List.getD_eq_getElem?_getD, List.getD_eq_getElem?_getD, getElem?_slice, if_pos hi]
  simp only [wordAt]
  rw [hbyte 0 (by omega), hbyte 1 (by omega), hbyte 2 (by omega), hbyte 3 (by omega), Nat.add_zero]

/-- Only the bytes up to the vector decide, and how many there are. -/
theorem Plausible.of_front {tableOffset address : Nat} {front bytes bytes' : Bytes}
    (h : Plausible tableOffset address bytes) (hfront : front <+: bytes) (hfront' : front <+: bytes')
    (hlength : bytes'.length = bytes.length) (hin : tableOffset + entryOffset + 4 ≤ front.length) :
    Plausible tableOffset address bytes' := by
  have hword : Bytes.wordAt bytes' (tableOffset + entryOffset) = Bytes.wordAt bytes (tableOffset + entryOffset) := by
    rw [← Bytes.wordAt_slice bytes', ← Bytes.wordAt_slice bytes, Bytes.slice_of_front hfront' hin,
      Bytes.slice_of_front hfront hin]
  refine ⟨hlength ▸ h.inside, ?_, ?_, ?_⟩
  · rw [hword]
    exact h.programmed
  · rw [hword]
    exact h.lower
  · rw [hword, hlength]
    exact h.upper

/-- The entry in a vector table is accepted exactly if it is set and points into the slot. -/
theorem checkEntry_iff {vector address size : Nat} :
    checkEntry vector address size = .ok () ↔ vector ≠ blankWord ∧ address ≤ vector ∧ vector < address + size := by
  simp only [checkEntry]
  split <;> simp_all

/-- The check of the vector in the bytes of a slot at this address. -/
def checkVector (tableOffset address : Nat) (bytes : Bytes) : Except Error Unit :=
  if tableOffset + entryOffset + 4 ≤ bytes.length then
    checkEntry (Bytes.wordAt bytes (tableOffset + entryOffset)).toNat address bytes.length
  else .error .invalidLength

/-- The condition on a vector table, as the check that decides it. -/
theorem plausible_iff {tableOffset address : Nat} {bytes : Bytes} :
    Plausible tableOffset address bytes ↔ checkVector tableOffset address bytes = .ok () := by
  simp only [checkVector]
  split
  · rename_i hinside
    rw [checkEntry_iff]
    exact ⟨fun h => ⟨h.programmed, h.lower, h.upper⟩, fun h => ⟨hinside, h.1, h.2.1, h.2.2⟩⟩
  · rename_i houtside
    exact ⟨fun h => absurd h.inside houtside, nofun⟩

namespace Engine
variable {e : Engine n k} {v : View n k}

/-- The engine accepts a plausible vector and no other, or finds the device at fault. -/
theorem Shows.entryPoint_ends {address : Nat} (h : e.Shows v) (ha : v.entry.location = .flash address) :
    (entryPoint v.slot).Ends e
      (fun vector e' => e.Still e' ∧ Plausible e.tuning.tableOffset address v.bytes ∧
        vector = (Bytes.wordAt v.bytes (e.tuning.tableOffset + entryOffset)).toNat)
      (fun cause e' => e.Still e' ∧
        (FaultedAt v.slot e e' ∨ checkVector e.tuning.tableOffset address v.bytes = .error cause))
      e.storage.AtTop := by
  have hlen := h.length_bytes
  have hslot : e.storage.slot? v.slot = .ok v.entry := by
    simp only [Storage.slot?]
    rw [h.lookup]
    rfl
  have haddress : v.entry.address? = some address := by
    simp only [Slot.address?]
    rw [ha]
    rfl
  simp only [entryPoint]
  simp only [Action.ends_get_bind, hslot, Action.ofExcept, Action.ends_pure_bind, haddress]
  by_cases hin : e.tuning.tableOffset + entryOffset + 4 ≤ v.entry.size
  · refine (h.read_ends hin).bind ?_ (fun _ e' hb => ⟨hb.still, Or.inl ⟨_, _, h.lookup, hb.onDevice⟩⟩) And.right
    intro word e' hended
    obtain ⟨hstill, -, rfl⟩ := hended
    have hvector : checkVector e.tuning.tableOffset address v.bytes =
        checkEntry (Bytes.wordAt v.bytes (e.tuning.tableOffset + entryOffset)).toNat address v.entry.size := by
      rw [checkVector, hlen, if_pos hin]
    rw [Bytes.wordAt_slice, ← hvector]
    cases hcheck : checkVector e.tuning.tableOffset address v.bytes with
    | ok => exact ⟨hstill, plausible_iff.mpr hcheck, rfl⟩
    | error cause => exact ⟨hstill, Or.inr rfl⟩
  · simp only [Action.Ends]
    rw [Action.bind_of_error (h.read_of_outside (Nat.lt_of_not_le hin))]
    refine ⟨Still.refl e, Or.inr ?_⟩
    rw [checkVector, hlen, if_neg hin]

end Engine
end FirmwareUpdate
