import FirmwareUpdate.Proofs.Update.Validity

/-! The digest of an image takes in the checksum of its header, so that a body goes with any header that has the
same checksum and with no other. -/
namespace FirmwareUpdate

namespace Backend
variable {key₁ key₂ : Key} {bytes bytes₁ bytes₂ : Bytes} {h₁ h₂ : Header}

/-- The header that the first string starts with, in front of the body and the digest that the second one has behind
its own header. -/
def grafted (bytes₁ bytes₂ : Bytes) (size : Nat) : Bytes :=
  bytes₁.take Header.encodedSize ++ Bytes.slice bytes₂ Header.encodedSize (size + 4)

private theorem parts_of_grafted {size : Nat} (hlong₁ : Header.encodedSize ≤ bytes₁.length)
    (hlong₂ : Header.encodedSize + size + 4 ≤ bytes₂.length) (hfront : grafted bytes₁ bytes₂ size <+: bytes) :
    Header.encodedSize + size + 4 ≤ bytes.length ∧
      bytes.take Header.encodedSize = bytes₁.take Header.encodedSize ∧
      Bytes.slice bytes Header.encodedSize size = Bytes.slice bytes₂ Header.encodedSize size ∧
      Bytes.slice bytes (Header.encodedSize + size) 4 = Bytes.slice bytes₂ (Header.encodedSize + size) 4 := by
  have hhead : (bytes₁.take Header.encodedSize).length = Header.encodedSize := List.length_take_of_le hlong₁
  have hbody : (Bytes.slice bytes₂ Header.encodedSize size).length = size := by
    rw [Bytes.length_slice]
    omega
  have hdigest : (Bytes.slice bytes₂ (Header.encodedSize + size) 4).length = 4 := by
    rw [Bytes.length_slice]
    omega
  rw [grafted, ← Bytes.slice_append, ← List.append_assoc] at hfront
  have hlong := hfront.length_le
  have hparts := Bytes.slices_of_front hfront
  rw [List.length_append, List.length_append, hhead, hbody, hdigest] at hlong
  rw [hhead, hbody, hdigest] at hparts
  exact ⟨hlong, hparts⟩

/-- What is found of the header of one valid image with the body of another. -/
theorem Accepts.assess_grafted (key : Key) (ha₁ : Accepts {} key₁ false bytes₁ h₁)
    (ha₂ : Accepts {} key₂ false bytes₂ h₂) (hsize : h₂.size = h₁.size)
    (hfront : grafted bytes₁ bytes₂ h₁.size.toNat <+: bytes) :
    assess {} key false bytes = if h₁.checksum = h₂.checksum then .ok h₁ else .error .digestMismatch := by
  have hfits₂ : Header.encodedSize + h₂.size.toNat + 4 ≤ bytes₂.length := ha₂.fits
  have hdigest₂ : Bytes.slice bytes₂ (Header.encodedSize + h₂.size.toNat) 4 =
      Bytes.ofWord (Crc32.checksum (h₂.seed ++ Bytes.slice bytes₂ Header.encodedSize h₂.size.toNat)) := ha₂.digest
  rw [hsize] at hfits₂ hdigest₂
  obtain ⟨hlong, hhead, hbody, hdigest⟩ := parts_of_grafted ha₁.complete hfits₂ hfront
  have hcomplete : Header.encodedSize ≤ bytes.length := by omega
  have hheads : Heads {} bytes h₁ := ⟨hcomplete, (congrArg Header.decode hhead).trans ha₁.decodes⟩
  -- The stored digest was made for the body behind its own header.
  have hchained : Bytes.slice bytes (Header.encodedSize + h₁.size.toNat) 4 =
      Bytes.ofWord (Crc32.checksum (h₁.seed ++ Bytes.slice bytes Header.encodedSize h₁.size.toNat)) ↔
        h₁.checksum = h₂.checksum := by
    rw [hdigest, hbody, hdigest₂, Bytes.ofWord_injective.eq_iff, Header.seed, Header.seed,
      (Crc32.checksum_word_injective _).eq_iff]
    exact eq_comm
  have hroom : ¬bytes.length < Backend.headerLength {} + h₁.bodyLength false + Backend.digestLength {} :=
    Nat.not_lt.mpr hlong
  rw [assess_of_heads hheads, judge, if_neg (by simp), if_neg hroom, if_neg (by simp)]
  by_cases hsame : h₁.checksum = h₂.checksum
  · rw [if_pos hsame]
    exact if_neg (not_not.mpr (hchained.mpr hsame))
  · rw [if_neg hsame]
    exact if_pos fun hequal => hsame (hchained.mp hequal)

end Backend

namespace Engine
variable {n k n₁ k₁ n₂ k₂ : Nat} {e : Engine n k} {e₁ e₁' : Engine n₁ k₁} {e₂ e₂' : Engine n₂ k₂}
  {slot slot₁ slot₂ : SlotId} {bytes bytes₁ bytes₂ : Bytes} {header header₁ header₂ : Header}

/-- A slot for plain images holds these bytes. The engine is in service and its digests are checksums. -/
structure Shelves (e : Engine n k) (slot : SlotId) (bytes : Bytes) : Prop where
  inService : e.InService
  backend : e.backend = {}
  plain : e.holdsEncrypted slot = false
  held : ∃ memory entry, e.storage.lookup? slot = .ok (memory, entry) ∧ e.storage.held memory entry = bytes

/-- What is found of the bytes on the shelf is what is to be found of them, unless a device is at fault. -/
theorem Shelves.examine_ends (h : e.Shelves slot bytes) :
    (examine slot).Ends e (fun header _ => Backend.assess {} e.key false bytes = .ok header)
      (fun cause e' => e.Faulted e' ∨ Backend.assess {} e.key false bytes = .error cause) False := by
  obtain ⟨memory, entry, hl, hheld⟩ := h.held
  have hshows := h.inService.shows hl
  have hverdict : (e.viewOf slot memory entry).verdict = Backend.assess {} e.key false bytes := by
    simp only [View.verdict, viewOf]
    rw [h.backend, h.plain, hheld]
  have hhonest : e.backend.Honest := by
    rw [h.backend]
    exact Nat.le_refl _
  rw [← hverdict]
  exact (hshows.verdict_ends hhonest).imp (fun _ _ hended => hended.2)
    (fun _ _ hended => hended.2.imp Broken.faulted id) id

private theorem Shelves.accepts (h : e₁.Shelves slot bytes) (hexamined : examine slot e₁ = .ok header e₁') :
    Backend.Accepts {} e₁.key false bytes header :=
  Backend.assess_ok_iff.mp (h.examine_ends.done_of_ok hexamined)

/-- The header of one image that has been accepted, in front of the body and the digest of another one of its size,
is accepted if the checksums of the two headers are the same. Otherwise the digest gives the change away. -/
theorem examine_grafted (h₁ : e₁.Shelves slot₁ bytes₁) (hexamined₁ : examine slot₁ e₁ = .ok header₁ e₁')
    (h₂ : e₂.Shelves slot₂ bytes₂) (hexamined₂ : examine slot₂ e₂ = .ok header₂ e₂')
    (hsize : header₂.size = header₁.size) (h : e.Shelves slot bytes)
    (hfront : Backend.grafted bytes₁ bytes₂ header₁.size.toNat <+: bytes) :
    (examine slot).Ends e
      (fun header _ => header = header₁ ∧ header₁.checksum = header₂.checksum)
      (fun cause e' => e.Faulted e' ∨ cause = .digestMismatch ∧ header₁.checksum ≠ header₂.checksum) False := by
  have hassess := (h₁.accepts hexamined₁).assess_grafted e.key (h₂.accepts hexamined₂) hsize hfront
  refine h.examine_ends.imp ?_ ?_ id
  · intro header e' hended
    rw [hassess] at hended
    split at hended
    · exact ⟨(Except.ok.inj hended).symm, ‹_›⟩
    · cases hended
  · intro cause e' hended
    refine hended.imp id fun herror => ?_
    rw [hassess] at herror
    split at herror
    · cases herror
    · exact ⟨(Except.error.inj herror).symm, ‹_›⟩

/-- The header of one image of the small board with the body of the other, in the third slot. -/
theorem sample_examine_grafted : ∃ (e e₁ e₂ : Engine 1 0) (header₁ header₂ : Header),
    examine ⟨0, 0⟩ e = .ok header₁ e₁ ∧ examine ⟨0, 1⟩ e = .ok header₂ e₂ ∧
      (examine ⟨0, 2⟩).Ends e (fun _ _ => False) (fun cause e' => e.Faulted e' ∨ cause = .digestMismatch) False := by
  have hcheck : ((bringUp (Sample.plan 64) (.flash 0) none {}).passes
      (Sample.board (Sample.image 1 [16, 7]) (Sample.image 2 [16, 9])
        (Backend.grafted (Sample.image 1 [16, 7]) (Sample.image 2 [16, 9]) 8)) fun e _ =>
      (examine ⟨0, 0⟩).passes e fun header₁ _ =>
        (examine ⟨0, 1⟩).passes e fun header₂ _ =>
          let first := e.storage.held Sample.memory (Sample.slot 0 .theApplication)
          let second := e.storage.held Sample.memory (Sample.slot 128 .anUpdate)
          let third := e.storage.held Sample.memory (Sample.slot 256 .aBackup)
          decide (Sample.Holds e.storage ∧ e.policy.encryptSecond = false ∧ header₂.size = header₁.size ∧
            header₁.checksum ≠ header₂.checksum ∧
            Backend.grafted first second header₁.size.toNat <+: third)) = true := by
    decide +kernel
  obtain ⟨e, bare, hup, hcheck⟩ := Action.exists_of_passes hcheck
  obtain ⟨header₁, e₁, hexamined₁, hcheck⟩ := Action.exists_of_passes hcheck
  obtain ⟨header₂, e₂, hexamined₂, hcheck⟩ := Action.exists_of_passes hcheck
  obtain ⟨hholds, hclear, hsize, hdiffer, hfront⟩ := of_decide_eq_true hcheck
  obtain ⟨he, -, -, -, hbackend, -⟩ := (bringUp_ends (by simp)).done_of_ok hup
  obtain ⟨hl₁, hl₂, hl⟩ := hholds.lookup?
  have hshelves : ∀ {slot memory entry}, e.storage.lookup? slot = .ok (memory, entry) →
      e.Shelves slot (e.storage.held memory entry) := by
    intro slot memory entry hl
    exact ⟨he, hbackend, by simp [holdsEncrypted, hclear], memory, entry, hl, rfl⟩
  refine ⟨e, e₁, e₂, header₁, header₂, hexamined₁, hexamined₂,
    (examine_grafted (hshelves hl₁) hexamined₁ (hshelves hl₂) hexamined₂ hsize (hshelves hl) hfront).imp ?_ ?_ id⟩
  · exact fun _ _ hended => hdiffer hended.2
  · exact fun _ _ hended => hended.imp id And.left

end Engine
end FirmwareUpdate
