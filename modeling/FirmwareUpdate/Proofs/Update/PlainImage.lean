import FirmwareUpdate.Proofs.Update.Streaming

/-! Plain images: only the bytes of the image itself decide whether it is valid, and the plain form of
a valid image is valid, with the same header. -/
namespace FirmwareUpdate.Backend
variable {b : Backend} {key key' : Key} {encrypted : Bool} {bytes bytes' : Bytes} {h : Header}

/-- Bytes of a plain image, as far as its actual digest goes. -/
def plainLength (b : Backend) (h : Header) : Nat := b.headerLength + h.size.toNat + b.algorithm.digestLength

/-- The first bytes of a plain image are enough to accept it in another slot. -/
theorem Accepts.of_front (ha : b.Accepts key false bytes h)
    (hhonest : b.Honest)
    (hfront : bytes.take (b.headerLength + h.size.toNat + b.digestLength) <+: bytes') :
    b.Accepts key' false bytes' h := by
  have hfits : b.headerLength + h.size.toNat + b.digestLength ≤ bytes.length := ha.fits
  have hlen : (bytes.take (b.headerLength + h.size.toNat + b.digestLength)).length =
      b.headerLength + h.size.toNat + b.digestLength := List.length_take_of_le hfits
  have hle := hfront.length_le
  rw [hlen] at hle
  unfold Honest at hhonest
  have hsame : ∀ start length, start + length ≤ b.headerLength + h.size.toNat + b.digestLength →
      Bytes.slice bytes' start length = Bytes.slice bytes start length := by
    intro start length hin
    rw [Bytes.slice_of_front hfront (by omega), Bytes.slice_take hin]
  refine ⟨⟨by omega, ?_⟩, Bool.noConfusion, hle, Bool.noConfusion, ?_⟩
  · rw [← Bytes.slice_zero, hsame 0 _ (by omega), Bytes.slice_zero]
    exact ha.decodes
  · have hdigest := ha.digest
    simp only [Header.bodyLength, Bool.false_eq_true, if_false] at hdigest ⊢
    rw [hsame _ _ (by omega), hsame _ _ (by omega)]
    exact hdigest

/-- A plain image is its own plain form. -/
theorem Accepts.plainImage_eq (ha : b.Accepts key false bytes h) :
    b.plainImage key' false bytes h = bytes.take (b.plainLength h) := by
  have hdigest := ha.digest
  simp only [Header.bodyLength, Bool.false_eq_true, if_false] at hdigest
  have hpayload : b.payload key' false bytes h = Bytes.slice bytes b.headerLength h.size.toNat := rfl
  rw [plainImage, hpayload, ← hdigest, Bytes.take_append_slice, Bytes.take_append_slice, plainLength]

/-- The plain form of a valid image is valid where it fits. -/
theorem Accepts.plainImage_accepted (ha : b.Accepts key encrypted bytes h)
    (hfront : b.plainImage key encrypted bytes h <+: bytes')
    (hfits : b.headerLength + h.size.toNat + b.digestLength ≤ bytes'.length) :
    b.Accepts key' false bytes' h := by
  obtain ⟨hhead, hbody, hdigest⟩ := Bytes.slices_of_front hfront
  rw [List.length_take_of_le ha.complete] at hhead hbody hdigest
  rw [ha.length_payload] at hbody hdigest
  rw [Algorithm.length_digest] at hdigest
  refine ⟨⟨by omega, ?_⟩, Bool.noConfusion, hfits, Bool.noConfusion, ?_⟩
  · rw [hhead]
    exact ha.decodes
  · simp only [Header.bodyLength, Bool.false_eq_true, if_false]
    rw [hdigest, hbody]

end FirmwareUpdate.Backend
