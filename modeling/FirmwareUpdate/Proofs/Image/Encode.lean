import FirmwareUpdate.Image.Encode
import FirmwareUpdate.Proofs.Cipher.Cbc

/-! An image that is written can be read back: a payload that was encrypted on the way comes out as it went in. -/
namespace FirmwareUpdate

namespace Image

/-- The known block has the checksum that goes by the name. -/
theorem checksum_knownBlock : Crc32.checksum knownBlock = knownChecksum := by decide +kernel

/-- A coded body as its key and vector undo it: the known block first, and then the payload. -/
structure Wraps (s : Cbc.Stream) (payload coded : Bytes) : Prop where
  length : coded.length = Aes.blockLength + payload.length
  known : s.decryptWhole (coded.take Aes.blockLength) = knownBlock
  rest : (s.after (coded.take Aes.blockLength)).decryptWhole (coded.drop Aes.blockLength) = payload

/-- Whole blocks are wrapped with any key of a length that there is. -/
theorem wrapped_ok {w : Wrapping} {payload : Bytes} (hkey : w.key.length ∈ [16, 24, 32])
    (hwhole : payload.length % Aes.blockLength = 0) :
    ∃ s coded, Cbc.Stream.start w.key w.iv.toList = .ok s ∧ wrapped w payload = .ok (w.iv.toList ++ coded) ∧
      Wraps s payload coded := by
  have hiv : w.iv.toList.length = Cbc.ivLength := Vector.length_toList
  obtain ⟨s, hs⟩ : ∃ s, Cbc.Stream.start w.key w.iv.toList = .ok s := by
    rw [Cbc.Stream.start, if_pos hkey, if_pos hiv]
    exact ⟨_, rfl⟩
  have hlead : (knownBlock ++ payload).length % Aes.blockLength = 0 := by
    rw [List.length_append]
    exact (Nat.add_mod_left _ _).trans hwhole
  obtain ⟨coded, hcoded, hlength, hback⟩ := Cbc.Stream.encryptWhole_ok (s := s) hlead
  rw [List.length_append] at hlength
  have hfirst : (coded.take Aes.blockLength).length = Aes.blockLength :=
    List.length_take_of_le (hlength ▸ Nat.le_add_right _ _)
  have hblock : (coded.take Aes.blockLength).length % Aes.blockLength = 0 := by rw [hfirst, Nat.mod_self]
  rw [← List.take_append_drop Aes.blockLength coded, Cbc.Stream.decryptWhole_append hblock] at hback
  obtain ⟨hknown, hrest⟩ := List.append_inj hback ((Cbc.Stream.length_decryptWhole hblock).trans hfirst)
  refine ⟨s, coded, hs, ?_, hlength, hknown, hrest⟩
  rw [wrapped, hs]
  show (s.encryptWhole (knownBlock ++ payload)).bind _ = _
  rw [hcoded]
  rfl

end Image
end FirmwareUpdate
