import FirmwareUpdate.Cipher.Aes

/-! Decrypting a block takes back what encrypting it did, for every key: each layer of a round has its inverse,
and the rounds are undone from the last to the first. -/
namespace FirmwareUpdate.Aes

private theorem unsubstitute_table :
    substitutionTable.toList.map unsubstitute = (List.range 256).map UInt8.ofNat := by
  decide +kernel

/-- The inverse table undoes the table. -/
theorem unsubstitute_substitute (b : UInt8) : unsubstitute (substitute b) = b := by
  have hentry := congrArg (·[b.toNat]?) unsubstitute_table
  simp only [List.getElem?_map, Array.getElem?_toList, List.getElem?_range b.toNat_lt, Option.map_some,
    UInt8.ofNat_toNat] at hentry
  obtain ⟨code, hcode, hback⟩ := Option.map_eq_some_iff.mp hentry
  rw [substitute, Array.getD_eq_getD_getElem?, hcode]
  exact hback
/-! ### Doubling and mixing are linear -/

private theorem top_or (b : UInt8) : b &&& 0x80 = 0 ∨ b &&& 0x80 = 0x80 := by
  obtain ⟨⟨b⟩⟩ := b
  revert b
  decide +kernel

private theorem double_xor (a b : UInt8) : double (a ^^^ b) = double a ^^^ double b := by
  have hshift : (a ^^^ b) <<< 1 = (a <<< 1) ^^^ (b <<< 1) := UInt8.shiftLeft_xor
  have htop : (a ^^^ b) &&& 0x80 = (a &&& 0x80) ^^^ (b &&& 0x80) := by
    apply UInt8.toBitVec_inj.mp
    ext i
    simp [Bool.and_xor_distrib_right]
  have hcancel : ∀ c : UInt8, (a <<< 1 ^^^ c) ^^^ (b <<< 1 ^^^ c) = a <<< 1 ^^^ b <<< 1 := by
    intro c
    rw [UInt8.xor_assoc, UInt8.xor_comm (b <<< 1), ← UInt8.xor_assoc c, UInt8.xor_self, UInt8.zero_xor]
  simp only [double, hshift, htop]
  rcases top_or a with ha | ha <;> rcases top_or b with hb | hb
  · simp [ha, hb]
  · simp [ha, hb, UInt8.xor_assoc]
  · simp [ha, hb, UInt8.xor_assoc, UInt8.xor_comm (b <<< 1)]
  · simp [ha, hb, hcancel]

namespace Word

private theorem mixByte_xor (a b c d a' b' c' d' : UInt8) :
    mixByte (a ^^^ a') (b ^^^ b') (c ^^^ c') (d ^^^ d') = mixByte a b c d ^^^ mixByte a' b' c' d' := by
  simp only [mixByte, double_xor]
  ac_rfl

private theorem unmixByte_xor (a b c d a' b' c' d' : UInt8) :
    unmixByte (a ^^^ a') (b ^^^ b') (c ^^^ c') (d ^^^ d') = unmixByte a b c d ^^^ unmixByte a' b' c' d' := by
  simp only [unmixByte, double_xor]
  ac_rfl

private theorem mix_xor (v w : Word) : (v.xor w).mix = v.mix.xor w.mix := by
  simp only [mix, xor, mixByte_xor]

private theorem unmix_xor (v w : Word) : (v.xor w).unmix = v.unmix.xor w.unmix := by
  simp only [unmix, xor, unmixByte_xor]

private theorem mix_rotate (w : Word) : w.rotate.mix = w.mix.rotate := rfl

private theorem unmix_rotate (w : Word) : w.rotate.unmix = w.unmix.rotate := rfl

private theorem unmix_mix_single (b : UInt8) : (mix ⟨b, 0, 0, 0⟩).unmix = ⟨b, 0, 0, 0⟩ := by
  obtain ⟨⟨b⟩⟩ := b
  revert b
  decide +kernel

/-- A word is made of single bytes, each of them turned to its place. -/
theorem unmix_mix (w : Word) : w.mix.unmix = w := by
  have hsplit : w = (((mk w.b0 0 0 0).xor (mk w.b1 0 0 0).rotate.rotate.rotate).xor
      (mk w.b2 0 0 0).rotate.rotate).xor (mk w.b3 0 0 0).rotate := by
    simp [xor, rotate]
  rw [hsplit]
  simp only [mix_xor, unmix_xor, mix_rotate, unmix_rotate, unmix_mix_single]

private theorem xor_xor (v w : Word) : (v.xor w).xor w = v := by
  simp only [xor, UInt8.xor_assoc, UInt8.xor_self, UInt8.xor_zero]

end Word

namespace Block

/-- What has been mixed in twice is gone. -/
theorem xor_xor (s t : Block) : (s.xor t).xor t = s := by
  simp only [xor, Word.xor_xor]

private theorem map_map_of_inverse {f g : Word → Word} (h : ∀ w, g (f w) = w) (s : Block) : (s.map f).map g = s := by
  simp only [map, h]

end Block

/-! ### Rounds -/

private theorem unsubstitute_substitute_word (w : Word) : (w.map substitute).map unsubstitute = w := by
  simp only [Word.map, unsubstitute_substitute]

/-- A round is undone with its own key. -/
theorem decryptRound_encryptRound (key s : Block) : decryptRound key (encryptRound s key) = s := by
  rw [decryptRound, encryptRound, Block.xor_xor, Block.map_map_of_inverse Word.unmix_mix,
    Block.unshiftRows_shiftRows, Block.map_map_of_inverse unsubstitute_substitute_word]

/-- The rounds are undone from the last to the first. -/
theorem foldr_decryptRound (keys : List Block) (s : Block) :
    keys.foldr decryptRound (keys.foldl encryptRound s) = s := by
  induction keys generalizing s with
  | nil => rfl
  | cons key rest ih =>
    rw [List.foldl_cons, List.foldr_cons, ih]
    exact decryptRound_encryptRound key s

/-- A block that has been encrypted is decrypted with the same keys. -/
theorem decryptBlock_encryptBlock (keys : KeySchedule) (s : Block) :
    decryptBlock keys (encryptBlock keys s) = s := by
  rw [decryptBlock, encryptBlock]
  simp only [Block.xor_xor, Block.unshiftRows_shiftRows, Block.map_map_of_inverse unsubstitute_substitute_word]
  rw [foldr_decryptRound, Block.xor_xor]

end FirmwareUpdate.Aes
