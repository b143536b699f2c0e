import FirmwareUpdate.Digest.Crc32
import FirmwareUpdate.Proofs.Bytes.Word
import Mathlib.Logic.Function.Basic

/-! A checksum tells data apart that differ in four bytes in a row and nowhere else: each step of the register
can be undone, and the register after a word tells which word it was. -/
namespace FirmwareUpdate.Crc32

/-! ### Single bits -/

private theorem toBitVec_half (r : UInt32) : (r >>> 1).toBitVec = r.toBitVec >>> 1 := by
  rw [UInt32.toBitVec_shiftRight]
  rfl

private theorem even_iff (r : UInt32) : r &&& 1 = 0 ↔ r.toBitVec.getLsbD 0 = false := by
  rw [← UInt32.toBitVec_inj, UInt32.toBitVec_and]
  show r.toBitVec &&& 1#32 = 0#32 ↔ _
  rw [BitVec.and_one_eq_setWidth_ofBool_getLsbD]
  cases r.toBitVec.getLsbD 0 <;> decide

private theorem getLsbD_bitStep (r : UInt32) (i : Nat) :
    (bitStep r).toBitVec.getLsbD i =
      (r.toBitVec.getLsbD (i + 1) ^^ (r.toBitVec.getLsbD 0 && polynomial.toBitVec.getLsbD i)) := by
  rw [bitStep]
  split
  · rename_i heven
    rw [even_iff] at heven
    rw [toBitVec_half, BitVec.getLsbD_ushiftRight, heven, Bool.false_and, Bool.xor_false, Nat.add_comm]
  · rename_i hodd
    rw [even_iff, Bool.not_eq_false] at hodd
    rw [UInt32.toBitVec_xor, toBitVec_half, BitVec.getLsbD_xor, BitVec.getLsbD_ushiftRight, hodd, Bool.true_and,
      Nat.add_comm]

private theorem bitStep_xor (a b : UInt32) : bitStep (a ^^^ b) = bitStep a ^^^ bitStep b := by
  apply UInt32.toBitVec_inj.mp
  apply BitVec.eq_of_getLsbD_eq
  intro i _
  rw [UInt32.toBitVec_xor, BitVec.getLsbD_xor, getLsbD_bitStep, getLsbD_bitStep, getLsbD_bitStep,
    UInt32.toBitVec_xor, BitVec.getLsbD_xor, BitVec.getLsbD_xor]
  cases a.toBitVec.getLsbD 0 <;> cases b.toBitVec.getLsbD 0 <;> cases polynomial.toBitVec.getLsbD i <;> simp

/-- A bit that goes through the register can be told from the register after it. -/
theorem bitStep_injective : Function.Injective bitStep := by
  intro a b h
  have hbit : ∀ i, (bitStep a).toBitVec.getLsbD i = (bitStep b).toBitVec.getLsbD i := fun i => by rw [h]
  have hlow : a.toBitVec.getLsbD 0 = b.toBitVec.getLsbD 0 := by
    have htop := hbit 31
    rw [getLsbD_bitStep, getLsbD_bitStep, BitVec.getLsbD_of_ge _ 32 (by decide), BitVec.getLsbD_of_ge _ 32 (by decide),
      show polynomial.toBitVec.getLsbD 31 = true from rfl] at htop
    simpa using htop
  apply UInt32.toBitVec_inj.mp
  apply BitVec.eq_of_getLsbD_eq
  intro i _
  cases i with
  | zero => exact hlow
  | succ i =>
    have hnext := hbit i
    rw [getLsbD_bitStep, getLsbD_bitStep, hlow] at hnext
    exact Bool.xor_left_inj.mp hnext

/-! ### Bytes and words -/

private theorem eightSteps_xor (a b : UInt32) : eightSteps (a ^^^ b) = eightSteps a ^^^ eightSteps b := by
  simp only [eightSteps, bitStep_xor]

private theorem eightSteps_injective : Function.Injective eightSteps := fun a b h => by
  simpa only [eightSteps, bitStep_injective.eq_iff] using h

/-- A bit that is clear drops out. -/
theorem bitStep_of_even {r : UInt32} (h : r.toBitVec.getLsbD 0 = false) :
    (bitStep r).toBitVec = r.toBitVec >>> 1 := by
  rw [bitStep, if_pos ((even_iff r).mpr h), toBitVec_half]

private theorem eightSteps_of_clear {r : UInt32} (h : ∀ i, i < 8 → r.toBitVec.getLsbD i = false) :
    (eightSteps r).toBitVec = r.toBitVec >>> 8 := by
  have hstep : ∀ {r' : UInt32} {k : Nat}, k < 8 → r'.toBitVec = r.toBitVec >>> k →
      (bitStep r').toBitVec = r.toBitVec >>> (k + 1) := by
    intro r' k hk hr'
    rw [bitStep_of_even, hr', BitVec.shiftRight_add]
    rw [hr', BitVec.getLsbD_ushiftRight]
    exact h _ hk
  exact hstep (by decide) (hstep (by decide) (hstep (by decide) (hstep (by decide) (hstep (by decide)
    (hstep (by decide) (hstep (by decide) (hstep (by decide) rfl)))))))

private theorem eightSteps_upper (w : UInt32) : eightSteps (w ^^^ w.toUInt8.toUInt32) = w >>> 8 := by
  have hbit : ∀ i, (w ^^^ w.toUInt8.toUInt32).toBitVec.getLsbD i =
      (w.toBitVec.getLsbD i ^^ (decide (i < 8) && w.toBitVec.getLsbD i)) := by
    intro i
    rw [UInt32.toBitVec_xor, BitVec.getLsbD_xor, UInt8.toBitVec_toUInt32, UInt32.toBitVec_toUInt8,
      BitVec.getLsbD_setWidth, BitVec.getLsbD_setWidth]
    by_cases hi : i < 32
    · simp [hi]
    · simp [hi, BitVec.getLsbD_of_ge _ i (Nat.le_of_not_lt hi)]
  apply UInt32.toBitVec_inj.mp
  rw [eightSteps_of_clear fun i hi => by rw [hbit, decide_eq_true hi, Bool.true_and, Bool.xor_self]]
  apply BitVec.eq_of_getLsbD_eq
  intro i _
  rw [UInt32.toBitVec_shiftRight]
  show _ = (w.toBitVec >>> 8).getLsbD i
  rw [BitVec.getLsbD_ushiftRight, BitVec.getLsbD_ushiftRight, hbit, decide_eq_false (by omega), Bool.false_and,
    Bool.xor_false]

/-- The low byte of a word goes in, and the others move down. -/
theorem eightSteps_word (r w : UInt32) : eightSteps (r ^^^ w) = absorb r w.toUInt8 ^^^ (w >>> 8) := by
  have hsplit : r ^^^ w = (r ^^^ w.toUInt8.toUInt32) ^^^ (w ^^^ w.toUInt8.toUInt32) := by
    rw [UInt32.xor_comm w, UInt32.xor_assoc, ← UInt32.xor_assoc w.toUInt8.toUInt32, UInt32.xor_self,
      UInt32.zero_xor]
  rw [hsplit, eightSteps_xor, eightSteps_upper, absorb]

/-- Absorbs the four bytes of a word. -/
def absorbWord (register : UInt32) : UInt32 := eightSteps (eightSteps (eightSteps (eightSteps register)))

/-- No two words go to the same by absorbing them. -/
theorem absorbWord_injective : Function.Injective absorbWord := fun a b h => by
  simpa only [absorbWord, eightSteps_injective.eq_iff] using h

private theorem update_ofWord (r w : UInt32) : update r (Bytes.ofWord w) = absorbWord (r ^^^ w) := by
  have hsecond : w >>> 8 >>> 8 = w >>> 16 := by simp [← UInt32.toNat_inj, ← Nat.shiftRight_add]
  have hthird : w >>> 16 >>> 8 = w >>> 24 := by simp [← UInt32.toNat_inj, ← Nat.shiftRight_add]
  have hnone : w >>> 24 >>> 8 = 0 := by
    simp [← UInt32.toNat_inj, ← Nat.shiftRight_add, Nat.shiftRight_eq_zero _ _ w.toNat_lt]
  rw [absorbWord, eightSteps_word, eightSteps_word, eightSteps_word, eightSteps_word, hsecond, hthird, hnone,
    UInt32.xor_zero]
  rfl

/-- No two registers come to the same by the same byte. -/
theorem absorb_injective (byte : UInt8) : Function.Injective (absorb · byte) := fun _ _ h =>
  (UInt32.xor_left_inj _).mp (eightSteps_injective h)

/-- No two registers come to the same by the same data. -/
theorem update_injective (data : Bytes) : Function.Injective (update · data) := by
  induction data with
  | nil => exact fun _ _ h => h
  | cons byte rest ih => exact fun _ _ h => absorb_injective byte (ih h)

/-- Whatever data come after it, the checksum tells which word it started with. -/
theorem checksum_word_injective (data : Bytes) : Function.Injective fun w => checksum (Bytes.ofWord w ++ data) := by
  intro v w h
  have hregister : update initial (Bytes.ofWord v ++ data) = update initial (Bytes.ofWord w ++ data) :=
    UInt32.not_inj.mp h
  rw [update_append, update_append, update_ofWord, update_ofWord] at hregister
  exact (UInt32.xor_right_inj _).mp (absorbWord_injective (update_injective data hregister))

/-! ### Data that differ in one place -/

/-- The register takes data apart that differ in four bytes in a row and nowhere else. -/
theorem eq_of_update_eq {register : UInt32} {start : Nat} {data data' : Bytes}
    (hlength : data'.length = data.length) (hlong : 4 ≤ data.length) (hburst : Bytes.AgreeOutside start 4 data data')
    (h : update register data' = update register data) : data' = data := by
  -- A window that sticks out at the end is moved back inside.
  obtain ⟨place, hplace⟩ : ∃ place, place = min start (data.length - 4) := ⟨_, rfl⟩
  have hfront : data'.take place = data.take place := by
    apply List.ext_getElem?
    intro i
    rw [List.getElem?_take, List.getElem?_take]
    split
    · exact hburst i (by omega)
    · rfl
  have hback : data'.drop (place + 4) = data.drop (place + 4) := by
    apply List.ext_getElem?
    intro i
    rw [List.getElem?_drop, List.getElem?_drop]
    by_cases hi : place + 4 + i < data.length
    · exact hburst _ (by omega)
    · rw [List.getElem?_eq_none (by omega), List.getElem?_eq_none (by omega)]
  have hsplit : ∀ bytes : Bytes, bytes.length = data.length → bytes =
      bytes.take place ++ Bytes.ofWord (Bytes.wordAt bytes place) ++ bytes.drop (place + 4) := by
    intro bytes hbytes
    rw [Bytes.ofWord_wordAt (by omega), Bytes.take_append_slice, List.take_append_drop]
  rw [hsplit data' hlength, hsplit data rfl, hfront, hback] at h ⊢
  rw [update_append, update_append, update_append, update_append] at h
  have hword := update_injective _ h
  simp only [update_ofWord] at hword
  rw [(UInt32.xor_right_inj _).mp (absorbWord_injective hword)]

/-- The data end in the checksum of what comes before it. -/
def Sealed (data : Bytes) : Prop := ∃ content, data = content ++ Bytes.ofWord (checksum content)

/-- The checksum takes the register to the same value after whatever data. -/
theorem Sealed.update_eq {data : Bytes} (h : Sealed data) : update initial data = absorbWord 0xFFFFFFFF := by
  obtain ⟨content, rfl⟩ := h
  rw [update_append, update_ofWord, checksum, finish]
  rw [UInt32.xor_not, UInt32.xor_self]
  rfl

private theorem Sealed.length_le {data : Bytes} (h : Sealed data) : 4 ≤ data.length := by
  obtain ⟨content, rfl⟩ := h
  rw [List.length_append, Bytes.length_ofWord]
  omega

/-- Sealed data that are changed in one place are not sealed any more. -/
theorem Sealed.eq_of_burst {start : Nat} {data data' : Bytes} (h : Sealed data) (h' : Sealed data')
    (hlength : data'.length = data.length) (hburst : Bytes.AgreeOutside start 4 data data') : data' = data :=
  eq_of_update_eq hlength h.length_le hburst (h'.update_eq.trans h.update_eq.symm)

end FirmwareUpdate.Crc32
