import FirmwareUpdate.Digest.Hasher
import FirmwareUpdate.Proofs.Bytes.Pieces

/-! A hasher that is fed in any pieces gives the digest of the whole, and digests are compared for
equality. -/
namespace FirmwareUpdate

namespace Sha3
open Keccak

private theorem length_squeeze (s : Lanes) : (squeeze s).length = digestLength := by
  have hlanes : (s.toList.take 4).length = 4 := by simp
  have hbytes : ∀ lane, (bytesOfLane lane).length = 8 := fun lane => by simp [bytesOfLane]
  simp only [squeeze]
  generalize s.toList.take 4 = lanes at hlanes
  match lanes, hlanes with
  | [a, b, c, d], _ => simp [digestLength, hbytes]

private theorem length_digest (message : Bytes) : (digest message).length = digestLength := length_squeeze _

private theorem length_padding {used : Nat} (h : used < rate) : (padding used).length = rate - used := by
  simp only [padding]
  split
  · simp; omega
  · simp; omega

-- The digest of a message that comes after blocks which have been absorbed.
private def digestFrom (lanes : Lanes) (message : Bytes) : Bytes :=
  squeeze ((Bytes.wholePieces rate (message ++ padding (message.length % rate))).foldl absorbBlock lanes)

private theorem update_partial (s : Sponge) (data : Bytes) (h : s.pending.length + data.length < rate) :
    s.update data = { s with pending := s.pending ++ data } := by
  induction data generalizing s with
  | nil =>
    rw [List.append_nil]
    rfl
  | cons byte rest ih =>
    rw [List.length_cons] at h
    have hopen : s.absorb byte = { s with pending := s.pending ++ [byte] } := by
      simp only [Sponge.absorb]
      rw [if_neg]
      rw [List.length_append, List.length_singleton]
      omega
    show (s.absorb byte).update rest = _
    rw [hopen, ih]
    · simp
    · simp only [List.length_append, List.length_singleton]
      omega

private theorem update_block (lanes : Lanes) (block : Bytes) (h : block.length = rate) :
    Sponge.update ⟨lanes, []⟩ block = ⟨absorbBlock lanes block, []⟩ := by
  have hne : block ≠ [] := by
    rintro rfl
    cases h
  obtain ⟨front, last, rfl⟩ : ∃ front last, block = front ++ [last] :=
    ⟨_, _, (List.dropLast_concat_getLast hne).symm⟩
  rw [List.length_append, List.length_singleton] at h
  rw [Sponge.update_append, update_partial _ front (by simp only [List.length_nil]; omega), List.nil_append]
  show Sponge.absorb ⟨lanes, front⟩ last = _
  simp only [Sponge.absorb]
  rw [if_pos]
  rw [List.length_append, List.length_singleton]
  exact h

private theorem finish_from (lanes : Lanes) (message : Bytes) :
    (Sponge.update ⟨lanes, []⟩ message).finish = digestFrom lanes message := by
  have hrate : 0 < rate := by decide
  by_cases hshort : message.length < rate
  · have hlen : (message ++ padding message.length).length = rate := by
      rw [List.length_append, length_padding hshort]
      omega
    rw [update_partial _ _ (by simpa using hshort), List.nil_append, digestFrom,
      Nat.mod_eq_of_lt hshort, Bytes.wholePieces_one hrate hlen, List.foldl_cons, List.foldl_nil]
    simp only [Sponge.finish]
  · have hfront : (message.take rate).length = rate := List.length_take_of_le (by omega)
    have hmod : message.length % rate = (message.drop rate).length % rate := by
      rw [List.length_drop, ← Nat.mod_eq_sub_mod (by omega)]
    have ih := finish_from (absorbBlock lanes (message.take rate)) (message.drop rate)
    rw [← update_block lanes _ hfront, ← Sponge.update_append, List.take_append_drop] at ih
    have hsplit : message ++ padding (message.length % rate) = message.take rate ++
        (message.drop rate ++ padding ((message.drop rate).length % rate)) := by
      rw [← List.append_assoc, List.take_append_drop, hmod]
    have hpieces : ∀ rest, Bytes.wholePieces rate (message.take rate ++ rest) =
        message.take rate :: Bytes.wholePieces rate rest := by
      intro rest
      rw [Bytes.wholePieces_append hrate (by rw [hfront]; exact Nat.mod_self _),
        Bytes.wholePieces_one hrate hfront, List.singleton_append]
    rw [ih, digestFrom, digestFrom, hsplit, hpieces, List.foldl_cons]
  termination_by message.length
  decreasing_by
    have hrate : 0 < rate := by decide
    rw [List.length_drop]
    omega

/-- A sponge that has been fed a message in any pieces gives the digest of the message. -/
theorem finish_update (message : Bytes) : (Sponge.update {} message).finish = digest message :=
  finish_from zero message

end Sha3

/-- No digest is empty. -/
theorem Algorithm.digestLength_pos (a : Algorithm) : 0 < a.digestLength := by
  cases a <;> decide

/-- Digests of one algorithm are all of one length. -/
theorem Algorithm.length_digest (a : Algorithm) (data : Bytes) :
    (a.digest data).length = a.digestLength := by
  cases a with
  | crc32 => rfl
  | sha3 => exact Sha3.length_digest data

namespace Hasher

/-- A hasher that takes in the data in two parts ends where one ends that takes them in at once. -/
theorem update_append (h : Hasher) (front back : Bytes) :
    h.update (front ++ back) = (h.update front).update back := by
  cases h with
  | crc32 register => exact congrArg (Hasher.crc32 ∘ some) (Crc32.update_append _ front back)
  | sha3 sponge => exact congrArg Hasher.sha3 (Sha3.Sponge.update_append sponge front back)

/-- The value of a hasher that has taken in the data is their digest. -/
theorem value_update_start (a : Algorithm) (data : Bytes) : ((start a).update data).value = a.digest data := by
  cases a with
  | crc32 => rfl
  | sha3 => exact Sha3.finish_update data

end Hasher

private theorem or_eq_zero {a b : UInt8} : a ||| b = 0 ↔ a = 0 ∧ b = 0 := by
  constructor
  · intro h
    have hbits : a.toBitVec ||| b.toBitVec = 0 := by
      rw [← UInt8.toBitVec_or, h]
      rfl
    obtain ⟨ha, hb⟩ := BitVec.or_eq_zero_iff.mp hbits
    exact ⟨UInt8.toBitVec_inj.mp ha, UInt8.toBitVec_inj.mp hb⟩
  · rintro ⟨rfl, rfl⟩
    rfl

private theorem foldl_or_eq_zero (bytes : Bytes) (a : UInt8) :
    bytes.foldl (· ||| ·) a = 0 ↔ a = 0 ∧ ∀ b ∈ bytes, b = 0 := by
  induction bytes generalizing a with
  | nil => simp
  | cons b rest ih =>
    rw [List.foldl_cons, ih, or_eq_zero, List.forall_mem_cons, and_assoc]

private theorem zipWith_xor_eq_zero {a b : Bytes} (h : a.length = b.length) :
    (∀ x ∈ List.zipWith (· ^^^ ·) a b, x = 0) ↔ a = b := by
  induction a generalizing b with
  | nil =>
    cases b with
    | nil => simp
    | cons y b => cases h
  | cons x a ih =>
    cases b with
    | nil => cases h
    | cons y b =>
      rw [List.zipWith_cons_cons, List.forall_mem_cons, UInt8.xor_eq_zero_iff, ih (Nat.succ.inj h), List.cons.injEq]

/-- The comparison is one for equality. -/
theorem sameBytes_iff (a b : Bytes) : sameBytes a b = true ↔ a = b := by
  rw [sameBytes, Bool.and_eq_true, decide_eq_true_eq, decide_eq_true_eq, foldl_or_eq_zero]
  constructor
  · rintro ⟨hlen, -, hzero⟩
    exact (zipWith_xor_eq_zero hlen).mp hzero
  · rintro rfl
    exact ⟨rfl, rfl, (zipWith_xor_eq_zero rfl).mpr rfl⟩

end FirmwareUpdate
