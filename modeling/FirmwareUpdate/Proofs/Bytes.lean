import FirmwareUpdate.Bytes
import FirmwareUpdate.Bytes.Span

/-! Byte strings seen byte by byte, and what patches do to the bytes around them. -/
namespace FirmwareUpdate.Bytes

/-- The bytes of a slice, one by one. -/
theorem getElem?_slice (data : Bytes) (start length i : Nat) :
    (slice data start length)[i]? = if i < length then data[start + i]? else none := by
  simp only [slice, List.getElem?_take, List.getElem?_drop]

/-- Strings that have a part in common have its bytes in common. -/
theorem getElem?_of_slice {data data' : Bytes} {start length i : Nat}
    (h : slice data start length = slice data' start length) (hs : start ≤ i) (he : i < start + length) :
    data[i]? = data'[i]? := by
  have hget := congrArg (·[i - start]?) h
  have hplace : start + (i - start) = i := by omega
  have hin : i - start < length := by omega
  simpa only [getElem?_slice, hplace, if_pos hin] using hget

/-- All the bytes of what is blank are erased. -/
theorem getElem?_blank (length i : Nat) :
    (blank length)[i]? = if i < length then some 0xFF else none := by
  simp only [blank, List.getElem?_replicate]

/-- Inside the patch its bytes are found, and outside it those that were there. -/
theorem getElem?_splice {data : Bytes} {start : Nat} {patch : Bytes} (h : start ≤ data.length)
    (i : Nat) :
    (splice data start patch)[i]? =
      if i < start then data[i]?
      else if i < start + patch.length then patch[i - start]? else data[i]? := by
  have hlen : (data.take start).length = start := List.length_take_of_le h
  simp only [splice]
  rw [List.append_assoc, List.getElem?_append, hlen]
  split
  · rw [List.getElem?_take, if_pos ‹_›]
  · rw [List.getElem?_append]
    split
    · rw [if_pos (by omega)]
    · rw [if_neg (by omega), List.getElem?_drop]
      congr 1
      omega

/-- What is added to the data is erased. -/
theorem getElem?_extend (data : Bytes) (length i : Nat) :
    (extend data length)[i]? =
      if i < data.length then data[i]? else if i < length then some 0xFF else none := by
  simp only [extend]
  rw [List.getElem?_append]
  split
  · rfl
  · rw [getElem?_blank]
    congr 1
    exact propext (by omega)

/-- A slice from the start on is what is taken from the front. -/
theorem slice_zero (data : Bytes) (length : Nat) : slice data 0 length = data.take length := rfl

theorem take_slice (data : Bytes) (start length count : Nat) :
    (slice data start length).take count = slice data start (min count length) :=
  List.take_take

private theorem drop_slice (data : Bytes) (start length count : Nat) :
    (slice data start length).drop count = slice data (start + count) (length - count) := by
  simp only [slice, List.drop_take, List.drop_drop]

/-- A part of a part. -/
theorem slice_slice {data : Bytes} {start length start' length' : Nat}
    (h : start' + length' ≤ length) :
    slice (slice data start length) start' length' = slice data (start + start') length' := by
  rw [slice, drop_slice, take_slice, Nat.min_eq_left (by omega)]

/-- What is found inside a part of the data is found there in the data. -/
theorem slice_of_part {data part : Bytes} {start offset length : Nat} (h : slice data start part.length = part)
    (hin : offset + length ≤ part.length) : slice data (start + offset) length = slice part offset length := by
  rw [← slice_slice hin, h]

/-- A part is the first of its bytes, and then the rest of them. -/
theorem slice_append (data : Bytes) (start count rest : Nat) :
    slice data start count ++ slice data (start + count) rest = slice data start (count + rest) := by
  simp only [slice]
  rw [← List.drop_drop, List.take_add]

/-- A slice that starts where the front ends makes the front longer. -/
theorem take_append_slice (data : Bytes) (start length : Nat) :
    data.take start ++ slice data start length = data.take (start + length) :=
  List.take_add.symm

/-- A part that lies before the end does not see what comes after it. -/
theorem slice_take {data : Bytes} {start length stop : Nat} (h : start + length ≤ stop) :
    slice (data.take stop) start length = slice data start length := by
  rw [slice, List.drop_take, List.take_take, Nat.min_eq_left (by omega), slice]

private theorem slice_congr {data data' : Bytes} {start length stop : Nat}
    (h : data.take stop = data'.take stop) (hs : start + length ≤ stop) :
    slice data start length = slice data' start length := by
  rw [← slice_take hs, h, slice_take hs]

/-- What is found inside a front of the data is found there in the data. -/
theorem slice_of_front {front data : Bytes} (h : front <+: data) {start length : Nat}
    (hin : start + length ≤ front.length) : slice data start length = slice front start length := by
  have htake : data.take front.length = front.take front.length := by
    rw [List.take_length]
    exact (List.prefix_iff_eq_take.mp h).symm
  exact slice_congr htake hin

/-- Parts that follow one another at the front of a string are found again by their lengths. -/
theorem slices_of_front {first second third data : Bytes} (h : first ++ second ++ third <+: data) :
    data.take first.length = first ∧ slice data first.length second.length = second ∧
      slice data (first.length + second.length) third.length = third := by
  obtain ⟨rest, rfl⟩ := h
  refine ⟨?_, ?_, ?_⟩
  · rw [List.append_assoc, List.append_assoc, List.take_left]
  · rw [List.append_assoc, List.append_assoc, slice, List.drop_left, List.take_left]
  · rw [← List.length_append, List.append_assoc, slice, List.drop_left, List.take_left]

/-- What is read past the end of the data reads as erased. -/
theorem slice_extend {data : Bytes} {start length stop : Nat} (h : start + length ≤ stop) :
    slice (extend data stop) start length = extend (slice data start length) length := by
  apply List.ext_getElem?
  intro i
  rw [getElem?_slice, getElem?_extend, getElem?_extend, getElem?_slice, length_slice]
  by_cases hi : i < length <;> by_cases hd : start + i < data.length
  · rw [if_pos hi, if_pos hd, if_pos (by omega), if_pos hi]
  · rw [if_pos hi, if_neg hd, if_pos (by omega), if_neg (by omega), if_pos hi]
  · rw [if_neg hi, if_neg (by omega), if_neg hi]
  · rw [if_neg hi, if_neg (by omega), if_neg hi]

/-- What is laid at the start is found at the start. -/
theorem prefix_splice (data patch : Bytes) : patch <+: splice data 0 patch := by
  rw [splice, List.take_zero, List.nil_append]
  exact List.prefix_append _ _

/-- A patch at the end of what is known so far makes it longer. -/
theorem splice_append {front rest : Bytes} {patch : Bytes} :
    splice (front ++ rest) front.length patch = front ++ patch ++ rest.drop patch.length := by
  rw [splice, List.take_left, List.drop_length_add_append]

/-- Patches laid one behind the other are one patch. -/
theorem splice_splice {data patch patch' : Bytes} {start : Nat} (h : start ≤ data.length) :
    splice (splice data start patch) (start + patch.length) patch' =
      splice data start (patch ++ patch') := by
  have hlen : (data.take start).length = start := List.length_take_of_le h
  have hsplit : splice data start patch =
      (data.take start ++ patch) ++ data.drop (start + patch.length) := rfl
  have hfront : start + patch.length = (data.take start ++ patch).length := by
    rw [List.length_append, hlen]
  rw [hsplit, hfront, splice_append, ← hfront, List.drop_drop]
  simp only [splice, List.append_assoc, List.length_append, Nat.add_assoc]

/-- A patch inside a part is a patch of the part. -/
theorem slice_splice {data patch : Bytes} {start length offset : Nat}
    (hin : offset + patch.length ≤ length) (hd : start + length ≤ data.length) :
    slice (splice data (start + offset) patch) start length =
      splice (slice data start length) offset patch := by
  have hlen : (slice data start length).length = length := by
    rw [length_slice]
    omega
  apply List.ext_getElem?
  intro i
  rw [getElem?_slice, getElem?_splice (by omega), getElem?_splice (by omega), getElem?_slice]
  by_cases hi : i < length
  · rw [if_pos hi, if_pos hi]
    by_cases hfront : i < offset
    · rw [if_pos hfront, if_pos (by omega)]
    · rw [if_neg hfront, if_neg (by omega)]
      by_cases hpatch : i < offset + patch.length
      · rw [if_pos hpatch, if_pos (by omega), Nat.add_sub_add_left]
      · rw [if_neg hpatch, if_neg (by omega)]
  · rw [if_neg hi, if_neg hi, if_neg (by omega), if_neg (by omega)]

/-- A patch may come before or after a string grows, if it ends before the size that counts. -/
theorem take_extend_splice {data patch : Bytes} {offset size : Nat}
    (h : offset + patch.length ≤ size) :
    (extend (splice (extend data (offset + patch.length)) offset patch) size).take size =
      splice ((extend data size).take size) offset patch := by
  have hlen : offset + patch.length ≤ (extend data (offset + patch.length)).length := by
    rw [length_extend]
    omega
  have hsize : ((extend data size).take size).length = size := by
    rw [List.length_take, length_extend]
    omega
  apply List.ext_getElem?
  intro i
  rw [List.getElem?_take, getElem?_extend, length_splice hlen, getElem?_splice (by omega),
    getElem?_splice (by omega), List.getElem?_take, getElem?_extend, getElem?_extend, length_extend]
  by_cases hi : i < size
  · rw [if_pos hi, if_pos hi, if_pos hi]
    by_cases hfront : i < offset
    · rw [if_pos hfront, if_pos hfront]
      by_cases hdata : i < data.length
      · rw [if_pos (by omega), if_pos hdata, if_pos hdata]
      · rw [if_pos (by omega), if_neg hdata, if_pos (by omega), if_neg hdata]
    · rw [if_neg hfront, if_neg hfront]
      by_cases hpatch : i < offset + patch.length
      · rw [if_pos hpatch, if_pos (by omega), if_pos hpatch]
      · by_cases hdata : i < data.length
        · rw [if_pos (by omega), if_neg hpatch, if_pos hdata, if_neg hpatch, if_pos hdata]
        · rw [if_neg (by omega), if_neg hpatch, if_neg hdata]
  · rw [if_neg hi, if_neg (by omega), if_neg (by omega), if_neg hi]

/-- A patch that ends before some size is not seen past it, though a string may grow for it. -/
theorem drop_extend_splice {data patch : Bytes} {offset size : Nat} (h : offset + patch.length ≤ size) :
    (splice (extend data (offset + patch.length)) offset patch).drop size = data.drop size := by
  apply List.ext_getElem?
  intro i
  rw [List.getElem?_drop, List.getElem?_drop, getElem?_splice, if_neg (by omega), if_neg (by omega),
    getElem?_extend, if_neg (c := size + i < offset + patch.length) (by omega)]
  · split
    · rfl
    · exact (List.getElem?_eq_none (by omega)).symm
  · rw [length_extend]
    omega

theorem blank_add (length length' : Nat) : blank (length + length') = blank length ++ blank length' :=
  List.replicate_append_replicate.symm

private theorem erased_and (b : UInt8) : 0xFF &&& b = b := by
  apply UInt8.toBitVec_inj.mp
  rw [UInt8.toBitVec_and]
  exact BitVec.allOnes_and

/-- Writing flash comes out exact where the old byte is erased or the new one is zero. -/
theorem getElem?_and_of_clear {old patch : Bytes} {i : Nat} (hi : i < old.length)
    (h : old[i]? = some 0xFF ∨ patch[i]? = some 0) : (List.zipWith (· &&& ·) old patch)[i]? = patch[i]? := by
  rw [List.getElem?_zipWith]
  rcases h with hold | hzero
  · rw [hold]
    cases patch[i]? with
    | none => rfl
    | some b => simp only [erased_and]
  · rw [List.getElem?_eq_getElem hi, hzero]
    simp

/-! ### Changes inside a range -/

/-- The bytes agree outside a range. -/
def AgreeOutside (start length : Nat) (data data' : Bytes) : Prop :=
  ∀ i, i < start ∨ start + length ≤ i → data'[i]? = data[i]?

theorem AgreeOutside.refl (start length : Nat) (data : Bytes) : AgreeOutside start length data data :=
  fun _ _ => rfl

theorem AgreeOutside.trans {start length start' length' : Nat} {data data' data'' : Bytes}
    (h : AgreeOutside start length data data') (h' : AgreeOutside start' length' data' data'')
    (hs : start ≤ start') (he : start' + length' ≤ start + length) :
    AgreeOutside start length data data'' := by
  intro i hi
  rw [h' i (by omega), h i hi]

/-- Bytes that are laid inside a range leave those outside of it alone. -/
theorem agreeOutside_splice {start length : Nat} {data patch : Bytes} (hs : start ≤ data.length)
    (hl : patch.length ≤ length) : AgreeOutside start length data (splice data start patch) := by
  intro i hi
  rw [getElem?_splice hs]
  rcases hi with hi | hi
  · rw [if_pos hi]
  · rw [if_neg (by omega), if_neg (by omega)]

/-- Data that agree outside of a range have slices that do. -/
theorem AgreeOutside.sliced {start length : Nat} {data data' : Bytes} (h : AgreeOutside start length data data')
    (front count : Nat) : AgreeOutside (start - front) length (slice data front count) (slice data' front count) := by
  intro i hi
  rw [getElem?_slice, getElem?_slice, h (front + i) (by omega)]

end FirmwareUpdate.Bytes
