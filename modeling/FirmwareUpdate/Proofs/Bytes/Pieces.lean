import FirmwareUpdate.Bytes

/-! Cutting a string into pieces of one size, piece by piece and in parts. -/
namespace FirmwareUpdate.Bytes

private theorem pieces_append {size count count' : Nat} {front back : Bytes} (h : front.length = count * size) :
    pieces size (count + count') (front ++ back) = pieces size count front ++ pieces size count' back := by
  induction count generalizing front with
  | zero =>
    obtain rfl : front = [] := List.length_eq_zero_iff.mp (by omega)
    rw [Nat.zero_add]
    rfl
  | succ count ih =>
    rw [Nat.succ_mul] at h
    have hdrop : (front.drop size).length = count * size := by
      rw [List.length_drop]
      omega
    rw [Nat.add_right_comm]
    show (front ++ back).take size :: pieces size (count + count') ((front ++ back).drop size) =
      front.take size :: (pieces size count (front.drop size) ++ _)
    rw [List.take_append_of_le_length (by omega), List.drop_append_of_le_length (by omega), ih hdrop]

/-- Data that end with a whole piece may be cut up apart from what follows. -/
theorem wholePieces_append {size : Nat} {front back : Bytes} (hpos : 0 < size) (h : front.length % size = 0) :
    wholePieces size (front ++ back) = wholePieces size front ++ wholePieces size back := by
  obtain ⟨count, hlen⟩ := Nat.dvd_of_mod_eq_zero h
  have hcount : (front ++ back).length / size = count + back.length / size := by
    rw [List.length_append, hlen, Nat.mul_add_div hpos]
  have hfront : front.length / size = count := by
    rw [hlen, Nat.mul_div_cancel_left _ hpos]
  simp only [wholePieces]
  rw [hcount, hfront]
  exact pieces_append (hlen.trans (Nat.mul_comm _ _))

/-- Data as long as a piece are one piece. -/
theorem wholePieces_one {size : Nat} {data : Bytes} (hpos : 0 < size) (h : data.length = size) :
    wholePieces size data = [data] := by
  simp only [wholePieces]
  rw [h, Nat.div_self hpos]
  show [data.take size] = [data]
  rw [← h, List.take_length]

end FirmwareUpdate.Bytes
