import FirmwareUpdate.Bytes.Span

/-! The spans that a length is cut into follow one another and cover it. -/
namespace FirmwareUpdate

/-- The first span starts at `start`, each later one where the one before it ends, and the last one
ends at `stop`. -/
def Consecutive : (start : Nat) → List Span → (stop : Nat) → Prop
  | start, [], stop => start = stop
  | start, span :: rest, stop => span.start = start ∧ Consecutive (start + span.length) rest stop

private theorem Consecutive.append {start middle stop : Nat} {front back : List Span}
    (h : Consecutive start front middle) (h' : Consecutive middle back stop) :
    Consecutive start (front ++ back) stop := by
  induction front generalizing start with
  | nil =>
    rw [show start = middle from h]
    exact h'
  | cons span rest ih => exact ⟨h.1, ih h.2⟩

/-- Spans do not lead back. -/
theorem Consecutive.le {start stop : Nat} {spans : List Span} (h : Consecutive start spans stop) :
    start ≤ stop := by
  induction spans generalizing start with
  | nil => exact Nat.le_of_eq h
  | cons span rest ih =>
    have hrest := ih h.2
    omega

/-- Enough chunks are taken for all of it. -/
theorem le_chunkCount {chunk : Nat} (h : 0 < chunk) (total : Nat) :
    total ≤ chunkCount chunk total * chunk := by
  have hdiv := Nat.div_add_mod (total + chunk - 1) chunk
  have hmod := Nat.mod_lt (total + chunk - 1) h
  rw [chunkCount, Nat.mul_comm]
  omega

private theorem start_lt {chunk total i : Nat} (h : 0 < chunk) (hi : i < chunkCount chunk total) :
    i * chunk < total := by
  have hle : (i + 1) * chunk ≤ total + chunk - 1 :=
    Nat.le_trans (Nat.mul_le_mul_right _ hi) (Nat.div_mul_le_self _ _)
  rw [Nat.succ_mul] at hle
  omega

/-- No span goes past what it is cut from. -/
theorem span_le {chunk total : Nat} {span : Span} (hspan : span ∈ spans chunk total) :
    span.start + span.length ≤ total := by
  obtain ⟨i, hi, rfl⟩ := List.mem_map.mp hspan
  have hpos : 0 < chunk := by
    refine Nat.pos_of_ne_zero fun hzero => ?_
    rw [hzero, chunkCount, Nat.div_zero] at hi
    exact Nat.not_lt_zero _ (List.mem_range.mp hi)
  have hlt := start_lt hpos (List.mem_range.mp hi)
  show i * chunk + min chunk (total - i * chunk) ≤ total
  omega

/-- No span is empty. -/
theorem spans_pos {chunk : Nat} (h : 0 < chunk) (total : Nat) :
    ∀ span ∈ spans chunk total, 0 < span.length := by
  intro span hspan
  obtain ⟨i, hi, rfl⟩ := List.mem_map.mp hspan
  have hlt := start_lt h (List.mem_range.mp hi)
  show 0 < min chunk (total - i * chunk)
  omega

/-- Spans cover the length they are cut from. -/
theorem spans_consecutive {chunk : Nat} (h : 0 < chunk) (total : Nat) :
    Consecutive 0 (spans chunk total) total := by
  have hfirst : ∀ count, count ≤ chunkCount chunk total → Consecutive 0
      ((List.range count).map fun i => { start := i * chunk, length := min chunk (total - i * chunk) })
      (min (count * chunk) total) := by
    intro count
    induction count with
    | zero =>
      intro _
      show 0 = _
      omega
    | succ count ih =>
      intro hcount
      have hlt := start_lt h hcount
      rw [List.range_succ, List.map_append]
      refine (ih (by omega)).append ⟨?_, ?_⟩
      · show count * chunk = _
        omega
      · show _ + min chunk (total - count * chunk) = _
        rw [Nat.succ_mul]
        omega
  have hall := hfirst _ (Nat.le_refl _)
  rwa [Nat.min_eq_right (le_chunkCount h total)] at hall

/-- Spans of whole units, where the chunk size and the length are. -/
theorem spans_whole {chunk total unit : Nat} (hchunk : chunk % unit = 0) (htotal : total % unit = 0)
    {span : Span} (hspan : span ∈ spans chunk total) : span.length % unit = 0 := by
  obtain ⟨i, -, rfl⟩ := List.mem_map.mp hspan
  have hrest : (total - i * chunk) % unit = 0 :=
    Nat.mod_eq_zero_of_dvd (Nat.dvd_sub (Nat.dvd_of_mod_eq_zero htotal)
      (Nat.dvd_mul_left_of_dvd (Nat.dvd_of_mod_eq_zero hchunk) i))
  show min chunk (total - i * chunk) % unit = 0
  rcases Nat.le_total chunk (total - i * chunk) with hle | hle
  · rwa [Nat.min_eq_left hle]
  · rwa [Nat.min_eq_right hle]

end FirmwareUpdate
