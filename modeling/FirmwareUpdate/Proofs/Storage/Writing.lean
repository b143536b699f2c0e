import FirmwareUpdate.Proofs.Storage.Track

/-! Runs of writes to an erased slot. However the bytes are cut up into writes, those that fill
granules are in the slot, and the rest is in the buffer. -/
namespace FirmwareUpdate.Storage
variable {n k : Nat}

/-- The bytes of a slot once `length` of them have been erased and `data` has been written. -/
def overlaid (s : Storage n k) (memory : Memory n k) (old : Bytes) (length : Nat) (data : Bytes) : Bytes :=
  Bytes.splice (Bytes.splice old 0 (Bytes.blank (s.erasedLength memory length))) 0
    (padTo (s.devices.granule memory.device) data)

/-- What a slot comes to be overlaid with depends on the setup alone. -/
theorem SameSetup.overlaid {s t : Storage n k} (h : s.SameSetup t) {memory : Memory n k} {old data : Bytes}
    {length : Nat} : t.overlaid memory old length data = s.overlaid memory old length data := by
  simp only [Storage.overlaid]
  rw [h.erasedLength, h.deviceGranule]

/-- A slot that is written from its start on, and that has been erased up to `limit`. -/
structure Run (n k : Nat) where
  slot : SlotId
  memory : Memory n k
  entry : Slot
  granule : Nat
  before : Bytes
  limit : Nat
  granule_pos : 0 < granule
  limit_le : limit ≤ entry.size
  erased : ∀ i, i < limit → before[i]? = some 0xFF

namespace Run
variable {r : Run n k} {data : Bytes} {s t : Storage n k}

/-- The slot has `data` laid over it. Past the limit it may not have been erased, and then only zeros are sure to come
out there as they are given. -/
def Laid (r : Run n k) (data : Bytes) (s : Storage n k) : Prop :=
  ∃ laid, laid.length = data.length ∧ (∀ i, i < r.limit ∨ data[i]? = some 0 → laid[i]? = data[i]?) ∧
    s.held r.memory r.entry = Bytes.splice r.before 0 laid

private theorem erased_beyond {laid : Bytes} {i : Nat} (hheld : s.held r.memory r.entry = Bytes.splice r.before 0 laid)
    (hi : laid.length ≤ i) (hlimit : i < r.limit) : (s.held r.memory r.entry)[i]? = some 0xFF := by
  rw [hheld, Bytes.getElem?_splice (Nat.zero_le _), if_neg (Nat.not_lt_zero i), if_neg (by omega)]
  exact r.erased i hlimit

/-- Nothing has been written to begin with. -/
theorem laid_nil (h : s.held r.memory r.entry = r.before) : r.Laid [] s :=
  ⟨[], rfl, fun _ _ => rfl, by simp [h, Bytes.splice]⟩

/-- One more granule goes to the slot. -/
theorem Laid.program {bytes : Bytes} (h : r.Laid data s) (hp : Programmed r.memory r.entry data.length bytes s t) :
    r.Laid (data ++ bytes) t := by
  obtain ⟨laid, hlaid, hsame, hheld⟩ := h
  obtain ⟨patch, hlength, hexact, hpatch⟩ := hp
  refine ⟨laid ++ patch, by rw [List.length_append, List.length_append, hlaid, hlength], fun i hi => ?_, ?_⟩
  · rw [List.getElem?_append] at hi
    rw [List.getElem?_append, List.getElem?_append, hlaid]
    by_cases hfirst : i < data.length
    · rw [if_pos hfirst] at hi ⊢
      rw [if_pos hfirst]
      exact hsame i hi
    · rw [if_neg hfirst] at hi ⊢
      rw [if_neg hfirst]
      by_cases hinside : i - data.length < bytes.length
      · exact hexact _ hinside (hi.imp_left fun hlimit => erased_beyond hheld (by omega) (by omega))
      · rw [List.getElem?_eq_none (by omega), List.getElem?_eq_none (by omega)]
  · have hsplice : Bytes.splice (Bytes.splice r.before 0 laid) (0 + laid.length) patch =
        Bytes.splice r.before 0 (laid ++ patch) := Bytes.splice_splice (Nat.zero_le _)
    rw [Nat.zero_add] at hsplice
    rw [hpatch.held, hheld, ← hlaid, hsplice]

/-- What reaches past the limit by no more than padding is in the slot as it is. -/
theorem Laid.held_padTo (h : r.Laid (padTo r.granule data) s) (hdata : data.length ≤ r.limit) :
    s.held r.memory r.entry = Bytes.splice r.before 0 (padTo r.granule data) := by
  obtain ⟨laid, hlaid, hsame, hheld⟩ := h
  have hexact : laid = padTo r.granule data := by
    apply List.ext_getElem?
    intro i
    by_cases hi : i < (padTo r.granule data).length
    · refine hsame i ?_
      by_cases hlimit : i < r.limit
      · exact Or.inl hlimit
      · exact Or.inr (padTo_beyond (by omega) hi)
    · rw [List.getElem?_eq_none (by omega), List.getElem?_eq_none (by omega)]
  rw [hheld, hexact]

/-- Up to the limit, what has been written is in the slot. -/
theorem Laid.prefix_held {front : Bytes} (h : r.Laid data s) (hfront : front <+: data)
    (hlimit : front.length ≤ r.limit) : front <+: s.held r.memory r.entry := by
  obtain ⟨laid, hlaid, hsame, hheld⟩ := h
  rw [hheld]
  refine List.IsPrefix.trans ?_ (Bytes.prefix_splice _ _)
  rw [List.prefix_iff_getElem?] at hfront ⊢
  intro i hi
  rw [hsame i (Or.inl (Nat.lt_of_lt_of_le hi hlimit))]
  exact hfront i hi

/-- A run is a track from the start of the slot up to its end. -/
def track (r : Run n k) : Track n k where
  slot := r.slot
  memory := r.memory
  entry := r.entry
  granule := r.granule
  start := 0
  limit := r.entry.size
  Out := r.Laid
  granule_pos := r.granule_pos
  start_mod := Nat.zero_mod _
  limit_le := Nat.le_of_eq (Nat.zero_add _)
  out_append := by
    intro data bytes s t hlaid _ _ _ hprogrammed _
    rw [Nat.zero_add] at hprogrammed
    exact hlaid.program hprogrammed
  out_buffer := by
    rintro data s buffer ⟨laid, hlaid, hsame, hheld⟩
    exact ⟨laid, hlaid, hsame, (still_buffer _ buffer).held_eq.trans hheld⟩

/-- What is in the slot is not lost when another one is read. -/
theorem kept_track : r.track.Kept := by
  rintro data s t ⟨laid, hlaid, hsame, hheld⟩ hstill -
  exact ⟨laid, hlaid, hsame, hstill.held_eq.trans hheld⟩

/-- `data` has been taken in. -/
abbrev Taken (r : Run n k) : Bytes → Storage n k → Prop := r.track.Taken

/-- A step of a run. -/
abbrev Step (r : Run n k) : Storage n k → Storage n k → Prop := r.track.Step

/-- How a step fails. -/
abbrev Fails (r : Run n k) : Bytes → Storage n k → Storage n k → Prop := r.track.Fails

/-- A slot whose front has been erased is ready for a run. -/
theorem exists_run {slot : SlotId} {memory : Memory n k} {entry : Slot} {old : Bytes} {length erased : Nat}
    (hs : s.InOrder) (hl : s.lookup? slot = .ok (memory, entry)) (hlength : length ≤ entry.size)
    (herased : length ≤ erased) (hold : s.held memory entry = Bytes.splice old 0 (Bytes.blank erased))
    (hbuffer : s.buffer.bytes = []) :
    ∃ r : Run n k, r.slot = slot ∧ r.memory = memory ∧ r.entry = entry ∧
      r.granule = s.devices.granule memory.device ∧ r.before = Bytes.splice old 0 (Bytes.blank erased) ∧
      r.limit = length ∧ r.Taken [] s := by
  have hblank : ∀ i, i < length → (Bytes.splice old 0 (Bytes.blank erased))[i]? = some 0xFF := by
    intro i hi
    rw [Bytes.getElem?_splice (Nat.zero_le _), if_neg (Nat.not_lt_zero i), Bytes.length_blank,
      if_pos (by omega), Bytes.getElem?_blank, if_pos (by omega)]
  let r : Run n k := ⟨slot, memory, entry, s.devices.granule memory.device, Bytes.splice old 0 (Bytes.blank erased),
    length, hs.sound.granule_pos _ _ _ hl, hlength, hblank⟩
  exact ⟨r, rfl, rfl, rfl, rfl, rfl, rfl, Track.taken_nil hs hl rfl (congrArg List.length hbuffer) (laid_nil hold)⟩

/-- As far as the run may reach, what is in the slot is erased or belongs to `full`. -/
def Left (r : Run n k) (full : Bytes) (t : Storage n k) : Prop :=
  ∀ i, i < r.limit → (t.held r.memory r.entry)[i]? = some 0xFF ∨
    ∃ byte, (t.held r.memory r.entry)[i]? = some byte ∧ full[i]? = some byte

theorem Left.mono {full longer : Bytes} (h : r.Left full t) (hlonger : full <+: longer) : r.Left longer t := by
  intro i hi
  refine (h i hi).imp id fun hfull => ?_
  obtain ⟨byte, hheld, hbyte⟩ := hfull
  obtain ⟨rest, rfl⟩ := hlonger
  rw [List.getElem?_append_left (List.getElem?_eq_some_iff.mp hbyte).1]
  exact ⟨byte, hheld, hbyte⟩

private theorem Laid.left (h : r.Laid data s) : r.Left data s := by
  obtain ⟨laid, hlaid, hsame, hheld⟩ := h
  intro i hi
  by_cases hin : i < data.length
  · obtain ⟨byte, hbyte⟩ : ∃ byte, data[i]? = some byte := ⟨_, List.getElem?_eq_getElem hin⟩
    refine Or.inr ⟨byte, ?_, hbyte⟩
    rw [hheld, Bytes.getElem?_splice (Nat.zero_le _), if_neg (Nat.not_lt_zero i), if_pos (by omega), Nat.sub_zero]
    exact (hsame i (Or.inl hi)).trans hbyte
  · exact Or.inl (erased_beyond hheld (by omega) hi)

/-- What has been taken in is in the slot, as far as the run may reach, or nothing has been written there. -/
theorem left_of_taken (h : r.Taken data s) : r.Left data s := h.out.left.mono (List.take_prefix _ _)

/-- Where a granule may not have gone to the slot, it has what it had, or that granule as well. -/
theorem left_of_fails {full : Bytes} (h : r.Fails full s t) : r.Left full t := by
  obtain ⟨u, data, bytes, hfull, ⟨laid, hlaid, hexact, hheld⟩, htried⟩ := h.left
  rw [show r.track.start + data.length = data.length from Nat.zero_add _] at htried
  rcases htried with hsame | hprogrammed
  · have hkept : r.Laid data t := ⟨laid, hlaid, hexact, hsame.trans hheld⟩
    exact hkept.left.mono ((List.prefix_append _ _).trans hfull)
  · have hmore : r.Laid (data ++ bytes) t := Laid.program ⟨laid, hlaid, hexact, hheld⟩ hprogrammed
    exact hmore.left.mono hfull

/-- A write that goes on with the run. -/
theorem write_ends (more : Bytes) (h : r.Taken data s) (hroom : data.length + more.length ≤ r.entry.size) :
    (write r.slot data.length more .buffered).Ends s
      (fun _ t => r.Step s t ∧ r.Taken (data ++ more) t) (fun _ t => r.Fails (data ++ more) s t) False := by
  have hwrite := Track.write_ends more h hroom
  rwa [show r.track.start + data.length = data.length from Nat.zero_add _] at hwrite

/-- A write that ends the run. It is refused only where it reaches past the slot. -/
theorem write_force_ends (more : Bytes) (h : r.Taken data s) :
    (write r.slot data.length more .force).Ends s
      (fun _ t => r.Step s t ∧ r.Laid (padTo r.granule (data ++ more)) t ∧ t.buffer.bytes = [])
      (fun _ t => r.Fails (padTo r.granule (data ++ more)) s t ∨ t = s ∧ r.entry.size < data.length + more.length)
      False := by
  by_cases hroom : data.length + more.length ≤ r.entry.size
  · have hwrite := Track.write_force_ends more h hroom
    rw [show r.track.start + data.length = data.length from Nat.zero_add _] at hwrite
    exact hwrite.imp (fun _ _ ht => ht) (fun _ _ => Or.inl) id
  · have hlookup : s.lookup? r.slot = .ok (r.memory, r.entry) := h.lookup
    simp only [write, requireInside]
    rw [ends_lookup_bind hlookup]
    simp only [if_neg hroom]
    exact Or.inr ⟨rfl, Nat.lt_of_not_le hroom⟩

/-- The front of another slot is copied byte for byte. -/
theorem copy_ends {source : SlotId} {memory : Memory n k} {entry : Slot} {length : Nat} (hne : source ≠ r.slot)
    (hl : s.lookup? source = .ok (memory, entry)) (hlength : length ≤ entry.size) (hroom : length ≤ r.limit)
    (h : r.Taken [] s) :
    (copy source r.slot length).Ends s
      (fun _ t => r.Step s t ∧ t.held r.memory r.entry =
        Bytes.splice r.before 0 (padTo r.granule ((s.held memory entry).take length)) ∧ t.buffer.bytes = [])
      (fun _ t => r.Fails (padTo r.granule ((s.held memory entry).take length)) s t) False := by
  have hcopy := Track.copy_ends kept_track rfl hne hl hlength (Nat.le_trans hroom r.limit_le) h
  refine hcopy.imp ?_ (fun _ _ hfails => hfails) id
  rintro _ t ⟨hstep, hlaid, hbytes⟩
  exact ⟨hstep, hlaid.held_padTo (Nat.le_trans (List.length_take_le _ _) hroom), hbytes⟩

end Run

variable {s : Storage n k} {slot source target : SlotId} {memory memory' : Memory n k} {entry entry' : Slot}

/-! ### While bytes are pending -/

/-- No slot is written from its start on while bytes are pending. -/
theorem write_of_pending {data : Bytes} {mode : WriteMode} (hl : s.lookup? slot = .ok (memory, entry))
    (hpending : s.buffer.bytes ≠ []) :
    (write slot 0 data mode).Ends s (fun _ _ => False) (fun _ _ => True) False := by
  have hlength : s.buffer.bytes.length ≠ 0 := fun hzero => hpending (List.length_eq_zero_iff.mp hzero)
  have hwaiting : s.buffer.isWaiting = true := decide_eq_true hlength
  have hnext : s.buffer.next ≠ 0 := fun hzero => hlength (Nat.eq_zero_of_add_eq_zero_left hzero)
  have hrefused : (continueRun slot memory 0).Ends s (fun _ _ => False) (fun _ _ => True) False := by
    simp only [continueRun]
    rw [Action.ends_get_bind, if_pos hwaiting, if_neg fun hsame => hnext hsame.2]
    exact trivial
  simp only [write, requireInside]
  rw [ends_lookup_bind hl]
  split
  · exact (Action.ends_pure_bind _ _ _).mpr (hrefused.bind (fun _ _ h => h.elim) (fun _ _ h => h) id)
  · exact trivial

private theorem copySpans_of_pending {spans : List Span} {stop : Nat} (hs : s.InOrder)
    (hl : s.lookup? source = .ok (memory, entry)) (hl' : s.lookup? target = .ok (memory', entry'))
    (hspans : Consecutive 0 spans stop) (hstop : stop ≠ 0) (hin : stop ≤ entry.size) (hpending : s.buffer.bytes ≠ []) :
    (copySpans source target spans).Ends s (fun _ _ => False) (fun _ _ => True) s.AtTop := by
  -- The first span is read and then not written.
  cases spans with
  | nil => exact (hstop (Eq.symm hspans)).elim
  | cons span rest =>
    obtain ⟨hstart, hrest⟩ := hspans
    have hle := hrest.le
    simp only [copySpans]
    rw [hstart]
    refine (read_ends hs hl (by omega)).bind ?_ (fun _ _ _ => trivial) And.right
    intro bytes t hended
    obtain ⟨hstill, hbuffer, -⟩ := hended
    exact (write_of_pending (hstill.lookup? hl') (hbuffer ▸ hpending)).bind (fun _ _ h => h.elim) (fun _ _ h => h)
      False.elim

/-- Nothing is copied while bytes are pending. -/
theorem copy_of_pending {length : Nat} (hs : s.InOrder) (hl : s.lookup? source = .ok (memory, entry))
    (hl' : s.lookup? target = .ok (memory', entry')) (hlength : length ≠ 0) (hpending : s.buffer.bytes ≠ []) :
    (copy source target length).Ends s (fun _ _ => False) (fun _ _ => True) s.AtTop := by
  simp only [copy, requireInside]
  split
  · exact trivial
  rw [ends_lookup_bind hl]
  split
  · rename_i hin
    have hroom : 0 + length ≤ entry.size := hin
    rw [Action.ends_pure_bind, ends_lookup_bind hl']
    split
    · rw [Action.ends_pure_bind]
      exact (copySpans_of_pending hs hl hl' (spans_consecutive (by decide) length) hlength (by omega) hpending).bind
        (fun _ _ h => h.elim) (fun _ _ h => h) id
    · exact trivial
  · exact trivial

end FirmwareUpdate.Storage
