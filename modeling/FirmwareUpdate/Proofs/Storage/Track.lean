import FirmwareUpdate.Proofs.Bytes.Span
import FirmwareUpdate.Proofs.Storage.Records

/-! Bytes that are written to a slot one after another. However they are cut up into writes, those
that fill granules have gone to the device, a granule at a time, and the rest is in the buffer. What
is kept of the bytes that have gone is left open: the contents of the slot, or the record of writes. -/
namespace FirmwareUpdate.Storage
variable {n k : Nat}

/-- The last granule is filled with zeros. -/
def padTo (granule : Nat) (data : Bytes) : Bytes :=
  if data.length % granule = 0 then data
  else data ++ List.replicate (granule - data.length % granule) 0

/-- What is padded starts with what was there. -/
theorem prefix_padTo (granule : Nat) (data : Bytes) : data <+: padTo granule data := by
  simp only [padTo]
  split
  · exact List.prefix_refl data
  · exact List.prefix_append _ _

/-- What is added is zeros. -/
theorem padTo_beyond {granule i : Nat} {data : Bytes} (hi : data.length ≤ i) (hlt : i < (padTo granule data).length) :
    (padTo granule data)[i]? = some 0 := by
  simp only [padTo] at hlt ⊢
  split at hlt
  · omega
  · rename_i hpartial
    rw [List.length_append, List.length_replicate] at hlt
    rw [if_neg hpartial, List.getElem?_append_right hi, List.getElem?_replicate, if_pos (by omega)]

/-- A full granule needs no padding. -/
theorem padTo_of_full {granule : Nat} {data : Bytes} (hfull : data.length = granule) : padTo granule data = data := by
  rw [padTo, hfull, Nat.mod_self, if_pos rfl]

/-- A granule that has been begun is filled with zeros. -/
theorem padTo_of_partial {granule : Nat} {data : Bytes} (hsome : data.length ≠ 0) (hshort : data.length < granule) :
    padTo granule data = data ++ List.replicate (granule - data.length) 0 := by
  rw [padTo, Nat.mod_eq_of_lt hshort, if_neg hsome]

/-- Bytes of the granules that are full. -/
def wholeOf (granule : Nat) (data : Bytes) : Nat := data.length / granule * granule

section Whole
variable {granule : Nat} {data : Bytes} {byte : UInt8}

private theorem wholeOf_le (granule : Nat) (data : Bytes) : wholeOf granule data ≤ data.length :=
  Nat.div_mul_le_self _ _

private theorem length_sub_wholeOf (granule : Nat) (data : Bytes) :
    data.length - wholeOf granule data = data.length % granule := by
  have hdiv := Nat.div_add_mod data.length granule
  rw [Nat.mul_comm] at hdiv
  simp only [wholeOf]
  omega

private theorem wholeOf_mod (granule : Nat) (data : Bytes) : wholeOf granule data % granule = 0 := Nat.mul_mod_left _ _

private theorem wholeOf_eq_length (h : data.length % granule = 0) : wholeOf granule data = data.length :=
  Nat.div_mul_cancel (Nat.dvd_of_mod_eq_zero h)

private theorem wholeOf_push_of_lt (h : data.length % granule + 1 < granule) :
    wholeOf granule (data ++ [byte]) = wholeOf granule data := by
  have hdiv := Nat.div_add_mod data.length granule
  rw [Nat.mul_comm] at hdiv
  simp only [wholeOf]
  rw [List.length_append, List.length_singleton]
  refine congrArg (· * granule) (Nat.div_eq_of_lt_le ?_ ?_)
  · omega
  · rw [Nat.succ_mul]
    omega

private theorem push_complete (h : data.length % granule + 1 = granule) :
    (data ++ [byte]).length % granule = 0 := by
  have hdiv := Nat.div_add_mod data.length granule
  have hsum : (data ++ [byte]).length = granule * (data.length / granule + 1) := by
    rw [List.length_append, List.length_singleton, Nat.mul_add, Nat.mul_one]
    omega
  rw [hsum]
  exact Nat.mul_mod_right _ _

end Whole

/-- Up to `limit` bytes of a slot are written from `start` on. `Out` is what holds of the bytes that
have gone to the device. -/
structure Track (n k : Nat) where
  slot : SlotId
  memory : Memory n k
  entry : Slot
  granule : Nat
  start : Nat
  limit : Nat
  Out : Bytes → Storage n k → Prop
  granule_pos : 0 < granule
  start_mod : start % granule = 0
  limit_le : start + limit ≤ entry.size
  /-- One more granule goes to the device; what lies past the limit is padding. -/
  out_append : ∀ {data bytes s t}, Out data s → data.length % granule = 0 → bytes.length = granule →
    (∀ i, limit ≤ data.length + i → i < bytes.length → bytes[i]? = some 0) →
    Programmed memory entry (start + data.length) bytes s t →
    Recorded memory.device ⟨placeOf entry (start + data.length), bytes⟩ s t → Out (data ++ bytes) t
  out_buffer : ∀ {data s} buffer, Out data s → Out data { s with buffer }

namespace Track
variable {r : Track n k} {data : Bytes} {byte : UInt8} {s t u : Storage n k}

def whole (r : Track n k) (data : Bytes) : Nat := wholeOf r.granule data

/-- The buffer while the granule at `offset` is being filled. -/
def bufferAt (r : Track n k) (offset : Nat) (bytes : Bytes) : GranuleBuffer :=
  ⟨r.slot, r.start + offset, r.granule, bytes⟩

/-- `data` has been taken in. A buffer that is empty does not say whose it is. -/
structure Taken (r : Track n k) (data : Bytes) (s : Storage n k) : Prop where
  inOrder : s.InOrder
  lookup : s.lookup? r.slot = .ok (r.memory, r.entry)
  granule : s.devices.granule r.memory.device = r.granule
  length_le : data.length ≤ r.limit
  out : r.Out (data.take (r.whole data)) s
  bytes : s.buffer.bytes = data.drop (r.whole data)
  waiting : s.buffer.bytes ≠ [] → s.buffer = r.bufferAt (r.whole data) (data.drop (r.whole data))

theorem Taken.of_still (h : r.Taken data s) (ht : s.Still t) (hbuffer : t.buffer = s.buffer)
    (hout : r.Out (data.take (r.whole data)) t) : r.Taken data t :=
  ⟨ht.inOrder h.inOrder, ht.lookup? h.lookup, (ht.setup.deviceGranule _).trans h.granule, h.length_le, hout,
    hbuffer ▸ h.bytes, hbuffer ▸ h.waiting⟩

/-- Nothing has been taken in to begin with. -/
theorem taken_nil (hs : s.InOrder) (hl : s.lookup? r.slot = .ok (r.memory, r.entry))
    (hgranule : s.devices.granule r.memory.device = r.granule) (hpending : s.pending = 0) (hout : r.Out [] s) :
    r.Taken [] s := by
  have hempty : s.buffer.bytes = [] := List.length_eq_zero_iff.mp hpending
  refine ⟨hs, hl, hgranule, Nat.zero_le _, ?_, ?_, fun hne => (hne hempty).elim⟩
  · rwa [List.take_nil]
  · rw [hempty, List.drop_nil]

/-- Less than a granule is pending. -/
theorem Taken.pending (h : r.Taken data s) : s.pending = data.length % r.granule := by
  rw [Storage.pending, h.bytes, List.length_drop]
  exact length_sub_wholeOf r.granule data

/-- `data` has been taken in, and the granule that is under way is in the buffer. -/
structure Gathered (r : Track n k) (data : Bytes) (s : Storage n k) : Prop extends r.Taken data s where
  buffer : s.buffer = r.bufferAt (r.whole data) (data.drop (r.whole data))

/-- A step of writing. -/
def Step (r : Track n k) (s t : Storage n k) : Prop := Changes (s.within r.memory r.entry) s t

/-- What is left of `full` where one of its granules may not have gone to the device. -/
def Left (r : Track n k) (full : Bytes) (t : Storage n k) : Prop :=
  ∃ s data bytes, data ++ bytes <+: full ∧ r.Out data s ∧
    Tried r.memory r.entry (r.start + data.length) bytes s t

/-- How a step fails while `full` is written: by the fault of a device, if the slot is one of whole granules. -/
structure Fails (r : Track n k) (full : Bytes) (s t : Storage n k) : Prop where
  changes : Changes (s.within r.memory r.entry) s t
  dropped : t.buffer.bytes = []
  faulted : s.Granular r.memory r.entry → s.Faulted t
  left : r.Left full t

theorem step_trans (h : r.Step s t) (h' : r.Step t u) : r.Step s u :=
  Changes.trans h (Changes.mono h' fun p hp => (h.setup.within_iff p).mp hp)

private theorem fails_trans {full : Bytes} (h : r.Step s t) (hf : r.Fails full t u) : r.Fails full s u :=
  ⟨step_trans h hf.changes, hf.dropped,
    fun hgranular => h.faulted_right (hf.faulted (h.setup.granular.mpr hgranular)), hf.left⟩

private theorem Fails.mono {full longer : Bytes} (h : r.Fails full s t) (hlonger : full <+: longer) :
    r.Fails longer s t := by
  obtain ⟨u, data, bytes, hfull, hout, htried⟩ := h.left
  exact ⟨h.changes, h.dropped, h.faulted, u, data, bytes, hfull.trans hlonger, hout, htried⟩

private theorem gathered_mk (hs : s.InOrder) (hl : s.lookup? r.slot = .ok (r.memory, r.entry))
    (hgranule : s.devices.granule r.memory.device = r.granule) (hlength : data.length ≤ r.limit)
    (hout : r.Out (data.take (r.whole data)) s)
    (hbuffer : s.buffer = r.bufferAt (r.whole data) (data.drop (r.whole data))) : r.Gathered data s :=
  ⟨⟨hs, hl, hgranule, hlength, hout, congrArg GranuleBuffer.bytes hbuffer, fun _ => hbuffer⟩, hbuffer⟩

private theorem length_take_whole (r : Track n k) (data : Bytes) :
    (data.take (r.whole data)).length = r.whole data :=
  List.length_take_of_le (wholeOf_le r.granule data)

private theorem advance_ends {bytes : Bytes} (hs : s.InOrder)
    (hl : s.lookup? r.slot = .ok (r.memory, r.entry))
    (hgranule : s.devices.granule r.memory.device = r.granule) (hlength : r.whole data < r.limit)
    (hout : r.Out (data.take (r.whole data)) s) (hbuffer : s.buffer = r.bufferAt (r.whole data) bytes)
    (hfull : bytes.length = r.granule)
    (hbytes : ∀ i, r.limit ≤ r.whole data + i → i < bytes.length → bytes[i]? = some 0) :
    writeOut.Ends s
      (fun _ t => r.Step s t ∧ r.Out (data.take (r.whole data) ++ bytes) t ∧
        t.buffer = r.bufferAt (r.whole data + r.granule) [])
      (fun _ t => r.Fails (data.take (r.whole data) ++ bytes) s t) False := by
  have hlimit := r.limit_le
  have htarget : s.lookup? s.buffer.target = .ok (r.memory, r.entry) := by rw [hbuffer]; exact hl
  have hbufferGranule : s.buffer.granule = s.devices.granule r.memory.device := by
    rw [hbuffer]
    exact hgranule.symm
  have hbufferFull : s.buffer.bytes.length = s.buffer.granule := by
    rw [hbuffer]
    exact hfull
  have hmod : (r.start + r.whole data) % r.granule = 0 := by
    rw [Nat.add_mod, r.start_mod, whole, wholeOf_mod]
    exact Nat.zero_mod _
  refine ((writeOut_ends hs htarget hbufferGranule hbufferFull).and_yields (writeOut_records htarget)).imp
    ?_ ?_ id
  · intro _ t hended
    obtain ⟨⟨hprogrammed, hadvanced⟩, hrecorded⟩ := hended
    rw [hbuffer] at hprogrammed hadvanced hrecorded
    refine ⟨hprogrammed.touched.changes, ?_, hadvanced.trans ?_⟩
    · refine r.out_append hout ?_ hfull ?_ ?_ ?_
      · rw [length_take_whole]
        exact wholeOf_mod _ _
      · rwa [length_take_whole]
      · rwa [length_take_whole]
      · rwa [length_take_whole]
    · simp only [bufferAt, GranuleBuffer.advanced, Nat.add_assoc]
  · intro _ t hended
    obtain ⟨htouched, hdropped, hf, htried⟩ := hended
    rw [hbuffer] at hf htried
    refine ⟨htouched.changes, hdropped, fun hgranular => hf hgranular hmod ?_,
      s, _, bytes, List.prefix_refl _, hout, ?_⟩
    · show r.start + r.whole data < r.entry.size
      omega
    · rw [length_take_whole]
      exact htried

/-- One byte more is gathered, and a granule goes out with it when it is full. -/
theorem pushByte_ends (h : r.Gathered data s) (hroom : data.length < r.limit) :
    (pushByte byte).Ends s (fun _ t => r.Step s t ∧ r.Gathered (data ++ [byte]) t)
      (fun _ t => r.Fails (data ++ [byte]) s t) False := by
  have hstill : s.Still { s with buffer := s.buffer.push byte } := still_buffer s _
  have hpush : s.buffer.push byte = r.bufferAt (r.whole data) (data.drop (r.whole data) ++ [byte]) := by
    rw [h.buffer]
    rfl
  have hrest : data.length - r.whole data = data.length % r.granule := length_sub_wholeOf r.granule data
  have hlength : (data.drop (r.whole data) ++ [byte]).length = data.length % r.granule + 1 := by
    rw [List.length_append, List.length_drop, hrest, List.length_singleton]
  have hmod := Nat.mod_lt data.length r.granule_pos
  have hle : r.whole data ≤ data.length := wholeOf_le r.granule data
  have hwhole : data.take (r.whole data) ++ (data.drop (r.whole data) ++ [byte]) = data ++ [byte] := by
    rw [← List.append_assoc, List.take_append_drop]
  have hroom' : (data ++ [byte]).length ≤ r.limit := by
    rw [List.length_append, List.length_singleton]
    omega
  simp only [pushByte]
  simp only [Action.ends_modify_bind, Action.ends_get_bind]
  rw [hpush] at hstill ⊢
  split
  · rename_i hcomplete
    have hfull : data.length % r.granule + 1 = r.granule :=
      hlength.symm.trans (of_decide_eq_true hcomplete)
    have hdone : r.whole (data ++ [byte]) = (data ++ [byte]).length := wholeOf_eq_length (push_complete hfull)
    refine (advance_ends (hstill.inOrder h.inOrder) h.lookup h.granule (by omega)
      (r.out_buffer _ h.out) rfl (hlength.trans hfull) ?_).imp ?_ ?_ id
    · intro i hi hi'
      omega
    · intro _ t hended
      obtain ⟨hstep, hout, hbuffer⟩ := hended
      have hstep' : r.Step s t := hstill.changes.trans hstep
      refine ⟨hstep', gathered_mk (hstep'.inOrder h.inOrder) (hstep'.lookup? h.lookup)
        ((hstep'.setup.deviceGranule _).trans h.granule) hroom' ?_ ?_⟩
      · rw [hdone, List.take_length, ← hwhole]
        exact hout
      · rw [hbuffer, hdone, List.drop_length, List.length_append, List.length_singleton]
        congr 1
        omega
    · rw [hwhole]
      exact fun _ t hfails => fails_trans hstill.changes hfails
  · rename_i hpartial
    have hfull : data.length % r.granule + 1 ≠ r.granule :=
      fun hfull => hpartial (decide_eq_true (hlength.trans hfull))
    have hsame : r.whole (data ++ [byte]) = r.whole data := wholeOf_push_of_lt (by omega)
    refine ⟨hstill.changes, gathered_mk (hstill.inOrder h.inOrder) h.lookup h.granule hroom' ?_ ?_⟩
    · rw [hsame, List.take_append_of_le_length hle]
      exact r.out_buffer _ h.out
    · rw [hsame, List.drop_append_of_le_length hle]

/-- More bytes are gathered one by one. -/
theorem pushBytes_ends (bytes : Bytes) (h : r.Gathered data s) (hroom : data.length + bytes.length ≤ r.limit) :
    (pushBytes bytes).Ends s (fun _ t => r.Step s t ∧ r.Gathered (data ++ bytes) t)
      (fun _ t => r.Fails (data ++ bytes) s t) False := by
  induction bytes generalizing data s with
  | nil =>
    rw [List.append_nil]
    exact ⟨Changes.refl _ s, h⟩
  | cons byte rest ih =>
    rw [List.length_cons] at hroom
    have hcons : data ++ [byte] ++ rest = data ++ byte :: rest := List.append_assoc _ _ _
    refine (pushByte_ends h (by omega)).bind ?_ (fun _ _ h => h.mono ⟨rest, hcons⟩) id
    intro _ t hended
    obtain ⟨hstep, ht⟩ := hended
    rw [← hcons]
    refine (ih ht ?_).imp ?_ (fun _ u hu => fails_trans hstep hu) id
    · rw [List.length_append, List.length_singleton]
      omega
    · exact fun _ u hended => ⟨step_trans hstep hended.1, hended.2⟩

/-- Writing goes on where it stands. -/
theorem continueRun_ends (h : r.Taken data s) :
    (continueRun r.slot r.memory (r.start + data.length)).Ends s (fun _ t => s.Still t ∧ r.Gathered data t)
      (fun _ _ => False) False := by
  have hrest : data.length - r.whole data = data.length % r.granule := length_sub_wholeOf r.granule data
  have hle : r.whole data ≤ data.length := wholeOf_le r.granule data
  have hbytes : s.buffer.bytes.length = data.length % r.granule := h.pending
  simp only [continueRun]
  rw [Action.ends_get_bind]
  split
  · rename_i hwaiting
    have hbuffer := h.waiting fun hnil => by
      simp [GranuleBuffer.isWaiting, hnil] at hwaiting
    have hnext : s.buffer.target = r.slot ∧ s.buffer.next = r.start + data.length := by
      rw [hbuffer]
      refine ⟨rfl, ?_⟩
      simp only [GranuleBuffer.next, bufferAt, List.length_drop]
      omega
    rw [if_pos hnext]
    exact ⟨Changes.refl _ s, h, hbuffer⟩
  · rename_i hidle
    have hempty : data.length % r.granule = 0 := by
      rw [← hbytes]
      simpa [GranuleBuffer.isWaiting] using hidle
    have hwhole : r.whole data = data.length := wholeOf_eq_length hempty
    have haligned : (r.start + data.length) % r.granule = 0 := by
      rw [Nat.add_mod, r.start_mod, hempty]
      exact Nat.zero_mod _
    have hstill := still_buffer s (.start r.slot (r.start + data.length) r.granule)
    simp only [h.granule, if_pos haligned, Action.ends_set]
    refine ⟨hstill, gathered_mk (hstill.inOrder h.inOrder) h.lookup h.granule h.length_le (r.out_buffer _ h.out) ?_⟩
    rw [hwhole, List.drop_length]
    rfl

/-- The last granule is written even if it is not full. -/
theorem forceOut_ends (h : r.Gathered data s) :
    forceOut.Ends s (fun _ t => r.Step s t ∧ r.Out (padTo r.granule data) t ∧ t.buffer.bytes = [])
      (fun _ t => r.Fails (padTo r.granule data) s t) False := by
  have hrest : data.length - r.whole data = data.length % r.granule := length_sub_wholeOf r.granule data
  have hle : r.whole data ≤ data.length := wholeOf_le r.granule data
  have hlimit := h.length_le
  have hlength : (data.drop (r.whole data)).length = data.length % r.granule := by
    rw [List.length_drop, hrest]
  simp only [forceOut, padTo]
  rw [Action.ends_get_bind, h.buffer]
  by_cases hempty : data.length % r.granule = 0
  · have hwhole : r.whole data = data.length := wholeOf_eq_length hempty
    have hidle : ¬(r.bufferAt (r.whole data) (data.drop (r.whole data))).isWaiting := by
      simp [GranuleBuffer.isWaiting, bufferAt, hlength, hempty]
    rw [if_neg hidle, if_pos hempty]
    refine ⟨Changes.refl _ s, ?_, ?_⟩
    · have hout := h.out
      rwa [hwhole, List.take_length] at hout
    · rw [h.bytes, hwhole, List.drop_length]
  · have hwaiting : (r.bufferAt (r.whole data) (data.drop (r.whole data))).isWaiting := by
      simp [GranuleBuffer.isWaiting, bufferAt, hlength, hempty]
    rw [if_pos hwaiting, if_neg hempty]
    have hmod := Nat.mod_lt data.length r.granule_pos
    have hstill := still_buffer s s.buffer.padded
    have hpadded : s.buffer.padded = r.bufferAt (r.whole data) (data.drop (r.whole data) ++
        List.replicate (r.granule - data.length % r.granule) 0) := by
      rw [h.buffer, GranuleBuffer.padded, bufferAt, hlength]
      rfl
    rw [Action.ends_modify_bind]
    refine (advance_ends (hstill.inOrder h.inOrder) h.lookup h.granule (by omega)
      (r.out_buffer _ h.out) hpadded ?_ ?_).imp ?_ ?_ id
    · rw [List.length_append, hlength, List.length_replicate]
      omega
    · intro i hi hi'
      rw [List.length_append, hlength, List.length_replicate] at hi'
      rw [List.getElem?_append, if_neg (by omega), List.getElem?_replicate, if_pos (by omega)]
    · intro _ t hended
      obtain ⟨hstep, hout, hbuffer⟩ := hended
      refine ⟨hstill.changes.trans hstep, ?_, congrArg GranuleBuffer.bytes hbuffer⟩
      rw [← List.append_assoc, List.take_append_drop] at hout
      exact hout
    · rw [← List.append_assoc, List.take_append_drop]
      exact fun _ t hfails => fails_trans hstill.changes hfails

private theorem gather_ends {α : Type} {more full : Bytes} {next : Unit → Op n k α}
    {done : α → Storage n k → Prop} (h : r.Taken data s)
    (hroom : data.length + more.length ≤ r.limit) (hfull : data ++ more <+: full)
    (hnext : ∀ t, r.Step s t → r.Gathered (data ++ more) t →
      (next ⟨⟩).Ends t done (fun _ u => r.Fails full s u) False) :
    (continueRun r.slot r.memory (r.start + data.length) >>= fun _ => pushBytes more >>= next).Ends s done
      (fun _ t => r.Fails full s t) False := by
  refine (continueRun_ends h).bind ?_ (fun _ _ h => h.elim) id
  intro _ t hended
  obtain ⟨hstill, ht⟩ := hended
  refine (pushBytes_ends more ht hroom).bind ?_ ?_ id
  · intro _ u hended
    obtain ⟨hstep, hu⟩ := hended
    exact hnext u (step_trans hstill.changes hstep) hu
  · exact fun _ u hu => (fails_trans hstill.changes hu).mono hfull

/-- A write that goes on. -/
theorem write_ends (more : Bytes) (h : r.Taken data s) (hroom : data.length + more.length ≤ r.limit) :
    (write r.slot (r.start + data.length) more .buffered).Ends s
      (fun _ t => r.Step s t ∧ r.Taken (data ++ more) t) (fun _ t => r.Fails (data ++ more) s t) False := by
  have hlimit := r.limit_le
  have hinside : r.start + data.length + more.length ≤ r.entry.size := by omega
  simp only [write]
  rw [ends_lookup_bind h.lookup]
  simp only [requireInside, if_pos hinside, Action.ends_pure_bind]
  exact gather_ends h hroom (List.prefix_refl _) fun t hstep ht => ⟨hstep, ht.toTaken⟩

/-- A write that ends it: all that has been taken in has gone to the device. -/
theorem write_force_ends (more : Bytes) (h : r.Taken data s)
    (hroom : data.length + more.length ≤ r.limit) :
    (write r.slot (r.start + data.length) more .force).Ends s
      (fun _ t => r.Step s t ∧ r.Out (padTo r.granule (data ++ more)) t ∧ t.buffer.bytes = [])
      (fun _ t => r.Fails (padTo r.granule (data ++ more)) s t) False := by
  have hlimit := r.limit_le
  have hinside : r.start + data.length + more.length ≤ r.entry.size := by omega
  simp only [write]
  rw [ends_lookup_bind h.lookup]
  simp only [requireInside, if_pos hinside, Action.ends_pure_bind]
  refine gather_ends h hroom (prefix_padTo _ _) fun t hstep ht => (forceOut_ends ht).imp ?_ ?_ id
  · intro _ u hended
    obtain ⟨hstep', hout, hbytes⟩ := hended
    exact ⟨step_trans hstep hstep', hout, hbytes⟩
  · exact fun _ u hu => fails_trans hstep hu

/-! ### Copying -/

/-- What is kept of the bytes that have gone is not lost when a slot is read. -/
def Kept (r : Track n k) : Prop :=
  ∀ {data s t}, r.Out data s → s.Still t → t.writesOn = s.writesOn → r.Out data t

section Source
variable {source : SlotId} {memory : Memory n k} {entry : Slot}

/-- Another slot is read while the track is being written. -/
theorem read_ends {offset length : Nat} (hkept : r.Kept) (h : r.Taken data s)
    (hl : s.lookup? source = .ok (memory, entry)) (hin : offset + length ≤ entry.size) :
    (read source offset length).Ends s
      (fun bytes t => s.Still t ∧ r.Taken data t ∧ bytes = Bytes.slice (s.held memory entry) offset length)
      (fun _ t => r.Fails data s t) (entry.size ≤ offset ∧ s.AtTop) := by
  refine ((Storage.read_ends h.inOrder hl hin).and_yields read_writes).imp ?_ ?_ id
  · intro bytes t hended
    obtain ⟨⟨hstill, hbuffer, hbytes⟩, hwrites⟩ := hended
    exact ⟨hstill, h.of_still hstill hbuffer (hkept h.out hstill hwrites), hbytes⟩
  · intro _ t hended
    obtain ⟨hfails, hf⟩ := hended
    refine ⟨Still.changes hfails.changes, hfails.dropped, fun _ => hf.faulted, s, data.take (r.whole data), [], ?_,
      h.out, ?_⟩
    · rw [List.append_nil]
      exact List.take_prefix _ _
    · exact Or.inl (Still.held_eq hfails.changes)

/-- The spans of the other slot are gathered one after another. -/
theorem copySpans_ends (hkept : r.Kept) (hfirst : r.start = 0) (hne : source ≠ r.slot) (spans : List Span)
    {start stop : Nat}
    (hspans : Consecutive start spans stop) (hpos : ∀ span ∈ spans, 0 < span.length) (hstop : stop ≤ entry.size)
    (hroom : stop ≤ r.limit) (hl : s.lookup? source = .ok (memory, entry))
    (h : r.Taken ((s.held memory entry).take start) s) :
    (copySpans source r.slot spans).Ends s
      (fun _ t => r.Step s t ∧ r.Taken ((s.held memory entry).take stop) t)
      (fun _ t => r.Fails ((s.held memory entry).take stop) s t) False := by
  have hlen := length_held h.inOrder.sound hl
  induction spans generalizing start s with
  | nil =>
    cases hspans
    exact ⟨Changes.refl _ s, h⟩
  | cons span rest ih =>
    obtain ⟨rfl, hrest⟩ := hspans
    have hle := hrest.le
    have htake : ((s.held memory entry).take span.start).length = span.start :=
      List.length_take_of_le (by omega)
    have hsooner : (s.held memory entry).take span.start <+: (s.held memory entry).take stop :=
      List.take_prefix_take_left (by omega)
    have hnext : (s.held memory entry).take (span.start + span.length) <+: (s.held memory entry).take stop :=
      List.take_prefix_take_left hle
    have hsome := hpos span List.mem_cons_self
    refine (read_ends hkept h hl (by omega)).bind ?_ (fun _ _ h => h.mono hsooner) fun htrap => by omega
    intro bytes t hended
    obtain ⟨hstill, ht, rfl⟩ := hended
    have hbytes : (Bytes.slice (s.held memory entry) span.start span.length).length = span.length := by
      rw [Bytes.length_slice]
      omega
    have hwrite := write_ends (Bytes.slice (s.held memory entry) span.start span.length) ht (by omega)
    rw [hfirst, Nat.zero_add, htake, Bytes.take_append_slice] at hwrite
    refine hwrite.bind ?_ ?_ id
    · intro _ u hended
      obtain ⟨hstep, hu⟩ := hended
      have hstep' : r.Step s u := step_trans hstill.changes hstep
      have hheld : u.held memory entry = s.held memory entry :=
        Changes.held_eq hstep' (h.inOrder.sound.apart _ _ _ _ _ _ hl h.lookup hne)
      rw [← hheld] at hu
      refine (ih hrest (fun span hspan => hpos span (List.mem_cons_of_mem _ hspan)) (hstep'.lookup? hl) hu
        (hheld ▸ hlen)).imp ?_ ?_ id
      · intro _ v hended
        obtain ⟨hstep'', hv⟩ := hended
        rw [hheld] at hv
        exact ⟨step_trans hstep' hstep'', hv⟩
      · rw [hheld]
        exact fun _ v hv => fails_trans hstep' hv
    · exact fun _ u hu => (fails_trans hstill.changes hu).mono hnext

/-- The front of another slot is copied to the track, byte for byte. -/
theorem copy_ends {length : Nat} (hkept : r.Kept) (hfirst : r.start = 0) (hne : source ≠ r.slot)
    (hl : s.lookup? source = .ok (memory, entry)) (hlength : length ≤ entry.size) (hroom : length ≤ r.limit)
    (h : r.Taken [] s) :
    (copy source r.slot length).Ends s
      (fun _ t => r.Step s t ∧ r.Out (padTo r.granule ((s.held memory entry).take length)) t ∧ t.buffer.bytes = [])
      (fun _ t => r.Fails (padTo r.granule ((s.held memory entry).take length)) s t) False := by
  have hlimit := r.limit_le
  have hlen := length_held h.inOrder.sound hl
  have hinside : 0 + length ≤ entry.size := by omega
  have hinside' : 0 + length ≤ r.entry.size := by omega
  simp only [copy]
  simp only [if_neg hne, ends_lookup_bind hl, ends_lookup_bind h.lookup, requireInside, if_pos hinside,
    if_pos hinside', Action.ends_pure_bind]
  refine (copySpans_ends hkept hfirst hne _ (spans_consecutive (by decide) length) (spans_pos (by decide) length)
    hlength hroom hl h).bind ?_ (fun _ _ h => h.mono (prefix_padTo _ _)) id
  intro _ t hended
  obtain ⟨hstep, ht⟩ := hended
  have htake : ((s.held memory entry).take length).length = length := List.length_take_of_le (by omega)
  have hforce := write_force_ends [] ht (by rw [htake, List.length_nil]; omega)
  rw [hfirst, Nat.zero_add, htake, List.append_nil] at hforce
  refine hforce.imp ?_ ?_ id
  · intro _ u hended
    obtain ⟨hstep', hout, hbytes⟩ := hended
    exact ⟨step_trans hstep hstep', hout, hbytes⟩
  · exact fun _ u hu => fails_trans hstep hu

end Source
end Track
end FirmwareUpdate.Storage
