import FirmwareUpdate.Proofs.Storage.Track
import FirmwareUpdate.Proofs.Update.Assembly

/-! Writing a slot in pieces. The pieces come out as the granules of their concatenation, one device
write for each, however they have been cut up and whatever is read in between. -/
namespace FirmwareUpdate.Storage
variable {n k : Nat} {s t u : Storage n k} {slot : SlotId} {memory : Memory n k} {entry : Slot}

/-- The writes that lay `data` down from a place on, a granule each. -/
def granuleWrites (place granule : Nat) (data : Bytes) : List WriteEntry :=
  (List.range (chunkCount granule data.length)).map fun i =>
    ⟨place + i * granule, Bytes.slice (padTo granule data) (i * granule) granule⟩

section Granules
variable {place granule : Nat} {data bytes : Bytes}

private theorem chunkCount_mul (hpos : 0 < granule) (count : Nat) : chunkCount granule (count * granule) = count := by
  refine Nat.div_eq_of_lt_le ?_ ?_
  · omega
  · rw [Nat.succ_mul]
    omega

/-- Padding fills the last of the granules that there are. -/
theorem length_padTo (hpos : 0 < granule) (data : Bytes) :
    (padTo granule data).length = chunkCount granule data.length * granule := by
  have hdiv := Nat.div_add_mod data.length granule
  have hmod := Nat.mod_lt data.length hpos
  rw [Nat.mul_comm] at hdiv
  simp only [padTo]
  split
  · have hcount : chunkCount granule data.length = data.length / granule :=
      Nat.div_eq_of_lt_le (by omega) (by rw [Nat.succ_mul]; omega)
    rw [hcount]
    omega
  · have hcount : chunkCount granule data.length = data.length / granule + 1 :=
      Nat.div_eq_of_lt_le (by rw [Nat.succ_mul]; omega) (by rw [Nat.succ_mul, Nat.succ_mul]; omega)
    rw [hcount, Nat.succ_mul, List.length_append, List.length_replicate]
    omega

/-- One more full granule is one more write. -/
theorem granuleWrites_append (hpos : 0 < granule) (hdata : data.length % granule = 0)
    (hbytes : bytes.length = granule) :
    granuleWrites place granule (data ++ bytes) =
      granuleWrites place granule data ++ [⟨place + data.length, bytes⟩] := by
  have hcount : data.length / granule * granule = data.length :=
    Nat.div_mul_cancel (Nat.dvd_of_mod_eq_zero hdata)
  generalize data.length / granule = count at hcount
  have hsum : (data ++ bytes).length = (count + 1) * granule := by
    rw [List.length_append, hbytes, Nat.succ_mul, hcount]
  have hlast : Bytes.slice (data ++ bytes) data.length granule = bytes := by
    rw [Bytes.slice, List.drop_left, ← hbytes, List.take_length]
  have hpadded : padTo granule (data ++ bytes) = data ++ bytes := if_pos (by rw [hsum]; exact Nat.mul_mod_left _ _)
  simp only [granuleWrites]
  rw [hpadded, show padTo granule data = data from if_pos hdata, hsum, ← hcount, chunkCount_mul hpos,
    chunkCount_mul hpos, List.range_succ, List.map_append, List.map_singleton, hcount, hlast]
  congr 1
  refine List.map_congr_left fun i hi => ?_
  have hle : (i + 1) * granule ≤ count * granule := Nat.mul_le_mul_right _ (List.mem_range.mp hi)
  rw [Nat.succ_mul, hcount] at hle
  rw [Bytes.slice_of_front (List.prefix_append data bytes) hle]

/-- The padding is in the last of the writes already. -/
theorem granuleWrites_padTo (hpos : 0 < granule) (data : Bytes) :
    granuleWrites place granule (padTo granule data) = granuleWrites place granule data := by
  have hlength := length_padTo hpos data
  have hagain : padTo granule (padTo granule data) = padTo granule data :=
    if_pos (by rw [hlength]; exact Nat.mul_mod_left _ _)
  simp only [granuleWrites]
  rw [hagain, hlength, chunkCount_mul hpos]

/-- Nothing is written of no bytes. -/
theorem granuleWrites_nil (hpos : 0 < granule) : granuleWrites place granule [] = [] := by
  have hnone : chunkCount granule 0 = 0 := Nat.div_eq_of_lt (by omega)
  simp only [granuleWrites]
  rw [List.length_nil, hnone]
  rfl

end Granules

/-- The track of a slot that goes by the writes its device has carried out since `s`. -/
def recordTrack (s : Storage n k) (slot : SlotId) (memory : Memory n k) (entry : Slot) (start limit : Nat)
    (hpos : 0 < s.devices.granule memory.device) (hstart : start % s.devices.granule memory.device = 0)
    (hlimit : start + limit ≤ entry.size) : Track n k where
  slot := slot
  memory := memory
  entry := entry
  granule := s.devices.granule memory.device
  start := start
  limit := limit
  Out data t := t.writesOn memory.device =
      (granuleWrites (placeOf entry start) (s.devices.granule memory.device) data).reverse ++ s.writesOn memory.device ∧
    ∀ device, device ≠ memory.device → t.writesOn device = s.writesOn device
  granule_pos := hpos
  start_mod := hstart
  limit_le := hlimit
  out_append := by
    rintro data bytes t u ⟨hown, hothers⟩ hdata hbytes - - hrecorded
    refine ⟨?_, fun device hne => (hrecorded.others device hne).trans (hothers device hne)⟩
    rw [hrecorded.own, hown, granuleWrites_append hpos hdata hbytes, placeOf_add, List.reverse_append]
    rfl
  out_buffer := fun _ hout => hout

section Record
variable {start limit : Nat} {hpos : 0 < s.devices.granule memory.device}
  {hstart : start % s.devices.granule memory.device = 0} {hlimit : start + limit ≤ entry.size}

/-- No write is added to the record by reading. -/
theorem kept_recordTrack : (recordTrack s slot memory entry start limit hpos hstart hlimit).Kept :=
  fun hout _ hsame => ⟨hsame ▸ hout.1, hsame ▸ hout.2⟩

/-- The record is empty to begin with. -/
theorem recordTrack_taken (hs : s.InOrder) (hl : s.lookup? slot = .ok (memory, entry)) (hpending : s.pending = 0) :
    (recordTrack s slot memory entry start limit hpos hstart hlimit).Taken [] s := by
  refine Track.taken_nil hs hl rfl hpending ⟨?_, fun _ _ => rfl⟩
  rw [granuleWrites_nil hpos]
  rfl

end Record

/-- What writing these pieces, one after another, and reading in between can come to. -/
inductive Fed (slot : SlotId) (start : Nat) (s : Storage n k) : List Bytes → Storage n k → Prop
  | begin : Fed slot start s [] s
  | read {pieces : List Bytes} {t u : Storage n k} {source : SlotId} {offset length : Nat} {bytes : Bytes} :
      Fed slot start s pieces t → read source offset length t = .ok bytes u → Fed slot start s pieces u
  | piece {pieces : List Bytes} {t u : Storage n k} {piece : Bytes} :
      Fed slot start s pieces t → write slot (start + pieces.flatten.length) piece .buffered t = .ok ⟨⟩ u →
      Fed slot start s (pieces ++ [piece]) u

/-- Pieces that are fed to a track one after another are taken in as a whole. -/
theorem Fed.taken {r : Track n k} {pieces : List Bytes} (h : Fed r.slot r.start s pieces t) (hs : r.Taken [] s)
    (hroom : pieces.flatten.length ≤ r.limit) (hkept : r.Kept) : r.Step s t ∧ r.Taken pieces.flatten t := by
  induction h with
  | begin => exact ⟨Changes.refl _ s, hs⟩
  | @read pieces t u source offset length bytes hfed hread ih =>
    obtain ⟨hstep, ht⟩ := ih hroom
    obtain ⟨hstill, hbuffer⟩ := (read_still ht.inOrder).done_of_ok hread
    refine ⟨Track.step_trans hstep hstill.changes, ?_⟩
    exact ht.of_still hstill hbuffer (hkept ht.out hstill (read_writes.done_of_ok hread))
  | @piece pieces t u piece hfed hwrite ih =>
    rw [List.flatten_append, List.flatten_singleton] at hroom ⊢
    rw [List.length_append] at hroom
    obtain ⟨hstep, ht⟩ := ih (by omega)
    obtain ⟨hstep', hu⟩ := (Track.write_ends piece ht hroom).done_of_ok hwrite
    exact ⟨Track.step_trans hstep hstep', hu⟩

/-- The bytes have gone to the slot in whole granules, and no other write has been made. -/
structure Coalesced (s : Storage n k) (memory : Memory n k) (entry : Slot) (start : Nat) (data : Bytes)
    (u : Storage n k) : Prop where
  pending : u.pending = 0
  writes : u.writesOn memory.device =
    (granuleWrites (placeOf entry start) (s.devices.granule memory.device) data).reverse ++ s.writesOn memory.device
  others : ∀ device, device ≠ memory.device → u.writesOn device = s.writesOn device
  changes : Changes (s.within memory entry) s u

/-- Writing in pieces comes to the same as one padded write: each piece is taken, what is pending is the part
of a granule, and once the last one is forced out, the device has been given the granules in order. -/
theorem pieces_coalesce {start : Nat} {pieces : List Bytes} {last : Bytes} (hs : s.InOrder)
    (hl : s.lookup? slot = .ok (memory, entry)) (hgranular : s.Granular memory entry) (hpending : s.pending = 0)
    (hstart : start % s.devices.granule memory.device = 0) (hfed : Fed slot start s pieces t)
    (hroom : start + (pieces ++ [last]).flatten.length ≤ entry.size) :
    (write slot (start + pieces.flatten.length) last .buffered).Ends t
        (fun _ u => u.pending = (pieces ++ [last]).flatten.length % s.devices.granule memory.device)
        (fun _ u => t.Faulted u) False ∧
      (write slot (start + pieces.flatten.length) last .force).Ends t
        (fun _ u => Coalesced s memory entry start (pieces ++ [last]).flatten u)
        (fun _ u => t.Faulted u) False := by
  have hpos := hs.sound.granule_pos _ _ _ hl
  have hbegin : (recordTrack s slot memory entry start _ hpos hstart hroom).Taken [] s :=
    recordTrack_taken hs hl hpending
  have hflat : (pieces ++ [last]).flatten = pieces.flatten ++ last := by
    rw [List.flatten_append, List.flatten_singleton]
  have hlength : pieces.flatten.length + last.length = (pieces ++ [last]).flatten.length := by
    rw [hflat, List.length_append]
  obtain ⟨hstep, ht⟩ := Fed.taken hfed hbegin (Nat.le.intro hlength) kept_recordTrack
  have hfault : ∀ full u, (recordTrack s slot memory entry start _ hpos hstart hroom).Fails full t u → t.Faulted u :=
    fun _ u hfails => hfails.faulted (hstep.setup.granular.mpr hgranular)
  rw [hflat]
  constructor
  · refine (Track.write_ends last ht (Nat.le_of_eq hlength)).imp ?_ (fun _ u hfails => hfault _ u hfails) id
    exact fun _ u hended => hended.2.pending
  · refine (Track.write_force_ends last ht (Nat.le_of_eq hlength)).imp ?_ (fun _ u hfails => hfault _ u hfails) id
    intro _ u hended
    obtain ⟨hstep', ⟨hwrites, hothers⟩, hbytes⟩ := hended
    refine ⟨congrArg List.length hbytes, ?_, hothers, Track.step_trans hstep hstep'⟩
    rw [← granuleWrites_padTo hpos]
    exact hwrites

/-- Ten bytes in two pieces, with a read in between, come out as two granules. -/
theorem sample_pieces_coalesce : ∃ s t u : Storage 1 0, Fed ⟨0, 1⟩ 8 s [[1, 2, 3]] t ∧
    write ⟨0, 1⟩ 11 [4, 5, 6, 7, 8, 9, 10] .force t = .ok ⟨⟩ u ∧
    Coalesced s Sample.memory (Sample.slot 128 .anUpdate) 8 [1, 2, 3, 4, 5, 6, 7, 8, 9, 10] u := by
  have hcheck : ((Engine.bringUp (Sample.plan 64) (.flash 0) none {}).passes (Sample.board [] [] []) fun e _ =>
      (write ⟨0, 1⟩ 8 [1, 2, 3] .buffered).passes e.storage fun _ s₁ =>
        (read ⟨0, 0⟩ 0 4).passes s₁ fun _ t =>
          (write ⟨0, 1⟩ 11 [4, 5, 6, 7, 8, 9, 10] .force).passes t fun _ _ =>
            decide (Sample.Holds e.storage)) = true := by
    decide +kernel
  obtain ⟨e, after, hup, hcheck⟩ := Action.exists_of_passes hcheck
  obtain ⟨_, s₁, hfirst, hcheck⟩ := Action.exists_of_passes hcheck
  obtain ⟨bytes, t, hread, hcheck⟩ := Action.exists_of_passes hcheck
  obtain ⟨_, u, hlast, hcheck⟩ := Action.exists_of_passes hcheck
  have hholds : Sample.Holds e.storage := of_decide_eq_true hcheck
  obtain ⟨he, hempty, -⟩ := (Engine.bringUp_ends (by simp)).done_of_ok hup
  have hfed : Fed ⟨0, 1⟩ 8 e.storage [[1, 2, 3]] t := .read (.piece .begin hfirst) hread
  refine ⟨e.storage, t, u, hfed, hlast, ?_⟩
  have hgranule : 8 % e.storage.devices.granule Sample.memory.device = 0 := by
    rw [show e.storage.devices.granule Sample.memory.device = 8 from hholds.granule]
  exact (pieces_coalesce he.inOrder hholds.lookup?.2.1 (hholds.granular rfl) (congrArg List.length hempty)
    hgranule hfed (by decide)).2.done_of_ok hlast

end FirmwareUpdate.Storage
