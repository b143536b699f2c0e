import FirmwareUpdate.Proofs.Storage.Coalescing
import FirmwareUpdate.Proofs.Storage.Isolation
import FirmwareUpdate.Proofs.Storage.Writing

/-! Copying the front of a slot to another one. The bytes are read in chunks and written in granules, and
the last granule is forced out: however chunk, granule and length go together, the copy is exact. -/
namespace FirmwareUpdate.Storage
variable {n k : Nat} {s t : Storage n k} {source target : SlotId} {memory memory' : Memory n k} {entry entry' : Slot}
  {length : Nat}

section Granules
variable {granule place : Nat} {data : Bytes}

private theorem getElem?_padTo (hpos : 0 < granule) (data : Bytes) (i : Nat) :
    (padTo granule data)[i]? = if i < data.length then data[i]?
      else if i < chunkCount granule data.length * granule then some 0 else none := by
  have hlength := length_padTo hpos data
  simp only [padTo] at hlength ⊢
  split at hlength
  · rename_i hwhole
    rw [if_pos hwhole]
    split
    · rfl
    · rw [List.getElem?_eq_none (by omega), if_neg (by omega)]
  · rename_i hpartial
    rw [if_neg hpartial, List.getElem?_append, List.getElem?_replicate]
    rw [List.length_append, List.length_replicate] at hlength
    split
    · rfl
    · congr 1
      exact propext (by omega)

/-- The front of some bytes, padded and laid over others, is followed by zeros up to the end of its last granule. -/
theorem getElem?_splice_front (hpos : 0 < granule) {length : Nat} (hle : length ≤ data.length) (old : Bytes) (i : Nat) :
    (Bytes.splice old 0 (padTo granule (data.take length)))[i]? = if i < length then data[i]?
      else if i < chunkCount granule length * granule then some 0 else old[i]? := by
  have hcovered := le_chunkCount hpos length
  have htake : (data.take length).length = length := List.length_take_of_le hle
  rw [Bytes.getElem?_splice (Nat.zero_le _), if_neg (Nat.not_lt_zero i), Nat.zero_add, Nat.sub_zero, length_padTo hpos,
    getElem?_padTo hpos, htake]
  split
  · rename_i hinside
    split
    · rename_i hfront
      rw [List.getElem?_take, if_pos hfront]
    · rfl
  · rw [if_neg (c := i < length) (by omega)]

/-- There is a write for each granule, the last of which may be filled up. -/
theorem length_granuleWrites : (granuleWrites place granule data).length = chunkCount granule data.length := by
  rw [granuleWrites, List.length_map, List.length_range]

/-- Each of the writes is of a whole granule. -/
theorem length_of_mem_granuleWrites (hpos : 0 < granule) {write : WriteEntry}
    (h : write ∈ granuleWrites place granule data) : write.bytes.length = granule := by
  obtain ⟨i, hi, rfl⟩ := List.mem_map.mp h
  have hle : (i + 1) * granule ≤ chunkCount granule data.length * granule :=
    Nat.mul_le_mul_right _ (List.mem_range.mp hi)
  rw [Nat.succ_mul] at hle
  rw [Bytes.length_slice, length_padTo hpos]
  omega

end Granules

/-- The front of a slot has been copied. The target holds its bytes, and zeros up to the end of the granule that
the last of them is in. It has been written granule by granule, and nothing else has been written. -/
structure Copied (memory : Memory n k) (entry : Slot) (memory' : Memory n k) (entry' : Slot) (granule length : Nat)
    (s t : Storage n k) : Prop where
  front : ∀ i, i < length → (t.held memory' entry')[i]? = (s.held memory entry)[i]?
  padding : ∀ i, length ≤ i → i < chunkCount granule length * granule → (t.held memory' entry')[i]? = some 0
  rest : ∀ i, chunkCount granule length * granule ≤ i → (t.held memory' entry')[i]? = (s.held memory' entry')[i]?
  record : ∃ writes, t.writesOn memory'.device = writes ++ s.writesOn memory'.device ∧
    writes.length = chunkCount granule length ∧ ∀ write ∈ writes, write.bytes.length = granule
  others : ∀ device, device ≠ memory'.device → t.writesOn device = s.writesOn device
  source : t.held memory entry = s.held memory entry
  changes : Changes (s.within memory' entry') s t
  pending : t.pending = 0

/-- The front of a slot is copied to another one that has been erased as far, exactly, unless a device fails. -/
theorem copy_exact (hs : s.InOrder) (hl : s.lookup? source = .ok (memory, entry))
    (hl' : s.lookup? target = .ok (memory', entry')) (hne : source ≠ target) (hgranular : s.Granular memory' entry')
    (hlength : length ≤ entry.size) (hlength' : length ≤ entry'.size) (hpending : s.pending = 0)
    (herased : ∀ i, i < length → (s.held memory' entry')[i]? = some 0xFF) :
    (copy source target length).Ends s
      (fun _ t => Copied memory entry memory' entry' (s.devices.granule memory'.device) length s t)
      (fun _ t => s.Faulted t) False := by
  have hpos := hs.sound.granule_pos _ _ _ hl'
  let run : Run n k := ⟨target, memory', entry', s.devices.granule memory'.device, s.held memory' entry', length,
    hpos, hlength', herased⟩
  let record : Track n k := recordTrack s target memory' entry' 0 length hpos (Nat.zero_mod _)
    ((Nat.zero_add length).symm ▸ hlength')
  have hrun : run.Taken [] s := Track.taken_nil hs hl' rfl hpending (Run.laid_nil rfl)
  have hrecord : record.Taken [] s := recordTrack_taken hs hl' hpending
  have hheld := Run.copy_ends (r := run) hne hl hlength (Nat.le_refl _) hrun
  have hwrites := Track.copy_ends (r := record) kept_recordTrack rfl hne hl hlength (Nat.le_refl _) hrecord
  refine (hheld.and hwrites).imp ?_ (fun _ t hfails => hfails.2.faulted hgranular) And.left
  rintro _ t ⟨⟨hchanges, hheld, hbuffer⟩, -, ⟨hown, hothers⟩, -⟩
  have hsource : length ≤ (s.held memory entry).length := by rwa [length_held hs.sound hl]
  have hat := getElem?_splice_front hpos hsource (s.held memory' entry')
  rw [← hheld] at hat
  refine ⟨fun i hi => ?_, fun i hlow hhigh => ?_, fun i hi => ?_, ⟨_, hown, ?_, ?_⟩, hothers, ?_, hchanges,
    congrArg List.length hbuffer⟩
  · rw [hat, if_pos hi]
  · rw [hat, if_neg (Nat.not_lt.mpr hlow), if_pos hhigh]
  · have hcovered := le_chunkCount hpos length
    rw [hat, if_neg (by omega), if_neg (Nat.not_lt.mpr hi)]
  · rw [List.length_reverse]
    refine (congrArg List.length (granuleWrites_padTo hpos _)).trans ?_
    rw [length_granuleWrites, List.length_take_of_le hsource]
  · intro write hwrite
    exact length_of_mem_granuleWrites hpos (List.mem_reverse.mp hwrite)
  · exact Changes.held_eq hchanges (hs.sound.apart _ _ _ _ _ _ hl hl' hne)

/-- Nine bytes are copied out of a file of five to flash, in two granules of eight. -/
theorem sample_copy_exact :
    let flash : FlashLink := { device := { Flash.blank Sample.geometry with initialized := true } }
    let store : FileLink := { device := { granule := 8, files := [("update", [1, 2, 3, 4, 5])], mounted := true } }
    let s : Storage 1 1 :=
      { devices := ⟨#v[flash], #v[store]⟩, memories := [Sample.firstMemory, Sample.secondMemory] }
    ∃ t, copy ⟨1, 0⟩ ⟨0, 0⟩ 9 s = .ok ⟨⟩ t ∧
      Copied Sample.secondMemory Sample.updateFile Sample.firstMemory (Sample.slot 0 .theApplication) 8 9 s t ∧
      (t.flash 0).contents.take 17 = [1, 2, 3, 4, 5, 255, 255, 255, 255, 0, 0, 0, 0, 0, 0, 0, 255] := by
  intro flash store s
  have halike : (Sample.secureBoard []).devices.Alike s.devices := by
    constructor
    · intro device
      rw [Subsingleton.elim device 0]
      rfl
    · rintro (device | device)
      · rw [Subsingleton.elim device 0]
        rfl
      · rw [Subsingleton.elim device 0]
        rfl
  have hsound : s.Sound := by
    refine sound_of_checked (fun memory hmem => ?_) (by decide)
    obtain ⟨index, plan, device, policy, hregister⟩ := registered_secure memory hmem
    exact checked_of_register ((Memory.register_alike halike plan).trans hregister)
  have hs : s.InOrder := ⟨hsound, fun file hfile => by cases hfile⟩
  have hgranular : s.Granular Sample.firstMemory (Sample.slot 0 .theApplication) := by
    refine ⟨by decide, fun d address _ ha => ?_⟩
    cases ha
    rw [Nat.zero_sub]
    exact Nat.zero_mod _
  have hpasses : ((copy ⟨1, 0⟩ ⟨0, 0⟩ 9).passes s fun _ t => decide ((t.flash 0).contents.take 17 =
      [1, 2, 3, 4, 5, 255, 255, 255, 255, 0, 0, 0, 0, 0, 0, 0, 255])) = true := by
    decide +kernel
  obtain ⟨_, t, hcopy, hcheck⟩ := Action.exists_of_passes hpasses
  have hsource : s.lookup? ⟨1, 0⟩ = .ok (Sample.secondMemory, Sample.updateFile) := rfl
  have htarget : s.lookup? ⟨0, 0⟩ = .ok (Sample.firstMemory, Sample.slot 0 .theApplication) := rfl
  have hlength : 9 ≤ Sample.updateFile.size := by decide
  have hended := copy_exact hs hsource htarget (by decide) hgranular hlength (by decide) rfl (by decide)
  exact ⟨t, hcopy, hended.done_of_ok hcopy, of_decide_eq_true hcheck⟩

end FirmwareUpdate.Storage
