import FirmwareUpdate.Proofs.Storage.Coalescing
import FirmwareUpdate.Proofs.Storage.Isolation

/-! Which memories can be written to. Writes go out in granules of the device, so a slot must start on one and be made
of whole ones. That is checked of files when they are registered; of flash only the sectors are. -/
namespace FirmwareUpdate

namespace Flash
variable {f : Flash} {start : Nat} {data : Bytes}

/-- A device that is on refuses what is not aligned, whatever it would do with what is. -/
theorem write_of_unaligned (hon : f.initialized = true) (htakes : f.Takes start data) (h : ¬f.Aligned start data) :
    (write start data).Ends f (fun _ _ => False) (fun e g => g = f ∧ e = .unaligned) False := by
  have hpos := htakes.granule_pos
  have hmis : (start - f.geometry.base) % f.geometry.granule ≠ 0 ∨ data.length % f.geometry.granule ≠ 0 :=
    Decidable.not_and_iff_or_not.mp h
  simp only [write, requireInitialized, requireInside]
  simp only [bind_assoc, Action.ends_get_bind, hon, htakes.inside, if_true, Action.ends_pure_bind]
  rw [if_neg htakes.nonempty, if_neg (by omega), if_pos hmis]
  exact ⟨rfl, rfl⟩

end Flash

namespace FlashLink
variable {l : FlashLink} {start : Nat} {data : Bytes}

private theorem write_of_unaligned (hquiet : ∀ i, l.schedule .write i = none) (hon : l.device.initialized = true)
    (htakes : l.device.Takes start data) (h : ¬l.device.Aligned start data) :
    (write start data).Ends l (fun _ _ => False)
      (fun e m => e = .unaligned ∧ m.schedule = l.schedule ∧ m.faults = l.faults) False := by
  have hdue : l.due .write = none := hquiet _
  simp only [write, Link.call]
  simp only [Action.ends_get_bind, Action.ends_set_bind, hdue]
  refine Link.accounted_ends (fun e m => e = .unaligned ∧ m.schedule = l.schedule ∧ m.faults = l.faults)
    (Link.direct_ends.mpr ((Flash.write_of_unaligned hon htakes h).imp (fun _ _ h => h) (fun e _ h => ?_) id))
    fun e m hm => ?_
  · exact ⟨h.2, rfl, rfl⟩
  · obtain ⟨rfl, hschedule, hfaults⟩ := hm
    exact ⟨rfl, hschedule, hfaults⟩

end FlashLink

namespace Storage
variable {n k : Nat} {s t : Storage n k} {slot : SlotId} {memory : Memory n k} {entry : Slot} {d : Fin n}
  {address offset : Nat} {byte : UInt8}

/-- No call is made on a device, or the calls find nothing wrong but with the request. -/
def Blameless (s t : Storage n k) : Prop := ∀ device, t.faultsOn device = s.faultsOn device

private theorem Blameless.not_faulted (h : s.Blameless t) : ¬s.Faulted t := by
  rintro ⟨device, hlt⟩
  exact absurd (h device) (Nat.ne_of_gt hlt)

private theorem Blameless.withFlash {link : FlashLink} (h : s.Blameless t) (hf : link.faults = (t.flashLink d).faults) :
    s.Blameless (t.withFlash d link) := by
  intro device
  refine Eq.trans ?_ (h device)
  cases device with
  | flash d' =>
    simp only [faultsOn, flashLink_withFlash]
    split
    · rename_i hsame
      rw [hsame, hf]
    · rfl
  | files d' => rfl

/-! ### Granules that are not accepted -/

/-- A granule that does not fit into what is left of the slot is dropped. -/
theorem writeOut_of_short (hl : s.lookup? s.buffer.target = .ok (memory, entry))
    (h : entry.size < s.buffer.offset + s.buffer.granule) :
    writeOut.Ends s (fun _ _ => False) (fun e t => e = .invalidLength ∧ s.Blameless t) False := by
  simp only [writeOut]
  rw [Action.ends_get_bind, ends_lookup_bind hl]
  simp only [if_pos h, dropPending, Action.ends_modify_bind, Action.ends_fail]
  exact ⟨trivial, fun _ => rfl⟩

/-- A granule of the slot that is not one of the device is refused. -/
theorem writeOut_of_unaligned (hl : s.lookup? s.buffer.target = .ok (memory, entry)) (hd : memory.device = .flash d)
    (ha : entry.location = .flash address) (hquiet : (s.flashLink d).schedule = .quiet)
    (hon : (s.flash d).initialized = true) (htakes : (s.flash d).Takes (address + s.buffer.offset) s.buffer.bytes)
    (hfull : s.buffer.offset + s.buffer.granule ≤ entry.size)
    (h : ¬(s.flash d).Aligned (address + s.buffer.offset) s.buffer.bytes) :
    writeOut.Ends s (fun _ _ => False) (fun e t => e = .driverFailure ∧ s.Blameless t) False := by
  have hinside := Geometry.contains_iff.mp htakes.inside
  have hstop := (s.flash d).geometry.stop_le
  have hlength := List.length_pos_iff.mpr htakes.nonempty
  have hcall : (onFlash d (do FlashLink.write (address + s.buffer.offset) s.buffer.bytes; FlashLink.awaitReady)).Ends s
      (fun _ _ => False) (fun e t => e = .unaligned ∧ t.memories = s.memories ∧ s.Blameless t ∧
        (t.flashLink d).schedule = .quiet) False := by
    refine onFlash_ends.mpr ((FlashLink.write_of_unaligned (fun _ => by rw [hquiet]; rfl) hon htakes h).bind
      (fun _ _ h => h.elim) (fun e link hended => ?_) id)
    obtain ⟨rfl, hschedule, hfaults⟩ := hended
    refine ⟨rfl, rfl, Blameless.withFlash (fun _ => rfl) hfaults, ?_⟩
    rw [flashLink_withFlash, if_pos rfl, hschedule, hquiet]
  have hsettle : ∀ t : Storage n k, t.memories = s.memories → s.Blameless t → (t.flashLink d).schedule = .quiet →
      (settle s.buffer.target.memory : Op n k Unit).Ends t (fun _ u => s.Blameless u) (fun _ _ => False) False := by
    intro t hmemories hblameless hquiet'
    have hm : t.memories[s.buffer.target.memory]? = some memory := hmemories ▸ (getElem?_of_lookup? hl).1
    simp only [settle, dropPending]
    simp only [Action.ends_modify_bind, Action.ends_get_bind, hm, hd]
    have hdropped : s.Blameless { t with buffer := t.buffer.dropPending } := hblameless
    have hrelease : (onFlash d FlashLink.release).Ends { t with buffer := t.buffer.dropPending }
        (fun _ u => s.Blameless u) (fun _ _ => False) False := by
      refine onFlash_ends.mpr (FlashLink.release_ends.imp (fun _ link hended => ?_) (fun _ link hended => ?_) id)
      · exact hdropped.withFlash hended.2.1
      · obtain ⟨-, -, -, hdue⟩ := hended
        exact hdue (congrFun (congrFun hquiet' _) _)
    exact hrelease.attempt_bind (fun _ _ h => h) (fun _ _ h => h.elim) id
  simp only [writeOut]
  rw [Action.ends_get_bind, ends_lookup_bind hl]
  simp only [if_neg (Nat.not_lt.mpr hfull), hd, ha]
  refine Action.word_bind (fun hword => by omega) ?_
  have hguarded : (guarding s.buffer.target.memory (onFlash d (do
      FlashLink.write (address + s.buffer.offset) s.buffer.bytes
      FlashLink.awaitReady))).Ends s (fun _ _ => False) (fun e t => e = .driverFailure ∧ s.Blameless t) False := by
    refine hcall.attempt_bind (fun _ _ h => h.elim) (fun e t hended => ?_) id
    obtain ⟨rfl, hmemories, hblameless, hquiet'⟩ := hended
    exact (hsettle t hmemories hblameless hquiet').bind (fun _ u hu => ⟨rfl, hu⟩) (fun _ _ h => h.elim) id
  exact hguarded.bind (fun _ _ h => h.elim) (fun _ _ h => h) id

/-- One byte that is forced out goes out in a granule of its own. -/
theorem write_byte_ends {done : Unit → Storage n k → Prop} {failed : Error → Storage n k → Prop} {trapped : Prop}
    (hl : s.lookup? slot = .ok (memory, entry)) (hpending : s.pending = 0)
    (hpartial : 1 < s.devices.granule memory.device) (hstart : offset % s.devices.granule memory.device = 0)
    (hin : offset + 1 ≤ entry.size)
    (h : writeOut.Ends { s with buffer := ⟨slot, offset, s.devices.granule memory.device,
      byte :: List.replicate (s.devices.granule memory.device - 1) 0⟩ } done failed trapped) :
    (write slot offset [byte] .force).Ends s done failed trapped := by
  have hidle : s.buffer.isWaiting = false := by simpa [GranuleBuffer.isWaiting, pending] using hpending
  simp only [write]
  rw [ends_lookup_bind hl]
  simp only [requireInside, List.length_singleton, if_pos hin, Action.ends_pure_bind]
  have hcontinue : (continueRun slot memory offset).Ends s
      (fun _ t => t = { s with buffer := .start slot offset (s.devices.granule memory.device) })
      (fun _ _ => False) False := by
    simp only [continueRun]
    rw [Action.ends_get_bind]
    simp only [hidle, Bool.false_eq_true, if_false, hstart, if_true]
    rfl
  refine hcontinue.bind ?_ (fun _ _ h => h.elim) False.elim
  rintro _ _ rfl
  simp only [pushBytes, pushByte, bind_assoc, Action.ends_modify_bind, Action.ends_get_bind]
  have hnot : (GranuleBuffer.push (.start slot offset (s.devices.granule memory.device)) byte).isComplete = false := by
    simp only [GranuleBuffer.isComplete, GranuleBuffer.push, GranuleBuffer.start, List.nil_append,
      List.length_singleton]
    exact decide_eq_false (Nat.ne_of_lt hpartial)
  simp only [hnot, Bool.false_eq_true, if_false, Action.ends_pure_bind, forceOut, Action.ends_get_bind]
  exact h

/-! ### Memories -/

/-- Bytes can be written to any slot of the memory in any pieces, from a granule on and as far as the slot goes, and the
last granule can be forced out: nothing stands in the way but the fault of a device. -/
def Writable (devices : Devices n k) (memory : Memory n k) : Prop :=
  ∀ (s t : Storage n k) (slot : SlotId) (entry : Slot) (start : Nat) (pieces : List Bytes) (last : Bytes)
    (mode : WriteMode), devices.Alike s.devices → s.InOrder → s.lookup? slot = .ok (memory, entry) → s.pending = 0 →
    start % devices.granule memory.device = 0 → Fed slot start s pieces t →
    start + (pieces ++ [last]).flatten.length ≤ entry.size →
    (write slot (start + pieces.flatten.length) last mode).Ends t (fun _ u => mode = .force → u.pending = 0)
      (fun _ u => t.Faulted u) False

/-- The slots of a flash memory start and end on granules of the device. -/
def WholeGranules (devices : Devices n k) (memory : Memory n k) : Prop :=
  ∀ entry ∈ memory.slots, ∀ d address, memory.device = .flash d → entry.location = .flash address →
    (address - (devices.geometry d).base) % (devices.geometry d).granule = 0 ∧
      entry.size % (devices.geometry d).granule = 0

section Registered
variable {devices : Devices n k} {plan : MemoryPlan} {device : DeviceId n k} {policy : Policy} {index : Nat}

/-- Files are checked for whole granules. -/
theorem granular_of_whole (halike : devices.Alike s.devices) (hs : s.Sound)
    (hl : s.lookup? slot = .ok (memory, entry)) (hwhole : WholeGranules devices memory) : s.Granular memory entry := by
  have hmem : entry ∈ memory.slots := List.mem_of_getElem? (getElem?_of_lookup? hl).2
  have hfits := hs.fits slot memory entry hl
  rcases hs.location hl with ⟨d, address, hd, ha⟩ | ⟨f, path, hd, hp⟩
  · obtain ⟨hstart, hsize⟩ := hwhole entry hmem d address hd ha
    rw [← halike.geometry d] at hstart hsize
    refine ⟨hd ▸ hsize, fun d' address' hd' ha' => ?_⟩
    cases hd.symm.trans hd'
    cases ha.symm.trans ha'
    exact hstart
  · simp only [Memory.checkSlot, hd, hp] at hfits
    split at hfits
    · rename_i hsize
      refine ⟨hd ▸ hsize.2, fun d' address' hd' _ => ?_⟩
      cases hd.symm.trans hd'
    · cases hfits

/-- A track of which nothing is kept but how far it has come. -/
def openTrack (s : Storage n k) (slot : SlotId) (memory : Memory n k) (entry : Slot) (start limit : Nat)
    (hpos : 0 < s.devices.granule memory.device) (hstart : start % s.devices.granule memory.device = 0)
    (hlimit : start + limit ≤ entry.size) : Track n k where
  slot := slot
  memory := memory
  entry := entry
  granule := s.devices.granule memory.device
  start := start
  limit := limit
  Out _ _ := True
  granule_pos := hpos
  start_mod := hstart
  limit_le := hlimit
  out_append _ _ _ _ _ _ := trivial
  out_buffer _ _ := trivial

/-- A memory of whole granules can be written anywhere. -/
theorem writable_of_whole (hwhole : WholeGranules devices memory) : Writable devices memory := by
  intro s t slot entry start pieces last mode halike hs hl hpending hstart hfed hroom
  have hgranule : s.devices.granule memory.device = devices.granule memory.device := halike.granule _
  rw [← hgranule] at hstart
  have hpos := hs.sound.granule_pos _ _ _ hl
  have hbegin : (openTrack s slot memory entry start _ hpos hstart hroom).Taken [] s :=
    Track.taken_nil hs hl rfl hpending trivial
  have hlength : pieces.flatten.length + last.length = (pieces ++ [last]).flatten.length := by
    rw [List.flatten_append, List.flatten_singleton, List.length_append]
  obtain ⟨hstep, ht⟩ := Fed.taken hfed hbegin (Nat.le.intro hlength) fun _ _ _ => trivial
  have hfault : ∀ full u, (openTrack s slot memory entry start _ hpos hstart hroom).Fails full t u → t.Faulted u :=
    fun _ u hfails => hfails.faulted (hstep.setup.granular.mpr (granular_of_whole halike hs.sound hl hwhole))
  cases mode with
  | buffered => exact (Track.write_ends last ht (Nat.le_of_eq hlength)).imp (fun _ _ _ => nofun) (fun _ => hfault _) id
  | force =>
    refine (Track.write_force_ends last ht (Nat.le_of_eq hlength)).imp (fun _ u hended _ => ?_) (fun _ => hfault _) id
    exact congrArg List.length hended.2.2

-- A storage of one memory, whose flash device is on and is failed nothing.
private def aloneOn (devices : Devices n k) (memory : Memory n k) (d : Fin n) : Storage n k :=
  ({ devices, memories := [memory] } : Storage n k).withFlash d
    { device := { (devices.flashes.get d).device with initialized := true } }

private theorem aloneOn_alike (devices : Devices n k) (memory : Memory n k) (d : Fin n) :
    devices.Alike (aloneOn devices memory d).devices := by
  have hgeometry : ∀ d', (aloneOn devices memory d).devices.geometry d' = devices.geometry d' := by
    intro d'
    show ((aloneOn devices memory d).flashLink d').device.geometry = _
    rw [aloneOn, flashLink_withFlash]
    split
    · rename_i hsame
      rw [hsame]
      rfl
    · rfl
  refine ⟨hgeometry, fun device => ?_⟩
  cases device with
  | flash d' => exact congrArg Geometry.granule (hgeometry d')
  | files f => rfl

private theorem aloneOn_inOrder (h : Memory.register devices index plan device policy = .ok memory) (d : Fin n) :
    (aloneOn devices memory d).InOrder := by
  have halike := aloneOn_alike devices memory d
  refine ⟨sound_of_checked (fun memory' hmem => ?_) (List.pairwise_singleton _ _), nofun⟩
  obtain rfl := List.mem_singleton.mp hmem
  exact checked_of_register ((Memory.register_alike halike plan).trans h)

private theorem aloneOn_refuses (byte : UInt8) (h : Memory.register devices index plan device policy = .ok memory)
    {i : Nat} (hi : memory.slots[i]? = some entry) (hd : memory.device = .flash d)
    (ha : entry.location = .flash address)
    (hpartial : 1 < (devices.geometry d).granule) (hoffset : offset % (devices.geometry d).granule = 0)
    (hin : offset + 1 ≤ entry.size) (hbad : entry.size < offset + (devices.geometry d).granule ∨
      (address + offset - (devices.geometry d).base) % (devices.geometry d).granule ≠ 0) :
    (write ⟨0, i⟩ offset [byte] .force).Ends (aloneOn devices memory d) (fun _ _ => False)
      (fun _ t => (aloneOn devices memory d).Blameless t) False := by
  have hs := aloneOn_inOrder h d
  have hgeometry := (aloneOn_alike devices memory d).geometry d
  have hgranule : (aloneOn devices memory d).devices.granule memory.device = (devices.geometry d).granule := by
    rw [hd]
    exact congrArg Geometry.granule hgeometry
  have hl : (aloneOn devices memory d).lookup? ⟨0, i⟩ = .ok (memory, entry) := by
    simp [lookup?, aloneOn, withFlash, hi]
  have hlink : (aloneOn devices memory d).flashLink d =
      { device := { (devices.flashes.get d).device with initialized := true } } := by
    rw [aloneOn, flashLink_withFlash, if_pos rfl]
  refine write_byte_ends hl rfl (hgranule ▸ hpartial) (hgranule ▸ hoffset) hin ?_
  rw [hgranule]
  generalize hpadded : (byte :: List.replicate ((devices.geometry d).granule - 1) 0 : Bytes) = padded
  have hlength : padded.length = (devices.geometry d).granule := by
    rw [← hpadded, List.length_cons, List.length_replicate]
    omega
  by_cases hshort : entry.size < offset + (devices.geometry d).granule
  · exact (writeOut_of_short hl hshort).imp (fun _ _ h => h) (fun _ _ h => h.2) id
  have hrefused := writeOut_of_unaligned (s := { aloneOn devices memory d with
    buffer := ⟨⟨0, i⟩, offset, (devices.geometry d).granule, padded⟩ }) hl hd ha (congrArg Link.schedule hlink)
    (congrArg (·.device.initialized) hlink) ⟨?_, ?_, ?_⟩ (Nat.not_lt.mp hshort) ?_
  · exact hrefused.imp (fun _ _ h => h) (fun _ _ h => h.2) id
  · have hregion := hs.sound.flash hl hd ha
    have hbase := hregion.base_le
    have hstop := hregion.le_stop
    refine Geometry.contains_iff.mpr ⟨?_, ?_⟩
    · show ((aloneOn devices memory d).flash d).geometry.base ≤ address + offset
      omega
    · show address + offset + padded.length ≤ ((aloneOn devices memory d).flash d).geometry.base +
        ((aloneOn devices memory d).flash d).geometry.size
      omega
  · exact List.ne_nil_of_length_pos (Nat.lt_of_lt_of_eq (by omega) hlength.symm)
  · show 0 < ((aloneOn devices memory d).devices.geometry d).granule
    rw [hgeometry]
    omega
  · rintro ⟨haligned, -⟩
    refine hbad.elim hshort fun hmis => hmis ?_
    rw [← hgeometry]
    exact haligned

/-- A granule of a slot that is not made of whole ones is not accepted. -/
theorem whole_of_writable (h : Memory.register devices index plan device policy = .ok memory)
    (hwritable : Writable devices memory) : WholeGranules devices memory := by
  intro entry hmem d address hd ha
  obtain ⟨i, hi⟩ := List.mem_iff_getElem?.mp hmem
  have hs := aloneOn_inOrder h d
  have hl : (aloneOn devices memory d).lookup? ⟨0, i⟩ = .ok (memory, entry) := by
    simp [lookup?, aloneOn, withFlash, hi]
  have hrefused : ∀ offset, 1 < (devices.geometry d).granule → offset % (devices.geometry d).granule = 0 →
      offset + 1 ≤ entry.size → (entry.size < offset + (devices.geometry d).granule ∨
        (address + offset - (devices.geometry d).base) % (devices.geometry d).granule ≠ 0) → False := by
    intro offset hpartial hoffset hin hbad
    have hoffset' : offset % devices.granule memory.device = 0 := by
      rw [hd]
      exact hoffset
    have hwritten := hwritable _ _ ⟨0, i⟩ entry offset [] [0] .force (aloneOn_alike devices memory d) hs hl rfl hoffset'
      .begin hin
    have hno := aloneOn_refuses 0 h hi hd ha hpartial hoffset hin hbad
    obtain ⟨_, _, -, -, hfalse⟩ := ((hwritten.and hno).imp (fun _ _ h => h)
      (fun _ _ h => h.2.not_faulted h.1) And.left).exists_ok
    exact hfalse
  have hregion := hs.sound.flash hl hd ha
  have hnonempty := hregion.nonempty
  have hbase : (devices.geometry d).base ≤ address := (aloneOn_alike devices memory d).geometry d ▸ hregion.base_le
  have hpos : 0 < (devices.geometry d).granule := by
    obtain ⟨rfl, hpos, -⟩ := Memory.register_ok h
    rwa [hd] at hpos
  by_cases hone : (devices.geometry d).granule = 1
  · rw [hone]
    exact ⟨Nat.mod_one _, Nat.mod_one _⟩
  have hpartial : 1 < (devices.geometry d).granule := by omega
  constructor
  · refine Classical.byContradiction fun hmis => hrefused 0 hpartial (Nat.zero_mod _) (by omega) (Or.inr hmis)
  · refine Classical.byContradiction fun hrest => ?_
    have hdiv := Nat.div_add_mod entry.size (devices.geometry d).granule
    have hlt := Nat.mod_lt entry.size hpos
    refine hrefused ((devices.geometry d).granule * (entry.size / (devices.geometry d).granule)) hpartial
      (Nat.mul_mod_right _ _) (by omega) (Or.inl (by omega))

/-- A slot of whole sectors is one of whole granules where a sector is made of them. -/
theorem whole_of_sectors (h : Memory.register devices index plan device policy = .ok memory)
    (hsectors : ∀ d, (devices.geometry d).granule ∣ (devices.geometry d).sector) : WholeGranules devices memory := by
  intro entry hmem d address hd ha
  have hchecked := (checked_of_register h).slots.fits entry hmem
  have hregion := region_of_checkSlot (s := { devices, memories := [] }) (hd ▸ hchecked) ha
  exact ⟨Nat.mod_eq_zero_of_dvd (Nat.dvd_trans (hsectors d) (Nat.dvd_of_mod_eq_zero hregion.onSector)),
    Nat.mod_eq_zero_of_dvd (Nat.dvd_trans (hsectors d) (Nat.dvd_of_mod_eq_zero hregion.wholeSectors))⟩

/-- A memory that has been registered can be written to exactly if its slots start and end on granules, which is only
checked of files. -/
theorem registered_writable_iff (h : Memory.register devices index plan device policy = .ok memory) :
    Writable devices memory ↔ WholeGranules devices memory :=
  ⟨whole_of_writable h, writable_of_whole⟩

end Registered

-- Two sectors of a granule and a half each.
private def unevenGeometry : Geometry := ⟨0, 24, 12, 8, by decide, by decide, by decide⟩

private def unevenDevices : Devices 1 0 := Sample.alone { Flash.blank unevenGeometry with initialized := true }

private def unevenPlan : MemoryPlan := ⟨.primary, .flash, [⟨.flash 0, 12⟩, ⟨.flash 12, 12⟩], by decide⟩

private def unevenMemory : Memory 1 0 :=
  ⟨.primary, Sample.device, [⟨⟨.flash 0, 12⟩, .theApplication, 0⟩, ⟨⟨.flash 12, 12⟩, .anUpdate, 0⟩]⟩

private theorem register_uneven :
    Memory.register unevenDevices 0 unevenPlan Sample.device { fallback := true } = .ok unevenMemory := by
  with_unfolding_all rfl

/-- Slots on whole sectors can be written to where a sector is made of granules, and cannot where it is not. -/
theorem sample_registered_writable : Writable (Sample.board [] [] []).devices Sample.memory ∧
    ¬Writable unevenDevices unevenMemory := by
  have hsample : Memory.register (Sample.board [] [] []).devices 0 ⟨.primary, .flash,
      [⟨.flash 0, 128⟩, ⟨.flash 128, 128⟩, ⟨.flash 256, 128⟩], by decide⟩ Sample.device { fallback := true } =
        .ok Sample.memory := rfl
  refine ⟨(registered_writable_iff hsample).mpr (whole_of_sectors hsample fun d => ?_), fun hwritable => ?_⟩
  · obtain rfl : d = 0 := Subsingleton.elim _ _
    decide
  · have hstarts := (registered_writable_iff register_uneven).mp hwritable _ (List.mem_cons_self ..) 0 0 rfl rfl
    exact absurd hstarts (by decide)

/-- Nothing is failed, but the second slot starts between two granules of the device, and the last granule of the first
slot does not fit into it. -/
theorem uneven_writes_fail :
    let s : Storage 1 0 := { devices := unevenDevices, memories := [unevenMemory] }
    Memory.register unevenDevices 0 unevenPlan Sample.device { fallback := true } = .ok unevenMemory ∧
    (write ⟨0, 1⟩ 0 [1, 2, 3, 4, 5, 6, 7, 8] .force).failsWith s (fun cause t =>
      cause = .driverFailure ∧ (t.flashLink 0).errors = [.unaligned] ∧ (t.flashLink 0).faults = 0) = true ∧
    (write ⟨0, 0⟩ 8 [1, 2, 3, 4] .force).failsWith s (fun cause t =>
      cause = .invalidLength ∧ (t.flashLink 0).faults = 0) = true :=
  ⟨register_uneven, by decide +kernel, by decide +kernel⟩

end Storage
end FirmwareUpdate
