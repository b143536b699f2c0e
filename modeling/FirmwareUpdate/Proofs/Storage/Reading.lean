import FirmwareUpdate.Proofs.Storage.Settling
import FirmwareUpdate.Storage.Access

/-! Reading a slot gives its bytes, and changes nothing. -/
namespace FirmwareUpdate.Storage
variable {n k : Nat} {s t : Storage n k} {memory : Memory n k} {entry : Slot} {slot : SlotId}

/-- Some flash device ends with the address space. -/
def AtTop (s : Storage n k) : Prop := ∃ device, UInt32.size ≤ (s.flash device).geometry.stop

/-- Whether a device ends with the address space depends on the setup alone. -/
theorem SameSetup.atTop (h : s.SameSetup t) : t.AtTop ↔ s.AtTop := by
  simp only [AtTop]
  simp only [h.geometry]

/-- A region of whole sectors. -/
structure Region (g : Geometry) (address size : Nat) : Prop where
  base_le : g.base ≤ address
  le_stop : address + size ≤ g.base + g.size
  onSector : (address - g.base) % g.sector = 0
  wholeSectors : size % g.sector = 0
  nonempty : size ≠ 0

private theorem region_of_fits {g : Geometry} {address size : Nat}
    (h : Memory.regionFits g address size = true) : Region g address size := by
  simp only [Memory.regionFits, Geometry.isSector, Geometry.stop, Bool.and_eq_true, Bool.or_eq_true,
    decide_eq_true_eq, Geometry.contains_iff] at h
  obtain ⟨⟨⟨hne, hb, he⟩, -, hstart⟩, hend⟩ := h
  refine ⟨hb, he, hstart, ?_, hne⟩
  have hstop : (address + size - g.base) % g.sector = 0 := by
    rcases hend with hend | ⟨-, hend⟩
    · rw [of_decide_eq_true hend, Nat.add_sub_cancel_left]
      exact Nat.mod_eq_zero_of_dvd g.sector_dvd
    · exact hend
  have hsum : address + size - g.base = address - g.base + size := by omega
  rw [hsum] at hstop
  exact Nat.mod_eq_zero_of_dvd
    ((Nat.dvd_add_right (Nat.dvd_of_mod_eq_zero hstart)).mp (Nat.dvd_of_mod_eq_zero hstop))

/-- A flash slot that has been checked is whole sectors of its device. -/
theorem region_of_checkSlot {d : Fin n} {address : Nat}
    (h : Memory.checkSlot s.devices (.flash d) entry.toSlotPlan = .ok ()) (ha : entry.location = .flash address) :
    Region (s.flash d).geometry address entry.size := by
  simp only [Memory.checkSlot, ha] at h
  split at h
  · exact region_of_fits (by assumption)
  · cases h

/-- A flash slot of a sound storage is whole sectors of its device. -/
theorem Sound.flash (hs : s.Sound) (hl : s.lookup? slot = .ok (memory, entry)) {d : Fin n}
    {address : Nat} (hd : memory.device = .flash d) (ha : entry.location = .flash address) :
    Region (s.flash d).geometry address entry.size :=
  region_of_checkSlot (hd ▸ hs.fits slot memory entry hl) ha

/-- A slot is either a region of its memory's flash or a file of its memory's store. -/
theorem location_of_checkSlot (h : Memory.checkSlot s.devices memory.device entry.toSlotPlan = .ok ()) :
    (∃ d address, memory.device = .flash d ∧ entry.location = .flash address) ∨
      ∃ d path, memory.device = .files d ∧ entry.location = .file path := by
  unfold Memory.checkSlot at h
  split at h
  · exact Or.inl ⟨_, _, by assumption, by assumption⟩
  · exact Or.inr ⟨_, _, by assumption, by assumption⟩
  · cases h

/-- A slot of a sound storage is where its device is. -/
theorem Sound.location (hs : s.Sound) (hl : s.lookup? slot = .ok (memory, entry)) :
    (∃ d address, memory.device = .flash d ∧ entry.location = .flash address) ∨
      ∃ d path, memory.device = .files d ∧ entry.location = .file path :=
  location_of_checkSlot (hs.fits slot memory entry hl)

/-- There are no empty slots. -/
theorem Sound.size_pos (hs : s.Sound) (hl : s.lookup? slot = .ok (memory, entry)) : 0 < entry.size := by
  rcases hs.location hl with ⟨d, address, hd, ha⟩ | ⟨f, path, hd, hp⟩
  · exact Nat.pos_of_ne_zero (hs.flash hl hd ha).nonempty
  · have hfits := hs.fits slot memory entry hl
    simp only [Memory.checkSlot, hd, hp] at hfits
    split at hfits
    · exact Nat.pos_of_ne_zero (by assumption : _ ∧ _).1
    · cases hfits

/-- A slot that there is is looked up. -/
theorem ends_lookup_bind {α : Type} {next : Memory n k × Slot → Op n k α} {found : Memory n k × Slot}
    {done : α → Storage n k → Prop} {failed : Error → Storage n k → Prop} {trapped : Prop}
    (hl : s.lookup? slot = .ok found) :
    (lookup slot >>= next).Ends s done failed trapped ↔ (next found).Ends s done failed trapped := by
  simp only [lookup]
  rw [bind_assoc, Action.ends_get_bind, hl]
  exact Action.ends_pure_bind found next done

/-- Without a slot of that name nothing is done at all. -/
theorem ends_of_lookup {α : Type} {next : Memory n k × Slot → Op n k α} {done : α → Storage n k → Prop}
    {failed : Error → Storage n k → Prop} {trapped : Prop} (hnone : ∀ cause, failed cause s)
    (h : ∀ memory entry, s.lookup? slot = .ok (memory, entry) → (lookup slot >>= next).Ends s done failed trapped) :
    (lookup slot >>= next).Ends s done failed trapped := by
  cases hl : s.lookup? slot with
  | error cause =>
    simp only [lookup]
    simp only [bind_assoc, Action.ends_get_bind, hl]
    exact hnone cause
  | ok found => exact h _ _ hl

/-- What opening the file of a slot leaves behind: a file that is opened for writing may come to be. -/
structure Opened (memory : Memory n k) (entry : Slot) (mode : FileMode) (s t : Storage n k) : Prop where
  changes : Changes (fun p => mode = .readWrite ∧ s.within memory entry p) s t
  held : t.held memory entry = s.held memory entry
  tail : t.tail memory entry = s.tail memory entry
  buffer : t.buffer = s.buffer

namespace Opened
variable {mode : FileMode} {u : Storage n k}

private theorem of_still (h : s.Still t) (hb : t.buffer = s.buffer) : Opened memory entry mode s t :=
  ⟨h.changes, h.held_eq, h.tail_eq, hb⟩

private theorem trans (h : Opened memory entry mode s t) (h' : Opened memory entry mode t u) :
    Opened memory entry mode s u := by
  refine ⟨h.changes.trans (h'.changes.mono ?_), h'.held.trans h.held, h'.tail.trans h.tail,
    h'.buffer.trans h.buffer⟩
  exact fun p hp => ⟨hp.1, (h.changes.setup.within_iff p).mp hp.2⟩

private theorem still (h : Opened memory entry .read s t) : s.Still t :=
  h.changes.mono fun _ hp => FileMode.noConfusion hp.1

/-- Opening the file of a slot changes at most that file. -/
theorem within (h : Opened memory entry mode s t) : Changes (s.within memory entry) s t :=
  h.changes.mono fun _ hp => hp.2

end Opened

private theorem opened_withStore {d : Fin k} {path : String} {mode : FileMode} {link : FileLink}
    (hd : memory.device = .files d) (hp : entry.location = .file path)
    (hk : (s.fileLink d).Keeps link) (ho : (s.store d).Opens path mode link.device) :
    Opened memory entry mode s (s.withStore d link) := by
  refine ⟨withStore_changes hk ho.granule ?_ ?_, ?_, ?_, rfl⟩
  · intro p hno
    apply ho.others
    rintro rfl
    cases mode with
    | read => rfl
    | readWrite => exact (hno ⟨rfl, hd, hp⟩).elim
  · exact fun file _ p hbound _ => ho.handles _ _ hbound
  · simp only [held, hd, hp, store_withStore, ho.contents]
  · simp only [Storage.tail, hd, hp, store_withStore, ho.contents]

section Files
variable {d : Fin k} {path : String} {mode : FileMode}

private theorem remember_handles {handle : Nat} (hl : s.lookup? slot = .ok (memory, entry))
    (hd : memory.device = .files d) (hp : entry.location = .file path)
    (hpath : (s.store d).pathOf? handle = some path) :
    s.Still (s.remember { slot, handle, mode }) := by
  refine ⟨⟨rfl, fun _ => rfl, fun _ => rfl, fun _ => rfl⟩, fun _ => Nat.le_refl _, ?_, fun _ _ => rfl⟩
  intro hs file hfile
  rcases List.mem_cons.mp hfile with rfl | hold
  · exact ⟨memory, entry, d, path, hl, hd, hp, hpath⟩
  · exact hs.handles file hold

/-- The file of a slot is opened under a handle of its own, unless its store fails. -/
theorem openFor_ends (hl : s.lookup? slot = .ok (memory, entry)) (hd : memory.device = .files d)
    (hp : entry.location = .file path) :
    (openFor slot d path mode).Ends s
      (fun handle t => Opened memory entry mode s t ∧ (t.store d).pathOf? handle = some path)
      (fun _ t => Opened memory entry mode s t ∧ FaultedOn (.files d) s t) False := by
  simp only [openFor]
  have hopen : (onStore d (FileLink.openFile path mode)).Ends s
      (fun handle t => Opened memory entry mode s t ∧ (t.store d).pathOf? handle = some path)
      (fun _ t => Opened memory entry mode s t ∧ FaultedOn (.files d) s t) False := by
    refine onStore_ends.mpr (FileLink.openFile_ends.imp ?_ ?_ id)
    · intro handle link hended
      obtain ⟨hk, -, ho, hpath⟩ := hended
      refine ⟨opened_withStore hd hp hk ho, ?_⟩
      rwa [store_withStore]
    · intro _ link hended
      obtain ⟨hk, ho, hlt⟩ := hended
      refine ⟨opened_withStore hd hp hk ho, ?_⟩
      rwa [FaultedOn, faultsOn_withStore]
  refine hopen.bind ?_ (fun _ _ h => h) id
  intro handle t hended
  obtain ⟨ho, hpath⟩ := hended
  rw [Action.ends_modify_bind]
  have hremember : t.Still (t.remember { slot, handle, mode }) :=
    remember_handles (ho.changes.lookup? hl) hd hp hpath
  exact ⟨ho.trans (.of_still hremember rfl), hpath⟩

/-- The handle that a call is made with stands for the file of the slot. -/
theorem handleFor_ends (hs : s.InOrder) (hl : s.lookup? slot = .ok (memory, entry))
    (hd : memory.device = .files d) (hp : entry.location = .file path) :
    (handleFor slot d path mode).Ends s
      (fun handle t => Opened memory entry mode s t ∧ (t.store d).pathOf? handle = some path)
      (fun _ t => Opened memory entry mode s t ∧ FaultedOn (.files d) s t) False := by
  simp only [handleFor]
  rw [Action.ends_get_bind]
  split
  · exact openFor_ends hl hd hp
  · rename_i file hfile
    obtain ⟨-, path', hp', hpath⟩ := hs.handle hl hd hfile
    rw [hp] at hp'
    cases hp'
    split
    · exact ⟨.of_still (Changes.refl _ s) rfl, hpath⟩
    · rw [Action.ends_modify_bind]
      have hforget := still_forget s slot
      have hclose := closeHandle_ends (hforget.inOrder hs).sound hl hd hp hpath
        fun file hfile => ne_of_mem_forget hfile
      refine hclose.bind ?_ ?_ id
      · intro _ t hended
        obtain ⟨ht, hbuffer⟩ := hended
        have hopened : Opened memory entry mode s t := .of_still (hforget.trans ht) hbuffer
        refine (openFor_ends (ht.lookup? hl) hd hp).imp ?_ ?_ id
        · intro handle u hended
          obtain ⟨hu, hpath⟩ := hended
          exact ⟨hopened.trans hu, hpath⟩
        · intro _ u hended
          obtain ⟨hu, hf⟩ := hended
          exact ⟨hopened.trans hu, hopened.changes.faultedOn_right hf⟩
      · intro _ t hended
        obtain ⟨⟨ht, hbuffer⟩, hf⟩ := hended
        exact ⟨.of_still (hforget.trans ht) hbuffer, hforget.faultedOn_right hf⟩

/-- A slot in a file holds the front of it, and reads as erased behind its end. -/
theorem held_file (hd : memory.device = .files d) (hp : entry.location = .file path) :
    s.held memory entry =
      (Bytes.extend (((s.store d).file? path).getD []) entry.size).take entry.size := by
  simp only [held, hd, hp]

/-- A slot in a file is read as it is held, unless the store fails. -/
theorem readFile_ends {offset length : Nat} (hs : s.InOrder)
    (hl : s.lookup? slot = .ok (memory, entry)) (hd : memory.device = .files d)
    (hp : entry.location = .file path) (hin : offset + length ≤ entry.size) :
    (readFile slot d path offset length).Ends s
      (fun bytes t => s.Still t ∧ t.buffer = s.buffer ∧
        bytes = Bytes.slice (s.held memory entry) offset length)
      (fun _ t => s.Still t ∧ FaultedOn (.files d) s t) False := by
  refine (handleFor_ends hs hl hd hp).bind ?_ ?_ id
  · intro handle t hended
    obtain ⟨ho, hpath⟩ := hended
    have hread : (onStore d (FileLink.read handle offset length)).Ends t
        (fun bytes u => s.Still u ∧ u.buffer = s.buffer ∧
          bytes = Bytes.slice (((t.store d).file? path).getD []) offset length)
        (fun _ u => s.Still u ∧ FaultedOn (.files d) s u) False := by
      refine onStore_ends.mpr ((FileLink.read_ends hpath).imp ?_ ?_ id)
      · intro bytes link hended
        obtain ⟨hk, -, hdevice, hbytes⟩ := hended
        refine ⟨ho.still.trans (withStore_still hk ?_ ?_ ?_), ho.buffer, hbytes⟩
        · rw [hdevice]; rfl
        · rw [hdevice]; rfl
        · rw [hdevice]; rfl
      · intro _ link hended
        obtain ⟨hk, hdevice, hlt⟩ := hended
        refine ⟨ho.still.trans (withStore_still hk ?_ ?_ ?_), ho.changes.faultedOn_right ?_⟩
        · rw [hdevice]; rfl
        · rw [hdevice]; rfl
        · rw [hdevice]; rfl
        · rwa [FaultedOn, faultsOn_withStore]
    refine hread.bind ?_ (fun _ _ h => h) id
    intro bytes u hended
    obtain ⟨hu, hbuffer, rfl⟩ := hended
    refine ⟨hu, hbuffer, ?_⟩
    rw [← ho.held, held_file hd hp, Bytes.slice_take hin, Bytes.slice_extend hin]
  · intro _ t hended
    obtain ⟨ho, hf⟩ := hended
    exact ⟨ho.still, hf⟩

end Files

/-- A slot on flash holds its range of the device. -/
theorem held_flash {d : Fin n} {address : Nat} (hd : memory.device = .flash d)
    (ha : entry.location = .flash address) :
    s.held memory entry = Bytes.slice (s.flash d).contents
      (address - (s.flash d).geometry.base) entry.size := by
  simp only [held, hd, ha]

/-- A slot holds as many bytes as it has. -/
theorem length_held (hs : s.Sound) (hl : s.lookup? slot = .ok (memory, entry)) :
    (s.held memory entry).length = entry.size := by
  rcases hs.location hl with ⟨d, address, hd, ha⟩ | ⟨f, path, hd, hp⟩
  · have hregion := hs.flash hl hd ha
    have hb := hregion.base_le
    have he := hregion.le_stop
    have hlen := (s.flash d).contents_length
    rw [held_flash hd ha, Bytes.length_slice]
    omega
  · rw [held_file hd hp, List.length_take, Bytes.length_extend]
    omega

/-- A slot in flash is read as it is held, unless the device fails. -/
theorem readFlash_ends {d : Fin n} {address offset length : Nat} (hs : s.InOrder)
    (hl : s.lookup? slot = .ok (memory, entry)) (hd : memory.device = .flash d)
    (ha : entry.location = .flash address) (hin : offset + length ≤ entry.size) :
    (onFlash d (FlashLink.read (address + offset) length)).Ends s
      (fun bytes t => s.Still t ∧ t.buffer = s.buffer ∧
        bytes = Bytes.slice (s.held memory entry) offset length)
      (fun _ t => s.Still t ∧ FaultedOn (.flash d) s t) False := by
  have hregion := hs.sound.flash hl hd ha
  have hb := hregion.base_le
  have he := hregion.le_stop
  have hcontains : (s.flash d).geometry.contains (address + offset) length = true := by
    rw [Geometry.contains_iff]
    omega
  refine onFlash_ends.mpr ((FlashLink.read_ends hcontains).imp ?_ ?_ id)
  · intro bytes link hended
    obtain ⟨hk, -, hdevice, rfl⟩ := hended
    refine ⟨withFlash_still hk (by rw [hdevice]; rfl) (by rw [hdevice]; rfl), rfl, ?_⟩
    simp only [held, hd, ha]
    rw [Bytes.slice_slice hin, ← Nat.sub_add_comm hb]
    rfl
  · intro _ link hended
    obtain ⟨hk, hdevice, hlt⟩ := hended
    refine ⟨withFlash_still hk (by rw [hdevice]; rfl) (by rw [hdevice]; rfl), ?_⟩
    rwa [FaultedOn, faultsOn_withFlash]

/-- Reading inside a slot fails only where its device does, and traps only past its last byte. -/
theorem read_ends {offset length : Nat} (hs : s.InOrder) (hl : s.lookup? slot = .ok (memory, entry))
    (hin : offset + length ≤ entry.size) :
    (read slot offset length).Ends s
      (fun bytes t => s.Still t ∧ t.buffer = s.buffer ∧
        bytes = Bytes.slice (s.held memory entry) offset length)
      (fun _ t => Fails (fun _ => False) memory.device s t ∧ FaultedOn memory.device s t)
      (entry.size ≤ offset ∧ s.AtTop) := by
  have hm := (getElem?_of_lookup? hl).1
  simp only [read]
  rw [ends_lookup_bind hl]
  simp only [requireInside, if_pos hin, Action.ends_pure_bind]
  rcases hs.sound.location hl with ⟨d, address, hd, ha⟩ | ⟨d, path, hd, hp⟩
  · have he := (hs.sound.flash hl hd ha).le_stop
    have hstop := (s.flash d).geometry.stop_le
    simp only [hd, ha]
    refine Action.word_bind (fun hword => ⟨by omega, d, ?_⟩) ?_
    · simp only [Geometry.stop]
      omega
    · refine (guarding_ends hs hm (fun _ _ hf hstill => hstill.faultedOn_left hf)
        (readFlash_ends hs hl hd ha hin)).imp (fun _ _ h => h) ?_ False.elim
      exact fun _ _ h => ⟨hd ▸ h.1, h.2⟩
  · simp only [hd, hp]
    refine (guarding_ends hs hm (fun _ _ hf hstill => hstill.faultedOn_left hf)
      (readFile_ends hs hl hd hp hin)).imp (fun _ _ h => h) ?_ False.elim
    exact fun _ _ h => ⟨hd ▸ h.1, h.2⟩

/-- A read past the end of a slot is refused, and nothing has been done. -/
theorem read_of_outside {offset length : Nat} (hl : s.lookup? slot = .ok (memory, entry))
    (hout : entry.size < offset + length) :
    read slot offset length s = .error (.error .invalidLength) s := by
  simp only [read, lookup, requireInside]
  simp only [Action.bind_apply, Action.get_apply, hl, Action.ofExcept, Action.pure_apply,
    if_neg (Nat.not_le_of_lt hout), Action.fail_apply]

/-- A read that succeeds, wherever it is made, leaves everything as it is. -/
theorem read_still (hs : s.InOrder) {offset length : Nat} :
    (read slot offset length).Yields s (fun _ t => s.Still t ∧ t.buffer = s.buffer) := by
  refine ends_of_lookup (fun _ => trivial) fun memory entry hl => ?_
  by_cases hin : offset + length ≤ entry.size
  · exact (read_ends hs hl hin).yields.imp fun _ t h => ⟨h.1, h.2.1⟩
  · have hrefused := read_of_outside hl (Nat.lt_of_not_le hin)
    show (read slot offset length).Yields s _
    rw [Action.Yields, Action.Ends, hrefused]
    trivial

end FirmwareUpdate.Storage
