import FirmwareUpdate.Proofs.Storage.Reading

/-! Erasing a slot, and writing one granule to it: both lay a patch over the bytes of the slot, and
neither reaches past it. -/
namespace FirmwareUpdate.Storage
variable {n k : Nat} {s t : Storage n k} {memory : Memory n k} {entry : Slot} {slot : SlotId}
  {d : Fin n} {address : Nat} {f : Fin k} {path : String} {offset length : Nat} {patch : Bytes}

/-- The step has changed at most the bytes of a slot. -/
structure Touched (memory : Memory n k) (entry : Slot) (s t : Storage n k) : Prop where
  changes : Changes (s.within memory entry) s t
  tail : t.tail memory entry = s.tail memory entry

private theorem Touched.trans_still {u : Storage n k} (h : Touched memory entry s t) (hu : t.Still u) :
    Touched memory entry s u :=
  ⟨h.changes.trans hu.changes, hu.tail_eq.trans h.tail⟩

private theorem Still.touched (h : s.Still t) : Touched memory entry s t := ⟨h.changes, h.tail_eq⟩

private theorem Opened.touched {mode : FileMode} (h : Opened memory entry mode s t) : Touched memory entry s t :=
  ⟨h.within, h.tail⟩

/-- The step has laid a patch over the bytes of a slot. -/
structure Patched (memory : Memory n k) (entry : Slot) (offset : Nat) (patch : Bytes)
    (s t : Storage n k) : Prop extends Touched memory entry s t where
  held : t.held memory entry = Bytes.splice (s.held memory entry) offset patch

private theorem Patched.trans_still {u : Storage n k} (h : Patched memory entry offset patch s t) (hu : t.Still u) :
    Patched memory entry offset patch s u :=
  ⟨h.toTouched.trans_still hu, hu.held_eq.trans h.held⟩

private theorem touched_withFlash {link : FlashLink} (hd : memory.device = .flash d)
    (ha : entry.location = .flash address) (hk : (s.flashLink d).Keeps link)
    (hg : link.device.geometry = (s.flash d).geometry)
    (hin : offset + length ≤ entry.size)
    (hc : Bytes.AgreeOutside (address - (s.flash d).geometry.base + offset) length
      (s.flash d).contents link.device.contents) :
    Touched memory entry s (s.withFlash d link) := by
  refine ⟨withFlash_changes hk hg fun i hi => hc i ?_, by simp only [Storage.tail, hd]⟩
  by_cases hfront : i < address - (s.flash d).geometry.base + offset
  · exact Or.inl hfront
  · refine Or.inr (Nat.le_of_not_lt fun hlt => ?_)
    exact hi ⟨hd, address, ha, by omega, by omega⟩

private theorem patched_withFlash {link : FlashLink} (hregion : Region (s.flash d).geometry address entry.size)
    (hd : memory.device = .flash d) (ha : entry.location = .flash address)
    (hk : (s.flashLink d).Keeps link) (hg : link.device.geometry = (s.flash d).geometry)
    (hin : offset + patch.length ≤ entry.size)
    (hc : link.device.contents =
      Bytes.splice (s.flash d).contents (address - (s.flash d).geometry.base + offset) patch) :
    Patched memory entry offset patch s (s.withFlash d link) := by
  have hb := hregion.base_le
  have he := hregion.le_stop
  have hlen := (s.flash d).contents_length
  refine ⟨touched_withFlash hd ha hk hg hin ?_, ?_⟩
  · rw [hc]
    exact Bytes.agreeOutside_splice (by omega) (Nat.le_refl _)
  · rw [held_flash hd ha, held_flash hd ha, flash_withFlash, hg, hc]
    exact Bytes.slice_splice hin (by omega)

private theorem patched_withStore {link : FileLink} (hd : memory.device = .files f)
    (hp : entry.location = .file path) (hk : (s.fileLink f).Keeps link)
    (hin : offset + patch.length ≤ entry.size)
    (hc : (s.store f).Patches path (Bytes.splice (Bytes.extend (((s.store f).file? path).getD [])
      (offset + patch.length)) offset patch) link.device) :
    Patched memory entry offset patch s (s.withStore f link) := by
  refine ⟨⟨withStore_changes hk hc.granule ?_ ?_, ?_⟩, ?_⟩
  · intro p hno
    apply hc.others
    rintro rfl
    exact hno ⟨hd, hp⟩
  · intro file _ p hbound _
    rwa [FileStore.pathOf?, hc.handles]
  · simp only [Storage.tail, hd, hp, store_withStore]
    rw [hc.file]
    exact Bytes.drop_extend_splice hin
  · rw [held_file hd hp, held_file hd hp, store_withStore, hc.file, Option.getD_some]
    exact Bytes.take_extend_splice hin

/-- A call on the open file of a slot that lays a patch over the file. -/
theorem patchFile_ends {patch : Bytes} {call : Nat → FileLink.Call Unit} (hs : s.InOrder)
    (hl : s.lookup? slot = .ok (memory, entry)) (hd : memory.device = .files f)
    (hp : entry.location = .file path) (hin : offset + patch.length ≤ entry.size)
    (hcall : ∀ (link : FileLink) handle, link.device.pathOf? handle = some path →
      (call handle).Ends link
        (fun _ m => link.Keeps m ∧ m.faults = link.faults ∧ link.device.Patches path
          (Bytes.splice (Bytes.extend ((link.device.file? path).getD []) (offset + patch.length))
            offset patch) m.device)
        (fun _ m => link.Keeps m ∧ m.device = link.device ∧ link.faults < m.faults) False) :
    (handleFor slot f path .readWrite >>= fun handle => onStore f (call handle)).Ends s
      (fun _ t => Patched memory entry offset patch s t ∧ t.buffer = s.buffer)
      (fun _ t => Touched memory entry s t ∧ s.Faulted t ∧ t.held memory entry = s.held memory entry) False := by
  refine (handleFor_ends hs hl hd hp).bind ?_ ?_ id
  · intro handle t hended
    obtain ⟨ho, hpath⟩ := hended
    have hwithin : ∀ p, t.within memory entry p → s.within memory entry p :=
      fun p => (ho.changes.setup.within_iff p).mp
    refine onStore_ends.mpr ((hcall _ handle hpath).imp ?_ ?_ id)
    · intro _ link hended
      obtain ⟨hk, -, hc⟩ := hended
      have hpatch : Patched memory entry offset patch t (t.withStore f link) :=
        patched_withStore hd hp hk hin hc
      exact ⟨⟨⟨ho.within.trans (hpatch.changes.mono hwithin), hpatch.tail.trans ho.tail⟩,
        by rw [hpatch.held, ho.held]⟩, ho.buffer⟩
    · intro _ link hended
      obtain ⟨hk, hdevice, hlt⟩ := hended
      have hstill : t.Still (t.withStore f link) :=
        withStore_still hk (by rw [hdevice]; rfl) (by rw [hdevice]; rfl) (by rw [hdevice]; rfl)
      refine ⟨ho.touched.trans_still hstill, ho.changes.faulted_right ⟨.files f, ?_⟩, hstill.held_eq.trans ho.held⟩
      rwa [faultsOn_withStore]
  · intro _ t hended
    obtain ⟨ho, hf⟩ := hended
    exact ⟨ho.touched, hf.faulted, ho.held⟩

private theorem guardingSlot_ends {α : Type} {index : Nat} {calls : Call n k α} {Q : Storage n k → Prop}
    {done : α → Storage n k → Prop} {trapped : Prop} (hs : s.InOrder) (hm : s.memories[index]? = some memory)
    (hQ : ∀ t u, Q t → t.Still u → Q u)
    (h : calls.Ends s done (fun _ t => Touched memory entry s t ∧ Q t) trapped) :
    (guarding index calls).Ends s done (fun _ t => Fails (s.within memory entry) memory.device s t ∧ Q t ∧
      t.tail memory entry = s.tail memory entry) trapped := by
  refine guarding_ends hs hm ?_ (h.imp (fun _ _ h => h) (fun _ t h => ⟨h.1.changes, h.2, h.1.tail⟩) id)
  exact fun t u ht hstill => ⟨hQ t u ht.1 hstill, hstill.tail_eq.trans ht.2⟩

/-! ### Erasing -/

/-- The bytes that erasing `length` bytes takes in: flash goes by whole sectors. -/
def erasedLength (s : Storage n k) (memory : Memory n k) (length : Nat) : Nat :=
  match memory.device with
  | .flash d => (s.flash d).geometry.sectorsFor length * (s.flash d).geometry.sector
  | .files _ => length

/-- How far erasing reaches depends on the device alone. -/
theorem SameSetup.erasedLength (h : s.SameSetup t) : t.erasedLength memory length = s.erasedLength memory length := by
  simp only [Storage.erasedLength]
  split
  · rw [h.geometry]
  · rfl

/-- The sectors that are erased cover what is to be erased. -/
theorem le_sectorsFor (g : Geometry) (length : Nat) : length ≤ g.sectorsFor length * g.sector := by
  have hdiv := Nat.div_add_mod (length + g.sector - 1) g.sector
  have hmod := Nat.mod_lt (length + g.sector - 1) g.sector_pos
  have hpos := g.sector_pos
  rw [Geometry.sectorsFor, Nat.mul_comm]
  omega

private theorem sectorsFor_le {g : Geometry} {length size : Nat} (h : length ≤ size) (hsize : size % g.sector = 0) :
    g.sectorsFor length * g.sector ≤ size := by
  obtain ⟨count, rfl⟩ := Nat.dvd_of_mod_eq_zero hsize
  have hpos := g.sector_pos
  have hcount : g.sectorsFor length ≤ count := by
    rw [Geometry.sectorsFor, ← Nat.lt_succ_iff, Nat.div_lt_iff_lt_mul hpos, Nat.succ_mul, Nat.mul_comm]
    omega
  rw [Nat.mul_comm g.sector]
  exact Nat.mul_le_mul_right _ hcount

/-- Erasing covers what is to be erased. -/
theorem le_erasedLength (s : Storage n k) (memory : Memory n k) (length : Nat) :
    length ≤ s.erasedLength memory length := by
  simp only [erasedLength]
  split
  · exact le_sectorsFor _ length
  · exact Nat.le_refl length

/-- Sectors are erased whole, so erasing starts on one. -/
def OnSector (s : Storage n k) (memory : Memory n k) (offset : Nat) : Prop :=
  ∀ d, memory.device = .flash d → offset % (s.flash d).geometry.sector = 0

private theorem onSector_zero (s : Storage n k) (memory : Memory n k) : s.OnSector memory 0 := fun _ _ => Nat.zero_mod _

/-- The sector that a slot is erased from is one of its own. -/
theorem Region.isSector_iff {g : Geometry} {size : Nat} (h : Region g address size) (hlt : offset < size) :
    g.isSector (address + offset) = true ↔ offset % g.sector = 0 := by
  have hb := h.base_le
  have he := h.le_stop
  have hone : g.contains (address + offset) 1 = true := by
    rw [Geometry.contains_iff]
    omega
  have hsum : address + offset - g.base = address - g.base + offset := Nat.sub_add_comm hb
  simp only [Geometry.isSector, hone, true_and, decide_eq_true_eq]
  rw [hsum, Nat.add_mod, h.onSector, Nat.zero_add, Nat.mod_mod]

/-- The sectors that hold a part of a region from a sector on are among its own. -/
theorem Region.atSectors {g : Geometry} {size : Nat} (h : Region g address size) (hin : offset + length ≤ size)
    (hsector : offset % g.sector = 0) :
    FlashLink.AtSectors g (g.sectorsFor length) (address + offset) ∧
      offset + g.sectorsFor length * g.sector ≤ size := by
  have hb := h.base_le
  have he := h.le_stop
  have hwhole : (size - offset) % g.sector = 0 :=
    Nat.mod_eq_zero_of_dvd
      (Nat.dvd_sub (Nat.dvd_of_mod_eq_zero h.wholeSectors) (Nat.dvd_of_mod_eq_zero hsector))
  have hle := sectorsFor_le (show length ≤ size - offset by omega) hwhole
  refine ⟨⟨by omega, ?_, by omega⟩, by omega⟩
  rw [Nat.sub_add_comm hb, Nat.add_mod, h.onSector, hsector]
  exact Nat.zero_mod _

/-- Erasing from a place in a slot on has been given up: the slot is as it was, or that place at least is erased. -/
def Torn (memory : Memory n k) (entry : Slot) (offset : Nat) (s t : Storage n k) : Prop :=
  t.held memory entry = s.held memory entry ∨ (t.held memory entry)[offset]? = some 0xFF

private theorem Torn.trans_still {u : Storage n k} (h : Torn memory entry offset s t) (hu : t.Still u) :
    Torn memory entry offset s u := by
  rw [Torn, hu.held_eq]
  exact h

private theorem eraseFlash_ends (hregion : Region (s.flash d).geometry address entry.size)
    (hd : memory.device = .flash d) (ha : entry.location = .flash address) (hin : offset + length ≤ entry.size)
    (hsector : offset % (s.flash d).geometry.sector = 0) (hne : length ≠ 0) :
    (onFlash d (FlashLink.eraseFrom ((s.flash d).geometry.sectorsFor length) (address + offset))).Ends s
      (fun _ t => Patched memory entry offset (Bytes.blank (s.erasedLength memory length)) s t ∧
        t.buffer = s.buffer)
      (fun _ t => Touched memory entry s t ∧ s.Faulted t ∧ Torn memory entry offset s t) s.AtTop := by
  obtain ⟨hsectors, hinside⟩ := hregion.atSectors hin hsector
  have herased : s.erasedLength memory length =
      (s.flash d).geometry.sectorsFor length * (s.flash d).geometry.sector := by
    simp only [erasedLength, hd]
  have hplace : address + offset - (s.flashLink d).device.geometry.base =
      address - (s.flash d).geometry.base + offset := Nat.sub_add_comm hregion.base_le
  have htears : (FlashLink.eraseFrom ((s.flash d).geometry.sectorsFor length) (address + offset)).Ends (s.flashLink d)
      (fun _ _ => True) (fun _ link => link.device.contents = (s.flash d).contents ∨
        link.device.contents[address - (s.flash d).geometry.base + offset]? = some 0xFF)
      (UInt32.size ≤ (s.flash d).geometry.stop) := by
    have hle := le_sectorsFor (s.flash d).geometry length
    rw [← hplace]
    generalize (s.flash d).geometry.sectorsFor length = count at hsectors hle ⊢
    cases count with
    | zero => omega
    | succ count => exact FlashLink.eraseFrom_tears hsectors
  refine onFlash_ends.mpr (((FlashLink.eraseFrom_ends _ _ _ hsectors).and htears).imp ?_ ?_ fun h => ⟨d, h.1⟩)
  · intro _ link hended
    obtain ⟨⟨hk, -, hg, hc⟩, -⟩ := hended
    refine ⟨patched_withFlash hregion hd ha hk hg ?_ ?_, rfl⟩
    · rw [Bytes.length_blank]
      omega
    · rw [herased, hc, hplace]
      rfl
  · intro _ link hended
    obtain ⟨⟨hk, hlt, hg, hc⟩, htorn⟩ := hended
    rw [hplace] at hc
    refine ⟨touched_withFlash hd ha hk hg hinside hc, ⟨.flash d, ?_⟩, ?_⟩
    · rwa [faultsOn_withFlash]
    · rw [Torn, held_flash hd ha, held_flash hd ha, flash_withFlash, hg, Bytes.getElem?_slice, if_pos (by omega)]
      exact htorn.imp (fun hsame => by rw [hsame]; rfl) id

/-- A flash slot is erased in one guarded call, which is not made off the start of a sector. -/
theorem erase_of_flash {done : Unit → Storage n k → Prop} {failed : Error → Storage n k → Prop} {trapped : Prop}
    (hl : s.lookup? slot = .ok (memory, entry)) (hregion : Region (s.flash d).geometry address entry.size)
    (hd : memory.device = .flash d) (ha : entry.location = .flash address) (hin : offset + length ≤ entry.size)
    (hne : length ≠ 0)
    (hrefused : offset % (s.flash d).geometry.sector ≠ 0 → failed .invalidAddress s)
    (h : offset % (s.flash d).geometry.sector = 0 → (guarding slot.memory (onFlash d
      (FlashLink.eraseFrom ((s.flash d).geometry.sectorsFor length) (address + offset)))).Ends s done failed trapped) :
    (erase slot offset length).Ends s done failed trapped := by
  have he := hregion.le_stop
  have hstop := (s.flash d).geometry.stop_le
  have hiff : (s.devices.geometry d).isSector (address + offset) = true ↔
      offset % (s.flash d).geometry.sector = 0 := hregion.isSector_iff (by omega)
  simp only [erase]
  rw [ends_lookup_bind hl]
  simp only [requireInside, if_pos hin, Action.ends_pure_bind, if_neg hne, hd, ha]
  refine Action.word_bind (fun hword => by omega) ?_
  rw [Action.ends_get_bind]
  split
  · rename_i hsector
    exact h (hiff.mp hsector)
  · rename_i hno
    exact hrefused fun hsector => hno (hiff.mpr hsector)

/-- Erasing inside a slot is refused off the start of a sector, and else fails only where a device does. -/
theorem eraseAt_ends (hs : s.InOrder) (hl : s.lookup? slot = .ok (memory, entry))
    (hin : offset + length ≤ entry.size) (hne : length ≠ 0) :
    (erase slot offset length).Ends s
      (fun _ t => Patched memory entry offset (Bytes.blank (s.erasedLength memory length)) s t ∧
        t.buffer = s.buffer)
      (fun _ t => ¬s.OnSector memory offset ∧ t = s ∨ Fails (s.within memory entry) memory.device s t ∧
        (s.Faulted t ∧ Torn memory entry offset s t) ∧ t.tail memory entry = s.tail memory entry) s.AtTop := by
  have hm := (getElem?_of_lookup? hl).1
  have hfaulted : ∀ t u, s.Faulted t ∧ Torn memory entry offset s t → t.Still u →
      s.Faulted u ∧ Torn memory entry offset s u :=
    fun _ _ hf hstill => ⟨hstill.faulted_left hf.1, hf.2.trans_still hstill⟩
  rcases hs.sound.location hl with ⟨d, address, hd, ha⟩ | ⟨f, path, hd, hp⟩
  · have hregion := hs.sound.flash hl hd ha
    apply erase_of_flash hl hregion hd ha hin hne
    · exact fun hoff => Or.inl ⟨fun hon => hoff (hon d hd), rfl⟩
    · intro hsector
      refine (guardingSlot_ends hs hm hfaulted (eraseFlash_ends hregion hd ha hin hsector hne)).imp
        (fun _ _ h => h) (fun _ _ h => Or.inr h) id
  · have hcalls : (handleFor slot f path .readWrite >>= fun handle =>
        onStore f (FileLink.erase handle offset length)).Ends s
          (fun _ t => Patched memory entry offset (Bytes.blank length) s t ∧ t.buffer = s.buffer)
          (fun _ t => Touched memory entry s t ∧ s.Faulted t ∧ Torn memory entry offset s t) False := by
      refine (patchFile_ends hs hl hd hp (by rwa [Bytes.length_blank]) fun link handle hpath => ?_).imp
        (fun _ _ h => h) (fun _ _ h => ⟨h.1, h.2.1, Or.inl h.2.2⟩) id
      rw [Bytes.length_blank]
      exact FileLink.erase_ends hpath
    simp only [erase]
    rw [ends_lookup_bind hl]
    simp only [requireInside, if_pos hin, Action.ends_pure_bind, if_neg hne, hd, hp]
    refine (guardingSlot_ends hs hm hfaulted hcalls).imp ?_ ?_ False.elim
    · intro _ t h
      simpa only [erasedLength, hd] using h
    · exact fun _ _ h => Or.inr ⟨hd ▸ h.1, h.2⟩

/-- Erasing the front of a slot fails only where a device does. -/
theorem erase_ends (hs : s.InOrder) (hl : s.lookup? slot = .ok (memory, entry))
    (hin : length ≤ entry.size) (hne : length ≠ 0) :
    (erase slot 0 length).Ends s
      (fun _ t => Patched memory entry 0 (Bytes.blank (s.erasedLength memory length)) s t ∧
        t.buffer = s.buffer)
      (fun _ t => Fails (s.within memory entry) memory.device s t ∧ s.Faulted t ∧ Torn memory entry 0 s t)
      s.AtTop := by
  refine (eraseAt_ends hs hl (by rwa [Nat.zero_add]) hne).imp (fun _ _ h => h) ?_ id
  rintro _ t (⟨hoff, -⟩ | ⟨hfails, hf, -⟩)
  · exact (hoff (s.onSector_zero memory)).elim
  · exact ⟨hfails, hf⟩

/-- Nothing is erased on a device that is switched off. -/
theorem erase_of_off (hs : s.InOrder) (hl : s.lookup? slot = .ok (memory, entry))
    (hd : memory.device = .flash d) (hoff : (s.flash d).initialized = false)
    (hin : length ≤ entry.size) (hne : length ≠ 0) :
    (erase slot 0 length).Ends s (fun _ _ => False)
      (fun _ t => Fails (fun _ => False) memory.device s t) s.AtTop := by
  obtain ⟨d', address, hd', ha⟩ | ⟨f, path, hd', hp⟩ := hs.sound.location hl
  · rw [hd] at hd'
    cases hd'
    have hregion := hs.sound.flash hl hd ha
    have hle := le_sectorsFor (s.flash d).geometry length
    have hle' := sectorsFor_le hin hregion.wholeSectors
    have he := hregion.le_stop
    apply erase_of_flash hl hregion hd ha (by rwa [Nat.zero_add]) hne
    · exact fun hoff => (hoff (Nat.zero_mod _)).elim
    intro _
    rw [Nat.add_zero]
    generalize (s.flash d).geometry.sectorsFor length = count at hle hle' ⊢
    cases count with
    | zero => omega
    | succ count =>
      have hsectors : FlashLink.AtSectors (s.flash d).geometry (count + 1) address :=
        ⟨hregion.base_le, hregion.onSector, by omega⟩
      have hcall : (onFlash d (FlashLink.eraseFrom (count + 1) address)).Ends s (fun _ _ => False)
          (fun _ t => s.Still t ∧ True) s.AtTop := by
        refine onFlash_ends.mpr ((FlashLink.eraseFrom_of_off hsectors hoff).imp ?_ ?_ fun h => ⟨d, h⟩)
        · exact fun _ _ h => h.elim
        · intro _ link hended
          obtain ⟨hk, hdevice⟩ := hended
          exact ⟨withFlash_still hk (by rw [hdevice]; rfl) (by rw [hdevice]; rfl), trivial⟩
      exact (guarding_ends hs (getElem?_of_lookup? hl).1 (fun _ _ _ _ => trivial) hcall).imp (fun _ _ h => h)
        (fun _ _ h => h.1) id
  · rw [hd] at hd'
    cases hd'

/-! ### Writing a granule -/

/-- Writing can set this byte: it leaves an erased one as it is to be, and clears any. -/
def Clearable (held : Bytes) (offset : Nat) (bytes : Bytes) (i : Nat) : Prop :=
  held[offset + i]? = some 0xFF ∨ bytes[i]? = some 0

/-- Bytes have been written over those of a slot, and come out as they were given where that is
possible. -/
def Programmed (memory : Memory n k) (entry : Slot) (offset : Nat) (bytes : Bytes) (s t : Storage n k) :
    Prop :=
  ∃ patch, patch.length = bytes.length ∧
    (∀ i, i < bytes.length → Clearable (s.held memory entry) offset bytes i → patch[i]? = bytes[i]?) ∧
    Patched memory entry offset patch s t

/-- Programming touches no more than the slot. -/
theorem Programmed.touched {bytes : Bytes} (h : Programmed memory entry offset bytes s t) :
    Touched memory entry s t := by
  obtain ⟨_, -, -, hpatch⟩ := h
  exact hpatch.toTouched

private theorem Programmed.trans_still {u : Storage n k} {bytes : Bytes}
    (h : Programmed memory entry offset bytes s t) (hu : t.Still u) :
    Programmed memory entry offset bytes s u := by
  obtain ⟨patch, hlen, hclear, hpatch⟩ := h
  exact ⟨patch, hlen, hclear, hpatch.trans_still hu⟩

/-- The slot starts and ends on granules of its memory. -/
structure Granular (s : Storage n k) (memory : Memory n k) (entry : Slot) : Prop where
  size : entry.size % s.devices.granule memory.device = 0
  start : ∀ d address, memory.device = .flash d → entry.location = .flash address →
    (address - (s.flash d).geometry.base) % (s.flash d).geometry.granule = 0

/-- Being made of whole granules depends on the devices alone. -/
theorem SameSetup.granular (h : s.SameSetup t) : t.Granular memory entry ↔ s.Granular memory entry := by
  constructor
  · intro ht
    refine ⟨h.deviceGranule _ ▸ ht.size, fun d address hd ha => ?_⟩
    have hstart := ht.start d address hd ha
    rwa [h.geometry] at hstart
  · intro hs
    refine ⟨(h.deviceGranule _).symm ▸ hs.size, fun d address hd ha => ?_⟩
    rw [h.geometry]
    exact hs.start d address hd ha

/-- Bytes have been written over those of a slot, or it is as it was. -/
def Tried (memory : Memory n k) (entry : Slot) (offset : Nat) (bytes : Bytes) (s t : Storage n k) : Prop :=
  t.held memory entry = s.held memory entry ∨ Programmed memory entry offset bytes s t

private theorem Tried.trans_still {u : Storage n k} {bytes : Bytes} (h : Tried memory entry offset bytes s t)
    (hu : t.Still u) : Tried memory entry offset bytes s u :=
  h.imp hu.held_eq.trans (·.trans_still hu)

private theorem programFlash_ends {bytes : Bytes} (hregion : Region (s.flash d).geometry address entry.size)
    (hd : memory.device = .flash d) (ha : entry.location = .flash address)
    (hin : offset + bytes.length ≤ entry.size) (hne : bytes ≠ []) (hpos : 0 < (s.flash d).geometry.granule) :
    (onFlash d (do
      FlashLink.write (address + offset) bytes
      FlashLink.awaitReady)).Ends s
      (fun _ t => Programmed memory entry offset bytes s t ∧ t.buffer = s.buffer)
      (fun _ t => Touched memory entry s t ∧
        ((s.flash d).Aligned (address + offset) bytes → s.Faulted t) ∧ Tried memory entry offset bytes s t) False := by
  have hb := hregion.base_le
  have he := hregion.le_stop
  have hlen := (s.flash d).contents_length
  have htakes : (s.flash d).Takes (address + offset) bytes := by
    refine ⟨?_, hne, hpos⟩
    rw [Geometry.contains_iff]
    omega
  have hstart : address + offset - (s.flash d).geometry.base =
      address - (s.flash d).geometry.base + offset := Nat.sub_add_comm hb
  generalize hpatch : List.zipWith (· &&& ·)
    (Bytes.slice (s.held memory entry) offset bytes.length) bytes = patch
  have hpatchlen : patch.length = bytes.length := by
    rw [← hpatch, List.length_zipWith, Bytes.length_slice, held_flash hd ha, Bytes.length_slice]
    omega
  have hprogram : ((s.flash d).program (address + offset) bytes htakes.inside).contents =
      Bytes.splice (s.flash d).contents (address - (s.flash d).geometry.base + offset) patch := by
    rw [← hpatch, held_flash hd ha, Bytes.slice_slice hin]
    simp only [Flash.program, hstart]
  have hprogrammed : ∀ link : FlashLink, (s.flashLink d).Keeps link →
      ((s.flash d).program (address + offset) bytes htakes.inside).Alike link.device →
      Programmed memory entry offset bytes s (s.withFlash d link) := by
    intro link hk ha'
    refine ⟨patch, hpatchlen, ?_, ?_⟩
    · intro i hi hclear
      rw [← hpatch]
      refine Bytes.getElem?_and_of_clear ?_ ?_
      · rw [Bytes.length_slice, held_flash hd ha, Bytes.length_slice]
        omega
      · rwa [Bytes.getElem?_slice, if_pos hi]
    · exact patched_withFlash hregion hd ha hk ha'.geometry (by omega) (ha'.contents.trans hprogram)
  refine onFlash_ends.mpr ((FlashLink.program_ends htakes).imp ?_ ?_ id)
  · exact fun _ link hended => ⟨hprogrammed link hended.1 hended.2.2, rfl⟩
  · intro _ link hended
    obtain ⟨hk, hdevice, hf⟩ := hended
    have hfault : (s.flash d).Aligned (address + offset) bytes → s.Faulted (s.withFlash d link) := fun haligned =>
      ⟨.flash d, by rw [faultsOn_withFlash]; exact hf haligned⟩
    rcases hdevice with hsame | ha'
    · have hstill := withFlash_still hk (by rw [hsame]; rfl) (by rw [hsame]; rfl)
      exact ⟨hstill.touched, hfault, Or.inl hstill.held_eq⟩
    · exact ⟨(hprogrammed link hk ha').touched, hfault, Or.inr (hprogrammed link hk ha')⟩

private theorem programFile_ends {bytes : Bytes} (hs : s.InOrder)
    (hl : s.lookup? slot = .ok (memory, entry)) (hd : memory.device = .files f)
    (hp : entry.location = .file path) (hin : offset + bytes.length ≤ entry.size) :
    (writeFile slot f path offset bytes).Ends s
      (fun _ t => Programmed memory entry offset bytes s t ∧ t.buffer = s.buffer)
      (fun _ t => Touched memory entry s t ∧ s.Faulted t ∧ Tried memory entry offset bytes s t) False := by
  simp only [writeFile]
  refine (patchFile_ends hs hl hd hp hin fun link handle hpath => FileLink.write_ends hpath).imp ?_
    (fun _ _ h => ⟨h.1, h.2.1, Or.inl h.2.2⟩) id
  intro _ t hended
  obtain ⟨hpatch, hbuffer⟩ := hended
  exact ⟨⟨bytes, rfl, fun _ _ _ => rfl, hpatch⟩, hbuffer⟩

/-- The bytes of a full granule go to its slot. That they do not is the fault of a device, if the
slot is one of whole granules. A granule starts inside the device, so its address is in reach. -/
theorem writeOut_ends (hs : s.InOrder) (hl : s.lookup? s.buffer.target = .ok (memory, entry))
    (hgranule : s.buffer.granule = s.devices.granule memory.device)
    (hfull : s.buffer.bytes.length = s.buffer.granule) :
    writeOut.Ends s
      (fun _ t => Programmed memory entry s.buffer.offset s.buffer.bytes s t ∧
        t.buffer = s.buffer.advanced)
      (fun _ t => Touched memory entry s t ∧ t.buffer.bytes = [] ∧
        (s.Granular memory entry → s.buffer.offset % s.buffer.granule = 0 →
          s.buffer.offset < entry.size → s.Faulted t) ∧
        Tried memory entry s.buffer.offset s.buffer.bytes s t) False := by
  have hm := (getElem?_of_lookup? hl).1
  have hpos := hs.sound.granule_pos _ _ _ hl
  have hne : s.buffer.bytes ≠ [] := by
    intro hnil
    rw [hnil, List.length_nil] at hfull
    omega
  simp only [writeOut]
  rw [Action.ends_get_bind, ends_lookup_bind hl]
  by_cases hout : entry.size < s.buffer.offset + s.buffer.granule
  · simp only [if_pos hout]
    refine ⟨(still_buffer s _).touched, rfl, fun hgranular hoffset hlt => ?_, Or.inl (still_buffer s _).held_eq⟩
    obtain ⟨a, ha⟩ := Nat.dvd_of_mod_eq_zero hoffset
    obtain ⟨b, hb⟩ := Nat.dvd_of_mod_eq_zero (hgranule ▸ hgranular.size)
    rw [ha, hb] at hlt
    have hle : s.buffer.granule * (a + 1) ≤ s.buffer.granule * b :=
      Nat.mul_le_mul_left _ (Nat.lt_of_mul_lt_mul_left hlt)
    rw [Nat.mul_succ] at hle
    omega
  · simp only [if_neg hout]
    have hin : s.buffer.offset + s.buffer.bytes.length ≤ entry.size := by omega
    have hadvance : ∀ t : Storage n k,
        Programmed memory entry s.buffer.offset s.buffer.bytes s t ∧ t.buffer = s.buffer →
        Programmed memory entry s.buffer.offset s.buffer.bytes s { t with buffer := t.buffer.advanced } ∧
          t.buffer.advanced = s.buffer.advanced := by
      intro t hended
      obtain ⟨hprogrammed, hbuffer⟩ := hended
      exact ⟨hprogrammed.trans_still (still_buffer t _), congrArg GranuleBuffer.advanced hbuffer⟩
    rcases hs.sound.location hl with ⟨d, address, hd, ha⟩ | ⟨f, path, hd, hp⟩
    · have hregion := hs.sound.flash hl hd ha
      have he := hregion.le_stop
      have hstop := (s.flash d).geometry.stop_le
      simp only [hd, ha]
      refine Action.word_bind (fun hword => by omega) ?_
      · rw [hd] at hgranule hpos
        refine (guardingSlot_ends hs hm (fun _ _ hf hstill => ⟨fun haligned => hstill.faulted_left (hf.1 haligned),
          hf.2.trans_still hstill⟩) (programFlash_ends hregion hd ha hin hne hpos)).bind ?_ ?_ False.elim
        · exact fun _ t h => hadvance t h
        · intro _ t hended
          obtain ⟨hfails, ⟨hf, htried⟩, htail⟩ := hended
          refine ⟨⟨hfails.changes, htail⟩, hfails.dropped, fun hgranular hoffset _ => hf ⟨?_, ?_⟩, htried⟩
          · have hsum : address + s.buffer.offset - (s.flash d).geometry.base =
                address - (s.flash d).geometry.base + s.buffer.offset := Nat.sub_add_comm hregion.base_le
            have hstart := Nat.dvd_of_mod_eq_zero (hgranular.start d address hd ha)
            rw [hgranule] at hoffset
            rw [hsum]
            exact Nat.mod_eq_zero_of_dvd (Nat.dvd_add hstart (Nat.dvd_of_mod_eq_zero hoffset))
          · rw [hfull, hgranule]
            exact Nat.mod_self _
    · simp only [hd, hp]
      refine (guardingSlot_ends hs hm (fun _ _ hf hstill => ⟨hstill.faulted_left hf.1, hf.2.trans_still hstill⟩)
        (programFile_ends hs hl hd hp hin)).bind ?_ ?_ False.elim
      · exact fun _ t h => hadvance t h
      · intro _ t hended
        obtain ⟨hfails, ⟨hf, htried⟩, htail⟩ := hended
        exact ⟨⟨hfails.changes, htail⟩, hfails.dropped, fun _ _ _ => hf, htried⟩

end FirmwareUpdate.Storage
