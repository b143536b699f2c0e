import FirmwareUpdate.Proofs.Storage.Reading
import FirmwareUpdate.Proofs.Storage.Tending

/-! Whatever state a storage is in, and also where memories share a device, what it is asked to do comes to an
end: its memories and devices stay as they were set up, and only at the top of the address space is there an
address to trap on. -/
namespace FirmwareUpdate.Storage
variable {n k : Nat} {ε α : Type} {s₀ s : Storage n k} {trapped : Prop} {memory : Memory n k} {entry : Slot}
  {slot : SlotId} {offset length : Nat}

/-- Each slot is one that its device can have. -/
structure Fits (s : Storage n k) : Prop where
  slots : ∀ slot memory entry, s.lookup? slot = .ok (memory, entry) →
    Memory.checkSlot s.devices memory.device entry.toSlotPlan = .ok ()
  granule_pos : ∀ slot memory entry, s.lookup? slot = .ok (memory, entry) → 0 < s.devices.granule memory.device

/-- A sound storage fits its devices. -/
theorem Sound.toFits (h : s.Sound) : s.Fits := ⟨h.fits, h.granule_pos⟩

/-- Fitting the devices depends on the setup alone. -/
theorem Fits.congr (h : s₀.Fits) (hs : s₀.SameSetup s) : s.Fits := by
  refine ⟨fun slot memory entry hl => ?_, fun slot memory entry hl => ?_⟩
  · rw [hs.checkSlot]
    exact h.slots slot memory entry ((hs.lookup? slot).symm.trans hl)
  · rw [hs.deviceGranule]
    exact h.granule_pos slot memory entry ((hs.lookup? slot).symm.trans hl)

/-- A flash slot of a storage that fits ends no further than its device. -/
theorem Fits.reach (h : s₀.Fits) (hs : s₀.SameSetup s) (hl : s.lookup? slot = .ok (memory, entry)) {d : Fin n}
    {address : Nat} (hd : memory.device = .flash d) (ha : entry.location = .flash address) :
    address + entry.size ≤ (s₀.flash d).geometry.stop := by
  have hfits := h.slots slot memory entry ((hs.lookup? slot).symm.trans hl)
  exact (region_of_checkSlot (hd ▸ hfits) ha).le_stop

/-- A slot of a storage that fits is where its device is. -/
theorem Fits.location (h : s.Fits) (hl : s.lookup? slot = .ok (memory, entry)) :
    (∃ d address, memory.device = .flash d ∧ entry.location = .flash address) ∨
      ∃ d path, memory.device = .files d ∧ entry.location = .file path :=
  location_of_checkSlot (h.slots slot memory entry hl)

/-- What there is of a device for its driver to change. -/
abbrev FixedFlash (s₀ : Storage n k) (d : Fin n) : FlashLink → Prop :=
  Link.Fixed (fun f => f.geometry = (s₀.flash d).geometry) (s₀.scheduleOf (.flash d))

abbrev FixedStore (s₀ : Storage n k) (d : Fin k) : FileLink → Prop :=
  Link.Fixed (fun f => f.granule = (s₀.store d).granule) (s₀.scheduleOf (.files d))

/-- A call that leaves a flash device where it is leaves the setup as it is. -/
theorem onFlash_preserves {d : Fin n} {call : FlashLink.Call α}
    (h : Action.Preserves (s₀.FixedFlash d) trapped call) :
    Action.Preserves (s₀.SameSetup) trapped (onFlash d call) := by
  refine h.focus (fun s hs => ⟨hs.geometry d, hs.schedule (.flash d)⟩) fun s link hs hlink => ?_
  refine hs.trans (.withFlash ?_ (hlink.device.trans (hs.geometry d).symm))
  exact hlink.schedule.trans (hs.schedule (.flash d)).symm

/-- A call that leaves a store as it is made leaves the setup as it is. -/
theorem onStore_preserves {d : Fin k} {call : FileLink.Call α}
    (h : Action.Preserves (s₀.FixedStore d) trapped call) :
    Action.Preserves (s₀.SameSetup) trapped (onStore d call) := by
  refine h.focus (fun s hs => ⟨hs.granule d, hs.schedule (.files d)⟩) fun s link hs hlink => ?_
  refine hs.trans (.withStore ?_ (hlink.device.trans (hs.granule d).symm))
  exact hlink.schedule.trans (hs.schedule (.files d)).symm

/-- No call changes what there is of the devices. -/
theorem tended_setup : Tended (s₀.SameSetup) trapped where
  aside s t hs hd hm _ := by
    refine hs.trans ⟨hm, fun d => ?_, fun d => ?_, fun device => ?_⟩
    · simp only [flash, flashLink, hd]
    · simp only [store, fileLink, hd]
    · cases device <;> simp only [scheduleOf, flashLink, fileLink, hd]
  initFlash _ := onFlash_preserves (.bind (Link.call_preserves (.modify fun _ h => h)) fun _ =>
    FlashLink.awaitReady_preserves)
  readFlash _ _ _ := onFlash_preserves (Link.call_preserves Flash.read_keeps)
  releaseFlash _ := onFlash_preserves (Link.call_preserves (.modify fun _ h => h))
  initStore _ := onStore_preserves (Link.call_preserves (.modify fun _ h => h))
  openFile _ _ _ := onStore_preserves (Link.call_preserves FileStore.openFile_preserves)
  readFile _ _ _ _ := onStore_preserves (Link.call_preserves FileStore.read_keeps)
  closeFile _ _ := onStore_preserves (Link.call_preserves FileStore.close_preserves)
  releaseStore _ := onStore_preserves (Link.call_preserves (.modify fun _ h => h))

/-! ### Reading and writing -/

section Access
variable (hfits : s₀.Fits)
include hfits

private theorem atTop_of_reach {d : Fin n} {address : Nat} (hs : s₀.SameSetup s)
    (hl : s.lookup? slot = .ok (memory, entry)) (hd : memory.device = .flash d)
    (ha : entry.location = .flash address) (hle : offset ≤ entry.size) (hword : UInt32.size ≤ address + offset) :
    s₀.AtTop :=
  ⟨d, by have hreach := hfits.reach hs hl hd ha; omega⟩

private theorem erase_preserves :
    Action.Preserves (s₀.SameSetup) s₀.AtTop (erase slot offset length : Op n k Unit) := by
  refine erase_of_calls (fun _ _ _ _ _ => atTop_of_reach hfits) (fun d count start => ?_) ?_
  · exact tended_setup.guarding (onFlash_preserves (FlashLink.eraseFrom_preserves (fun h => ⟨d, h⟩) _ _))
  · intro s memory entry d path hs hl hd hp
    refine tended_setup.guarding (.bind tended_setup.handleFor fun handle => ?_)
    exact onStore_preserves (Link.call_preserves FileStore.erase_preserves)

private theorem write_preserves {data : Bytes} {mode : WriteMode} :
    Action.Preserves (s₀.SameSetup) s₀.AtTop (write slot offset data mode : Op n k Unit) := by
  have hbuffer : ∀ (s : Storage n k) (buffer : GranuleBuffer), s₀.SameSetup s → s₀.SameSetup { s with buffer } :=
    fun _ _ hs => ⟨hs.memories, hs.geometry, hs.granule, hs.schedule⟩
  refine write_of_writeOut hbuffer
    (writeOut_of_calls hbuffer (fun _ _ _ _ _ _ _ => atTop_of_reach hfits) ?_ ?_)
  · intro s slot memory entry d start bytes hs hl hd
    have hpos : 0 < (s₀.flash d).geometry.granule := by
      have hgranule := hfits.granule_pos _ _ _ ((hs.lookup? _).symm.trans hl)
      rwa [hd] at hgranule
    refine tended_setup.guarding (onFlash_preserves ?_)
    exact .bind (Link.call_preserves (Flash.write_preserves hpos)) fun _ => FlashLink.awaitReady_preserves
  · intro s slot memory entry d path offset bytes hs hl hd hp
    refine tended_setup.guarding (.bind tended_setup.handleFor fun handle => ?_)
    exact onStore_preserves (Link.call_preserves FileStore.write_preserves)

/-- The setup is kept whichever slots are written to. -/
theorem Fits.upkeep : Upkeep s₀ (s₀.SameSetup) (fun _ => True) s₀.AtTop where
  memories _ hs := hs.memories
  reach slot memory entry address hl ha := by
    have hchecked := hfits.slots slot memory entry hl
    cases hd : memory.device with
    | flash d =>
      exact Nat.le_trans (hfits.reach (.refl s₀) hl hd ha) (s₀.flash d).geometry.stop_le
    | files f =>
      rw [hd] at hchecked
      simp only [Memory.checkSlot, ha] at hchecked
      cases hchecked
  read _ _ _ := tended_setup.read fun _ _ _ _ _ hs hl hd ha => atTop_of_reach hfits hs hl hd ha
  write _ _ _ _ _ := write_preserves hfits
  erase _ _ _ _ := erase_preserves hfits
  dropPending := tended_setup.dropPending
  settle := tended_setup.settle
  init := tended_setup.init
  closeFiles := tended_setup.closeFiles
  release := tended_setup.release

end Access

end FirmwareUpdate.Storage
