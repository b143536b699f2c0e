import FirmwareUpdate.Proofs.Boot.Topology
import FirmwareUpdate.Proofs.Device.Ready
import FirmwareUpdate.Proofs.Storage.Isolation
import FirmwareUpdate.Proofs.Storage.Positions

/-! Which addresses are formed. None goes past the end of a device, so only on a device that ends with the address space
is there one that has no word: the address after the last sector, where an erase ends, and that after the last slot,
where nothing is left to read. -/
namespace FirmwareUpdate
variable {n k : Nat}

namespace Storage
variable {s : Storage n k} {slot : SlotId} {memory : Memory n k} {entry : Slot} {d : Fin n}
  {address offset length : Nat}

/-- Whether a read in a slot on flash traps is only a matter of the address it starts at. -/
theorem read_reach (hl : s.lookup? slot = .ok (memory, entry)) (hd : memory.device = .flash d)
    (ha : entry.location = .flash address) (hin : offset + length ≤ entry.size) :
    (read slot offset length).Ends s (fun _ _ => address + offset < UInt32.size)
      (fun _ _ => address + offset < UInt32.size) (UInt32.size ≤ address + offset) := by
  simp only [read]
  rw [ends_lookup_bind hl]
  simp only [requireInside, if_pos hin, Action.ends_pure_bind, hd, ha, Action.word]
  split
  · rename_i hlt
    have hguarded : Action.Preserves s.SameSetup False
        (guarding slot.memory (onFlash d (FlashLink.read (address + offset) length)) : Op n k Bytes) :=
      tended_setup.guarding (tended_setup.readFlash _ _ _)
    rw [Action.ends_pure_bind]
    exact (hguarded s (.refl s)).imp (fun _ _ _ => hlt) (fun _ _ _ => hlt) False.elim
  · rename_i hnot
    exact Nat.not_lt.mp hnot

/-- Whether an erase on a device that is ready traps is only a matter of where the last sector ends. -/
theorem erase_reach (hl : s.lookup? slot = .ok (memory, entry)) (hd : memory.device = .flash d)
    (ha : entry.location = .flash address) (hregion : Region (s.flash d).geometry address entry.size)
    (hin : offset + length ≤ entry.size) (hready : (s.flashLink d).Ready)
    (hsector : offset % (s.flash d).geometry.sector = 0) (hne : length ≠ 0) :
    (erase slot offset length).Ends s
      (fun _ t => address + offset + s.erasedLength memory length < UInt32.size ∧
        (t.flash d).contents = Bytes.splice (s.flash d).contents (address + offset - (s.flash d).geometry.base)
          (Bytes.blank (s.erasedLength memory length)))
      (fun _ _ => False) (UInt32.size ≤ address + offset + s.erasedLength memory length) := by
  have herased : s.erasedLength memory length =
      (s.flash d).geometry.sectorsFor length * (s.flash d).geometry.sector := by
    simp only [erasedLength, hd]
  have hlength := le_erasedLength s memory length
  have hsome : (s.flash d).geometry.sectorsFor length ≠ 0 := by
    intro hzero
    rw [herased, hzero, Nat.zero_mul] at hlength
    omega
  obtain ⟨hsectors, -⟩ := hregion.atSectors hin hsector
  refine erase_of_flash hl hregion hd ha hin hne (fun hoff => absurd hsector hoff) fun _ => ?_
  rw [herased]
  have hcall : (onFlash d (FlashLink.eraseFrom ((s.flash d).geometry.sectorsFor length) (address + offset))).Ends s
      (fun _ t =>
        address + offset + (s.flash d).geometry.sectorsFor length * (s.flash d).geometry.sector < UInt32.size ∧
        (t.flash d).contents = Bytes.splice (s.flash d).contents (address + offset - (s.flash d).geometry.base)
          (Bytes.blank ((s.flash d).geometry.sectorsFor length * (s.flash d).geometry.sector)))
      (fun _ _ => False)
      (UInt32.size ≤ address + offset + (s.flash d).geometry.sectorsFor length * (s.flash d).geometry.sector) := by
    refine onFlash_ends.mpr (((FlashLink.eraseFrom_of_ready _ _ _ hready hsectors).and
      (FlashLink.eraseFrom_ends _ _ _ hsectors)).imp ?_ (fun _ _ h => h.1) fun htop => htop.1.2)
    rintro _ link ⟨hreach, -, -, -, hcontents⟩
    refine ⟨hreach.resolve_left hsome, ?_⟩
    rw [flash, flashLink_withFlash, if_pos rfl]
    exact hcontents
  exact hcall.attempt_bind (fun _ _ h => h) (fun _ _ h => h.elim) id

end Storage

namespace Engine
variable {e e' : Engine n k} {slot : SlotId} {header : Header} {l : Layout}

/-- Where the image of a header lies has been held against the size of its slot. -/
theorem layout_within (h : e.layout? slot header = .ok l) :
    ∃ entry, e.storage.slot? slot = .ok entry ∧ l.totalLength ≤ entry.size ∧
      l.payloadStart + header.size.toNat = l.digestStart := by
  simp only [layout?] at h
  by_cases hodd : e.holdsEncrypted slot = true ∧ header.size.toNat % Aes.blockLength ≠ 0
  · rw [if_pos hodd] at h
    cases h
  · rw [if_neg hodd] at h
    cases hslot : e.storage.slot? slot with
    | error cause =>
      rw [hslot] at h
      cases h
    | ok entry =>
      rw [hslot] at h
      by_cases hshort : entry.size < (e.backend.layoutOf (e.holdsEncrypted slot) header).totalLength
      · cases (if_pos hshort).symm.trans h
      · cases (if_neg hshort).symm.trans h
        refine ⟨entry, rfl, Nat.not_lt.mp hshort, ?_⟩
        simp only [Layout.payloadStart, Layout.digestStart]
        split <;> omega

/-- No address goes past the end of its device, and no offset past the end of its slot. -/
structure Addressable (e : Engine n k) : Prop where
  address : ∀ slot memory entry d address, e.storage.lookup? slot = .ok (memory, entry) → memory.device = .flash d →
    entry.location = .flash address → ∀ offset ≤ entry.size, address + offset ≤ (e.storage.flash d).geometry.stop
  sector : ∀ d address next, (e.storage.flash d).geometry.nextSector? address = some next →
    address < next ∧ next ≤ (e.storage.flash d).geometry.stop
  buffer : ∀ memory entry, e.storage.lookup? e.storage.buffer.target = .ok (memory, entry) →
    e.storage.buffer.offset ≤ entry.size
  image : ∀ slot header l, e.layout? slot header = .ok l →
    ∃ entry, e.storage.slot? slot = .ok entry ∧ l.totalLength ≤ entry.size ∧
      (∀ span ∈ spans e.chunk l.bodyLength, l.bodyStart + span.start + span.length ≤ l.digestStart) ∧
      ∀ span ∈ spans e.chunk header.size.toNat, l.payloadStart + span.start + span.length ≤ l.digestStart

private theorem lt_nextSector {g : Geometry} {address next : Nat} (h : g.nextSector? address = some next) :
    address < next := by
  unfold Geometry.nextSector? at h
  split at h
  · rename_i hcontains
    have hbase := (Geometry.contains_iff.mp hcontains).1
    cases h
    have hlt := Nat.lt_div_mul_add (a := address - g.base) g.sector_pos
    rw [Nat.add_mul, Nat.one_mul]
    omega
  · cases h

private theorem addressable_of_placed {s₀ : Storage n k} (hfits : s₀.Fits) (hsetup : s₀.SameSetup e.storage)
    (hplaced : Storage.Placed s₀ e.storage) : e.Addressable where
  address slot memory entry d address hl hd ha offset hle := by
    have hreach := hfits.reach hsetup hl hd ha
    rw [hsetup.geometry d]
    omega
  sector d address next h := ⟨lt_nextSector h, Flash.nextSector?_le h⟩
  buffer := hplaced.inside
  image slot header l h := by
    obtain ⟨entry, hslot, htotal, hpayload⟩ := layout_within h
    refine ⟨entry, hslot, htotal, fun span hspan => ?_, fun span hspan => ?_⟩
    · have hle := span_le hspan
      rw [Layout.digestStart]
      omega
    · have hle := span_le hspan
      omega

/-- In an engine with registered memories no address and no offset goes too far, whatever has been done, and nothing it
can be asked to do traps unless a device ends with the address space. There a read traps exactly if it starts after the
last address, and an erase exactly if its last sector ends there; any other erase of a device that is ready succeeds. -/
theorem addresses_within (hregistered : ∀ memory ∈ e.storage.memories, ∃ index plan device policy,
      Memory.register e.storage.devices index plan device policy = .ok memory)
    (hbuffer : e.storage.buffer = {}) {tasks : List Task} (hperforms : Performs e tasks e') :
    e'.Addressable ∧
    (∀ task : Task, (task.act : Op n k Unit).Ends e' (fun _ _ => True) (fun _ _ => True) e.storage.AtTop) ∧
    ∀ slot memory entry d address offset length, e'.storage.lookup? slot = .ok (memory, entry) →
      memory.device = .flash d → entry.location = .flash address → offset + length ≤ entry.size →
      (Storage.read slot offset length).Ends e'.storage (fun _ _ => address + offset < UInt32.size)
        (fun _ _ => address + offset < UInt32.size) (UInt32.size ≤ address + offset) ∧
      ((e'.storage.flashLink d).Ready → offset % (e'.storage.flash d).geometry.sector = 0 → length ≠ 0 →
        (Storage.erase slot offset length).Ends e'.storage
          (fun _ t => address + offset + e'.storage.erasedLength memory length < UInt32.size ∧
            (t.flash d).contents = Bytes.splice (e'.storage.flash d).contents
              (address + offset - (e'.storage.flash d).geometry.base)
              (Bytes.blank (e'.storage.erasedLength memory length)))
          (fun _ _ => False) (UInt32.size ≤ address + offset + e'.storage.erasedLength memory length)) := by
  have hfits : e.storage.Fits := Storage.fits_of_checked fun memory hmem => by
    obtain ⟨index, plan, device, policy, hregister⟩ := hregistered memory hmem
    exact Storage.checked_of_register hregister
  have hupkeep : Upkeep e e.storage.SameSetup (fun _ => True) e.storage.AtTop :=
    ⟨hfits.upkeep, fun _ _ => trivial, fun _ _ => trivial⟩
  have hplacing : Upkeep e (Storage.Placed e.storage) (fun _ => True) True :=
    ⟨hfits.placed_upkeep, fun _ _ => trivial, fun _ _ => trivial⟩
  have hstart : Storage.Placed e.storage e.storage := ⟨rfl, fun _ _ _ => by simp [hbuffer]⟩
  have hkept := hupkeep.performs hperforms ⟨.refl _, rfl, rfl, rfl, rfl⟩
  have hplaced := (hplacing.performs hperforms ⟨hstart, rfl, rfl, rfl, rfl⟩).storage
  have hfits' := hfits.congr hkept.storage
  refine ⟨addressable_of_placed hfits hkept.storage hplaced, fun task => ?_, ?_⟩
  · exact (hupkeep.task task e' hkept).imp (fun _ _ _ => trivial) (fun _ _ _ => trivial) id
  · intro slot memory entry d address offset length hl hd ha hin
    have hregion : Storage.Region (e'.storage.flash d).geometry address entry.size :=
      Storage.region_of_checkSlot (hd ▸ hfits'.slots slot memory entry hl) ha
    exact ⟨Storage.read_reach hl hd ha hin, Storage.erase_reach hl hd ha hregion hin⟩

-- The last 128 bytes that have an address, in two sectors.
private def topGeometry : Geometry := ⟨4294967168, 128, 64, 4, by decide, by decide, by decide⟩

private def topPlan : MemoryPlan := ⟨.primary, .flash, [⟨.flash 4294967168, 128⟩], by decide⟩

private def topMemory : Memory 1 0 := ⟨.primary, Sample.device, [⟨⟨.flash 4294967168, 128⟩, .theApplication, 0⟩]⟩

private def topEngine : Engine 1 0 :=
  { storage := { devices := Sample.alone (.blank topGeometry), memories := [topMemory] }
    policy := {}
    tuning := {}
    key := .empty
    backend := {} }

private theorem register_top :
    Memory.register topEngine.storage.devices 0 topPlan Sample.device {} = .ok topMemory := by
  with_unfolding_all rfl

/-- On a device that ends with the address space the first of two sectors is erased. -/
theorem sample_addresses_within : ∃ e' : Engine 1 0, Performs topEngine [.onStorage .init] e' ∧ e'.Addressable ∧
    ∃ t, Storage.erase ⟨0, 0⟩ 0 64 e'.storage = .ok () t := by
  let e' : Engine 1 0 := (Task.onStorage .init).act.after topEngine
  have hperforms : Performs topEngine [.onStorage .init] e' :=
    .next _ _ _ e' e' (Action.leaves_of_passes (by decide +kernel)) (.none e')
  have hregistered : ∀ memory ∈ topEngine.storage.memories, ∃ index plan device policy,
      Memory.register topEngine.storage.devices index plan device policy = .ok memory := by
    intro memory hmem
    obtain rfl := List.mem_singleton.mp hmem
    exact ⟨_, _, _, _, register_top⟩
  obtain ⟨haddressable, -, haccess⟩ := addresses_within hregistered rfl hperforms
  refine ⟨e', hperforms, haddressable, ?_⟩
  have hready : (e'.storage.flashLink 0).Ready := ⟨by decide +kernel, fun _ _ => rfl, by decide +kernel⟩
  have herase := (haccess ⟨0, 0⟩ topMemory _ 0 4294967168 0 64 rfl rfl rfl (by decide)).2 hready (by decide +kernel)
    (by decide)
  have hlow : ¬UInt32.size ≤ 4294967168 + 0 + e'.storage.erasedLength topMemory 64 := by decide +kernel
  obtain ⟨_, t, hok, -⟩ := (herase.imp (fun _ _ h => h) (fun _ _ h => h) hlow).exists_ok
  exact ⟨t, hok⟩

/-- To erase both of them is to ask for an address that there is not, and so is to read nothing behind them. -/
theorem top_accesses_trap :
    let s : Storage 1 0 := Storage.init.after topEngine.storage
    Memory.register topEngine.storage.devices 0 topPlan Sample.device {} = .ok topMemory ∧
      (∃ t, Storage.erase ⟨0, 0⟩ 0 128 s = .error .trap t) ∧ ∃ t, Storage.read ⟨0, 0⟩ 128 0 s = .error .trap t :=
  ⟨register_top, Action.exists_of_traps (by decide +kernel), Action.exists_of_traps (by decide +kernel)⟩

end Engine
end FirmwareUpdate
