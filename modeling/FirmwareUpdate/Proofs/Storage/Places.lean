import FirmwareUpdate.Proofs.Device.FileStore
import FirmwareUpdate.Proofs.Device.Flash
import FirmwareUpdate.Proofs.Topology.Memory
import FirmwareUpdate.Storage.State

/-! Where a storage keeps its bytes: the places on its devices, which of them a slot takes up, and
what may change from one state to a later one. -/
namespace FirmwareUpdate
variable {n k : Nat}

/-- One byte of a flash device, or one file. -/
inductive Place (n k : Nat) where
  | cell (device : Fin n) (index : Nat)
  | file (device : Fin k) (path : String)

namespace Storage
variable {s t u : Storage n k} {memory memory' : Memory n k} {entry entry' : Slot} {slot slot' : SlotId}

def flashLink (s : Storage n k) (device : Fin n) : FlashLink := s.devices.flashes.get device

def fileLink (s : Storage n k) (device : Fin k) : FileLink := s.devices.stores.get device

def flash (s : Storage n k) (device : Fin n) : Flash := (s.flashLink device).device

def store (s : Storage n k) (device : Fin k) : FileStore := (s.fileLink device).device

def valueAt (s : Storage n k) : Place n k → Option Bytes
  | .cell device i => (s.flash device).contents[i]?.map ([·])
  | .file device path => (s.store device).file? path

/-- A cell whose value is the same holds the same byte. -/
theorem contents_of_valueAt {d : Fin n} {i : Nat} (h : t.valueAt (.cell d i) = s.valueAt (.cell d i)) :
    (t.flash d).contents[i]? = (s.flash d).contents[i]? :=
  Option.map_injective (fun _ _ hxy => List.singleton_inj.mp hxy) h

/-- Calls on a device that failed although nothing was wrong with the request. -/
def faultsOn (s : Storage n k) : DeviceId n k → Nat
  | .flash device => (s.flashLink device).faults
  | .files device => (s.fileLink device).faults

def scheduleOf (s : Storage n k) : DeviceId n k → Schedule
  | .flash device => (s.flashLink device).schedule
  | .files device => (s.fileLink device).schedule

/-- The places of a slot. -/
def within (s : Storage n k) (memory : Memory n k) (entry : Slot) : Place n k → Prop
  | .cell device i => memory.device = .flash device ∧ ∃ address, entry.location = .flash address ∧
      address - (s.flash device).geometry.base ≤ i ∧
      i < address - (s.flash device).geometry.base + entry.size
  | .file device path => memory.device = .files device ∧ entry.location = .file path

/-- The bytes of a slot. A file counts as erased past its end, and so does one that is missing. -/
def held (s : Storage n k) (memory : Memory n k) (entry : Slot) : Bytes :=
  match memory.device, entry.location with
  | .flash device, .flash address => Bytes.slice (s.flash device).contents
      (address - (s.flash device).geometry.base) entry.size
  | .files device, .file path =>
      (Bytes.extend (((s.store device).file? path).getD []) entry.size).take entry.size
  | _, _ => []

/-- What the file of a slot holds past the size of the slot. -/
def tail (s : Storage n k) (memory : Memory n k) (entry : Slot) : Bytes :=
  match memory.device, entry.location with
  | .files device, .file path => (((s.store device).file? path).getD []).drop entry.size
  | _, _ => []

/-- The slots that are listed are those that can be looked up. -/
theorem lookup?_of_mem_slots (h : (slot, entry) ∈ s.slots) : ∃ memory, s.lookup? slot = .ok (memory, entry) := by
  obtain ⟨⟨memory, m⟩, hm, hmem⟩ := List.mem_flatMap.mp h
  obtain ⟨⟨entry', i⟩, hi, heq⟩ := List.mem_map.mp hmem
  cases heq
  rw [List.mem_zipIdx_iff_getElem?] at hm hi
  refine ⟨memory, ?_⟩
  simp only at hm hi
  simp only [lookup?, hm, hi]

/-- A slot that is looked up is where its name says. -/
theorem getElem?_of_lookup? (h : s.lookup? slot = .ok (memory, entry)) :
    s.memories[slot.memory]? = some memory ∧ memory.slots[slot.index]? = some entry := by
  unfold lookup? at h
  split at h
  · cases h
  · rename_i m hm
    split at h
    · cases h
    · rename_i entry' he
      cases h
      exact ⟨hm, he⟩

/-- Memories that are each on a device of their own are told apart by it. -/
theorem index_of_device (hdistinct : (s.memories.map (·.device)).Nodup) {index i : Nat}
    (hm : s.memories[index]? = some memory) (hm' : s.memories[i]? = some memory')
    (hdevice : memory'.device = memory.device) : i = index := by
  have hmap : (s.memories.map (·.device))[i]? = (s.memories.map (·.device))[index]? := by
    rw [List.getElem?_map, List.getElem?_map, hm, hm', Option.map_some, Option.map_some, hdevice]
  refine (List.getElem?_inj ?_ hdistinct).mp hmap
  rw [List.length_map]
  exact (List.getElem?_eq_some_iff.mp hm').1

/-- What no step changes. -/
structure SameSetup (s t : Storage n k) : Prop where
  memories : t.memories = s.memories
  geometry : ∀ device, (t.flash device).geometry = (s.flash device).geometry
  granule : ∀ device, (t.store device).granule = (s.store device).granule
  schedule : ∀ device, t.scheduleOf device = s.scheduleOf device

namespace SameSetup

theorem refl (s : Storage n k) : s.SameSetup s := ⟨rfl, fun _ => rfl, fun _ => rfl, fun _ => rfl⟩

theorem trans (h : s.SameSetup t) (h' : t.SameSetup u) : s.SameSetup u :=
  ⟨h'.memories.trans h.memories, fun d => (h'.geometry d).trans (h.geometry d),
    fun d => (h'.granule d).trans (h.granule d), fun d => (h'.schedule d).trans (h.schedule d)⟩

/-- Which slot a name stands for depends on the memories alone. -/
theorem lookup? (h : s.SameSetup t) (slot : SlotId) : t.lookup? slot = s.lookup? slot := by
  simp only [Storage.lookup?]
  rw [h.memories]

/-- The granule of a device stays the same. -/
theorem deviceGranule (h : s.SameSetup t) (device : DeviceId n k) :
    t.devices.granule device = s.devices.granule device := by
  cases device with
  | flash d => exact congrArg Geometry.granule (h.geometry d)
  | files d => exact h.granule d

/-- Storages of one setup have devices that are alike. -/
theorem alike (h : s.SameSetup t) : s.devices.Alike t.devices := ⟨h.geometry, h.deviceGranule⟩

/-- The check on a slot comes to the same on the devices of one setup. -/
theorem checkSlot (h : s.SameSetup t) (device : DeviceId n k) (plan : SlotPlan) :
    Memory.checkSlot t.devices device plan = Memory.checkSlot s.devices device plan :=
  Memory.checkSlot_alike h.alike device plan

/-- Which places belong to a slot depends on the setup alone. -/
theorem within_iff (h : s.SameSetup t) (p : Place n k) :
    t.within memory entry p ↔ s.within memory entry p := by
  cases p with
  | cell d i => simp only [within, h.geometry d]
  | file d path => exact Iff.rfl

end SameSetup

/-- The slots lie on their devices the way registering checks it, and no two of them share a
place. -/
structure Sound (s : Storage n k) : Prop where
  fits : ∀ slot memory entry, s.lookup? slot = .ok (memory, entry) →
    Memory.checkSlot s.devices memory.device entry.toSlotPlan = .ok ()
  granule_pos : ∀ slot memory entry, s.lookup? slot = .ok (memory, entry) →
    0 < s.devices.granule memory.device
  apart : ∀ slot memory entry slot' memory' entry', s.lookup? slot = .ok (memory, entry) →
    s.lookup? slot' = .ok (memory', entry') → slot ≠ slot' →
    ∀ p, s.within memory entry p → ¬s.within memory' entry' p

private theorem Sound.congr (h : s.SameSetup t) (hs : s.Sound) : t.Sound := by
  refine ⟨?_, ?_, ?_⟩
  · intro slot memory entry hl
    rw [h.checkSlot]
    exact hs.fits slot memory entry (h.lookup? slot ▸ hl)
  · intro slot memory entry hl
    rw [h.deviceGranule]
    exact hs.granule_pos slot memory entry (h.lookup? slot ▸ hl)
  · intro slot memory entry slot' memory' entry' hl hl' hne p hp hp'
    exact hs.apart slot memory entry slot' memory' entry' (h.lookup? slot ▸ hl)
      (h.lookup? slot' ▸ hl') hne p ((h.within_iff p).mp hp) ((h.within_iff p).mp hp')

/-- A file that is held open for a slot is the slot's own. -/
def HandlesBound (s : Storage n k) : Prop :=
  ∀ file ∈ s.openFiles, ∃ memory entry device path, s.lookup? file.slot = .ok (memory, entry) ∧
    memory.device = .files device ∧ entry.location = .file path ∧
    (s.store device).pathOf? file.handle = some path

/-- The slots lie as they were registered, and each open file is one of them. -/
structure InOrder (s : Storage n k) : Prop where
  sound : s.Sound
  handles : s.HandlesBound

/-- From `s` to a later state `t` only the contents of places in `P` may change. -/
structure Changes (P : Place n k → Prop) (s t : Storage n k) : Prop where
  setup : s.SameSetup t
  faults : ∀ device, s.faultsOn device ≤ t.faultsOn device
  handles : s.InOrder → t.HandlesBound
  same : ∀ p, ¬P p → t.valueAt p = s.valueAt p

/-- Some call on the device failed although nothing was wrong with the request. -/
def FaultedOn (device : DeviceId n k) (s t : Storage n k) : Prop := s.faultsOn device < t.faultsOn device

/-- Some call failed although nothing was wrong with the request. -/
def Faulted (s t : Storage n k) : Prop := ∃ device, s.faultsOn device < t.faultsOn device

/-- A fault of one device is a fault. -/
theorem FaultedOn.faulted {device : DeviceId n k} (h : FaultedOn device s t) : s.Faulted t := ⟨device, h⟩

/-- No byte changes. -/
abbrev Still (s t : Storage n k) : Prop := Changes (fun _ => False) s t

namespace Changes
variable {P Q : Place n k → Prop}

theorem refl (P : Place n k → Prop) (s : Storage n k) : Changes P s s :=
  ⟨SameSetup.refl s, fun _ => Nat.le_refl _, fun h => h.handles, fun _ _ => rfl⟩

/-- Changes of bytes leave a storage in order. -/
theorem inOrder (h : Changes P s t) (hs : s.InOrder) : t.InOrder :=
  ⟨hs.sound.congr h.setup, h.handles hs⟩

theorem trans (h : Changes P s t) (h' : Changes P t u) : Changes P s u :=
  ⟨h.setup.trans h'.setup, fun d => Nat.le_trans (h.faults d) (h'.faults d),
    fun hs => h'.handles (h.inOrder hs), fun p hp => (h'.same p hp).trans (h.same p hp)⟩

/-- Where no more than some places change, no more than a larger number of them does. -/
theorem mono (h : Changes P s t) (hPQ : ∀ p, P p → Q p) : Changes Q s t :=
  ⟨h.setup, h.faults, h.handles, fun p hp => h.same p fun hP => hp (hPQ p hP)⟩

/-- A fault after the changes is a fault since before them. -/
theorem faulted_right (h : Changes P s t) (hf : t.Faulted u) : s.Faulted u := by
  obtain ⟨device, hlt⟩ := hf
  exact ⟨device, Nat.lt_of_le_of_lt (h.faults device) hlt⟩

/-- A fault before the changes is a fault until after them. -/
theorem faulted_left (h : Changes P t u) (hf : s.Faulted t) : s.Faulted u := by
  obtain ⟨device, hlt⟩ := hf
  exact ⟨device, Nat.lt_of_lt_of_le hlt (h.faults device)⟩

/-- A fault of one device after the changes is one since before them. -/
theorem faultedOn_right {device : DeviceId n k} (h : Changes P s t) (hf : FaultedOn device t u) :
    FaultedOn device s u := Nat.lt_of_le_of_lt (h.faults device) hf

/-- A fault of one device before the changes is one until after them. -/
theorem faultedOn_left {device : DeviceId n k} (h : Changes P t u) (hf : FaultedOn device s t) :
    FaultedOn device s u := Nat.lt_of_lt_of_le hf (h.faults device)

/-- Changes of bytes leave the names of slots alone. -/
theorem lookup? (h : Changes P s t) (hl : s.lookup? slot = .ok (memory, entry)) :
    t.lookup? slot = .ok (memory, entry) := (h.setup.lookup? slot).trans hl

end Changes

/-- Where no byte changes, none does outside of any places. -/
theorem Still.changes {P : Place n k → Prop} (h : s.Still t) : Changes P s t := h.mono fun _ h => h.elim

/-- The bytes of a slot hang on its own places only. -/
theorem Changes.held_eq {P : Place n k → Prop} (h : Changes P s t)
    (hp : ∀ p, s.within memory entry p → ¬P p) : t.held memory entry = s.held memory entry := by
  simp only [held]
  cases hd : memory.device with
  | flash d =>
    cases hl : entry.location with
    | flash address =>
      simp only
      apply List.ext_getElem?
      intro i
      rw [Bytes.getElem?_slice, Bytes.getElem?_slice, h.setup.geometry d]
      split
      · exact contents_of_valueAt (h.same (.cell d (address - (s.flash d).geometry.base + i))
          (hp _ ⟨hd, address, hl, by omega, by omega⟩))
      · rfl
    | file path => rfl
  | files d =>
    cases hl : entry.location with
    | flash address => rfl
    | file path =>
      have hfile := h.same (.file d path) (hp _ ⟨hd, hl⟩)
      simp only [valueAt] at hfile
      simp only [hfile]

/-- Where no byte changes, a slot holds what it held. -/
theorem Still.held_eq (h : s.Still t) : t.held memory entry = s.held memory entry :=
  Changes.held_eq h fun _ _ h => h

/-- What is behind a slot is the same where it cannot change. -/
theorem Changes.tail_eq {P : Place n k → Prop} (h : Changes P s t)
    (hp : ∀ p, s.within memory entry p → ¬P p) : t.tail memory entry = s.tail memory entry := by
  simp only [tail]
  split
  · rename_i d path hd hl
    have hfile := h.same (.file d path) (hp _ ⟨hd, hl⟩)
    simp only [valueAt] at hfile
    rw [hfile]
  · rfl

/-- Where no byte changes, neither does what is behind a slot. -/
theorem Still.tail_eq (h : s.Still t) : t.tail memory entry = s.tail memory entry :=
  Changes.tail_eq h fun _ _ h => h

/-! ### One device at a time -/

def withFlash (s : Storage n k) (device : Fin n) (link : FlashLink) : Storage n k :=
  { s with devices.flashes := s.devices.flashes.set device link device.isLt }

def withStore (s : Storage n k) (device : Fin k) (link : FileLink) : Storage n k :=
  { s with devices.stores := s.devices.stores.set device link device.isLt }

private theorem get_set {α : Type} {m : Nat} (v : Vector α m) (i j : Fin m) (a : α) :
    (v.set i a i.isLt).get j = if j = i then a else v.get j := by
  show (v.set i a i.isLt)[j.val] = if j = i then a else v[j.val]
  rw [Vector.getElem_set]
  simp only [Fin.val_inj, eq_comm (a := i)]

/-- A flash device that is set is found as it was set, and the others as they were. -/
theorem flashLink_withFlash (s : Storage n k) (d d' : Fin n) (link : FlashLink) :
    (s.withFlash d link).flashLink d' = if d' = d then link else s.flashLink d' :=
  get_set s.devices.flashes d d' link

/-- A store that is set is found as it was set, and the others as they were. -/
theorem fileLink_withStore (s : Storage n k) (d d' : Fin k) (link : FileLink) :
    (s.withStore d link).fileLink d' = if d' = d then link else s.fileLink d' :=
  get_set s.devices.stores d d' link

@[simp] theorem flash_withFlash (s : Storage n k) (d : Fin n) (link : FlashLink) :
    (s.withFlash d link).flash d = link.device := by
  rw [flash, flashLink_withFlash, if_pos rfl]

@[simp] theorem store_withStore (s : Storage n k) (d : Fin k) (link : FileLink) :
    (s.withStore d link).store d = link.device := by
  rw [store, fileLink_withStore, if_pos rfl]

@[simp] theorem faultsOn_withFlash (s : Storage n k) (d : Fin n) (link : FlashLink) :
    (s.withFlash d link).faultsOn (.flash d) = link.faults := by
  rw [faultsOn, flashLink_withFlash, if_pos rfl]

@[simp] theorem faultsOn_withStore (s : Storage n k) (d : Fin k) (link : FileLink) :
    (s.withStore d link).faultsOn (.files d) = link.faults := by
  rw [faultsOn, fileLink_withStore, if_pos rfl]

/-- A flash device of the same shape and schedule leaves the setup as it is. -/
theorem SameSetup.withFlash {d : Fin n} {link : FlashLink} (hs : link.schedule = (s.flashLink d).schedule)
    (hg : link.device.geometry = (s.flash d).geometry) : s.SameSetup (s.withFlash d link) := by
  refine ⟨rfl, ?_, fun _ => rfl, ?_⟩
  · intro d'
    rw [flash, flashLink_withFlash]
    split
    · rename_i h
      rw [h, hg]
    · rfl
  · intro device
    cases device with
    | flash d' =>
      simp only [scheduleOf, flashLink_withFlash]
      split
      · rename_i h
        rw [h, hs]
      · rfl
    | files d' => rfl

/-- A store of the same granule and schedule leaves the setup as it is. -/
theorem SameSetup.withStore {d : Fin k} {link : FileLink} (hs : link.schedule = (s.fileLink d).schedule)
    (hg : link.device.granule = (s.store d).granule) : s.SameSetup (s.withStore d link) := by
  refine ⟨rfl, fun _ => rfl, ?_, ?_⟩
  · intro d'
    rw [store, fileLink_withStore]
    split
    · rename_i h
      rw [h, hg]
    · rfl
  · intro device
    cases device with
    | flash d' => rfl
    | files d' =>
      simp only [scheduleOf, fileLink_withStore]
      split
      · rename_i h
        rw [h, hs]
      · rfl

/-- A flash device changes the storage where its bytes change. -/
theorem withFlash_changes {P : Place n k → Prop} {d : Fin n} {link : FlashLink}
    (hk : (s.flashLink d).Keeps link) (hg : link.device.geometry = (s.flash d).geometry)
    (hc : ∀ i, ¬P (.cell d i) → link.device.contents[i]? = (s.flash d).contents[i]?) :
    Changes P s (s.withFlash d link) := by
  refine ⟨.withFlash hk.schedule hg, ?_, fun hs => hs.handles, ?_⟩
  · intro device
    cases device with
    | flash d' =>
      simp only [faultsOn, flashLink_withFlash]
      split
      · rename_i h
        rw [h]
        exact hk.faults
      · exact Nat.le_refl _
    | files d' => exact Nat.le_refl _
  · intro p hp
    cases p with
    | cell d' i =>
      simp only [valueAt, flash, flashLink_withFlash]
      split
      · rename_i h
        subst h
        exact congrArg (Option.map ([·])) (hc i hp)
      · rfl
    | file d' path => rfl

/-- A store changes the storage where its files change, if the files that are held open stay with their slots. -/
theorem withStore_changes {P : Place n k → Prop} {d : Fin k} {link : FileLink}
    (hk : (s.fileLink d).Keeps link) (hg : link.device.granule = (s.store d).granule)
    (hf : ∀ path, ¬P (.file d path) → link.device.file? path = (s.store d).file? path)
    (hh : ∀ file ∈ s.openFiles, ∀ path, (s.store d).pathOf? file.handle = some path →
      (∃ memory entry, s.lookup? file.slot = .ok (memory, entry) ∧ memory.device = .files d ∧
        entry.location = .file path) → link.device.pathOf? file.handle = some path) :
    Changes P s (s.withStore d link) := by
  refine ⟨.withStore hk.schedule hg, ?_, ?_, ?_⟩
  · intro device
    cases device with
    | flash d' => exact Nat.le_refl _
    | files d' =>
      simp only [faultsOn, fileLink_withStore]
      split
      · rename_i h
        rw [h]
        exact hk.faults
      · exact Nat.le_refl _
  · intro hs file hfile
    obtain ⟨memory, entry, d', path, hl, hd, hp, hpath⟩ := hs.handles file hfile
    refine ⟨memory, entry, d', path, hl, hd, hp, ?_⟩
    rw [store, fileLink_withStore]
    split
    · rename_i h
      subst h
      exact hh file hfile path hpath ⟨memory, entry, hl, hd, hp⟩
    · exact hpath
  · intro p hp
    cases p with
    | cell d' i => rfl
    | file d' path =>
      simp only [valueAt, store, fileLink_withStore]
      split
      · rename_i h
        subst h
        exact hf path hp
      · rfl

/-- A flash device with the same bytes changes nothing. -/
theorem withFlash_still {d : Fin n} {link : FlashLink} (hk : (s.flashLink d).Keeps link)
    (hg : link.device.geometry = (s.flash d).geometry)
    (hc : link.device.contents = (s.flash d).contents) : s.Still (s.withFlash d link) :=
  withFlash_changes hk hg fun i _ => congrArg (·[i]?) hc

/-- A store with the same files and handles changes nothing. -/
theorem withStore_still {d : Fin k} {link : FileLink} (hk : (s.fileLink d).Keeps link)
    (hg : link.device.granule = (s.store d).granule) (hf : link.device.files = (s.store d).files)
    (hh : link.device.handles = (s.store d).handles) : s.Still (s.withStore d link) := by
  apply withStore_changes hk hg
  · intro path _
    rw [FileStore.file?, hf, FileStore.file?]
  · intro file _ path hbound _
    rwa [FileStore.pathOf?, hh]

/-- A call on a flash device ends for the storage as it does for the device. -/
theorem onFlash_ends {α : Type} {d : Fin n} {call : FlashLink.Call α} {done : α → Storage n k → Prop}
    {failed : DeviceError → Storage n k → Prop} {trapped : Prop} :
    (onFlash d call).Ends s done failed trapped ↔
      call.Ends (s.flashLink d) (fun a link => done a (s.withFlash d link))
        (fun e link => failed e (s.withFlash d link)) trapped :=
  Action.ends_focus call

/-- A call on a store ends for the storage as it does for the store. -/
theorem onStore_ends {α : Type} {d : Fin k} {call : FileLink.Call α} {done : α → Storage n k → Prop}
    {failed : DeviceError → Storage n k → Prop} {trapped : Prop} :
    (onStore d call).Ends s done failed trapped ↔
      call.Ends (s.fileLink d) (fun a link => done a (s.withStore d link))
        (fun e link => failed e (s.withStore d link)) trapped :=
  Action.ends_focus call

/-- The buffer is not kept on a device. -/
theorem still_buffer (s : Storage n k) (buffer : GranuleBuffer) : s.Still { s with buffer } :=
  ⟨⟨rfl, fun _ => rfl, fun _ => rfl, fun _ => rfl⟩, fun _ => Nat.le_refl _, fun h => h.handles, fun _ _ => rfl⟩

/-- Neither are the files that are held open. -/
theorem still_of_devices (hd : t.devices = s.devices) (hm : t.memories = s.memories) (ho : t.openFiles = []) :
    s.Still t := by
  obtain ⟨devices, memories, openFiles, buffer⟩ := t
  cases hd
  cases hm
  cases ho
  exact ⟨⟨rfl, fun _ => rfl, fun _ => rfl, fun _ => rfl⟩, fun _ => Nat.le_refl _, fun _ => nofun, fun _ _ => rfl⟩

end Storage
end FirmwareUpdate
