import FirmwareUpdate.Proofs.Storage.Frame
import FirmwareUpdate.Proofs.Update.Assembly

/-! Slots are isolated from each other. Whatever is asked of a storage, in whatever order, and whichever calls
fail on the way, a byte on a device changes only as part of a slot that was to be written to. -/
namespace FirmwareUpdate.Storage
variable {n k : Nat} {s t : Storage n k} {T : SlotId → Prop}

/-- The slot is to be written to by one of the requests. -/
def Targeted (requests : List Request) (slot : SlotId) : Prop :=
  ∃ request ∈ requests, request.target? = some slot

/-- A cell of a flash device that is part of a slot in `T`. -/
def CellOf (s : Storage n k) (T : SlotId → Prop) (d : Fin n) (i : Nat) : Prop :=
  ∃ slot memory entry address, T slot ∧ s.lookup? slot = .ok (memory, entry) ∧ memory.device = .flash d ∧
    entry.location = .flash address ∧ address ≤ (s.flash d).geometry.base + i ∧
    (s.flash d).geometry.base + i < address + entry.size

/-- A file is that of a slot in `T`, and past the size of the slot it is the same in `t`. -/
def FileOf (s t : Storage n k) (T : SlotId → Prop) (d : Fin k) (path : String) : Prop :=
  ∃ slot memory entry, T slot ∧ s.lookup? slot = .ok (memory, entry) ∧ memory.device = .files d ∧
    entry.location = .file path ∧
    (((t.store d).file? path).getD []).drop entry.size = (((s.store d).file? path).getD []).drop entry.size

/-- A cell that has changed belongs to a slot that was written to. -/
theorem Confined.cell (hs : s.Sound) (h : Confined T s t) {d : Fin n} {i : Nat}
    (hi : (t.flash d).contents[i]? ≠ (s.flash d).contents[i]?) : s.CellOf T d i := by
  have hinside : s.inside T (.cell d i) :=
    Classical.byContradiction fun hno => hi (contents_of_valueAt (h.changes.same (.cell d i) hno))
  obtain ⟨slot, memory, entry, hT, hl, hd, address, ha, hlower, hupper⟩ := hinside
  have hb := (hs.flash hl hd ha).base_le
  exact ⟨slot, memory, entry, address, hT, hl, hd, ha, by omega, by omega⟩

/-- A file that has changed belongs to a slot that was written to. -/
theorem Confined.file (h : Confined T s t) {d : Fin k} {path : String}
    (hp : (t.store d).file? path ≠ (s.store d).file? path) : s.FileOf t T d path := by
  have hinside : s.inside T (.file d path) :=
    Classical.byContradiction fun hno => hp (h.changes.same (.file d path) hno)
  obtain ⟨slot, memory, entry, hT, hl, hd, ha⟩ := hinside
  refine ⟨slot, memory, entry, hT, hl, hd, ha, ?_⟩
  have htail := h.tail slot memory entry hl
  simpa only [Storage.tail, hd, ha] using htail

/-- A memory that is registered has passed the checks on its devices. -/
theorem checked_of_register {devices : Devices n k} {index : Nat} {plan : MemoryPlan} {device : DeviceId n k}
    {policy : Policy} {memory : Memory n k} (h : Memory.register devices index plan device policy = .ok memory) :
    Checked devices memory := by
  obtain ⟨hdevice, hpos, hprimary, hslots, -⟩ := Memory.register_ok h
  exact ⟨hdevice ▸ hslots, hdevice ▸ hpos, hprimary⟩

/-- A storage of registered memories, each on a device of its own, that is asked for any number of things in
turn: of its flash devices only cells of targeted slots change, of its file stores only files of targeted
slots, and those not past the size of the slot. -/
theorem serve_isolates {devices : Devices n k} {memories : List (Memory n k)}
    (hregistered : ∀ memory ∈ memories, ∃ index plan device policy,
      Memory.register devices index plan device policy = .ok memory)
    (hdistinct : (memories.map (·.device)).Nodup) (htop : ∀ d, (devices.geometry d).stop < UInt32.size)
    (requests : List Request) :
    let s : Storage n k := { devices, memories }
    let t := s.serve requests
    (∀ d i, (t.flash d).contents[i]? ≠ (s.flash d).contents[i]? → s.CellOf (Targeted requests) d i) ∧
      ∀ d path, (t.store d).file? path ≠ (s.store d).file? path → s.FileOf t (Targeted requests) d path := by
  intro s t
  have hsound : s.Sound := by
    refine sound_of_checked (fun memory hmem => ?_) hdistinct
    obtain ⟨index, plan, device, policy, hregister⟩ := hregistered memory hmem
    exact checked_of_register hregister
  have hs : s.InOrder := ⟨hsound, fun file hfile => by cases hfile⟩
  have hlow : ¬s.AtTop := by
    rintro ⟨d, hd⟩
    exact absurd hd (Nat.not_le.mpr (htop d))
  have hstart : Orderly (Targeted requests) s s := ⟨.refl _ s, Or.inl rfl⟩
  have hend : Orderly (Targeted requests) s t := (orderly_upkeep hs (Targeted requests)).serve hlow requests
    (fun request hmem slot htarget => ⟨request, hmem, htarget⟩) hstart
  exact ⟨fun d i => hend.toConfined.cell hsound, fun d path => hend.toConfined.file⟩

/-- Both memories of the sample are as they are registered. -/
theorem registered_secure : ∀ memory ∈ [Sample.firstMemory, Sample.secondMemory],
    ∃ index plan device policy,
      Memory.register (Sample.secureBoard []).devices index plan device policy = .ok memory := by
  intro memory hmem
  rcases List.mem_cons.mp hmem with rfl | hmem
  · exact ⟨0, (Sample.securePlan []).memories[0], .flash 0, (Sample.securePlan []).policy,
      by with_unfolding_all rfl⟩
  · obtain rfl := List.mem_singleton.mp hmem
    exact ⟨1, (Sample.securePlan []).memories[1], .files 0, (Sample.securePlan []).policy,
      by with_unfolding_all rfl⟩

/-- Bytes are written to a file and copied to flash from there: both slots are targeted, and both change. -/
theorem sample_serve_isolates :
    let requests : List Request := [.init, .write ⟨1, 0⟩ 0 [1, 2, 3, 4, 5] .force, .erase ⟨0, 0⟩ 0 128,
      .copy ⟨1, 0⟩ ⟨0, 0⟩ 5, .closeFiles]
    let s : Storage 1 1 :=
      { devices := (Sample.secureBoard []).devices, memories := [Sample.firstMemory, Sample.secondMemory] }
    let t := s.serve requests
    (t.flash 0).contents[4]? = some 5 ∧ s.CellOf (Targeted requests) 0 4 ∧
      (t.store 0).file? "update" = some [1, 2, 3, 4, 5, 0, 0, 0] ∧ s.FileOf t (Targeted requests) 0 "update" := by
  intro requests s t
  have hflash : (t.flash 0).contents[4]? = some 5 ∧ (s.flash 0).contents[4]? = some 0xFF := by decide +kernel
  have hstore : (t.store 0).file? "update" = some [1, 2, 3, 4, 5, 0, 0, 0] ∧ (s.store 0).file? "update" = some [] := by
    decide +kernel
  obtain ⟨hcells, hfiles⟩ := serve_isolates registered_secure (by decide) (by decide) requests
  refine ⟨hflash.1, hcells 0 4 ?_, hstore.1, hfiles 0 "update" ?_⟩
  · intro hsame
    have hbytes := hflash.1.symm.trans (hsame.trans hflash.2)
    exact absurd hbytes (by decide)
  · intro hsame
    have hbytes := hstore.1.symm.trans (hsame.trans hstore.2)
    exact absurd hbytes (by decide)

end FirmwareUpdate.Storage
