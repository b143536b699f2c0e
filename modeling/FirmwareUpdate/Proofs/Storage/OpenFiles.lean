import FirmwareUpdate.Proofs.Storage.Handles
import FirmwareUpdate.Proofs.Storage.Isolation

/-! The files that a storage holds open, at any time of its life: they are those of its slots, and none of the handles
of a store is lost unless the store refuses to close one. -/
namespace FirmwareUpdate.Storage
variable {n k : Nat} {devices : Devices n k} {s t : Storage n k} {memory : Memory n k} {memories : List (Memory n k)}
  {slot : SlotId} {d : Fin k} {path : String}

/-- What becomes of a storage on `devices`. It starts without a memory. Memories that have been registered are added to
it, no two of them on one store, and things are asked of it, of which those that trap never come to an end. -/
inductive Arises (devices : Devices n k) : Storage n k → Prop where
  | new : Arises devices { devices }
  | added {s t : Storage n k} {memory : Memory n k} (h : Arises devices s)
    (hregistered : ∃ index plan device policy, Memory.register devices index plan device policy = .ok memory)
    (hstore : ∀ d, memory.device = .files d → ∀ other ∈ s.memories, other.device ≠ .files d)
    (hadd : s.addMemory memory = .ok t) : Arises devices t
  | asked {s t : Storage n k} (request : Request) (h : Arises devices s) (hleaves : request.act.Leaves s t) :
    Arises devices t

/-- How a storage that has come about on `devices` stands with its files. The last two hold of a store on which nothing
was open at first, as long as none of the calls to close a file was failed. -/
structure WellKept (devices : Devices n k) (s : Storage n k) : Prop where
  bound : ∀ slot file, s.openFile? slot = some file →
    ∃ d path, s.KeptIn slot d path ∧ (s.store d).pathOf? file.handle = some path
  unique : ∀ slot slot' d path path' file file', s.KeptIn slot d path → s.KeptIn slot' d path' →
    s.openFile? slot = some file → s.openFile? slot' = some file' → file.handle = file'.handle → slot = slot'
  counted : ∀ (index : Nat) (memory : Memory n k) (d : Fin k), s.memories[index]? = some memory →
    memory.device = .files d → (devices.stores.get d).device.openCount = 0 →
    (devices.stores.get d).ClosesHeeded (s.fileLink d) →
    (s.store d).openCount = (slotIds index memory).countP s.holdsFile
  sufficient : ∀ d, (devices.stores.get d).device.openCount = 0 →
    (devices.stores.get d).ClosesHeeded (s.fileLink d) → (devices.stores.get d).Plain →
    (s.fileLink d).shortages = (devices.stores.get d).shortages

/-- Where every file is known to the storage and no two slots share one, handles are kept as they are to be. -/
theorem Disciplined.wellKept (h : Disciplined { devices, memories } s) (hs : s.FilesApart) : WellKept devices s := by
  refine ⟨fun slot file hfile => ?_, fun slot slot' d path path' file file' hkept hkept' hfile hfile' hsame => ?_,
    fun index memory d hm hd hfresh hheeded => ?_, fun d hfresh hheeded => ((h.attended d).accounted hfresh hheeded).2⟩
  · obtain ⟨d, path, hkept⟩ := h.kept _ _ hfile
    exact ⟨d, path, hkept, (h.attended d).bound _ _ _ hkept hfile⟩
  · exact (h.attended d).slot_unique hs hkept hkept' hfile hfile' hsame
  · exact h.openCount_eq hs ((h.attended d).accounted hfresh hheeded).1 hm hd

/-! ### Memories that have been registered -/

/-- The memories have been checked against the devices, and no two of them are kept on one store. -/
structure Hosted (devices : Devices n k) (memories : List (Memory n k)) : Prop where
  registered : ∀ memory ∈ memories, ∃ index plan device policy,
    Memory.register devices index plan device policy = .ok memory
  stores : memories.Pairwise fun memory other => ∀ d, memory.device = .files d → other.device ≠ .files d

private theorem Hosted.added (h : Hosted devices memories)
    (hregistered : ∃ index plan device policy, Memory.register devices index plan device policy = .ok memory)
    (hstore : ∀ d, memory.device = .files d → ∀ other ∈ memories, other.device ≠ .files d) :
    Hosted devices (memories ++ [memory]) := by
  refine ⟨fun memory' hmem => ?_, List.pairwise_append.mpr ⟨h.stores, List.pairwise_singleton _ _, ?_⟩⟩
  · rcases List.mem_append.mp hmem with hmem | hmem
    · exact h.registered memory' hmem
    · exact List.mem_singleton.mp hmem ▸ hregistered
  · intro other hother memory' hmem d hd hd'
    obtain rfl := List.mem_singleton.mp hmem
    exact hstore d hd' other hother hd

private theorem index_of_path {plan : MemoryPlan} {device : DeviceId n k} {policy : Policy} {index i j : Nat}
    {entry entry' : Slot} (h : Memory.register devices index plan device policy = .ok memory)
    (hi : memory.slots[i]? = some entry) (hj : memory.slots[j]? = some entry') (hp : entry.location = .file path)
    (hp' : entry'.location = .file path) : i = j := by
  -- Two slots of one memory in one file would have met when they were registered.
  obtain ⟨-, -, -, hregistered, -⟩ := Memory.register_ok h
  have hmeets : entry.toSlotPlan.meets entry'.toSlotPlan = true ∧ entry'.toSlotPlan.meets entry.toSlotPlan = true := by
    simp [SlotPlan.meets, hp, hp']
  obtain ⟨hilt, rfl⟩ := List.getElem?_eq_some_iff.mp hi
  obtain ⟨hjlt, rfl⟩ := List.getElem?_eq_some_iff.mp hj
  have hapart := List.pairwise_iff_getElem.mp hregistered.apart
  rcases Nat.lt_trichotomy i j with hlt | heq | hgt
  · exact absurd (hapart i j hilt hjlt hlt) (by simp [hmeets.1])
  · exact heq
  · exact absurd (hapart j i hjlt hilt hgt) (by simp [hmeets.2])

private theorem Hosted.filesApart (h : Hosted devices memories) : ({ devices, memories } : Storage n k).FilesApart := by
  have hstores : ∀ (i j : Nat) (memory memory' : Memory n k) (d : Fin k), memories[i]? = some memory →
      memories[j]? = some memory' → memory.device = .files d → memory'.device = .files d → i = j := by
    intro i j memory memory' d hi hj hd hd'
    obtain ⟨hilt, rfl⟩ := List.getElem?_eq_some_iff.mp hi
    obtain ⟨hjlt, rfl⟩ := List.getElem?_eq_some_iff.mp hj
    have hapart := List.pairwise_iff_getElem.mp h.stores
    rcases Nat.lt_trichotomy i j with hlt | heq | hgt
    · exact (hapart i j hilt hjlt hlt d hd hd').elim
    · exact heq
    · exact (hapart j i hjlt hilt hgt d hd' hd).elim
  refine ⟨hstores, fun slot slot' d path hkept hkept' => ?_, fun memory hmem => ?_⟩
  · obtain ⟨memory, entry, hl, hd, hp⟩ := hkept
    obtain ⟨memory', entry', hl', hd', hp'⟩ := hkept'
    obtain ⟨hm, he⟩ := getElem?_of_lookup? hl
    obtain ⟨hm', he'⟩ := getElem?_of_lookup? hl'
    have hmemory := hstores _ _ _ _ d hm hm' hd hd'
    rw [← hmemory] at hm'
    obtain rfl := Option.some.inj (hm.symm.trans hm')
    obtain ⟨index, plan, device, policy, hregister⟩ := h.registered memory (List.mem_of_getElem? hm)
    have hindex := index_of_path hregister he he' hp hp'
    cases slot
    cases slot'
    cases hmemory
    cases hindex
    rfl
  · obtain ⟨index, plan, device, policy, hregister⟩ := h.registered memory hmem
    obtain ⟨-, -, -, -, hrealizes⟩ := Memory.register_ok hregister
    refine Nat.le_trans (Nat.le_of_not_lt fun hlt => ?_) plan.slots_le
    obtain ⟨hplan, -⟩ := hrealizes.slots plan.slots.length _ (List.getElem?_eq_getElem hlt)
    simp at hplan

private theorem Hosted.fits (h : Hosted devices memories) : ({ devices, memories } : Storage n k).Fits :=
  fits_of_checked fun memory hmem => by
    obtain ⟨index, plan, device, policy, hregister⟩ := h.registered memory hmem
    exact checked_of_register hregister

/-! ### The life of a storage -/

private theorem Disciplined.new (devices : Devices n k) : Disciplined ({ devices } : Storage n k) { devices } := by
  refine ⟨rfl, nofun, fun d => ⟨rfl, Nat.le_refl _, nofun, fun hfresh _ => ⟨fun handle path hpath => ?_, fun _ => rfl⟩⟩⟩
  cases (FileStore.pathOf?_of_openCount hfresh handle).symm.trans hpath

/-- A memory that is added comes behind those that there are. -/
theorem addMemory_ok (h : s.addMemory memory = .ok t) : t = { s with memories := s.memories ++ [memory] } := by
  unfold addMemory at h
  split at h
  · exact (Except.ok.inj h).symm
  · cases h

/-- A slot is kept where it was when a memory is added. -/
theorem KeptIn.added (h : s.KeptIn slot d path) : { s with memories := s.memories ++ [memory] }.KeptIn slot d path := by
  obtain ⟨memory', entry, hl, hd, hp⟩ := h
  obtain ⟨hm, he⟩ := getElem?_of_lookup? hl
  refine ⟨memory', entry, ?_, hd, hp⟩
  have hm' : (s.memories ++ [memory])[slot.memory]? = some memory' := by
    rw [List.getElem?_append_left (List.getElem?_eq_some_iff.mp hm).1]
    exact hm
  simp only [lookup?, hm', he]

/-- No file is open for a memory that is added. -/
theorem Disciplined.added (h : Disciplined { devices, memories := s.memories } s) (hadd : s.addMemory memory = .ok t) :
    Disciplined { devices, memories := t.memories } t := by
  obtain rfl := addMemory_ok hadd
  refine ⟨rfl, fun slot file hfile => ?_, fun d => ?_⟩
  · obtain ⟨d, path, hkept⟩ := h.kept slot file hfile
    exact ⟨d, path, hkept.added⟩
  · obtain ⟨hschedule, hcloses, hbound, haccounted⟩ := h.attended d
    refine ⟨hschedule, hcloses, fun slot path file hkept hfile => ?_, fun hfresh hheeded => ?_⟩
    · obtain ⟨d', path', hkept'⟩ := h.kept slot file hfile
      obtain ⟨rfl, rfl⟩ := hkept.unique hkept'.added
      exact hbound slot path file hkept' hfile
    · obtain ⟨howned, hshort⟩ := haccounted hfresh hheeded
      refine ⟨fun handle path hpath => ?_, hshort⟩
      obtain ⟨slot, file, hfile, hkept, hhandle⟩ := howned _ _ hpath
      exact ⟨slot, file, hfile, hkept.added, hhandle⟩

private theorem Arises.disciplined (h : Arises devices s) :
    Hosted devices s.memories ∧ Disciplined { devices, memories := s.memories } s := by
  induction h with
  | new => exact ⟨⟨nofun, .nil⟩, .new devices⟩
  | added h hregistered hstore hadd ih =>
    obtain ⟨hosted, hdisciplined⟩ := ih
    refine ⟨?_, hdisciplined.added hadd⟩
    obtain rfl := addMemory_ok hadd
    exact hosted.added hregistered hstore
  | @asked s t request h hleaves ih =>
    obtain ⟨hosted, hdisciplined⟩ := ih
    have hupkeep := disciplined_upkeep hosted.filesApart hosted.fits
    have hthen : Disciplined { devices, memories := s.memories } t :=
      (hupkeep.request request fun _ _ => trivial).leaves hdisciplined hleaves
    have hsame : t.memories = s.memories := hthen.memories
    rw [hsame]
    exact ⟨hosted, hthen⟩

/-- At any time of the life of a storage, whatever has been asked of it and whichever calls its devices failed: every
handle that is recorded is open on the file of its slot, and no two slots of a store have the same. As long as no call
to close a file was failed, as many handles of a store are open as slots of its memory, and there is no want of them.
After a memory has been settled none of its slots is open, and after the files have been closed or the devices given
back none at all. -/
theorem files_well_kept (h : Arises devices s) :
    WellKept devices s ∧ (∀ slot, ((settle slot.memory : Op n k Unit).after s).holdsFile slot = false) ∧
      (∀ slot, ((closeFiles : Op n k Unit).after s).holdsFile slot = false) ∧
      ∀ slot, ((release : Op n k Unit).after s).holdsFile slot = false := by
  obtain ⟨hosted, hdisciplined⟩ := h.disciplined
  have hapart := hosted.filesApart
  have hshut : ∀ t : Storage n k, ∀ slot, t.openFile? slot = none → t.holdsFile slot = false := fun t slot hnone => by
    rw [holdsFile, hnone, Option.isSome_none]
  refine ⟨hdisciplined.wellKept (hapart.congr rfl), fun slot => hshut _ slot ?_, fun slot => hshut _ slot ?_,
    fun slot => hshut _ slot ?_⟩
  · exact (Action.Ends.after (settle_closes hapart hdisciplined)).2 slot rfl
  · exact (Action.Ends.after (closeFiles_closes hapart hdisciplined)).none slot
  · exact (Action.Ends.after (release_closes hapart hdisciplined)).none slot

/-- The file of an update is read, which opens it, and then written to, for which it is closed and opened anew. -/
theorem sample_files_well_kept :
    let devices := (Sample.secureBoard []).devices
    let requests : List Request := [.init, .read ⟨1, 0⟩ 0 4, .write ⟨1, 0⟩ 0 [1, 2, 3] .force]
    let s : Storage 1 1 := { devices, memories := [Sample.firstMemory, Sample.secondMemory] }
    let t := s.serve requests
    Arises devices t ∧ t.openFile? ⟨1, 0⟩ = some ⟨⟨1, 0⟩, 0, .readWrite⟩ ∧ (t.store 0).pathOf? 0 = some "update" ∧
      (t.store 0).openCount = 1 ∧ (slotIds 1 Sample.secondMemory).countP t.holdsFile = 1 ∧
      (t.fileLink 0).calls.close = 1 ∧ (t.fileLink 0).shortages = 0 ∧
      ((settle 1 : Op 1 1 Unit).after t).holdsFile ⟨1, 0⟩ = false := by
  intro devices requests s t
  have hfirst : Arises devices { devices, memories := [Sample.firstMemory] } :=
    Arises.new.added (registered_secure Sample.firstMemory (by simp)) (by decide) rfl
  have hboth : Arises devices s := hfirst.added (registered_secure Sample.secondMemory (by simp)) (by decide) rfl
  have hinit := hboth.asked .init (Action.leaves_of_passes (by decide +kernel))
  have hread := hinit.asked (.read ⟨1, 0⟩ 0 4) (Action.leaves_of_passes (by decide +kernel))
  have harises : Arises devices t :=
    hread.asked (.write ⟨1, 0⟩ 0 [1, 2, 3] .force) (Action.leaves_of_passes (by decide +kernel))
  obtain ⟨hkept, hsettled, -, -⟩ := files_well_kept harises
  have hopen : t.openFile? ⟨1, 0⟩ = some ⟨⟨1, 0⟩, 0, .readWrite⟩ := by decide +kernel
  have hclosed : (t.fileLink 0).calls.close = 1 := by decide +kernel
  have hheeded : (devices.stores.get 0).ClosesHeeded (t.fileLink 0) := fun _ _ _ => rfl
  have hmemory : t.memories[1]? = some Sample.secondMemory := by decide +kernel
  have hcount : (slotIds 1 Sample.secondMemory).countP t.holdsFile = 1 := by decide +kernel
  obtain ⟨d, path, hplace, hpath⟩ := hkept.bound _ _ hopen
  have hupdate : t.KeptIn ⟨1, 0⟩ 0 "update" := ⟨_, _, Sample.lookup?_updateFile hmemory, rfl, rfl⟩
  obtain ⟨rfl, rfl⟩ := hplace.unique hupdate
  refine ⟨harises, hopen, hpath, ?_, hcount, hclosed, ?_, hsettled ⟨1, 0⟩⟩
  · exact (hkept.counted 1 _ 0 hmemory rfl (by decide) hheeded).trans hcount
  · exact hkept.sufficient 0 (by decide) hheeded fun _ _ => nofun

end FirmwareUpdate.Storage
