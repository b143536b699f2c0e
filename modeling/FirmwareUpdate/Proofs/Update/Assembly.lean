import FirmwareUpdate.Image.Encode
import FirmwareUpdate.Proofs.Storage.Patching
import FirmwareUpdate.Proofs.Storage.Total
import FirmwareUpdate.Proofs.Storage.Unasked
import FirmwareUpdate.Proofs.Update.Engine
import FirmwareUpdate.Update.Assembly

/-! An engine that has been brought up is in order: its slots lie apart on their devices, every role
has its slot, and the bytes on the devices are those that were there. -/
namespace FirmwareUpdate

namespace Storage
variable {n k : Nat} {s : Storage n k} {memory memory' : Memory n k} {entry entry' : Slot}

/-- A memory that passed the checks made when it was registered. -/
structure Checked (d : Devices n k) (memory : Memory n k) : Prop where
  slots : Memory.Registered d memory.device memory.slots
  granule_pos : 0 < d.granule memory.device
  primary : memory.tier = .primary → ∃ f, memory.device = .flash f

private theorem within_device {p : Place n k} (h : s.within memory entry p) (h' : s.within memory' entry' p) :
    memory.device = memory'.device := by
  cases p with
  | cell d i => exact h.1.trans h'.1.symm
  | file d path => exact h.1.trans h'.1.symm

private theorem apart_of_meets {d : DeviceId n k} (hfits : Memory.checkSlot s.devices d entry.toSlotPlan = .ok ())
    (hfits' : Memory.checkSlot s.devices d entry'.toSlotPlan = .ok ()) (hd : memory.device = d)
    (hd' : memory'.device = d) (hmeets : entry.toSlotPlan.meets entry'.toSlotPlan = false) (p : Place n k)
    (h : s.within memory entry p) : ¬s.within memory' entry' p := by
  intro h'
  cases p with
  | cell f i =>
    obtain ⟨hf, address, ha, hlo, hhi⟩ := h
    obtain ⟨-, address', ha', hlo', hhi'⟩ := h'
    rw [hd] at hf
    subst hf
    have hb := (region_of_checkSlot hfits ha).base_le
    have hb' := (region_of_checkSlot hfits' ha').base_le
    simp only [SlotPlan.meets, ha, ha', decide_eq_false_iff_not] at hmeets
    omega
  | file f path =>
    have hpath : entry.location = .file path := h.2
    have hpath' : entry'.location = .file path := h'.2
    simp [SlotPlan.meets, hpath, hpath'] at hmeets

private theorem pairwise_getElem? {α : Type} {R : α → α → Prop} {l : List α} (h : l.Pairwise R) {i j : Nat}
    {a b : α} (hij : i < j) (ha : l[i]? = some a) (hb : l[j]? = some b) : R a b := by
  obtain ⟨hi, rfl⟩ := List.getElem?_eq_some_iff.mp ha
  obtain ⟨hj, rfl⟩ := List.getElem?_eq_some_iff.mp hb
  exact List.pairwise_iff_getElem.mp h i j hi hj hij

/-- Slots that have been checked fit their devices. -/
theorem fits_of_checked (hchecked : ∀ memory ∈ s.memories, Checked s.devices memory) : s.Fits := by
  refine ⟨?_, ?_⟩
  · intro slot memory entry hl
    obtain ⟨hm, he⟩ := getElem?_of_lookup? hl
    exact (hchecked memory (List.mem_of_getElem? hm)).slots.fits entry (List.mem_of_getElem? he)
  · intro slot memory entry hl
    exact (hchecked memory (List.mem_of_getElem? (getElem?_of_lookup? hl).1)).granule_pos

/-- Memories that have been checked, each on a device of its own. -/
theorem sound_of_checked (hchecked : ∀ memory ∈ s.memories, Checked s.devices memory)
    (hdistinct : (s.memories.map (·.device)).Nodup) : s.Sound := by
  refine ⟨(fits_of_checked hchecked).slots, (fits_of_checked hchecked).granule_pos, ?_⟩
  · intro slot memory entry slot' memory' entry' hl hl' hne p hp hp'
    obtain ⟨hm, he⟩ := getElem?_of_lookup? hl
    obtain ⟨hm', he'⟩ := getElem?_of_lookup? hl'
    have hdevice := within_device hp hp'
    have hsame : slot.memory = slot'.memory := index_of_device hdistinct hm' hm hdevice
    rw [← hsame, hm] at hm'
    cases hm'
    have hindex : slot.index ≠ slot'.index := fun hindex => hne (by
      cases slot
      cases slot'
      simp_all)
    have hc := (hchecked memory (List.mem_of_getElem? hm)).slots
    have hfits := hc.fits entry (List.mem_of_getElem? he)
    have hfits' := hc.fits entry' (List.mem_of_getElem? he')
    rcases Nat.lt_or_gt_of_ne hindex with hlt | hlt
    · exact apart_of_meets hfits hfits' rfl rfl (pairwise_getElem? hc.apart hlt he he') p hp hp'
    · exact apart_of_meets hfits' hfits rfl rfl (pairwise_getElem? hc.apart hlt he' he) p hp' hp

end Storage

/-- The slot that applications run from. -/
structure Home (n k : Nat) where
  slot : SlotId
  memory : Memory n k
  entry : Slot
  device : Fin n
  address : Nat

namespace Engine
variable {n k : Nat} {e e' : Engine n k} {P : Place n k → Prop}

-- The memories are those of the plans, each on its device.
private structure Made (policy : Policy) (plans : List (MemoryPlan × DeviceId n k)) (memories : List (Memory n k)) :
    Prop where
  devices : memories.map (·.device) = plans.map Prod.snd
  realizes : ∀ (i : Nat) (memory : Memory n k), memories[i]? = some memory →
    ∃ plan device, plans[i]? = some (plan, device) ∧ Memory.Realizes policy plan memory

private theorem registerFrom_ok {policy : Policy} {index : Nat} {rest : List (MemoryPlan × DeviceId n k)}
    {s t : Storage n k} (h : registerFrom policy index rest s = .ok t)
    (hs : ∀ memory ∈ s.memories, Storage.Checked s.devices memory) :
    t.devices = s.devices ∧ t.openFiles = s.openFiles ∧ t.buffer = s.buffer ∧
      (∀ memory ∈ t.memories, Storage.Checked t.devices memory) ∧
      ∃ made, t.memories = s.memories ++ made ∧ Made policy rest made := by
  induction rest generalizing index s with
  | nil =>
    cases h
    exact ⟨rfl, rfl, rfl, hs, [], (List.append_nil _).symm, rfl, fun i memory hi => by cases hi⟩
  | cons head rest ih =>
    obtain ⟨plan, device⟩ := head
    unfold registerFrom at h
    cases hregister : Memory.register s.devices index plan device policy with
    | error cause =>
      rw [hregister] at h
      cases h
    | ok memory =>
      rw [hregister] at h
      obtain ⟨hdevice, hpos, hprimary, hslots, hrealizes⟩ := Memory.register_ok hregister
      unfold Storage.addMemory at h
      by_cases hroom : s.memories.length < memoryLimit
      · simp only [bind, Except.bind, if_pos hroom] at h
        obtain ⟨hd, hf, hb, hchecked, made, hmemories, hmade⟩ := ih h fun memory' hmem => by
          rcases List.mem_append.mp hmem with hold | hnew
          · exact hs memory' hold
          · obtain rfl := List.mem_singleton.mp hnew
            exact ⟨hdevice ▸ hslots, hdevice ▸ hpos, hprimary⟩
        refine ⟨hd, hf, hb, hchecked, memory :: made, ?_, ?_, fun i found hi => ?_⟩
        · rw [hmemories, List.append_assoc]
          rfl
        · rw [List.map_cons, List.map_cons, hdevice, hmade.devices]
        · cases i with
          | zero =>
            cases hi
            exact ⟨plan, device, rfl, hrealizes⟩
          | succ i => exact hmade.realizes i found hi
      · simp only [bind, Except.bind, if_neg hroom] at h
        cases h

/-- The engine has its application there, on flash and in the first memory. -/
structure RunsAt (e : Engine n k) (home : Home n k) : Prop where
  role : e.application? = .ok home.slot
  lookup : e.storage.lookup? home.slot = .ok (home.memory, home.entry)
  primary : home.memory.tier = .primary
  onFlash : home.memory.device = .flash home.device
  location : home.entry.location = .flash home.address

/-- Changes of bytes leave the application where it runs. -/
theorem RunsAt.of_changes {home : Home n k} (h : e.RunsAt home) (hc : Changes P e e') : e'.RunsAt home :=
  ⟨hc.application?.trans h.role, hc.storage.lookup? h.lookup, h.primary, h.onFlash, h.location⟩

/-- The application is not encrypted where it runs. -/
theorem RunsAt.plain {home : Home n k} (h : e.RunsAt home) : e.holdsEncrypted home.slot = false :=
  holdsEncrypted_of_primary h.lookup h.primary

/-- What holds of an engine from the time it is brought up on. -/
structure InService (e : Engine n k) : Prop where
  inOrder : e.storage.InOrder
  chunk_pos : 0 < e.chunk
  chunk_blocks : e.chunk % Aes.blockLength = 0
  home : ∃ home, e.RunsAt home
  backup : e.policy.fallback = true → ∃ slot, e.backup? = some slot

/-- Changes of bytes leave an engine in service. -/
theorem InService.of_changes (h : e.InService) (hc : Changes P e e') : e'.InService := by
  obtain ⟨home, hhome⟩ := h.home
  refine ⟨hc.inOrder h.inOrder, hc.chunk ▸ h.chunk_pos, hc.chunk ▸ h.chunk_blocks,
    ⟨home, hhome.of_changes hc⟩, ?_⟩
  intro hfallback
  rw [hc.policy] at hfallback
  rw [hc.backup?]
  exact h.backup hfallback

/-- A storage that has the roles has a slot for each. -/
theorem requireRoles_ok {s : Storage n k} {policy : Policy} (h : requireRoles s policy = .ok ()) :
    (∃ slot, s.find? .theApplication = some slot ∧ s.hasTier slot .primary = true) ∧
      (∃ slot, s.find? .anUpdate = some slot) ∧
      (policy.fallback = true → s.slots.any (fun (_, slot) => slot.content = .aBackup) = true) := by
  unfold requireRoles at h
  split at h
  · cases h
  · rename_i application hfind
    split at h
    · rename_i hroles
      obtain ⟨-, htier, hupdates, hbackup⟩ := hroles
      refine ⟨⟨application, hfind, htier⟩, ?_, fun hfallback => hbackup hfallback⟩
      have hpos : 0 < s.count .anUpdate := by omega
      obtain ⟨entry, hmem, hupdate⟩ := List.countP_pos_iff.mp hpos
      simp only [Storage.find?]
      cases hfound : s.slots.find? (fun (_, slot) => slot.content.includes .anUpdate) with
      | some found => exact ⟨found.1, rfl⟩
      | none => exact (List.find?_eq_none.mp hfound entry hmem hupdate).elim
    · cases h

/-- What the parts of a plan are assembled to. -/
structure Assembled (devices : Devices n k) (plan : Plan) (hosts : List (DeviceId n k)) (s : Storage n k) :
    Prop where
  devices : s.devices = devices
  noFiles : s.openFiles = []
  empty : s.buffer.bytes = []
  checked : ∀ memory ∈ s.memories, Storage.Checked s.devices memory
  hosts : s.memories.map (·.device) = hosts
  realizes : ∀ (i : Nat) (memory : Memory n k), s.memories[i]? = some memory →
    ∃ memoryPlan, plan.memories[i]? = some memoryPlan ∧ Memory.Realizes plan.policy memoryPlan memory
  roles : requireRoles s plan.policy = .ok ()

private theorem Assembled.inOrder {devices : Devices n k} {plan : Plan} {hosts : List (DeviceId n k)}
    {s : Storage n k} (h : Assembled devices plan hosts s) (hdistinct : hosts.Nodup) : s.InOrder := by
  refine ⟨Storage.sound_of_checked h.checked (h.hosts ▸ hdistinct), fun file hfile => ?_⟩
  rw [h.noFiles] at hfile
  cases hfile

private theorem registerFrom_alike {policy : Policy} {index : Nat} {rest : List (MemoryPlan × DeviceId n k)}
    {devices : Devices n k} {s : Storage n k} (h : s.devices.Alike devices) :
    registerFrom policy index rest { s with devices } =
      (registerFrom policy index rest s).map fun t => { t with devices } := by
  induction rest generalizing index s with
  | nil => rfl
  | cons head rest ih =>
    obtain ⟨plan, device⟩ := head
    simp only [registerFrom]
    rw [Memory.register_alike h]
    cases Memory.register s.devices index plan device policy with
    | error cause => rfl
    | ok memory =>
      simp only [bind, Except.bind, Storage.addMemory]
      by_cases hroom : s.memories.length < memoryLimit
      · simp only [if_pos hroom]
        exact ih (s := { s with memories := s.memories ++ [memory] }) h
      · simp only [if_neg hroom]
        rfl

/-- Devices of the same sizes are assembled in the same way. -/
theorem assemble_alike {devices devices' : Devices n k} {plan : Plan} {hosts : List (DeviceId n k)} {s : Storage n k}
    (h : devices.Alike devices') (hs : assemble devices plan hosts = .ok s) :
    assemble devices' plan hosts = .ok { s with devices := devices' } := by
  have hsame : registerFrom plan.policy 0 (plan.memories.zip hosts) { devices := devices' } = _ :=
    registerFrom_alike (s := { devices := devices }) h
  unfold assemble at hs ⊢
  cases hregister : registerFrom plan.policy 0 (plan.memories.zip hosts) { devices := devices } with
  | error cause =>
    rw [hregister] at hs
    cases hs
  | ok t =>
    rw [hregister] at hs hsame
    have hroles : requireRoles { t with devices := devices' } plan.policy = requireRoles t plan.policy := rfl
    rw [hsame]
    simp only [bind, Except.bind, Except.map] at hs ⊢
    rw [hroles]
    cases hrequired : requireRoles t plan.policy with
    | error cause =>
      rw [hrequired] at hs
      cases hs
    | ok =>
      rw [hrequired] at hs
      cases hs
      rfl

/-- A storage that is assembled has the memories of its plan on its devices. -/
theorem assemble_ok {devices : Devices n k} {plan : Plan} {hosts : List (DeviceId n k)}
    {s : Storage n k} (h : assemble devices plan hosts = .ok s) (hlength : plan.memories.length = hosts.length) :
    Assembled devices plan hosts s := by
  unfold assemble at h
  cases hregister : registerFrom plan.policy 0 (plan.memories.zip hosts) { devices := devices } with
  | error cause =>
    rw [hregister] at h
    cases h
  | ok t =>
    rw [hregister] at h
    simp only [bind, Except.bind] at h
    cases hroles : requireRoles t plan.policy with
    | error cause =>
      rw [hroles] at h
      cases h
    | ok =>
      rw [hroles] at h
      cases h
      obtain ⟨hd, hfiles, hbuffer, hchecked, made, hmemories, hmade⟩ := registerFrom_ok hregister (by simp)
      rw [List.nil_append] at hmemories
      refine ⟨hd, hfiles, congrArg GranuleBuffer.bytes hbuffer, hchecked, ?_, fun i memory hi => ?_, hroles⟩
      · rw [hmemories, hmade.devices, List.map_snd_zip (Nat.le_of_eq hlength.symm)]
      · obtain ⟨memoryPlan, device, hzip, hrealizes⟩ := hmade.realizes i memory (hmemories ▸ hi)
        exact ⟨memoryPlan, (List.getElem?_zip_eq_some.mp hzip).1, hrealizes⟩

private theorem check_ok {plan : Plan} (h : plan.check = .ok ()) :
    plan.tiersFit = true ∧ plan.tuning.chunk ≠ 0 ∧ plan.tuning.chunk % Plan.chunkUnit = 0 := by
  unfold Plan.check at h
  split at h
  · assumption
  · cases h

/-- A plan that is checked has a chunk of whole blocks, a device for each memory, a key and tiers that fit. -/
theorem checkPlan_ok {plan : Plan} {backend : Backend} {hosts : List (DeviceId n k)} {key : Key}
    (h : checkPlan plan backend hosts = .ok key) :
    0 < plan.tuning.chunk ∧ plan.tuning.chunk % Aes.blockLength = 0 ∧ plan.tuning.chunk ≤ chunkLimit ∧
      plan.memories.length = hosts.length ∧ key.bytes = plan.key ∧ plan.tiersFit = true := by
  unfold checkPlan at h
  cases hcheck : plan.check with
  | error cause =>
    rw [hcheck] at h
    cases h
  | ok =>
    obtain ⟨htiers, hchunk, hblocks⟩ := check_ok hcheck
    rw [hcheck] at h
    simp only [bind, Except.bind] at h
    split at h
    · cases h
    rename_i hlimits
    cases hkey : Key.ofBytes plan.key with
    | error cause =>
      rw [hkey] at h
      cases h
    | ok key' =>
      rw [hkey] at h
      change (if _ then _ else _) = _ at h
      split at h
      · cases h
      split at h
      · cases h
      rename_i hlength
      cases h
      refine ⟨Nat.pos_of_ne_zero hchunk, hblocks, by omega, Decidable.not_not.mp hlength, ?_, htiers⟩
      unfold Key.ofBytes at hkey
      split at hkey
      · cases hkey
        rfl
      · cases hkey

private theorem inService_of_roles (hs : e.storage.InOrder)
    (hchunk : 0 < e.tuning.chunk) (hblocks : e.tuning.chunk % Aes.blockLength = 0)
    (hlimit : e.tuning.chunk ≤ chunkLimit)
    (hchecked : ∀ memory ∈ e.storage.memories, Storage.Checked e.storage.devices memory)
    (hroles : requireRoles e.storage e.policy = .ok ()) : e.InService := by
  have hsame : e.chunk = e.tuning.chunk := Nat.min_eq_left hlimit
  obtain ⟨⟨slot, hfind, htier⟩, -, hbackup⟩ := requireRoles_ok hroles
  have happlication : e.application? = .ok slot := by
    simp only [application?]
    rw [hfind]
  refine ⟨hs, hsame ▸ hchunk, hsame ▸ hblocks, ?_, ?_⟩
  · obtain ⟨memory, entry, hl, -⟩ := lookup_application happlication
    have hprimary : memory.tier = .primary := by
      simpa [Storage.hasTier, Storage.tier?, hl, Except.map] using htier
    obtain ⟨d, hd⟩ := (hchecked memory (List.mem_of_getElem? (Storage.getElem?_of_lookup? hl).1)).primary hprimary
    rcases hs.sound.location hl with ⟨d', address, hd', ha⟩ | ⟨f, path, hd', -⟩
    · exact ⟨⟨slot, memory, entry, d', address⟩, happlication, hl, hprimary, hd', ha⟩
    · rw [hd] at hd'
      cases hd'
  · intro hfallback
    obtain ⟨⟨slot, entry⟩, hmem, hcontent⟩ := List.any_eq_true.mp (hbackup hfallback)
    simp only [backup?]
    rw [if_pos hfallback]
    cases hfound : e.storage.slots.find? (fun (_, slot) => slot.content = .aBackup) with
    | some found => exact ⟨found.1, rfl⟩
    | none => exact (List.find?_eq_none.mp hfound _ hmem hcontent).elim

/-- An engine comes up in service, on the bytes that were on the devices. -/
theorem bringUp_ends {plan : Plan} {primary : DeviceId n k} {secondary : Option (DeviceId n k)}
    {backend : Backend} {s : Storage n k} (hdistinct : secondary ≠ some primary) :
    (bringUp plan primary secondary backend).Ends s
      (fun e _ => e.InService ∧ e.storage.buffer.bytes = [] ∧ e.policy = plan.policy ∧
        e.tuning = plan.tuning ∧ e.backend = backend ∧ e.key.bytes = plan.key ∧
        (∀ p, e.storage.valueAt p = s.valueAt p) ∧ ∀ device, e.storage.scheduleOf device = s.scheduleOf device)
      (fun _ _ => True) True := by
  have hnodup : (primary :: secondary.toList).Nodup := by
    cases secondary with
    | none => simp
    | some second =>
      have hne : primary ≠ second := fun heq => hdistinct (congrArg some heq.symm)
      simp [hne]
  simp only [bringUp]
  rw [Action.ends_bind, Action.ends_ofExcept]
  split
  · rename_i key hkey
    obtain ⟨hchunk, hblocks, hlimit, hlength, hbytes, -⟩ := checkPlan_ok hkey
    rw [Action.ends_get_bind, Action.ends_bind, Action.ends_ofExcept]
    split
    · rename_i t ht
      have hassembled := assemble_ok ht hlength
      have hs := hassembled.inOrder hnodup
      have hd := hassembled.devices
      rw [Action.ends_set_bind]
      refine (Storage.init_ends hs).bind ?_ (fun _ _ _ => trivial) False.elim
      intro _ u hended
      obtain ⟨hstill, hbuffer⟩ := hended
      rw [Action.ends_get_bind]
      have hbare : InService ⟨t, plan.policy, plan.tuning, key, backend, none, {}⟩ :=
        inService_of_roles hs hchunk hblocks hlimit hassembled.checked hassembled.roles
      refine ⟨hbare.of_changes ⟨hstill, rfl, rfl, rfl, rfl⟩, ?_, rfl, rfl, rfl, hbytes, fun p => ?_, fun device => ?_⟩
      · exact (congrArg GranuleBuffer.bytes hbuffer).trans hassembled.empty
      · refine (hstill.same p fun h => h).trans ?_
        cases p with
        | cell d i => simp only [Storage.valueAt, Storage.flash, Storage.flashLink, hd]
        | file d path => simp only [Storage.valueAt, Storage.store, Storage.fileLink, hd]
      · apply (hstill.setup.schedule device).trans
        cases device with
        | flash d => simp only [Storage.scheduleOf, Storage.flashLink, hd]
        | files d => simp only [Storage.scheduleOf, Storage.fileLink, hd]
    · exact trivial
  · exact trivial

private theorem staged_ne_application {slot : SlotId} (hroles : ∀ memory ∈ e.storage.memories,
    ∀ entry ∈ memory.slots, entry.content.update = true → entry.content.application = false)
    (hstaged : e.staged? = .ok slot) : e.application? ≠ .ok slot := by
  intro happlication
  obtain ⟨memory, entry, hl, hcontent⟩ := lookup_application happlication
  obtain ⟨memory', entry', hl', hupdate⟩ := lookup_staged hstaged
  rw [hl] at hl'
  cases hl'
  obtain ⟨hm, he⟩ := Storage.getElem?_of_lookup? hl
  have hother := hroles memory (List.mem_of_getElem? hm) entry (List.mem_of_getElem? he) hupdate
  rw [hcontent] at hother
  cases hother

private theorem bringUp_checks {plan : Plan} {primary : DeviceId n k} {secondary : Option (DeviceId n k)}
    {backend : Backend} {s : Storage n k} :
    (bringUp plan primary secondary backend).Ends s
      (fun e _ => checkPlan plan backend (primary :: secondary.toList) = .ok e.key ∧ e.policy = plan.policy ∧
        ∃ t, assemble s.devices plan (primary :: secondary.toList) = .ok t ∧ t.SameSetup e.storage)
      (fun _ _ => True) True := by
  simp only [bringUp]
  rw [Action.ends_bind, Action.ends_ofExcept]
  split
  · rename_i key hkey
    obtain ⟨-, -, -, hlength, -⟩ := checkPlan_ok hkey
    rw [Action.ends_get_bind, Action.ends_bind, Action.ends_ofExcept]
    split
    · rename_i t ht
      rw [Action.ends_set_bind]
      refine ((Storage.fits_of_checked (assemble_ok ht hlength).checked).upkeep.init t (.refl t)).bind ?_
        (fun _ _ _ => trivial) fun _ => trivial
      intro _ u hsetup
      rw [Action.ends_get_bind]
      exact ⟨hkey, rfl, t, ht, hsetup⟩
    · exact trivial
  · exact trivial

/-- An engine that comes up has the memories of its plan, as they were assembled. -/
theorem bringUp_assembles {plan : Plan} {primary : DeviceId n k} {secondary : Option (DeviceId n k)}
    {backend : Backend} {s : Storage n k} :
    (bringUp plan primary secondary backend).Ends s
      (fun e _ => plan.tiersFit = true ∧ e.policy = plan.policy ∧
        ∃ t, Assembled s.devices plan (primary :: secondary.toList) t ∧ t.SameSetup e.storage)
      (fun _ _ => True) True := by
  refine bringUp_checks.imp ?_ (fun _ _ h => h) id
  rintro e _ ⟨hkey, hpolicy, t, ht, hsetup⟩
  obtain ⟨-, -, -, hlength, -, htiers⟩ := checkPlan_ok hkey
  exact ⟨htiers, hpolicy, t, assemble_ok ht hlength, hsetup⟩

/-- On the devices as an engine has left them it comes up again, as it was, unless one of them is at fault. None of
them is asked to write or to erase. -/
theorem bringUp_again {plan : Plan} {primary : DeviceId n k} {secondary : Option (DeviceId n k)} {backend : Backend}
    {bare after : Storage n k} (hdistinct : secondary ≠ some primary)
    (hup : bringUp plan primary secondary backend bare = .ok e after) (h : Changes P e e') :
    (bringUp plan primary secondary backend).Ends e'.storage.clear
      (fun e'' _ => e'.Still e'' ∧ e''.storage.buffer.bytes = [] ∧ e'.storage.Unasked e''.storage)
      (fun _ s => e'.storage.Faulted s) False := by
  obtain ⟨he, -, hpolicy, htuning, hbackend, -⟩ := (bringUp_ends hdistinct).done_of_ok hup
  obtain ⟨hkey, -, t, ht, hsetup⟩ := bringUp_checks.done_of_ok hup
  obtain ⟨-, -, -, hlength, -⟩ := checkPlan_ok hkey
  have hassembled := assemble_ok ht hlength
  have hsetup' := hsetup.trans h.storage.setup
  have halike : bare.devices.Alike e'.storage.devices := hassembled.devices ▸ hsetup'.alike
  have ht' := assemble_alike halike ht
  have hstill : e'.storage.Still { t with devices := e'.storage.devices } :=
    Storage.still_of_devices rfl hsetup'.memories.symm hassembled.noFiles
  have hlooked : e'.storage.Looked { t with devices := e'.storage.devices } :=
    ⟨.of_devices rfl, hsetup'.memories.symm⟩
  have hinit := (Storage.init_ends (hstill.inOrder (h.inOrder he.inOrder))).and (Storage.tended_looked.init _ hlooked)
  simp only [bringUp]
  rw [hkey]
  simp only [Action.ofExcept, Action.ends_pure_bind, Action.ends_get_bind]
  have hassemble : assemble e'.storage.clear.devices plan (primary :: secondary.toList) = _ := ht'
  rw [hassemble]
  simp only [Action.ends_pure_bind, Action.ends_set_bind]
  refine hinit.bind ?_ ?_ And.left
  · rintro _ u ⟨⟨hinit, hbuffer⟩, hlooked⟩
    rw [Action.ends_get_bind]
    have hempty : u.buffer.bytes = [] := (congrArg GranuleBuffer.bytes hbuffer).trans hassembled.empty
    refine ⟨⟨⟨hstill.trans hinit, ?_, ?_, h.key.symm, ?_⟩, Or.inr hempty⟩, hempty, hlooked.toUnasked⟩
    · exact hpolicy.symm.trans h.policy.symm
    · exact htuning.symm.trans h.tuning.symm
    · exact hbackend.symm.trans h.backend.symm
  · rintro _ u ⟨⟨-, -, hf⟩, -⟩
    exact hstill.faulted_right hf

/-- A plan that cannot be assembled is refused, before any device is called. -/
theorem bringUp_refuses {plan : Plan} {primary : DeviceId n k} {secondary : Option (DeviceId n k)}
    {backend : Backend} {s : Storage n k}
    (h : plan.tiersFit = true → ∀ t, ¬Assembled s.devices plan (primary :: secondary.toList) t) :
    ∃ cause, bringUp plan primary secondary backend s = .error (.error cause) s := by
  simp only [bringUp, Action.bind_apply]
  cases hkey : checkPlan plan backend (primary :: secondary.toList) with
  | error cause => exact ⟨cause, rfl⟩
  | ok key =>
    obtain ⟨-, -, -, hlength, -, htiers⟩ := checkPlan_ok hkey
    cases hassemble : assemble s.devices plan (primary :: secondary.toList) with
    | error cause =>
      refine ⟨cause, ?_⟩
      simp only [Action.ofExcept, Action.pure_apply, Action.get_apply, hassemble, Action.fail_apply]
    | ok t => exact (h htiers t (assemble_ok hassemble hlength)).elim

/-- Whatever the devices, an engine that comes up has slots that its devices can have, one of them for the
application and another for updates. -/
theorem bringUp_fits {plan : Plan} {primary : DeviceId n k} {secondary : Option (DeviceId n k)} {backend : Backend}
    {s : Storage n k} :
    (bringUp plan primary secondary backend).Ends s
      (fun e _ => e.storage.Fits ∧ (e.storage.AtTop ↔ s.AtTop) ∧
        ∀ slot, e.staged? = .ok slot → e.application? ≠ .ok slot) (fun _ _ => True) True := by
  refine bringUp_assembles.imp ?_ (fun _ _ h => h) id
  rintro e _ ⟨-, -, t, hassembled, hsetup⟩
  refine ⟨(Storage.fits_of_checked hassembled.checked).congr hsetup, hsetup.atTop.trans ?_,
    fun slot => staged_ne_application ?_⟩
  · simp only [Storage.AtTop, Storage.flash, Storage.flashLink, hassembled.devices]
  · intro memory hmem
    rw [hsetup.memories] at hmem
    exact (hassembled.checked memory hmem).slots.roles

end Engine

/-! ### A small board -/

namespace Sample

def geometry : Geometry := ⟨0, 384, 128, 8, by decide, by decide, by decide⟩

/-- Three slots on one flash device: for the application, for an update and for a backup. -/
def plan (tableOffset : Nat) : Plan :=
  { memories := [⟨.primary, .flash, [⟨.flash 0, 128⟩, ⟨.flash 128, 128⟩, ⟨.flash 256, 128⟩], by decide⟩]
    memories_le := by decide
    policy := { fallback := true }
    tuning := { tableOffset, chunk := 16 } }

def image (index : UInt32) (words : List UInt32) : Bytes :=
  match (Image.ofPayload index {} (words.flatMap Bytes.ofWord)).encode with
  | .ok bytes => bytes
  | .error _ => []

def preset (f : Flash) (address : Nat) (data : Bytes) : Flash := (f.preset? address data).getD f

/-- The board with these bytes at the start of its slots. -/
def board (application update backup : Bytes) : Storage 1 0 :=
  let flash := preset (preset (preset (.blank geometry) 0 application) 128 update) 256 backup
  { devices := { flashes := #v[{ device := flash }], stores := #v[] } }

def device : DeviceId 1 0 := .flash 0

/-- The devices of a board that has a flash device only. -/
def alone (flash : Flash) : Devices 1 0 := { flashes := #v[{ device := flash }], stores := #v[] }

def slot (address : Nat) (content : Content) : Slot := ⟨⟨.flash address, 128⟩, content, 0⟩

/-- The memory of the plan as it is registered. -/
def memory : Memory 1 0 :=
  ⟨.primary, device, [slot 0 .theApplication, slot 128 .anUpdate, slot 256 .aBackup]⟩

/-- Updates are kept encrypted in a file of a second memory. -/
def securePlan (key : Bytes) : Plan :=
  { memories := [⟨.primary, .flash, [⟨.flash 0, 128⟩], by decide⟩,
      ⟨.secondary, .fileSystem, [⟨.file "update", 128⟩], by decide⟩]
    memories_le := by decide
    key
    policy := { secondMemory := true, encryptSecond := true }
    tuning := { chunk := 16 } }

/-- The second board, with a blank application slot and these bytes in the file of the update. -/
def secureBoard (update : Bytes) : Storage 1 1 :=
  { devices :=
      { flashes := #v[{ device := .blank geometry }]
        stores := #v[{ device := { granule := 8, files := [("update", update)] } }] } }

/-- The first memory of that plan as it is registered. -/
def firstMemory : Memory 1 1 := ⟨.primary, .flash 0, [slot 0 .theApplication]⟩

def updateFile : Slot := ⟨⟨.file "update", 128⟩, { update := true, backup := true }, 1⟩

/-- The second memory of that plan as it is registered. -/
def secondMemory : Memory 1 1 := ⟨.secondary, .files 0, [updateFile]⟩

def codedImage (index : UInt32) (key : Bytes) (words : List UInt32) : Bytes :=
  let image := Image.ofPayload index {} (words.flatMap Bytes.ofWord)
  match Image.encode { image with wrapping := some ⟨key, Vector.replicate 16 7⟩ } with
  | .ok bytes => bytes
  | .error _ => []

/-- A storage on the board. -/
structure Holds (s : Storage 1 0) : Prop where
  memories : s.memories = [memory]
  geometry : (s.flash 0).geometry = geometry

instance (s : Storage 1 0) : Decidable (Holds s) :=
  decidable_of_iff (s.memories = [memory] ∧ (s.flash 0).geometry = geometry)
    ⟨fun h => ⟨h.1, h.2⟩, fun h => ⟨h.1, h.2⟩⟩

/-- The board has the three slots of its plan. -/
theorem Holds.lookup? {s : Storage 1 0} (h : Holds s) :
    s.lookup? ⟨0, 0⟩ = .ok (memory, slot 0 .theApplication) ∧ s.lookup? ⟨0, 1⟩ = .ok (memory, slot 128 .anUpdate) ∧
      s.lookup? ⟨0, 2⟩ = .ok (memory, slot 256 .aBackup) := by
  simp [Storage.lookup?, h.memories, memory]

/-- It has no other ones. -/
theorem Holds.eq_of_lookup? {s : Storage 1 0} (h : Holds s) {id : SlotId} {found : Memory 1 0} {entry : Slot}
    (hl : s.lookup? id = .ok (found, entry)) : id = ⟨0, 0⟩ ∨ id = ⟨0, 1⟩ ∨ id = ⟨0, 2⟩ := by
  obtain ⟨hmemory, hentry⟩ := Storage.getElem?_of_lookup? hl
  rw [h.memories] at hmemory
  obtain ⟨first, index⟩ := id
  have hfirst : first < 1 := (List.getElem?_eq_some_iff.mp hmemory).1
  obtain rfl := List.mem_singleton.mp (List.mem_of_getElem? hmemory)
  have hindex : index < 3 := (List.getElem?_eq_some_iff.mp hentry).1
  simp only [SlotId.mk.injEq]
  omega

/-- The file for updates is where the plan has it. -/
theorem lookup?_updateFile {s : Storage 1 1} (h : s.memories[1]? = some secondMemory) :
    s.lookup? ⟨1, 0⟩ = .ok (secondMemory, updateFile) := by
  simp [Storage.lookup?, h, secondMemory]

/-- The device of the board writes granules of eight bytes. -/
theorem Holds.granule {s : Storage 1 0} (h : Holds s) : s.devices.granule device = 8 :=
  congrArg Geometry.granule h.geometry

/-- A slot of the board that starts on a granule is one of whole granules. -/
theorem Holds.granular {s : Storage 1 0} (h : Holds s) {address : Nat} {content : Content}
    (haddress : address % 8 = 0) : s.Granular memory (slot address content) := by
  have hgranule : s.devices.granule memory.device = 8 := h.granule
  refine ⟨by simp [hgranule, slot], fun d address' hd ha => ?_⟩
  cases hd
  cases ha
  rw [h.geometry]
  exact haddress

/-- No call on the board is made to fail. -/
theorem scheduleOf_board (application update backup : Bytes) (device : DeviceId 1 0) :
    (board application update backup).scheduleOf device = .quiet := by
  rcases device with device | device
  · obtain rfl : device = 0 := Subsingleton.elim _ _
    rfl
  · exact device.elim0

/-- The device of the board does not end with the address space. -/
theorem Holds.not_atTop {s : Storage 1 0} (h : Holds s) : ¬s.AtTop := by
  rintro ⟨device, htop⟩
  obtain rfl : device = 0 := Subsingleton.elim _ _
  rw [h.geometry] at htop
  exact absurd htop (by decide)

/-- A fault on the board shows in the count of its device. -/
theorem not_faulted {s t : Storage 1 0} (h : t.faultsOn (.flash 0) = s.faultsOn (.flash 0)) : ¬s.Faulted t := by
  rintro ⟨device | device, hlt⟩
  · obtain rfl : device = 0 := Subsingleton.elim _ _
    exact absurd h (Nat.ne_of_gt hlt)
  · exact device.elim0

end Sample
end FirmwareUpdate
