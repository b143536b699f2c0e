import FirmwareUpdate.Proofs.Boot.Route
import FirmwareUpdate.Proofs.Topology.Plan
import FirmwareUpdate.Proofs.Update.Assembly

/-! The roles of the slots. An engine comes up only if every role has its slot, and nothing that it is asked to do
moves a role or a slot. -/
namespace FirmwareUpdate
variable {n k : Nat}

/-- The slots have no address and no file in common. -/
def Slot.Apart (a b : Slot) : Prop :=
  match a.location, b.location with
  | .flash start, .flash start' => start + a.size ≤ start' ∨ start' + b.size ≤ start
  | .file path, .file path' => path ≠ path'
  | _, _ => True

private theorem Slot.apart_of_not_meets {a b : Slot} (h : a.toSlotPlan.meets b.toSlotPlan = false) : a.Apart b := by
  unfold Slot.Apart
  unfold SlotPlan.meets at h
  split
  · simp_all only [decide_eq_false_iff_not]
    omega
  · simp_all only [decide_eq_false_iff_not]
    exact h
  · trivial

namespace Storage
variable {s : Storage n k} {slot : SlotId} {role : Content → Prop}

/-- The slot has the role, and no other slot has it. -/
structure Sole (s : Storage n k) (role : Content → Prop) (slot : SlotId) : Prop where
  found : ∃ memory entry, s.lookup? slot = .ok (memory, entry) ∧ role entry.content
  only : ∀ other memory entry, s.lookup? other = .ok (memory, entry) → role entry.content → other = slot

/-- The slot is of the kind of the device, and on flash it is a region of it. -/
def HasRegion (s : Storage n k) (device : DeviceId n k) (slot : Slot) : Prop :=
  match device, slot.location with
  | .flash d, .flash address =>
    (s.flash d).geometry.base ≤ address ∧ address + slot.size ≤ (s.flash d).geometry.stop
  | .files _, .file _ => True
  | _, _ => False

private theorem hasRegion_of_checkSlot {device : DeviceId n k} {slot : Slot}
    (h : Memory.checkSlot s.devices device slot.toSlotPlan = .ok ()) : s.HasRegion device slot := by
  unfold HasRegion
  split
  · rename_i d address ha
    have hregion := region_of_checkSlot h ha
    exact ⟨hregion.base_le, hregion.le_stop⟩
  · trivial
  · rename_i hflash hfile
    unfold Memory.checkSlot at h
    split at h
    · exact hflash _ _ rfl (by assumption)
    · exact hfile _ _ rfl (by assumption)
    · cases h

end Storage

namespace Engine
variable {e : Engine n k}

/-- Every role has one slot, which the engine knows, and the slots of a memory lie apart on its device. -/
structure Topology (e : Engine n k) : Prop where
  application : e.storage.Sole (·.application = true) ⟨0, 0⟩
  runs : e.application? = .ok ⟨0, 0⟩
  onFlash : ∃ memory entry d address, e.storage.lookup? ⟨0, 0⟩ = .ok (memory, entry) ∧ memory.device = .flash d ∧
    entry.location = .flash address
  staged : ∃ slot, e.staged? = .ok slot ∧ e.storage.Sole (·.update = true) slot ∧
    (slot.memory = 0 ↔ e.policy.secondMemory = false)
  backup : e.policy.fallback = true → ∃ slot, e.backup? = some slot ∧ e.storage.Sole (· = .aBackup) slot ∧
    slot ≠ ⟨0, 0⟩ ∧ e.staged? ≠ .ok slot
  noBackup : e.policy.fallback = false → e.backup? = none
  apart : ∀ memory ∈ e.storage.memories, memory.slots.Pairwise Slot.Apart
  inside : ∀ memory ∈ e.storage.memories, ∀ slot ∈ memory.slots, e.storage.HasRegion memory.device slot
  contenders : e.contenders.Nodup ∧ ⟨0, 0⟩ ∉ e.contenders

-- The engine has the memories of a plan whose tiers fit, with a slot for each role.
private structure Realizes (plan : Plan) (e : Engine n k) : Prop where
  policy : e.policy = plan.policy
  tiers : plan.tiersFit = true
  content : ∀ slot memory entry, e.storage.lookup? slot = .ok (memory, entry) →
    plan.contentAt? slot = some entry.content
  checked : ∀ memory ∈ e.storage.memories, ∀ slot ∈ memory.slots,
    Memory.checkSlot e.storage.devices memory.device slot.toSlotPlan = .ok ()
  apart : ∀ memory ∈ e.storage.memories,
    memory.slots.Pairwise fun a b => a.toSlotPlan.meets b.toSlotPlan = false
  runs : ∃ slot, e.application? = .ok slot ∧ e.storage.hasTier slot .primary = true
  onFlash : ∀ memory ∈ e.storage.memories, memory.tier = .primary → ∃ d, memory.device = .flash d
  stages : ∃ slot, e.staged? = .ok slot
  backs : e.policy.fallback = true → ∃ slot, e.backup? = some slot

private theorem Assembled.contentAt? {devices : Devices n k} {plan : Plan} {hosts : List (DeviceId n k)}
    {t : Storage n k} (h : Assembled devices plan hosts t) {slot : SlotId} {memory : Memory n k} {entry : Slot}
    (hl : t.lookup? slot = .ok (memory, entry)) : plan.contentAt? slot = some entry.content := by
  obtain ⟨hm, he⟩ := Storage.getElem?_of_lookup? hl
  obtain ⟨memoryPlan, hplan, hrealizes⟩ := h.realizes _ _ hm
  obtain ⟨hslot, hcontent⟩ := hrealizes.slots _ _ he
  simp only [Plan.contentAt?, hplan]
  rw [if_pos (List.getElem?_eq_some_iff.mp hslot).1, hcontent]

/-- The application is on the first of the devices that the engine is brought up on. -/
theorem bringUp_application {plan : Plan} {primary : DeviceId n k} {secondary : Option (DeviceId n k)}
    {backend : Backend} {s : Storage n k} :
    (bringUp plan primary secondary backend).Ends s
      (fun e _ => ∀ slot memory entry, e.application? = .ok slot → e.storage.lookup? slot = .ok (memory, entry) →
        memory.device = primary)
      (fun _ _ => True) True := by
  refine bringUp_assembles.imp ?_ (fun _ _ h => h) id
  rintro e _ ⟨htiers, -, t, hassembled, hsetup⟩ slot memory entry hrole hl
  have hlookup : t.lookup? slot = .ok (memory, entry) := (hsetup.lookup? slot).symm.trans hl
  obtain ⟨memory', entry', hl', hcontent⟩ := lookup_application hrole
  rw [hl] at hl'
  cases hl'
  obtain rfl := Plan.application_at htiers (hassembled.contentAt? hlookup) hcontent
  have hfirst : (t.memories.map (·.device))[0]? = some memory.device := by
    rw [List.getElem?_map, (Storage.getElem?_of_lookup? hlookup).1, Option.map_some]
  rw [hassembled.hosts] at hfirst
  exact (Option.some.inj hfirst).symm

private theorem realizes_of_assembled {devices : Devices n k} {plan : Plan} {hosts : List (DeviceId n k)}
    {t : Storage n k} (h : Assembled devices plan hosts t) (htiers : plan.tiersFit = true)
    (hsetup : t.SameSetup e.storage) (hpolicy : e.policy = plan.policy) : e.Realizes plan := by
  have hmemories := hsetup.memories
  have hslots : e.storage.slots = t.slots := by
    simp only [Storage.slots]
    rw [hmemories]
  obtain ⟨⟨application, hfind, htier⟩, ⟨staged, hupdate⟩, hbackup⟩ := requireRoles_ok h.roles
  refine ⟨hpolicy, htiers, ?_, ?_, ?_, ⟨application, ?_, ?_⟩, ?_, ⟨staged, ?_⟩, ?_⟩
  · exact fun slot memory entry hl => h.contentAt? ((hsetup.lookup? slot).symm.trans hl)
  · intro memory hmem slot hslot
    rw [hsetup.checkSlot]
    exact (h.checked memory (hmemories ▸ hmem)).slots.fits slot hslot
  · exact fun memory hmem => (h.checked memory (hmemories ▸ hmem)).slots.apart
  · simp only [application?, Storage.find?] at hfind ⊢
    rw [hslots, hfind]
  · simp only [Storage.hasTier, Storage.tier?] at htier ⊢
    rwa [hsetup.lookup?]
  · exact fun memory hmem => (h.checked memory (hmemories ▸ hmem)).primary
  · simp only [staged?, Storage.find?] at hupdate ⊢
    rw [hslots, hupdate]
  · intro hfallback
    simp only [backup?]
    rw [if_pos hfallback, hslots]
    obtain ⟨⟨slot, entry⟩, hmem, hcontent⟩ := List.any_eq_true.mp (hbackup (hpolicy ▸ hfallback))
    exact Option.isSome_iff_exists.mp (Option.isSome_map.trans (List.find?_isSome.mpr ⟨_, hmem, hcontent⟩))

namespace Realizes
variable {plan : Plan} {slot : SlotId}

private theorem application (h : e.Realizes plan) :
    e.application? = .ok ⟨0, 0⟩ ∧ e.storage.Sole (·.application = true) ⟨0, 0⟩ := by
  obtain ⟨slot, hrun, -⟩ := h.runs
  obtain ⟨memory, entry, hl, hrole⟩ := lookup_application hrun
  have honly : ∀ other memory entry, e.storage.lookup? other = .ok (memory, entry) →
      entry.content.application = true → other = ⟨0, 0⟩ := fun _ _ _ hl =>
    Plan.application_at h.tiers (h.content _ _ _ hl)
  obtain rfl := honly _ _ _ hl hrole
  exact ⟨hrun, ⟨memory, entry, hl, hrole⟩, honly⟩

private theorem first (h : e.Realizes plan) :
    ∃ memory entry d address, e.storage.lookup? ⟨0, 0⟩ = .ok (memory, entry) ∧ memory.device = .flash d ∧
      entry.location = .flash address := by
  obtain ⟨slot, hrun, htier⟩ := h.runs
  obtain rfl : slot = ⟨0, 0⟩ := by
    have hsame := hrun.symm.trans h.application.1
    cases hsame
    rfl
  obtain ⟨memory, entry, hl, -⟩ := lookup_application hrun
  obtain ⟨hm, he⟩ := Storage.getElem?_of_lookup? hl
  have hprimary : memory.tier = .primary := by
    simpa [Storage.hasTier, Storage.tier?, hl, Except.map] using htier
  obtain ⟨d, hd⟩ := h.onFlash memory (List.mem_of_getElem? hm) hprimary
  have hchecked := h.checked memory (List.mem_of_getElem? hm) entry (List.mem_of_getElem? he)
  have hregion := Storage.hasRegion_of_checkSlot hchecked
  cases ha : entry.location with
  | flash address => exact ⟨memory, entry, d, address, hl, hd, ha⟩
  | file path =>
    simp only [Storage.HasRegion, hd, ha] at hregion

private theorem staged (h : e.Realizes plan) :
    e.staged? = .ok plan.stagedAt ∧ e.storage.Sole (·.update = true) plan.stagedAt := by
  obtain ⟨slot, hstaged⟩ := h.stages
  obtain ⟨memory, entry, hl, hrole⟩ := lookup_staged hstaged
  have honly : ∀ other memory entry, e.storage.lookup? other = .ok (memory, entry) →
      entry.content.update = true → other = plan.stagedAt := fun _ _ _ hl =>
    Plan.update_at h.tiers (h.content _ _ _ hl)
  obtain rfl := honly _ _ _ hl hrole
  exact ⟨hstaged, ⟨memory, entry, hl, hrole⟩, honly⟩

private theorem backup (h : e.Realizes plan) (hfallback : e.policy.fallback = true) :
    e.backup? = some plan.backupAt ∧ e.storage.Sole (· = .aBackup) plan.backupAt := by
  obtain ⟨slot, hbackup⟩ := h.backs hfallback
  obtain ⟨-, memory, entry, hl, hrole⟩ := lookup_backup hbackup
  have honly : ∀ other memory entry, e.storage.lookup? other = .ok (memory, entry) →
      entry.content = .aBackup → other = plan.backupAt := fun _ _ _ hl =>
    Plan.backup_at h.tiers (h.content _ _ _ hl)
  obtain rfl := honly _ _ _ hl hrole
  exact ⟨hbackup, ⟨memory, entry, hl, hrole⟩, honly⟩

private theorem contenders (h : e.Realizes plan) : e.contenders.Nodup ∧ ⟨0, 0⟩ ∉ e.contenders := by
  have hstaged := h.staged.1
  have hne : plan.stagedAt ≠ ⟨0, 0⟩ := Plan.stagedAt_ne_first
  simp only [Engine.contenders]
  rw [hstaged]
  cases hbackup : e.backup? with
  | none => simp [Except.toOption, hne.symm]
  | some slot =>
    have hfirst : slot ≠ ⟨0, 0⟩ := backup_ne_application hbackup h.application.1
    by_cases hslot : slot = plan.stagedAt <;> simp [Except.toOption, hslot, hne.symm, hfirst.symm, eq_comm]

private theorem topology (h : e.Realizes plan) : e.Topology where
  application := h.application.2
  runs := h.application.1
  onFlash := h.first
  staged := by
    refine ⟨plan.stagedAt, h.staged.1, h.staged.2, ?_⟩
    rw [h.policy]
    exact Plan.stagedAt_memory
  backup hfallback := by
    obtain ⟨hbackup, hsole⟩ := h.backup hfallback
    refine ⟨plan.backupAt, hbackup, hsole, backup_ne_application hbackup h.application.1, ?_⟩
    rw [h.staged.1]
    exact fun hsame => Plan.backupAt_ne_stagedAt (Except.ok.inj hsame).symm
  noBackup hfallback := by
    simp [backup?, hfallback]
  apart memory hmem := (h.apart memory hmem).imp Slot.apart_of_not_meets
  inside memory hmem slot hslot := Storage.hasRegion_of_checkSlot (h.checked memory hmem slot hslot)
  contenders := h.contenders

end Realizes

/-! ### Whatever is done -/

/-- What an engine can be asked to do, up to a whole boot. -/
inductive Task where
  | onStorage (request : Storage.Request)
  | headerOf (slot : SlotId)
  | examine (slot : SlotId)
  | choose
  | install (source : SlotId)
  | entryPoint (slot : SlotId)
  | release
  | boot
  deriving DecidableEq, Repr

namespace Task

def act : Task → Op n k Unit
  | onStorage request => Engine.onStorage request.act
  | headerOf slot => do
    let _ ← Engine.headerOf slot
  | examine slot => do
    let _ ← Engine.examine slot
  | choose => do
    let _ ← Engine.choose
  | install source => Engine.install source
  | entryPoint slot => do
    let _ ← Engine.entryPoint slot
  | release => Engine.release
  | boot => Action.mapError Empty.elim (Action.focus Boot.ofEngine (fun _ b => b.engine) do
    let _ ← Boot.run)

end Task

/-- Doing the tasks in turn leads there. One that fails is followed by the next as well. -/
inductive Performs : Engine n k → List Task → Engine n k → Prop
  | none (e : Engine n k) : Performs e [] e
  | next (task : Task) (rest : List Task) (e e' e'' : Engine n k) (leaves : task.act.Leaves e e')
      (performs : Performs e' rest e'') : Performs e (task :: rest) e''

variable {e₀ e' : Engine n k} {J : Storage n k → Prop} {trapped : Prop}

/-- A condition is kept by every task if installations, the release and all that is asked of the storage keep it. -/
theorem Keeping.task {I : Engine n k → Prop} (h : Keeping I trapped)
    (hrequest : ∀ request : Storage.Request, Action.Preserves I trapped (onStorage request.act))
    (hinstall : ∀ source, Action.Preserves I trapped (install source)) (hrelease : Action.Preserves I trapped release)
    (task : Task) : Action.Preserves I trapped (task.act : Op n k Unit) := by
  cases task with
  | onStorage request => exact hrequest request
  | headerOf slot => exact .bind h.headerOf fun _ => .pure ()
  | examine slot => exact .bind h.examine fun _ => .pure ()
  | choose => exact .bind h.choose fun _ => .pure ()
  | install source => exact hinstall source
  | entryPoint slot => exact .bind h.entryPoint fun _ => .pure ()
  | release => exact hrelease
  | boot =>
    have hrun : Action.Preserves (fun b : Boot n k => I b.engine) trapped (Boot.run : Boot.Work n k (Option Verdict)) :=
      Boot.run_preserves (Boot.step_keeps h hinstall)
    refine .mapError (Action.Preserves.focus (.bind hrun fun _ => .pure ()) (fun e he => he) ?_)
    exact fun _ b _ hb => hb

/-- No task that is asked of an engine breaks what its upkeep keeps. -/
theorem Upkeep.task (h : Upkeep e₀ J (fun _ => True) trapped) (task : Task) :
    Action.Preserves (Maintained e₀ J) trapped (task.act : Op n k Unit) := by
  refine (keeping h.toUpkeep).task (fun request => ?_) (fun _ => h.install) ?_ task
  · exact onStorage_preserves (h.request request fun _ _ => trivial)
  · refine .bind unloadKey_preserves fun _ => .bind (onStorage_preserves h.release).attempt fun result => ?_
    exact .bind note_preserves fun _ => .ofExcept result

/-- Nor do any number of them. -/
theorem Upkeep.performs (h : Upkeep e₀ J (fun _ => True) trapped) {tasks : List Task}
    (hperforms : Performs e tasks e') (he : Maintained e₀ J e) : Maintained e₀ J e' := by
  induction hperforms with
  | none => exact he
  | next task rest e e' e'' leaves performs ih => exact ih ((h.task task).leaves he leaves)

/-- An engine that comes up has a slot for each role, and only one, and its slots lie apart inside their devices;
it stays so whatever it is asked to do, and however that ends. A plan without a slot for one of the roles is refused,
whatever the devices. -/
theorem topology_of_bringUp (plan : Plan) (primary : DeviceId n k) (secondary : Option (DeviceId n k))
    (backend : Backend) (bare : Storage n k) :
    (∀ e after, bringUp plan primary secondary backend bare = .ok e after →
      ∀ tasks e', Performs e tasks e' → e'.policy = plan.policy ∧ e'.Topology) ∧
    (plan.Lacks (·.application = true) ∨ plan.Lacks (·.update = true) ∨
        (plan.policy.fallback = true ∧ plan.Lacks (· = .aBackup)) →
      ∃ cause, bringUp plan primary secondary backend bare = .error (.error cause) bare) := by
  constructor
  · intro e after hup tasks e' hperforms
    obtain ⟨htiers, hpolicy, t, hassembled, hsetup⟩ := bringUp_assembles.done_of_ok hup
    have hfits := (Storage.fits_of_checked hassembled.checked).congr hsetup
    have hupkeep : Upkeep e e.storage.SameSetup (fun _ => True) e.storage.AtTop :=
      ⟨hfits.upkeep, fun _ _ => trivial, fun _ _ => trivial⟩
    have hstart : Maintained e e.storage.SameSetup e := ⟨.refl _, rfl, rfl, rfl, rfl⟩
    have hend := hupkeep.performs hperforms hstart
    have hpolicy' := hend.policy.trans hpolicy
    exact ⟨hpolicy', (realizes_of_assembled hassembled htiers (hsetup.trans hend.storage) hpolicy').topology⟩
  · intro hlacks
    refine bringUp_refuses fun htiers t hassembled => ?_
    have h := realizes_of_assembled (e := ⟨t, plan.policy, plan.tuning, ⟨[], by decide⟩, backend, none, {}⟩)
      hassembled htiers (.refl t) rfl
    have hfound : ∀ {role : Content → Prop} {slot : SlotId}, plan.Lacks role → ¬t.Sole role slot := by
      intro role slot hlacks hsole
      obtain ⟨memory, entry, hl, hrole⟩ := hsole.found
      exact hlacks slot entry.content (h.content slot memory entry hl) hrole
    rcases hlacks with happlication | hupdate | ⟨hfallback, hbackup⟩
    · exact hfound happlication h.application.2
    · exact hfound hupdate h.staged.2
    · exact hfound hbackup (h.backup hfallback).2

-- Two slots where three are wanted.
private def shortPlan : Plan :=
  { Sample.plan 0 with memories := [⟨.primary, .flash, [⟨.flash 0, 128⟩, ⟨.flash 128, 128⟩], by decide⟩] }

private theorem shortPlan_lacks : shortPlan.Lacks (· = .aBackup) := by
  rintro ⟨_ | m, _ | _ | i⟩ content h
  · cases h
    decide
  · cases h
    decide
  all_goals cases h

/-- An update is installed, its slot erased, and all roles are where they were; without a third slot there is no
engine. -/
theorem sample_topology :
    (∃ e after e', bringUp (Sample.plan 64) (.flash 0) none {}
        (Sample.board (Sample.image 1 [0, 16]) (Sample.image 2 [0, 32]) []) = .ok e after ∧
          Performs e [.boot, .onStorage (.erase ⟨0, 1⟩ 0 128)] e' ∧ e'.Topology) ∧
      ∃ cause, bringUp shortPlan (.flash 0) none {} (Sample.board [] [] []) =
        .error (.error cause) (Sample.board [] [] []) := by
  constructor
  · have hcheck : ((bringUp (Sample.plan 64) (.flash 0) none {}).passes
        (Sample.board (Sample.image 1 [0, 16]) (Sample.image 2 [0, 32]) []) fun e _ =>
          Task.boot.act.passes e fun _ e₁ =>
            (Task.onStorage (.erase ⟨0, 1⟩ 0 128)).act.passes e₁ fun _ _ => true) = true := by
      decide +kernel
    obtain ⟨e, after, hup, hcheck⟩ := Action.exists_of_passes hcheck
    obtain ⟨_, e₁, hboot, hcheck⟩ := Action.exists_of_passes hcheck
    obtain ⟨_, e', herase, -⟩ := Action.exists_of_passes hcheck
    have hperforms : Performs e [.boot, .onStorage (.erase ⟨0, 1⟩ 0 128)] e' :=
      .next _ _ e e₁ e' (Or.inl ⟨_, hboot⟩) (.next _ _ e₁ e' e' (Or.inl ⟨_, herase⟩) (.none e'))
    exact ⟨e, after, e', hup, hperforms, ((topology_of_bringUp _ _ _ _ _).1 e after hup _ e' hperforms).2⟩
  · exact (topology_of_bringUp _ _ _ _ _).2 (Or.inr (Or.inr ⟨rfl, shortPlan_lacks⟩))

end Engine
end FirmwareUpdate
