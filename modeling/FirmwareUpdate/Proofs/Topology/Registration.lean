import FirmwareUpdate.Proofs.Topology.Memory
import Mathlib.Logic.Basic
import Mathlib.Tactic.ByContra

/-! Which plans become memories: those that fit their device slot by slot, and of which no two slots
share a byte or a file. -/
namespace FirmwareUpdate
variable {n k : Nat}

/-- A part of a device that can be erased on its own: whole sectors, or sectors up to the end of the device. -/
structure Geometry.Erasable (g : Geometry) (address size : Nat) : Prop where
  size_pos : 0 < size
  base_le : g.base ≤ address
  le_stop : address + size ≤ g.stop
  starts : ∃ i, address = g.base + i * g.sector
  ends : address + size = g.stop ∨ ∃ i, address + size = g.base + i * g.sector

namespace SlotPlan

/-- The slot holds the byte of the flash at an address. -/
def Covers (slot : SlotPlan) (address : Nat) : Prop :=
  ∃ start, slot.location = .flash start ∧ start ≤ address ∧ address < start + slot.size

/-- Two slots hold one byte of the flash, or are one file. -/
def Shares (a b : SlotPlan) : Prop :=
  (∃ address, a.Covers address ∧ b.Covers address) ∨
    ∃ path, a.location = .file path ∧ b.location = .file path

/-- Regions that are not empty meet exactly where they have a byte in common: the later start is one. -/
theorem meets_iff_shares {a b : SlotPlan} (ha : 0 < a.size) (hb : 0 < b.size) :
    a.meets b = true ↔ a.Shares b := by
  obtain ⟨place, size⟩ := a
  obtain ⟨place', size'⟩ := b
  cases place with
  | flash start =>
    cases place' with
    | flash start' =>
      simp only [meets, Shares, Covers, decide_eq_true_eq, Location.flash.injEq] at ha hb ⊢
      constructor
      · rintro ⟨hbelow, habove⟩
        exact .inl ⟨max start start', ⟨start, rfl, by omega, by omega⟩, start', rfl, by omega, by omega⟩
      · rintro (⟨address, ⟨first, rfl, hlow, hhigh⟩, second, rfl, hlow', hhigh'⟩ | ⟨path, hpath, -⟩)
        · exact ⟨by omega, by omega⟩
        · cases hpath
    | file path => simp [meets, Shares, Covers]
  | file path =>
    cases place' with
    | flash start => simp [meets, Shares, Covers]
    | file path' => simp [meets, Shares, Covers, eq_comm]

end SlotPlan

namespace Memory

/-- What is asked of a slot on its own: a region of the flash, or a file of whole granules. -/
structure Keepable (d : Devices n k) (device : DeviceId n k) (slot : SlotPlan) : Prop where
  medium : slot.medium = device.medium
  region : ∀ f address, device = .flash f → slot.location = .flash address →
    (d.geometry f).Erasable address slot.size
  file : ∀ path, slot.location = .file path → 0 < slot.size ∧ d.granule device ∣ slot.size

/-- What is asked of a plan before its slots are compared with each other. -/
structure Registrable (d : Devices n k) (index : Nat) (plan : MemoryPlan) (device : DeviceId n k) :
    Prop where
  index_lt : index < 2
  slots_ne : plan.slots ≠ []
  medium : device.medium = plan.medium
  primary : plan.tier = .primary → plan.medium = .flash
  granule_pos : 1 ≤ d.granule device
  granule_le : d.granule device ≤ 256
  slots : ∀ slot ∈ plan.slots, Keepable d device slot

/-- The slots of a plan as they are registered, the first of them at position `start`. -/
def slotsOf (index : Nat) (tier : Tier) (policy : Policy) (start : Nat) (plans : List SlotPlan) : List Slot :=
  plans.mapIdx fun i slot => { slot with content := .ofPosition tier (start + i) policy, memory := index }

variable {d : Devices n k} {device : DeviceId n k} {index : Nat} {tier : Tier} {policy : Policy}

/-! ### One slot -/

/-- Inside the device, a sector starts at every multiple of the sector size from the base on. -/
theorem isSector_iff_exists {g : Geometry} {address : Nat} (hlow : g.base ≤ address)
    (hhigh : address < g.stop) : g.isSector address = true ↔ ∃ i, address = g.base + i * g.sector := by
  have hinside : g.contains address 1 = true := Geometry.contains_iff.mpr ⟨hlow, hhigh⟩
  simp only [Geometry.isSector, hinside, true_and, decide_eq_true_eq]
  constructor
  · intro h
    obtain ⟨i, hi⟩ := Nat.dvd_of_mod_eq_zero h
    exact ⟨i, by rw [Nat.mul_comm i, ← hi]; omega⟩
  · rintro ⟨i, rfl⟩
    rw [Nat.add_sub_cancel_left, Nat.mul_mod_left]

/-- A range fits a device exactly if it can be erased. -/
theorem regionFits_iff_erasable {g : Geometry} {address size : Nat} :
    regionFits g address size = true ↔ g.Erasable address size := by
  simp only [regionFits, Bool.and_eq_true, Bool.or_eq_true, decide_eq_true_eq, Geometry.contains_iff]
  constructor
  · rintro ⟨⟨⟨hsize, hbase, hstop⟩, hstart⟩, hend⟩
    have hpos : 0 < size := Nat.pos_of_ne_zero hsize
    have hstop : address + size ≤ g.stop := hstop
    refine ⟨hpos, hbase, hstop, (isSector_iff_exists hbase (by omega)).mp hstart, ?_⟩
    by_cases hlast : address + size = g.stop
    · exact .inl hlast
    · refine .inr ((isSector_iff_exists (by omega) (by omega)).mp (hend.resolve_left hlast))
  · rintro ⟨hpos, hbase, hstop, hstart, hend⟩
    refine ⟨⟨⟨Nat.ne_of_gt hpos, hbase, hstop⟩, (isSector_iff_exists hbase (by omega)).mpr hstart⟩, ?_⟩
    by_cases hlast : address + size = g.stop
    · exact .inl hlast
    · exact .inr ((isSector_iff_exists (by omega) (by omega)).mpr (hend.resolve_left hlast))

/-- The last sector of the address space can be a slot: where it ends is not an address any more. -/
example : regionFits ⟨UInt32.size - 256, 256, 128, 8, by decide, by decide, by decide⟩ (UInt32.size - 128)
    128 = true := by
  decide

/-- The check on a slot passes exactly if the device can keep it. -/
theorem checkSlot_ok_iff {slot : SlotPlan} : checkSlot d device slot = .ok () ↔ Keepable d device slot := by
  obtain ⟨place, size⟩ := slot
  constructor
  · intro h
    cases device with
    | flash f =>
      cases place with
      | flash address =>
        simp only [checkSlot] at h
        split at h
        case isTrue hfits =>
          refine ⟨rfl, ?_, fun path hpath => Location.noConfusion hpath⟩
          rintro _ _ ⟨⟩ ⟨⟩
          exact regionFits_iff_erasable.mp hfits
        case isFalse => cases h
      | file path => cases h
    | files f =>
      cases place with
      | flash address => cases h
      | file path =>
        simp only [checkSlot] at h
        split at h
        case isTrue hfits =>
          refine ⟨rfl, fun _ _ hdevice => (DeviceId.noConfusion rfl rfl (heq_of_eq hdevice)), fun _ _ => ?_⟩
          exact ⟨Nat.pos_of_ne_zero hfits.1, Nat.dvd_of_mod_eq_zero hfits.2⟩
        case isFalse => cases h
  · rintro ⟨hmedium, hregion, hfile⟩
    cases device with
    | flash f =>
      cases place with
      | flash address => exact if_pos (regionFits_iff_erasable.mpr (hregion f address rfl rfl))
      | file path => cases hmedium
    | files f =>
      cases place with
      | flash address => cases hmedium
      | file path =>
        obtain ⟨hpos, hdvd⟩ := hfile path rfl
        exact if_pos ⟨Nat.ne_of_gt hpos, Nat.mod_eq_zero_of_dvd hdvd⟩

private theorem Keepable.size_pos {slot : SlotPlan} (h : Keepable d device slot) : 0 < slot.size := by
  cases hplace : slot.location with
  | file path => exact (h.file path hplace).1
  | flash address =>
    cases device with
    | flash f => exact (h.region f address rfl hplace).size_pos
    | files f =>
      have hmedium := h.medium
      rw [SlotPlan.medium, hplace] at hmedium
      cases hmedium

/-! ### The slots together -/

/-- Nothing in `later` shares anything with a slot before it, those in `earlier` included. -/
structure Apart (earlier later : List SlotPlan) : Prop where
  across : ∀ a ∈ earlier, ∀ b ∈ later, ¬ a.Shares b
  among : later.Pairwise fun a b => ¬ a.Shares b

private theorem apart_cons {earlier later : List SlotPlan} {plan : SlotPlan} :
    Apart earlier (plan :: later) ↔ (∀ a ∈ earlier, ¬ a.Shares plan) ∧ Apart (earlier ++ [plan]) later := by
  constructor
  · rintro ⟨hacross, hamong⟩
    obtain ⟨hplan, hlater⟩ := List.pairwise_cons.mp hamong
    refine ⟨fun a ha => hacross a ha plan List.mem_cons_self, fun a ha b hb => ?_, hlater⟩
    rcases List.mem_append.mp ha with ha | ha
    · exact hacross a ha b (List.mem_cons_of_mem _ hb)
    · rw [List.mem_singleton.mp ha]
      exact hplan b hb
  · rintro ⟨hplan, hacross, hamong⟩
    refine ⟨fun a ha b hb => ?_, List.pairwise_cons.mpr ⟨fun b hb => ?_, hamong⟩⟩
    · rcases List.mem_cons.mp hb with rfl | hb
      · exact hplan a ha
      · exact hacross a (List.mem_append_left _ ha) b hb
    · exact hacross plan (List.mem_append_right _ List.mem_cons_self) b hb

/-- Slots that get through are all right on their own. -/
theorem keepable_of_registerSlots {earlier later : List SlotPlan} {slots : List Slot}
    (h : registerSlots d device index tier policy earlier later = .ok slots) :
    ∀ slot ∈ later, Keepable d device slot := by
  induction later generalizing earlier slots with
  | nil => exact fun slot hslot => absurd hslot List.not_mem_nil
  | cons plan later ih =>
    obtain ⟨hcheck, -, rest, hrest, -⟩ := registerSlots_cons h
    rintro slot (_ | ⟨_, hslot⟩)
    · exact checkSlot_ok_iff.mp hcheck
    · exact ih hrest slot hslot

open Classical in
private theorem registerSlots_keepable {earlier later : List SlotPlan} {plan : SlotPlan}
    (hearlier : ∀ slot ∈ earlier, 0 < slot.size) (hplan : Keepable d device plan) :
    registerSlots d device index tier policy earlier (plan :: later) =
      if ∀ a ∈ earlier, ¬ a.Shares plan then
        (registerSlots d device index tier policy (earlier ++ [plan]) later).map
          (⟨plan, .ofPosition tier earlier.length policy, index⟩ :: ·)
      else .error .slotsOverlap := by
  -- Slots that are all right on their own are only held up by one that shares something.
  have hmeets : earlier.any (·.meets plan) = true ↔ ¬ ∀ a ∈ earlier, ¬ a.Shares plan := by
    simp only [List.any_eq_true, not_forall, not_not, exists_prop]
    refine exists_congr fun a => and_congr_right fun ha => ?_
    exact SlotPlan.meets_iff_shares (hearlier a ha) hplan.size_pos
  simp only [registerSlots, checkSlot_ok_iff.mpr hplan, bind, Except.bind]
  by_cases hshares : ∀ a ∈ earlier, ¬ a.Shares plan
  · rw [if_pos hshares, if_neg (fun hyes => hmeets.mp hyes hshares)]
    rfl
  · rw [if_neg hshares, if_pos (hmeets.mpr hshares)]

open Classical in
/-- Slots that are all right on their own are registered as they are planned, unless one of them shares
something with a slot before it. -/
theorem registerSlots_of_keepable {earlier later : List SlotPlan} (hearlier : ∀ slot ∈ earlier, 0 < slot.size)
    (hlater : ∀ slot ∈ later, Keepable d device slot) :
    registerSlots d device index tier policy earlier later =
      if Apart earlier later then .ok (slotsOf index tier policy earlier.length later)
      else .error .slotsOverlap := by
  induction later generalizing earlier with
  | nil =>
    rw [if_pos ⟨fun _ _ _ hb => absurd hb List.not_mem_nil, .nil⟩]
    rfl
  | cons plan later ih =>
    have hplan := hlater plan List.mem_cons_self
    have hsizes : ∀ slot ∈ earlier ++ [plan], 0 < slot.size := by
      intro slot hslot
      rcases List.mem_append.mp hslot with hslot | hslot
      · exact hearlier slot hslot
      · rw [List.mem_singleton.mp hslot]
        exact hplan.size_pos
    rw [registerSlots_keepable hearlier hplan, ih hsizes fun slot hslot => hlater slot (List.mem_cons_of_mem _ hslot)]
    by_cases hshares : ∀ a ∈ earlier, ¬ a.Shares plan
    · by_cases hrest : Apart (earlier ++ [plan]) later
      · rw [if_pos hshares, if_pos hrest, if_pos (apart_cons.mpr ⟨hshares, hrest⟩)]
        simp [Except.map, slotsOf, List.mapIdx_cons, Nat.add_assoc, Nat.add_comm 1]
      · rw [if_pos hshares, if_neg hrest, if_neg fun hall => hrest (apart_cons.mp hall).2]
        rfl
    · rw [if_neg hshares, if_neg fun hall => hshares (apart_cons.mp hall).1]

/-! ### The whole plan -/

open Classical in
/-- A plan that is all right so far is judged by its slots. -/
theorem register_of_registrable {plan : MemoryPlan} (h : Registrable d index plan device) :
    register d index plan device policy =
      if plan.slots.Pairwise fun a b => ¬ a.Shares b then
        .ok ⟨plan.tier, device, slotsOf index plan.tier policy 0 plan.slots⟩
      else .error .slotsOverlap := by
  have hapart : Apart [] plan.slots ↔ plan.slots.Pairwise fun a b => ¬ a.Shares b :=
    ⟨Apart.among, fun hamong => ⟨fun a ha => absurd ha List.not_mem_nil, hamong⟩⟩
  have hsome : ¬ (memoryLimit ≤ index ∨ plan.slots = []) :=
    not_or.mpr ⟨Nat.not_le.mpr h.index_lt, h.slots_ne⟩
  have hprimary : ¬ (plan.tier = .primary ∧ plan.medium ≠ .flash) := fun hboth => hboth.2 (h.primary hboth.1)
  have hgranule : ¬ (d.granule device = 0 ∨ granuleLimit < d.granule device) :=
    not_or.mpr ⟨Nat.ne_of_gt h.granule_pos, Nat.not_lt.mpr h.granule_le⟩
  rw [register, if_neg hsome, if_neg (not_not.mpr h.medium), if_neg hprimary, if_neg hgranule,
    registerSlots_of_keepable (fun slot hslot => absurd hslot List.not_mem_nil) h.slots]
  simp only [hapart]
  split
  · rfl
  · rfl

/-- A memory that is registered could be. -/
theorem registrable_of_register {plan : MemoryPlan} {memory : Memory n k}
    (h : register d index plan device policy = .ok memory) : Registrable d index plan device := by
  unfold register at h
  split at h
  · cases h
  split at h
  · cases h
  split at h
  · cases h
  split at h
  · cases h
  rename_i hsome hmedium hprimary hgranule
  obtain ⟨hindex, hslots⟩ := not_or.mp hsome
  obtain ⟨hpos, hle⟩ := not_or.mp hgranule
  refine ⟨Nat.lt_of_not_le hindex, hslots, not_not.mp hmedium, fun htier => ?_, Nat.pos_of_ne_zero hpos,
    Nat.le_of_not_lt hle, ?_⟩
  · exact not_not.mp fun hother => hprimary ⟨htier, hother⟩
  · cases hregistered : registerSlots d device index plan.tier policy [] plan.slots with
    | error cause =>
      rw [hregistered] at h
      cases h
    | ok slots => exact keepable_of_registerSlots hregistered

/-- A memory is registered exactly when its plan fits the device and no two slots share a byte or a file;
its slots are then those of the plan, in order, each with what its position says it holds. A plan that
fits but for slots that share something is refused for that. -/
theorem register_exact (d : Devices n k) (index : Nat) (plan : MemoryPlan) (device : DeviceId n k)
    (policy : Policy) :
    ((∃ memory, register d index plan device policy = .ok memory) ↔
        Registrable d index plan device ∧ plan.slots.Pairwise fun a b => ¬ a.Shares b) ∧
      (∀ memory, register d index plan device policy = .ok memory →
        memory.tier = plan.tier ∧ memory.device = device ∧
          memory.slots = plan.slots.mapIdx fun i slot =>
            { slot with content := .ofPosition plan.tier i policy, memory := index }) ∧
      (Registrable d index plan device → ¬ plan.slots.Pairwise (fun a b => ¬ a.Shares b) →
        register d index plan device policy = .error .slotsOverlap) := by
  refine ⟨⟨fun ⟨memory, hmemory⟩ => ?_, fun ⟨hfits, hapart⟩ => ?_⟩, fun memory hmemory => ?_, fun hfits hshares => ?_⟩
  · have hfits := registrable_of_register hmemory
    refine ⟨hfits, ?_⟩
    by_contra hshares
    rw [register_of_registrable hfits, if_neg hshares] at hmemory
    cases hmemory
  · exact ⟨_, (register_of_registrable hfits).trans (if_pos hapart)⟩
  · rw [register_of_registrable (registrable_of_register hmemory)] at hmemory
    split at hmemory
    · cases hmemory
      exact ⟨rfl, rfl, by simp only [slotsOf, Nat.zero_add]⟩
    · cases hmemory
  · exact (register_of_registrable hfits).trans (if_neg hshares)

end Memory
end FirmwareUpdate
