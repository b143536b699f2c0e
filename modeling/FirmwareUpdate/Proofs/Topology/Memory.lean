import FirmwareUpdate.Topology.Memory

/-! Memories that have been registered lie on their devices as they were checked, and their slots do
not meet. -/
namespace FirmwareUpdate

/-- No position is for the application and for updates. -/
theorem Content.ofPosition_update {tier : Tier} {position : Nat} {policy : Policy}
    (h : (ofPosition tier position policy).update = true) : (ofPosition tier position policy).application = false := by
  unfold ofPosition at h ⊢
  split
  · cases h
  all_goals
    try split
    all_goals rfl

/-- The devices are of the same sizes, whatever is on them. -/
structure Devices.Alike {n k : Nat} (d d' : Devices n k) : Prop where
  geometry : ∀ device, d'.geometry device = d.geometry device
  granule : ∀ device, d'.granule device = d.granule device

namespace Memory
variable {n k : Nat} {d d' : Devices n k} {device : DeviceId n k} {index : Nat} {tier : Tier} {policy : Policy}

/-- What registering has checked of the slots of a memory. -/
structure Registered (d : Devices n k) (device : DeviceId n k) (slots : List Slot) : Prop where
  fits : ∀ slot ∈ slots, checkSlot d device slot.toSlotPlan = .ok ()
  apart : slots.Pairwise fun a b => a.toSlotPlan.meets b.toSlotPlan = false
  roles : ∀ slot ∈ slots, slot.content.update = true → slot.content.application = false

/-- A slot that is registered has passed both checks, and those after it are registered in turn. -/
theorem registerSlots_cons {earlier later : List SlotPlan} {plan : SlotPlan} {slots : List Slot}
    (h : registerSlots d device index tier policy earlier (plan :: later) = .ok slots) :
    checkSlot d device plan = .ok () ∧ (∀ other ∈ earlier, other.meets plan = false) ∧
      ∃ rest, registerSlots d device index tier policy (earlier ++ [plan]) later = .ok rest ∧
        slots = ⟨plan, Content.ofPosition tier earlier.length policy, index⟩ :: rest := by
  unfold registerSlots at h
  cases hcheck : checkSlot d device plan with
  | error cause =>
    rw [hcheck] at h
    cases h
  | ok =>
    rw [hcheck] at h
    by_cases hmeets : earlier.any (·.meets plan) = true
    · simp only [bind, Except.bind, if_pos hmeets] at h
      cases h
    · simp only [bind, Except.bind, if_neg hmeets] at h
      cases hrest : registerSlots d device index tier policy (earlier ++ [plan]) later with
      | error cause =>
        rw [hrest] at h
        cases h
      | ok rest =>
        rw [hrest] at h
        cases h
        refine ⟨rfl, fun other hother => Bool.eq_false_iff.mpr fun hyes => hmeets ?_, rest, rfl, rfl⟩
        exact List.any_eq_true.mpr ⟨other, hother, hyes⟩

private theorem registerSlots_ok {earlier later : List SlotPlan} {slots : List Slot}
    (h : registerSlots d device index tier policy earlier later = .ok slots) :
    Registered d device slots ∧
      ∀ plan ∈ earlier, ∀ slot ∈ slots, plan.meets slot.toSlotPlan = false := by
  induction later generalizing earlier slots with
  | nil =>
    cases h
    exact ⟨⟨by simp, .nil, by simp⟩, by simp⟩
  | cons plan later ih =>
    obtain ⟨hcheck, hmeets, rest, hrest, rfl⟩ := registerSlots_cons h
    obtain ⟨⟨hfits, hapart, hroles⟩, hearlier⟩ := ih hrest
    refine ⟨⟨?_, ?_, ?_⟩, ?_⟩
    · rintro slot (_ | ⟨_, hmem⟩)
      · exact hcheck
      · exact hfits slot hmem
    · refine List.pairwise_cons.mpr ⟨fun slot hmem => ?_, hapart⟩
      exact hearlier plan (List.mem_append_right _ List.mem_cons_self) slot hmem
    · rintro slot (_ | ⟨_, hmem⟩)
      · exact Content.ofPosition_update
      · exact hroles slot hmem
    · intro other hother slot hmem
      rcases List.mem_cons.mp hmem with rfl | hmem
      · exact hmeets other hother
      · exact hearlier other (List.mem_append_left _ hother) slot hmem

private theorem registerSlots_placed {earlier later : List SlotPlan} {slots : List Slot}
    (h : registerSlots d device index tier policy earlier later = .ok slots) {i : Nat} {slot : Slot}
    (hi : slots[i]? = some slot) :
    later[i]? = some slot.toSlotPlan ∧ slot.content = Content.ofPosition tier (earlier.length + i) policy := by
  induction later generalizing earlier slots i with
  | nil =>
    cases h
    cases hi
  | cons plan later ih =>
    obtain ⟨-, -, rest, hrest, rfl⟩ := registerSlots_cons h
    cases i with
    | zero =>
      cases hi
      exact ⟨rfl, rfl⟩
    | succ i =>
      obtain ⟨hplan, hcontent⟩ := ih hrest hi
      refine ⟨hplan, hcontent.trans ?_⟩
      rw [List.length_append, List.length_singleton, Nat.add_assoc, Nat.add_comm 1 i]

/-- The memory is one that the plan has been made into: each slot holds what its position says. -/
structure Realizes (policy : Policy) (plan : MemoryPlan) (memory : Memory n k) : Prop where
  tier : memory.tier = plan.tier
  slots : ∀ i slot, memory.slots[i]? = some slot →
    plan.slots[i]? = some slot.toSlotPlan ∧ slot.content = Content.ofPosition plan.tier i policy

/-! ### Devices of the same sizes -/

/-- A slot is checked against the shape of the devices alone. -/
theorem checkSlot_alike (h : d.Alike d') (device : DeviceId n k) (plan : SlotPlan) :
    checkSlot d' device plan = checkSlot d device plan := by
  simp only [checkSlot]
  cases device with
  | flash f =>
    cases plan.location with
    | flash address => simp only [h.geometry]
    | file path => rfl
  | files f =>
    cases plan.location with
    | flash address => rfl
    | file path => simp only [h.granule]

private theorem registerSlots_alike (h : d.Alike d') (earlier later : List SlotPlan) :
    registerSlots d' device index tier policy earlier later =
      registerSlots d device index tier policy earlier later := by
  induction later generalizing earlier with
  | nil => rfl
  | cons plan later ih =>
    simp only [registerSlots]
    rw [checkSlot_alike h, ih]

/-- What is on the devices has no part in what is registered. -/
theorem register_alike (h : d.Alike d') (plan : MemoryPlan) :
    register d' index plan device policy = register d index plan device policy := by
  simp only [register]
  rw [h.granule, registerSlots_alike h]

/-! ### What has been registered -/

/-- A memory that is registered is on its device, has its slots checked and is what its plan says. -/
theorem register_ok {plan : MemoryPlan} {memory : Memory n k}
    (h : register d index plan device policy = .ok memory) :
    memory.device = device ∧ 0 < d.granule device ∧
      (memory.tier = .primary → ∃ f, memory.device = .flash f) ∧ Registered d device memory.slots ∧
      Realizes policy plan memory := by
  unfold register at h
  split at h
  · cases h
  split at h
  · cases h
  split at h
  · cases h
  split at h
  · cases h
  rename_i hmedium hprimary hgranule
  cases hslots : registerSlots d device index plan.tier policy [] plan.slots with
  | error cause =>
    rw [hslots] at h
    cases h
  | ok slots =>
    rw [hslots] at h
    cases h
    refine ⟨rfl, by omega, fun htier => ?_, (registerSlots_ok hslots).1, rfl, fun i slot hi => ?_⟩
    · cases device with
      | flash f => exact ⟨f, rfl⟩
      | files f =>
        have hfiles : plan.medium = .fileSystem := (Decidable.not_not.mp hmedium).symm
        exact (hprimary ⟨htier, by rw [hfiles]; exact Medium.noConfusion⟩).elim
    · have hplaced := registerSlots_placed hslots hi
      rwa [List.length_nil, Nat.zero_add] at hplaced

end Memory
end FirmwareUpdate
