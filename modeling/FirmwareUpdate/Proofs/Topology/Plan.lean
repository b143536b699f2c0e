import FirmwareUpdate.Topology.Content
import FirmwareUpdate.Topology.SlotId

/-! The places that a plan gives to the roles. Where the tiers fit there is at most one for each of them. -/
namespace FirmwareUpdate
namespace Plan
variable {plan : Plan} {slot : SlotId} {content : Content}

/-- What the slot at a place is to hold, if the plan has one there. -/
def contentAt? (plan : Plan) (slot : SlotId) : Option Content :=
  match plan.memories[slot.memory]? with
  | none => none
  | some memory =>
    if slot.index < memory.slots.length then some (Content.ofPosition memory.tier slot.index plan.policy) else none

/-- The plan has no slot of this role. -/
def Lacks (plan : Plan) (role : Content → Prop) : Prop :=
  ∀ slot content, plan.contentAt? slot = some content → ¬role content

private theorem contentAt?_eq (hfit : plan.tiersFit = true) (h : plan.contentAt? slot = some content) :
    slot.memory = 0 ∧ content = Content.ofPosition .primary slot.index plan.policy ∨
      slot.memory = 1 ∧ plan.policy.secondMemory = true ∧
        content = Content.ofPosition .secondary slot.index plan.policy := by
  have hlimit := plan.memories_le
  unfold contentAt? at h
  split at h
  · cases h
  rename_i memory hmemory
  split at h
  · cases h
    unfold tiersFit at hfit
    split at hfit
    · rename_i hnone
      rw [hnone] at hmemory
      cases hmemory
    · rename_i first hone
      rw [hone] at hmemory
      cases hm : slot.memory with
      | zero =>
        rw [hm] at hmemory
        cases hmemory
        simp only [Bool.and_eq_true, decide_eq_true_eq] at hfit
        exact Or.inl ⟨rfl, by rw [hfit.1]⟩
      | succ m =>
        rw [hm] at hmemory
        cases hmemory
    · rename_i first second rest htwo
      rw [htwo] at hmemory hlimit
      simp only [Bool.and_eq_true, decide_eq_true_eq] at hfit
      obtain ⟨⟨hfirst, hsecond⟩, hwanted⟩ := hfit
      obtain rfl : rest = [] := by simpa [memoryLimit] using hlimit
      rcases hm : slot.memory with _ | _ | m
      · rw [hm] at hmemory
        cases hmemory
        exact Or.inl ⟨rfl, by rw [hfirst]⟩
      · rw [hm] at hmemory
        cases hmemory
        exact Or.inr ⟨rfl, hwanted, by rw [hsecond]⟩
      · rw [hm] at hmemory
        cases hmemory
  · cases h

/-- Only the first position is for the application. -/
theorem application_at (hfit : plan.tiersFit = true) (h : plan.contentAt? slot = some content)
    (hrole : content.application = true) : slot = ⟨0, 0⟩ := by
  obtain ⟨m, i⟩ := slot
  rcases contentAt?_eq hfit h with ⟨rfl, rfl⟩ | ⟨rfl, -, rfl⟩
  · rcases i with _ | _ | _ | i
    · rfl
    all_goals
      simp only [Content.ofPosition] at hrole
      try split at hrole
      all_goals cases hrole
  · rcases i with _ | _ | i <;> cases hrole

/-- Where updates are staged. -/
def stagedAt (plan : Plan) : SlotId := if plan.policy.secondMemory then ⟨1, 0⟩ else ⟨0, 1⟩

/-- Only one slot is planned for updates. -/
theorem update_at (hfit : plan.tiersFit = true) (h : plan.contentAt? slot = some content)
    (hrole : content.update = true) : slot = plan.stagedAt := by
  obtain ⟨m, i⟩ := slot
  rcases contentAt?_eq hfit h with ⟨rfl, rfl⟩ | ⟨rfl, hsecond, rfl⟩
  · rcases i with _ | _ | _ | i
    · cases hrole
    · simp only [Content.ofPosition] at hrole
      split at hrole
      · cases hrole
      · rename_i hone
        simp [stagedAt, hone]
    · simp only [Content.ofPosition] at hrole
      split at hrole <;> cases hrole
    · cases hrole
  · rcases i with _ | _ | i
    · simp [stagedAt, hsecond]
    all_goals cases hrole

/-- Where the backup is kept when one is wanted. -/
def backupAt (plan : Plan) : SlotId := if plan.policy.secondMemory then ⟨1, 1⟩ else ⟨0, 2⟩

/-- Only one slot is planned for the backup. -/
theorem backup_at (hfit : plan.tiersFit = true) (h : plan.contentAt? slot = some content)
    (hrole : content = .aBackup) : slot = plan.backupAt := by
  obtain ⟨m, i⟩ := slot
  subst hrole
  rcases contentAt?_eq hfit h with ⟨rfl, hcontent⟩ | ⟨rfl, hsecond, hcontent⟩
  · rcases i with _ | _ | _ | i
    · cases hcontent
    · simp only [Content.ofPosition] at hcontent
      split at hcontent <;> cases hcontent
    · simp only [Content.ofPosition] at hcontent
      split at hcontent
      · cases hcontent
      · rename_i hone
        simp [backupAt, hone]
    · cases hcontent
  · rcases i with _ | _ | i
    · cases hcontent
    · simp [backupAt, hsecond]
    · cases hcontent

/-- Updates are planned for the second memory exactly if there is to be one. -/
theorem stagedAt_memory : plan.stagedAt.memory = 0 ↔ plan.policy.secondMemory = false := by
  simp only [stagedAt]
  split <;> simp_all

/-- Updates are not planned for where the application is. -/
theorem stagedAt_ne_first : plan.stagedAt ≠ ⟨0, 0⟩ := by
  simp only [stagedAt]
  split <;> simp

/-- The backup is not planned for where updates are. -/
theorem backupAt_ne_stagedAt : plan.backupAt ≠ plan.stagedAt := by
  simp only [backupAt, stagedAt]
  split <;> simp

end Plan
end FirmwareUpdate
