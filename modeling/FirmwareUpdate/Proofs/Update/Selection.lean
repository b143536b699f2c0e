import FirmwareUpdate.Proofs.Update.Choice
import Mathlib.Order.Defs.Unbundled

/-! The choice between the images. To be newer is only a partial order where rollback is not allowed, but the choice is
never one that another candidate is newer than. -/
namespace FirmwareUpdate
variable {n k : Nat}

/-- To be newer is a strict partial order, whether or not rollback is allowed. -/
theorem Header.supersedes_strictOrder (forwardOnly : Bool) :
    IsStrictOrder Header fun a b => a.supersedes b forwardOnly = true where
  irrefl _ := not_supersedes_self
  trans _ _ _ hab hbc := supersedes_trans hbc hab

namespace Engine
variable {e : Engine n k} {application slot : SlotId} {header running : Header} {chosen : Choice}

/-- The slot is for updates, or for the backup to fall back on, and starts with this header. -/
def Candidate (e : Engine n k) (slot : SlotId) (header : Header) : Prop :=
  (e.staged? = .ok slot ∨ e.backup? = some slot) ∧ e.headerAt? slot = some header

/-- No candidate is newer. -/
def Unsurpassed (e : Engine n k) (header : Header) : Prop :=
  ∀ slot found, e.Candidate slot found → ¬found.supersedes header e.policy.forwardOnly = true

/-- The application is kept if no candidate is newer. Otherwise one that is newer is chosen that no other one is newer
than, and if that is so of the update, it is the update. -/
structure Elects (e : Engine n k) (application : SlotId) (running : Header) (chosen : Choice) : Prop where
  current : chosen = .current application ↔ e.Unsurpassed running
  update : chosen ≠ .current application → ∃ slot header, chosen = .update slot ∧ e.Candidate slot header ∧
    header.supersedes running e.policy.forwardOnly = true ∧ e.Unsurpassed header ∧
    (e.policy.forwardOnly = false → ∀ other found, e.Candidate other found → found.index ≤ header.index)
  staged : ∀ slot header, e.staged? = .ok slot → e.headerAt? slot = some header →
    header.supersedes running e.policy.forwardOnly = true → e.Unsurpassed header → chosen = .update slot

private theorem mem_contenders : slot ∈ e.contenders ↔ e.staged? = .ok slot ∨ e.backup? = some slot := by
  simp only [contenders]
  cases hstaged : e.staged? with
  | error cause => simp [Except.toOption, Option.mem_toList]
  | ok staged =>
    by_cases hsame : slot = staged
    · simp [Except.toOption, hsame]
    · simp [Except.toOption, hsame, Ne.symm hsame, eq_comm]

private theorem unsurpassed_iff : e.Unsurpassed header ↔ ∀ slot ∈ e.contenders, ∀ found, e.headerAt? slot = some found →
    ¬found.supersedes header e.policy.forwardOnly = true :=
  ⟨fun h slot hmem found hfound => h slot found ⟨mem_contenders.mp hmem, hfound⟩,
    fun h slot found hcandidate => h slot (mem_contenders.mpr hcandidate.1) found hcandidate.2⟩

/-- Without the versions, the index is all that counts. -/
theorem Unsurpassed.index_le (h : e.Unsurpassed header) (hbackward : e.policy.forwardOnly = false) {found : Header}
    (hfound : e.Candidate slot found) : found.index ≤ header.index := by
  refine UInt32.not_lt.mp fun hlower => h slot found hfound ?_
  rw [Header.supersedes_iff, hbackward]
  exact ⟨hlower, nofun⟩

/-- The update is looked at first. -/
theorem newest_staged (hstaged : e.staged? = .ok slot) (hheader : e.headerAt? slot = some header)
    (hnewer : header.supersedes running e.policy.forwardOnly = true) (hbest : e.Unsurpassed header) :
    e.newest application running = .update slot := by
  have hrest := unsurpassed_iff.mp hbest
  simp only [newest, contenders] at hrest ⊢
  rw [hstaged] at hrest ⊢
  simp only [Except.toOption, Option.toList, List.singleton_append] at hrest ⊢
  simp only [newestFrom, hheader, if_pos hnewer]
  exact newestFrom_eq fun other hmem => hrest other (List.mem_cons_of_mem slot hmem)

/-- The newest image is one that the rule of election allows. -/
theorem newest_elects (e : Engine n k) (application : SlotId) (running : Header) :
    e.Elects application running (e.newest application running) where
  current := ⟨fun h => unsurpassed_iff.mpr (newestFrom_current h).2, fun h => newestFrom_eq (unsurpassed_iff.mp h)⟩
  update hchanged := by
    cases hchosen : e.newest application running with
    | current slot =>
      obtain ⟨hsame, -⟩ := newestFrom_current hchosen
      exact absurd (hchosen.trans hsame.symm) hchanged
    | update slot =>
      obtain ⟨hmem, header, hheader, hnewer⟩ := (newestFrom_update hchosen).resolve_left nofun
      have hbest : e.Unsurpassed header := unsurpassed_iff.mpr (newestFrom_newest hchosen hheader nofun).2
      exact ⟨slot, header, rfl, ⟨mem_contenders.mp hmem, hheader⟩, hnewer, hbest,
        fun hbackward _ _ => hbest.index_le hbackward⟩
  staged _ _ := newest_staged

/-- Unless a device is at fault, choosing fails only where the application slot has no header, and otherwise it chooses
the newest of the candidates that have one; to be newer is a strict partial order. No byte changes. -/
theorem choose_elects (he : e.InService) (happlication : e.application? = .ok application) :
    (∀ forwardOnly, IsStrictOrder Header fun a b => a.supersedes b forwardOnly = true) ∧
      choose.Ends e
        (fun chosen e' => e.Still e' ∧ (e.Faulted e' ∨
          ∃ running, e.headerAt? application = some running ∧ e.Elects application running chosen))
        (fun _ e' => e.Still e' ∧ (e.Faulted e' ∨ e.headerAt? application = none)) False := by
  refine ⟨Header.supersedes_strictOrder, (he.choose_ends happlication).imp ?_ ?_ id⟩
  · rintro chosen e' ⟨hstill, hended⟩
    refine ⟨hstill, hended.imp id fun hchosen => ?_⟩
    obtain ⟨running, hrunning, rfl⟩ := hchosen
    exact ⟨running, hrunning, newest_elects e application running⟩
  · exact fun _ e' hended => ⟨hended.1, hended.2.imp FaultedAt.faulted id⟩

-- An image with this index and this version.
private def versioned (index : UInt32) (version : Version) : Bytes :=
  match (Image.ofPayload index version (Bytes.ofWord 0)).encode with
  | .ok bytes => bytes
  | .error _ => []

-- Rollback is not allowed.
private def forwardPlan : Plan := { Sample.plan 0 with policy := { fallback := true, forwardOnly := true } }

/-- The update has the higher index and the backup the higher version, so that neither is newer, and the update is
chosen. -/
theorem sample_choose_elects : ∃ (e e' : Engine 1 0) (update backup : Header), e.policy.forwardOnly = true ∧
    e.Candidate ⟨0, 1⟩ update ∧ e.Candidate ⟨0, 2⟩ backup ∧ update.supersedes backup true = false ∧
    backup.supersedes update true = false ∧ choose e = .ok (.update ⟨0, 1⟩) e' ∧
    ∃ running, e.Elects ⟨0, 0⟩ running (.update ⟨0, 1⟩) := by
  have hcheck : ((bringUp forwardPlan (.flash 0) none {}).passes
      (Sample.board (versioned 1 ⟨1, 0, 0⟩) (versioned 3 ⟨1, 1, 0⟩) (versioned 2 ⟨2, 0, 0⟩)) fun e _ =>
        choose.passes e fun chosen e' => decide (e.policy.forwardOnly = true ∧ e.storage.find? .anUpdate = some ⟨0, 1⟩ ∧
          e.backup? = some ⟨0, 2⟩ ∧ e.storage.find? .theApplication = some ⟨0, 0⟩ ∧ chosen = .update ⟨0, 1⟩ ∧
          e'.storage.faultsOn (.flash 0) = e.storage.faultsOn (.flash 0) ∧
          (e.headerAt? ⟨0, 1⟩).any fun update => (e.headerAt? ⟨0, 2⟩).any fun backup =>
            !update.supersedes backup true && !backup.supersedes update true)) = true := by
    decide +kernel
  obtain ⟨e, after, hup, hcheck⟩ := Action.exists_of_passes hcheck
  obtain ⟨chosen, e', hchose, hchecked⟩ := Action.exists_of_passes hcheck
  obtain ⟨hforward, hstaged, hbackup, hfind, rfl, hquiet, hheaders⟩ := of_decide_eq_true hchecked
  obtain ⟨update, hupdate⟩ := Option.isSome_iff_exists.mp (Option.isSome_of_any hheaders)
  rw [hupdate, Option.any_some] at hheaders
  obtain ⟨backup, hspare⟩ := Option.isSome_iff_exists.mp (Option.isSome_of_any hheaders)
  rw [hspare, Option.any_some, Bool.and_eq_true, Bool.not_eq_true', Bool.not_eq_true'] at hheaders
  have he := ((bringUp_ends (by simp)).done_of_ok hup).1
  obtain ⟨-, hended⟩ := (choose_elects he (by rw [application?, hfind])).2.done_of_ok hchose
  obtain ⟨running, -, helects⟩ := hended.resolve_left (Sample.not_faulted hquiet)
  exact ⟨e, e', update, backup, hforward, ⟨Or.inl (by rw [staged?, hstaged]), hupdate⟩, ⟨Or.inr hbackup, hspare⟩,
    hheaders.1, hheaders.2, hchose, running, helects⟩

end Engine
end FirmwareUpdate
