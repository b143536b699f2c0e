import FirmwareUpdate.Proofs.Boot.Bounded
import FirmwareUpdate.Proofs.Boot.Frame
import FirmwareUpdate.Proofs.Boot.HandOver
import FirmwareUpdate.Proofs.Boot.Recovery

/-! What holds anywhere on the way of a boot, and what is to be shown of a step for it to hold all along. -/
namespace FirmwareUpdate.Boot
variable {n k : Nat} {b b' : Boot n k} {e₀ : Engine n k} {home : Home n k} {verdict : Option Verdict}

/-- What holds of a boot of the engine `e₀` after any number of steps. -/
structure Along (e₀ : Engine n k) (home : Home n k) (b : Boot n k) : Prop where
  reached : (ofEngine e₀).Reaches b
  service : b.engine.InService
  runs : b.engine.RunsAt home
  maintained : Engine.Maintained e₀ (Storage.Orderly (Writes e₀) e₀.storage) b.engine
  routed : Routed b

namespace Reaches

/-- A fault is not forgotten. -/
theorem faulted (hreach : b.Reaches b') (he : b.engine.storage.InOrder) (htidy : b.engine.storage.Tidy)
    (hf : e₀.Faulted b.engine) : e₀.Faulted b'.engine :=
  (hreach.maintained (writes_upkeep he) (maintained_self htidy)).changes.faulted_left hf

variable {I : Boot n k → Prop} (hreach : (ofEngine e₀).Reaches b) (he : e₀.InService) (hhome : e₀.RunsAt home)
  (htidy : e₀.storage.Tidy)
include hreach he hhome htidy

/-- Wherever a boot in service gets, what is to hold all along holds. -/
theorem along : Along e₀ home b := by
  have hupkeep := writes_upkeep he.inOrder
  have hstart := maintained_self htidy
  have hmaintained := hreach.maintained hupkeep hstart
  exact ⟨hreach, he.of_changes hmaintained.changes, hhome.of_changes hmaintained.changes, hmaintained,
    hreach.routed hupkeep hstart (.of_engine e₀)⟩

/-- What every step on the way keeps holds wherever a boot gets. -/
theorem invariant_along (hstart : I (ofEngine e₀))
    (hstep : ∀ b₁ b₂ verdict, Along e₀ home b₁ → Boot.step b₁ = .ok verdict b₂ → I b₁ → I b₂) : I b := by
  induction hreach with
  | refl => exact hstart
  | next b₁ b₂ verdict reached taken ih => exact hstep b₁ b₂ verdict (reached.along he hhome htidy) taken ih

/-- A step may also fail to keep it because of the fault of a device. -/
theorem invariant_or_faulted (hstart : I (ofEngine e₀))
    (hstep : ∀ b₁ b₂ verdict, Along e₀ home b₁ → Boot.step b₁ = .ok verdict b₂ → I b₁ → e₀.Faulted b₂.engine ∨ I b₂) :
    e₀.Faulted b.engine ∨ I b := by
  refine hreach.invariant_along (I := fun b => e₀.Faulted b.engine ∨ I b) he hhome htidy (Or.inr hstart)
    fun b₁ b₂ verdict halong htaken hbefore => ?_
  rcases hbefore with hf | hkept
  · have hnext : b₁.Reaches b₂ := .next b₁ b₂ verdict .refl htaken
    exact Or.inl (hnext.faulted halong.service.inOrder halong.maintained.storage.tidy hf)
  · exact hstep b₁ b₂ verdict halong htaken hkept

end Reaches

/-! ### One step -/

/-- The phase that a boot is in is in its history. -/
theorem Routed.phase_mem (h : Routed b) : b.phase ∈ b.history := List.mem_of_getLast? h.last

/-- A step from `b` to `b'`: the work of the phase leads to `b₁`, and the boot goes on in the phase that follows. -/
structure Proceeds (home : Home n k) (b : Boot n k) (result : PhaseResult) (b₁ b' : Boot n k) : Prop where
  worked : Worked home b b.phase result b₁
  still : b₁.engine.Still b'.engine
  phase : b'.phase = after b.phase result
  tried : b'.backupTried = b₁.backupTried
  longer : b.history ⊆ b'.history
  added : ∀ phase ∈ b'.history, phase ∈ b.history ∨ phase = b'.phase

/-- A step that is taken on the way is the work of a phase, and then a move. -/
theorem Along.proceeds (h : Along e₀ home b) (htaken : step b = .ok verdict b') :
    ∃ result b₁, Proceeds home b result b₁ b' := by
  have hstepped := (step_ends h.service h.runs (fun _ => trivial) (fun _ _ _ => trivial)
    fun _ _ _ _ _ _ => trivial).done_of_ok htaken
  cases hstepped with
  | finished v _ hworked =>
    obtain ⟨hphase, hhistory⟩ := hworked.same_phase
    refine ⟨_, b', hworked, .refl _, hphase, rfl, ?_, fun phase hmem => Or.inl (hhistory ▸ hmem)⟩
    rw [hhistory]
    exact List.Subset.refl _
  | entered next b₁ log hworked =>
    have hroom : b₁.history.length < historyLimit := hworked.same_phase.2 ▸ h.routed.room
    have hphase : (b₁.entering next log).phase = next := entering_phase hroom
    have hhistory : (b₁.entering next log).history = b.history ++ [next] :=
      hworked.same_phase.2 ▸ entering_history hroom
    refine ⟨_, b₁, hworked, Engine.still_log b₁.engine log, hphase, rfl, ?_, ?_⟩
    · exact hhistory ▸ List.subset_append_left _ _
    · rw [hhistory, hphase]
      exact fun phase hmem => (List.mem_append.mp hmem).imp id List.mem_singleton.mp

/-! ### The verdict -/

/-- A run ends with a verdict, in the phase that this reports, and hands over to a fit application only. -/
theorem run_ends_along (he : e₀.InService) (hhome : e₀.RunsAt home) (htidy : e₀.storage.Tidy) :
    run.Ends (ofEngine e₀) (fun verdict b => ∃ v, verdict = some v ∧ b.phase = v.phase ∧ Along e₀ home b ∧
      ∀ table, v = .run table → Fit b.engine home table) (fun _ _ => False) e₀.storage.AtTop := by
  have hreports := run_reports (writes_upkeep he.inOrder) (b := ofEngine e₀) (maintained_self htidy)
  have hguarded : Guarded e₀ home (ofEngine e₀) := ⟨Engine.Changes.refl _ e₀, htidy, nofun⟩
  refine ((hreports.and (hguarded.run_ends he hhome)).and (Action.ends_self run (ofEngine e₀))).imp ?_
    (fun _ _ h => h.1.1) (·.1.1)
  rintro _ b ⟨⟨⟨v, rfl, hphase⟩, -, hfit⟩, hrun⟩
  exact ⟨v, rfl, hphase, (reaches_of_run hrun).along he hhome htidy, fun table htable =>
    hfit table (congrArg some htable)⟩

end FirmwareUpdate.Boot
