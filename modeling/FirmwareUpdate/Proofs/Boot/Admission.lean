import FirmwareUpdate.Proofs.Boot.Along
import FirmwareUpdate.Proofs.Update.Installed

/-! The images that a boot lets in. Only a valid image that is newer than the running one is installed, and nothing is
written before. The image that is committed to is that one, so that its index is higher than that of the image before
it. -/
namespace FirmwareUpdate
variable {n k : Nat}

namespace BootPhase.LeadsTo
variable {phase : BootPhase} {slot : SlotId}

private theorem examineChosen_from (h : phase.LeadsTo (.examineChosen slot)) : phase = .chooseImage := by
  cases h
  rfl

private theorem install_from (h : phase.LeadsTo (.install slot)) : phase = .examineChosen slot := by
  cases h
  rfl

private theorem examineInstalled_from (h : phase.LeadsTo .examineInstalled) :
    (∃ slot, phase = .install slot) ∨ phase = .fallback := by
  cases h with
  | installed slot => exact Or.inl ⟨slot, rfl⟩
  | restored => exact Or.inr rfl

private theorem commit_from (h : phase.LeadsTo .commit) : phase = .examineInstalled := by
  cases h
  rfl

end BootPhase.LeadsTo

namespace Boot
variable {b b' : Boot n k} {e₀ e : Engine n k} {home : Home n k} {J : Storage n k → Prop} {T : SlotId → Prop}
  {P : Place n k → Prop} {slot : SlotId} {phase next : BootPhase} {result : PhaseResult} {verdict : Option Verdict}
  {v : Verdict} {trapped : Prop}

private theorem Moved.leads (h : Moved I b none b') (hrouted : Routed b) : b.phase.LeadsTo b'.phase := by
  cases h with
  | entered next b₁ log follows done =>
    rw [entering_phase (done.history ▸ hrouted.room)]
    exact follows.leads

namespace Worked

private theorem final (h : Worked home b phase (.finish v) b') : phase.isFinal = true := by
  cases h <;> rfl

/-- An installation did not fail unless the boot remembers it. -/
theorem install_ok (h : Worked home b (.install slot) result b') (hok : b'.installFailed = false) :
    Engine.install slot b.engine = .ok () b'.engine := by
  cases h with
  | installed slot e act => exact act
  | notInstalled slot cause e e' act still => cases hok

private theorem commits (h : Worked home b .examineInstalled (.enter next) b') (hnext : next = .commit) :
    b.installFailed = false ∧ b.engine.Still b'.engine := by
  cases h with
  | installedValid e header still valid =>
    refine ⟨?_, still⟩
    cases hfailed : b.installFailed with
    | false => rfl
    | true =>
      rw [hfailed] at hnext
      cases hnext
  | devicesDown | installedRejected =>
    simp only [recourse] at hnext
    split at hnext <;> cases hnext

end Worked

private theorem chooseImage_newer (he : b.engine.InService) (hhome : b.engine.RunsAt home) :
    (chooseImage : Work n k BootPhase).Yields b
      (fun next _ => ∀ slot, next = .examineChosen slot → b.engine.Supersedes slot home.slot) := by
  refine attempt_bind (he.choose_supersedes hhome.role) ?_ (fun _ _ _ _ h => BootPhase.noConfusion h) id
  rintro (slot | slot) e hnewer
  · exact fun _ h => BootPhase.noConfusion h
  · rintro _ ⟨⟩
    exact hnewer slot rfl

/-- Whatever fails, the image that is chosen is newer than the running one. -/
theorem step_chooses (he : b.engine.InService) (hhome : b.engine.RunsAt home) (hphase : b.phase = .chooseImage) :
    step.Yields b (fun _ b' => ∀ slot, b'.phase = .examineChosen slot → b.engine.Supersedes slot home.slot) := by
  simp only [step, Action.Yields]
  rw [Action.ends_get_bind, hphase]
  simp only [work, map_eq_pure_bind, bind_assoc, pure_bind]
  refine (chooseImage_newer he hhome).bind fun next b₁ hnewer => (moveTo_ends b₁ next).yields.bind ?_
  rintro _ _ ⟨log, rfl⟩ slot hentered
  refine hnewer slot ?_
  simp only [entering] at hentered
  split at hentered
  · exact hentered
  · cases hentered

/-! ### What is let in -/

/-- The application slot holds the image of another slot, which has been installed since the start and is newer than
what was there then. -/
def Upgraded (e₀ : Engine n k) (application : SlotId) (b : Boot n k) : Prop :=
  ∃ slot header running, .install slot ∈ b.history ∧ e₀.headerAt? application = some running ∧
    header.supersedes running e₀.policy.forwardOnly = true ∧ b.engine.headerAt? application = some header ∧
      b.engine.headerAt? slot = some header

/-- What holds wherever a boot of the engine `e₀` gets. Nothing has been written before the first installation, so what
is chosen and examined until then is what `e₀` holds. -/
structure Admitted (e₀ : Engine n k) (home : Home n k) (b : Boot n k) : Prop where
  early : b.phase.isEarly = true → e₀.Still b.engine
  untouched : (∀ slot, .install slot ∉ b.history) → .fallback ∉ b.history → e₀.Still b.engine
  chosen : ∀ slot, b.phase = .examineChosen slot → e₀.Supersedes slot home.slot
  candidate : ∀ slot, b.phase = .install slot → e₀.Supersedes slot home.slot ∧ ∃ header, e₀.Valid slot header
  upgraded : .fallback ∉ b.history →
    b.phase = .examineInstalled ∧ b.installFailed = false ∨ b.phase = .commit → Upgraded e₀ home.slot b

namespace Admitted

private theorem of_engine (e : Engine n k) (home : Home n k) : Admitted e home (ofEngine e) :=
  ⟨fun _ => .refl e, fun _ _ => .refl e, fun _ => nofun, fun _ => nofun,
    fun _ hphase => by rcases hphase with ⟨⟨⟩, -⟩ | ⟨⟨⟩⟩⟩

private theorem upgrades (he : e₀.InService) (hhome : e₀.RunsAt home) (hchosen : e₀.Supersedes slot home.slot)
    (hvalid : ∃ header, e₀.Valid slot header) (hstill : e₀.Still b.engine)
    (hinstalled : Engine.install slot b.engine = .ok () e) (hmem : .install slot ∈ b'.history)
    (hlog : e.Still b'.engine) : Upgraded e₀ home.slot b' := by
  obtain ⟨header, running, hheader, hrunning, hnewer⟩ := hchosen
  obtain ⟨found, hvalid⟩ := hvalid
  obtain rfl : found = header := Option.some.inj (hvalid.headerAt?.symm.trans hheader)
  have hne : slot ≠ home.slot := Engine.Supersedes.ne ⟨found, running, hheader, hrunning, hnewer⟩
  have hspread := (he.of_changes hstill.toChanges).install_spreads (hhome.of_changes hstill.toChanges)
    (hstill.valid_iff.mpr hvalid) hne
  obtain ⟨happlication, hsource⟩ := hspread.done_of_ok hinstalled
  refine ⟨slot, found, running, hmem, hrunning, hnewer, ?_, ?_⟩
  · exact (hlog.headerAt? _).trans happlication
  · exact (hlog.headerAt? _).trans hsource

/-- A phase that is entered lets in no more than the one before it. -/
theorem enters {log : Log} (he : e₀.InService) (hhome : e₀.RunsAt home) (hrouted : Routed b)
    (h : Admitted e₀ home b) (hworked : Worked home b b.phase (.enter next) b') (hleads : b.phase.LeadsTo next)
    (hchosen : b.phase = .chooseImage → ∀ slot, next = .examineChosen slot → b.engine.Supersedes slot home.slot) :
    Admitted e₀ home (b'.entering next log) := by
  have hroom : b'.history.length < historyLimit := hworked.same_phase.2 ▸ hrouted.room
  have hphase : (b'.entering next log).phase = next := entering_phase hroom
  have hhistory : (b'.entering next log).history = b.history ++ [next] :=
    hworked.same_phase.2 ▸ entering_history hroom
  have hlog : b'.engine.Still (b'.entering next log).engine := Engine.still_log b'.engine log
  have hmem : b.phase ∈ b.history ++ [next] := List.mem_append_left _ hrouted.phase_mem
  constructor
  case early =>
    rw [hphase]
    intro hearly
    obtain ⟨hbefore, hstill⟩ := hworked.early hearly
    exact (h.early hbefore).trans (hstill.trans hlog)
  case untouched =>
    rw [hhistory]
    intro hinstall hfallback
    -- Only an installation writes, and both phases that make one are excluded.
    rcases hworked.still_or_installs with hstill | ⟨hresult, -⟩
    · have hbefore := h.untouched (fun slot hslot => hinstall slot (List.mem_append_left _ hslot))
        fun hback => hfallback (List.mem_append_left _ hback)
      exact hbefore.trans (hstill.trans hlog)
    · cases hresult
      rcases hleads.examineInstalled_from with ⟨slot, hslot⟩ | hback
      · exact absurd (hslot ▸ hmem) (hinstall slot)
      · exact absurd (hback ▸ hmem) hfallback
  case chosen =>
    rw [hphase]
    rintro slot rfl
    have hbefore := hleads.examineChosen_from
    exact (h.early (hbefore ▸ rfl)).supersedes_iff.mp (hchosen hbefore slot rfl)
  case candidate =>
    rw [hphase]
    rintro slot rfl
    have hbefore := hleads.install_from
    have hstill := h.early (hbefore ▸ rfl)
    exact ⟨h.chosen slot hbefore, (hworked.candidate rfl).2.imp fun _ => hstill.valid_iff.mp⟩
  case upgraded =>
    rw [hphase, hhistory]
    intro hfallback hnext
    -- What an installation leaves when it succeeds is still there once it has been examined.
    rcases hnext with ⟨rfl, hok⟩ | rfl
    · rcases hleads.examineInstalled_from with ⟨slot, hslot⟩ | hback
      · obtain ⟨hchosen, hvalid⟩ := h.candidate slot hslot
        have hstill := h.early (hslot ▸ rfl)
        rw [hslot] at hworked hmem
        exact upgrades he hhome hchosen hvalid hstill (hworked.install_ok hok) (hhistory ▸ hmem) hlog
      · exact absurd (hback ▸ hmem) hfallback
    · have hbefore := hleads.commit_from
      rw [hbefore] at hworked
      obtain ⟨hok, hstill⟩ := hworked.commits rfl
      obtain ⟨slot, header, running, hinstalled, hrunning, hnewer, happlication, hsource⟩ :=
        h.upgraded (fun hback => hfallback (List.mem_append_left _ hback)) (Or.inl ⟨hbefore, hok⟩)
      have hsofar := hstill.trans hlog
      refine ⟨slot, header, running, hhistory ▸ List.mem_append_left _ hinstalled, hrunning, hnewer, ?_, ?_⟩
      · exact (hsofar.headerAt? _).trans happlication
      · exact (hsofar.headerAt? _).trans hsource

/-- A verdict changes nothing. -/
theorem stays (h : Admitted e₀ home b) (hworked : Worked home b b.phase (.finish v) b') : Admitted e₀ home b' := by
  obtain ⟨hphase, hhistory⟩ := hworked.same_phase
  have hfinal := hworked.final
  have hstill : b.engine.Still b'.engine :=
    hworked.still_or_installs.resolve_right fun hinstalls => PhaseResult.noConfusion hinstalls.1
  constructor
  · rw [hphase]
    exact fun hearly => (h.early hearly).trans hstill
  · rw [hhistory]
    exact fun hinstall hfallback => (h.untouched hinstall hfallback).trans hstill
  · exact hphase ▸ h.chosen
  · exact hphase ▸ h.candidate
  · rw [hphase]
    rintro - (⟨hlate, -⟩ | hlate)
    · rw [hlate] at hfinal
      cases hfinal
    · rw [hlate] at hfinal
      cases hfinal

/-- Whatever a step of the boot does, it keeps to what is admitted. -/
theorem step (he : e₀.InService) (hhome : e₀.RunsAt home) (halong : Along e₀ home b) (h : Admitted e₀ home b)
    (htaken : Boot.step b = .ok verdict b') : Admitted e₀ home b' := by
  have hmoved := (step_moves (writes_upkeep he.inOrder) halong.maintained).done_of_ok htaken
  have hstepped := (Boot.step_ends halong.service halong.runs (fun _ => trivial) (fun _ _ _ => trivial)
    fun _ _ _ _ _ _ => trivial).done_of_ok htaken
  cases hstepped with
  | finished v _ hworked => exact h.stays hworked
  | entered next b₁ log hworked =>
    have hphase : (b₁.entering next log).phase = next := entering_phase (hworked.same_phase.2 ▸ halong.routed.room)
    refine h.enters he hhome halong.routed hworked (hphase ▸ hmoved.leads halong.routed) fun hchoose slot hnext => ?_
    exact (step_chooses halong.service halong.runs hchoose).done_of_ok htaken slot (hphase.trans hnext)

end Admitted

/-- Only what is let in is installed, in any sequence of steps. -/
theorem admitted_of_reaches (he : e.InService) (hhome : e.RunsAt home) (htidy : e.storage.Tidy)
    (hreach : (ofEngine e).Reaches b) : Admitted e home b :=
  hreach.invariant_along he hhome htidy (.of_engine e home) fun _ _ _ halong htaken hadmitted =>
    hadmitted.step he hhome halong htaken

/-- A boot installs an image only if it is valid, comes from another slot and is newer than the application: its index
is higher and, where only newer versions are let in, so is its version. If it commits to what it has installed, without
having fallen back, then the application has the header of that image, and so a higher index than at the start. A boot
that has neither installed an image nor fallen back has changed no byte. All this holds however far the boot gets and
whichever calls fail. -/
theorem admitted_of_bringUp {plan : Plan} {primary : DeviceId n k} {secondary : Option (DeviceId n k)}
    {backend : Backend} {bare after : Storage n k} (hdistinct : secondary ≠ some primary)
    (hup : Engine.bringUp plan primary secondary backend bare = .ok e after) (hreach : (ofEngine e).Reaches b) :
    ∃ application, e.application? = .ok application ∧
      (∀ slot, b.phase = .install slot → slot ≠ application ∧ ∃ header running, b.engine.Valid slot header ∧
        b.engine.headerAt? application = some running ∧ running.index < header.index ∧
        (plan.policy.forwardOnly = true → header.version.newerThan running.version = true)) ∧
      (b.phase = .commit → .fallback ∉ b.history → ∃ slot header running,
        .install slot ∈ b.history ∧ b.engine.headerAt? application = some header ∧
        b.engine.headerAt? slot = some header ∧ e.headerAt? application = some running ∧
        running.index < header.index ∧
        (plan.policy.forwardOnly = true → header.version.newerThan running.version = true)) ∧
      ((∀ slot, .install slot ∉ b.history) → .fallback ∉ b.history →
        ∀ p, b.engine.storage.valueAt p = bare.valueAt p) := by
  obtain ⟨he, hempty, hpolicy, -, -, -, hbytes, -⟩ := (Engine.bringUp_ends hdistinct).done_of_ok hup
  obtain ⟨home, hhome⟩ := he.home
  have h := admitted_of_reaches he hhome (Or.inl hempty) hreach
  refine ⟨home.slot, hhome.role, fun slot hphase => ?_, fun hphase hfallback => ?_, fun hinstall hfallback p => ?_⟩
  · have hstill : e.Still b.engine := h.early (hphase ▸ rfl)
    obtain ⟨hnewer, found, hvalid⟩ := h.candidate slot hphase
    have hother := hnewer.ne
    obtain ⟨header, running, hheader, hrunning, hnewer⟩ := hnewer
    obtain rfl : found = header := Option.some.inj (hvalid.headerAt?.symm.trans hheader)
    rw [Header.supersedes_iff, hpolicy] at hnewer
    exact ⟨hother, found, running, hstill.valid_iff.mpr hvalid, (hstill.headerAt? _).trans hrunning, hnewer⟩
  · obtain ⟨slot, header, running, hinstalled, hrunning, hnewer, happlication, hsource⟩ :=
      h.upgraded hfallback (Or.inr hphase)
    rw [Header.supersedes_iff, hpolicy] at hnewer
    exact ⟨slot, header, running, hinstalled, happlication, hsource, hrunning, hnewer⟩
  · exact ((h.untouched hinstall hfallback).storage.same p id).trans (hbytes p)

/-- On the sample board the newer update is let in, and committed to with its header. Until it is examined, the board
holds what it held. -/
theorem sample_admitted : ∃ (e : Engine 1 0) (b b' b'' : Boot 1 0) (application : SlotId),
    let bare := Sample.board (Sample.image 1 [0, 16]) (Sample.image 2 [0, 24]) []
    e.application? = .ok application ∧ b.phase = .examineChosen ⟨0, 1⟩ ∧
      (∀ p, b.engine.storage.valueAt p = bare.valueAt p) ∧ b'.phase = .install ⟨0, 1⟩ ∧ ⟨0, 1⟩ ≠ application ∧
      (∃ header running, b'.engine.Valid ⟨0, 1⟩ header ∧ b'.engine.headerAt? application = some running ∧
        running.index < header.index) ∧ b''.phase = .commit ∧
      ∃ slot header running, .install slot ∈ b''.history ∧ b''.engine.headerAt? application = some header ∧
        b''.engine.headerAt? slot = some header ∧ e.headerAt? application = some running ∧
        running.index < header.index := by
  have hcheck : (match Engine.bringUp (Sample.plan 64) (.flash 0) none {}
        (Sample.board (Sample.image 1 [0, 16]) (Sample.image 2 [0, 24]) []) with
      | .error _ _ => false
      | .ok e _ =>
        (runFor 3).passes (ofEngine e) (fun _ b => decide (b.phase = .examineChosen ⟨0, 1⟩ ∧
            b.history = [.init, .examineRunning, .chooseImage, .examineChosen ⟨0, 1⟩])) &&
          (runFor 4).passes (ofEngine e) (fun _ b => decide (b.phase = .install ⟨0, 1⟩)) &&
          (runFor 6).passes (ofEngine e) (fun _ b => decide (b.phase = .commit ∧ .fallback ∉ b.history))) = true := by
    decide +kernel
  split at hcheck
  · cases hcheck
  rename_i e after hup
  rw [Bool.and_eq_true, Bool.and_eq_true] at hcheck
  obtain ⟨⟨hexamined, hinstalled⟩, hcommitted⟩ := hcheck
  obtain ⟨_, b, hrun, hb⟩ := Action.exists_of_passes hexamined
  obtain ⟨_, b', hrun', hb'⟩ := Action.exists_of_passes hinstalled
  obtain ⟨_, b'', hrun'', hb''⟩ := Action.exists_of_passes hcommitted
  obtain ⟨hphase, hhistory⟩ := of_decide_eq_true hb
  obtain ⟨hphase'', hfallback⟩ := of_decide_eq_true hb''
  obtain ⟨application, hrole, -, -, huntouched⟩ := admitted_of_bringUp (by simp) hup (reaches_of_runFor hrun)
  obtain ⟨_, hrole', hadmitted, -⟩ := admitted_of_bringUp (by simp) hup (reaches_of_runFor hrun')
  obtain ⟨_, hrole'', -, hupgraded, -⟩ := admitted_of_bringUp (by simp) hup (reaches_of_runFor hrun'')
  rw [hrole] at hrole' hrole''
  cases hrole'
  cases hrole''
  have hphase' := of_decide_eq_true hb'
  obtain ⟨hne, header, running, hvalid, hrunning, hnewer, -⟩ := hadmitted ⟨0, 1⟩ hphase'
  obtain ⟨slot, header', running', hmem, hsame, hsource, hbefore, hgreater, -⟩ := hupgraded hphase'' hfallback
  refine ⟨e, b, b', b'', application, hrole, hphase, huntouched ?_ ?_, hphase', hne,
    ⟨header, running, hvalid, hrunning, hnewer⟩, hphase'', slot, header', running', hmem, hsame, hsource, hbefore,
    hgreater⟩
  · simp [hhistory]
  · simp [hhistory]

end Boot
end FirmwareUpdate
