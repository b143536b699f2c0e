import FirmwareUpdate.Proofs.Boot.Run
import FirmwareUpdate.Proofs.Update.Recovery

/-! No boot loses the last image that can be run, whatever call fails on the way. Until the application is
written to, it is valid; from then on, it is or the backup is. -/
namespace FirmwareUpdate.Boot
variable {n k : Nat} {e₀ e e' : Engine n k} {b b' : Boot n k} {home : Home n k} {spare slot : SlotId}
  {phase next : BootPhase} {result : PhaseResult}

/-- What holds in every phase of a boot of the engine `e₀`, if digests are no longer than declared. -/
structure Settled (e₀ : Engine n k) (phase : BootPhase) (e : Engine n k) : Prop where
  changes : Engine.Changes (fun _ => True) e₀ e
  empty : e.storage.buffer.bytes = []
  candidate : ∀ slot, phase = .install slot → ∃ header, e.Valid slot header

/-- The phase that a result leads to. -/
def after (phase : BootPhase) : PhaseResult → BootPhase
  | .enter next => next
  | .finish _ => phase

/-- Images are installed from a settled engine, and only valid ones. -/
theorem Settled.installs (he : e₀.InService) (hhonest : e₀.backend.Honest) (h : Settled e₀ phase e)
    {header : Header} (hvalid : e.Valid slot header) (hinstalls : Installs slot e e') :
    Engine.Changes (fun _ => True) e₀ e' ∧ e'.storage.buffer.bytes = [] := by
  have hends := (he.of_changes h.changes).install_empties (h.changes.backend ▸ hhonest) h.empty hvalid
  rcases hinstalls with hact | ⟨cause, e₁, hact, hstill⟩
  · obtain ⟨hchanges, hempty⟩ := hends.done_of_ok hact
    exact ⟨h.changes.trans hchanges, hempty⟩
  · obtain ⟨hchanges, hempty⟩ := hends.failed_of_error hact
    exact ⟨(h.changes.trans hchanges).trans hstill.changes, hstill.pending hempty⟩

/-- What is settled for a later phase is settled for the phase that a boot is in. -/
theorem Settled.here (h : Settled e₀ phase e) : Settled e phase e := ⟨Engine.Changes.refl _ e, h.empty, h.candidate⟩

private theorem Settled.still (h : Settled e₀ phase e) (hstill : e.Still e') : Settled e₀ phase e' :=
  ⟨h.changes.trans hstill.changes, hstill.pending h.empty, fun slot hslot =>
    (h.candidate slot hslot).imp fun _ => hstill.valid_iff.mpr⟩

/-- The work of a phase settles what there is to settle for the next one. -/
theorem Settled.worked (he : e₀.InService) (hhonest : e₀.backend.Honest) (h : Settled e₀ phase b.engine)
    (hworked : Worked home b phase result b') : Settled e₀ (after phase result) b'.engine := by
  rcases hworked.still_or_installs with hstill | ⟨rfl, slot, e, hstill, hsource, hinstalls⟩
  · have hsettled := h.still hstill
    cases result with
    | finish verdict => exact hsettled
    | enter next =>
      refine ⟨hsettled.changes, hsettled.empty, fun slot hnext => ?_⟩
      exact (hworked.candidate hnext).2.imp fun _ => hstill.valid_iff.mpr
  · have hvalid : ∃ header, e.Valid slot header := by
      rcases hsource with ⟨hphase, -⟩ | ⟨-, -, hbackup⟩
      · exact (h.candidate slot hphase).imp fun _ => hstill.valid_iff.mpr
      · exact hbackup.imp fun _ => hstill.valid_iff.mpr
    obtain ⟨header, hvalid⟩ := hvalid
    obtain ⟨hchanges, hempty⟩ := (h.still hstill).installs he hhonest hvalid hinstalls
    exact ⟨hchanges, hempty, fun slot hslot => by cases hslot⟩

/-- Entering a phase keeps what holds in it; a boot that halts instead has nothing to keep. -/
theorem Settled.entering {log : Log} (h : Settled e₀ next b.engine) :
    Settled e₀ (b.entering next log).phase (b.entering next log).engine := by
  have hlog := h.still (Engine.still_log b.engine log)
  simp only [Boot.entering]
  split
  · exact hlog
  · exact ⟨hlog.changes, hlog.empty, fun slot hslot => by cases hslot⟩

/-- A step from a settled engine traps only at the top of the address space. -/
theorem Settled.step_ends (he : e₀.InService) (hhome : e₀.RunsAt home) (hhonest : e₀.backend.Honest)
    (h : Settled e₀ b.phase b.engine) :
    step.Ends b (fun verdict b' => Stepped home b verdict b') (fun _ _ => False) e₀.storage.AtTop := by
  have hstuck : ∀ slot e header, b.engine.Valid slot header → b.engine.Still e → Stuck slot e → e₀.storage.AtTop := by
    intro slot e header hvalid hstill hended
    obtain ⟨e', hact⟩ := hended
    have hsettled := h.still hstill
    have hends := (he.of_changes hsettled.changes).install_empties (hsettled.changes.backend ▸ hhonest)
      hsettled.empty (hstill.valid_iff.mpr hvalid)
    exact hsettled.changes.storage.setup.atTop.mp (hends.trapped_of_trap hact)
  refine Boot.step_ends (he.of_changes h.changes) (hhome.of_changes h.changes) h.changes.storage.setup.atTop.mp
    (fun slot hphase => ?_) hstuck
  obtain ⟨header, hvalid⟩ := h.candidate slot hphase
  exact hstuck slot b.engine header hvalid (Engine.Still.refl _)

/-! ### The last image that can be run -/

/-- What holds in every phase of a boot whose application was valid. -/
structure Spared (e₀ : Engine n k) (home : Home n k) (spare : SlotId) (phase : BootPhase) (e : Engine n k) :
    Prop extends Settled e₀ phase e where
  recoverable : e.Recoverable home spare
  running : phase.isEarly = true → ∃ header, e.Valid home.slot header

private theorem Spared.still (h : Spared e₀ home spare phase e) (hstill : e.Still e') : Spared e₀ home spare phase e' :=
  ⟨h.toSettled.still hstill, hstill.recoverable h.recoverable, fun hearly =>
    (h.running hearly).imp fun _ => hstill.valid_iff.mpr⟩

private theorem Spared.installs (hs : e₀.Safeguard home spare) (h : Spared e₀ home spare phase e)
    (hsource : phase = .install slot ∨ e.backup? = some slot ∧ ∃ header, e.Valid slot header)
    (hinstalls : Installs slot e e') : e'.Recoverable home spare := by
  -- The image that is installed is a valid one over a valid application, or the backup.
  have hs' := hs.of_changes h.changes
  have hends : (Engine.install slot).Ends e (fun _ e' => e'.Recoverable home spare)
      (fun _ e' => e'.Recoverable home spare) e.storage.AtTop := by
    rcases hsource with rfl | ⟨hbackup, header, hvalid⟩
    · obtain ⟨header, hvalid⟩ := h.candidate slot rfl
      exact hs'.install_ends h.empty hvalid (Or.inl (h.running rfl))
    · exact hs'.install_ends h.empty hvalid (Or.inr (Option.some.inj (hbackup.symm.trans hs'.role)))
  rcases hinstalls with hact | ⟨cause, e₁, hact, hstill⟩
  · exact hends.done_of_ok hact
  · exact hstill.recoverable (hends.failed_of_error hact)

private theorem Spared.worked (hs : e₀.Safeguard home spare) (h : Spared e₀ home spare phase b.engine)
    (hworked : Worked home b phase result b') : Spared e₀ home spare (after phase result) b'.engine := by
  have hsettled := h.toSettled.worked hs.service hs.honest hworked
  rcases hworked.still_or_installs with hstill | ⟨rfl, slot, e, hstill, hsource, hinstalls⟩
  · refine ⟨hsettled, hstill.recoverable h.recoverable, fun hearly => ?_⟩
    cases result with
    | finish verdict => exact (h.still hstill).running hearly
    | enter next => exact (h.still hstill).running (hworked.early hearly).1
  · refine ⟨hsettled, (h.still hstill).installs hs ?_ hinstalls, fun hearly => by cases hearly⟩
    rcases hsource with ⟨hphase, -⟩ | ⟨-, hbackup, hvalid⟩
    · exact Or.inl hphase
    · exact Or.inr ⟨hstill.backup?.trans hbackup, hvalid.imp fun _ => hstill.valid_iff.mpr⟩

/-- A step of the boot keeps an image that can be run or restored, and does not fail. -/
theorem Spared.step_ends (hs : e₀.Safeguard home spare) (h : Spared e₀ home spare b.phase b.engine) :
    step.Ends b (fun verdict b' => Stepped home b verdict b' ∧ Spared e₀ home spare b'.phase b'.engine)
      (fun _ _ => False) e₀.storage.AtTop := by
  refine (h.toSettled.step_ends hs.service hs.runs hs.honest).imp (fun _ _ hstepped => ⟨hstepped, ?_⟩)
    (fun _ _ h => h) id
  rcases hstepped with ⟨verdict, b', hworked⟩ | ⟨next, b', log, hworked⟩
  · rw [hworked.same_phase.1]
    exact h.worked hs hworked
  · have hspared : Spared e₀ home spare next b'.engine := h.worked hs hworked
    have hlog := hspared.still (Engine.still_log b'.engine log)
    refine ⟨hspared.toSettled.entering, hlog.recoverable, fun hearly => hlog.running ?_⟩
    unfold entering at hearly
    split at hearly
    · exact hearly
    · cases hearly

/-- A boot whose application is valid leaves a valid image behind, in the application slot or in the backup
slot, however it ends. The backup slot must be able to hold the application and must not be encrypted. Any
call may fail, but for those that give devices back. -/
theorem recoverable_of_run {plan : Plan} {primary : DeviceId n k} {secondary : Option (DeviceId n k)}
    {backend : Backend} {bare after : Storage n k} {application : SlotId} {memory memory' : Memory n k}
    {entry entry' : Slot} {header : Header} (hdistinct : secondary ≠ some primary) (hhonest : backend.Honest)
    (hrelease : ∀ device i, bare.scheduleOf device .release i = none)
    (hup : Engine.bringUp plan primary secondary backend bare = .ok e after)
    (happlication : e.application? = .ok application) (hspare : e.backup? = some spare)
    (hl : e.storage.lookup? application = .ok (memory, entry))
    (hl' : e.storage.lookup? spare = .ok (memory', entry')) (hplain : e.holdsEncrypted spare = false)
    (hroom : entry.size ≤ entry'.size) (hvalid : e.Valid application header) :
    run.Ends (ofEngine e)
      (fun verdict b' => verdict.isSome = true ∧ ∃ slot header, (slot = application ∨ slot = spare) ∧
        b'.engine.Valid slot header ∧ (Engine.examine slot).Ends b'.engine (fun found _ => found = header)
          (fun _ e' => b'.engine.Faulted e') b'.engine.storage.AtTop)
      (fun _ _ => False) e.storage.AtTop := by
  obtain ⟨he, hempty, -, -, hbackend, -, -, hschedule⟩ := (Engine.bringUp_ends hdistinct).done_of_ok hup
  obtain ⟨home, hhome⟩ := he.home
  obtain rfl : home.slot = application := Except.ok.inj (hhome.role.symm.trans happlication)
  rw [hhome.lookup] at hl
  cases hl
  have hs : e.Safeguard home spare := by
    refine ⟨⟨he, hhome, hspare, hplain, fun memory entry hfound => ?_, hbackend ▸ hhonest⟩, fun device i => ?_⟩
    · rw [hl'] at hfound
      cases hfound
      exact hroom
    · rw [hschedule]
      exact hrelease device i
  have hstart : Spared e home spare (ofEngine e).phase (ofEngine e).engine :=
    ⟨⟨Engine.Changes.refl _ e, hempty, fun slot hslot => by cases hslot⟩, Or.inl ⟨header, hvalid⟩,
      fun _ => ⟨header, hvalid⟩⟩
  have hstep : ∀ b, Spared e home spare b.phase b.engine → step.Ends b (fun verdict b' => Stepped home b verdict b' ∧
      (verdict = none → Spared e home spare b'.phase b'.engine) ∧
        ∀ v, verdict = some v → Spared e home spare b'.phase b'.engine) (fun _ _ => False) e.storage.AtTop :=
    fun b hb => (hb.step_ends hs).imp (fun _ _ h => ⟨h.1, fun _ => h.2, fun _ _ => h.2⟩) (fun _ _ h => h) id
  refine (run_ends hstep hstart).imp ?_ (fun _ _ h => h) id
  intro _ b' hended
  obtain ⟨verdict, rfl, hspared⟩ := hended
  have hfound : ∃ slot header, (slot = home.slot ∨ slot = spare) ∧ b'.engine.Valid slot header := by
    rcases hspared.recoverable with ⟨header, hvalid⟩ | ⟨header, hvalid⟩
    · exact ⟨home.slot, header, Or.inl rfl, hvalid⟩
    · exact ⟨spare, header, Or.inr rfl, hvalid⟩
  obtain ⟨slot, header, hslot, hvalid⟩ := hfound
  refine ⟨rfl, slot, header, hslot, hvalid, ?_⟩
  exact ((he.of_changes hspared.changes).examine_of_valid hvalid).imp (fun _ _ h => h.2) (fun _ _ h => h.2) id

/-- A sample board with a valid application and a newer update is such a board. -/
theorem sample_recoverable : ∃ e : Engine 1 0, run.Ends (ofEngine e)
    (fun verdict b' => verdict.isSome = true ∧ ∃ slot header, (slot = ⟨0, 0⟩ ∨ slot = ⟨0, 2⟩) ∧
      b'.engine.Valid slot header ∧ (Engine.examine slot).Ends b'.engine (fun found _ => found = header)
        (fun _ e' => b'.engine.Faulted e') b'.engine.storage.AtTop)
    (fun _ _ => False) e.storage.AtTop := by
  have hcheck : (match Engine.bringUp (Sample.plan 64) (.flash 0) none {}
        (Sample.board (Sample.image 1 [0, 16]) (Sample.image 2 [0, 24]) []) with
      | .error _ _ => false
      | .ok e _ => match Engine.examine ⟨0, 0⟩ e with
        | .error _ _ => false
        | .ok _ _ => decide (Sample.Holds e.storage ∧ e.storage.find? .theApplication = some ⟨0, 0⟩ ∧
            e.backup? = some ⟨0, 2⟩ ∧ e.holdsEncrypted ⟨0, 2⟩ = false)) = true := by
    decide +kernel
  split at hcheck
  · cases hcheck
  rename_i e after hup
  split at hcheck
  · cases hcheck
  rename_i header e₁ hexamined
  obtain ⟨hholds, hfind, hbackup, hplain⟩ := of_decide_eq_true hcheck
  have he := ((Engine.bringUp_ends (by simp)).done_of_ok hup).1
  have hvalid := ((he.examine_ends ⟨0, 0⟩).done_of_ok hexamined).2
  refine ⟨e, recoverable_of_run (by simp) (Nat.le_refl _) (fun device i => ?_) hup ?_ hbackup hholds.lookup?.1
    hholds.lookup?.2.2 hplain (Nat.le_refl _) hvalid⟩
  · rw [Sample.scheduleOf_board]
    rfl
  · rw [Engine.application?, hfind]

end FirmwareUpdate.Boot
