import FirmwareUpdate.Boot.Work
import FirmwareUpdate.Proofs.Boot.EntryPoint
import FirmwareUpdate.Proofs.Update.Choice
import FirmwareUpdate.Proofs.Update.Install

/-! Everything the work of a phase can lead to. What holds of a boot is read off these cases. -/
namespace FirmwareUpdate
variable {n k : Nat}

/-- The reset vector of the application is plausible. -/
def Engine.Starts (e : Engine n k) (home : Home n k) : Prop :=
  Plausible e.tuning.tableOffset home.address (e.storage.held home.memory home.entry)

/-- The check of that vector. -/
def Engine.checkStart (e : Engine n k) (home : Home n k) : Except Error Unit :=
  checkVector e.tuning.tableOffset home.address (e.storage.held home.memory home.entry)

/-- The application starts exactly if the check on it passes. -/
theorem Engine.starts_iff {e : Engine n k} {home : Home n k} : e.Starts home ↔ e.checkStart home = .ok () :=
  plausible_iff

/-- It does not start if the check fails. -/
theorem Engine.not_starts {e : Engine n k} {home : Home n k} {cause : Error} (h : e.checkStart home = .error cause) :
    ¬e.Starts home := fun hstarts => by
  rw [starts_iff.mp hstarts] at h
  cases h

/-- While no byte changes, the check on the application comes to the same. -/
theorem Engine.Still.checkStart {e e' : Engine n k} {home : Home n k} (h : e.Still e') :
    e'.checkStart home = e.checkStart home := by
  simp only [Engine.checkStart]
  rw [h.tuning, h.storage.held_eq fun _ _ h => h]

/-- While no byte changes, an application that starts is one that starts. -/
theorem Engine.Still.starts_iff {e e' : Engine n k} {home : Home n k} (h : e.Still e') :
    e'.Starts home ↔ e.Starts home := by
  rw [Engine.starts_iff, Engine.starts_iff, h.checkStart]

/-- The vector table lies in the slot, so its address does not leave the word unless the flash does. -/
theorem Engine.InService.table_lt {e : Engine n k} {home : Home n k} (he : e.InService) (hhome : e.RunsAt home)
    (hstarts : e.Starts home) (hleaves : UInt32.size ≤ home.address + e.tuning.tableOffset) : e.storage.AtTop := by
  have hregion := he.inOrder.sound.flash hhome.lookup hhome.onFlash hhome.location
  have hle := hregion.le_stop
  have hinside := hstarts.inside
  rw [Storage.length_held he.inOrder.sound hhome.lookup] at hinside
  refine ⟨home.device, ?_⟩
  simp only [Geometry.stop]
  omega

/-- The phases in which nothing has been written yet. -/
def BootPhase.isEarly : BootPhase → Bool
  | .init | .examineRunning | .chooseImage | .examineChosen _ | .install _ => true
  | _ => false

namespace Boot
variable {ε α : Type} {b b' : Boot n k} {home : Home n k}

/-- The ways in which the work of a phase ends, with the engine that each leaves. -/
inductive Worked (home : Home n k) (b : Boot n k) : BootPhase → PhaseResult → Boot n k → Prop
  | started : Worked home b .init (.enter .examineRunning) b
  | runningValid (e : Engine n k) (header : Header) (still : b.engine.Still e)
      (valid : b.engine.Valid home.slot header) :
      Worked home b .examineRunning (.enter .chooseImage) { b with engine := e, verified := true }
  | runningRejected (e : Engine n k) (still : b.engine.Still e) (why : b.engine.Rejects home.slot e) :
      Worked home b .examineRunning (.enter (b.recourse .noValidImage)) { b with engine := e }
  | kept (slot : SlotId) (e : Engine n k) (still : b.engine.Still e) (why : b.engine.Faulted e ∨
      ∃ running, b.engine.headerAt? home.slot = some running ∧
        b.engine.newest home.slot running = .current slot) :
      Worked home b .chooseImage (.enter .run) { b with engine := e }
  | chosen (slot : SlotId) (e : Engine n k) (still : b.engine.Still e) (why : b.engine.Faulted e ∨
      ∃ running, b.engine.headerAt? home.slot = some running ∧
        b.engine.newest home.slot running = .update slot) :
      Worked home b .chooseImage (.enter (.examineChosen slot)) { b with engine := e }
  | unreadable (cause : Error) (e : Engine n k) (still : b.engine.Still e)
      (why : Engine.FaultedAt home.slot b.engine e ∨ b.engine.headerAt? home.slot = none) :
      Worked home b .chooseImage (.enter (.halt cause)) { b with engine := e }
  | candidateValid (slot : SlotId) (e : Engine n k) (header : Header) (still : b.engine.Still e)
      (valid : b.engine.Valid slot header) :
      Worked home b (.examineChosen slot) (.enter (.install slot)) { b with engine := e }
  | candidateRejected (slot : SlotId) (e : Engine n k) (still : b.engine.Still e)
      (why : b.engine.Rejects slot e) :
      Worked home b (.examineChosen slot) (.enter .run) { b with engine := e }
  | installed (slot : SlotId) (e : Engine n k) (act : Engine.install slot b.engine = .ok () e) :
      Worked home b (.install slot) (.enter .examineInstalled)
        { b with engine := e, verified := false, installFailed := false }
  | notInstalled (slot : SlotId) (cause : Error) (e e' : Engine n k)
      (act : Engine.install slot b.engine = .error (.error cause) e) (still : e.Still e') :
      Worked home b (.install slot) (.enter .examineInstalled)
        { b with engine := e', verified := false, installFailed := true }
  | devicesDown (cause : Error) (e : Engine n k) (still : b.engine.Still e) (fault : b.engine.Faulted e)
      (act : Engine.onStorage Storage.init b.engine = .error (.error cause) e) :
      Worked home b .examineInstalled (.enter (b.recourse .driverFailure)) { b with engine := e }
  | installedRejected (e : Engine n k) (still : b.engine.Still e) (why : b.engine.Rejects home.slot e) :
      Worked home b .examineInstalled (.enter (b.recourse .noValidImage)) { b with engine := e }
  | installedValid (e : Engine n k) (header : Header) (still : b.engine.Still e)
      (valid : b.engine.Valid home.slot header) :
      Worked home b .examineInstalled (.enter (if b.installFailed then .run else .commit))
        { b with engine := e, verified := true }
  | committed (e : Engine n k) (still : b.engine.Still e) :
      Worked home b .commit (.enter .run) { b with engine := e }
  | noBackup (why : b.engine.backup? = none) :
      Worked home b .fallback (.enter (.halt .noValidImage)) { b with backupTried := true, verified := false }
  | backupRejected (backup : SlotId) (cause : Error) (e : Engine n k) (role : b.engine.backup? = some backup)
      (still : b.engine.Still e)
      (why : b.engine.Faulted e ∨ cause = .noValidImage ∧ ∀ header, ¬b.engine.Valid backup header) :
      Worked home b .fallback (.enter (.halt cause))
        { b with engine := e, backupTried := true, verified := false }
  | restored (backup : SlotId) (e e' : Engine n k) (header : Header) (role : b.engine.backup? = some backup)
      (still : b.engine.Still e) (valid : b.engine.Valid backup header)
      (act : Engine.install backup e = .ok () e') :
      Worked home b .fallback (.enter .examineInstalled)
        { b with engine := e', backupTried := true, verified := false, installFailed := false }
  | notRestored (backup : SlotId) (cause : Error) (e e' e'' : Engine n k) (header : Header)
      (role : b.engine.backup? = some backup) (still : b.engine.Still e)
      (valid : b.engine.Valid backup header) (act : Engine.install backup e = .error (.error cause) e')
      (still' : e'.Still e'') :
      Worked home b .fallback (.enter .examineInstalled)
        { b with engine := e'', backupTried := true, verified := false, installFailed := true }
  | unfit (e : Engine n k) (unverified : b.verified = false) (still : b.engine.Still e)
      (why : b.engine.Rejects home.slot e) :
      Worked home b .run (.enter (b.recourse .noValidImage)) { b with engine := e }
  | vectorRejected (cause : Error) (e : Engine n k) (still : b.engine.Still e)
      (valid : b.verified = true ∨ ∃ header, b.engine.Valid home.slot header)
      (why : Engine.FaultedAt home.slot b.engine e ∨ b.engine.checkStart home = .error cause) :
      Worked home b .run (.enter (b.recourse cause)) { b with engine := e, verified := true }
  | handedOver (e : Engine n k) (still : b.engine.Still e)
      (valid : b.verified = true ∨ ∃ header, b.engine.Valid home.slot header)
      (starts : b.engine.Starts home) :
      Worked home b .run (.finish (.run (home.address + b.engine.tuning.tableOffset)))
        { b with engine := e, verified := true }
  | halted (cause : Error) (e : Engine n k) (still : b.engine.Still e) :
      Worked home b (.halt cause) (.finish (.halt cause)) { b with engine := e }

/-- An installation ended with this engine, or failed and left it but for what is not stored. -/
def Installs (slot : SlotId) (e e' : Engine n k) : Prop :=
  Engine.install slot e = .ok () e' ∨
    ∃ cause e₁, Engine.install slot e = .error (.error cause) e₁ ∧ e₁.Still e'

private theorem recourse_late (b : Boot n k) (cause : Error) : (b.recourse cause).isEarly = false := by
  simp only [recourse]
  split <;> rfl

namespace Worked
variable {phase next : BootPhase} {result : PhaseResult}

/-- Phases are entered by a step, not by the work of a phase. -/
theorem same_phase (h : Worked home b phase result b') : b'.phase = b.phase ∧ b'.history = b.history := by
  cases h <;> exact ⟨rfl, rfl⟩

/-- Only an installation writes: one of the image that was chosen, or one of a valid backup. -/
theorem still_or_installs (h : Worked home b phase result b') :
    b.engine.Still b'.engine ∨ result = .enter .examineInstalled ∧ ∃ slot e, b.engine.Still e ∧
      (phase = .install slot ∧ e = b.engine ∨
        phase = .fallback ∧ b.engine.backup? = some slot ∧ ∃ header, b.engine.Valid slot header) ∧
        Installs slot e b'.engine := by
  cases h with
  | started => exact Or.inl (Engine.Still.refl _)
  | noBackup why => exact Or.inl (Engine.Still.refl _)
  | installed slot e act =>
    exact Or.inr ⟨rfl, slot, b.engine, Engine.Still.refl _, Or.inl ⟨rfl, rfl⟩, Or.inl act⟩
  | notInstalled slot cause e e' act still =>
    exact Or.inr ⟨rfl, slot, b.engine, Engine.Still.refl _, Or.inl ⟨rfl, rfl⟩, Or.inr ⟨cause, e, act, still⟩⟩
  | restored backup e e' header role still valid act =>
    exact Or.inr ⟨rfl, backup, e, still, Or.inr ⟨rfl, role, header, valid⟩, Or.inl act⟩
  | notRestored backup cause e e' e'' header role still valid act still' =>
    exact Or.inr ⟨rfl, backup, e, still, Or.inr ⟨rfl, role, header, valid⟩, Or.inr ⟨cause, e', act, still'⟩⟩
  | _ => exact Or.inl (by assumption)

/-- A phase in which nothing has been written yet follows another one. -/
theorem early (h : Worked home b phase (.enter next) b') (hnext : next.isEarly = true) :
    phase.isEarly = true ∧ b.engine.Still b'.engine := by
  cases h with
  | started => exact ⟨rfl, Engine.Still.refl _⟩
  | runningValid e header still valid => exact ⟨rfl, still⟩
  | chosen slot e still why => exact ⟨rfl, still⟩
  | candidateValid slot e header still valid => exact ⟨rfl, still⟩
  | runningRejected | devicesDown | installedRejected | unfit | vectorRejected =>
    rw [recourse_late] at hnext
    cases hnext
  | installedValid e header still valid =>
    revert hnext
    cases b.installFailed <;> exact Bool.noConfusion
  | _ => cases hnext

/-- Only a valid image is installed. -/
theorem candidate {slot : SlotId} (h : Worked home b phase (.enter next) b') (hnext : next = .install slot) :
    b.engine.Still b'.engine ∧ ∃ header, b.engine.Valid slot header := by
  have hearly := h.early (hnext ▸ rfl)
  refine ⟨hearly.2, ?_⟩
  cases h with
  | candidateValid slot' e header still valid =>
    cases hnext
    exact ⟨header, valid⟩
  | runningRejected | devicesDown | installedRejected | unfit | vectorRejected =>
    have hafter : (b.recourse _).isEarly = true := congrArg BootPhase.isEarly hnext
    rw [recourse_late] at hafter
    cases hafter
  | installedValid e header still valid => cases hearly.1
  | _ => cases hnext

end Worked

/-! ### Steps of a boot -/

/-- The rule for an attempt and what is done about its result. -/
theorem attempt_bind {β : Type} {act : Engine.Op n k α} {next : Except Error α → Action (Boot n k) ε β}
    {done : α → Engine n k → Prop} {failed : Error → Engine n k → Prop} {done' : β → Boot n k → Prop}
    {failed' : ε → Boot n k → Prop} {trapped trapped' : Prop} (h : act.Ends b.engine done failed trapped)
    (hd : ∀ a e, done a e → (next (.ok a)).Ends { b with engine := e } done' failed' trapped')
    (hf : ∀ cause e, failed cause e → (next (.error cause)).Ends { b with engine := e } done' failed' trapped')
    (ht : trapped → trapped') : (attempt act >>= next).Ends b done' failed' trapped' := by
  have hengine : (onEngine act).Ends b
      (fun a b' => (next (.ok a)).Ends b' done' failed' trapped')
      (fun cause b' => (next (.error cause)).Ends b' done' failed' trapped') trapped :=
    (Action.ends_focus act).mpr (h.imp hd hf id)
  exact (Action.ends_bind _ _ _).mpr (hengine.attempt (fun _ _ h => h) (fun _ _ h => h) ht)

/-- Writing to the log is a step that changes nothing but the log. -/
theorem note_bind {level : Severity} {text : String} {next : Unit → Action (Boot n k) ε α}
    {done : α → Boot n k → Prop} {failed : ε → Boot n k → Prop} {trapped : Prop}
    (h : ∀ log, (next ⟨⟩).Ends { b with engine := { b.engine with log } } done failed trapped) :
    (note level text >>= next).Ends b done failed trapped := by
  simp only [note, onEngine]
  rw [Action.ends_bind, Action.ends_focus]
  exact h _

/-- The installation traps. -/
def Stuck (slot : SlotId) (e : Engine n k) : Prop := ∃ e', Engine.install slot e = .error .trap e'

private theorem takeRecourse_ends {e : Engine n k} {verified : Bool} (h : b.engine.Still e) (cause : Error) :
    (takeRecourse cause : Action (Boot n k) ε BootPhase).Ends { b with engine := e, verified }
      (fun phase b' => phase = b.recourse cause ∧ b' = { b with engine := e, verified }) (fun _ _ => False)
      False := by
  simp only [takeRecourse]
  rw [Action.ends_get_bind]
  refine ⟨?_, rfl⟩
  simp only [recourse]
  rw [h.policy]

private theorem installFrom_ends (b : Boot n k) (slot : SlotId) (failure : String) :
    (installFrom slot failure).Ends b
      (fun phase b' => phase = .examineInstalled ∧
        ((∃ e, Engine.install slot b.engine = .ok () e ∧ b' = { b with engine := e, installFailed := false }) ∨
          ∃ cause e e', Engine.install slot b.engine = .error (.error cause) e ∧ e.Still e' ∧
            b' = { b with engine := e', installFailed := true }))
      (fun _ _ => False) (Stuck slot b.engine) := by
  simp only [installFrom, setInstallFailed]
  rw [Action.ends_modify_bind]
  refine attempt_bind (Action.ends_self (Engine.install slot) b.engine) ?_ ?_ id
  · exact fun _ e h => ⟨rfl, Or.inl ⟨e, h, rfl⟩⟩
  · rintro cause e h
    refine note_bind fun log => ?_
    exact ⟨rfl, Or.inr ⟨cause, e, _, h, Engine.still_log e log, rfl⟩⟩

section Phases
variable {trapped : Prop} (he : b.engine.InService) (hhome : b.engine.RunsAt home)
  (htop : b.engine.storage.AtTop → trapped)
include he hhome htop

private theorem examineRunning_ends :
    examineRunning.Ends b (fun phase b' => Worked home b .examineRunning (.enter phase) b') (fun _ _ => False)
      trapped := by
  simp only [examineRunning]
  simp only [Action.ends_get_bind, hhome.role]
  refine attempt_bind (he.examine_ends home.slot) ?_ ?_ htop
  · exact fun header e h => .runningValid e header h.1 h.2
  · intro cause e hended
    obtain ⟨hstill, hwhy⟩ := hended
    refine (takeRecourse_ends hstill _).imp ?_ (fun _ _ h => h.elim) False.elim
    intro _ _ hended
    obtain ⟨rfl, rfl⟩ := hended
    exact .runningRejected e hstill hwhy

omit htop in
private theorem chooseImage_ends :
    chooseImage.Ends b (fun phase b' => Worked home b .chooseImage (.enter phase) b') (fun _ _ => False)
      trapped := by
  refine attempt_bind (he.choose_ends hhome.role) ?_ ?_ False.elim
  · rintro (slot | slot) e ⟨hstill, hwhy⟩
    · exact .kept slot e hstill (hwhy.imp id fun hchosen => hchosen.imp fun _ h => ⟨h.1, h.2.symm⟩)
    · exact .chosen slot e hstill (hwhy.imp id fun hchosen => hchosen.imp fun _ h => ⟨h.1, h.2.symm⟩)
  · exact fun cause e h => .unreadable cause e h.1 h.2

omit hhome in
private theorem examineChosen_ends (slot : SlotId) :
    (examineChosen slot).Ends b (fun phase b' => Worked home b (.examineChosen slot) (.enter phase) b')
      (fun _ _ => False) trapped := by
  refine attempt_bind (he.examine_ends slot) ?_ ?_ htop
  · exact fun header e h => .candidateValid slot e header h.1 h.2
  · intro cause e hended
    obtain ⟨hstill, hwhy⟩ := hended
    refine note_bind fun log => ?_
    exact .candidateRejected slot _ (hstill.trans (Engine.still_log e log))
      (hwhy.before (Engine.still_log e log).toChanges)

private theorem examineInstalled_ends :
    examineInstalled.Ends b (fun phase b' => Worked home b .examineInstalled (.enter phase) b')
      (fun _ _ => False) trapped := by
  simp only [examineInstalled]
  simp only [Action.ends_get_bind, hhome.role]
  refine attempt_bind (he.init_ends.and (Action.ends_self _ _)) ?_ ?_ (False.elim ·.1)
  · rintro _ e₁ ⟨hstill₁, -⟩
    refine attempt_bind ((he.of_changes hstill₁.toChanges).examine_ends home.slot) ?_ ?_
      fun h => htop (hstill₁.storage.setup.atTop.mp h)
    · intro header e hended
      obtain ⟨hstill, hvalid⟩ := hended
      have hworked : ∀ e, b.engine.Still e → Worked home b .examineInstalled
          (.enter (if b.installFailed then .run else .commit)) { b with engine := e, verified := true } :=
        fun e hstill => .installedValid e header hstill (hstill₁.valid_iff.mp hvalid)
      have hsofar := hstill₁.trans hstill
      simp only [setVerified, Action.ends_modify_bind, Action.ends_get_bind]
      split
      · rename_i hfailed
        rw [if_pos hfailed] at hworked
        exact note_bind fun log => hworked _ (hsofar.trans (Engine.still_log e log))
      · rename_i hok
        rw [if_neg hok] at hworked
        exact hworked e hsofar
    · intro cause e hended
      obtain ⟨hstill, hwhy⟩ := hended
      have hsofar := hstill₁.trans hstill
      refine (takeRecourse_ends hsofar _).imp ?_ (fun _ _ h => h.elim) False.elim
      intro _ _ hended
      obtain ⟨rfl, rfl⟩ := hended
      exact .installedRejected e hsofar (hwhy.after hstill₁)
  · intro cause e hended
    obtain ⟨⟨hstill, hf⟩, hact⟩ := hended
    refine (takeRecourse_ends hstill _).imp ?_ (fun _ _ h => h.elim) False.elim
    intro _ _ hended
    obtain ⟨rfl, rfl⟩ := hended
    exact .devicesDown cause e hstill hf hact

omit hhome htop in
private theorem commit_ends :
    commit.Ends b (fun phase b' => Worked home b .commit (.enter phase) b') (fun _ _ => False) trapped := by
  refine attempt_bind he.closeFiles_ends ?_ ?_ False.elim
  · exact fun _ e hstill => note_bind fun log => .committed _ (hstill.trans (Engine.still_log e log))
  · refine fun _ e hstill => note_bind fun log => note_bind fun log' => ?_
    exact .committed _ ((hstill.trans (Engine.still_log e log)).trans (Engine.still_log _ log'))

omit hhome in
private theorem ensureVerified_ends :
    (ensureVerified home.slot).Ends b
      (fun _ b' => ∃ e, b' = { b with engine := e, verified := true } ∧ b.engine.Still e ∧
        (b.verified = true ∨ ∃ header, b.engine.Valid home.slot header))
      (fun phase b' => Worked home b .run (.enter phase) b') trapped := by
  simp only [ensureVerified]
  rw [Action.ends_get_bind]
  split
  · rename_i hverified
    exact ⟨b.engine, by rw [← hverified], Engine.Still.refl _, Or.inl hverified⟩
  · rename_i hunverified
    refine attempt_bind (he.examine_ends home.slot) ?_ ?_ htop
    · exact fun header e h => ⟨e, rfl, h.1, Or.inr ⟨header, h.2⟩⟩
    · intro cause e hended
      obtain ⟨hstill, hwhy⟩ := hended
      refine (takeRecourse_ends hstill _).bind ?_ (fun _ _ h => h.elim) False.elim
      intro _ _ hended
      obtain ⟨rfl, rfl⟩ := hended
      exact .unfit e (by simpa using hunverified) hstill hwhy

private theorem handOver_ends :
    (Action.attempt handOver : Work n k (Except BootPhase Nat)).Ends b
      (fun answer b' => match answer with
        | .ok table => Worked home b .run (.finish (.run table)) b'
        | .error phase => Worked home b .run (.enter phase) b')
      (fun _ _ => False) trapped := by
  suffices hended : handOver.Ends b (fun table b' => Worked home b .run (.finish (.run table)) b')
      (fun phase b' => Worked home b .run (.enter phase) b') trapped from
    hended.attempt (fun _ _ h => h) (fun _ _ h => h) id
  simp only [handOver]
  simp only [Action.ends_get_bind, hhome.role]
  refine (ensureVerified_ends he htop).bind ?_ (fun _ _ h => h) id
  intro _ _ hended
  obtain ⟨e₁, rfl, hstill₁, hvalid⟩ := hended
  have hshows := (he.of_changes hstill₁.toChanges).shows (hhome.of_changes hstill₁.toChanges).lookup
  refine attempt_bind (hshows.entryPoint_ends hhome.location) ?_ ?_ fun h => htop (hstill₁.storage.setup.atTop.mp h)
  · intro entry e hended
    obtain ⟨hstill, hvector, -⟩ := hended
    have hstarts : b.engine.Starts home := hstill₁.starts_iff.mp hvector
    have hsofar := hstill₁.trans hstill
    have haddress : (e.storage.slot? home.slot).toOption.bind Slot.address? = some home.address := by
      simp [Storage.slot?, hsofar.storage.lookup? hhome.lookup, Except.map, Except.toOption, Slot.address?,
        hhome.location, Location.address?]
    simp only [Action.ends_get_bind, haddress]
    refine Action.word_bind (fun hleaves => htop (he.table_lt hhome hstarts ?_)) ?_
    · rw [← hsofar.tuning]
      exact hleaves
    · refine note_bind fun log => ?_
      rw [Action.ends_pure, hsofar.tuning]
      exact .handedOver _ (hsofar.trans (Engine.still_log e log)) hvalid hstarts
  · intro cause e hended
    obtain ⟨hstill, hwhy⟩ := hended
    refine note_bind fun log => ?_
    have hsofar := (hstill₁.trans hstill).trans (Engine.still_log e log)
    refine (takeRecourse_ends hsofar _).bind ?_ (fun _ _ h => h.elim) False.elim
    intro _ _ hended
    obtain ⟨rfl, rfl⟩ := hended
    refine .vectorRejected cause _ hsofar hvalid ?_
    rcases hwhy with hf | hbad
    · exact Or.inl ((hf.after hstill₁.toChanges).before (Engine.still_log e log).toChanges)
    · exact Or.inr (hstill₁.checkStart.symm.trans hbad)

omit hhome in
private theorem restoreBackup_ends
    (hstuck : ∀ slot e header, b.engine.Valid slot header → b.engine.Still e → Stuck slot e → trapped) :
    restoreBackup.Ends b (fun phase b' => Worked home b .fallback (.enter phase) b') (fun _ _ => False)
      trapped := by
  simp only [restoreBackup]
  rw [Action.ends_modify_bind, Action.ends_get_bind]
  split
  · rename_i hnone
    exact .noBackup hnone
  · rename_i backup hbackup
    refine note_bind fun log => ?_
    have hlog := Engine.still_log b.engine log
    refine attempt_bind (he.of_changes hlog.toChanges).init_ends ?_ ?_ False.elim
    · rintro _ e₁ hstill₁
      have hstill₁ := hlog.trans hstill₁
      refine attempt_bind ((he.of_changes hstill₁.toChanges).examine_ends backup) ?_ ?_
        fun h => htop (hstill₁.storage.setup.atTop.mp h)
      · intro header e hended
        obtain ⟨hstill, hvalid⟩ := hended
        have hsofar := hstill₁.trans hstill
        have hvalid := hstill₁.valid_iff.mp hvalid
        refine (installFrom_ends _ backup _).imp ?_ (fun _ _ h => h) fun h => hstuck backup e header hvalid hsofar h
        intro _ _ hended
        obtain ⟨rfl, ⟨e', hact, rfl⟩ | ⟨cause, e', e'', hact, hstill', rfl⟩⟩ := hended
        · exact .restored backup e e' header hbackup hsofar hvalid hact
        · exact .notRestored backup cause e e' e'' header hbackup hsofar hvalid hact hstill'
      · intro _ e hended
        obtain ⟨hstill, hwhy⟩ := hended
        exact .backupRejected backup .noValidImage e hbackup (hstill₁.trans hstill)
          ((hwhy.after hstill₁).imp (·.faulted) fun hnone => ⟨rfl, hnone⟩)
    · intro _ e hended
      obtain ⟨hstill, hf⟩ := hended
      exact .backupRejected backup .driverFailure e hbackup (hlog.trans hstill) (Or.inl (hlog.faulted_right hf))

/-- The work of a phase ends in one of the ways that are listed, and traps only where installing does. -/
theorem work_ends (phase : BootPhase)
    (hchosen : ∀ slot, phase = .install slot → Stuck slot b.engine → trapped)
    (hstuck : ∀ slot e header, b.engine.Valid slot header → b.engine.Still e → Stuck slot e → trapped) :
    (work phase).Ends b (fun result b' => Worked home b phase result b') (fun _ _ => False) trapped := by
  have henter : ∀ {act : Work n k BootPhase}, act.Ends b (fun next b' => Worked home b phase (.enter next) b')
      (fun _ _ => False) trapped → (PhaseResult.enter <$> act).Ends b
        (fun result b' => Worked home b phase result b') (fun _ _ => False) trapped := by
    intro act h
    rw [map_eq_pure_bind]
    exact h.bind (fun _ _ h => h) (fun _ _ h => h) id
  cases phase with
  | init => exact .started
  | examineRunning => exact henter (examineRunning_ends he hhome htop)
  | chooseImage => exact henter (chooseImage_ends he hhome)
  | examineChosen slot => exact henter (examineChosen_ends he htop slot)
  | install slot =>
    apply henter
    simp only [installChosen, setVerified]
    rw [Action.ends_modify_bind]
    refine (installFrom_ends _ slot _).imp ?_ (fun _ _ h => h) (hchosen slot rfl)
    intro _ _ hended
    obtain ⟨rfl, ⟨e, hact, rfl⟩ | ⟨cause, e, e', hact, hstill, rfl⟩⟩ := hended
    · exact .installed slot e hact
    · exact .notInstalled slot cause e e' hact hstill
  | examineInstalled => exact henter (examineInstalled_ends he hhome htop)
  | commit => exact henter (commit_ends he)
  | fallback => exact henter (restoreBackup_ends he htop hstuck)
  | run =>
    refine (handOver_ends he hhome htop).bind ?_ (fun _ _ h => h) id
    rintro (next | table) b' h
    · exact h
    · exact h
  | halt cause => exact note_bind fun log => .halted cause _ (Engine.still_log b.engine log)

end Phases

end Boot
end FirmwareUpdate
