import FirmwareUpdate.Proofs.Boot.Intact
import FirmwareUpdate.Proofs.Update.UpToDate

/-! Booting again. A boot that hands over without having fallen back leaves the application up to date, and from then
on every boot hands over in the same way and writes nothing. -/
namespace FirmwareUpdate.Boot
variable {n k : Nat} {b b' : Boot n k} {e₀ e e' : Engine n k} {home : Home n k} {header : Header} {phase : BootPhase}
  {result : PhaseResult} {verdict : Option Verdict} {P : Place n k → Prop}

/-! ### Up to date -/

/-- What is known of the newest image on the way to a phase, with nothing pending. -/
def Known (home : Home n k) (e : Engine n k) : BootPhase → Prop
  | .examineChosen slot => e.Awaits home slot
  | .install slot => e.Awaits home slot ∧ ∃ header, e.Valid slot header
  | .examineInstalled | .commit | .run => e.UpToDate home
  | .init | .examineRunning | .chooseImage | .fallback | .halt _ => True

private theorem Known.still (h : Known home e phase) (hstill : e.Still e') : Known home e' phase := by
  cases phase with
  | examineChosen slot => exact hstill.awaits_iff.mpr h
  | install slot => exact ⟨hstill.awaits_iff.mpr h.1, h.2.imp fun _ => hstill.valid_iff.mpr⟩
  | examineInstalled | commit | run => exact hstill.upToDate_iff.mpr h
  | init | examineRunning | chooseImage | fallback | halt _ => trivial

private theorem known_recourse (e : Engine n k) (cause : Error) : Known home e (b.recourse cause) := by
  simp only [recourse]
  split <;> trivial

private theorem Worked.known (he : b.engine.InService) (hhome : b.engine.RunsAt home)
    (hempty : b.engine.storage.buffer.bytes = []) (hgranular : b.engine.storage.AllGranular)
    (h : Known home b.engine phase) (hforward : phase ≠ .fallback) (hworked : Worked home b phase result b') :
    b.engine.Faulted b'.engine ∨
      b'.engine.storage.buffer.bytes = [] ∧ Known home b'.engine (after phase result) := by
  cases hworked with
  | started => exact Or.inr ⟨hempty, trivial⟩
  | runningValid e header still valid => exact Or.inr ⟨still.pending hempty, trivial⟩
  | runningRejected e still why => exact Or.inr ⟨still.pending hempty, known_recourse e _⟩
  | kept slot e still why =>
    refine why.imp id fun hcurrent => ⟨still.pending hempty, still.upToDate_iff.mpr ?_⟩
    obtain ⟨running, hrunning, hnewest⟩ := hcurrent
    exact Engine.upToDate_of_current hrunning hnewest
  | chosen slot e still why => exact why.imp id fun hawaits => ⟨still.pending hempty, still.awaits_iff.mpr hawaits⟩
  | unreadable cause e still why => exact Or.inr ⟨still.pending hempty, trivial⟩
  | candidateValid slot e header still valid =>
    have hknown : Known home b.engine (.install slot) := ⟨h, header, valid⟩
    exact Or.inr ⟨still.pending hempty, hknown.still still⟩
  | candidateRejected slot e still why =>
    refine why.imp (·.faulted) fun hnone => ⟨still.pending hempty, still.upToDate_iff.mpr ?_⟩
    exact Engine.Awaits.upToDate h fun header hvalid => (hnone header hvalid).elim
  | installed slot e act =>
    obtain ⟨hawaits, header, hvalid⟩ := h
    exact Or.inr ((he.install_updates hhome hempty hgranular hawaits hvalid).done_of_ok act)
  | notInstalled slot cause e e' act still =>
    obtain ⟨hawaits, header, hvalid⟩ := h
    obtain ⟨hbuffer, hdone⟩ := (he.install_updates hhome hempty hgranular hawaits hvalid).failed_of_error act
    exact hdone.imp still.faulted_left fun hup => ⟨still.pending hbuffer, still.upToDate_iff.mpr hup⟩
  | devicesDown cause e still fault act => exact Or.inl fault
  | installedRejected e still why => exact Or.inr ⟨still.pending hempty, known_recourse e _⟩
  | installedValid e header still valid =>
    refine Or.inr ⟨still.pending hempty, ?_⟩
    simp only [after]
    split
    · exact still.upToDate_iff.mpr h
    · exact still.upToDate_iff.mpr h
  | committed e still => exact Or.inr ⟨still.pending hempty, still.upToDate_iff.mpr h⟩
  | noBackup | backupRejected | restored | notRestored => exact absurd rfl hforward
  | unfit e unverified still why => exact Or.inr ⟨still.pending hempty, known_recourse e _⟩
  | vectorRejected cause e still valid why => exact Or.inr ⟨still.pending hempty, known_recourse e _⟩
  | handedOver e still valid starts => exact Or.inr ⟨still.pending hempty, still.upToDate_iff.mpr h⟩
  | halted cause e still => exact Or.inr ⟨still.pending hempty, trivial⟩

/-- It is known wherever a boot gets that has not fallen back, unless a device is at fault. -/
theorem known_of_reaches (he : e₀.InService) (hhome : e₀.RunsAt home) (hempty : e₀.storage.buffer.bytes = [])
    (hgranular : e₀.storage.AllGranular) (hreach : (ofEngine e₀).Reaches b) (hforward : .fallback ∉ b.history) :
    e₀.Faulted b.engine ∨ b.engine.storage.buffer.bytes = [] ∧ Known home b.engine b.phase := by
  refine (hreach.invariant_or_faulted he hhome (Or.inl hempty) (I := fun b => .fallback ∉ b.history →
    b.engine.storage.buffer.bytes = [] ∧ Known home b.engine b.phase) (fun _ => ⟨hempty, trivial⟩)
    fun b₁ b₂ verdict halong htaken hbefore => ?_).imp id (· hforward)
  obtain ⟨result, b', hstep⟩ := halong.proceeds htaken
  by_cases hback : .fallback ∈ b₁.history
  · exact Or.inr fun hforward => absurd (hstep.longer hback) hforward
  have hchanges := halong.maintained.changes
  obtain ⟨hempty', hknown⟩ := hbefore hback
  refine (hstep.worked.known halong.service halong.runs hempty' (hgranular.of_changes hchanges.storage) hknown
    fun hphase => hback (hphase ▸ halong.routed.phase_mem)).imp ?_ ?_
  · exact fun hf => hchanges.faulted_right (hstep.still.faulted_left hf)
  · exact fun hnext _ => ⟨hstep.still.pending hnext.1, hstep.phase ▸ hnext.2.still hstep.still⟩

/-! ### The next boot -/

/-- The boot has changed no byte and asked no device to write or to erase. -/
structure Idle (e₀ : Engine n k) (b : Boot n k) : Prop where
  still : e₀.Still b.engine
  looked : e₀.storage.Looked b.engine.storage

/-- Where no byte has changed, the application is given up for the fault of a device. -/
theorem Reason.fault_of_still (h : Reason e₀ home b) (hstill : e₀.Still b.engine) : e₀.Faulted b.engine := by
  cases h with
  | changed differs => exact absurd (hstill.storage.held_eq fun _ _ h => h) differs
  | faulted fault => exact fault.faulted
  | devices lost fault => exact fault

section UpToDate
variable (h : Runnable e₀ home header) (hupToDate : e₀.UpToDate home)
include h hupToDate

private theorem Idle.installs {slot : SlotId} (hidle : Idle e₀ b) (hknown : Known home b.engine (.install slot)) :
    (Engine.install slot).Ends b.engine (fun _ _ => False)
      (fun _ e => b.engine.Still e ∧ Engine.Maintained e₀ e₀.storage.Looked e) True := by
  -- The only image that could be installed is too big.
  obtain ⟨hawaits, found, hvalid⟩ := hknown
  have hstill := hidle.still
  have hsmall := hstill.upToDate_iff.mpr hupToDate _ slot found (hstill.valid_iff.mpr h.valid) hawaits hvalid
  exact (h.service.of_changes hstill.toChanges).install_of_small (h.runs.of_changes hstill.toChanges)
    h.service.inOrder.sound.toFits.looked_upkeep (hstill.toChanges.maintained hidle.looked) hawaits.ne hvalid hsmall

private theorem Idle.step (hidle : Idle e₀ b) (hknown : Known home b.engine b.phase) (halong : Along e₀ home b)
    (hforward : b.phase ≠ .fallback) (htaken : step b = .ok verdict b') : Idle e₀ b' := by
  have hstill := hidle.still
  have hinstalls : ∀ slot, b.phase = .install slot → (Engine.install slot).Ends b.engine (fun _ _ => False)
      (fun _ e => b.engine.Still e ∧ Engine.Maintained e₀ e₀.storage.Looked e) True :=
    fun slot hslot => hidle.installs h hupToDate (hslot ▸ hknown)
  refine ⟨?_, ?_⟩
  · obtain ⟨result, b₁, hstep⟩ := halong.proceeds htaken
    rcases hstep.worked.still_or_installs with hsame | ⟨-, slot, e, -, hsource, hact | ⟨cause, e₁, hact, hafter⟩⟩
    · exact hstill.trans (hsame.trans hstep.still)
    · obtain ⟨hslot, rfl⟩ := hsource.resolve_right fun hback => hforward hback.1
      exact ((hinstalls slot hslot).done_of_ok hact).elim
    · obtain ⟨hslot, rfl⟩ := hsource.resolve_right fun hback => hforward hback.1
      exact hstill.trans ((((hinstalls slot hslot).failed_of_error hact).1.trans hafter).trans hstep.still)
  · have hmoved := step_moves_of_installs (Engine.keeping h.service.inOrder.sound.toFits.looked_upkeep)
      (hstill.toChanges.maintained hidle.looked)
      (fun slot hslot => (hinstalls slot hslot).imp (fun _ _ hno => hno.elim) (fun _ _ hended => hended.2) id)
      (absurd · hforward)
    exact ((hmoved.done_of_ok htaken).keeps (Engine.looking h.service.inOrder.sound.toFits.looked_upkeep)).storage

/-- As long as the application is up to date, a boot is idle and does not fall back, unless a device is at fault. -/
theorem idle_of_reaches (hempty : e₀.storage.buffer.bytes = []) (hgranular : e₀.storage.AllGranular)
    (hreach : (ofEngine e₀).Reaches b) : e₀.Faulted b.engine ∨ Idle e₀ b ∧ .fallback ∉ b.history := by
  refine hreach.invariant_or_faulted h.service h.runs (Or.inl hempty)
    (I := fun b => Idle e₀ b ∧ .fallback ∉ b.history) ⟨⟨.refl _, .of_devices rfl, rfl⟩, ?_⟩ ?_
  · exact fun hmem => nomatch List.mem_singleton.mp hmem
  · rintro b₁ b₂ verdict halong htaken ⟨hidle, hforward⟩
    have hnext : b₁.Reaches b₂ := .next b₁ b₂ verdict .refl htaken
    rcases known_of_reaches h.service h.runs hempty hgranular halong.reached hforward with hf | ⟨-, hknown⟩
    · exact Or.inl (hnext.faulted halong.service.inOrder halong.maintained.storage.tidy hf)
    have hidle' :=
      hidle.step h hupToDate hknown halong (fun hback => hforward (hback ▸ halong.routed.phase_mem)) htaken
    obtain ⟨result, b', hstep⟩ := halong.proceeds htaken
    by_cases hback : .fallback ∈ b₂.history
    · have hphase := (hstep.added _ hback).resolve_left hforward
      have hreason := reason_of_reaches h (Or.inl hempty) (halong.reached.trans hnext) (hphase ▸ rfl)
      exact Or.inl (hreason.fault_of_still hidle'.still)
    · exact Or.inr ⟨hidle', hback⟩

/-- So it hands over without having written anything. -/
theorem idle_run_ends (hempty : e₀.storage.buffer.bytes = []) (hgranular : e₀.storage.AllGranular) :
    run.Ends (ofEngine e₀)
      (fun verdict b => e₀.Faulted b.engine ∨ verdict = some (.run (home.address + e₀.tuning.tableOffset)) ∧
        Idle e₀ b ∧ .fallback ∉ b.history)
      (fun _ _ => False) e₀.storage.AtTop := by
  refine (run_ends_along h.service h.runs (Or.inl hempty)).imp ?_ (fun _ _ h => h) id
  rintro _ b ⟨v, rfl, hphase, halong, hfit⟩
  refine (idle_of_reaches h hupToDate hempty hgranular halong.reached).elim Or.inl fun hended => ?_
  obtain ⟨hidle, hforward⟩ := hended
  cases v with
  | run table => exact Or.inr ⟨by rw [(hfit table rfl).table, hidle.still.tuning], hidle, hforward⟩
  | halt cause =>
    have hreason := reason_of_reaches h (Or.inl hempty) halong.reached (hphase ▸ rfl)
    exact Or.inl (hreason.fault_of_still hidle.still)

end UpToDate

private theorem upToDate_of_run {table : Nat} (he : e.InService) (hhome : e.RunsAt home)
    (hempty : e.storage.buffer.bytes = []) (hgranular : e.storage.AllGranular)
    (hrun : run (ofEngine e) = .ok (some (.run table)) b) (hquiet : ¬e.Faulted b.engine)
    (hforward : .fallback ∉ b.history) :
    Engine.Changes (fun _ => True) e b.engine ∧ (∃ header, Runnable b.engine home header) ∧
      b.engine.UpToDate home ∧ table = home.address + b.engine.tuning.tableOffset := by
  obtain ⟨v, hv, hphase, halong, hfit⟩ := (run_ends_along he hhome (Or.inl hempty)).done_of_ok hrun
  cases hv
  obtain ⟨⟨header, hvalid⟩, hstarts, htable⟩ := hfit table rfl
  have hchanges : Engine.Changes (fun _ => True) e b.engine := halong.maintained.changes.mono fun _ _ => trivial
  obtain ⟨-, hknown⟩ := (known_of_reaches he hhome hempty hgranular halong.reached hforward).resolve_left hquiet
  rw [hphase] at hknown
  exact ⟨hchanges, ⟨header, halong.service, halong.runs, hvalid, hstarts⟩, hknown, htable⟩

/-- A boot that hands over, without having fallen back and with no call having failed, is followed by boots that do the
same as long as no call fails: the engine comes up again on the devices as they have been left, and the next boot hands
over to the same vector table, asks no device to write or to erase and changes no byte. The slots have to be ones of
whole granules, and no flash device may end with the address space. -/
theorem boots_again_of_run {plan : Plan} {primary : DeviceId n k} {secondary : Option (DeviceId n k)}
    {backend : Backend} {bare after : Storage n k} {table : Nat} (hdistinct : secondary ≠ some primary)
    (htop : ¬bare.AtTop) (hup : Engine.bringUp plan primary secondary backend bare = .ok e after)
    (hgranular : e.storage.AllGranular) (hrun : run (ofEngine e) = .ok (some (.run table)) b)
    (hquiet : ¬e.Faulted b.engine) (hforward : .fallback ∉ b.history) :
    (Engine.bringUp plan primary secondary backend).Ends b.engine.storage.clear
      (fun e' _ => run.Ends (ofEngine e')
        (fun verdict b' => b.engine.Faulted b'.engine ∨ verdict = some (.run table) ∧ .fallback ∉ b'.history ∧
          b.engine.storage.Unasked b'.engine.storage ∧
          ∀ p, b'.engine.storage.valueAt p = b.engine.storage.valueAt p)
        (fun _ _ => False) False)
      (fun _ s => b.engine.storage.Faulted s) False := by
  obtain ⟨he, hempty, -⟩ := (Engine.bringUp_ends hdistinct).done_of_ok hup
  obtain ⟨-, hsame, -⟩ := Engine.bringUp_fits.done_of_ok hup
  obtain ⟨home, hhome⟩ := he.home
  obtain ⟨hchanges, ⟨header, hrunnable⟩, hupToDate, rfl⟩ :=
    upToDate_of_run he hhome hempty hgranular hrun hquiet hforward
  refine (Engine.bringUp_again hdistinct hup hchanges).imp ?_ (fun _ _ hf => hf) id
  rintro e' _ ⟨hstill, hempty', hunasked⟩
  have hrunnable' := hrunnable.same hstill.toChanges (hstill.storage.held_eq fun _ _ h => h)
  have hsofar := hchanges.trans hstill.changes
  have hgranular' := hgranular.of_changes hsofar.storage
  refine (idle_run_ends hrunnable' (hstill.upToDate_iff.mpr hupToDate) hempty' hgranular').imp ?_
    (fun _ _ hno => hno) fun htrap => htop (hsame.mp (hsofar.storage.setup.atTop.mp htrap))
  rintro verdict b' (hf | ⟨rfl, hidle, hforward'⟩)
  · exact Or.inl (hstill.faulted_right hf)
  · refine Or.inr ⟨by rw [hstill.tuning], hforward', hunasked.trans hidle.looked.toUnasked, fun p => ?_⟩
    exact (hstill.trans hidle.still).storage.same p id

/-- An update is installed, and the next boot leaves it where it is. -/
theorem sample_boots_again : ∃ (e e' : Engine 1 0) (after after' : Storage 1 0) (b b' : Boot 1 0),
    let bare := Sample.board (Sample.image 1 [0, 16]) (Sample.image 2 [0, 24]) []
    Engine.bringUp (Sample.plan 64) (.flash 0) none {} bare = .ok e after ∧
      run (ofEngine e) = .ok (some (.run 64)) b ∧ .install ⟨0, 1⟩ ∈ b.history ∧ ¬bare.Unasked b.engine.storage ∧
      Engine.bringUp (Sample.plan 64) (.flash 0) none {} b.engine.storage.clear = .ok e' after' ∧
      run (ofEngine e') = .ok (some (.run 64)) b' ∧ b.engine.storage.Unasked b'.engine.storage ∧
      ∀ p, b'.engine.storage.valueAt p = b.engine.storage.valueAt p := by
  have hcheck : ((Engine.bringUp (Sample.plan 64) (.flash 0) none {}).passes
      (Sample.board (Sample.image 1 [0, 16]) (Sample.image 2 [0, 24]) []) fun e _ =>
        run.passes (ofEngine e) fun verdict b => decide (verdict = some (.run 64) ∧ Sample.Holds e.storage ∧
            b.engine.storage.faultsOn (.flash 0) = e.storage.faultsOn (.flash 0) ∧ .fallback ∉ b.history ∧
            .install ⟨0, 1⟩ ∈ b.history ∧ 0 < (b.engine.storage.flashLink 0).calls.write) &&
          (Engine.bringUp (Sample.plan 64) (.flash 0) none {}).passes b.engine.storage.clear fun e' _ =>
            run.passes (ofEngine e') fun _ b' =>
              decide (b'.engine.storage.faultsOn (.flash 0) = b.engine.storage.faultsOn (.flash 0))) = true := by
    decide +kernel
  obtain ⟨e, after, hup, hcheck⟩ := Action.exists_of_passes hcheck
  obtain ⟨verdict, b, hrun, hchecked⟩ := Action.exists_of_passes hcheck
  rw [Bool.and_eq_true] at hchecked
  obtain ⟨hfirst, hsecond⟩ := hchecked
  obtain ⟨rfl, hholds, hquiet, hforward, hinstalled, hwrites⟩ := of_decide_eq_true hfirst
  obtain ⟨e', after', hup', hsecond⟩ := Action.exists_of_passes hsecond
  obtain ⟨verdict', b', hrun', hquiet'⟩ := Action.exists_of_passes hsecond
  obtain ⟨-, hsame, -⟩ := Engine.bringUp_fits.done_of_ok hup
  have hagain := (boots_again_of_run (by simp) (fun htop => hholds.not_atTop (hsame.mpr htop)) hup
    hholds.allGranular hrun (Sample.not_faulted hquiet) hforward).done_of_ok hup'
  obtain ⟨rfl, -, hunasked, hvalues⟩ :=
    (hagain.done_of_ok hrun').resolve_left (Sample.not_faulted (of_decide_eq_true hquiet'))
  refine ⟨e, e', after, after', b, b', hup, hrun, hinstalled, fun hbefore => ?_, hup', hrun', hunasked, hvalues⟩
  exact absurd (hbefore.flash 0).write (Nat.ne_of_gt hwrites)

end FirmwareUpdate.Boot
