import FirmwareUpdate.Proofs.Boot.Run

/-! No boot hands over to an application that is not fit to run, whatever is on the devices and whatever
call on them fails. The memory of an examination lasts until the application is written to. -/
namespace FirmwareUpdate.Boot
variable {n k : Nat} {e₀ : Engine n k} {b b' : Boot n k} {home : Home n k}

/-- What holds of a boot of the engine `e₀` between its phases. -/
structure Guarded (e₀ : Engine n k) (home : Home n k) (b : Boot n k) : Prop where
  changes : Engine.Changes (fun _ => True) e₀ b.engine
  tidy : b.engine.storage.Tidy
  verified : b.verified = true → ∃ header, b.engine.Valid home.slot header

/-- The application is a valid image with a plausible reset vector, and this is its vector table. -/
structure Fit (e : Engine n k) (home : Home n k) (table : Nat) : Prop where
  valid : ∃ header, e.Valid home.slot header
  starts : e.Starts home
  table : table = home.address + e.tuning.tableOffset

private theorem Guarded.still (h : Guarded e₀ home b) (hstill : b.engine.Still b'.engine)
    (hverified : b'.verified = true → b.verified = true ∨ ∃ header, b.engine.Valid home.slot header) :
    Guarded e₀ home b' := by
  refine ⟨h.changes.trans hstill.changes, hstill.tidy h.tidy, fun hb' => ?_⟩
  have hvalid : ∃ header, b.engine.Valid home.slot header := (hverified hb').elim h.verified id
  exact hvalid.imp fun header hvalid => hstill.valid_iff.mpr hvalid

private theorem Guarded.written (he : e₀.InService) (h : Guarded e₀ home b) (hstays : b.engine.Stays b'.engine)
    (hunverified : b'.verified = false) : Guarded e₀ home b' := by
  obtain ⟨hchanges, htidy⟩ := hstays (h.changes.inOrder he.inOrder) h.tidy
  refine ⟨h.changes.trans hchanges, htidy, fun hverified => ?_⟩
  rw [hunverified] at hverified
  cases hverified

private theorem Guarded.worked {phase : BootPhase} {result : PhaseResult} (he : e₀.InService) (h : Guarded e₀ home b)
    (hworked : Worked home b phase result b') : Guarded e₀ home b' := by
  cases hworked with
  | started => exact h
  | runningValid e header still valid => exact h.still still fun _ => Or.inr ⟨header, valid⟩
  | runningRejected e still why => exact h.still still Or.inl
  | kept slot e still why => exact h.still still Or.inl
  | chosen slot e still why => exact h.still still Or.inl
  | unreadable cause e still why => exact h.still still Or.inl
  | candidateValid slot e header still valid => exact h.still still Or.inl
  | candidateRejected slot e still why => exact h.still still Or.inl
  | installed slot e act => exact h.written he ((Engine.install_stays b.engine).done_of_ok act) rfl
  | notInstalled slot cause e e' act still =>
    refine h.written he ?_ rfl
    exact Engine.stays_closed.trans ((Engine.install_stays b.engine).failed_of_error act) still.stays
  | devicesDown cause e still fault act => exact h.still still Or.inl
  | installedRejected e still why => exact h.still still Or.inl
  | installedValid e header still valid => exact h.still still fun _ => Or.inr ⟨header, valid⟩
  | committed e still => exact h.still still Or.inl
  | noBackup why => exact h.still (Engine.Still.refl _) (by simp)
  | backupRejected backup cause e role still why => exact h.still still (by simp)
  | restored backup e e' header role still valid act =>
    refine h.written he ?_ rfl
    exact Engine.stays_closed.trans still.stays ((Engine.install_stays e).done_of_ok act)
  | notRestored backup cause e e' e'' header role still valid act still' =>
    refine h.written he ?_ rfl
    apply Engine.stays_closed.trans still.stays
    exact Engine.stays_closed.trans ((Engine.install_stays e).failed_of_error act) still'.stays
  | unfit e unverified still why => exact h.still still Or.inl
  | vectorRejected cause e still valid why => exact h.still still fun _ => valid
  | handedOver e still valid starts => exact h.still still fun _ => valid
  | halted cause e still => exact h.still still Or.inl

private theorem Guarded.fit {table : Nat} (h : Guarded e₀ home b)
    (hworked : Worked home b b.phase (.finish (.run table)) b') : Fit b'.engine home table := by
  generalize b.phase = phase at hworked
  cases hworked with
  | handedOver e still valid starts =>
    have hvalid : ∃ header, b.engine.Valid home.slot header := valid.elim h.verified id
    refine ⟨hvalid.imp fun header => still.valid_iff.mpr, still.starts_iff.mpr starts, ?_⟩
    rw [still.tuning]

/-- Every step keeps a boot guarded, and hands over to a fit application only. -/
theorem Guarded.step_ends (he : e₀.InService) (hhome : e₀.RunsAt home) (h : Guarded e₀ home b) :
    step.Ends b (fun verdict b' => Stepped home b verdict b' ∧ Guarded e₀ home b' ∧
      ∀ table, verdict = some (.run table) → Fit b'.engine home table) (fun _ _ => False) True := by
  refine (Boot.step_ends (he.of_changes h.changes) (hhome.of_changes h.changes) (fun _ => trivial)
    (fun _ _ _ => trivial) fun _ _ _ _ _ _ => trivial).imp ?_ (fun _ _ h => h) id
  rintro _ _ (⟨verdict, b', hworked⟩ | ⟨next, b', log, hworked⟩)
  · refine ⟨.finished verdict _ hworked, h.worked he hworked, ?_⟩
    intro table hended
    obtain ⟨⟩ := hended
    exact h.fit hworked
  · exact ⟨.entered next b' log hworked, (h.worked he hworked).still (Engine.still_log _ log) Or.inl, nofun⟩

/-- Whatever a run of a guarded boot ends with, it hands over to a fit application only. -/
theorem Guarded.run_ends (he : e₀.InService) (hhome : e₀.RunsAt home) (h : Guarded e₀ home b) :
    run.Ends b (fun verdict b' => Guarded e₀ home b' ∧
      ∀ table, verdict = some (.run table) → Fit b'.engine home table) (fun _ _ => False) True := by
  have hstep : ∀ b, Guarded e₀ home b → step.Ends b (fun verdict b' => Stepped home b verdict b' ∧
      (verdict = none → Guarded e₀ home b') ∧ ∀ v, verdict = some v →
        Guarded e₀ home b' ∧ ∀ table, v = .run table → Fit b'.engine home table) (fun _ _ => False) True := by
    intro b hb
    refine (hb.step_ends he hhome).imp ?_ (fun _ _ h => h) id
    intro verdict b' hended
    obtain ⟨hstepped, hb', hfit⟩ := hended
    exact ⟨hstepped, fun _ => hb', fun v hv => ⟨hb', fun table htable => hfit table (htable ▸ hv)⟩⟩
  refine (Boot.run_ends hstep h).imp ?_ (fun _ _ h => h) id
  intro _ b' hended
  obtain ⟨v, rfl, hb', hfit⟩ := hended
  exact ⟨hb', fun table htable => hfit table (Option.some.inj htable)⟩

/-- Wherever steps lead from a guarded boot, they lead to a guarded one. -/
theorem Guarded.of_reaches (he : e₀.InService) (hhome : e₀.RunsAt home) (h : Guarded e₀ home b)
    (hreach : b.Reaches b') : Guarded e₀ home b' :=
  hreach.invariant h fun _ _ _ hb htaken => ((hb.step_ends he hhome).done_of_ok htaken).2.1

/-- What a guarded boot hands over to, by a step or by a run, is fit. -/
theorem Guarded.fit_of_run {table : Nat} (he : e₀.InService) (hhome : e₀.RunsAt home) (h : Guarded e₀ home b)
    (hrun : step b = .ok (some (.run table)) b' ∨ run b = .ok (some (.run table)) b') :
    Guarded e₀ home b' ∧ Fit b'.engine home table := by
  rcases hrun with htaken | hran
  · obtain ⟨-, hb', hfit⟩ := (h.step_ends he hhome).done_of_ok htaken
    exact ⟨hb', hfit table rfl⟩
  · obtain ⟨hb', hfit⟩ := (h.run_ends he hhome).done_of_ok hran
    exact ⟨hb', hfit table rfl⟩

/-- A boot is guarded from the time its engine is brought up on. -/
theorem guarded_of_bringUp (home : Home n k) {plan : Plan} {primary : DeviceId n k} {secondary : Option (DeviceId n k)}
    {backend : Backend} {bare after : Storage n k} (hdistinct : secondary ≠ some primary)
    (hup : Engine.bringUp plan primary secondary backend bare = .ok e₀ after) :
    e₀.InService ∧ e₀.tuning = plan.tuning ∧ e₀.backend = backend ∧ Guarded e₀ home (ofEngine e₀) := by
  obtain ⟨hservice, hempty, -, htuning, hbackend, -⟩ := (Engine.bringUp_ends hdistinct).done_of_ok hup
  exact ⟨hservice, htuning, hbackend, Engine.Changes.refl _ _, Or.inl hempty, fun hverified => by cases hverified⟩

/-- Whenever a boot hands over, by a run or by any sequence of steps, the application slot holds a valid
image with a plausible reset vector at that time, and what is handed over is the address of the vector
table in that slot. -/
theorem application_fit_of_run {plan : Plan} {primary : DeviceId n k} {secondary : Option (DeviceId n k)}
    {backend : Backend} {bare after : Storage n k} {e : Engine n k} {table : Nat}
    (hdistinct : secondary ≠ some primary)
    (hup : Engine.bringUp plan primary secondary backend bare = .ok e after) (hreach : (ofEngine e).Reaches b)
    (hrun : step b = .ok (some (.run table)) b' ∨ run b = .ok (some (.run table)) b') :
    ∃ slot memory entry address header, b'.engine.application? = .ok slot ∧
      b'.engine.storage.lookup? slot = .ok (memory, entry) ∧ entry.location = .flash address ∧
      (b'.engine.storage.held memory entry).length = entry.size ∧
      backend.Accepts b'.engine.key false (b'.engine.storage.held memory entry) header ∧
      Plausible plan.tuning.tableOffset address (b'.engine.storage.held memory entry) ∧
      table = address + plan.tuning.tableOffset := by
  obtain ⟨home, hhome⟩ := ((Engine.bringUp_ends hdistinct).done_of_ok hup).1.home
  obtain ⟨he, htuning, hbackend, hstart⟩ := guarded_of_bringUp home hdistinct hup
  obtain ⟨hb', hfit⟩ := (hstart.of_reaches he hhome hreach).fit_of_run he hhome hrun
  have hhome' := hhome.of_changes hb'.changes
  obtain ⟨header, hvalid⟩ := hfit.valid
  refine ⟨home.slot, home.memory, home.entry, home.address, header, hhome'.role, hhome'.lookup, hhome'.location,
    ?_, ?_, ?_, ?_⟩
  · exact Storage.length_held (hb'.changes.inOrder he.inOrder).sound hhome'.lookup
  · rw [← hbackend, ← hb'.changes.backend]
    exact hvalid.plain hhome'.lookup hhome'.primary
  · rw [← htuning, ← hb'.changes.tuning]
    exact hfit.starts
  · rw [hfit.table, hb'.changes.tuning, htuning]

/-- A board whose application is sound boots it. -/
theorem sample_application_fit : ∃ (b' : Boot 1 0) (slot : SlotId) (memory : Memory 1 0) (entry : Slot)
    (address : Nat) (header : Header), b'.engine.application? = .ok slot ∧
      b'.engine.storage.lookup? slot = .ok (memory, entry) ∧ entry.location = .flash address ∧
      (b'.engine.storage.held memory entry).length = entry.size ∧
      Backend.Accepts {} b'.engine.key false (b'.engine.storage.held memory entry) header ∧
      Plausible 64 address (b'.engine.storage.held memory entry) ∧ 64 = address + 64 := by
  have hverdict : verdict? (Sample.plan 64) (.flash 0) none {} (Sample.board (Sample.image 1 [0, 16]) [] []) =
      some (.run 64) := by decide +kernel
  obtain ⟨e, after, b', hup, hrun⟩ := verdict?_eq_some hverdict
  exact ⟨b', application_fit_of_run (by decide) hup .refl (Or.inr hrun)⟩

end FirmwareUpdate.Boot
