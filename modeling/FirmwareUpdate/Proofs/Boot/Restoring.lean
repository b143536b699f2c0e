import FirmwareUpdate.Proofs.Boot.Along
import FirmwareUpdate.Proofs.Boot.Fallback
import FirmwareUpdate.Proofs.Update.UpToDate

/-! Booting without a valid application. The backup is put in its place exactly when it is valid and fits, and is run
exactly when it starts there; in all other cases the boot halts. The backup itself is left as it is. -/
namespace FirmwareUpdate
variable {n k : Nat}

namespace Engine
variable {e e' e₁ : Engine n k} {home : Home n k} {v : View n k} {header : Header}

/-- The image in a slot is valid, and its plain form fits into this room. -/
structure Restorable (e : Engine n k) (slot : SlotId) (room : Nat) (header : Header) : Prop where
  valid : e.Valid slot header
  fits : e.needed header ≤ room

/-- The image in `v` has been put in place of the application. -/
abbrev Restored (e : Engine n k) (home : Home n k) (v : View n k) (header : Header) (e' : Engine n k) : Prop :=
  Replaced v (e.viewOf home.slot home.memory home.entry) header e e'

private theorem held_of_restored (h : e.Restored home v header e') :
    e'.storage.held home.memory home.entry = v.over e home.memory home.entry header := h.held

/-- Whether it starts in its place can be told beforehand. -/
theorem checkStart_of_restored (h : e.Restored home v header e') : e'.checkStart home =
    checkVector e.tuning.tableOffset home.address (v.over e home.memory home.entry header) := by
  rw [checkStart, h.anywhere.tuning, held_of_restored h]

/-- The application is not valid, and there is the slot in `v` to fall back on. -/
structure Stranded (e : Engine n k) (home : Home n k) (v : View n k) : Prop where
  service : e.InService
  runs : e.RunsAt home
  invalid : ∀ header, ¬e.Valid home.slot header
  role : e.backup? = some v.slot
  shows : e.Shows v
  honest : e.backend.Honest
  granular : e.storage.AllGranular
  empty : e.storage.buffer.bytes = []

private theorem Shows.viewOf_eq (h : e.Shows v) : e.viewOf v.slot v.memory v.entry = v := by
  rw [viewOf, h.bytes, h.backend, h.key, h.encrypted]

namespace Stranded
variable (h : e.Stranded home v)
include h

private theorem ne : v.slot ≠ home.slot := backup_ne_application h.role h.runs.role

/-- The backup is put in place if it can be, unless a device is at fault. -/
theorem install_ends (hvalid : e.Valid v.slot header) (hstill : e.Still e₁) :
    (install v.slot).Ends e₁ (fun _ e' => e.Restored home v header e')
      (fun _ e' => e.Faulted e' ∨ e.Still e' ∧ ∀ header, ¬e.Restorable v.slot home.entry.size header)
      e.storage.AtTop := by
  have hends := h.service.install_valid_ends h.runs h.honest h.empty h.granular h.shows.lookup hvalid h.ne hstill
  rw [h.shows.viewOf_eq] at hends
  refine hends.imp (fun _ _ hrestored => hrestored) ?_ id
  rintro _ e' (hfault | ⟨hstill', hsmall⟩)
  · exact Or.inl (hstill.faulted_right hfault)
  · refine Or.inr ⟨hstill.trans hstill', fun found hfound => ?_⟩
    obtain rfl : found = header := valid_unique hvalid hfound.valid
    rw [h.shows.needed] at hsmall
    exact absurd hfound.fits (Nat.not_le.mpr hsmall)

section Restored
variable (hrestored : e.Restored home v header e')
include hrestored

private theorem restorable_of_restored : e.Restorable v.slot home.entry.size header :=
  ⟨h.shows.valid_iff.mpr hrestored.valid, h.shows.needed header ▸ hrestored.fits⟩

private theorem valid_of_restored : e'.Valid home.slot header :=
  hrestored.valid_application h.shows (h.service.shows h.runs.lookup) h.runs.primary

private theorem spared_of_restored : e'.storage.held v.memory v.entry = v.bytes :=
  (hrestored.shows_source h.shows (h.service.shows h.runs.lookup) h.ne).bytes

end Restored
end Stranded
end Engine

namespace Boot
variable {e₀ e : Engine n k} {b b' : Boot n k} {home : Home n k} {v : Engine.View n k} {header : Header}
  {phase : BootPhase}
  {result : PhaseResult}

/-- How far a boot has come that has nothing but its backup to turn to. -/
inductive Stage (e₀ : Engine n k) (home : Home n k) (v : Engine.View n k) (phase : BootPhase) (b : Boot n k) : Prop
  | seeking (ahead : phase = .init ∨ phase = .examineRunning ∨ phase = .fallback) (still : e₀.Still b.engine)
      (fresh : b.backupTried = false)
  | lost (behind : phase = .examineInstalled ∨ phase = .halt .noValidImage) (still : e₀.Still b.engine)
      (tried : b.backupTried = true) (none : ∀ header, ¬e₀.Restorable v.slot home.entry.size header)
  | back (header : Header) (late : phase.isLate = true) (restored : e₀.Restored home v header b.engine)
      (tried : b.backupTried = true)
  | stuck (header : Header) (cause : Error) (halted : phase = .halt cause)
      (restored : e₀.Restored home v header b.engine) (tried : b.backupTried = true)
      (bad : b.engine.checkStart home = .error cause)

namespace Stage

private theorem still (h : Stage e₀ home v phase b) (hstill : b.engine.Still b'.engine)
    (htried : b'.backupTried = b.backupTried) : Stage e₀ home v phase b' := by
  cases h with
  | seeking ahead still fresh => exact .seeking ahead (still.trans hstill) (htried.trans fresh)
  | lost behind still tried none => exact .lost behind (still.trans hstill) (htried.trans tried) none
  | back header late restored tried =>
    exact .back header late (restored.between (.refl e₀) hstill) (htried.trans tried)
  | stuck header cause halted restored tried bad =>
    exact .stuck header cause halted (restored.between (.refl e₀) hstill) (htried.trans tried)
      (hstill.checkStart.trans bad)

section Work
variable (h : e₀.Stranded home v) (hworked : Worked home b phase result b')
include h hworked

private theorem worked_seeking (ahead : phase = .init ∨ phase = .examineRunning ∨ phase = .fallback)
    (still : e₀.Still b.engine) (fresh : b.backupTried = false) :
    e₀.Faulted b'.engine ∨ Stage e₀ home v (after phase result) b' := by
  have hrole : b.engine.backup? = some v.slot := still.backup?.trans h.role
  cases hworked with
  | started => exact Or.inr (.seeking (Or.inr (Or.inl rfl)) still fresh)
  | runningValid e header still' valid => exact absurd (still.valid_iff.mp valid) (h.invalid header)
  | runningRejected e still' why =>
    have hwanted : b.engine.policy.fallback = true := (Engine.lookup_backup hrole).1
    rw [recourse_eq_fallback hwanted fresh]
    exact Or.inr (.seeking (Or.inr (Or.inr rfl)) (still.trans still') fresh)
  | noBackup why =>
    rw [hrole] at why
    cases why
  | backupRejected backup cause e role still' why =>
    obtain rfl : backup = v.slot := Option.some.inj (role.symm.trans hrole)
    rcases why with hfault | ⟨rfl, hnone⟩
    · exact Or.inl (still.faulted_right hfault)
    · exact Or.inr (.lost (Or.inr rfl) (still.trans still') rfl fun header hrestorable =>
        hnone header (still.valid_iff.mpr hrestorable.valid))
  | restored backup e e' header role still' valid act =>
    obtain rfl : backup = v.slot := Option.some.inj (role.symm.trans hrole)
    have hends := h.install_ends (still.valid_iff.mp valid) (still.trans still')
    exact Or.inr (.back header rfl (hends.done_of_ok act) rfl)
  | notRestored backup cause e e' e'' header role still' valid act still'' =>
    obtain rfl : backup = v.slot := Option.some.inj (role.symm.trans hrole)
    have hends := h.install_ends (still.valid_iff.mp valid) (still.trans still')
    refine (hends.failed_of_error act).imp still''.faulted_left fun hended => ?_
    exact .lost (Or.inl rfl) (hended.1.trans still'') rfl hended.2
  | _ => rcases ahead with hphase | hphase | hphase <;> cases hphase

private theorem worked_lost (behind : phase = .examineInstalled ∨ phase = .halt .noValidImage)
    (still : e₀.Still b.engine) (tried : b.backupTried = true)
    (none : ∀ header, ¬e₀.Restorable v.slot home.entry.size header) :
    e₀.Faulted b'.engine ∨ Stage e₀ home v (after phase result) b' := by
  cases hworked with
  | devicesDown cause e still' fault act => exact Or.inl (still.faulted_right fault)
  | installedRejected e still' why =>
    rw [recourse_eq_halt tried]
    exact Or.inr (.lost (Or.inr rfl) (still.trans still') tried none)
  | installedValid e header still' valid => exact absurd (still.valid_iff.mp valid) (h.invalid header)
  | halted cause e still' => exact Or.inr (.lost behind (still.trans still') tried none)
  | _ => rcases behind with hphase | hphase <;> cases hphase

private theorem worked_back (late : phase.isLate = true) (restored : e₀.Restored home v header b.engine)
    (tried : b.backupTried = true) : e₀.Faulted b'.engine ∨ Stage e₀ home v (after phase result) b' := by
  obtain ⟨hstill, htried, hwhy⟩ := hworked.late late ⟨header, h.valid_of_restored restored⟩
  have hrestored := restored.between (.refl e₀) hstill
  have htried' := htried.trans tried
  rcases hwhy with hfault | ⟨next, rfl, hnext, -⟩ | rfl | ⟨-, cause, hbad, rfl⟩
  · exact Or.inl (restored.anywhere.faulted_right hfault)
  · exact Or.inr (.back header hnext hrestored htried')
  · exact Or.inr (.back header late hrestored htried')
  · rw [recourse_eq_halt tried]
    exact Or.inr (.stuck header cause rfl hrestored htried' (hstill.checkStart.trans hbad))

/-- The work of a phase takes a boot from one stage to the next, or a device is at fault. -/
theorem worked (hstage : Stage e₀ home v phase b) :
    e₀.Faulted b'.engine ∨ Stage e₀ home v (after phase result) b' := by
  cases hstage with
  | seeking ahead still fresh => exact worked_seeking h hworked ahead still fresh
  | lost behind still tried none => exact worked_lost h hworked behind still tried none
  | back header late restored tried => exact worked_back h hworked late restored tried
  | stuck header cause halted restored tried bad =>
    subst halted
    cases hworked with
    | halted cause e still =>
      exact Or.inr (.still (.stuck header cause rfl restored tried bad) still rfl)

end Work
end Stage

/-- Every boot of a stranded engine is at one of the stages, unless a device is at fault. -/
theorem stage_of_reaches (h : e₀.Stranded home v) (hreach : (ofEngine e₀).Reaches b) :
    e₀.Faulted b.engine ∨ Stage e₀ home v b.phase b := by
  refine hreach.invariant_or_faulted h.service h.runs (Or.inl h.empty) (I := fun b => Stage e₀ home v b.phase b)
    (.seeking (Or.inl rfl) (.refl e₀) rfl) fun b₁ b₂ verdict halong htaken hstage => ?_
  obtain ⟨result, b', hstep⟩ := halong.proceeds htaken
  refine (hstage.worked h hstep.worked).imp hstep.still.faulted_left fun hnext => ?_
  rw [hstep.phase]
  exact hnext.still hstep.still hstep.tried

/-! ### The verdict -/

/-- What becomes of the application and of the backup of an engine, and what the verdict is. -/
structure FallsBack (e : Engine n k) (application : SlotId) (memory : Memory n k) (entry : Slot) (address : Nat)
    (backup : Engine.View n k) (verdict : Verdict) (e' : Engine n k) : Prop where
  spared : e'.storage.held backup.memory backup.entry = e.storage.held backup.memory backup.entry
  runs_iff : (∃ table, verdict = .run table) ↔ ∃ header, e.Restorable backup.slot entry.size header ∧
    Plausible e.tuning.tableOffset address (backup.over e memory entry header)
  table : ∀ table, verdict = .run table → table = address + e.tuning.tableOffset
  restored : ∀ header, e.Restorable backup.slot entry.size header → e'.Valid application header ∧
    backup.plain header <+: e'.storage.held memory entry ∧
    e'.storage.held memory entry = backup.over e memory entry header
  rejected : ∀ header cause, e.Restorable backup.slot entry.size header →
    checkVector e.tuning.tableOffset address (backup.over e memory entry header) = .error cause →
    verdict = .halt cause
  lost : (∀ header, ¬e.Restorable backup.slot entry.size header) →
    verdict = .halt .noValidImage ∧ ∀ p, e'.storage.valueAt p = e.storage.valueAt p

private theorem FallsBack.of_restored {verdict : Verdict} (h : e.Stranded home v)
    (hrestored : e.Restored home v header b.engine)
    (hverdict : (∃ cause, b.engine.checkStart home = .error cause ∧ verdict = .halt cause) ∨
      b.engine.checkStart home = .ok () ∧ verdict = .run (home.address + e.tuning.tableOffset)) :
    FallsBack e home.slot home.memory home.entry home.address v verdict b.engine := by
  have hrestorable := h.restorable_of_restored hrestored
  have hheld := Engine.held_of_restored hrestored
  have hunique : ∀ found, e.Restorable v.slot home.entry.size found → found = header := fun found hfound =>
    Engine.valid_unique hrestorable.valid hfound.valid
  rw [Engine.checkStart_of_restored hrestored] at hverdict
  constructor
  case spared => rw [h.spared_of_restored hrestored, h.shows.bytes]
  case runs_iff =>
    constructor
    · rintro ⟨table, rfl⟩
      refine ⟨header, hrestorable, plausible_iff.mpr (hverdict.resolve_left ?_).1⟩
      rintro ⟨cause, -, hended⟩
      cases hended
    · rintro ⟨found, hfound, hstarts⟩
      obtain rfl := hunique found hfound
      refine ⟨_, (hverdict.resolve_left ?_).2⟩
      rintro ⟨cause, hbad, -⟩
      rw [plausible_iff.mp hstarts] at hbad
      cases hbad
  case table =>
    rintro table rfl
    rcases hverdict with ⟨cause, -, hended⟩ | ⟨-, hended⟩
    · cases hended
    · exact Verdict.run.inj hended
  case restored =>
    intro found hfound
    obtain rfl := hunique found hfound
    refine ⟨h.valid_of_restored hrestored, ?_, hheld⟩
    rw [hheld]
    exact (Storage.prefix_padTo _ _).trans (Storage.prefix_overlaid _ _ _ _ _)
  case rejected =>
    intro found cause hfound hbad
    obtain rfl := hunique found hfound
    rw [hbad] at hverdict
    rcases hverdict with ⟨cause', hsame, rfl⟩ | ⟨hgood, -⟩
    · cases hsame
      rfl
    · cases hgood
  case lost => exact fun hnone => absurd hrestorable (hnone header)

private theorem FallsBack.of_lost (hstill : e.Still b.engine)
    (hnone : ∀ header, ¬e.Restorable v.slot home.entry.size header) :
    FallsBack e home.slot home.memory home.entry home.address v (.halt .noValidImage) b.engine where
  spared := hstill.storage.held_eq fun _ _ h => h
  runs_iff := ⟨nofun, fun hruns => hruns.elim fun header hended => (hnone header hended.1).elim⟩
  table := nofun
  restored header hrestorable := (hnone header hrestorable).elim
  rejected header _ hrestorable := (hnone header hrestorable).elim
  lost _ := ⟨rfl, fun p => hstill.storage.same p id⟩

/-- A boot of a stranded engine falls back, unless a device is at fault. -/
theorem stranded_run_ends (h : e₀.Stranded home v) :
    run.Ends (ofEngine e₀)
      (fun verdict b => ∃ given, verdict = some given ∧ (e₀.Faulted b.engine ∨
        FallsBack e₀ home.slot home.memory home.entry home.address v given b.engine))
      (fun _ _ => False) e₀.storage.AtTop := by
  refine (run_ends_along h.service h.runs (Or.inl h.empty)).imp ?_ (fun _ _ h => h) id
  rintro _ b ⟨given, rfl, hphase, halong, hfit⟩
  refine ⟨given, rfl, (stage_of_reaches h halong.reached).imp id fun hstage => ?_⟩
  -- The verdict reports the phase that the boot ends in, and so the stage.
  rw [hphase] at hstage
  cases hstage with
  | seeking ahead still fresh => cases given <;> simp [Verdict.phase] at ahead
  | lost behind still tried none =>
    cases given with
    | run table => simp [Verdict.phase] at behind
    | halt cause =>
      obtain rfl : cause = .noValidImage := by simpa [Verdict.phase] using behind
      exact .of_lost still none
  | back header late restored tried =>
    cases given with
    | run table =>
      obtain ⟨-, hstarts, htable⟩ := hfit table rfl
      rw [restored.anywhere.tuning] at htable
      exact .of_restored h restored (Or.inr ⟨Engine.starts_iff.mp hstarts, by rw [htable]⟩)
    | halt cause => cases late
  | stuck header cause halted restored tried bad =>
    cases given with
    | run table => cases halted
    | halt cause' =>
      cases halted
      exact .of_restored h restored (Or.inl ⟨cause, bad, rfl⟩)

/-- A boot whose application is not valid falls back on the backup slot, whatever the slots hold, as long as no call on
a device fails. It hands over exactly where the backup is valid, fits and starts in place of the application, and then
the application is the plain form of the backup, with the same header. Otherwise it halts: where only the vector is bad,
with the error for that, and else without a valid image and with every byte as it was. The backup never changes. The
slots have to be ones of whole granules, and no flash device may end with the address space. -/
theorem falls_back_of_invalid {plan : Plan} {primary : DeviceId n k} {secondary : Option (DeviceId n k)}
    {backend : Backend} {bare after : Storage n k} {application : SlotId} {memory : Memory n k} {entry : Slot}
    {address : Nat} (hdistinct : secondary ≠ some primary) (hhonest : backend.Honest)
    (hfallback : plan.policy.fallback = true)
    (hup : Engine.bringUp plan primary secondary backend bare = .ok e after)
    (happlication : e.application? = .ok application) (hl : e.storage.lookup? application = .ok (memory, entry))
    (ha : entry.location = .flash address) (hgranular : e.storage.AllGranular) (htop : ¬e.storage.AtTop)
    (hinvalid : ∀ header, ¬e.Valid application header) :
    ∃ spare memory' entry', e.backup? = some spare ∧ e.storage.lookup? spare = .ok (memory', entry') ∧
      run.Ends (ofEngine e)
        (fun verdict b' => ∃ given, verdict = some given ∧ (e.Faulted b'.engine ∨
          FallsBack e application memory entry address (e.viewOf spare memory' entry') given b'.engine))
        (fun _ _ => False) False := by
  obtain ⟨he, hempty, hpolicy, -, hbackend, -⟩ := (Engine.bringUp_ends hdistinct).done_of_ok hup
  obtain ⟨spare, hspare⟩ := he.backup (hpolicy ▸ hfallback)
  obtain ⟨-, memory', entry', hl', -⟩ := Engine.lookup_backup hspare
  obtain ⟨home, hhome⟩ := he.home
  obtain rfl : home.slot = application := Except.ok.inj (hhome.role.symm.trans happlication)
  rw [hhome.lookup] at hl
  cases hl
  rw [hhome.location] at ha
  cases ha
  have hstranded : e.Stranded home (e.viewOf spare memory' entry') :=
    ⟨he, hhome, hinvalid, hspare, he.shows hl', hbackend ▸ hhonest, hgranular, hempty⟩
  exact ⟨spare, memory', entry', hspare, hl', (stranded_run_ends hstranded).imp (fun _ _ h => h) (fun _ _ h => h) htop⟩

/-- The sample board with this backup alone falls back with this verdict. -/
def Strands (backup : Bytes) (verdict : Verdict) : Prop :=
  ∃ (e : Engine 1 0) (after : Storage 1 0) (b : Boot 1 0),
    Engine.bringUp (Sample.plan 64) Sample.device none {} (Sample.board [] [] backup) = .ok e after ∧
    (∀ header, ¬e.Valid ⟨0, 0⟩ header) ∧ run (ofEngine e) = .ok (some verdict) b ∧
    FallsBack e ⟨0, 0⟩ Sample.memory (Sample.slot 0 .theApplication) 0
      (e.viewOf ⟨0, 2⟩ Sample.memory (Sample.slot 256 .aBackup)) verdict b.engine

private def strandsWith (backup : Bytes) (verdict : Verdict) : Bool :=
  (Engine.bringUp (Sample.plan 64) Sample.device none {}).passes (Sample.board [] [] backup) fun e _ =>
    (Engine.examine ⟨0, 0⟩).failsWith e (fun _ e₁ =>
      decide (e₁.storage.faultsOn Sample.device = e.storage.faultsOn Sample.device)) &&
    run.passes (ofEngine e) fun given b => decide (given = some verdict ∧ Sample.Holds e.storage ∧
      e.storage.find? .theApplication = some ⟨0, 0⟩ ∧ e.backup? = some ⟨0, 2⟩ ∧
      b.engine.storage.faultsOn Sample.device = e.storage.faultsOn Sample.device)

/-- A backup that starts is run; one that does not start is not, and neither is what is no image. -/
theorem sample_falls_back : Strands (Sample.image 3 [0, 16]) (.run 64) ∧
    Strands (Sample.image 3 [0, 0xFFFFFFFF]) (.halt .resetVectorInvalid) ∧ Strands [1] (.halt .noValidImage) := by
  have hstrands : ∀ {backup verdict}, strandsWith backup verdict = true → Strands backup verdict := by
    intro _ verdict hcheck
    obtain ⟨e, after, hup, hcheck⟩ := Action.exists_of_passes hcheck
    rw [Bool.and_eq_true] at hcheck
    obtain ⟨cause, e₁, hexamined, hquiet⟩ := Action.exists_of_failsWith hcheck.1
    obtain ⟨given, b, hrun, hchecked⟩ := Action.exists_of_passes hcheck.2
    obtain ⟨rfl, hholds, hfind, hbackup, hquiet'⟩ := of_decide_eq_true hchecked
    have he := ((Engine.bringUp_ends (by simp)).done_of_ok hup).1
    have hinvalid : ∀ header, ¬e.Valid ⟨0, 0⟩ header :=
      (((he.examine_ends ⟨0, 0⟩).failed_of_error hexamined).2).resolve_left fun hfault =>
        Sample.not_faulted (of_decide_eq_true hquiet) hfault.faulted
    obtain ⟨spare, memory, entry, hspare, hl, hends⟩ := falls_back_of_invalid (by simp) (Nat.le_refl _) rfl hup
      (by rw [Engine.application?, hfind]) hholds.lookup?.1 rfl hholds.allGranular hholds.not_atTop hinvalid
    rw [hbackup] at hspare
    cases hspare
    rw [hholds.lookup?.2.2] at hl
    cases hl
    obtain ⟨_, ⟨⟩, hended⟩ := hends.done_of_ok hrun
    exact ⟨e, after, b, hup, hinvalid, hrun, hended.resolve_left (Sample.not_faulted hquiet')⟩
  exact ⟨hstrands (by decide +kernel), hstrands (by decide +kernel), hstrands (by decide +kernel)⟩

end Boot
end FirmwareUpdate
