import FirmwareUpdate.Proofs.Boot.Recovery

/-! A boot that can fall back runs an application in the end, as long as no call on a device fails. An
image that turns out not to start once it is installed is replaced by the one that ran before. -/
namespace FirmwareUpdate
variable {n k : Nat}

namespace Engine
variable {e e' e₁ : Engine n k} {home : Home n k} {spare : SlotId} {running : Header}
  {memory : Memory n k} {entry : Slot}

/-- The bytes of a slot once the plain form of the image has been laid over them. -/
def View.over (v : View n k) (e : Engine n k) (memory : Memory n k) (entry : Slot) (h : Header) : Bytes :=
  e.storage.overlaid memory (e.storage.held memory entry) (v.needed h) (v.plain h)

/-- The image that was kept starts again where it came from, if its vector is a part of it. -/
theorem Fallback.starts_of_restored (hf : e.Fallback home spare)
    (hvalid : e.Valid home.slot running) (hstarts : e.Starts home)
    (hlong : e.tuning.tableOffset + entryOffset + 4 ≤ e.backend.plainLength running)
    (hchanges : Changes (fun _ => True) e e₁) (hkept : e₁.Kept spare (e.kept home running) running)
    (hl : e₁.storage.lookup? spare = .ok (memory, entry))
    (hreplaced : Replaced (e₁.viewOf spare memory entry) (e₁.viewOf home.slot home.memory home.entry) running e₁ e') :
    e'.Starts home := by
  have hfits : e.backend.headerLength + running.size.toNat + e.backend.digestLength ≤
      (e.storage.held home.memory home.entry).length := (hvalid.plain hf.runs.lookup hf.runs.primary).fits
  have hshort : e.backend.plainLength running ≤
      e.backend.headerLength + running.size.toNat + e.backend.digestLength := Nat.add_le_add_left hf.honest _
  have hlength : (e.kept home running).length =
      e.backend.headerLength + running.size.toNat + e.backend.digestLength := List.length_take_of_le hfits
  have hencrypted : e₁.holdsEncrypted spare = false := (hchanges.holdsEncrypted spare).trans hf.plain
  have haccepts : e₁.backend.Accepts e₁.key false (e₁.storage.held memory entry) running :=
    hencrypted ▸ hreplaced.valid
  have hplain : (e₁.viewOf spare memory entry).plain running =
      (e.kept home running).take (e.backend.plainLength running) := by
    have hsame := Bytes.slice_of_front (hkept.copy memory entry hl)
      (show 0 + e.backend.plainLength running ≤ (e.kept home running).length by omega)
    have himage : e₁.backend.plainImage e₁.key false (e₁.storage.held memory entry) running =
        (e₁.storage.held memory entry).take (e₁.backend.plainLength running) := haccepts.plainImage_eq
    rw [hchanges.backend] at himage
    rw [← Bytes.slice_zero, ← hsame, Bytes.slice_zero, ← himage, View.plain, ← hencrypted, ← hchanges.backend]
    rfl
  have hheld : e'.storage.held home.memory home.entry =
      (e₁.viewOf spare memory entry).over e₁ home.memory home.entry running := hreplaced.held
  have hchanges' := hchanges.trans hreplaced.anywhere
  have hbefore : (e₁.viewOf spare memory entry).plain running <+: e.storage.held home.memory home.entry := by
    rw [hplain]
    exact (List.take_prefix _ _).trans (List.take_prefix _ _)
  have hafter : (e₁.viewOf spare memory entry).plain running <+: e'.storage.held home.memory home.entry := by
    rw [hheld]
    exact (Storage.prefix_padTo _ _).trans (Storage.prefix_overlaid _ _ _ _ _)
  simp only [Starts]
  rw [hchanges'.tuning]
  apply hstarts.of_front hbefore hafter
  · rw [Storage.length_held (hchanges'.inOrder hf.service.inOrder).sound (hchanges'.storage.lookup? hf.runs.lookup),
      Storage.length_held hf.service.inOrder.sound hf.runs.lookup]
  · rw [hplain, List.length_take_of_le (by omega)]
    exact hlong

/-- There is an application that starts and something to fall back on, and no installation fails but for
the fault of a device. The image that is chosen first starts once it is installed, or it leaves the backup
slot for the application, whose vector is a part of it. -/
structure Secure (e : Engine n k) (home : Home n k) (spare : SlotId) (running : Header) : Prop
    extends e.Fallback home spare where
  granular : e.storage.AllGranular
  empty : e.storage.buffer.bytes = []
  valid : e.Valid home.slot running
  starts : e.Starts home
  candidate : ∀ slot memory entry header, e.newest home.slot running = .update slot →
    e.storage.lookup? slot = .ok (memory, entry) → e.Valid slot header →
    (e.viewOf slot memory entry).needed header ≤ home.entry.size →
    Plausible e.tuning.tableOffset home.address
        ((e.viewOf slot memory entry).over e home.memory home.entry header) ∨
      slot ≠ spare ∧ e.tuning.tableOffset + entryOffset + 4 ≤ e.backend.plainLength running

/-- After its installation the chosen image starts, or the one before it is kept. -/
theorem Secure.chosen_ends {slot : SlotId} {header : Header} (hs : e.Secure home spare running)
    (hchosen : e.newest home.slot running = .update slot) (hvalid : e.Valid slot header) (hstill : e.Still e₁) :
    (install slot).Ends e₁
      (fun _ e' => e.Faulted e' ∨ (∃ header, e'.Valid home.slot header) ∧
        (e'.Starts home ∨ e'.Kept spare (e.kept home running) running ∧
          e.tuning.tableOffset + entryOffset + 4 ≤ e.backend.plainLength running))
      (fun _ e' => e.Faulted e' ∨ e.Still e') e.storage.AtTop := by
  obtain ⟨memory, entry, hl⟩ := hvalid.lookup
  have hne := newest_ne hs.valid.headerAt? hchosen
  refine (hs.service.install_valid_ends hs.runs hs.honest hs.empty hs.granular hl hvalid hne hstill).imp ?_ ?_ id
  · rintro _ e' hreplaced
    have happlication :=
      hreplaced.valid_application (hs.service.shows hl) (hs.service.shows hs.runs.lookup) hs.runs.primary
    have hheld : e'.storage.held home.memory home.entry =
        (e.viewOf slot memory entry).over e home.memory home.entry header := hreplaced.held
    rcases hs.candidate slot memory entry header hchosen hl hvalid hreplaced.fits with hvector | ⟨hother, hlong⟩
    · refine Or.inr ⟨⟨header, happlication⟩, Or.inl ?_⟩
      simp only [Starts]
      rw [hreplaced.anywhere.tuning, hheld]
      exact hvector
    · obtain ⟨e₂, hbacked, hchanges, -⟩ := hreplaced.backed
      rcases hs.toFallback.kept hother hbacked hs.valid with ⟨-, hbroken⟩ | hkept
      · exact Or.inl (hchanges.faulted_left hbroken.faulted)
      · have hchanges := hchanges.mono fun p => (hbacked.anywhere.storage.setup.within_iff p).mpr
        have hfallback := hs.toFallback.of_changes hbacked.anywhere
        exact Or.inr ⟨⟨header, happlication⟩, Or.inr ⟨hkept.of_overwriting hfallback hchanges, hlong⟩⟩
  · rintro _ e' (hfault | ⟨hstill', -⟩)
    · exact Or.inl (hstill.faulted_right hfault)
    · exact Or.inr (hstill.trans hstill')

/-- The image that was kept is put back, and starts. -/
theorem Secure.restore_ends {e₂ : Engine n k} (hs : e.Secure home spare running)
    (hlong : e.tuning.tableOffset + entryOffset + 4 ≤ e.backend.plainLength running)
    (hchanges : Changes (fun _ => True) e e₁) (hempty : e₁.storage.buffer.bytes = [])
    (hkept : e₁.Kept spare (e.kept home running) running) (hstill : e₁.Still e₂) :
    (install spare).Ends e₂ (fun _ e' => (∃ header, e'.Valid home.slot header) ∧ e'.Starts home)
      (fun _ e' => e.Faulted e') e.storage.AtTop := by
  have hf := hs.toFallback.of_changes hchanges
  obtain ⟨memory, entry, hl⟩ := hkept.valid.lookup
  have hfits : e.backend.headerLength + running.size.toNat + e.backend.digestLength ≤ home.entry.size := by
    rw [← Storage.length_held hs.service.inOrder.sound hs.runs.lookup]
    exact (hs.valid.plain hs.runs.lookup hs.runs.primary).fits
  refine (hf.service.install_valid_ends hf.runs hf.honest hempty (hs.granular.of_changes hchanges.storage) hl
    hkept.valid hf.ne hstill).imp ?_ ?_ hchanges.storage.setup.atTop.mp
  · rintro _ e' hreplaced
    have happlication :=
      hreplaced.valid_application (hf.service.shows hl) (hf.service.shows hf.runs.lookup) hf.runs.primary
    refine ⟨⟨running, happlication⟩, ?_⟩
    exact hs.toFallback.starts_of_restored hs.valid hs.starts hlong hchanges hkept hl hreplaced
  · rintro _ e' (hfault | ⟨-, hsmall⟩)
    · exact hchanges.faulted_right (hstill.faulted_right hfault)
    · have hneeded : (e₁.viewOf spare memory entry).needed running =
          e.backend.headerLength + running.size.toNat + e.backend.digestLength := by
        rw [View.needed, ← hchanges.backend]
        rfl
      omega

end Engine

/-- Phases that an installation leads to. -/
def BootPhase.isLate : BootPhase → Bool
  | .examineInstalled | .commit | .run => true
  | _ => false

/-- Phases from this one to the next in which an application is handed over to. -/
@[simp] def BootPhase.stepsToRun : BootPhase → Nat
  | .init => 12
  | .examineRunning => 11
  | .chooseImage => 10
  | .examineChosen _ => 9
  | .install _ => 8
  | .fallback => 4
  | .examineInstalled => 3
  | .commit => 2
  | .run => 1
  | .halt _ => 0

namespace Boot
variable {e₀ e : Engine n k} {b b' : Boot n k} {home : Home n k} {spare : SlotId} {running : Header}
  {phase next : BootPhase} {passed : Nat} {result : PhaseResult}

/-- How a boot without a fault comes to an application that starts. Before anything is written it still has
one. After an installation it has a valid image; either that starts, or the one before it has been kept and
will. The history has room for all of it. -/
inductive Course (e₀ : Engine n k) (home : Home n k) (spare : SlotId) (running : Header) (phase : BootPhase)
    (passed : Nat) (b : Boot n k) : Prop
  | early (early : phase.isEarly = true) (still : e₀.Still b.engine) (fresh : b.backupTried = false)
      (chosen : ∀ slot, phase = .examineChosen slot ∨ phase = .install slot →
        e₀.newest home.slot running = .update slot)
      (short : passed + phase.stepsToRun ≤ 13)
  | guarded (late : phase.isLate = true) (valid : ∃ header, b.engine.Valid home.slot header)
      (kept : b.engine.Kept spare (e₀.kept home running) running)
      (long : e₀.tuning.tableOffset + entryOffset + 4 ≤ e₀.backend.plainLength running)
      (fresh : b.backupTried = false) (short : passed + phase.stepsToRun ≤ 9)
  | falling (back : phase = .fallback) (kept : b.engine.Kept spare (e₀.kept home running) running)
      (long : e₀.tuning.tableOffset + entryOffset + 4 ≤ e₀.backend.plainLength running) (short : passed ≤ 9)
  | ready (late : phase.isLate = true) (valid : ∃ header, b.engine.Valid home.slot header)
      (starts : b.engine.Starts home) (short : passed + phase.stepsToRun ≤ 13)

/-- What the result of a phase is to be on that course. -/
def Keeps (e₀ : Engine n k) (home : Home n k) (spare : SlotId) (running : Header) (passed : Nat)
    (result : PhaseResult) (b' : Boot n k) : Prop :=
  match result with
  | .enter next => Course e₀ home spare running next (passed + 1) b'
  | .finish verdict => verdict = .run (home.address + e₀.tuning.tableOffset)

/-- A valid application is examined, committed and handed over to, unless it does not start. -/
theorem Worked.late (h : Worked home b phase result b') (hlate : phase.isLate = true)
    (hvalid : ∃ header, b.engine.Valid home.slot header) :
    b.engine.Still b'.engine ∧ b'.backupTried = b.backupTried ∧ (b.engine.Faulted b'.engine ∨
      (∃ next, result = .enter next ∧ next.isLate = true ∧ next.stepsToRun < phase.stepsToRun) ∨
      result = .finish (.run (home.address + b.engine.tuning.tableOffset)) ∨
      phase = .run ∧ ∃ cause, b.engine.checkStart home = .error cause ∧ result = .enter (b.recourse cause)) := by
  obtain ⟨header, hvalid⟩ := hvalid
  cases h with
  | devicesDown cause e still fault act => exact ⟨still, rfl, Or.inl fault⟩
  | installedRejected e still why =>
    exact ⟨still, rfl, Or.inl (why.resolve_right fun hno => hno header hvalid).faulted⟩
  | installedValid e header still valid =>
    refine ⟨still, rfl, Or.inr (Or.inl ⟨_, rfl, ?_⟩)⟩
    cases b.installFailed
    · exact ⟨rfl, by decide⟩
    · exact ⟨rfl, by decide⟩
  | committed e still => exact ⟨still, rfl, Or.inr (Or.inl ⟨.run, rfl, rfl, by decide⟩)⟩
  | unfit e unverified still why =>
    exact ⟨still, rfl, Or.inl (why.resolve_right fun hno => hno header hvalid).faulted⟩
  | vectorRejected cause e still valid why =>
    exact ⟨still, rfl, why.imp (·.faulted) fun hbad => Or.inr (Or.inr ⟨rfl, cause, hbad, rfl⟩)⟩
  | handedOver e still valid starts => exact ⟨still, rfl, Or.inr (Or.inr (Or.inl rfl))⟩
  | _ => cases hlate

/-- The first failure is met by falling back, if that is allowed. -/
theorem recourse_eq_fallback (hfallback : b.engine.policy.fallback = true) (hfresh : b.backupTried = false)
    (cause : Error) : b.recourse cause = .fallback := by
  simp only [recourse]
  simp [hfallback, hfresh]

/-- Once the backup has been tried there is nothing left but to halt. -/
theorem recourse_eq_halt (htried : b.backupTried = true) (cause : Error) : b.recourse cause = .halt cause := by
  simp only [recourse]
  simp [htried]

namespace Course
variable (hs : e₀.Secure home spare running) (hsettled : Settled e₀ phase b.engine)
  (hworked : Worked home b phase result b')
include hsettled hworked

private theorem worked_ready (late : phase.isLate = true) (valid : ∃ header, b.engine.Valid home.slot header)
    (starts : b.engine.Starts home) (short : passed + phase.stepsToRun ≤ 13) :
    e₀.Faulted b'.engine ∨ Keeps e₀ home spare running passed result b' := by
  obtain ⟨hstill, -, hfault | ⟨next, rfl, hnext, hless⟩ | rfl | ⟨-, cause, hbad, -⟩⟩ := hworked.late late valid
  · exact Or.inl (hsettled.changes.faulted_right hfault)
  · exact Or.inr (.ready hnext (valid.imp fun _ => hstill.valid_iff.mpr) (hstill.starts_iff.mpr starts) (by omega))
  · exact Or.inr (by rw [Keeps, hsettled.changes.tuning])
  · exact absurd starts (Engine.not_starts hbad)

include hs

private theorem worked_guarded (late : phase.isLate = true) (valid : ∃ header, b.engine.Valid home.slot header)
    (kept : b.engine.Kept spare (e₀.kept home running) running)
    (long : e₀.tuning.tableOffset + entryOffset + 4 ≤ e₀.backend.plainLength running)
    (fresh : b.backupTried = false) (short : passed + phase.stepsToRun ≤ 9) :
    e₀.Faulted b'.engine ∨ Keeps e₀ home spare running passed result b' := by
  obtain ⟨hstill, htried, hfault | ⟨next, rfl, hnext, hless⟩ | rfl | ⟨rfl, cause, -, rfl⟩⟩ := hworked.late late valid
  · exact Or.inl (hsettled.changes.faulted_right hfault)
  · exact Or.inr (.guarded hnext (valid.imp fun _ => hstill.valid_iff.mpr) (hstill.kept kept) long
      (htried.trans fresh) (by omega))
  · exact Or.inr (by rw [Keeps, hsettled.changes.tuning])
  · have hfallback : b.engine.policy.fallback = true := by
      rw [hsettled.changes.policy]
      exact (Engine.lookup_backup hs.role).1
    rw [recourse_eq_fallback hfallback fresh]
    exact Or.inr (.falling rfl (hstill.kept kept) long short)

private theorem worked_falling (back : phase = .fallback)
    (kept : b.engine.Kept spare (e₀.kept home running) running)
    (long : e₀.tuning.tableOffset + entryOffset + 4 ≤ e₀.backend.plainLength running) (short : passed ≤ 9) :
    e₀.Faulted b'.engine ∨ Keeps e₀ home spare running passed result b' := by
  have hrole : b.engine.backup? = some spare := hsettled.changes.backup?.trans hs.role
  subst back
  cases hworked with
  | noBackup why =>
    rw [hrole] at why
    cases why
  | backupRejected backup cause e role still why =>
    obtain rfl : backup = spare := Option.some.inj (role.symm.trans hrole)
    exact Or.inl (hsettled.changes.faulted_right (why.resolve_right fun hno => hno.2 running kept.valid))
  | restored backup e e' header role still valid act =>
    obtain rfl : backup = spare := Option.some.inj (role.symm.trans hrole)
    obtain ⟨hvalid, hstarts⟩ := (hs.restore_ends long hsettled.changes hsettled.empty kept still).done_of_ok act
    exact Or.inr (.ready rfl hvalid hstarts (Nat.add_le_add_right (Nat.succ_le_succ short) 3))
  | notRestored backup cause e e' e'' header role still valid act still' =>
    obtain rfl : backup = spare := Option.some.inj (role.symm.trans hrole)
    have hfault := (hs.restore_ends long hsettled.changes hsettled.empty kept still).failed_of_error act
    exact Or.inl (still'.faulted_left hfault)

private theorem worked_early (early : phase.isEarly = true) (still : e₀.Still b.engine) (fresh : b.backupTried = false)
    (chosen : ∀ slot, phase = .examineChosen slot ∨ phase = .install slot →
      e₀.newest home.slot running = .update slot)
    (short : passed + phase.stepsToRun ≤ 13) :
    e₀.Faulted b'.engine ∨ Keeps e₀ home spare running passed result b' := by
  have hvalid := still.valid_iff.mpr hs.valid
  have hready : ∀ e, b.engine.Still e → ∀ verified installFailed, ∀ next : BootPhase, next.isLate = true →
      passed + 1 + next.stepsToRun ≤ 13 → Course e₀ home spare running next (passed + 1)
        { b with engine := e, verified, installFailed } := by
    intro e hstill verified installFailed next hnext hshort
    have hsofar := still.trans hstill
    exact .ready hnext ⟨running, hsofar.valid_iff.mpr hs.valid⟩ (hsofar.starts_iff.mpr hs.starts) hshort
  have hfault : ∀ {e}, b.engine.Faulted e → e₀.Faulted e := hsettled.changes.faulted_right
  have hshort : ∀ {next : BootPhase}, next.stepsToRun < phase.stepsToRun → passed + 1 + next.stepsToRun ≤ 13 := by
    intro next hless
    omega
  cases hworked with
  | started => exact Or.inr (.early rfl still fresh (by simp) (hshort (by simp)))
  | runningValid e header still' valid =>
    exact Or.inr (.early rfl (still.trans still') fresh (by simp) (hshort (by simp)))
  | runningRejected e still' why => exact Or.inl (hfault (why.resolve_right fun hno => hno running hvalid).faulted)
  | kept slot e still' why =>
    exact Or.inr (hready e still' _ _ .run rfl (hshort (by simp)))
  | chosen slot e still' why =>
    refine why.imp hfault fun hwhy => ?_
    obtain ⟨header, hheader, hnewest⟩ := hwhy
    obtain rfl : header = running := Option.some.inj (hheader.symm.trans hvalid.headerAt?)
    refine .early rfl (still.trans still') fresh ?_ (hshort (by simp))
    rintro _ (⟨⟨⟩⟩ | ⟨⟨⟩⟩)
    exact (still.newest home.slot header).symm.trans hnewest
  | unreadable cause e still' why =>
    refine Or.inl (hfault (why.resolve_right fun hnone => ?_).faulted)
    rw [hvalid.headerAt?] at hnone
    cases hnone
  | candidateValid slot e header still' valid =>
    refine Or.inr (.early rfl (still.trans still') fresh ?_ (hshort (by simp)))
    rintro _ (⟨⟨⟩⟩ | ⟨⟨⟩⟩)
    exact chosen slot (Or.inl rfl)
  | candidateRejected slot e still' why =>
    exact Or.inr (hready e still' _ _ .run rfl (hshort (by simp)))
  | installed slot e act =>
    obtain ⟨header, hcandidate⟩ := hsettled.candidate slot rfl
    have hends := hs.chosen_ends (chosen slot (Or.inr rfl)) (still.valid_iff.mp hcandidate) still
    refine (hends.done_of_ok act).imp id fun hended => ?_
    obtain ⟨happlication, hstarts | ⟨hkept, hlong⟩⟩ := hended
    · exact .ready rfl happlication hstarts (hshort (by simp))
    · exact .guarded rfl happlication hkept hlong fresh (by simp only [BootPhase.stepsToRun] at short ⊢; omega)
  | notInstalled slot cause e e' act still' =>
    obtain ⟨header, hcandidate⟩ := hsettled.candidate slot rfl
    have hends := hs.chosen_ends (chosen slot (Or.inr rfl)) (still.valid_iff.mp hcandidate) still
    refine (hends.failed_of_error act).imp still'.faulted_left fun hunchanged => ?_
    have hsofar := hunchanged.trans still'
    exact .ready rfl ⟨running, hsofar.valid_iff.mpr hs.valid⟩ (hsofar.starts_iff.mpr hs.starts) (hshort (by simp))
  | _ => cases early

/-- A boot stays on its course, or a device is at fault. -/
theorem worked (h : Course e₀ home spare running phase passed b) :
    e₀.Faulted b'.engine ∨ Keeps e₀ home spare running passed result b' := by
  cases h with
  | early early still fresh chosen short => exact worked_early hs hsettled hworked early still fresh chosen short
  | guarded late valid kept long fresh short =>
    exact worked_guarded hs hsettled hworked late valid kept long fresh short
  | falling back kept long short => exact worked_falling hs hsettled hworked back kept long short
  | ready late valid starts short => exact worked_ready hsettled hworked late valid starts short

omit hs hsettled hworked

private theorem entering {log : Log} (h : Course e₀ home spare running next (b.history.length + 1) b) :
    Course e₀ home spare running (b.entering next log).phase (b.entering next log).history.length
      (b.entering next log) := by
  have hroom : b.history.length < historyLimit := by
    simp only [historyLimit]
    cases h <;> omega
  have hlog := Engine.still_log b.engine log
  simp only [Boot.entering, if_pos hroom, List.length_append, List.length_singleton]
  cases h with
  | early early still fresh chosen short => exact .early early (still.trans hlog) fresh chosen short
  | guarded late valid kept long fresh short =>
    exact .guarded late (valid.imp fun _ => hlog.valid_iff.mpr) (hlog.kept kept) long fresh short
  | falling back kept long short => exact .falling back (hlog.kept kept) long short
  | ready late valid starts short =>
    exact .ready late (valid.imp fun _ => hlog.valid_iff.mpr) (hlog.starts_iff.mpr starts) short

end Course

/-- A boot that is on its course, or has met the fault of a device. -/
structure OnCourse (e₀ : Engine n k) (home : Home n k) (spare : SlotId) (running : Header) (b : Boot n k) :
    Prop where
  settled : Settled e₀ b.phase b.engine
  course : e₀.Faulted b.engine ∨ Course e₀ home spare running b.phase b.history.length b

/-- A step of a boot on its course stays on it, or ends with the verdict that it leads to unless a call fails. -/
theorem OnCourse.step_ends (hs : e₀.Secure home spare running) (h : OnCourse e₀ home spare running b) :
    step.Ends b (fun verdict b' => Stepped home b verdict b' ∧ (verdict = none → OnCourse e₀ home spare running b') ∧
      ∀ v, verdict = some v → e₀.Faulted b'.engine ∨ v = .run (home.address + e₀.tuning.tableOffset))
      (fun _ _ => False) e₀.storage.AtTop := by
  have hfaulted : ∀ {result b'}, Worked home b b.phase result b' → e₀.Faulted b.engine → e₀.Faulted b'.engine := by
    intro result b' hworked hfault
    have hhere := h.settled.here.worked (hs.service.of_changes h.settled.changes)
      (h.settled.changes.backend ▸ hs.honest) hworked
    exact hhere.changes.faulted_left hfault
  have hkeeps : ∀ {result b'}, Worked home b b.phase result b' →
      e₀.Faulted b'.engine ∨ Keeps e₀ home spare running b.history.length result b' := fun hworked =>
    h.course.elim (fun hfault => Or.inl (hfaulted hworked hfault)) fun hcourse =>
      hcourse.worked hs h.settled hworked
  refine (h.settled.step_ends hs.service hs.runs hs.honest).imp ?_ (fun _ _ h => h) id
  rintro verdict b₁ hstepped
  cases hstepped with
  | finished verdict _ hworked =>
    refine ⟨.finished verdict _ hworked, nofun, ?_⟩
    intro _ hended
    obtain ⟨⟩ := hended
    exact hkeeps hworked
  | entered next b' log hworked =>
    refine ⟨.entered next b' log hworked, fun _ =>
      ⟨(h.settled.worked hs.service hs.honest hworked).entering, ?_⟩, fun v hv => by cases hv⟩
    rcases hkeeps hworked with hfault | hcourse
    · refine Or.inl ((Engine.still_log b'.engine log).faulted_left hfault)
    · rw [Keeps, ← hworked.same_phase.2] at hcourse
      exact Or.inr hcourse.entering

/-- A boot that can fall back on a plain backup slot hands over, if its application is valid and starts and no
call on a device fails. What the other slots hold makes no difference, but for the image that is chosen first:
where that does not start once it is installed, it must come from another slot than the backup slot, and the
vector of the application must be a part of its image. -/
theorem hands_over_of_fallback {plan : Plan} {primary : DeviceId n k} {secondary : Option (DeviceId n k)}
    {backend : Backend} {bare after : Storage n k} {application : SlotId} {memory memory' : Memory n k}
    {entry entry' : Slot} {address : Nat} (hdistinct : secondary ≠ some primary) (hhonest : backend.Honest)
    (hup : Engine.bringUp plan primary secondary backend bare = .ok e after)
    (happlication : e.application? = .ok application) (hspare : e.backup? = some spare)
    (hl : e.storage.lookup? application = .ok (memory, entry)) (ha : entry.location = .flash address)
    (hl' : e.storage.lookup? spare = .ok (memory', entry')) (hplain : e.holdsEncrypted spare = false)
    (hroom : entry.size ≤ entry'.size) (hgranular : e.storage.AllGranular) (htop : ¬e.storage.AtTop)
    (hvalid : e.Valid application running)
    (hstarts : Plausible plan.tuning.tableOffset address (e.storage.held memory entry))
    (hcandidate : ∀ slot memory' entry' header, e.newest application running = .update slot →
      e.storage.lookup? slot = .ok (memory', entry') → e.Valid slot header →
      (e.viewOf slot memory' entry').needed header ≤ entry.size →
      Plausible plan.tuning.tableOffset address ((e.viewOf slot memory' entry').over e memory entry header) ∨
        slot ≠ spare ∧ plan.tuning.tableOffset + entryOffset + 4 ≤ backend.plainLength running) :
    run.Ends (ofEngine e)
      (fun verdict b' => ∃ v, verdict = some v ∧
        (e.Faulted b'.engine ∨ v = .run (address + plan.tuning.tableOffset)))
      (fun _ _ => False) False := by
  obtain ⟨he, hempty, -, htuning, hbackend, -⟩ := (Engine.bringUp_ends hdistinct).done_of_ok hup
  obtain ⟨home, hhome⟩ := he.home
  obtain rfl : home.slot = application := Except.ok.inj (hhome.role.symm.trans happlication)
  rw [hhome.lookup] at hl
  cases hl
  rw [hhome.location] at ha
  cases ha
  rw [← htuning] at hstarts hcandidate ⊢
  rw [← hbackend] at hhonest hcandidate
  have hroom' : ∀ memory entry, e.storage.lookup? spare = .ok (memory, entry) → home.entry.size ≤ entry.size := by
    intro memory entry hfound
    rw [hl'] at hfound
    cases hfound
    exact hroom
  have hs : e.Secure home spare running :=
    ⟨⟨he, hhome, hspare, hplain, hroom', hhonest⟩, hgranular, hempty, hvalid, hstarts, hcandidate⟩
  have hstart : OnCourse e home spare running (ofEngine e) :=
    ⟨⟨Engine.Changes.refl _ e, hempty, nofun⟩,
      Or.inr (.early rfl (Engine.Still.refl e) rfl (by simp [ofEngine]) (Nat.le_refl _))⟩
  exact (run_ends (fun b hb => hb.step_ends hs) hstart).imp (fun _ _ h => h) (fun _ _ h => h) htop

/-- On the sample board an update that does not start gives way to the application before it. -/
theorem sample_hands_over : ∃ (e : Engine 1 0),
    ¬Plausible 64 128 (e.storage.held Sample.memory (Sample.slot 128 .anUpdate)) ∧
    run.Ends (ofEngine e)
      (fun verdict b' => ∃ v, verdict = some v ∧ (e.Faulted b'.engine ∨ v = .run (0 + 64)))
      (fun _ _ => False) False := by
  have hcheck : (match Engine.bringUp (Sample.plan 64) (.flash 0) none {}
        (Sample.board (Sample.image 1 [0, 16]) (Sample.image 2 [0, 0xFFFFFFFF]) []) with
      | .error _ _ => false
      | .ok e _ => match Engine.examine ⟨0, 0⟩ e with
        | .error _ _ => false
        | .ok running _ => decide (Sample.Holds e.storage ∧ e.storage.find? .theApplication = some ⟨0, 0⟩ ∧
            e.backup? = some ⟨0, 2⟩ ∧ e.holdsEncrypted ⟨0, 2⟩ = false ∧
            Plausible 64 0 (e.storage.held Sample.memory (Sample.slot 0 .theApplication)) ∧
            ¬Plausible 64 128 (e.storage.held Sample.memory (Sample.slot 128 .anUpdate)) ∧
            e.newest ⟨0, 0⟩ running = .update ⟨0, 1⟩ ∧ running.size = 8)) = true := by
    decide +kernel
  split at hcheck
  · cases hcheck
  rename_i e after hup
  split at hcheck
  · cases hcheck
  rename_i running e₁ hexamined
  obtain ⟨hholds, hfind, hbackup, hplain, hstarts, hrejected, hnewest, hsize⟩ := of_decide_eq_true hcheck
  have he := ((Engine.bringUp_ends (by simp)).done_of_ok hup).1
  have hvalid := ((he.examine_ends ⟨0, 0⟩).done_of_ok hexamined).2
  refine ⟨e, hrejected, hands_over_of_fallback (by simp) (Nat.le_refl _) hup ?_ hbackup hholds.lookup?.1 rfl
    hholds.lookup?.2.2 hplain (Nat.le_refl _) hholds.allGranular hholds.not_atTop hvalid hstarts ?_⟩
  · rw [Engine.application?, hfind]
  · intro slot memory entry header hchosen _ _ _
    rw [hnewest] at hchosen
    cases hchosen
    refine Or.inr ⟨by decide, ?_⟩
    rw [Backend.plainLength, hsize]
    decide

/-- A boot of the sample board that halts, although its application is valid and starts, the backup slot can take it,
and no call fails. -/
def Halts (tableOffset : Nat) (bare : Storage 1 0) : Prop :=
  ∃ e after running b', Engine.bringUp (Sample.plan tableOffset) Sample.device none {} bare = .ok e after ∧
    e.application? = .ok ⟨0, 0⟩ ∧ e.storage.lookup? ⟨0, 0⟩ = .ok (Sample.memory, Sample.slot 0 .theApplication) ∧
    e.backup? = some ⟨0, 2⟩ ∧ e.storage.lookup? ⟨0, 2⟩ = .ok (Sample.memory, Sample.slot 256 .aBackup) ∧
    e.holdsEncrypted ⟨0, 2⟩ = false ∧ e.storage.AllGranular ∧ ¬e.storage.AtTop ∧ e.Valid ⟨0, 0⟩ running ∧
    Plausible tableOffset 0 (e.storage.held Sample.memory (Sample.slot 0 .theApplication)) ∧
    run (ofEngine e) = .ok (some (.halt .resetVectorInvalid)) b' ∧ ¬e.Faulted b'.engine

private theorem halts_of_run {tableOffset : Nat} {bare : Storage 1 0}
    (h : (match Engine.bringUp (Sample.plan tableOffset) (.flash 0) none {} bare with
      | .error _ _ => false
      | .ok e _ => match Engine.examine ⟨0, 0⟩ e, run (ofEngine e) with
        | .ok _ _, .ok verdict b' => decide (Sample.Holds e.storage ∧
            e.storage.find? .theApplication = some ⟨0, 0⟩ ∧ e.backup? = some ⟨0, 2⟩ ∧
            e.holdsEncrypted ⟨0, 2⟩ = false ∧
            Plausible tableOffset 0 (e.storage.held Sample.memory (Sample.slot 0 .theApplication)) ∧
            verdict = some (.halt .resetVectorInvalid) ∧
            b'.engine.storage.faultsOn (.flash 0) = e.storage.faultsOn (.flash 0))
        | _, _ => false) = true) : Halts tableOffset bare := by
  split at h
  · cases h
  rename_i e after hup
  split at h
  · rename_i running e₁ verdict b' hexamined hrun
    obtain ⟨hholds, hfind, hbackup, hplain, hstarts, rfl, hfaults⟩ := of_decide_eq_true h
    have he := ((Engine.bringUp_ends (by simp)).done_of_ok hup).1
    have hvalid := ((he.examine_ends ⟨0, 0⟩).done_of_ok hexamined).2
    refine ⟨e, after, running, b', hup, ?_, hholds.lookup?.1, hbackup, hholds.lookup?.2.2, hplain, hholds.allGranular,
      hholds.not_atTop, hvalid, hstarts, hrun, Sample.not_faulted hfaults⟩
    rw [Engine.application?, hfind]
  · cases h

/-- A newer image in the backup slot that does not start is its own backup. And a vector that lies outside the
image before it is not kept with that image. -/
theorem sample_fallback_halts :
    Halts 64 (Sample.board (Sample.image 1 [0, 16]) [] (Sample.image 2 [0, 0xFFFFFFFF])) ∧
      Halts 76 (Sample.board (Sample.image 1 [0] ++ Bytes.ofWord 0 ++ Bytes.ofWord 0 ++ Bytes.ofWord 16)
        (Sample.image 2 [0]) []) :=
  ⟨halts_of_run (by decide +kernel), halts_of_run (by decide +kernel)⟩

end Boot
end FirmwareUpdate
