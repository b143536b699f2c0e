import FirmwareUpdate.Proofs.Boot.Run
import FirmwareUpdate.Proofs.Update.Frame

/-! The phases that a boot can go through, whatever it finds and whichever calls fail. In all of them the engine
stays in whatever condition its calls keep it in. -/
namespace FirmwareUpdate
variable {n k : Nat} {ε α β : Type} {e₀ e : Engine n k} {J : Storage n k → Prop} {T : SlotId → Prop} {trapped : Prop}

/-- The phases that may follow a phase. -/
inductive BootPhase.LeadsTo : BootPhase → BootPhase → Prop
  | started : LeadsTo .init .examineRunning
  | runningValid : LeadsTo .examineRunning .chooseImage
  | runningInvalid : LeadsTo .examineRunning .fallback
  | runningLost (cause : Error) : LeadsTo .examineRunning (.halt cause)
  | noneNewer : LeadsTo .chooseImage .run
  | chosen (slot : SlotId) : LeadsTo .chooseImage (.examineChosen slot)
  | unreadable (cause : Error) : LeadsTo .chooseImage (.halt cause)
  | candidateValid (slot : SlotId) : LeadsTo (.examineChosen slot) (.install slot)
  | candidateInvalid (slot : SlotId) : LeadsTo (.examineChosen slot) .run
  | installed (slot : SlotId) : LeadsTo (.install slot) .examineInstalled
  | accepted : LeadsTo .examineInstalled .commit
  | intact : LeadsTo .examineInstalled .run
  | installedInvalid : LeadsTo .examineInstalled .fallback
  | installedLost (cause : Error) : LeadsTo .examineInstalled (.halt cause)
  | committed : LeadsTo .commit .run
  | restored : LeadsTo .fallback .examineInstalled
  | backupLost (cause : Error) : LeadsTo .fallback (.halt cause)
  | vectorInvalid : LeadsTo .run .fallback
  | vectorLost (cause : Error) : LeadsTo .run (.halt cause)

/-- Whether the backup has been tried once the work of a phase is done. -/
def BootPhase.triedAfter (tried : Bool) : BootPhase → Bool
  | fallback => true
  | _ => tried

/-- The final phase that a verdict reports. -/
def Verdict.phase : Verdict → BootPhase
  | run _ => .run
  | halt cause => .halt cause

/-! ### The entry point -/

/-- What is read lies inside a slot. -/
theorem Storage.read_inside {s : Storage n k} {slot : SlotId} {offset length : Nat} :
    (Storage.read slot offset length).Yields s
      (fun _ _ => ∃ memory entry, s.lookup? slot = .ok (memory, entry) ∧ offset + length ≤ entry.size) := by
  simp only [Storage.read, Action.Yields]
  cases hl : s.lookup? slot with
  | error cause =>
    simp only [Storage.lookup]
    simp only [bind_assoc, Action.ends_get_bind, hl]
    trivial
  | ok found =>
    rw [ends_lookup_bind hl]
    simp only [requireInside]
    split
    · rename_i hin
      rw [Action.ends_pure_bind]
      exact Action.ends_of_all (fun _ _ => ⟨_, _, rfl, hin⟩) (fun _ _ => trivial) trivial
    · trivial

namespace Engine

/-- The vector table reaches as far as the entry point in it, which lies inside the slot. -/
def ReachesEntry (e : Engine n k) (slot : SlotId) : Prop :=
  ∃ memory entry, e.storage.lookup? slot = .ok (memory, entry) ∧ e.tuning.tableOffset + entryOffset + 4 ≤ entry.size

private theorem entryPoint_reaches {slot : SlotId} :
    (entryPoint slot).Yields e (fun _ _ => e.ReachesEntry slot) := by
  simp only [entryPoint, Action.Yields]
  rw [Action.ends_get_bind, Action.ends_bind, Action.ends_ofExcept]
  split
  · split
    · trivial
    · have hread : (read slot (e.tuning.tableOffset + entryOffset) 4).Yields e (fun _ _ => e.ReachesEntry slot) :=
        onStorage_ends.mpr Storage.read_inside
      exact hread.bind fun _ _ hreaches =>
        Action.ends_of_all (fun _ _ => hreaches) (fun _ _ => trivial) trivial
  · trivial

/-- Looking up the entry point does no more than look. -/
theorem Looking.entryPoint {I : Engine n k → Prop} {slot : SlotId} (h : Looking I trapped) :
    Action.Preserves I trapped (entryPoint slot : Op n k Nat) := by
  refine .get_bind fun e _ => .bind (.ofExcept _) fun entry => ?_
  split
  · exact .fail _
  · exact .bind (h.read _ _ _) fun word => .bind (.ofExcept _) fun _ => .pure _

private theorem entryPoint_maintains {slot : SlotId} (h : Storage.Upkeep e₀.storage J T trapped)
    (he : Maintained e₀ J e) :
    (entryPoint slot).Ends e (fun _ e' => Maintained e₀ J e' ∧ e₀.ReachesEntry slot)
      (fun _ e' => Maintained e₀ J e') trapped := by
  refine (((looking h).entryPoint e he).and_yields entryPoint_reaches).imp ?_ (fun _ _ he' => he') id
  rintro _ e' ⟨he', memory, entry, hl, hreaches⟩
  exact ⟨he', memory, entry, (h.lookup? he.storage slot).symm.trans hl, he.tuning ▸ hreaches⟩

/-- So the address of the table does not leave the word. -/
theorem table_lt {slot : SlotId} {address : Nat} (h : Storage.Upkeep e₀.storage J T trapped) (he : Maintained e₀ J e)
    (hreaches : e₀.ReachesEntry slot)
    (haddress : (e.storage.slot? slot).toOption.bind Slot.address? = some address) :
    address + e.tuning.tableOffset < UInt32.size := by
  obtain ⟨memory, entry, hl, hin⟩ := hreaches
  have hlookup : e.storage.slot? slot = .ok entry := by
    simp only [Storage.slot?]
    rw [h.lookup? he.storage, hl]
    rfl
  rw [hlookup] at haddress
  have hlocation : entry.location = .flash address := by
    simp only [Except.toOption, Option.bind, Slot.address?, Location.address?] at haddress
    split at haddress
    · rename_i address' hlocation
      cases haddress
      exact hlocation
    · cases haddress
  have hfit := h.reach slot memory entry address hl hlocation
  rw [he.tuning]
  omega

/-- A condition that a boot keeps while it installs nothing. Where it traps, the table of an application whose entry
point has been read is out of reach. -/
structure Keeping (I : Engine n k → Prop) (trapped : Prop) : Prop extends Looking I trapped where
  init : Action.Preserves I trapped (onStorage Storage.init)
  closeFiles : Action.Preserves I trapped (onStorage Storage.closeFiles)
  table : ∀ slot e, I e → (entryPoint slot).Yields e fun _ e' => ∀ address,
    (e'.storage.slot? slot).toOption.bind Slot.address? = some address →
      UInt32.size ≤ address + e'.tuning.tableOffset → trapped

/-- What upkeep allows for, the calls of an engine keep. -/
theorem keeping (h : Storage.Upkeep e₀.storage J T trapped) : Keeping (Maintained e₀ J) trapped where
  toLooking := looking h
  init := onStorage_preserves h.init
  closeFiles := onStorage_preserves h.closeFiles
  table _ _ he := (entryPoint_maintains h he).yields.imp fun _ _ hended _ haddress hhigh =>
    absurd (table_lt h hended.1 hended.2 haddress) (Nat.not_lt.mpr hhigh)

end Engine

namespace Boot
variable {I : Engine n k → Prop} {b b' : Boot n k} {phase next : BootPhase} {tried : Bool}

/-- The phase may be next, and it is not the fallback once that has been tried. -/
structure MayFollow (phase : BootPhase) (tried : Bool) (next : BootPhase) : Prop where
  leads : phase.LeadsTo next
  once : next = .fallback → tried = false

/-- Whether or not the fallback has been tried, another phase may be next. -/
theorem MayFollow.other (h : phase.LeadsTo next) (hother : next.triedAfter false = false) :
    MayFollow phase tried next := by
  refine ⟨h, fun hback => ?_⟩
  rw [hback] at hother
  cases hother

/-- The results that the work of a phase can have. -/
inductive MayGive (phase : BootPhase) (tried : Bool) : PhaseResult → Prop
  | entered (next : BootPhase) (follows : MayFollow phase tried next) : MayGive phase tried (.enter next)
  | finished (verdict : Verdict) (final : verdict.phase = phase) : MayGive phase tried (.finish verdict)

/-- The phase is at work: the boot is still in it, and its engine is in the condition. -/
structure Underway (I : Engine n k → Prop) (b : Boot n k) (tried : Bool) (b' : Boot n k) : Prop where
  engine : I b'.engine
  phase : b'.phase = b.phase
  history : b'.history = b.history
  tried : b'.backupTried = tried

/-- What the phase leads to once it has been worked on. -/
abbrev Leads (I : Engine n k → Prop) (b : Boot n k) (phase : BootPhase) (tried : Bool)
    (next : BootPhase) (b' : Boot n k) : Prop :=
  MayFollow phase tried next ∧ Underway I b tried b'

private theorem Underway.withEngine (h : Underway I b tried b') (he : I e) :
    Underway I b tried { b' with engine := e } := ⟨he, h.phase, h.history, h.tried⟩

section Phases
variable {done : β → Boot n k → Prop} {failed : ε → Boot n k → Prop}

private theorem attempt_next {act : Engine.Op n k α} {rest : Except Error α → Action (Boot n k) ε β}
    (hact : Action.Preserves I trapped act) (hb : Underway I b tried b')
    (h : ∀ answer b₁, Underway I b tried b₁ → (rest answer).Ends b₁ done failed trapped) :
    (attempt act >>= rest).Ends b' done failed trapped :=
  attempt_bind (hact _ hb.engine) (fun a _ he => h (.ok a) _ (hb.withEngine he))
    (fun cause _ he => h (.error cause) _ (hb.withEngine he)) id

private theorem note_next {level : Severity} {text : String} {rest : Unit → Action (Boot n k) ε β}
    (h : Engine.Looking I trapped) (hb : Underway I b tried b')
    (hrest : ∀ b₁, Underway I b tried b₁ → (rest ⟨⟩).Ends b₁ done failed trapped) :
    (note level text >>= rest).Ends b' done failed trapped :=
  note_bind fun log => hrest _ (hb.withEngine (h.log _ log hb.engine))

private theorem takeRecourse_leads {cause : Error} (hb : Underway I b tried b') (hback : phase.LeadsTo .fallback)
    (hend : phase.LeadsTo (.halt cause)) :
    (takeRecourse cause : Action (Boot n k) ε BootPhase).Ends b' (Leads I b phase tried) (fun _ _ => False)
      False := by
  simp only [takeRecourse, recourse]
  rw [Action.ends_get_bind]
  refine ⟨?_, hb⟩
  split
  · rename_i hwanted
    exact ⟨hback, fun _ => hb.tried.symm.trans (Bool.eq_false_iff.mpr hwanted.2)⟩
  · exact .other hend rfl

variable (h : Engine.Keeping I trapped) (hb : Underway I b tried b')
include h hb

private theorem examineRunning_leads :
    examineRunning.Ends b' (Leads I b .examineRunning tried) (fun _ _ => False) trapped := by
  simp only [examineRunning]
  rw [Action.ends_get_bind]
  split
  · exact ⟨.other (.runningLost _) rfl, hb⟩
  · refine attempt_next h.examine hb fun answer b₁ hb₁ => ?_
    cases answer with
    | ok header => exact ⟨.other .runningValid rfl, hb₁.engine, hb₁.phase, hb₁.history, hb₁.tried⟩
    | error cause =>
      exact (takeRecourse_leads hb₁ .runningInvalid (.runningLost _)).imp (fun _ _ h => h) (fun _ _ h => h) False.elim

private theorem chooseImage_leads :
    chooseImage.Ends b' (Leads I b .chooseImage tried) (fun _ _ => False) trapped := by
  refine attempt_next h.choose hb fun answer b₁ hb₁ => ?_
  rcases answer with cause | ⟨slot | slot⟩
  · exact ⟨.other (.unreadable cause) rfl, hb₁⟩
  · exact ⟨.other .noneNewer rfl, hb₁⟩
  · exact ⟨.other (.chosen slot) rfl, hb₁⟩

private theorem examineChosen_leads (slot : SlotId) :
    (examineChosen slot).Ends b' (Leads I b (.examineChosen slot) tried) (fun _ _ => False) trapped := by
  refine attempt_next h.examine hb fun answer b₁ hb₁ => ?_
  cases answer with
  | ok header => exact ⟨.other (.candidateValid slot) rfl, hb₁⟩
  | error cause => exact note_next h.toLooking hb₁ fun b₂ hb₂ => ⟨.other (.candidateInvalid slot) rfl, hb₂⟩

private theorem installFrom_leads (slot : SlotId) (failure : String) (hnext : phase.LeadsTo .examineInstalled)
    (hinstall : (Engine.install slot).Ends b'.engine (fun _ e => I e)
      (fun _ e => I e) trapped) :
    (installFrom slot failure).Ends b' (Leads I b phase tried) (fun _ _ => False) trapped := by
  simp only [installFrom, setInstallFailed]
  rw [Action.ends_modify_bind]
  refine attempt_bind hinstall ?_ ?_ id
  · exact fun _ e he => ⟨.other hnext rfl, he, hb.phase, hb.history, hb.tried⟩
  · intro cause e he
    refine note_next h.toLooking ⟨he, hb.phase, hb.history, hb.tried⟩ fun b₁ hb₁ => ?_
    exact ⟨.other hnext rfl, hb₁.engine, hb₁.phase, hb₁.history, hb₁.tried⟩

private theorem examineInstalled_leads :
    examineInstalled.Ends b' (Leads I b .examineInstalled tried) (fun _ _ => False) trapped := by
  have hrecourse : ∀ {cause b₁}, Underway I b tried b₁ → (takeRecourse cause : Work n k BootPhase).Ends b₁
      (Leads I b .examineInstalled tried) (fun _ _ => False) trapped := fun hb₁ =>
    (takeRecourse_leads hb₁ .installedInvalid (.installedLost _)).imp (fun _ _ h => h) (fun _ _ h => h) False.elim
  simp only [examineInstalled]
  rw [Action.ends_get_bind]
  split
  · exact ⟨.other (.installedLost _) rfl, hb⟩
  · refine attempt_next h.init hb fun answer b₁ hb₁ => ?_
    cases answer with
    | error cause => exact hrecourse hb₁
    | ok =>
      refine attempt_next h.examine hb₁ fun answer b₂ hb₂ => ?_
      cases answer with
      | error cause => exact hrecourse hb₂
      | ok header =>
        have hb₃ : Underway I b tried { b₂ with verified := true } :=
          ⟨hb₂.engine, hb₂.phase, hb₂.history, hb₂.tried⟩
        simp only [setVerified, Action.ends_modify_bind, Action.ends_get_bind]
        split
        · exact note_next h.toLooking hb₃ fun b₄ hb₄ => ⟨.other .intact rfl, hb₄⟩
        · exact ⟨.other .accepted rfl, hb₃⟩

private theorem commit_leads : commit.Ends b' (Leads I b .commit tried) (fun _ _ => False) trapped := by
  refine attempt_next h.closeFiles hb fun answer b₁ hb₁ => ?_
  cases answer with
  | ok => exact note_next h.toLooking hb₁ fun b₂ hb₂ => ⟨.other .committed rfl, hb₂⟩
  | error cause =>
    refine note_next h.toLooking hb₁ fun b₂ hb₂ => note_next h.toLooking hb₂ fun b₃ hb₃ => ?_
    exact ⟨.other .committed rfl, hb₃⟩

omit hb in
private theorem restoreBackup_leads (hb : Underway I b tried b')
    (hinstall : ∀ slot, Action.Preserves I trapped (Engine.install slot)) :
    restoreBackup.Ends b' (Leads I b .fallback true) (fun _ _ => False) trapped := by
  have hb₁ : Underway I b true { b' with backupTried := true, verified := false } :=
    ⟨hb.engine, hb.phase, hb.history, rfl⟩
  simp only [restoreBackup]
  rw [Action.ends_modify_bind, Action.ends_get_bind]
  split
  · exact ⟨.other (.backupLost _) rfl, hb₁⟩
  · refine note_next h.toLooking hb₁ fun b₂ hb₂ => attempt_next h.init hb₂ fun answer b₃ hb₃ => ?_
    cases answer with
    | error cause => exact ⟨.other (.backupLost _) rfl, hb₃⟩
    | ok =>
      refine attempt_next h.examine hb₃ fun answer b₄ hb₄ => ?_
      cases answer with
      | error cause => exact ⟨.other (.backupLost _) rfl, hb₄⟩
      | ok header => exact installFrom_leads h hb₄ _ _ .restored (hinstall _ _ hb₄.engine)

private theorem ensureVerified_leads (application : SlotId) :
    (ensureVerified application).Ends b' (fun _ b₁ => Underway I b tried b₁) (Leads I b .run tried) trapped := by
  simp only [ensureVerified]
  rw [Action.ends_get_bind]
  split
  · exact hb
  · refine attempt_next h.examine hb fun answer b₁ hb₁ => ?_
    cases answer with
    | ok header => exact ⟨hb₁.engine, hb₁.phase, hb₁.history, hb₁.tried⟩
    | error cause =>
      exact (takeRecourse_leads hb₁ .vectorInvalid (.vectorLost _)).bind (fun _ _ h => h) (fun _ _ h => h.elim)
        False.elim

private theorem handOver_leads :
    handOver.Ends b' (fun _ b₁ => Underway I b tried b₁) (Leads I b .run tried) trapped := by
  simp only [handOver]
  rw [Action.ends_get_bind]
  split
  · exact ⟨.other (.vectorLost _) rfl, hb⟩
  · rename_i application _
    refine (ensureVerified_leads h hb application).bind ?_ (fun _ _ h => h) id
    intro _ b₁ hb₁
    refine attempt_bind ((h.entryPoint _ hb₁.engine).and_yields (h.table _ _ hb₁.engine)) ?_ ?_ id
    · rintro entry e ⟨he, htable⟩
      have hb₂ := hb₁.withEngine he
      rw [Action.ends_get_bind]
      simp only
      split
      · exact ⟨.other (.vectorLost _) rfl, hb₂⟩
      · rename_i address haddress
        exact Action.word_bind (htable address haddress) (note_next h.toLooking hb₂ fun _ hb₃ => hb₃)
    · intro cause e he
      refine note_next h.toLooking (hb₁.withEngine he) fun b₂ hb₂ => ?_
      exact (takeRecourse_leads hb₂ .vectorInvalid (.vectorLost _)).bind (fun _ _ h => h) (fun _ _ h => h.elim)
        False.elim

end Phases

private theorem work_leads (h : Engine.Keeping I trapped) (he : I b.engine)
    (phase : BootPhase) (hinstall : ∀ slot, phase = .install slot → (Engine.install slot).Ends b.engine
      (fun _ e => I e) (fun _ e => I e) trapped)
    (hrestore : phase = .fallback → ∀ slot,
      Action.Preserves I trapped (Engine.install slot)) :
    (work phase).Ends b (fun result b' => MayGive phase (phase.triedAfter b.backupTried) result ∧
      Underway I b (phase.triedAfter b.backupTried) b') (fun _ _ => False) trapped := by
  have hb : Underway I b b.backupTried b := ⟨he, rfl, rfl, rfl⟩
  have henter : ∀ {act : Work n k BootPhase} {tried : Bool}, act.Ends b (Leads I b phase tried) (fun _ _ => False)
      trapped → (PhaseResult.enter <$> act).Ends b
        (fun result b' => MayGive phase tried result ∧ Underway I b tried b') (fun _ _ => False) trapped := by
    intro act tried hact
    rw [map_eq_pure_bind]
    exact hact.bind (fun next _ hled => ⟨.entered next hled.1, hled.2⟩) (fun _ _ h => h) id
  cases phase with
  | init => exact ⟨.entered _ (.other .started rfl), hb⟩
  | examineRunning => exact henter (examineRunning_leads h hb)
  | chooseImage => exact henter (chooseImage_leads h hb)
  | examineChosen slot => exact henter (examineChosen_leads h hb slot)
  | install slot =>
    apply henter
    have hb₁ : Underway I b b.backupTried { b with verified := false } := ⟨he, rfl, rfl, rfl⟩
    simp only [installChosen, setVerified]
    rw [Action.ends_modify_bind]
    exact installFrom_leads h hb₁ slot _ (.installed slot) (hinstall slot rfl)
  | examineInstalled => exact henter (examineInstalled_leads h hb)
  | commit => exact henter (commit_leads h hb)
  | fallback => exact henter (restoreBackup_leads h hb (hrestore rfl))
  | run =>
    refine (handOver_leads h hb).attempt_bind ?_ ?_ id
    · exact fun table b' hb' => ⟨.finished (.run table) rfl, hb'⟩
    · exact fun next b' hled => ⟨.entered next hled.1, hled.2⟩
  | halt cause => exact note_next h.toLooking hb fun b' hb' => ⟨.finished (.halt cause) rfl, hb'⟩

/-- The ways in which a step ends, as far as the phases go. -/
inductive Moved (I : Engine n k → Prop) (b : Boot n k) : Option Verdict → Boot n k → Prop
  | finished (verdict : Verdict) (b' : Boot n k) (final : verdict.phase = b.phase)
      (done : Underway I b (b.phase.triedAfter b.backupTried) b') : Moved I b (some verdict) b'
  | entered (next : BootPhase) (b' : Boot n k) (log : Log)
      (follows : MayFollow b.phase (b.phase.triedAfter b.backupTried) next)
      (done : Underway I b (b.phase.triedAfter b.backupTried) b') : Moved I b none (b'.entering next log)

/-- A move from one phase to another keeps what looking keeps. -/
theorem Moved.keeps {verdict : Option Verdict} (hmoved : Moved I b verdict b') (h : Engine.Looking I trapped) :
    I b'.engine := by
  cases hmoved with
  | finished verdict b' final done => exact done.engine
  | entered next b' log follows done => exact h.log _ log done.engine

/-- A condition that every call but those of an installation keeps is kept by a step, if its installation keeps it. -/
theorem step_moves_of_installs (h : Engine.Keeping I trapped) (he : I b.engine)
    (hinstall : ∀ slot, b.phase = .install slot → (Engine.install slot).Ends b.engine
      (fun _ e => I e) (fun _ e => I e) trapped)
    (hrestore : b.phase = .fallback → ∀ slot, Action.Preserves I trapped (Engine.install slot)) :
    step.Ends b (fun verdict b' => Moved I b verdict b') (fun _ _ => False) trapped := by
  simp only [step]
  rw [Action.ends_get_bind]
  refine (work_leads h he b.phase hinstall hrestore).bind ?_ (fun _ _ h => h) id
  rintro _ b₁ ⟨⟨next, hfollows⟩ | ⟨verdict, hfinal⟩, hdone⟩
  · refine (moveTo_ends b₁ next).bind ?_ (fun _ _ h => h) False.elim
    rintro _ _ ⟨log, rfl⟩
    exact .entered next b₁ log hfollows hdone
  · exact .finished verdict b₁ hfinal hdone

/-- A step keeps what the upkeep of its engine does. -/
theorem step_moves (h : Engine.Upkeep e₀ J T trapped) (he : Engine.Maintained e₀ J b.engine) :
    step.Ends b (fun verdict b' => Moved (Engine.Maintained e₀ J) b verdict b') (fun _ _ => False) trapped :=
  step_moves_of_installs (Engine.keeping h.toUpkeep) he (fun _ _ => h.install _ he) fun _ _ => h.install

/-- What an installation keeps as well is kept by every step. -/
theorem step_keeps (h : Engine.Keeping I trapped)
    (hinstall : ∀ slot, Action.Preserves I trapped (Engine.install slot)) :
    Action.Preserves (fun b => I b.engine) trapped (step : Work n k (Option Verdict)) := fun _ he =>
  (step_moves_of_installs h he (fun slot _ => hinstall slot _ he) fun _ => hinstall).imp
    (fun _ _ hmoved => hmoved.keeps h.toLooking) (fun _ _ hno => hno.elim) id

/-- It is kept all along. -/
theorem Reaches.keeps (h : Engine.Keeping I trapped)
    (hinstall : ∀ slot, Action.Preserves I trapped (Engine.install slot)) (hreach : b.Reaches b')
    (he : I b.engine) : I b'.engine :=
  hreach.invariant he fun _ _ _ he htaken => (step_keeps h hinstall _ he).done_of_ok htaken

/-- What the upkeep of an engine keeps it has kept wherever the boot gets. -/
theorem Reaches.maintained (h : Engine.Upkeep e₀ J T trapped) (hreach : b.Reaches b')
    (he : Engine.Maintained e₀ J b.engine) : Engine.Maintained e₀ J b'.engine :=
  hreach.keeps (Engine.keeping h.toUpkeep) (fun _ => h.install) he

end Boot
end FirmwareUpdate
