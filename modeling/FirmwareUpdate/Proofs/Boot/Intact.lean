import FirmwareUpdate.Proofs.Boot.Along
import FirmwareUpdate.Proofs.Boot.Topology

/-! Why a boot gives its application up. It does so because the application has changed or a call on its device has
failed; and the failure of another device counts only where the devices do not come up again after an installation. -/
namespace FirmwareUpdate
variable {n k : Nat}

/-- The application that was there is not going to run as it is. -/
def BootPhase.givesUp : BootPhase → Bool
  | fallback | halt _ => true
  | _ => false

namespace Boot
variable {b b' b'' : Boot n k} {e₀ e : Engine n k} {home : Home n k} {header : Header} {P : Place n k → Prop}
  {phase : BootPhase} {result : PhaseResult} {verdict : Option Verdict}

/-- On the way from `b` to `b'` the devices did not all come up again after an installation. -/
def LosesDevices (b b' : Boot n k) : Prop :=
  ∃ b₁ cause e, b.Reaches b₁ ∧ b₁.phase = .examineInstalled ∧
    (Engine.onStorage Storage.init : Engine.Op n k Unit) b₁.engine = .error (.error cause) e ∧ b₁.Reaches b'

/-- Where devices are lost, the history holds the phase in which they are brought up again. -/
theorem LosesDevices.mem_history (h : LosesDevices (ofEngine e₀) b) (he : e₀.InService) (hhome : e₀.RunsAt home)
    (htidy : e₀.storage.Tidy) : .examineInstalled ∈ b.history := by
  obtain ⟨b₁, cause, e, hfirst, hphase, -, hthen⟩ := h
  induction hthen with
  | refl => exact hphase ▸ (hfirst.along he hhome htidy).routed.phase_mem
  | next b₂ b₃ verdict reached taken ih =>
    obtain ⟨_, _, hproceeds⟩ := ((hfirst.trans reached).along he hhome htidy).proceeds taken
    exact hproceeds.longer ih

/-- What a boot of the engine `e₀` may give its application up for. -/
inductive Reason (e₀ : Engine n k) (home : Home n k) (b : Boot n k) : Prop
  | changed (differs : b.engine.storage.held home.memory home.entry ≠ e₀.storage.held home.memory home.entry)
  | faulted (fault : Engine.FaultedAt home.slot e₀ b.engine)
  | devices (lost : LosesDevices (ofEngine e₀) b) (fault : e₀.Faulted b.engine)

/-- A reason remains one while no byte changes. -/
theorem Reason.still (h : Reason e₀ home b) (hstill : b.engine.Still b'.engine) (hreach : b.Reaches b') :
    Reason e₀ home b' := by
  cases h with
  | changed differs => exact .changed (hstill.storage.held_eq (fun _ _ h => h) ▸ differs)
  | faulted fault => exact .faulted (fault.before hstill.toChanges)
  | devices lost fault =>
    obtain ⟨b₁, cause, e, hfirst, hphase, hdown, hthen⟩ := lost
    exact .devices ⟨b₁, cause, e, hfirst, hphase, hdown, hthen.trans hreach⟩ (hstill.faulted_left fault)

/-- The engine has a valid application that starts. -/
structure Runnable (e₀ : Engine n k) (home : Home n k) (header : Header) : Prop where
  service : e₀.InService
  runs : e₀.RunsAt home
  valid : e₀.Valid home.slot header
  starts : e₀.Starts home

/-- It does so as long as its bytes are the same. -/
theorem Runnable.same (h : Runnable e₀ home header) (hchanges : Engine.Changes P e₀ e)
    (hsame : e.storage.held home.memory home.entry = e₀.storage.held home.memory home.entry) :
    Runnable e home header := by
  refine ⟨h.service.of_changes hchanges, h.runs.of_changes hchanges, h.valid.of_held h.runs.lookup hchanges hsame, ?_⟩
  simp only [Engine.Starts]
  rw [hchanges.tuning, hsame]
  exact h.starts

/-- The work of a phase leads to giving up only where there is a reason. -/
theorem Worked.reason (h : Runnable e₀ home header) (hchanges : Engine.Changes P e₀ b.engine)
    (hreach : (ofEngine e₀).Reaches b) (hbefore : b.phase.givesUp = true → Reason e₀ home b)
    (hworked : Worked home b b.phase result b') (hgives : (after b.phase result).givesUp = true)
    (hlog : b'.engine.Still b''.engine) (hnext : b.Reaches b'') : Reason e₀ home b'' := by
  have hstill : b.engine.Still b'.engine := by
    refine hworked.still_or_installs.resolve_right fun hinstalls => ?_
    rw [hinstalls.1] at hgives
    cases hgives
  refine Classical.byCases (fun hreason : Reason e₀ home b => hreason.still (hstill.trans hlog) hnext) fun hnone => ?_
  have hrunnable : Runnable b.engine home header :=
    h.same hchanges (Classical.byContradiction fun hdiffers => hnone (.changed hdiffers))
  have hvalid := hrunnable.valid
  have hquiet : b.phase.givesUp ≠ true := fun hbad => hnone (hbefore hbad)
  have hfault : Engine.FaultedAt home.slot b.engine b'.engine → Reason e₀ home b'' := fun hfault =>
    .faulted ((hfault.after hchanges).before hlog.toChanges)
  generalize hphase : b.phase = phase at hworked hgives hquiet
  cases hworked with
  | runningRejected e still why => exact hfault (why.resolve_right fun hno => hno header hvalid)
  | unreadable cause e still why =>
    refine hfault (why.resolve_right fun hno => ?_)
    rw [hvalid.headerAt?] at hno
    cases hno
  | devicesDown cause e still fault act =>
    exact .devices ⟨b, cause, e, hreach, hphase, act, hnext⟩ (hchanges.faulted_right (hlog.faulted_left fault))
  | installedRejected e still why => exact hfault (why.resolve_right fun hno => hno header hvalid)
  | installedValid e header still valid =>
    simp only [after] at hgives
    split at hgives <;> cases hgives
  | unfit e unverified still why => exact hfault (why.resolve_right fun hno => hno header hvalid)
  | vectorRejected cause e still valid why =>
      exact hfault (why.resolve_right fun hbad => Engine.not_starts hbad hrunnable.starts)
  | noBackup | backupRejected | halted => exact absurd rfl hquiet
  | _ => cases hgives

/-- Wherever a boot of a runnable engine has given its application up, there is a reason. -/
theorem reason_of_reaches (h : Runnable e₀ home header) (htidy : e₀.storage.Tidy) (hreach : (ofEngine e₀).Reaches b)
    (hgives : b.phase.givesUp = true) : Reason e₀ home b := by
  refine hreach.invariant_along (I := fun b => b.phase.givesUp = true → Reason e₀ home b) h.service h.runs htidy nofun
    (fun b₁ b₂ verdict halong htaken hbefore hgives => ?_) hgives
  obtain ⟨result, b', hstep⟩ := halong.proceeds htaken
  exact hstep.worked.reason h halong.maintained.changes halong.reached hbefore (hstep.phase ▸ hgives) hstep.still
    (.next b₁ b₂ verdict .refl htaken)

/-- A boot whose application is valid and starts comes to hand over to it, if its bytes are what they were in the end
and no call on its device has failed since the engine came up. Any call on the other device may fail, but for those that
bring it up again after an installation. -/
theorem runs_of_intact {plan : Plan} {primary : DeviceId n k} {secondary : Option (DeviceId n k)} {backend : Backend}
    {bare after : Storage n k} {application : SlotId} {memory : Memory n k} {entry : Slot} {address : Nat}
    (hdistinct : secondary ≠ some primary) (hup : Engine.bringUp plan primary secondary backend bare = .ok e after)
    (happlication : e.application? = .ok application) (hl : e.storage.lookup? application = .ok (memory, entry))
    (ha : entry.location = .flash address) (hvalid : e.Valid application header)
    (hstarts : Plausible plan.tuning.tableOffset address (e.storage.held memory entry)) :
    run.Ends (ofEngine e)
      (fun verdict b' => ∃ v, verdict = some v ∧
        (b'.engine.storage.faultsOn primary = e.storage.faultsOn primary →
          b'.engine.storage.held memory entry = e.storage.held memory entry →
          v = .run (address + plan.tuning.tableOffset) ∨ LosesDevices (ofEngine e) b'))
      (fun _ _ => False) e.storage.AtTop := by
  obtain ⟨he, hempty, -, htuning, -⟩ := (Engine.bringUp_ends hdistinct).done_of_ok hup
  have hdevice := (Engine.bringUp_application.done_of_ok hup) application memory entry happlication hl
  obtain ⟨home, hhome⟩ := he.home
  obtain rfl : home.slot = application := Except.ok.inj (hhome.role.symm.trans happlication)
  rw [hhome.lookup] at hl
  cases hl
  rw [hhome.location] at ha
  cases ha
  rw [← htuning] at hstarts ⊢
  have htidy : e.storage.Tidy := Or.inl hempty
  refine (run_ends_along he hhome htidy).imp ?_ (fun _ _ h => h) id
  rintro _ b' ⟨v, rfl, hphase, halong, hfit⟩
  refine ⟨v, rfl, fun hquiet hsame => ?_⟩
  cases v with
  | run table => exact Or.inl (by rw [(hfit table rfl).table, halong.maintained.tuning])
  | halt cause =>
    have hgives : b'.phase.givesUp = true := hphase ▸ rfl
    have hreason := reason_of_reaches ⟨he, hhome, hvalid, hstarts⟩ htidy halong.reached hgives
    cases hreason with
    | changed differs => exact absurd hsame differs
    | faulted fault =>
      obtain ⟨memory, entry, hfound, hfaulted⟩ := fault
      rw [hhome.lookup] at hfound
      cases hfound
      rw [hdevice] at hfaulted
      exact absurd hquiet (Nat.ne_of_gt hfaulted)
    | devices lost fault => exact Or.inr lost

private theorem oneSlot_le : [(⟨.flash 0, 128⟩ : SlotPlan)].length ≤ slotLimit := by decide

-- An application alone on its device, and a slot for updates on another.
private def splitPlan : Plan :=
  { memories := [⟨.primary, .flash, [⟨.flash 0, 128⟩], oneSlot_le⟩, ⟨.secondary, .flash, [⟨.flash 0, 128⟩], oneSlot_le⟩]
    memories_le := by decide
    policy := { secondMemory := true }
    tuning := { tableOffset := 64, chunk := 16 } }

-- The device for updates holds this image, and fails as it is told to.
private def splitBoard (update : Bytes) (outages : List Outage) : Storage 2 0 :=
  { devices :=
      { flashes := #v[{ device := Sample.preset (.blank Sample.geometry) 0 (Sample.image 1 [0, 16]) },
          { device := Sample.preset (.blank Sample.geometry) 0 update, schedule := .ofOutages outages }]
        stores := .emptyWithCapacity 0 } }

-- The application on the board, as the plan registers it.
private def splitMemory : Memory 2 0 := ⟨.primary, .flash 0, [Sample.slot 0 .theApplication]⟩

private theorem lookup?_splitMemory {s : Storage 2 0} (h : s.memories[0]? = some splitMemory) :
    s.lookup? ⟨0, 0⟩ = .ok (splitMemory, Sample.slot 0 .theApplication) := by
  simp [Storage.lookup?, h, splitMemory]

/-- The application runs although the update can no longer be read once its header has been. -/
theorem sample_runs_intact : ∃ (e : Engine 2 0) (b' : Boot 2 0), run (ofEngine e) = .ok (some (.run (0 + 64))) b' ∧
    e.storage.faultsOn (.flash 1) < b'.engine.storage.faultsOn (.flash 1) := by
  have hcheck : ((Engine.bringUp splitPlan (.flash 0) (some (.flash 1)) {}).passes
      (splitBoard (Sample.image 2 [0, 24]) [⟨.read, 1, .readFailed⟩]) fun e _ =>
        (Engine.examine ⟨0, 0⟩).passes e fun _ _ =>
          run.passes (ofEngine e) fun _ b => decide (e.storage.memories[0]? = some splitMemory ∧
            e.storage.find? .theApplication = some ⟨0, 0⟩ ∧
            Plausible 64 0 (e.storage.held splitMemory (Sample.slot 0 .theApplication)) ∧
            e.storage.faultsOn (.flash 1) < b.engine.storage.faultsOn (.flash 1) ∧
            b.engine.storage.faultsOn (.flash 0) = e.storage.faultsOn (.flash 0) ∧
            b.engine.storage.held splitMemory (Sample.slot 0 .theApplication) =
              e.storage.held splitMemory (Sample.slot 0 .theApplication) ∧
            .examineInstalled ∉ b.history)) = true := by
    decide +kernel
  obtain ⟨e, after, hup, hcheck⟩ := Action.exists_of_passes hcheck
  obtain ⟨header, e₁, hexamined, hcheck⟩ := Action.exists_of_passes hcheck
  obtain ⟨_, b', hrun, hchecked⟩ := Action.exists_of_passes hcheck
  obtain ⟨hmemory, hfind, hstarts, hfaults, hquiet, hsame, hnowhere⟩ := of_decide_eq_true hchecked
  obtain ⟨he, hempty, -⟩ := (Engine.bringUp_ends (by decide)).done_of_ok hup
  have hvalid := ((he.examine_ends ⟨0, 0⟩).done_of_ok hexamined).2
  have hends := runs_of_intact (by decide) hup (by rw [Engine.application?, hfind]) (lookup?_splitMemory hmemory) rfl
    hvalid hstarts
  obtain ⟨v, rfl, hverdict⟩ := hends.done_of_ok hrun
  obtain ⟨home, hhome⟩ := he.home
  obtain rfl := (hverdict hquiet hsame).resolve_right fun hlost =>
    hnowhere (hlost.mem_history he hhome (Or.inl hempty))
  exact ⟨e, b', hrun, hfaults⟩

/-- An update that was found valid cannot be read again, so that nothing is written. Then its device does not come up
again, and the boot halts in front of an application that is valid, starts and has not changed. -/
theorem sample_intact_halts : ∃ (e : Engine 2 0) (after : Storage 2 0) (header : Header) (b' : Boot 2 0),
    Engine.bringUp splitPlan (.flash 0) (some (.flash 1)) {}
      (splitBoard (Sample.image 2 [0, 24]) [⟨.read, 4, .readFailed⟩, ⟨.init, 1, .initFailed⟩]) = .ok e after ∧
    e.application? = .ok ⟨0, 0⟩ ∧ e.storage.lookup? ⟨0, 0⟩ = .ok (splitMemory, Sample.slot 0 .theApplication) ∧
    e.Valid ⟨0, 0⟩ header ∧ Plausible 64 0 (e.storage.held splitMemory (Sample.slot 0 .theApplication)) ∧
    ¬e.storage.AtTop ∧ run (ofEngine e) = .ok (some (.halt .driverFailure)) b' ∧
    b'.engine.storage.faultsOn (.flash 0) = e.storage.faultsOn (.flash 0) ∧
    b'.engine.storage.held splitMemory (Sample.slot 0 .theApplication) =
      e.storage.held splitMemory (Sample.slot 0 .theApplication) := by
  have hcheck : ((Engine.bringUp splitPlan (.flash 0) (some (.flash 1)) {}).passes
      (splitBoard (Sample.image 2 [0, 24]) [⟨.read, 4, .readFailed⟩, ⟨.init, 1, .initFailed⟩]) fun e _ =>
        (Engine.examine ⟨0, 0⟩).passes e fun _ _ =>
          run.passes (ofEngine e) fun verdict b => decide (e.storage.memories[0]? = some splitMemory ∧
            e.storage.find? .theApplication = some ⟨0, 0⟩ ∧
            Plausible 64 0 (e.storage.held splitMemory (Sample.slot 0 .theApplication)) ∧
            (∀ d, (e.storage.flash d).geometry = Sample.geometry) ∧ verdict = some (.halt .driverFailure) ∧
            b.engine.storage.faultsOn (.flash 0) = e.storage.faultsOn (.flash 0) ∧
            b.engine.storage.held splitMemory (Sample.slot 0 .theApplication) =
              e.storage.held splitMemory (Sample.slot 0 .theApplication))) = true := by
    decide +kernel
  obtain ⟨e, after, hup, hcheck⟩ := Action.exists_of_passes hcheck
  obtain ⟨header, e₁, hexamined, hcheck⟩ := Action.exists_of_passes hcheck
  obtain ⟨verdict, b', hrun, hchecked⟩ := Action.exists_of_passes hcheck
  obtain ⟨hmemory, hfind, hstarts, hgeometry, rfl, hquiet, hsame⟩ := of_decide_eq_true hchecked
  have he := ((Engine.bringUp_ends (by decide)).done_of_ok hup).1
  have hvalid := ((he.examine_ends ⟨0, 0⟩).done_of_ok hexamined).2
  refine ⟨e, after, header, b', hup, by rw [Engine.application?, hfind], lookup?_splitMemory hmemory, hvalid, hstarts,
    ?_, hrun, hquiet, hsame⟩
  rintro ⟨d, htop⟩
  rw [hgeometry d] at htop
  exact absurd htop (by decide)

end Boot
end FirmwareUpdate
