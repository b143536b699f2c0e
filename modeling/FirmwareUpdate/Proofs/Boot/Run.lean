import FirmwareUpdate.Boot.Run
import FirmwareUpdate.Proofs.Boot.Work

/-! From the work of a phase to a step, and from a step to a whole boot: what every step preserves holds
at the end of a run and of any other sequence of steps. -/
namespace FirmwareUpdate.Boot
variable {n k : Nat} {b b' b'' : Boot n k} {home : Home n k} {trapped : Prop}

/-- The boot in the next phase, which is to halt once the history is full. -/
def entering (b : Boot n k) (next : BootPhase) (log : Log) : Boot n k :=
  { b with
    engine := { b.engine with log }
    phase := if b.history.length < historyLimit then next else .halt .invalidParameters
    history := if b.history.length < historyLimit then b.history ++ [next] else b.history }

/-- A history that is not full gets the phase that is entered. -/
theorem entering_phase {next : BootPhase} {log : Log} (h : b.history.length < historyLimit) :
    (b.entering next log).phase = next := if_pos h

/-- A phase that is entered is added to the history at its end. -/
theorem entering_history {next : BootPhase} {log : Log} (h : b.history.length < historyLimit) :
    (b.entering next log).history = b.history ++ [next] := if_pos h

/-- The ways in which a step ends. -/
inductive Stepped (home : Home n k) (b : Boot n k) : Option Verdict → Boot n k → Prop
  | finished (verdict : Verdict) (b' : Boot n k) (worked : Worked home b b.phase (.finish verdict) b') :
      Stepped home b (some verdict) b'
  | entered (next : BootPhase) (b' : Boot n k) (log : Log) (worked : Worked home b b.phase (.enter next) b') :
      Stepped home b none (b'.entering next log)

/-- A move leads to the next phase, or to a halt when the history is full. -/
theorem moveTo_ends (b : Boot n k) (next : BootPhase) :
    (moveTo next).Ends b (fun _ b' => ∃ log, b' = b.entering next log) (fun _ _ => False) False := by
  simp only [moveTo]
  rw [Action.ends_get_bind]
  refine note_bind fun log => (Action.ends_modify _ _).mpr ⟨log, ?_⟩
  simp only [entering]
  split <;> rfl

/-- One step of a boot in service is one of those that the phase allows for; it traps only at the end of the address
space. -/
theorem step_ends (he : b.engine.InService) (hhome : b.engine.RunsAt home)
    (htop : b.engine.storage.AtTop → trapped)
    (hchosen : ∀ slot, b.phase = .install slot → Stuck slot b.engine → trapped)
    (hstuck : ∀ slot e header, b.engine.Valid slot header → b.engine.Still e → Stuck slot e → trapped) :
    step.Ends b (fun verdict b' => Stepped home b verdict b') (fun _ _ => False) trapped := by
  simp only [step]
  rw [Action.ends_get_bind]
  refine (work_ends he hhome htop b.phase hchosen hstuck).bind ?_ (fun _ _ h => h) id
  rintro (next | verdict) b₁ hworked
  · refine (moveTo_ends b₁ next).bind ?_ (fun _ _ h => h) False.elim
    intro _ _ hended
    obtain ⟨log, rfl⟩ := hended
    exact .entered next b₁ log hworked
  · exact .finished verdict b₁ hworked

/-- The most steps that a boot still takes to its verdict. -/
def stepsLeft (b : Boot n k) : Nat :=
  match b.phase with
  | .halt _ => 1
  | _ => historyLimit - b.history.length + 2

private theorem stepsLeft_pos (b : Boot n k) : 0 < b.stepsLeft := by
  simp only [stepsLeft]
  split <;> omega

/-- A phase that is entered lengthens the history, or is the last one. -/
theorem stepsLeft_entering_lt {next : BootPhase} {log : Log} (hphase : ∀ cause, b.phase ≠ .halt cause)
    (hhistory : b'.history = b.history) : (b'.entering next log).stepsLeft < b.stepsLeft := by
  have hbefore : b.stepsLeft = historyLimit - b.history.length + 2 := by simp only [stepsLeft]
  rw [hbefore]
  simp only [stepsLeft, entering]
  rw [hhistory]
  by_cases hroom : b.history.length < historyLimit
  · simp only [if_pos hroom, List.length_append, List.length_singleton]
    split <;> omega
  · simp only [if_neg hroom]
    omega

/-- A step that does not end the boot leaves fewer steps to go. -/
theorem Stepped.stepsLeft_lt (h : Stepped home b none b') : b'.stepsLeft < b.stepsLeft := by
  cases h with
  | entered next b₁ log worked =>
    refine stepsLeft_entering_lt (fun cause hhalt => ?_) worked.same_phase.2
    rw [hhalt] at worked
    cases worked

private theorem runFor_ends {I : Boot n k → Prop} {given : Verdict → Boot n k → Prop}
    (hstep : ∀ b, I b → step.Ends b (fun verdict b' => (verdict = none → I b' ∧ b'.stepsLeft < b.stepsLeft) ∧
      ∀ v, verdict = some v → given v b') (fun _ _ => False) trapped) (steps : Nat) (h : I b)
    (henough : b.stepsLeft ≤ steps) :
    (runFor steps).Ends b (fun verdict b' => ∃ v, verdict = some v ∧ given v b') (fun _ _ => False) trapped := by
  induction steps generalizing b with
  | zero => exact absurd b.stepsLeft_pos (Nat.not_lt.mpr henough)
  | succ steps ih =>
    simp only [runFor]
    refine (hstep b h).bind ?_ (fun _ _ h => h) id
    rintro (_ | verdict) b' ⟨hnext, hverdict⟩
    · obtain ⟨hb', hfewer⟩ := hnext rfl
      exact ih hb' (by omega)
    · exact ⟨verdict, rfl, hverdict verdict rfl⟩

/-- A run ends with a verdict, wherever it starts, if every step that gives none leaves fewer. What every step
preserves holds up to the verdict, and what a verdict is given on holds of it. -/
theorem run_ends_of_less {I : Boot n k → Prop} {given : Verdict → Boot n k → Prop}
    (hstep : ∀ b, I b → step.Ends b (fun verdict b' => (verdict = none → I b' ∧ b'.stepsLeft < b.stepsLeft) ∧
      ∀ v, verdict = some v → given v b') (fun _ _ => False) trapped) (h : I b) :
    run.Ends b (fun verdict b' => ∃ v, verdict = some v ∧ given v b') (fun _ _ => False) trapped := by
  have henough : b.stepsLeft ≤ historyLimit + 2 := by
    simp only [stepsLeft]
    split <;> omega
  exact runFor_ends hstep (historyLimit + 2) h henough

/-- A run gets to a verdict if every step that does not leads to a state with the same condition. -/
theorem run_ends {I : Boot n k → Prop} {given : Verdict → Boot n k → Prop}
    (hstep : ∀ b, I b → step.Ends b (fun verdict b' => Stepped home b verdict b' ∧ (verdict = none → I b') ∧
      ∀ v, verdict = some v → given v b') (fun _ _ => False) trapped) (h : I b) :
    run.Ends b (fun verdict b' => ∃ v, verdict = some v ∧ given v b') (fun _ _ => False) trapped := by
  refine run_ends_of_less (fun b hb => (hstep b hb).imp ?_ (fun _ _ h => h) id) h
  rintro verdict b' ⟨hstepped, hb', hverdict⟩
  refine ⟨fun hnone => ⟨hb' hnone, ?_⟩, hverdict⟩
  subst hnone
  exact hstepped.stepsLeft_lt

/-- What every step keeps is kept by a run. -/
theorem run_preserves {I : Boot n k → Prop} (hstep : Action.Preserves I trapped (step : Work n k (Option Verdict))) :
    Action.Preserves I trapped (run : Work n k (Option Verdict)) := by
  have hrun : ∀ steps, Action.Preserves I trapped (runFor steps : Work n k (Option Verdict)) := by
    intro steps
    induction steps with
    | zero => exact .pure none
    | succ steps ih =>
      refine .bind hstep fun answer => ?_
      cases answer with
      | some verdict => exact .pure (some verdict)
      | none => exact ih
  exact hrun _

/-- States that any sequence of steps leads to, also when steps go on after a verdict. -/
inductive Reaches (b : Boot n k) : Boot n k → Prop
  | refl : Reaches b b
  | next (b' b'' : Boot n k) (verdict : Option Verdict) (reached : Reaches b b')
      (taken : step b' = .ok verdict b'') : Reaches b b''

/-- What every step keeps holds wherever a boot gets. -/
theorem Reaches.invariant {I : Boot n k → Prop} (hreach : b.Reaches b') (h : I b)
    (hstep : ∀ b b' verdict, I b → step b = .ok verdict b' → I b') : I b' := by
  induction hreach with
  | refl => exact h
  | next b' b'' verdict _ taken ih => exact hstep b' b'' verdict ih taken

/-- Steps that follow other steps are steps. -/
theorem Reaches.trans (h : b.Reaches b') (h' : b'.Reaches b'') : b.Reaches b'' := by
  induction h' with
  | refl => exact h
  | next b₁ b₂ verdict _ taken ih => exact ih.next b₁ b₂ verdict taken

/-- A run of a given number of steps gets somewhere by steps. -/
theorem reaches_of_runFor {steps : Nat} {verdict : Option Verdict} (h : runFor steps b = .ok verdict b') :
    b.Reaches b' := by
  induction steps generalizing b with
  | zero =>
    cases h
    exact .refl
  | succ steps ih =>
    simp only [runFor, Action.bind_apply] at h
    split at h
    · rename_i answer b₁ htaken
      have hfirst : b.Reaches b₁ := .next b b₁ answer .refl htaken
      cases answer with
      | some _ =>
        cases h
        exact hfirst
      | none => exact hfirst.trans (ih h)
    · cases h

/-- A run goes from one state to the next that steps lead to. -/
theorem reaches_of_run {verdict : Option Verdict} (h : run b = .ok verdict b') : b.Reaches b' := reaches_of_runFor h

/-- The verdict of a boot on an engine that is brought up first. -/
def verdict? (plan : Plan) (primary : DeviceId n k) (secondary : Option (DeviceId n k)) (backend : Backend)
    (bare : Storage n k) : Option Verdict :=
  match Engine.bringUp plan primary secondary backend bare with
  | .error _ _ => none
  | .ok e _ =>
    match run (ofEngine e) with
    | .error _ _ => none
    | .ok verdict _ => verdict

/-- The verdict that is computed is that of a run of the engine that comes up. -/
theorem verdict?_eq_some {plan : Plan} {primary : DeviceId n k} {secondary : Option (DeviceId n k)}
    {backend : Backend} {bare : Storage n k} {verdict : Verdict}
    (h : verdict? plan primary secondary backend bare = some verdict) :
    ∃ e after b', Engine.bringUp plan primary secondary backend bare = .ok e after ∧
      run (ofEngine e) = .ok (some verdict) b' := by
  unfold verdict? at h
  split at h
  · cases h
  · rename_i e after hup
    split at h
    · cases h
    · rename_i found b' hrun
      subst h
      exact ⟨e, after, b', hup, hrun⟩

end FirmwareUpdate.Boot
