import FirmwareUpdate.Proofs.Boot.Route
import FirmwareUpdate.Proofs.Update.Assembly
import Mathlib.Data.List.Chain

/-! Every boot comes to a verdict, whatever is on the devices and whichever calls fail. It goes back to the backup
at most once and installs at most one update, so it has entered no more than thirteen phases by then. -/
namespace FirmwareUpdate
variable {n k : Nat}

namespace BootPhase

def isInstall : BootPhase → Bool
  | install _ => true
  | _ => false

/-- The most phases that may still be entered, given whether the backup has been tried. -/
def phasesLeft (tried : Bool) : BootPhase → Nat
  | init => 12
  | examineRunning => 11
  | chooseImage => 10
  | examineChosen _ => 9
  | install _ => 8
  | examineInstalled => if tried then 3 else 7
  | commit => if tried then 2 else 6
  | run => if tried then 1 else 5
  | fallback => 4
  | halt _ => 0

/-- The most installations of an update that may still be entered. -/
def installsLeft : BootPhase → Nat
  | init | examineRunning | chooseImage | examineChosen _ => 1
  | _ => 0

end BootPhase

namespace Boot
variable {I : Engine n k → Prop} {b b' : Boot n k} {e₀ : Engine n k} {J : Storage n k → Prop} {T : SlotId → Prop}
  {trapped : Prop}
  {phase next : BootPhase} {tried : Bool} {verdict : Option Verdict}

namespace MayFollow

/-- Only the fallback leads back to an earlier phase, and there is one at most. -/
theorem phasesLeft_lt (h : MayFollow phase (phase.triedAfter tried) next) :
    next.phasesLeft (next.triedAfter (phase.triedAfter tried)) < phase.phasesLeft (phase.triedAfter tried) := by
  obtain ⟨hleads, honce⟩ := h
  cases hleads with
  | installedInvalid | vectorInvalid =>
    obtain rfl : tried = false := honce rfl
    decide
  | _ => cases tried <;> simp [BootPhase.phasesLeft, BootPhase.triedAfter]

private theorem fallbacks_le (h : MayFollow phase tried next) :
    [next].count .fallback + (!next.triedAfter tried).toNat ≤ (!tried).toNat := by
  cases next with
  | fallback =>
    rw [h.once rfl]
    decide
  | _ => simp [BootPhase.triedAfter]

private theorem installs_le (h : MayFollow phase tried next) :
    [next].countP BootPhase.isInstall + next.installsLeft ≤ phase.installsLeft := by
  cases h.leads <;> simp [BootPhase.isInstall, BootPhase.installsLeft]

end MayFollow

/-- The history of a boot is a path to the phase that it is in, with one fallback and one installation at most. -/
structure Routed (b : Boot n k) : Prop where
  path : b.history.IsChain BootPhase.LeadsTo
  first : b.history.head? = some .init
  last : b.history.getLast? = some b.phase
  fallbacks : b.history.count .fallback + (!b.phase.triedAfter b.backupTried).toNat ≤ 1
  installs : b.history.countP BootPhase.isInstall + b.phase.installsLeft ≤ 1
  length : b.history.length + b.phase.phasesLeft (b.phase.triedAfter b.backupTried) ≤ 13

namespace Routed

/-- A boot that has not started is on a route, however short. -/
theorem of_engine (e : Engine n k) : Routed (ofEngine e) :=
  ⟨.singleton _, rfl, rfl, Nat.le_refl _, Nat.le_refl _, Nat.le_refl _⟩

/-- There is always room in the history. -/
theorem room (h : Routed b) : b.history.length < historyLimit := by
  have hlength := h.length
  simp only [historyLimit]
  omega

/-- The phase that is entered comes last. -/
theorem entering {log : Log} (h : Routed b) (hfollows : MayFollow b.phase (b.phase.triedAfter b.backupTried) next)
    (hhistory : b'.history = b.history) (htried : b'.backupTried = b.phase.triedAfter b.backupTried) :
    Routed (b'.entering next log) := by
  have hroom : b'.history.length < historyLimit := hhistory ▸ h.room
  have hphase : (b'.entering next log).phase = next := entering_phase hroom
  have hlonger : (b'.entering next log).history = b.history ++ [next] := hhistory ▸ entering_history hroom
  have hflag : (b'.entering next log).backupTried = b.phase.triedAfter b.backupTried := htried
  constructor
  · rw [hlonger]
    refine h.path.append (.singleton next) fun x hx y hy => ?_
    rw [h.last] at hx
    cases hx
    cases hy
    exact hfollows.leads
  · rw [hlonger, List.head?_append, h.first]
    rfl
  · rw [hlonger, hphase]
    exact List.getLast?_concat
  · have hbefore := h.fallbacks
    have hnext := hfollows.fallbacks_le
    rw [hlonger, hphase, hflag, List.count_append]
    omega
  · have hbefore := h.installs
    have hnext := hfollows.installs_le
    rw [hlonger, hphase, List.countP_append]
    omega
  · have hbefore := h.length
    have hnext := hfollows.phasesLeft_lt
    rw [hlonger, hphase, hflag, List.length_append, List.length_singleton]
    omega

/-- A boot that has its verdict stays in the phase that it reports. -/
theorem moved (h : Routed b) (hmoved : Moved I b verdict b') : Routed b' := by
  cases hmoved with
  | entered next b₁ log follows done => exact h.entering follows done.history done.tried
  | finished verdict b₁ final done =>
    have htried : b.phase.triedAfter (b.phase.triedAfter b.backupTried) = b.phase.triedAfter b.backupTried := by
      cases b.phase <;> rfl
    constructor
    · exact done.history ▸ h.path
    · exact done.history ▸ h.first
    · rw [done.history, done.phase]
      exact h.last
    · rw [done.history, done.phase, done.tried, htried]
      exact h.fallbacks
    · rw [done.history, done.phase]
      exact h.installs
    · rw [done.history, done.phase, done.tried, htried]
      exact h.length

end Routed

/-- A boot stays on a route through any number of steps. -/
theorem Reaches.routed (h : Engine.Upkeep e₀ J T trapped) (hreach : b.Reaches b')
    (he : Engine.Maintained e₀ J b.engine) (hb : Routed b) : Routed b' := by
  induction hreach with
  | refl => exact hb
  | next b₁ b₂ verdict reached taken ih => exact ih.moved ((step_moves h (reached.maintained h he)).done_of_ok taken)

private theorem Moved.phase_eq {v : Verdict} (h : Moved I b (some v) b') : b'.phase = v.phase := by
  cases h with
  | finished _ _ final done => exact done.phase.trans final.symm

/-- No phase follows a halt. -/
theorem Moved.stepsLeft_lt (h : Moved I b none b') : b'.stepsLeft < b.stepsLeft := by
  cases h with
  | entered next b₁ log follows done =>
    refine stepsLeft_entering_lt (fun cause hhalt => ?_) done.history
    have hleads := follows.leads
    rw [hhalt] at hleads
    cases hleads

/-- A run ends in the phase that its verdict reports. -/
theorem run_reports (h : Engine.Upkeep e₀ J T trapped) (he : Engine.Maintained e₀ J b.engine) :
    run.Ends b (fun verdict b' => ∃ v, verdict = some v ∧ b'.phase = v.phase) (fun _ _ => False) trapped := by
  refine run_ends_of_less (I := fun b => Engine.Maintained e₀ J b.engine) (fun b he => ?_) he
  refine (step_moves h he).imp ?_ (fun _ _ h => h) id
  rintro verdict b' hmoved
  refine ⟨?_, ?_⟩
  · rintro rfl
    exact ⟨hmoved.keeps (Engine.looking h.toUpkeep), hmoved.stepsLeft_lt⟩
  · rintro v rfl
    exact hmoved.phase_eq

/-- Wherever a boot has got to, its history is a path from the first phase to the one that it is in, it has tried
the backup at most once, installed one update at most and entered thirteen phases at most. It can take a step from
there, and a run from there comes to a verdict, which is given in the phase that it reports. No flash device may end
with the address space. -/
theorem bounded_of_bringUp {plan : Plan} {primary : DeviceId n k} {secondary : Option (DeviceId n k)}
    {backend : Backend} {bare after : Storage n k} {e : Engine n k} (htop : ¬bare.AtTop)
    (hup : Engine.bringUp plan primary secondary backend bare = .ok e after) (hreach : (ofEngine e).Reaches b) :
    b.history.IsChain BootPhase.LeadsTo ∧ b.history.head? = some .init ∧ b.history.getLast? = some b.phase ∧
      b.history.count .fallback ≤ 1 ∧ b.history.countP BootPhase.isInstall ≤ 1 ∧ b.history.length ≤ 13 ∧
      (∃ verdict b', step b = .ok verdict b' ∧ ∀ v, verdict = some v → b'.phase = v.phase) ∧
      ∃ v b', run b = .ok (some v) b' ∧ b.Reaches b' ∧ b'.phase = v.phase := by
  obtain ⟨hfits, hsame, -⟩ := Engine.bringUp_fits.done_of_ok hup
  have hupkeep : Engine.Upkeep e e.storage.SameSetup (fun _ => True) e.storage.AtTop :=
    ⟨hfits.upkeep, fun _ _ => trivial, fun _ _ => trivial⟩
  have hlow : ¬e.storage.AtTop := fun htop' => htop (hsame.mp htop')
  have hstart : Engine.Maintained e e.storage.SameSetup e := ⟨.refl _, rfl, rfl, rfl, rfl⟩
  have he := hreach.maintained hupkeep hstart
  have hb := hreach.routed hupkeep hstart (.of_engine e)
  have hfallbacks := hb.fallbacks
  have hinstalls := hb.installs
  have hlength := hb.length
  refine ⟨hb.path, hb.first, hb.last, by omega, by omega, by omega, ?_, ?_⟩
  · obtain ⟨verdict, b', htaken, hmoved⟩ :=
      ((step_moves hupkeep he).imp (fun _ _ h => h) (fun _ _ h => h) hlow).exists_ok
    exact ⟨verdict, b', htaken, fun v hv => (hv ▸ hmoved).phase_eq⟩
  · obtain ⟨_, b', hrun, v, rfl, hphase⟩ :=
      ((run_reports hupkeep he).imp (fun _ _ h => h) (fun _ _ h => h) hlow).exists_ok
    exact ⟨v, b', hrun, reaches_of_run hrun, hphase⟩

/-- The bound is met where neither the update nor the image that it replaced has a plausible reset vector. -/
theorem sample_bounded : ∃ (e : Engine 1 0) (v : Verdict) (b : Boot 1 0), run (ofEngine e) = .ok (some v) b ∧
    b.phase = v.phase ∧ b.history.IsChain BootPhase.LeadsTo ∧ b.history.count .fallback = 1 ∧
    b.history.countP BootPhase.isInstall = 1 ∧ b.history.length = 13 := by
  have hcheck : (match Engine.bringUp (Sample.plan 64) (.flash 0) none {}
        (Sample.board (Sample.image 1 [0, 0xFFFFFFFF]) (Sample.image 2 [0, 0xFFFFFFFF]) []) with
      | .error _ _ => false
      | .ok e _ => run.passes (ofEngine e) fun _ b => decide (b.history.count .fallback = 1 ∧
          b.history.countP BootPhase.isInstall = 1 ∧ b.history.length = 13)) = true := by
    decide +kernel
  split at hcheck
  · cases hcheck
  rename_i e after hup
  obtain ⟨verdict, b, hran, hcounts⟩ := Action.exists_of_passes hcheck
  have htop : ¬(Sample.board (Sample.image 1 [0, 0xFFFFFFFF]) (Sample.image 2 [0, 0xFFFFFFFF]) []).AtTop := by
    rintro ⟨device, htop⟩
    obtain rfl : device = 0 := Subsingleton.elim _ _
    exact absurd htop (by decide +kernel)
  obtain ⟨v, b', hrun, hreach, hphase⟩ := (bounded_of_bringUp htop hup .refl).2.2.2.2.2.2.2
  rw [hran] at hrun
  cases hrun
  exact ⟨e, v, b, hran, hphase, (bounded_of_bringUp htop hup hreach).1, of_decide_eq_true hcounts⟩

end Boot
end FirmwareUpdate
