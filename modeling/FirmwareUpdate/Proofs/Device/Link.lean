import FirmwareUpdate.Device.Link
import FirmwareUpdate.Proofs.Action

/-! What a call leaves behind on its link. -/
namespace FirmwareUpdate.Link
variable {δ α : Type} {l m : Link δ}

/-- The schedule stays as it is, and no fault is forgotten. -/
structure Keeps (l m : Link δ) : Prop where
  schedule : m.schedule = l.schedule
  faults : l.faults ≤ m.faults

theorem Keeps.refl (l : Link δ) : l.Keeps l := ⟨rfl, Nat.le_refl _⟩

theorem Keeps.trans {k : Link δ} (h : l.Keeps m) (h' : m.Keeps k) : l.Keeps k :=
  ⟨h'.schedule.trans h.schedule, Nat.le_trans h.faults h'.faults⟩

/-- A step on the device is a step on its link. -/
theorem direct_ends {ε : Type} {act : Action δ ε α} {done : α → Link δ → Prop}
    {failed : ε → Link δ → Prop} {trapped : Prop} :
    (direct act).Ends l done failed trapped ↔
      act.Ends l.device (fun a device => done a { l with device })
        (fun e device => failed e { l with device }) trapped :=
  Action.ends_focus act

/-- A step whose errors are kept ends as it did before, but for what is noted. -/
theorem accounted_ends {act : Action (Link δ) DeviceError α} {done : α → Link δ → Prop}
    (failed : DeviceError → Link δ → Prop) {failed' : DeviceError → Link δ → Prop} {trapped : Prop}
    (h : act.Ends l done failed trapped)
    (hf : ∀ e m, failed e m → failed' e (if e.isRefusal then m.addError e else (m.addError e).addFault)) :
    (accounted act).Ends l done failed' trapped := by
  simp only [Action.Ends] at h ⊢
  simp only [accounted]
  cases hact : act l with
  | ok a m => simpa only [hact] using h
  | error stop m =>
    cases stop with
    | error cause => simp only [hact] at h ⊢; exact hf cause m h
    | trap => simpa only [hact] using h

/-- A call is either answered by the schedule, which is a fault and leaves the device alone, or it
reaches the device. -/
theorem call_ends {point : CallPoint} {act : Action δ DeviceError α} {done : α → δ → Prop}
    {failed : DeviceError → δ → Prop} {trapped : Prop} (h : act.Ends l.device done failed trapped) :
    (call point act).Ends l
      (fun a m => l.Keeps m ∧ m.faults = l.faults ∧ done a m.device)
      (fun e m => l.Keeps m ∧
        (l.schedule point (l.calls.of point) ≠ none ∧ m.device = l.device ∧ l.faults < m.faults ∨
          failed e m.device ∧ (e.isRefusal = false → l.faults < m.faults)))
      trapped := by
  simp only [call]
  simp only [Action.ends_get_bind, Action.ends_set_bind]
  split
  · rename_i error hdue
    simp only [Action.ends_modify_bind, Action.ends_fail]
    have hsome : l.schedule point (l.calls.of point) ≠ none := by
      rw [show l.schedule point (l.calls.of point) = some error from hdue]
      exact Option.some_ne_none error
    exact ⟨⟨rfl, Nat.le_succ _⟩, Or.inl ⟨hsome, rfl, Nat.lt_succ_self _⟩⟩
  · refine accounted_ends (fun e m => m.schedule = l.schedule ∧ m.faults = l.faults ∧ failed e m.device)
      (direct_ends.mpr (h.imp (fun a f hf => ?_) (fun e f hf => ?_) id)) (fun e m hm => ?_)
    · exact ⟨⟨rfl, Nat.le_refl _⟩, rfl, hf⟩
    · exact ⟨rfl, rfl, hf⟩
    · obtain ⟨hschedule, hfaults, hfailed⟩ := hm
      cases hrefusal : e.isRefusal with
      | true => exact ⟨⟨hschedule, Nat.le_of_eq hfaults.symm⟩, Or.inr ⟨hfailed, by simp⟩⟩
      | false =>
        have hlt : l.faults < (m.addError e).addFault.faults := by
          show l.faults < m.faults + 1
          omega
        exact ⟨⟨hschedule, Nat.le_of_lt hlt⟩, Or.inr ⟨hfailed, fun _ => hlt⟩⟩

/-- A call that is not failed on the way succeeds where the device does what is asked of it. -/
theorem call_of_ok {point : CallPoint} {act : Action δ DeviceError α} {a : α} {device : δ} (hdue : l.due point = none)
    (h : act l.device = .ok a device) : call point act l = .ok a { l.count point with device } := by
  have hdirect : accounted (direct act) (l.count point) = .ok a { l.count point with device } := by
    have hact : act (l.count point).device = .ok a device := h
    simp only [accounted, direct, Action.focus, hact]
  simp only [call]
  rw [Action.bind_of_ok (Action.get_apply l), Action.bind_of_ok (Action.set_apply l _), hdue]
  exact hdirect

/-- A call that succeeds has reached the device. -/
theorem call_yields {point : CallPoint} {act : Action δ DeviceError α} {done : α → δ → Prop}
    (h : act.Yields l.device done) : (call point act).Yields l (fun a m => done a m.device) :=
  (call_ends h).yields.imp fun _ _ h => h.2.2

/-! ### What calls keep -/

/-- A condition of a link that noting an error keeps. -/
structure Tolerant (I : Link δ → Prop) : Prop where
  addError : ∀ l error, I l → I (l.addError error)
  addFault : ∀ l, I l → I l.addFault
  addFailedPoll : ∀ l number, I l → I (l.addFailedPoll number)

namespace Tolerant
variable {I : Link δ → Prop} {trapped : Prop}

/-- Noting the errors of a step spoils nothing that can stand it. -/
theorem accounted {act : Action (Link δ) DeviceError α} (hI : Tolerant I) (h : Action.Preserves I trapped act) :
    Action.Preserves I trapped (accounted act) := by
  intro l hl
  refine accounted_ends _ (h l hl) fun e m hm => ?_
  split
  · exact hI.addError m e hm
  · exact hI.addFault _ (hI.addError m e hm)

private theorem call {point : CallPoint} {act : Action δ DeviceError α} (hI : Tolerant I)
    (hcount : ∀ l, I l → I (l.count point))
    (h : Action.Preserves I trapped (direct act)) : Action.Preserves I trapped (call point act) := by
  refine .get_bind fun l hl => .bind (.set (hcount l hl)) fun _ => ?_
  split
  · exact .bind (.modify fun m hm => hI.addFault _ (hI.addError m _ hm)) fun _ => .fail _
  · exact hI.accounted h

end Tolerant

/-- The link keeps its schedule, and its device a condition. -/
structure Fixed (I : δ → Prop) (schedule : Schedule) (l : Link δ) : Prop where
  device : I l.device
  schedule : l.schedule = schedule

section Fixed
variable {I : δ → Prop} {schedule : Schedule} {trapped : Prop}

/-- A condition on device and schedule stands any note of an error. -/
theorem tolerant_fixed : Tolerant (Fixed I schedule) :=
  ⟨fun _ _ hl => ⟨hl.device, hl.schedule⟩, fun _ hl => ⟨hl.device, hl.schedule⟩, fun _ _ hl => ⟨hl.device, hl.schedule⟩⟩

/-- What the device keeps its link keeps. -/
theorem direct_preserves {ε : Type} {act : Action δ ε α} (h : Action.Preserves I trapped act) :
    Action.Preserves (Fixed I schedule) trapped (direct act) :=
  h.focus (fun _ hl => hl.device) fun _ _ hl hd => ⟨hd, hl.schedule⟩

/-- What the device keeps a call keeps, whether or not it comes to the device. -/
theorem call_preserves {point : CallPoint} {act : Action δ DeviceError α} (h : Action.Preserves I trapped act) :
    Action.Preserves (Fixed I schedule) trapped (call point act) :=
  tolerant_fixed.call (fun _ hl => ⟨hl.device, hl.schedule⟩) (direct_preserves h)

end Fixed

/-- A call counts for no other kind than its own. -/
theorem calls_count_of_ne {point other : CallPoint} (h : point ≠ other) :
    (l.count point).calls.of other = l.calls.of other := by
  cases point <;> cases other <;> first | rfl | exact absurd rfl h

/-- A call counts for its own kind. -/
theorem calls_count_self (l : Link δ) (point : CallPoint) : (l.count point).calls.of point = l.calls.of point + 1 := by
  cases point <;> rfl

/-- No count goes back. -/
theorem le_calls_count (l : Link δ) (point other : CallPoint) : l.calls.of other ≤ (l.count point).calls.of other := by
  by_cases h : point = other
  · rw [h, calls_count_self]
    exact Nat.le_succ _
  · exact Nat.le_of_eq (calls_count_of_ne h).symm

/-- A tolerant condition that says nothing of the device, and of the calls counts at most those to write and to
erase. -/
structure Indifferent (I : Link δ → Prop) : Prop extends Tolerant I where
  count : ∀ l point, point ≠ .write → point ≠ .erase → I l → I (l.count point)
  device : ∀ l device, I l → I { l with device }

namespace Indifferent
variable {I : Link δ → Prop}

/-- What the device does itself is no call. -/
theorem direct {ε : Type} {act : Action δ ε α} (hI : Indifferent I) :
    Action.Preserves I True (direct act) := fun l hl =>
  direct_ends.mpr (Action.ends_of_all (fun _ device => hI.device l device hl) (fun _ device => hI.device l device hl)
    trivial)

/-- A call that is not counted goes unseen. -/
theorem call {point : CallPoint} {act : Action δ DeviceError α} (hI : Indifferent I) (hwrite : point ≠ .write)
    (herase : point ≠ .erase) : Action.Preserves I True (call point act) :=
  hI.toTolerant.call (fun l hl => hI.count l point hwrite herase hl) hI.direct

end Indifferent

/-- On the way from `l` to `m` no call to write or to erase has been made. -/
structure Unasked (l m : Link δ) : Prop where
  write : m.calls.write = l.calls.write
  erase : m.calls.erase = l.calls.erase

/-- Of calls that neither write nor erase there is nothing to see. -/
theorem indifferent_unasked : Indifferent l.Unasked where
  addError _ _ hm := ⟨hm.write, hm.erase⟩
  addFault _ hm := ⟨hm.write, hm.erase⟩
  addFailedPoll _ _ hm := ⟨hm.write, hm.erase⟩
  count m _ hwrite herase hm :=
    ⟨(calls_count_of_ne (l := m) hwrite).trans hm.write, (calls_count_of_ne (l := m) herase).trans hm.erase⟩
  device _ _ hm := ⟨hm.write, hm.erase⟩

/-- No error is forgotten. -/
theorem indifferent_errors {count : Nat} : Indifferent fun l : Link δ => count ≤ l.errors.length where
  addError _ _ hl := Nat.le_succ_of_le hl
  addFault _ hl := hl
  addFailedPoll _ _ hl := hl
  count _ _ _ _ hl := hl
  device _ _ hl := hl

end FirmwareUpdate.Link
