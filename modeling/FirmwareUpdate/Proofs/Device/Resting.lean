import FirmwareUpdate.Device.FileLink
import FirmwareUpdate.Proofs.Device.Flash

/-! What becomes of the errors of calls and of the polls that fail, and what a flash device that is switched off still
does. It serves no call but the one that initializes it. -/
namespace FirmwareUpdate

namespace Link
variable {δ α : Type} {l : Link δ} {point : CallPoint} {I : Link δ → Prop} {F : DeviceError → Link δ → Prop}

/-- The error of a step is kept, whether or not it counts as a fault. -/
theorem accounted_reports {act : Action (Link δ) DeviceError α}
    (h : Action.Reports I (fun error l => F error (l.addError error)) act)
    (hfault : ∀ error l, F error l → F error l.addFault) : Action.Reports I F (accounted act) := by
  intro l hl
  have hended := h l hl
  simp only [accounted]
  cases hact : act l with
  | ok a m => simpa only [hact] using hended
  | error stop m =>
    rw [hact] at hended
    cases stop with
    | trap => exact hended
    | error error =>
      simp only
      split
      · exact hended
      · exact hfault _ _ hended

/-- The error of a call is kept, whether the schedule or the device has it. -/
theorem call_reports {act : Action δ DeviceError α} (hdue : ∀ error l, I l → F error ((l.count point).addError error))
    (hact : ∀ l, I l → act.Ends l.device (fun _ device => I { l.count point with device })
      (fun error device => F error (addError { l.count point with device } error))
      (I { l.count point with device := act.after l.device }))
    (hfault : ∀ error l, F error l → F error l.addFault) : Action.Reports I F (call point act) := by
  intro l hl
  have hended := hact l hl
  simp only [Action.Ends, Action.after] at hended
  simp only [call, Action.bind_apply, Action.get_apply, Action.set_apply]
  cases l.due point with
  | some error =>
    simp only [Action.bind_apply, Action.modify_apply, Action.fail_apply]
    exact hfault _ _ (hdue error l hl)
  | none =>
    have hdevice : (l.count point).device = l.device := rfl
    simp only [accounted, direct, Action.focus, hdevice]
    cases hanswer : act l.device with
    | ok a device => simpa only [hanswer] using hended
    | error stop device =>
      simp only [hanswer] at hended
      cases stop with
      | trap => exact hended
      | error error =>
        simp only
        split
        · exact hended
        · exact hfault _ _ hended

/-- What a device does has no part in which errors it has had. -/
theorem call_errors {act : Action δ DeviceError α} (errors : List DeviceError) :
    Action.Reports (fun l => l.errors = errors) (fun error l => l.errors = error :: errors) (call point act) := by
  refine call_reports (fun error l hl => congrArg (error :: ·) hl) (fun l hl => ?_) fun _ _ h => h
  unfold Action.Ends
  split
  · exact hl
  · exact congrArg (_ :: ·) hl
  · exact hl

end Link

namespace FlashLink
variable {l m m' : FlashLink} {error : DeviceError} {α : Type}

/-- From `l` to the later state `m` the device has been off: it was, and it has not been initialized. -/
def StaysOff (l m : FlashLink) : Prop := l.device.initialized = false ∧ m.calls.init = l.calls.init

/-- The calls that have been made for bytes of the device. -/
def accesses (l : FlashLink) : Nat × Nat × Nat := (l.calls.read, l.calls.write, l.calls.erase)

/-- A device that has been off is off, and its bytes are what they were. -/
structure Rests (l m : FlashLink) : Prop where
  inits : l.calls.init ≤ m.calls.init
  off : StaysOff l m → m.device.initialized = false
  contents : StaysOff l m → m.device.contents = l.device.contents

/-- And no call has been made for its bytes. -/
structure Idle (l m : FlashLink) : Prop extends Rests l m where
  unasked : StaysOff l m → m.accesses = l.accesses

/-- Every poll that has failed was passed over: it was followed by another, which did not fail. -/
def PassesOver (l m : FlashLink) : Prop :=
  ∃ polls, m.failedPolls = polls ++ l.failedPolls ∧ ∀ number ∈ polls, number + 1 < m.calls.poll ∧ number + 1 ∉ polls

/-- A call has failed. Either it left an error, or it was a poll that failed and that was not passed over: no other
poll followed it, or one that failed as well. -/
def Failed (l m : FlashLink) : Prop :=
  m.errors ≠ l.errors ∨ ∃ polls, m.failedPolls = polls ++ l.failedPolls ∧
    ∃ number ∈ polls, m.calls.poll ≤ number + 1 ∨ number + 1 ∈ polls

/-- No call has left an error. -/
structure Unerring (l m : FlashLink) : Prop extends Idle l m where
  errors : m.errors = l.errors
  releases : m.calls.release = l.calls.release

/-- No call has failed, but for polls that were passed over. -/
structure Calm (l m : FlashLink) : Prop extends Unerring l m where
  passesOver : PassesOver l m

/-- One call has failed, with this error. -/
structure Struck (l : FlashLink) (error : DeviceError) (m : FlashLink) : Prop extends Rests l m where
  errors : m.errors = error :: l.errors
  releases : m.calls.release = l.calls.release

theorem Rests.refl (l : FlashLink) : Rests l l := ⟨Nat.le_refl _, And.left, fun _ => rfl⟩

/-- A device that has rested twice in a row has rested. -/
theorem Rests.trans (h : Rests l m) (h' : Rests m m') : Rests l m' := by
  have hsplit : StaysOff l m' → StaysOff l m ∧ StaysOff m m' := by
    rintro ⟨hoff, hinits⟩
    have hfirst := h.inits
    have hthen := h'.inits
    have hsame : m.calls.init = l.calls.init := by omega
    exact ⟨⟨hoff, hsame⟩, h.off ⟨hoff, hsame⟩, by omega⟩
  refine ⟨Nat.le_trans h.inits h'.inits, fun hstays => h'.off (hsplit hstays).2, fun hstays => ?_⟩
  exact (h'.contents (hsplit hstays).2).trans (h.contents (hsplit hstays).1)

private theorem PassesOver.refl (l : FlashLink) : PassesOver l l := ⟨[], rfl, by simp⟩

private theorem PassesOver.of_same (h : PassesOver l m) (hrecord : m'.failedPolls = m.failedPolls)
    (hpolls : m.calls.poll ≤ m'.calls.poll) : PassesOver l m' := by
  obtain ⟨polls, hold, hpassed⟩ := h
  exact ⟨polls, hrecord.trans hold, fun number hn => ⟨Nat.lt_of_lt_of_le (hpassed number hn).1 hpolls,
    (hpassed number hn).2⟩⟩

/-- Where no error is left, polls that were passed over are all that may have failed. -/
theorem PassesOver.not_failed (h : PassesOver l m) (herrors : m.errors = l.errors) : ¬Failed l m := by
  obtain ⟨polls, hold, hpassed⟩ := h
  rintro (hne | ⟨polls', hold', number, hn, hbad⟩)
  · exact hne herrors
  · obtain rfl : polls = polls' := List.append_cancel_right (hold.symm.trans hold')
    obtain ⟨hlater, hfine⟩ := hpassed number hn
    rcases hbad with hlast | hnext
    · omega
    · exact hfine hnext

theorem Calm.refl (l : FlashLink) : Calm l l := ⟨⟨⟨Rests.refl l, fun _ => rfl⟩, rfl, rfl⟩, PassesOver.refl l⟩

/-- Of a device that has been on there is nothing to say. -/
theorem Rests.of_on (h : Rests l m) (hinits : m.calls.init ≤ m'.calls.init) (hon : ¬StaysOff l m') : Rests l m' :=
  ⟨Nat.le_trans h.inits hinits, fun hstays => absurd hstays hon, fun hstays => absurd hstays hon⟩

private theorem Calm.of_on (h : Calm l m) (hinits : m.calls.init ≤ m'.calls.init) (hon : ¬StaysOff l m')
    (herrors : m'.errors = m.errors) (hreleases : m'.calls.release = m.calls.release)
    (hpasses : PassesOver l m') : Calm l m' :=
  ⟨⟨⟨h.toRests.of_on hinits hon, fun hstays => absurd hstays hon⟩, herrors.trans h.errors,
    hreleases.trans h.releases⟩, hpasses⟩

private theorem Struck.addFault (h : Struck l error m) : Struck l error m.addFault :=
  ⟨⟨h.inits, h.off, h.contents⟩, h.errors, h.releases⟩

/-- A call that fails leaves the device as it was. -/
theorem Calm.struck {point : CallPoint} (h : Calm l m) (hinit : point ≠ .init) (hrelease : point ≠ .release)
    (error : DeviceError) : Struck l error ((m.count point).addError error) := by
  have hinits : (m.count point).calls.init = m.calls.init := Link.calls_count_of_ne (l := m) hinit
  have hreleases : (m.count point).calls.release = m.calls.release := Link.calls_count_of_ne (l := m) hrelease
  have hback : StaysOff l ((m.count point).addError error) → StaysOff l m := fun hstays =>
    ⟨hstays.1, hinits.symm.trans hstays.2⟩
  refine ⟨⟨?_, fun hstays => h.off (hback hstays), fun hstays => h.contents (hback hstays)⟩,
    congrArg (error :: ·) h.errors, hreleases.trans h.releases⟩
  exact hinits ▸ h.inits

private theorem Unerring.addError (h : Unerring l m) (error : DeviceError) : Struck l error (m.addError error) :=
  ⟨⟨h.inits, h.off, h.contents⟩, congrArg (error :: ·) h.errors, h.releases⟩

/-- A device that is off refuses the call. -/
def NeedsInit (act : Flash.Call α) : Prop := ∀ f, f.initialized = false → act f = .error (.error .notInitialized) f

private theorem needsInit_read (address length : Nat) : NeedsInit (Flash.read address length) := by
  intro f hoff
  simp [Flash.read, Flash.requireInitialized, hoff]

private theorem needsInit_write (address : Nat) (data : Bytes) : NeedsInit (Flash.write address data) := by
  intro f hoff
  simp [Flash.write, Flash.requireInitialized, hoff]

private theorem needsInit_erase (address size : Nat) : NeedsInit (Flash.erase address size) := by
  intro f hoff
  simp [Flash.erase, Flash.requireInitialized, hoff]

/-- A call for the bytes of the device fails while it is off. -/
theorem access_reports {point : CallPoint} {act : Flash.Call α} (hinit : point ≠ .init) (hrelease : point ≠ .release)
    (hneeds : NeedsInit act) : Action.Reports (Calm l) (Struck l) (Link.call point act) := by
  refine Link.call_reports (fun error m h => h.struck hinit hrelease error) (fun m h => ?_) fun _ _ h => h.addFault
  have hinits : (m.count point).calls.init = m.calls.init := Link.calls_count_of_ne (l := m) hinit
  have hreleases : (m.count point).calls.release = m.calls.release := Link.calls_count_of_ne (l := m) hrelease
  have hpasses : ∀ device, PassesOver l { m.count point with device } := fun device =>
    h.passesOver.of_same rfl (m.le_calls_count point .poll)
  unfold Action.Ends
  cases hdevice : m.device.initialized with
  | false =>
    rw [hneeds m.device hdevice]
    exact h.struck hinit hrelease _
  | true =>
    have hon : ∀ m' : FlashLink, m'.calls.init = m.calls.init → ¬StaysOff l m' := by
      intro m' hsame hstays
      have hoff := h.off ⟨hstays.1, hsame.symm.trans hstays.2⟩
      rw [hdevice] at hoff
      cases hoff
    split
    · exact h.of_on (Nat.le_of_eq hinits.symm) (hon _ hinits) rfl hreleases (hpasses _)
    · exact ⟨h.toRests.of_on (Nat.le_of_eq hinits.symm) (hon _ hinits), congrArg (_ :: ·) h.errors,
        hreleases.trans h.releases⟩
    · exact h.of_on (Nat.le_of_eq hinits.symm) (hon _ hinits) rfl hreleases (hpasses _)

/-- A read that fails is one error. -/
theorem read_reports {address length : Nat} : Action.Reports (Calm l) (Struck l) (read address length) :=
  access_reports CallPoint.noConfusion CallPoint.noConfusion (needsInit_read address length)

/-- A write that fails is one error. -/
theorem write_reports {address : Nat} {data : Bytes} : Action.Reports (Calm l) (Struck l) (write address data) :=
  access_reports CallPoint.noConfusion CallPoint.noConfusion (needsInit_write address data)

private theorem erase_reports {address size : Nat} : Action.Reports (Calm l) (Struck l) (erase address size) :=
  access_reports CallPoint.noConfusion CallPoint.noConfusion (needsInit_erase address size)

/-- A device that does not come up is one error. -/
theorem init_reports : Action.Reports (Calm l) (Struck l) init := by
  have hon : ∀ {m m' : FlashLink}, Calm l m → m'.calls.init = m.calls.init + 1 → ¬StaysOff l m' := by
    intro m m' h hmore hstays
    have hinits := h.inits
    have hsame := hstays.2
    omega
  refine Link.call_reports (fun error m h => ?_) (fun m h => ?_) fun _ _ h => h.addFault
  · exact ⟨h.toRests.of_on (Nat.le_succ _) (hon h rfl), congrArg (error :: ·) h.errors, h.releases⟩
  · exact h.of_on (Nat.le_succ _) (hon h rfl) rfl rfl (h.passesOver.of_same rfl (Nat.le_refl _))

/-- A step on the device itself that leaves its bytes alone, and does not switch it on or off. -/
theorem direct_reports {ε : Type} {F : ε → FlashLink → Prop} {act : Action Flash ε α}
    (h : ∀ f : Flash, Action.Reports (fun g => g.initialized = f.initialized ∧ g.contents = f.contents)
      (fun _ _ => False) act) : Action.Reports (Calm l) F (Link.direct act) := by
  refine .focus (J := fun m g => g.initialized = m.device.initialized ∧ g.contents = m.device.contents)
    (fun m _ => h m.device) (fun _ _ => ⟨rfl, rfl⟩) (fun m g hm hg => ?_) fun _ _ _ _ hno => hno.elim
  obtain ⟨hinitialized, hcontents⟩ := hg
  exact ⟨⟨⟨⟨hm.inits, fun hstays => hinitialized.trans (hm.off hstays),
    fun hstays => hcontents.trans (hm.contents hstays)⟩, hm.unasked⟩, hm.errors, hm.releases⟩,
    hm.passesOver.of_same rfl (Nat.le_refl _)⟩

-- No two of the polls that have failed came right after one another.
private def Scattered (l m : FlashLink) : Prop :=
  ∃ polls, m.failedPolls = polls ++ l.failedPolls ∧ ∀ number ∈ polls, number < m.calls.poll ∧ number + 1 ∉ polls

private theorem PassesOver.scattered (h : PassesOver l m) : Scattered l m := by
  obtain ⟨polls, hold, hpassed⟩ := h
  exact ⟨polls, hold, fun number hn => ⟨by have := (hpassed number hn).1; omega, (hpassed number hn).2⟩⟩

private theorem Scattered.passesOver (h : Scattered l m) (hrecord : m'.failedPolls = m.failedPolls)
    (hpolls : m'.calls.poll = m.calls.poll + 1) : PassesOver l m' := by
  obtain ⟨polls, hold, happart⟩ := h
  exact ⟨polls, hrecord.trans hold, fun number hn => ⟨by have := (happart number hn).1; omega, (happart number hn).2⟩⟩

private theorem PassesOver.scattered_cons (h : PassesOver l m)
    (hrecord : m'.failedPolls = m.calls.poll :: m.failedPolls)
    (hpolls : m'.calls.poll = m.calls.poll + 1) : Scattered l m' := by
  obtain ⟨polls, hold, hpassed⟩ := h
  refine ⟨m.calls.poll :: polls, by rw [hrecord, hold, List.cons_append], fun number hn => ?_⟩
  rcases List.mem_cons.mp hn with rfl | hn
  · refine ⟨by omega, fun hnext => ?_⟩
    rcases List.mem_cons.mp hnext with hsame | hnext
    · omega
    · have := (hpassed _ hnext).1
      omega
  · refine ⟨by have := (hpassed number hn).1; omega, fun hnext => ?_⟩
    rcases List.mem_cons.mp hnext with hsame | hnext
    · have := (hpassed number hn).1
      omega
    · exact (hpassed number hn).2 hnext

-- A poll that does not fail passes over the one before it; one that fails must not follow one that did.
private theorem poll_unerring (h : Unerring l m) (hpolls : Scattered l m) : poll.Ends m
    (fun answer m' => Unerring l m' ∧ (answer ≠ .error → PassesOver l m') ∧ (PassesOver l m → Scattered l m'))
    (fun _ _ => False) False := by
  have hunerring : ∀ m' : FlashLink, m.device.Alike m'.device → m'.calls = (m.count .poll).calls →
      m'.errors = m.errors → Unerring l m' := by
    rintro m' ⟨rest, hdevice⟩ hcalls herrors
    have hinit : m'.calls.init = m.calls.init := by rw [hcalls]; rfl
    have hrelease : m'.calls.release = m.calls.release := by rw [hcalls]; rfl
    have haccesses : m'.accesses = m.accesses := by rw [accesses, hcalls]; rfl
    have hback : StaysOff l m' → StaysOff l m := fun hstays => ⟨hstays.1, hinit.symm.trans hstays.2⟩
    refine ⟨⟨⟨hinit ▸ h.inits, fun hstays => ?_, fun hstays => ?_⟩, fun hstays => ?_⟩, herrors.trans h.errors, ?_⟩
    · exact (congrArg Flash.initialized hdevice).trans (h.off (hback hstays))
    · exact (congrArg Flash.contents hdevice).trans (h.contents (hback hstays))
    · exact haccesses.trans (h.unasked (hback hstays))
    · exact hrelease.trans h.releases
  simp only [poll]
  simp only [Action.ends_get_bind, Action.ends_set_bind]
  split
  · simp only [Action.ends_modify_bind, Action.ends_pure]
    exact ⟨hunerring _ (.refl _) rfl rfl, fun hne => absurd rfl hne, fun hpasses => hpasses.scattered_cons rfl rfl⟩
  · refine Link.direct_ends.mpr (Flash.poll_ends.imp (fun _ device halike => ?_) (fun _ _ h => h) id)
    have hpasses : PassesOver l { m.count .poll with device } := hpolls.passesOver rfl rfl
    exact ⟨hunerring _ halike rfl rfl, fun _ => hpasses, fun _ => hpasses.scattered⟩

private theorem awaitIdle_unerring {polls : Nat} (h : Unerring l m) (hpolls : Scattered l m) :
    (Flash.awaitIdle poll polls).Ends m (fun _ m' => Calm l m') (fun _ m' => Unerring l m') False := by
  induction polls generalizing m with
  | zero => exact h
  | succ polls ih =>
    refine (poll_unerring h hpolls).bind ?_ (fun _ _ h => h.elim) id
    rintro answer m' ⟨hunerring, hpasses, -⟩
    cases answer with
    | idle => exact ⟨hunerring, hpasses PollAnswer.noConfusion⟩
    | busy => exact ih hunerring (hpasses PollAnswer.noConfusion).scattered
    | error => exact hunerring

/-- A device that is given up is one error. One that is not was polled until it was idle, so that the first of the
polls may have failed, and no other. -/
theorem awaitReady_reports : Action.Reports (Calm l) (Struck l) awaitReady := by
  refine Link.accounted_reports (.of_ends fun m hm => ?_) fun _ _ h => h.addFault
  refine (poll_unerring hm.toUnerring hm.passesOver.scattered).bind ?_ (fun _ _ h => h.elim) id
  rintro answer m' ⟨hunerring, hpasses, hscattered⟩
  have hrest : (Flash.awaitIdle poll Flash.pollLimit).Ends m' (fun _ k => Calm l k)
      (fun error k => Struck l error (k.addError error)) False :=
    (awaitIdle_unerring hunerring (hscattered hm.passesOver)).imp (fun _ _ h => h)
      (fun error _ h => h.addError error) id
  cases answer with
  | idle => exact ⟨hunerring, hpasses PollAnswer.noConfusion⟩
  | busy => exact hrest
  | error => exact hrest

/-- The first call that fails ends an erase, and is its only error. -/
theorem eraseFrom_reports (count start : Nat) : Action.Reports (Calm l) (Struck l) (eraseFrom count start) := by
  induction count generalizing start with
  | zero => exact .pure ()
  | succ count ih =>
    refine .bind (direct_reports fun f => .get_bind fun g _ => ?_) fun answer => ?_
    · split
      · exact .pure _
      · exact .word_bind (.pure _)
    · cases answer with
      | none => exact Link.accounted_reports (.fail fun m h => h.toUnerring.addError _) fun _ _ h => h.addFault
      | some next => exact .bind erase_reports fun _ => .bind awaitReady_reports fun _ => ih next

/-- The device has been given back once, and it is off unless that call failed. -/
structure Released (l m : FlashLink) : Prop extends Rests l m where
  releases : m.calls.release = l.calls.release + 1
  switchedOff : m.errors = l.errors → m.device.initialized = false

/-- Whether or not the call to give a device back gets there, it is made once. -/
theorem release_released : release.Ends l (fun _ m => Released l m) (fun _ m => Released l m) False := by
  have hrests : Rests l (l.count .release) := ⟨Nat.le_refl _, And.left, fun _ => rfl⟩
  simp only [release, Link.call]
  simp only [Action.ends_get_bind, Action.ends_set_bind]
  split
  · simp only [Action.ends_modify_bind, Action.ends_fail]
    exact ⟨⟨hrests.inits, hrests.off, hrests.contents⟩, rfl, fun hsame => absurd hsame (List.cons_ne_self _ _)⟩
  · refine Link.accounted_ends (fun _ _ => False) (Link.direct_ends.mpr ?_) fun _ _ hno => hno.elim
    exact ⟨⟨hrests.inits, fun _ => rfl, hrests.contents⟩, rfl, fun _ => rfl⟩

end FlashLink
end FirmwareUpdate
