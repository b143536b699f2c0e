import FirmwareUpdate.Proofs.Device.Flash

/-! How long a flash device is waited for. The first poll does not count towards the limit, so a device is waited for
exactly if it is idle again after as many polls as the limit allows. One that takes longer is given up, although what
was asked of it has taken effect. -/
namespace FirmwareUpdate

namespace Flash
variable {f : Flash} {start length : Nat} {data : Bytes}

private theorem poll_eq (f : Flash) :
    poll f = .ok (if f.busyRest = 0 then .idle else .busy) { f with busyRest := f.busyRest - 1 } := by
  simp only [poll]
  rw [Action.bind_of_ok (Action.get_apply f)]
  split
  · rename_i hidle
    have hsame : f.busyRest - 1 = f.busyRest := by omega
    rw [hsame]
    rfl
  · rfl

private theorem write_of_on (hon : f.initialized = true) (h : f.Takes start data) (haligned : f.Aligned start data)
    (hlimit : f.writeLimit = none) : write start data f = .ok () (f.program start data h.inside) := by
  have hpos := h.granule_pos
  have hmis : ¬((start - f.geometry.base) % f.geometry.granule ≠ 0 ∨ data.length % f.geometry.granule ≠ 0) := by
    rw [haligned.1, haligned.2]
    simp
  have hends : (write start data).Ends f (fun _ g => g = f.program start data h.inside) (fun _ _ => False) False := by
    simp only [write, requireInitialized, requireInside]
    simp only [bind_assoc, Action.ends_get_bind, hon, h.inside, if_true, Action.ends_pure_bind, hlimit]
    rw [if_neg h.nonempty, if_neg (Nat.ne_of_gt hpos), if_neg hmis, if_neg (by simp), dif_pos trivial]
    exact rfl
  obtain ⟨⟨⟩, g, hwrite, rfl⟩ := hends.exists_ok
  exact hwrite

/-- Whole sectors of a device that is on are erased. -/
theorem erase_of_on (hon : f.initialized = true) (h : f.geometry.contains start length = true)
    (hstart : f.geometry.isSector start = true) (hlength : length % f.geometry.sector = 0) :
    erase start length f = .ok () (f.blankRange start length h) := by
  have hends : (erase start length).Ends f (fun _ g => g = f.blankRange start length h) (fun _ _ => False) False := by
    simp only [erase, requireInitialized, requireInside]
    simp only [bind_assoc, Action.ends_get_bind, hon, h, if_true, Action.ends_pure_bind]
    rw [if_pos ⟨hstart, hlength⟩, dif_pos trivial]
    exact rfl
  obtain ⟨⟨⟩, g, herase, rfl⟩ := hends.exists_ok
  exact herase

end Flash

namespace FlashLink
variable {l m : FlashLink} {start count : Nat} {data : Bytes}

/-- So many polls later the device is that much closer to being idle, and nothing else has changed. -/
def polled (l : FlashLink) (count : Nat) : FlashLink :=
  { l with
    device := { l.device with busyRest := l.device.busyRest - count }
    calls := { l.calls with poll := l.calls.poll + count } }

private theorem polled_polled (l : FlashLink) (a b : Nat) : (l.polled a).polled b = l.polled (a + b) := by
  simp only [polled, Nat.sub_sub, Nat.add_assoc]

/-- None of the calls is failed on the way to the device. -/
def Quiet (l : FlashLink) : Prop := ∀ point count, l.schedule point count = none

private theorem poll_of_quiet (h : l.Quiet) :
    poll l = .ok (if l.device.busyRest = 0 then .idle else .busy) (l.polled 1) := by
  have hdue : l.due .poll = none := h _ _
  simp only [poll]
  rw [Action.bind_of_ok (Action.get_apply l), Action.bind_of_ok (Action.set_apply l _), hdue]
  simp only [Link.direct, Action.focus]
  rw [Flash.poll_eq]
  rfl

/-- A device that is idle after fewer polls is found idle with the poll after those. -/
theorem awaitIdle_of_prompt {polls : Nat} (h : l.Quiet) (hrest : l.device.busyRest < polls) :
    Flash.awaitIdle poll polls l = .ok () (l.polled (l.device.busyRest + 1)) := by
  induction polls generalizing l with
  | zero => exact absurd hrest (Nat.not_lt_zero _)
  | succ polls ih =>
    simp only [Flash.awaitIdle]
    rw [Action.bind_of_ok (poll_of_quiet h)]
    by_cases hidle : l.device.busyRest = 0
    · rw [if_pos hidle, hidle]
      rfl
    · have hnext : (l.polled 1).Quiet := h
      have hless : (l.polled 1).device.busyRest = l.device.busyRest - 1 := rfl
      have hcount : 1 + (l.device.busyRest - 1 + 1) = l.device.busyRest + 1 := by omega
      rw [if_neg hidle]
      dsimp only
      rw [ih hnext (by omega), polled_polled, hless, hcount]

/-- All polls find a device busy that is not idle after fewer. -/
theorem awaitIdle_of_slow {polls : Nat} (h : l.Quiet) (hrest : polls ≤ l.device.busyRest) :
    Flash.awaitIdle poll polls l = .error (.error .timeout) (l.polled polls) := by
  induction polls generalizing l with
  | zero => rfl
  | succ polls ih =>
    have hbusy : l.device.busyRest ≠ 0 := by omega
    have hnext : (l.polled 1).Quiet := h
    have hless : (l.polled 1).device.busyRest = l.device.busyRest - 1 := rfl
    simp only [Flash.awaitIdle]
    rw [Action.bind_of_ok (poll_of_quiet h), if_neg hbusy]
    dsimp only
    rw [ih hnext (by omega), polled_polled, Nat.add_comm 1 polls]

/-- The first poll does not count towards the limit. -/
theorem awaitReady_of_quiet (h : l.Quiet) :
    awaitReady l = Link.accounted (Flash.awaitIdle poll (Flash.pollLimit + 1)) l := by
  simp only [awaitReady, Link.accounted, Flash.awaitIdle]
  rw [Action.bind_of_ok (poll_of_quiet h), Action.bind_of_ok (poll_of_quiet h)]
  by_cases hidle : l.device.busyRest = 0
  · rw [if_pos hidle]
  · rw [if_neg hidle]

/-- A device that is idle soon enough is waited for, with one poll more than it stays busy. -/
theorem awaitReady_of_prompt (h : l.Quiet) (hrest : l.device.busyRest ≤ Flash.pollLimit) :
    awaitReady l = .ok () (l.polled (l.device.busyRest + 1)) := by
  rw [awaitReady_of_quiet h, Link.accounted, awaitIdle_of_prompt h (Nat.lt_succ_of_le hrest)]

/-- A device that stays busy too long is given up after one poll more than the limit. -/
theorem awaitReady_of_slow (h : l.Quiet) (hrest : Flash.pollLimit < l.device.busyRest) :
    awaitReady l = .error (.error .timeout) ((l.polled (Flash.pollLimit + 1)).addError .timeout).addFault := by
  rw [awaitReady_of_quiet h, Link.accounted, awaitIdle_of_slow h hrest]
  rfl

/-! ### Calls that make the device busy -/

/-- The device is on, and nothing but the time it takes makes one of its calls fail. -/
structure Able (l : FlashLink) : Prop where
  on : l.device.initialized = true
  quiet : l.Quiet
  unlimited : l.device.writeLimit = none

/-- The call has taken effect. -/
def changed (l : FlashLink) (point : CallPoint) (after : Flash) : FlashLink := { l.count point with device := after }

/-- The call has taken effect, and the device has been waited for in vain. -/
def givenUp (l : FlashLink) (point : CallPoint) (after : Flash) : FlashLink :=
  (((l.changed point after).polled (Flash.pollLimit + 1)).addError .timeout).addFault

theorem givenUp_device (l : FlashLink) (point : CallPoint) (after : Flash) :
    (l.givenUp point after).device = { after with busyRest := after.busyRest - (Flash.pollLimit + 1) } := by
  simp only [givenUp, polled, changed, Link.addError, Link.addFault]

theorem givenUp_calls (l : FlashLink) (point : CallPoint) (after : Flash) : (l.givenUp point after).calls =
    { (l.count point).calls with poll := (l.count point).calls.poll + (Flash.pollLimit + 1) } := by
  simp only [givenUp, polled, changed, Link.addError, Link.addFault]

section Change
variable {act : Flash.Call Unit} {after : Flash}

/-- A change is waited for until the device is idle again. -/
theorem change_of_prompt (point : CallPoint) (h : l.Quiet) (hact : act l.device = .ok () after)
    (hrest : after.busyRest ≤ Flash.pollLimit) :
    (Link.call point act >>= fun _ => awaitReady : Call Unit) l =
      .ok () ((l.changed point after).polled (after.busyRest + 1)) := by
  have hnext : (l.changed point after).Quiet := h
  rw [Action.bind_of_ok (Link.call_of_ok (h _ _) hact)]
  exact awaitReady_of_prompt hnext hrest

/-- A device that is given up has the change made all the same. -/
theorem change_of_slow (point : CallPoint) (h : l.Quiet) (hact : act l.device = .ok () after)
    (hrest : Flash.pollLimit < after.busyRest) :
    (Link.call point act >>= fun _ => awaitReady : Call Unit) l = .error (.error .timeout) (l.givenUp point after) := by
  have hnext : (l.changed point after).Quiet := h
  rw [Action.bind_of_ok (Link.call_of_ok (h _ _) hact)]
  exact awaitReady_of_slow hnext hrest

end Change

/-- The device is as able as before. So many calls were made to it, and for each of them it was polled until it was
idle. -/
structure Serves (point : CallPoint) (count : Nat) (l m : FlashLink) : Prop where
  able : m.Able
  geometry : m.device.geometry = l.device.geometry
  busySpan : m.device.busySpan = l.device.busySpan
  calls : m.calls.of point = l.calls.of point + count
  polls : m.calls.poll = l.calls.poll + count * (l.device.busySpan + 1)

theorem Serves.refl (point : CallPoint) (h : l.Able) : Serves point 0 l l :=
  ⟨h, rfl, rfl, rfl, by rw [Nat.zero_mul, Nat.add_zero]⟩

/-- Servings that follow each other add up. -/
theorem Serves.trans {point : CallPoint} {a b : Nat} {k : FlashLink} (h : Serves point a l m)
    (h' : Serves point b m k) : Serves point (a + b) l k := by
  refine ⟨h'.able, h'.geometry.trans h.geometry, h'.busySpan.trans h.busySpan, ?_, ?_⟩
  · rw [h'.calls, h.calls, Nat.add_assoc]
  · rw [h'.polls, h.polls, h.busySpan, Nat.add_mul, Nat.add_assoc]

/-- A call that leaves the device on and makes it busy for its time. -/
theorem serves_changed {point : CallPoint} {after : Flash} (h : l.Able) (hpoint : point ≠ .poll)
    (hgeometry : after.geometry = l.device.geometry) (hon : after.initialized = l.device.initialized)
    (hlimit : after.writeLimit = l.device.writeLimit) (hspan : after.busySpan = l.device.busySpan) :
    Serves point 1 l ((l.changed point after).polled (l.device.busySpan + 1)) := by
  have hpolls : (l.count point).calls.poll = l.calls.poll := Link.calls_count_of_ne (l := l) hpoint
  have hcalls := Link.calls_count_self l point
  refine ⟨⟨hon.trans h.on, h.quiet, hlimit.trans h.unlimited⟩, hgeometry, hspan, ?_, ?_⟩
  · cases point <;> first | exact hcalls | exact absurd rfl hpoint
  · show (l.count point).calls.poll + (l.device.busySpan + 1) = _
    rw [hpolls, Nat.one_mul]

/-! ### Writing and erasing -/

/-- A write to a device that is idle soon enough is served. -/
theorem program_of_prompt (h : l.Able) (htakes : l.device.Takes start data) (haligned : l.device.Aligned start data)
    (hspan : l.device.busySpan ≤ Flash.pollLimit) :
    ∃ m, (write start data >>= fun _ => awaitReady : Call Unit) l = .ok () m ∧ Serves .write 1 l m :=
  ⟨_, change_of_prompt .write h.quiet (Flash.write_of_on h.on htakes haligned h.unlimited) hspan,
    serves_changed h (by decide) rfl rfl rfl rfl⟩

/-- A write to a device that is idle too late is given up, although its bytes are in place. -/
theorem program_of_slow (h : l.Able) (htakes : l.device.Takes start data) (haligned : l.device.Aligned start data)
    (hspan : Flash.pollLimit < l.device.busySpan) :
    (write start data >>= fun _ => awaitReady : Call Unit) l =
      .error (.error .timeout) (l.givenUp .write (l.device.program start data htakes.inside)) :=
  change_of_slow .write h.quiet (Flash.write_of_on h.on htakes haligned h.unlimited) hspan

/-- A device that is prompt enough is erased, with as many polls as it takes. -/
theorem blank_of_prompt {length : Nat} (h : l.Able) (hin : l.device.geometry.contains start length = true)
    (hstart : l.device.geometry.isSector start = true) (hlength : length % l.device.geometry.sector = 0)
    (hspan : l.device.busySpan ≤ Flash.pollLimit) :
    ∃ m, (erase start length >>= fun _ => awaitReady : Call Unit) l = .ok () m ∧ Serves .erase 1 l m :=
  ⟨_, change_of_prompt .erase h.quiet (Flash.erase_of_on h.on hin hstart hlength) hspan,
    serves_changed h (by decide) rfl rfl rfl rfl⟩

/-- A device that is too slow is given up on while it is erased, after as many polls as are allowed. -/
theorem blank_of_slow {length : Nat} (h : l.Able) (hin : l.device.geometry.contains start length = true)
    (hstart : l.device.geometry.isSector start = true) (hlength : length % l.device.geometry.sector = 0)
    (hspan : Flash.pollLimit < l.device.busySpan) :
    (erase start length >>= fun _ => awaitReady : Call Unit) l =
      .error (.error .timeout) (l.givenUp .erase (l.device.blankRange start length hin)) :=
  change_of_slow .erase h.quiet (Flash.erase_of_on h.on hin hstart hlength) hspan

/-- A device that is prompt erases all the sectors. -/
theorem eraseFrom_of_prompt (count : Nat) (l : FlashLink) (start : Nat) (h : l.Able)
    (hsectors : AtSectors l.device.geometry count start) (htop : l.device.geometry.stop < UInt32.size)
    (hspan : l.device.busySpan ≤ Flash.pollLimit) :
    (eraseFrom count start).Ends l (fun _ m => Serves .erase count l m) (fun _ _ => False) False := by
  induction count generalizing l start with
  | zero => exact .refl .erase h
  | succ count ih =>
    simp only [eraseFrom]
    refine (nextSector_ends hsectors).bind ?_ (fun _ _ h => h) fun hword =>
      absurd htop (Nat.not_lt.mpr (hsectors.stop_ge hword))
    rintro _ _ ⟨rfl, rfl, -⟩
    simp only [Nat.add_sub_cancel_left]
    obtain ⟨m, hblank, hone⟩ := blank_of_prompt h hsectors.contains hsectors.isSector (Nat.mod_self _) hspan
    rw [← bind_assoc, Action.ends_bind, Action.ends_of_ok hblank]
    have hnext : AtSectors m.device.geometry count (start + l.device.geometry.sector) := hone.geometry ▸ hsectors.next
    refine (ih m _ hone.able hnext (hone.geometry ▸ htop) (hone.busySpan ▸ hspan)).imp ?_ (fun _ _ h => h) id
    intro _ k hrest
    rw [Nat.add_comm]
    exact hone.trans hrest

/-- A device that is slow erases one sector. -/
theorem eraseFrom_of_slow (h : l.Able) (hsectors : AtSectors l.device.geometry (count + 1) start)
    (htop : l.device.geometry.stop < UInt32.size) (hspan : Flash.pollLimit < l.device.busySpan) :
    (eraseFrom (count + 1) start).Ends l (fun _ _ => False) (fun cause m => cause = .timeout ∧
      m = l.givenUp .erase (l.device.blankRange start l.device.geometry.sector hsectors.contains)) False := by
  simp only [eraseFrom]
  refine (nextSector_ends hsectors).bind ?_ (fun _ _ h => h.elim) fun hword =>
    absurd htop (Nat.not_lt.mpr (hsectors.stop_ge hword))
  rintro _ _ ⟨rfl, rfl, -⟩
  simp only [Nat.add_sub_cancel_left]
  have hblank := blank_of_slow h hsectors.contains hsectors.isSector (Nat.mod_self _) hspan
  rw [← bind_assoc, Action.ends_bind]
  exact (Action.ends_of_error hblank).mpr ⟨rfl, rfl⟩

end FlashLink
end FirmwareUpdate
