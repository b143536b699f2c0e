import FirmwareUpdate.Proofs.Device.FlashSessions
import FirmwareUpdate.Proofs.Device.Polling
import FirmwareUpdate.Proofs.Storage.Filling
import FirmwareUpdate.Proofs.Storage.Patching
import FirmwareUpdate.Proofs.Storage.Track

/-! What becomes of a write or an erase on a flash device that is busy for a while after each call. If the device is
idle again before it is given up, all is done, and the polls are counted. If it is not, the first call still takes
effect, and then the device is switched off. -/
namespace FirmwareUpdate

namespace FlashLink

/-- The device has been given back. -/
def switchedOff (l : FlashLink) : FlashLink :=
  { l.count .release with device := { l.device with initialized := false, releases := l.device.releases + 1 } }

private theorem switchedOff_device (l : FlashLink) : l.switchedOff.device =
    { l.device with initialized := false, releases := l.device.releases + 1 } := rfl

private theorem switchedOff_calls {point : CallPoint} (hpoint : point ≠ .release) (l : FlashLink) :
    l.switchedOff.calls.of point = l.calls.of point :=
  Link.calls_count_of_ne (l := l) hpoint.symm

private theorem release_of_quiet {l : FlashLink} (h : l.Quiet) : release l = .ok () l.switchedOff :=
  Link.call_of_ok (h _ _) rfl

end FlashLink

namespace Storage
variable {n k : Nat} {s₀ s t u : Storage n k} {memory : Memory n k} {entry : Slot} {slot : SlotId} {d : Fin n}
  {address offset length : Nat} {data : Bytes} {mode : WriteMode}

/-! ### Guarded calls -/

private theorem onFlash_of_ok {α : Type} {call : FlashLink.Call α} {a : α} {link : FlashLink}
    (h : call (s.flashLink d) = .ok a link) : onFlash d call s = .ok a (s.withFlash d link) := by
  have hcall : call (s.devices.flashes.get d) = .ok a link := h
  simp only [onFlash, Action.focus, hcall]
  rfl

/-- A call to the device took effect and was waited for in vain, and the device has been switched off for it. -/
def GaveUp (d : Fin n) (l : FlashLink) (point : CallPoint) (Effect : Flash → Prop) (cause : Error)
    (t : Storage n k) : Prop :=
  cause = .driverFailure ∧ ∃ after, Effect after ∧ t.flashLink d = (l.givenUp point after).switchedOff ∧ t.pending = 0

private theorem GaveUp.calls {l : FlashLink} {point : CallPoint} {Effect : Flash → Prop} {cause : Error}
    (h : GaveUp d l point Effect cause t) (hrelease : point ≠ .release) (hpoll : point ≠ .poll) :
    (t.flashLink d).calls.of point = l.calls.of point + 1 ∧
      (t.flashLink d).calls.poll = l.calls.poll + (Flash.pollLimit + 1) := by
  obtain ⟨-, after, -, hlink, -⟩ := h
  have hpolls : (l.count point).calls.poll = l.calls.poll := Link.calls_count_of_ne (l := l) hpoll
  have hreleased : (l.givenUp point after).switchedOff.calls.of .poll = (l.givenUp point after).calls.of .poll :=
    FlashLink.switchedOff_calls (by decide) _
  rw [FlashLink.givenUp_calls] at hreleased
  rw [hlink, ← hpolls]
  refine ⟨?_, hreleased⟩
  rw [FlashLink.switchedOff_calls hrelease, FlashLink.givenUp_calls, ← Link.calls_count_self l point]
  cases point <;> first | rfl | exact absurd rfl hpoll

private theorem settle_of_quiet {ε : Type} {index : Nat} (hm : s.memories[index]? = some memory)
    (hd : memory.device = .flash d)
    (hquiet : (s.flashLink d).Quiet) : (settle index : Action (Storage n k) ε Unit).Ends s
      (fun _ t => t.flashLink d = (s.flashLink d).switchedOff ∧ t.pending = 0) (fun _ _ => False) False := by
  simp only [settle, dropPending]
  simp only [Action.ends_modify_bind, Action.ends_get_bind, hm, hd]
  have hrelease := onFlash_of_ok (s := { s with buffer := s.buffer.dropPending }) (FlashLink.release_of_quiet hquiet)
  have hends : (onFlash d FlashLink.release).Ends { s with buffer := s.buffer.dropPending }
      (fun _ t => t = { s with buffer := s.buffer.dropPending }.withFlash d (s.flashLink d).switchedOff)
      (fun _ _ => False) False := (Action.ends_of_ok hrelease).mpr rfl
  refine hends.attempt_bind ?_ (fun _ _ h => h.elim) id
  rintro _ _ rfl
  refine ⟨?_, rfl⟩
  rw [flashLink_withFlash, if_pos rfl]

private theorem guarding_of_ok {α : Type} {calls : Call n k α} {index : Nat} {a : α} (h : calls s = .ok a t) :
    (guarding index calls : Op n k α) s = .ok a t := by
  rw [guarding, Action.attempt_bind_apply, h]
  rfl

private theorem guarding_gives_up {call : FlashLink.Call Unit} {index : Nat} {point : CallPoint} {after : Flash}
    (hm : s.memories[index]? = some memory) (hd : memory.device = .flash d) (hquiet : (s.flashLink d).Quiet)
    (hcall : call.Ends (s.flashLink d) (fun _ _ => False)
      (fun cause link => cause = .timeout ∧ link = (s.flashLink d).givenUp point after) False) :
    (guarding index (onFlash d call) : Op n k Unit).Ends s (fun _ _ => False)
      (GaveUp d (s.flashLink d) point (· = after)) False := by
  have hends : (onFlash d call).Ends s (fun _ _ => False)
      (fun cause t => cause = .timeout ∧ t = s.withFlash d ((s.flashLink d).givenUp point after)) False :=
    onFlash_ends.mpr (hcall.imp (fun _ _ h => h) (fun _ _ h => ⟨h.1, by rw [h.2]⟩) id)
  refine hends.attempt_bind (fun _ _ h => h.elim) ?_ id
  rintro _ _ ⟨rfl, rfl⟩
  have hsettle := settle_of_quiet (ε := Error) (s := s.withFlash d ((s.flashLink d).givenUp point after)) hm hd
  rw [flashLink_withFlash, if_pos rfl] at hsettle
  refine (hsettle hquiet).bind ?_ (fun _ _ h => h.elim) id
  rintro _ t ⟨hlink, hpending⟩
  exact ⟨rfl, after, rfl, hlink, hpending⟩

/-! ### Writing -/

private theorem granular_of_flash (hd : memory.device = .flash d) (ha : entry.location = .flash address)
    (hstart : (address - (s.flash d).geometry.base) % (s.flash d).geometry.granule = 0)
    (hsize : entry.size % (s.flash d).geometry.granule = 0) : s.Granular memory entry := by
  refine ⟨?_, fun d' address' hd' ha' => ?_⟩
  · rw [hd]
    exact hsize
  · cases hd.symm.trans hd'
    cases ha.symm.trans ha'
    exact hstart

/-- A slot of whole granules on a flash device that ends before the address space does. -/
structure OnGranules (s : Storage n k) (slot : SlotId) (memory : Memory n k) (entry : Slot) (d : Fin n)
    (address : Nat) : Prop where
  fits : s.Fits
  lookup : s.lookup? slot = .ok (memory, entry)
  device : memory.device = .flash d
  location : entry.location = .flash address
  granular : s.Granular memory entry
  below : (s.flash d).geometry.stop < UInt32.size

private theorem OnGranules.region (h : OnGranules s slot memory entry d address) :
    Region (s.flash d).geometry address entry.size :=
  region_of_checkSlot (h.device ▸ h.fits.slots _ _ _ h.lookup) h.location

private theorem OnGranules.granule (h : OnGranules s slot memory entry d address) :
    s.devices.granule memory.device = (s.flash d).geometry.granule := by
  rw [h.device]
  rfl

/-- The calls that were made between two states were made to a device that is prompt. -/
def Served (d : Fin n) (point : CallPoint) (s t : Storage n k) : Prop :=
  ∃ count, FlashLink.Serves point count (s.flashLink d) (t.flashLink d)

private theorem Served.trans {point : CallPoint} (h : s.Served d point t) (h' : t.Served d point u) :
    s.Served d point u := by
  obtain ⟨a, ha⟩ := h
  obtain ⟨b, hb⟩ := h'
  exact ⟨a + b, ha.trans hb⟩

section Run
variable (h : OnGranules s₀ slot memory entry d address)
include h

/-- The device takes a full granule of the slot. -/
theorem OnGranules.takes (hu : Aimed s₀ slot memory u) (hfull : u.pending = u.buffer.granule)
    (hlt : u.buffer.offset < entry.size) : (u.flash d).Takes (address + u.buffer.offset) u.buffer.bytes ∧
      (u.flash d).Aligned (address + u.buffer.offset) u.buffer.bytes := by
  have hgeometry := hu.setup.geometry d
  have hbase := h.region.base_le
  have hstop := h.region.le_stop
  have hgranule : u.buffer.granule = (s₀.flash d).geometry.granule := hu.granule.trans h.granule
  have hinside := hu.inside h.granular.size hlt
  have hlength : u.buffer.bytes.length = u.buffer.granule := hfull
  have hpos : 0 < u.buffer.granule := hu.granule ▸ h.fits.granule_pos _ _ _ h.lookup
  have hplace : address + u.buffer.offset - (s₀.flash d).geometry.base =
      address - (s₀.flash d).geometry.base + u.buffer.offset := Nat.sub_add_comm hbase
  have hstart := h.granular.start d address h.device h.location
  have haligned := hu.aligned
  refine ⟨⟨?_, ?_, ?_⟩, ?_, ?_⟩
  · rw [hgeometry, hlength]
    exact Geometry.contains_iff.mpr (by omega)
  · exact List.ne_nil_of_length_pos (hlength ▸ hpos)
  · rw [hgeometry, ← hgranule]
    exact hpos
  · rw [hgranule] at haligned
    rw [hgeometry, hplace, Nat.add_mod, hstart, haligned]
    exact Nat.zero_mod _
  · rw [hgeometry, hlength, hgranule]
    exact Nat.mod_self _

/-- A full granule of the slot goes to the device in one guarded call. -/
theorem OnGranules.writeOut_of_call {done : Unit → Storage n k → Prop} {failed : Error → Storage n k → Prop}
    {trapped : Prop} (hu : Aimed s₀ slot memory u) (hlt : u.buffer.offset < entry.size)
    (hcall : (guarding slot.memory (onFlash d do
      FlashLink.write (address + u.buffer.offset) u.buffer.bytes
      FlashLink.awaitReady)).Ends u (fun _ t => done () { t with buffer := t.buffer.advanced }) failed trapped) :
    writeOut.Ends u done failed trapped := by
  have hl : u.lookup? u.buffer.target = .ok (memory, entry) := by rw [hu.target, hu.setup.lookup?, h.lookup]
  have hinside := hu.inside h.granular.size hlt
  have hstop : address + entry.size ≤ (s₀.flash d).geometry.stop := h.region.le_stop
  have hbelow := h.below
  simp only [writeOut]
  rw [Action.ends_get_bind, ends_lookup_bind hl]
  dsimp only
  rw [if_neg (Nat.not_lt.mpr hinside), hu.target]
  simp only [h.device, h.location]
  refine Action.word_bind (fun hword => by omega) ?_
  exact hcall.bind (fun _ _ h => h) (fun _ _ h => h) id

/-- A granule is written out in one call to a device that is prompt enough. -/
theorem OnGranules.writeOut_of_prompt (hu : Aimed s₀ slot memory u) (hfull : u.pending = u.buffer.granule)
    (hlt : u.buffer.offset < entry.size) (hable : (u.flashLink d).Able)
    (hspan : (u.flash d).busySpan ≤ Flash.pollLimit) :
    writeOut.Ends u (fun _ t => u.Served d .write t) (fun _ _ => False) False := by
  obtain ⟨htakes, haligned⟩ := h.takes hu hfull hlt
  obtain ⟨link, hprogram, hserves⟩ := FlashLink.program_of_prompt hable htakes haligned hspan
  refine h.writeOut_of_call hu hlt ?_
  rw [Action.ends_of_ok (guarding_of_ok (onFlash_of_ok hprogram))]
  refine ⟨1, ?_⟩
  have hlink : (u.withFlash d link).flashLink d = link := by rw [flashLink_withFlash, if_pos rfl]
  exact hlink.symm ▸ hserves

/-- Writing a granule out to a device that is too slow gives up on it. -/
theorem OnGranules.writeOut_of_slow (hu : Aimed s₀ slot memory u) (hfull : u.pending = u.buffer.granule)
    (hlt : u.buffer.offset < entry.size) (hable : (u.flashLink d).Able)
    (hspan : Flash.pollLimit < (u.flash d).busySpan) :
    writeOut.Ends u (fun _ _ => False)
      (GaveUp d (u.flashLink d) .write ((u.flash d).Masked (address + u.buffer.offset) u.buffer.bytes)) False := by
  obtain ⟨htakes, haligned⟩ := h.takes hu hfull hlt
  have hprogram := FlashLink.program_of_slow hable htakes haligned hspan
  have hm : u.memories[slot.memory]? = some memory := hu.setup.memories ▸ (getElem?_of_lookup? h.lookup).1
  refine h.writeOut_of_call hu hlt ?_
  refine (guarding_gives_up hm h.device hable.quiet ((Action.ends_of_error hprogram).mpr ⟨rfl, rfl⟩)).imp
    (fun _ _ h => h) ?_ id
  rintro _ t ⟨hcause, _, rfl, hgiven⟩
  exact ⟨hcause, _, Flash.program_masked htakes.inside, hgiven⟩

/-! ### Runs of bytes -/

/-- A byte that is pushed is served by a device that is prompt enough, with a call once its granule is full. -/
theorem OnGranules.pushByte_of_prompt {byte : UInt8} (hu : Underway s₀ slot memory entry u)
    (hroom : u.buffer.next < entry.size) (hable : (u.flashLink d).Able)
    (hspan : (u.flash d).busySpan ≤ Flash.pollLimit) :
    (pushByte byte).Ends u (fun _ t => u.Served d .write t ∧ Underway s₀ slot memory entry t ∧
      t.buffer.next = u.buffer.next + 1) (fun _ _ => False) False := by
  have hserved : (pushByte byte).Ends u (fun _ t => u.Served d .write t) (fun _ _ => False) False := by
    simp only [pushByte]
    simp only [Action.ends_modify_bind, Action.ends_get_bind]
    split
    · rename_i hcomplete
      have hbefore : u.buffer.offset ≤ u.buffer.next := Nat.le_add_right _ _
      exact h.writeOut_of_prompt (hu.withBuffer rfl rfl hu.aligned) (of_decide_eq_true hcomplete)
        (Nat.lt_of_le_of_lt hbefore hroom) hable hspan
    · exact ⟨0, .refl .write hable⟩
  exact (hserved.and (pushByte_goes h.fits h.lookup hu hroom)).imp (fun _ _ h => h) (fun _ _ h => h.1) And.left

/-- Bytes are served one by one by a device that is prompt enough. -/
theorem OnGranules.pushBytes_of_prompt (bytes : Bytes) (hu : Underway s₀ slot memory entry u)
    (hroom : u.buffer.next + bytes.length ≤ entry.size) (hable : (u.flashLink d).Able)
    (hspan : (u.flash d).busySpan ≤ Flash.pollLimit) :
    (pushBytes bytes).Ends u (fun _ t => u.Served d .write t ∧ Underway s₀ slot memory entry t)
      (fun _ _ => False) False := by
  induction bytes generalizing u with
  | nil => exact ⟨⟨0, .refl .write hable⟩, hu⟩
  | cons byte rest ih =>
    rw [List.length_cons] at hroom
    refine (h.pushByte_of_prompt hu (by omega) hable hspan).bind ?_ (fun _ _ h => h) id
    rintro _ t ⟨⟨count, hserves⟩, ht, hnext⟩
    -- Behind the byte the run is under way again, and the device is as able and as prompt as before it.
    have hspan' : (t.flash d).busySpan ≤ Flash.pollLimit := hserves.busySpan ▸ hspan
    exact (ih ht (by omega) hserves.able hspan').imp (fun _ _ hrest => ⟨Served.trans ⟨count, hserves⟩ hrest.1, hrest.2⟩)
      (fun _ _ h => h) id

/-- What is pending is forced out to a device that is prompt enough. -/
theorem OnGranules.forceOut_of_prompt (hu : Underway s₀ slot memory entry u) (hable : (u.flashLink d).Able)
    (hspan : (u.flash d).busySpan ≤ Flash.pollLimit) :
    forceOut.Ends u (fun _ t => u.Served d .write t) (fun _ _ => False) False := by
  simp only [forceOut]
  rw [Action.ends_get_bind]
  split
  · rename_i hwaiting
    obtain ⟨hpadded, hfull, hlt⟩ := hu.padded hwaiting
    rw [Action.ends_modify_bind]
    exact h.writeOut_of_prompt hpadded hfull hlt hable hspan
  · exact ⟨0, .refl .write hable⟩

/-- All granules of a run go to a device that is prompt. -/
theorem OnGranules.fill_of_prompt (hu : Underway s₀ slot memory entry u)
    (hroom : u.buffer.next + data.length ≤ entry.size) (hable : (u.flashLink d).Able)
    (hspan : (u.flash d).busySpan ≤ Flash.pollLimit) :
    (do
      pushBytes data
      match mode with
      | .buffered => pure ()
      | .force => forceOut : Op n k Unit).Ends u (fun _ t => u.Served d .write t) (fun _ _ => False) False := by
  refine (h.pushBytes_of_prompt data hu hroom hable hspan).bind ?_ (fun _ _ h => h) id
  rintro _ t ⟨⟨count, hserves⟩, ht⟩
  cases mode with
  | buffered => exact ⟨count, hserves⟩
  | force =>
    have hspan' : (t.flash d).busySpan ≤ Flash.pollLimit := hserves.busySpan ▸ hspan
    exact (h.forceOut_of_prompt ht hserves.able hspan').imp (fun _ _ hrest => Served.trans ⟨count, hserves⟩ hrest)
      (fun _ _ h => h) id

/-- Forcing out what is pending gives up on a device that is too slow, unless nothing is. -/
theorem OnGranules.forceOut_of_slow (hu : Underway s₀ slot memory entry u) (hable : (u.flashLink d).Able)
    (hspan : Flash.pollLimit < (u.flash d).busySpan) :
    forceOut.Ends u (fun _ t => (u.flashLink d).Unasked (t.flashLink d))
      (GaveUp d (u.flashLink d) .write
        ((u.flash d).Masked (address + u.buffer.offset) (padTo u.buffer.granule u.buffer.bytes))) False := by
  simp only [forceOut]
  rw [Action.ends_get_bind]
  split
  · rename_i hwaiting
    obtain ⟨hpadded, hfull, hlt⟩ := hu.padded hwaiting
    rw [Action.ends_modify_bind, padTo_of_partial (of_decide_eq_true hwaiting) hu.short]
    exact (h.writeOut_of_slow hpadded hfull hlt hable hspan).imp (fun _ _ h => h.elim) (fun _ _ h => h) id
  · exact ⟨rfl, rfl⟩

/-- If the data fills the granule, nothing of the data behind it gets anywhere. -/
theorem OnGranules.pushBytes_of_slow (hu : Underway s₀ slot memory entry u)
    (hfills : u.buffer.granule ≤ (u.buffer.bytes ++ data).length)
    (hroom : u.buffer.next + data.length ≤ entry.size) (hable : (u.flashLink d).Able)
    (hspan : Flash.pollLimit < (u.flash d).busySpan) :
    (pushBytes data).Ends u (fun _ _ => False) (GaveUp d (u.flashLink d) .write
      ((u.flash d).Masked (address + u.buffer.offset) ((u.buffer.bytes ++ data).take u.buffer.granule))) False := by
  have hshort : u.buffer.bytes.length < u.buffer.granule := hu.short
  have hnext : u.buffer.next = u.buffer.offset + u.buffer.bytes.length := rfl
  have hlt : u.buffer.offset < entry.size := by
    rw [List.length_append] at hfills
    omega
  have htake : (data.take u.buffer.room).length = u.buffer.granule - u.buffer.bytes.length := by
    rw [List.length_append] at hfills
    exact List.length_take_of_le (Nat.sub_le_of_le_add (by omega))
  have hfull : u.pending + (data.take u.buffer.room).length = u.buffer.granule := by
    rw [htake, pending]
    omega
  have hsome : data.take u.buffer.room ≠ [] := List.ne_nil_of_length_pos (by omega)
  have hfirst : (u.buffer.bytes ++ data).take u.buffer.granule = u.buffer.bytes ++ data.take u.buffer.room := by
    rw [List.take_append, List.take_of_length_le (Nat.le_of_lt hshort)]
    rfl
  have haimed : Aimed s₀ slot memory { u with buffer := u.buffer.append (data.take u.buffer.room) } :=
    hu.withBuffer rfl rfl hu.aligned
  -- The first part of the data completes the granule, and its end is already the end of the write.
  have hends : (pushBytes (data.take u.buffer.room)).Ends u (fun _ _ => False) (GaveUp d (u.flashLink d) .write
      ((u.flash d).Masked (address + u.buffer.offset) (u.buffer.bytes ++ data.take u.buffer.room))) False := by
    rw [Action.Ends, pushBytes_of_full hsome hfull]
    exact h.writeOut_of_slow haimed ((pending_append u _).trans hfull) hlt hable hspan
  have hcut : (pushBytes data : Op n k Unit) =
      pushBytes (data.take u.buffer.room) >>= fun _ => pushBytes (data.drop u.buffer.room) := by
    rw [← pushBytes_append, List.take_append_drop]
  rw [hfirst, hcut]
  exact hends.bind (fun _ _ h => h.elim) (fun _ _ h => h) id

/-- Only the first granule of a run goes to a device that is slow. If there is none, the device is not asked. -/
theorem OnGranules.fill_of_slow (hu : Underway s₀ slot memory entry u)
    (hroom : u.buffer.next + data.length ≤ entry.size) (hable : (u.flashLink d).Able)
    (hspan : Flash.pollLimit < (u.flash d).busySpan) :
    (do
      pushBytes data
      match mode with
      | .buffered => pure ()
      | .force => forceOut : Op n k Unit).Ends u (fun _ t => (u.flashLink d).Unasked (t.flashLink d))
      (GaveUp d (u.flashLink d) .write ((u.flash d).Masked (address + u.buffer.offset)
        (padTo u.buffer.granule ((u.buffer.bytes ++ data).take u.buffer.granule)))) False := by
  rcases Nat.lt_or_ge (u.buffer.bytes ++ data).length u.buffer.granule with hpartial | hfills
  · have hlength : (u.buffer.bytes ++ data).length = u.pending + data.length := List.length_append
    have hthen : Underway s₀ slot memory entry { u with buffer := u.buffer.append data } := by
      refine ⟨hu.withBuffer rfl rfl hu.aligned, hpartial, ?_⟩
      show u.buffer.offset + (u.buffer.bytes ++ data).length ≤ entry.size
      rwa [hlength, ← Nat.add_assoc]
    rw [Action.ends_bind, Action.ends_of_ok (pushBytes_of_short (hlength ▸ hpartial)),
      List.take_of_length_le (Nat.le_of_lt hpartial)]
    cases mode with
    | buffered => exact ⟨rfl, rfl⟩
    | force => exact h.forceOut_of_slow hthen hable hspan
  · rw [padTo_of_full (List.length_take_of_le hfills)]
    exact (h.pushBytes_of_slow hu hfills hroom hable hspan).bind (fun _ _ h => h.elim) (fun _ _ h => h) id

end Run

/-! ### Requests -/

/-- A write or an erase of a slot. -/
inductive Change where
  | write (offset : Nat) (data : Bytes) (mode : WriteMode)
  | erase (offset length : Nat)
  deriving DecidableEq, Repr

namespace Change

def act (slot : SlotId) : Change → Op n k Unit
  | write offset data mode => Storage.write slot offset data mode
  | erase offset length => Storage.erase slot offset length

/-- The calls that it is made of. -/
def point : Change → CallPoint
  | write .. => .write
  | erase .. => .erase

private theorem point_ne {point : CallPoint} (hwrite : point ≠ .write) (herase : point ≠ .erase) (change : Change) :
    change.point ≠ point := by
  cases change with
  | write => exact hwrite.symm
  | erase => exact herase.symm

/-- What the first of them comes to: the granule of the pending bytes with the data behind them, filled up with zeros,
is programmed, or one sector is erased. -/
def First (s : Storage n k) (d : Fin n) (address : Nat) : Change → Flash → Prop
  | write offset data _ => (s.flash d).Masked (address + (offset - s.pending))
      (padTo (s.flash d).geometry.granule ((s.buffer.bytes ++ data).take (s.flash d).geometry.granule))
  | erase offset _ => (s.flash d).Blanked (address + offset) (s.flash d).geometry.sector

end Change

/-- A run that is under way goes on behind the pending bytes, and one is started only if there are none. -/
theorem continueRun_keeps : (continueRun slot memory offset).Yields s
    (fun _ t => t.devices = s.devices ∧ t.buffer.bytes = s.buffer.bytes) := by
  simp only [continueRun]
  rw [Action.Yields, Action.ends_get_bind]
  split
  · split
    · exact ⟨rfl, rfl⟩
    · trivial
  · rename_i hidle
    have hempty : s.buffer.bytes = [] := by simpa [GranuleBuffer.isWaiting] using hidle
    split
    · exact ⟨rfl, hempty.symm⟩
    · trivial

section Requests
variable (h : OnGranules s slot memory entry d address)
include h

/-- A write is refused at once, or its bytes go to the run that is under way from then on. -/
theorem OnGranules.write_of_run {done : Unit → Storage n k → Prop} {failed : Error → Storage n k → Prop}
    (hpaused : s.Paused) (hrefused : ∀ cause, failed cause s)
    (hrun : ∀ u, Underway s slot memory entry u → u.buffer.next = offset → offset + data.length ≤ entry.size →
      u.flashLink d = s.flashLink d → u.buffer.bytes = s.buffer.bytes → (do
        pushBytes data
        match mode with
        | .buffered => pure ()
        | .force => forceOut : Op n k Unit).Ends u done failed False) :
    (write slot offset data mode).Ends s done failed False := by
  simp only [write]
  rw [ends_lookup_bind h.lookup]
  simp only [requireInside]
  by_cases hin : offset + data.length ≤ entry.size
  · have hle : offset ≤ entry.size := Nat.le_trans (Nat.le_add_right _ _) hin
    have hstart := continueRun_goes h.fits h.lookup hpaused (.refl s) (.refl s) hle
    simp only [if_pos hin, Action.ends_pure_bind]
    refine (hstart.and_yields continueRun_keeps).bind ?_ ?_ id
    · rintro _ u ⟨⟨hu, hnext⟩, hdevices, hbytes⟩
      exact hrun u hu hnext hin (congrArg (·.flashes.get d) hdevices) hbytes
    · rintro cause _ ⟨rfl, -⟩
      exact hrefused cause
  · rw [if_neg hin]
    exact hrefused _

/-- All sectors are erased on a device that is prompt. -/
theorem OnGranules.sectors_of_prompt {count : Nat}
    (hsectors : FlashLink.AtSectors (s.flash d).geometry (count + 1) (address + offset)) (hable : (s.flashLink d).Able)
    (hspan : (s.flash d).busySpan ≤ Flash.pollLimit) :
    (guarding slot.memory (onFlash d (FlashLink.eraseFrom (count + 1) (address + offset)))).Ends s
      (fun _ t => FlashLink.Serves .erase (count + 1) (s.flashLink d) (t.flashLink d)) (fun _ _ => False) False := by
  obtain ⟨_, link, herase, hserves⟩ :=
    (FlashLink.eraseFrom_of_prompt _ (s.flashLink d) _ hable hsectors h.below hspan).exists_ok
  have hlink : (s.withFlash d link).flashLink d = link := by rw [flashLink_withFlash, if_pos rfl]
  rw [Action.ends_of_ok (guarding_of_ok (onFlash_of_ok herase)), hlink]
  exact hserves

/-- One sector is erased on a device that is slow. -/
theorem OnGranules.sectors_of_slow {count : Nat}
    (hsectors : FlashLink.AtSectors (s.flash d).geometry (count + 1) (address + offset)) (hable : (s.flashLink d).Able)
    (hspan : Flash.pollLimit < (s.flash d).busySpan) :
    (guarding slot.memory (onFlash d (FlashLink.eraseFrom (count + 1) (address + offset)))).Ends s (fun _ _ => False)
      (GaveUp d (s.flashLink d) .erase ((s.flash d).Blanked (address + offset) (s.flash d).geometry.sector)) False := by
  have hm : s.memories[slot.memory]? = some memory := (getElem?_of_lookup? h.lookup).1
  refine (guarding_gives_up hm h.device hable.quiet
    (FlashLink.eraseFrom_of_slow hable hsectors h.below hspan)).imp (fun _ _ h => h) ?_ id
  rintro _ t ⟨hcause, _, rfl, hgiven⟩
  exact ⟨hcause, _, Flash.blankRange_blanked hsectors.contains, hgiven⟩

/-- An erase that is in range and on a sector is one guarded call, if there is anything to erase. -/
theorem OnGranules.erase_of_sectors {done : Unit → Storage n k → Prop} {failed : Error → Storage n k → Prop}
    (hin : offset + length ≤ entry.size) (hne : length ≠ 0)
    (hrefused : offset % (s.flash d).geometry.sector ≠ 0 → failed .invalidAddress s)
    (hcall : ∀ count, FlashLink.AtSectors (s.flash d).geometry (count + 1) (address + offset) →
      (guarding slot.memory (onFlash d
        (FlashLink.eraseFrom (count + 1) (address + offset)))).Ends s done failed False) :
    (erase slot offset length).Ends s done failed False := by
  refine erase_of_flash h.lookup h.region h.device h.location hin hne hrefused fun hsector => ?_
  have hsectors := (h.region.atSectors hin hsector).1
  have hle := le_sectorsFor (s.flash d).geometry length
  generalize (s.flash d).geometry.sectorsFor length = count at hsectors hle ⊢
  cases count with
  | zero => omega
  | succ count => exact hcall count hsectors

/-- Any other erase does nothing. -/
theorem OnGranules.erase_of_call {done : Unit → Storage n k → Prop} {failed : Error → Storage n k → Prop}
    (hrefused : ∀ cause, failed cause s) (hempty : done () s)
    (hcall : ∀ count, FlashLink.AtSectors (s.flash d).geometry (count + 1) (address + offset) →
      (guarding slot.memory (onFlash d
        (FlashLink.eraseFrom (count + 1) (address + offset)))).Ends s done failed False) :
    (erase slot offset length).Ends s done failed False := by
  by_cases hin : offset + length ≤ entry.size
  · by_cases hne : length = 0
    · simp only [erase]
      rw [ends_lookup_bind h.lookup]
      simp only [requireInside, if_pos hin, Action.ends_pure_bind, if_pos hne]
      exact hempty
    · exact h.erase_of_sectors hin hne (fun _ => hrefused _) hcall
  · simp only [erase]
    rw [ends_lookup_bind h.lookup]
    simp only [requireInside, if_neg hin]
    exact hrefused _

private theorem OnGranules.ends_of_prompt (hpaused : s.Paused) (hable : (s.flashLink d).Able)
    (hspan : (s.flash d).busySpan ≤ Flash.pollLimit) (change : Change) :
    (change.act slot).Ends s (fun _ t => s.Served d change.point t) (fun _ t => t = s) False := by
  cases change with
  | write offset data mode =>
    refine h.write_of_run hpaused (fun _ => rfl) fun u hu hnext hin hlink _ => ?_
    have hspan' : (u.flash d).busySpan ≤ Flash.pollLimit := by
      rw [flash, hlink]
      exact hspan
    refine (h.fill_of_prompt hu (hnext ▸ hin) (hlink ▸ hable) hspan').imp (fun _ t ht => ?_) (fun _ _ h => h.elim) id
    rw [Served, hlink] at ht
    exact ht
  | erase offset length =>
    refine h.erase_of_call (fun _ => rfl) ⟨0, .refl .erase hable⟩ fun count hsectors => ?_
    exact (h.sectors_of_prompt hsectors hable hspan).imp (fun _ _ hserves => ⟨count + 1, hserves⟩)
      (fun _ _ h => h.elim) id

private theorem OnGranules.ends_of_slow (hpaused : s.Paused) (hable : (s.flashLink d).Able)
    (hspan : Flash.pollLimit < (s.flash d).busySpan) (change : Change) :
    (change.act slot).Ends s (fun _ t => (s.flashLink d).Unasked (t.flashLink d))
      (fun cause t => t = s ∨ GaveUp d (s.flashLink d) change.point (change.First s d address) cause t) False := by
  cases change with
  | write offset data mode =>
    refine h.write_of_run hpaused (fun _ => Or.inl rfl) fun u hu hnext hin hlink hbytes => ?_
    have hflash : u.flash d = s.flash d := congrArg Link.device hlink
    have hgranule : u.buffer.granule = (s.flash d).geometry.granule := hu.granule.trans h.granule
    have hoffset : u.buffer.offset = offset - s.pending := by
      rw [← hnext, GranuleBuffer.next, hbytes, pending, Nat.add_sub_cancel]
    refine (h.fill_of_slow hu (hnext ▸ hin) (hlink ▸ hable) (hflash ▸ hspan)).imp (fun _ t hunasked => ?_)
      (fun _ t hgave => Or.inr ?_) id
    · rwa [hlink] at hunasked
    · rwa [hlink, hflash, hgranule, hoffset, hbytes] at hgave
  | erase offset length =>
    refine h.erase_of_call (fun _ => Or.inl rfl) ⟨rfl, rfl⟩ fun count hsectors => ?_
    exact (h.sectors_of_slow hsectors hable hspan).imp (fun _ _ h => h.elim) (fun _ _ h => Or.inr h) id

/-- A device that is prompt does all that it is asked for. -/
theorem OnGranules.change_of_prompt (hpaused : s.Paused) (hable : (s.flashLink d).Able)
    (hspan : (s.flash d).busySpan ≤ Flash.pollLimit) (change : Change)
    (hasked : ¬(s.flashLink d).Unasked (((change.act slot).after s).flashLink d)) :
    (change.act slot).Ends s (fun _ t => s.Served d change.point t) (fun _ _ => False) False := by
  refine ((h.ends_of_prompt hpaused hable hspan change).and (Action.ends_after _ s)).imp (fun _ _ h => h.1) ?_ And.left
  rintro _ t ⟨hsame, hafter⟩
  rw [hafter, hsame] at hasked
  exact hasked ⟨rfl, rfl⟩

/-- A device that is slow does the first thing that it is asked for. -/
theorem OnGranules.change_of_slow (hpaused : s.Paused) (hable : (s.flashLink d).Able)
    (hspan : Flash.pollLimit < (s.flash d).busySpan) (change : Change)
    (hasked : ¬(s.flashLink d).Unasked (((change.act slot).after s).flashLink d)) :
    (change.act slot).Ends s (fun _ _ => False)
      (GaveUp d (s.flashLink d) change.point (change.First s d address)) False := by
  refine ((h.ends_of_slow hpaused hable hspan change).and (Action.ends_after _ s)).imp ?_ ?_ And.left
  · rintro _ t ⟨hunasked, hafter⟩
    exact hasked (hafter ▸ hunasked)
  · rintro cause t ⟨hsame | hgave, hafter⟩
    · rw [hafter, hsame] at hasked
      exact (hasked ⟨rfl, rfl⟩).elim
    · exact hgave

/-- An erase that is in range and on a sector does ask the device. -/
theorem OnGranules.erase_asks (hable : (s.flashLink d).Able) (hin : offset + length ≤ entry.size) (hne : length ≠ 0)
    (hsector : offset % (s.flash d).geometry.sector = 0) :
    ¬(s.flashLink d).Unasked (((erase slot offset length).after s).flashLink d) := by
  have hmore : ∀ (t : Storage n k) count,
      (t.flashLink d).calls.of .erase = (s.flashLink d).calls.of .erase + (count + 1) →
      ¬(s.flashLink d).Unasked (t.flashLink d) := by
    intro t count hcalls hunasked
    have hsame : (t.flashLink d).calls.of .erase = (s.flashLink d).calls.of .erase := hunasked.erase
    omega
  refine Action.Ends.after (Q := fun t : Storage n k => ¬(s.flashLink d).Unasked (t.flashLink d)) ?_
  refine h.erase_of_sectors hin hne (absurd hsector) fun count hsectors => ?_
  rcases Nat.lt_or_ge Flash.pollLimit (s.flash d).busySpan with hspan | hspan
  · exact (h.sectors_of_slow hsectors hable hspan).imp (fun _ _ h => h.elim)
      (fun _ t hgave => hmore t 0 (hgave.calls (by decide) (by decide)).1) id
  · exact (h.sectors_of_prompt hsectors hable hspan).imp (fun _ t hserves => hmore t count hserves.calls)
      (fun _ _ h => h.elim) id

end Requests

/-- On a device that is on and fails no call by itself, in a slot of whole granules, a write or an erase that asks the
device for anything succeeds exactly if the device is idle again after as many polls as the limit allows. Then every
call has been waited for. If the device takes longer, the first call still takes effect; the device is polled once more
than the limit allows and switched off, and nothing is pending. -/
theorem done_unless_too_busy {devices : Devices n k} (hs : Reachable devices s)
    (hl : s.lookup? slot = .ok (memory, entry)) (hd : memory.device = .flash d) (ha : entry.location = .flash address)
    (hstart : (address - (s.flash d).geometry.base) % (s.flash d).geometry.granule = 0)
    (hsize : entry.size % (s.flash d).geometry.granule = 0) (hbelow : (s.flash d).geometry.stop < UInt32.size)
    (hable : (s.flashLink d).Able) (change : Change)
    (hasked : ¬(s.flashLink d).Unasked (((change.act slot).after s).flashLink d)) :
    ((∃ t, change.act slot s = .ok () t) ↔ (s.flash d).busySpan ≤ Flash.pollLimit) ∧
      (∀ t, change.act slot s = .ok () t →
        ∃ count, FlashLink.Serves change.point count (s.flashLink d) (t.flashLink d)) ∧
      (Flash.pollLimit < (s.flash d).busySpan →
        ∃ t after, change.act slot s = .error (.error .driverFailure) t ∧ change.First s d address after ∧
          t.flash d = { after with
            busyRest := after.busyRest - (Flash.pollLimit + 1), initialized := false, releases := after.releases + 1 } ∧
          t.pending = 0 ∧
          (t.flashLink d).calls.of change.point = (s.flashLink d).calls.of change.point + 1 ∧
          (t.flashLink d).calls.poll = (s.flashLink d).calls.poll + (Flash.pollLimit + 1)) := by
  have hfounded := hs.founded
  have hpaused := hfounded.upheld.paused
  have h : OnGranules s slot memory entry d address :=
    ⟨hfounded.fits, hl, hd, ha, granular_of_flash hd ha hstart hsize, hbelow⟩
  rcases Nat.lt_or_ge Flash.pollLimit (s.flash d).busySpan with hspan | hspan
  · obtain ⟨cause, t, hact, hgave⟩ := (h.change_of_slow hpaused hable hspan change hasked).exists_error
    obtain ⟨hcalls, hpolls⟩ :=
      hgave.calls (change.point_ne (by decide) (by decide)) (change.point_ne (by decide) (by decide))
    obtain ⟨rfl, after, hfirst, hlink, hpending⟩ := hgave
    refine ⟨⟨?_, fun hle => absurd hspan (Nat.not_lt.mpr hle)⟩, ?_,
      fun _ => ⟨t, after, hact, hfirst, ?_, hpending, hcalls, hpolls⟩⟩
    · rintro ⟨u, hdone⟩
      cases hact.symm.trans hdone
    · intro u hdone
      cases hact.symm.trans hdone
    · rw [flash, hlink, FlashLink.switchedOff_device, FlashLink.givenUp_device]
  · obtain ⟨⟨⟩, t, hact, hserved⟩ := (h.change_of_prompt hpaused hable hspan change hasked).exists_ok
    refine ⟨⟨fun _ => hspan, fun _ => ⟨t, hact⟩⟩, ?_, fun hlt => absurd hspan (Nat.not_le.mpr hlt)⟩
    intro u hdone
    cases hact.symm.trans hdone
    exact hserved

/-- Two sectors are to be erased. At the limit both of them are. With one poll more only the first one is, and the
device is off. -/
theorem sample_done_unless_too_busy :
    let entry : Slot := ⟨⟨.flash 0, 256⟩, .theApplication, 0⟩
    let storage (span : Nat) : Storage 1 0 :=
      { devices := Sample.alone { Flash.blank Sample.geometry span with initialized := true }
        memories := [⟨.primary, .flash 0, [entry]⟩] }
    let change := Change.erase 0 256
    (∃ t, change.act ⟨0, 0⟩ (storage Flash.pollLimit) = .ok () t) ∧
      ∃ t, change.act ⟨0, 0⟩ (storage (Flash.pollLimit + 1)) = .error (.error .driverFailure) t ∧
        (t.flash 0).erases = [(0, 128)] ∧ (t.flash 0).initialized = false ∧ t.pending = 0 := by
  intro entry storage change
  let memory : Memory 1 0 := ⟨.primary, .flash 0, [entry]⟩
  have halike : ∀ span, (Sample.alone (.blank Sample.geometry)).Alike (storage span).devices := by
    intro span
    constructor
    · intro device
      rw [Subsingleton.elim device 0]
      rfl
    · rintro (device | device)
      · rw [Subsingleton.elim device 0]
        rfl
      · exact device.elim0
  have hregister : Memory.register (Sample.alone (.blank Sample.geometry)) 0
      ⟨.primary, .flash, [⟨.flash 0, 256⟩], by decide⟩ (.flash 0) {} = .ok memory := by rfl
  have hreachable : ∀ span, Reachable (storage span).devices (storage span) := fun span =>
    Reachable.new.added ⟨0, _, .flash 0, {}, (Memory.register_alike (halike span) _).trans hregister⟩ rfl
  have hlookup : ∀ span, (storage span).lookup? ⟨0, 0⟩ = .ok (memory, entry) := fun _ => rfl
  have hable : ∀ span, ((storage span).flashLink 0).Able := fun _ => ⟨rfl, fun _ _ => rfl, rfl⟩
  have hstart : ∀ span, (0 - ((storage span).flash 0).geometry.base) % ((storage span).flash 0).geometry.granule = 0 :=
    fun _ => show (0 - Sample.geometry.base) % Sample.geometry.granule = 0 by decide
  have hsize : ∀ span, entry.size % ((storage span).flash 0).geometry.granule = 0 :=
    fun _ => show 256 % Sample.geometry.granule = 0 by decide
  have hbelow : ∀ span, ((storage span).flash 0).geometry.stop < UInt32.size :=
    fun _ => show Sample.geometry.stop < UInt32.size by decide
  have hasked : ∀ span,
      ¬((storage span).flashLink 0).Unasked (((change.act ⟨0, 0⟩).after (storage span)).flashLink 0) := fun span =>
    OnGranules.erase_asks
      ⟨(hreachable span).founded.fits, hlookup span, rfl, rfl, granular_of_flash rfl rfl (hstart span) (hsize span),
        hbelow span⟩ (hable span) (by decide) (by decide) (Nat.zero_mod _)
  have hthen := fun span => done_unless_too_busy (hreachable span) (hlookup span) rfl rfl (hstart span)
    (hsize span) (hbelow span) (hable span) change (hasked span)
  refine ⟨(hthen _).1.mpr (Nat.le_refl _), ?_⟩
  obtain ⟨t, after, hfailed, hfirst, hflash, hpending, -, -⟩ := (hthen (Flash.pollLimit + 1)).2.2 (Nat.lt_succ_self _)
  refine ⟨t, hfailed, ?_, ?_, hpending⟩
  · rw [hflash]
    exact hfirst.erases
  · rw [hflash]

end Storage
end FirmwareUpdate
