import FirmwareUpdate.Proofs.Storage.Cleanup
import FirmwareUpdate.Proofs.Storage.OpenFiles
import FirmwareUpdate.Proofs.Storage.Positions
import FirmwareUpdate.Proofs.Storage.Records

/-! The buffer from one request to the next, in whatever way each of them ends and also where memories share a device.
What is pending is part of a granule of some slot. Once a run is under way only a call that fails, or a slot that is
not made up of whole granules, keeps it from going on. -/
namespace FirmwareUpdate.Storage
variable {n k : Nat} {α : Type} {s₀ s t u : Storage n k} {memory : Memory n k} {entry : Slot} {slot : SlotId}
  {offset length : Nat} {data : Bytes} {mode : WriteMode}

/-! ### Calls that fail -/

/-- Some call has failed. -/
def Erred (s t : Storage n k) : Prop := ∃ device, (s.errorsOn device).length < (t.errorsOn device).length

/-- Settling a memory calls its device, and forgets none of its errors. -/
theorem settle_errors {index : Nat} (h : (settle index : Op n k Unit) s = .ok () t) (device : DeviceId n k) :
    (s.errorsOn device).length ≤ (t.errorsOn device).length := by
  have htended : Tended (Linked s.memories (fun d l => (s.flashLink d).errors.length ≤ l.errors.length)
      (fun d l => (s.fileLink d).errors.length ≤ l.errors.length)) True :=
    tended_of_links (fun _ => Link.indifferent_errors) fun _ => Link.indifferent_errors
  have hlinked := (htended.settle index s ⟨rfl, fun _ => Nat.le_refl _, fun _ => Nat.le_refl _⟩).done_of_ok h
  cases device with
  | flash d => exact hlinked.flash d
  | files d => exact hlinked.store d

/-- A device that has been given up leaves an error, which settling its memory does not take away. -/
theorem Struck.erred {device : DeviceId n k} {error : DeviceError} {index : Nat} (h : s.Struck device error u)
    (hsettle : (settle index : Op n k Unit) u = .ok () t) : s.Erred t := by
  refine ⟨device, Nat.lt_of_lt_of_le ?_ (settle_errors hsettle device)⟩
  rw [h.errors]
  exact Nat.lt_succ_self _

/-! ### Between requests -/

/-- What is pending is less than a granule. If there is any of it, it is part of a granule of a slot. -/
structure Paused (s : Storage n k) : Prop where
  short : s.pending < s.buffer.granule
  waiting : s.pending ≠ 0 → ∃ memory entry, s.lookup? s.buffer.target = .ok (memory, entry) ∧
    s.buffer.granule = s.devices.granule memory.device ∧ s.buffer.offset % s.buffer.granule = 0 ∧
    s.buffer.next ≤ entry.size

private theorem paused_of_empty (hempty : s.buffer.bytes = []) (hpos : 0 < s.buffer.granule) : s.Paused := by
  have hnone : s.pending = 0 := congrArg List.length hempty
  exact ⟨hnone ▸ hpos, fun hne => absurd hnone hne⟩

/-- While the buffer stays as it is or is dropped, a storage stays between requests. -/
theorem Paused.congr (h : s.Paused) (hsetup : s.SameSetup t)
    (hb : t.buffer = s.buffer ∨ t.buffer = s.buffer.dropPending) : t.Paused := by
  obtain hsame | hdropped := hb
  · have hpending : t.pending = s.pending := congrArg (·.bytes.length) hsame
    refine ⟨?_, fun hne => ?_⟩
    · rw [hpending, hsame]
      exact h.short
    · obtain ⟨memory, entry, hl, hgranule, hrest⟩ := h.waiting (hpending ▸ hne)
      rw [hsame]
      exact ⟨memory, entry, (hsetup.lookup? _).trans hl, hgranule.trans (hsetup.deviceGranule _).symm, hrest⟩
  · have hpos : 0 < s.buffer.granule := Nat.lt_of_le_of_lt (Nat.zero_le _) h.short
    refine paused_of_empty ?_ ?_ <;> rw [hdropped]
    · rfl
    · exact hpos

/-- The setup is that of `s₀`, and the buffer is between requests. -/
structure Upheld (s₀ s : Storage n k) : Prop where
  setup : s₀.SameSetup s
  paused : s.Paused

/-- Calls on flash leave the buffer alone. -/
theorem onFlash_buffer {d : Fin n} {call : FlashLink.Call α} {b : GranuleBuffer} :
    Action.Preserves (fun s : Storage n k => s.buffer = b) True (onFlash d call) := fun _ hs =>
  onFlash_ends.mpr (Action.ends_of_all (fun _ _ => hs) (fun _ _ => hs) trivial)

/-- Calls on a store leave the buffer alone. -/
theorem onStore_buffer {d : Fin k} {call : FileLink.Call α} {b : GranuleBuffer} :
    Action.Preserves (fun s : Storage n k => s.buffer = b) True (onStore d call) := fun _ hs =>
  onStore_ends.mpr (Action.ends_of_all (fun _ _ => hs) (fun _ _ => hs) trivial)

private theorem upheld_of_setup {act : Call n k α} (h : ∀ s : Storage n k, Action.Preserves s.SameSetup True act)
    (hbuffer : ∀ b, Action.Preserves (fun s : Storage n k => s.buffer = b) True act) :
    Action.Preserves s₀.Upheld True act := by
  intro s hs
  have hthen : ∀ t, s.SameSetup t → t.buffer = s.buffer → s₀.Upheld t := fun t ht hb =>
    ⟨hs.setup.trans ht, hs.paused.congr ht (Or.inl hb)⟩
  exact ((h s s (.refl s)).and (hbuffer _ s rfl)).imp (fun _ t ht => hthen t ht.1 ht.2)
    (fun _ t ht => hthen t ht.1 ht.2) fun _ => trivial

private theorem tended_upheld : Tended s₀.Upheld True where
  aside s t hs hd hm hb := by
    have htended : Tended s.SameSetup True := tended_setup
    have hsame := htended.aside s t (.refl s) hd hm hb
    exact ⟨hs.setup.trans hsame, hs.paused.congr hsame hb⟩
  initFlash d := upheld_of_setup (fun _ => tended_setup.initFlash d) fun _ => onFlash_buffer
  readFlash d start length := upheld_of_setup (fun _ => tended_setup.readFlash d start length) fun _ => onFlash_buffer
  releaseFlash d := upheld_of_setup (fun _ => tended_setup.releaseFlash d) fun _ => onFlash_buffer
  initStore d := upheld_of_setup (fun _ => tended_setup.initStore d) fun _ => onStore_buffer
  openFile d path mode := upheld_of_setup (fun _ => tended_setup.openFile d path mode) fun _ => onStore_buffer
  readFile d handle offset length :=
    upheld_of_setup (fun _ => tended_setup.readFile d handle offset length) fun _ => onStore_buffer
  closeFile d handle := upheld_of_setup (fun _ => tended_setup.closeFile d handle) fun _ => onStore_buffer
  releaseStore d := upheld_of_setup (fun _ => tended_setup.releaseStore d) fun _ => onStore_buffer

private theorem erase_upheld : Action.Preserves s₀.Upheld True (erase slot offset length : Op n k Unit) := by
  refine erase_of_calls (by intros; trivial) (fun d count start => ?_) ?_
  · refine tended_upheld.guarding (upheld_of_setup (fun _ => ?_) fun _ => onFlash_buffer)
    exact onFlash_preserves (FlashLink.eraseFrom_preserves (fun _ => trivial) _ _)
  · intro s memory entry d path hs hl hd hp
    refine tended_upheld.guarding (.bind tended_upheld.handleFor fun handle => ?_)
    refine upheld_of_setup (fun _ => ?_) fun _ => onStore_buffer
    exact onStore_preserves (Link.call_preserves FileStore.erase_preserves)

/-! ### A run that is under way -/

/-- Since `s₀` no call has failed, and the buffer stands on a granule of the slot. -/
structure Aimed (s₀ : Storage n k) (slot : SlotId) (memory : Memory n k) (s : Storage n k) : Prop where
  setup : s₀.SameSetup s
  calm : s₀.Calm s
  target : s.buffer.target = slot
  granule : s.buffer.granule = s₀.devices.granule memory.device
  aligned : s.buffer.offset % s.buffer.granule = 0

/-- There is room in the buffer, and it stands inside the slot. -/
structure Underway (s₀ : Storage n k) (slot : SlotId) (memory : Memory n k) (entry : Slot) (s : Storage n k) : Prop
    extends Aimed s₀ slot memory s where
  short : s.pending < s.buffer.granule
  inside : s.buffer.next ≤ entry.size

/-- The run has come to its end before its time, and nothing is pending any more. In a slot of whole granules this is
because a call has failed. -/
structure Lost (s₀ : Storage n k) (memory : Memory n k) (entry : Slot) (t : Storage n k) : Prop where
  setup : s₀.SameSetup t
  dropped : t.buffer.bytes = []
  granule_pos : 0 < t.buffer.granule
  erred : entry.size % s₀.devices.granule memory.device = 0 → s₀.Erred t

/-- A buffer that has only moved on along its slot aims where it did. -/
theorem Aimed.withBuffer {b : GranuleBuffer} (h : Aimed s₀ slot memory s) (htarget : b.target = s.buffer.target)
    (hgranule : b.granule = s.buffer.granule) (haligned : b.offset % s.buffer.granule = 0) :
    Aimed s₀ slot memory { s with buffer := b } :=
  ⟨⟨h.setup.memories, h.setup.geometry, h.setup.granule, h.setup.schedule⟩, h.calm.of_devices rfl rfl,
    htarget.trans h.target, hgranule.trans h.granule, hgranule ▸ haligned⟩

/-- Only in a slot that is not made up of whole granules is one cut short. -/
theorem Aimed.inside (h : Aimed s₀ slot memory s) (hwhole : entry.size % s₀.devices.granule memory.device = 0)
    (hlt : s.buffer.offset < entry.size) : s.buffer.offset + s.buffer.granule ≤ entry.size := by
  rw [← h.granule] at hwhole
  have hrest : s.buffer.granule ∣ entry.size - s.buffer.offset :=
    Nat.dvd_sub (Nat.dvd_of_mod_eq_zero hwhole) (Nat.dvd_of_mod_eq_zero h.aligned)
  have hle := Nat.le_of_dvd (Nat.sub_pos_of_lt hlt) hrest
  omega

private theorem Underway.paused (h : Underway s₀ slot memory entry s) (hl : s₀.lookup? slot = .ok (memory, entry)) :
    s.Paused := by
  refine ⟨h.short, fun _ => ⟨memory, entry, ?_, ?_, h.aligned, h.inside⟩⟩
  · rw [h.target, h.setup.lookup?, hl]
  · rw [h.granule, h.setup.deviceGranule]

/-- A partial granule fills up where it stands. -/
theorem Underway.padded (h : Underway s₀ slot memory entry s) (hwaiting : s.buffer.isWaiting = true) :
    Aimed s₀ slot memory { s with buffer := s.buffer.padded } ∧
      s.buffer.padded.bytes.length = s.buffer.granule ∧ s.buffer.offset < entry.size := by
  have hsome : s.buffer.bytes.length ≠ 0 := of_decide_eq_true hwaiting
  have hshort : s.buffer.bytes.length < s.buffer.granule := h.short
  have hinside : s.buffer.offset + s.buffer.bytes.length ≤ entry.size := h.inside
  refine ⟨h.withBuffer rfl rfl h.aligned, ?_, by omega⟩
  show (s.buffer.bytes ++ List.replicate (s.buffer.granule - s.buffer.bytes.length) 0).length = s.buffer.granule
  rw [List.length_append, List.length_replicate]
  omega

section Run
variable (hfits : s₀.Fits) (hl : s₀.lookup? slot = .ok (memory, entry))
include hfits hl

private theorem guarding_aimed {calls : Call n k Unit} (h : Aimed s₀ slot memory s)
    (hreports : Action.Reports s₀.Calm (s₀.Struck memory.device) calls)
    (hsetup : Action.Preserves s₀.SameSetup False calls) (hstands : ∀ b, Action.Preserves (Stands s₀ b) True calls)
    (hbuffer : ∀ b, Action.Preserves (fun s : Storage n k => s.buffer = b) True calls) :
    (guarding slot.memory calls).Ends s (fun _ t => Aimed s₀ slot memory t ∧ t.buffer = s.buffer)
      (fun _ t => Lost s₀ memory entry t) False := by
  have hsettles := (guarding_settles (getElem?_of_lookup? hl).1 hreports).ends h.calm
  have hstays : (guarding slot.memory calls).Yields s (fun _ t => t.buffer = s.buffer) :=
    guarding_yields (hbuffer _ s rfl).yields
  have hstood := (tended_stands.guarding (hstands s.buffer.dropPending) s (.refl h.setup.memories)).and_yields hstays
  refine (hsettles.and ((tended_setup.guarding hsetup s h.setup).and hstood)).imp ?_ ?_ fun htrap => htrap.2.1
  · rintro _ t ⟨hcalm, hsetup, -, hsame⟩
    refine ⟨⟨hsetup, hcalm, ?_, ?_, ?_⟩, hsame⟩ <;> rw [hsame]
    · exact h.target
    · exact h.granule
    · exact h.aligned
  · rintro _ t ⟨⟨error, u, -, hstruck, hsettle, hsettled⟩, hsetup, hstood⟩
    obtain ⟨-, -, hgranule, -⟩ := GranuleBuffer.mk.inj hstood.buffer
    refine ⟨hsetup, hsettled.dropped, ?_, fun _ => hstruck.erred hsettle⟩
    rw [hgranule, h.granule]
    exact hfits.granule_pos _ _ _ hl

omit hfits hl in
private theorem advance_goes {act : Op n k Unit} (hpos : 0 < s.buffer.granule)
    (hin : s.buffer.offset + s.buffer.granule ≤ entry.size) (hfull : s.pending = s.buffer.granule)
    (h : act.Ends s (fun _ t => Aimed s₀ slot memory t ∧ t.buffer = s.buffer) (fun _ t => Lost s₀ memory entry t)
      False) :
    (act >>= fun _ => modify fun s => { s with buffer := s.buffer.advanced }).Ends s
      (fun _ t => Underway s₀ slot memory entry t ∧ t.buffer.next = s.buffer.next)
      (fun _ t => Lost s₀ memory entry t) False := by
  -- A granule that has been written out makes room for the next one.
  refine h.bind ?_ (fun _ _ h => h) id
  rintro _ t ⟨haimed, hsame⟩
  have hadvanced : t.buffer.advanced.next = s.buffer.next := by
    rw [hsame]
    show s.buffer.offset + s.buffer.granule + 0 = s.buffer.offset + s.pending
    rw [hfull, Nat.add_zero]
  refine ⟨⟨haimed.withBuffer rfl rfl ?_, ?_, ?_⟩, hadvanced⟩
  · show (t.buffer.offset + t.buffer.granule) % t.buffer.granule = 0
    rw [Nat.add_mod_right, haimed.aligned]
  · show 0 < t.buffer.granule
    rwa [hsame]
  · show t.buffer.advanced.next ≤ entry.size
    rw [hadvanced]
    show s.buffer.offset + s.pending ≤ entry.size
    rwa [hfull]

private theorem writeOut_goes (h : Aimed s₀ slot memory s) (hfull : s.pending = s.buffer.granule)
    (hinside : s.buffer.offset < entry.size) :
    writeOut.Ends s (fun _ t => Underway s₀ slot memory entry t ∧ t.buffer.next = s.buffer.next)
      (fun _ t => Lost s₀ memory entry t) False := by
  have hl' : s.lookup? s.buffer.target = .ok (memory, entry) := by rw [h.target, h.setup.lookup?, hl]
  have hpos : 0 < s.buffer.granule := h.granule ▸ hfits.granule_pos _ _ _ hl
  simp only [writeOut]
  rw [Action.ends_get_bind, ends_lookup_bind hl']
  by_cases hcut : entry.size < s.buffer.offset + s.buffer.granule
  · simp only [if_pos hcut, dropPending, Action.ends_modify_bind, Action.ends_fail]
    refine ⟨⟨h.setup.memories, h.setup.geometry, h.setup.granule, h.setup.schedule⟩, rfl, hpos, fun hwhole => ?_⟩
    exact absurd hcut (Nat.not_lt.mpr (h.inside hwhole hinside))
  · have hin : s.buffer.offset + s.buffer.granule ≤ entry.size := Nat.not_lt.mp hcut
    simp only [if_neg hcut]
    rw [h.target]
    rcases hfits.location hl with ⟨d, address, hd, ha⟩ | ⟨d, path, hd, hp⟩
    · have hreach := hfits.reach (.refl s₀) hl hd ha
      have hstop : (s₀.flash d).geometry.stop ≤ UInt32.size := (s₀.flash d).geometry.stop_le
      have hgranule : 0 < (s₀.flash d).geometry.granule := by
        have hgranule := hfits.granule_pos _ _ _ hl
        rwa [hd] at hgranule
      simp only [hd, ha]
      refine Action.word_bind (fun hword => by omega) (advance_goes hpos hin hfull ?_)
      refine guarding_aimed hfits hl h (hd ▸ writeFlash_reports) (onFlash_preserves ?_) (fun _ => onFlash_stands)
        fun _ => onFlash_buffer
      exact .bind (Link.call_preserves (Flash.write_preserves hgranule)) fun _ => FlashLink.awaitReady_preserves
    · simp only [hd, hp]
      refine advance_goes hpos hin hfull (guarding_aimed hfits hl h (hd ▸ writeFile_reports) ?_ ?_ ?_)
      · refine .bind tended_setup.handleFor fun handle => ?_
        exact onStore_preserves (Link.call_preserves FileStore.write_preserves)
      · exact fun _ => .bind tended_stands.handleFor fun handle => onStore_stands
      · refine fun _ => .bind
          (handleFor_of_calls (fun _ _ hs => hs) onStore_buffer fun _ => onStore_buffer) fun handle => ?_
        exact onStore_buffer

/-- One byte more goes to the run under way, while there is room for it in the slot. -/
theorem pushByte_goes {byte : UInt8} (h : Underway s₀ slot memory entry s) (hroom : s.buffer.next < entry.size) :
    (pushByte byte).Ends s (fun _ t => Underway s₀ slot memory entry t ∧ t.buffer.next = s.buffer.next + 1)
      (fun _ t => Lost s₀ memory entry t) False := by
  have hlength : (s.buffer.push byte).bytes.length = s.buffer.bytes.length + 1 := List.length_append
  have hnext : (s.buffer.push byte).next = s.buffer.next + 1 := by
    rw [GranuleBuffer.next, hlength]
    rfl
  have hpushed : Aimed s₀ slot memory { s with buffer := s.buffer.push byte } := h.withBuffer rfl rfl h.aligned
  simp only [pushByte]
  simp only [Action.ends_modify_bind, Action.ends_get_bind]
  split
  · rename_i hcomplete
    have hbefore : s.buffer.offset ≤ s.buffer.next := Nat.le_add_right _ _
    refine (writeOut_goes hfits hl hpushed (of_decide_eq_true hcomplete) (Nat.lt_of_le_of_lt hbefore hroom)).imp ?_
      (fun _ _ h => h) id
    exact fun _ t ht => ⟨ht.1, ht.2.trans hnext⟩
  · rename_i hpartial
    have hne : (s.buffer.push byte).bytes.length ≠ s.buffer.granule :=
      fun hfull => hpartial (decide_eq_true hfull)
    have hshort : s.buffer.bytes.length < s.buffer.granule := h.short
    refine ⟨⟨hpushed, ?_, ?_⟩, hnext⟩
    · show (s.buffer.push byte).bytes.length < s.buffer.granule
      omega
    · show (s.buffer.push byte).next ≤ entry.size
      omega

private theorem pushBytes_goes (bytes : Bytes) (h : Underway s₀ slot memory entry s)
    (hroom : s.buffer.next + bytes.length ≤ entry.size) :
    (pushBytes bytes).Ends s
      (fun _ t => Underway s₀ slot memory entry t ∧ t.buffer.next = s.buffer.next + bytes.length)
      (fun _ t => Lost s₀ memory entry t) False := by
  induction bytes generalizing s with
  | nil => exact ⟨h, rfl⟩
  | cons byte rest ih =>
    rw [List.length_cons] at hroom
    refine (pushByte_goes hfits hl h (by omega)).bind ?_ (fun _ _ h => h) id
    rintro _ t ⟨ht, hnext⟩
    refine (ih ht (by omega)).imp (fun _ u hu => ⟨hu.1, ?_⟩) (fun _ _ h => h) id
    rw [hu.2, hnext, List.length_cons]
    omega

private theorem forceOut_goes (h : Underway s₀ slot memory entry s) :
    forceOut.Ends s (fun _ t => Underway s₀ slot memory entry t) (fun _ t => Lost s₀ memory entry t) False := by
  simp only [forceOut]
  rw [Action.ends_get_bind]
  split
  · rename_i hwaiting
    obtain ⟨hpadded, hfull, hinside⟩ := h.padded hwaiting
    rw [Action.ends_modify_bind]
    exact (writeOut_goes hfits hl hpadded hfull hinside).imp (fun _ _ h => h.1) (fun _ _ h => h) id
  · exact h

private theorem fill_ends (h : Underway s₀ slot memory entry s) (hnext : s.buffer.next = offset)
    (hin : offset + data.length ≤ entry.size) :
    (do
      pushBytes data
      match mode with
      | .buffered => pure ()
      | .force => forceOut : Op n k Unit).Ends s
      (fun _ t => Underway s₀ slot memory entry t ∧ (mode = .buffered → t.buffer.next = offset + data.length))
      (fun _ t => Lost s₀ memory entry t) False := by
  refine (pushBytes_goes hfits hl data h (hnext ▸ hin)).bind ?_ (fun _ _ h => h) id
  rintro _ t ⟨ht, hreached⟩
  rw [hnext] at hreached
  cases mode with
  | buffered => exact ⟨ht, fun _ => hreached⟩
  | force => exact (forceOut_goes hfits hl ht).imp (fun _ _ h => ⟨h, nofun⟩) (fun _ _ h => h) id

/-- Between requests a run is started, or goes on where it has come to. What is refused is no part of it. -/
theorem continueRun_goes (h : s.Paused) (hs : s₀.SameSetup s) (hcalm : s₀.Calm s) (hle : offset ≤ entry.size) :
    (continueRun slot memory offset).Ends s (fun _ t => Underway s₀ slot memory entry t ∧ t.buffer.next = offset)
      (fun _ t => t = s ∧ (Underway s₀ slot memory entry s → s.buffer.next ≠ offset)) False := by
  have hgranule := hs.deviceGranule memory.device
  simp only [continueRun]
  rw [Action.ends_get_bind]
  split
  · rename_i hwaiting
    split
    · rename_i hgoes
      obtain ⟨memory', entry', hl', hwhole, haligned, hinside⟩ := h.waiting (of_decide_eq_true hwaiting)
      rw [hgoes.1, hs.lookup?, hl] at hl'
      cases hl'
      exact ⟨⟨⟨hs, hcalm, hgoes.1, hwhole.trans hgranule, haligned⟩, h.short, hinside⟩, hgoes.2⟩
    · rename_i hother
      exact ⟨rfl, fun hrun hnext => hother ⟨hrun.target, hnext⟩⟩
  · rename_i hidle
    by_cases hstart : offset % s.devices.granule memory.device = 0
    · simp only [if_pos hstart, Action.ends_set]
      refine ⟨⟨⟨?_, hcalm.of_devices rfl rfl, rfl, hgranule, hstart⟩, ?_, hle⟩, rfl⟩
      · exact ⟨hs.memories, hs.geometry, hs.granule, hs.schedule⟩
      · show 0 < s.devices.granule memory.device
        rw [hgranule]
        exact hfits.granule_pos _ _ _ hl
    · simp only [if_neg hstart, Action.ends_fail]
      refine ⟨trivial, fun hrun hnext => hstart ?_⟩
      -- Nothing is pending, so the run has come to a granule.
      have hempty : s.buffer.bytes.length = 0 := by simpa [GranuleBuffer.isWaiting] using hidle
      rw [hgranule, ← hrun.granule, ← hnext, GranuleBuffer.next, hempty, Nat.add_zero]
      exact hrun.aligned

/-- A write between requests is refused at once, or a run is under way from then on. -/
theorem Paused.write_ends (h : s.Paused) (hs : s₀.SameSetup s) (hcalm : s₀.Calm s) :
    (write slot offset data mode).Ends s
      (fun _ t => Underway s₀ slot memory entry t ∧ (mode = .buffered → t.buffer.next = offset + data.length))
      (fun _ t =>
        t = s ∧ (Underway s₀ slot memory entry s → s.buffer.next = offset → entry.size < offset + data.length) ∨
          Lost s₀ memory entry t) False := by
  simp only [write]
  rw [ends_lookup_bind ((hs.lookup? slot).trans hl)]
  simp only [requireInside]
  by_cases hin : offset + data.length ≤ entry.size
  · simp only [if_pos hin, Action.ends_pure_bind]
    refine (continueRun_goes hfits hl h hs hcalm (Nat.le_trans (Nat.le_add_right _ _) hin)).bind ?_ ?_ id
    · rintro _ t ⟨ht, hreached⟩
      exact (fill_ends hfits hl ht hreached hin).imp (fun _ _ h => h) (fun _ _ h => Or.inr h) id
    · exact fun _ t ht => Or.inl ⟨ht.1, fun hrun hnext => absurd hnext (ht.2 hrun)⟩
  · simp only [if_neg hin]
    exact Or.inl ⟨rfl, fun _ _ => Nat.not_le.mp hin⟩

/-- A write that goes on with the run that is under way is taken, unless the run is lost on the way. -/
theorem Underway.write_ends (h : Underway s₀ slot memory entry s) (hnext : s.buffer.next = offset)
    (hin : offset + data.length ≤ entry.size) :
    (write slot offset data mode).Ends s
      (fun _ t => Underway s₀ slot memory entry t ∧ (mode = .buffered → t.buffer.next = offset + data.length))
      (fun _ t => Lost s₀ memory entry t) False := by
  refine ((h.paused hl).write_ends hfits hl h.setup h.calm).imp (fun _ _ h => h) ?_ id
  rintro _ t (⟨-, hout⟩ | hlost)
  · exact absurd hin (Nat.not_le.mpr (hout h hnext))
  · exact hlost

end Run

private theorem write_upheld (hfits : s₀.Fits) :
    Action.Preserves s₀.Upheld True (write slot offset data mode : Op n k Unit) := by
  refine fun s hs => ends_of_lookup (fun _ => hs) fun memory entry hl => ?_
  refine (hs.paused.write_ends (hfits.congr hs.setup) hl (.refl s) (.refl s)).imp ?_ ?_ False.elim
  · exact fun _ t ht => ⟨hs.setup.trans ht.1.setup, ht.1.paused hl⟩
  · rintro _ t (⟨rfl, -⟩ | hlost)
    · exact hs
    · exact ⟨hs.setup.trans hlost.setup, paused_of_empty hlost.dropped hlost.granule_pos⟩

private theorem Fits.paused_upkeep (h : s₀.Fits) : Upkeep s₀ s₀.Upheld (fun _ => True) True where
  memories _ hs := hs.setup.memories
  reach := h.upkeep.reach
  read _ _ _ := tended_upheld.read fun _ _ _ _ _ _ _ _ _ _ _ => trivial
  write _ _ _ _ _ := write_upheld h
  erase _ _ _ _ := erase_upheld
  dropPending := tended_upheld.dropPending
  settle _ := tended_upheld.settle _
  init := tended_upheld.init
  closeFiles := tended_upheld.closeFiles
  release := tended_upheld.release

/-! ### The states of a storage -/

/-- What a storage on `devices` can come to. It starts without a memory. Memories that have been registered are added
to it, any number of them on one device, and things are asked of it, of which those that trap never come to an end. -/
inductive Reachable (devices : Devices n k) : Storage n k → Prop where
  | new : Reachable devices { devices }
  | added {s t : Storage n k} {memory : Memory n k} (h : Reachable devices s)
    (hregistered : ∃ index plan device policy, Memory.register devices index plan device policy = .ok memory)
    (hadd : s.addMemory memory = .ok t) : Reachable devices t
  | asked {s t : Storage n k} (request : Request) (h : Reachable devices s) (hleaves : request.act.Leaves s t) :
    Reachable devices t

/-- The memories have been checked against the devices, and the buffer is between requests. -/
structure Founded (devices : Devices n k) (s : Storage n k) : Prop where
  registered : ∀ memory ∈ s.memories, ∃ index plan device policy,
    Memory.register devices index plan device policy = .ok memory
  upheld : ({ devices, memories := s.memories } : Storage n k).Upheld s

/-- A storage that has been founded fits its devices. -/
theorem Founded.fits {devices : Devices n k} (h : Founded devices s) : s.Fits := by
  refine Fits.congr (fits_of_checked fun memory hmem => ?_) h.upheld.setup
  obtain ⟨index, plan, device, policy, hregister⟩ := h.registered memory hmem
  exact checked_of_register hregister

private theorem Paused.added (h : s.Paused) : { s with memories := s.memories ++ [memory] }.Paused := by
  refine ⟨h.short, fun hne => ?_⟩
  obtain ⟨memory', entry, hl, hrest⟩ := h.waiting hne
  obtain ⟨hm, he⟩ := getElem?_of_lookup? hl
  refine ⟨memory', entry, ?_, hrest⟩
  have hm' : (s.memories ++ [memory])[s.buffer.target.memory]? = some memory' := by
    rw [List.getElem?_append_left (List.getElem?_eq_some_iff.mp hm).1]
    exact hm
  simp only [lookup?, hm', he]

/-- A storage that can be reached has been founded. -/
theorem Reachable.founded {devices : Devices n k} (h : Reachable devices s) : Founded devices s := by
  induction h with
  | new => exact ⟨nofun, .refl _, paused_of_empty rfl Nat.one_pos⟩
  | added h hregistered hadd ih =>
    obtain rfl := addMemory_ok hadd
    obtain ⟨hsetup, hpaused⟩ := ih.upheld
    refine ⟨fun memory' hmem => ?_, ⟨rfl, hsetup.geometry, hsetup.granule, hsetup.schedule⟩, hpaused.added⟩
    rcases List.mem_append.mp hmem with hmem | hmem
    · exact ih.registered memory' hmem
    · exact List.mem_singleton.mp hmem ▸ hregistered
  | asked request h hleaves ih =>
    rename_i s t
    have hthen := (ih.fits.paused_upkeep.request request fun _ _ => trivial).leaves ⟨.refl s, ih.upheld.paused⟩ hleaves
    have hsame : t.memories = s.memories := hthen.setup.memories
    refine ⟨hsame ▸ ih.registered, hsame ▸ ih.upheld.setup.trans hthen.setup, hthen.paused⟩

end FirmwareUpdate.Storage
