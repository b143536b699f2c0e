import FirmwareUpdate.Proofs.Device.Resting
import FirmwareUpdate.Proofs.Storage.Settling
import FirmwareUpdate.Proofs.Storage.Upkeep
import FirmwareUpdate.Proofs.Update.Assembly

/-! What a storage does when a call on one of its devices fails. The memory of that device is settled, and nothing
else is; a flash device that has been switched off then serves no call for its bytes until it is initialized. -/
namespace FirmwareUpdate.Storage
variable {n k : Nat} {ε α : Type} {s t u : Storage n k} {memory : Memory n k} {entry : Slot} {slot : SlotId}
  {offset length index : Nat} {error : DeviceError}

/-- What the calls on a device that failed came to, the latest first. -/
def errorsOn (s : Storage n k) : DeviceId n k → List DeviceError
  | .flash device => (s.flashLink device).errors
  | .files device => (s.fileLink device).errors

/-- The device and all that is known of its calls are the same in both states. -/
def SameLink (s t : Storage n k) : DeviceId n k → Prop
  | .flash device => t.flashLink device = s.flashLink device
  | .files device => t.fileLink device = s.fileLink device

/-- A call on the device has failed on the way from `s` to `t`. A poll that failed counts unless it was passed over. -/
def FailedOn (s t : Storage n k) : DeviceId n k → Prop
  | .flash device => (s.flashLink device).Failed (t.flashLink device)
  | .files device => (t.fileLink device).errors ≠ (s.fileLink device).errors

/-- Every flash device that has been off is off, and its bytes are what they were. -/
def Rests (s t : Storage n k) : Prop := ∀ d, (s.flashLink d).Rests (t.flashLink d)

/-- No call on a device has failed, but for polls that were passed over. -/
structure Calm (s t : Storage n k) : Prop where
  memories : t.memories = s.memories
  flash : ∀ d, (s.flashLink d).Calm (t.flashLink d)
  store : ∀ d, (t.fileLink d).errors = (s.fileLink d).errors

/-- A device has been given up with this error, the only one, and no call has failed on any other. -/
structure Struck (s : Storage n k) (device : DeviceId n k) (error : DeviceError) (t : Storage n k) : Prop where
  memories : t.memories = s.memories
  errors : t.errorsOn device = error :: s.errorsOn device
  others : ∀ other, other ≠ device → ¬s.FailedOn t other
  releases : ∀ d, (t.flashLink d).calls.release = (s.flashLink d).calls.release
  rests : s.Rests t

private theorem SameLink.failedOn {device : DeviceId n k} (h : t.SameLink u device) :
    s.FailedOn u device ↔ s.FailedOn t device := by
  cases device with
  | flash d => exact iff_of_eq (congrArg (s.flashLink d).Failed h)
  | files d => exact iff_of_eq (congrArg (fun l : FileLink => l.errors ≠ (s.fileLink d).errors) h)

theorem Rests.refl (s : Storage n k) : s.Rests s := fun _ => .refl _

/-- Devices that have rested twice in a row have rested. -/
theorem Rests.trans (h : s.Rests t) (h' : t.Rests u) : s.Rests u := fun d => (h d).trans (h' d)

private theorem rests_of_flashLink (h : ∀ d, t.flashLink d = s.flashLink d) : s.Rests t := fun d => h d ▸ .refl _

private theorem Rests.withFlash {d : Fin n} {link : FlashLink} (h : (s.flashLink d).Rests link) :
    s.Rests (s.withFlash d link) := by
  intro d'
  rw [flashLink_withFlash]
  split
  · rename_i hsame
    exact hsame ▸ h
  · exact .refl _

namespace Calm

theorem refl (s : Storage n k) : s.Calm s := ⟨rfl, fun _ => .refl _, fun _ => rfl⟩

private theorem rests (h : s.Calm t) : s.Rests t := fun d => (h.flash d).toRests

private theorem not_failedOn (h : s.Calm t) (device : DeviceId n k) : ¬s.FailedOn t device := by
  cases device with
  | flash d => exact (h.flash d).passesOver.not_failed (h.flash d).errors
  | files d => exact not_not_intro (h.store d)

private theorem lookup? (h : s.Calm t) (slot : SlotId) : t.lookup? slot = s.lookup? slot := by
  simp only [Storage.lookup?]
  rw [h.memories]

/-- What is not on a device may change. -/
theorem of_devices (h : s.Calm t) (hm : u.memories = t.memories) (hd : u.devices = t.devices) : s.Calm u := by
  refine ⟨hm.trans h.memories, fun d => ?_, fun d => ?_⟩
  · have hlink : u.flashLink d = t.flashLink d := congrArg (·.flashes.get d) hd
    exact hlink ▸ h.flash d
  · have hlink : u.fileLink d = t.fileLink d := congrArg (·.stores.get d) hd
    exact hlink ▸ h.store d

end Calm

private theorem modify_calm {f : Storage n k → Storage n k} {F : ε → Storage n k → Prop}
    (hm : ∀ t, (f t).memories = t.memories) (hd : ∀ t, (f t).devices = t.devices) :
    Action.Reports s.Calm F (modify f : Action (Storage n k) ε PUnit) :=
  .modify fun t ht => ht.of_devices (hm t) (hd t)

/-- What is reported of a call on a link to flash is reported of it on the storage. -/
theorem onFlash_reports {d : Fin n} {call : FlashLink.Call α}
    (h : Action.Reports (s.flashLink d).Calm (s.flashLink d).Struck call) :
    Action.Reports s.Calm (s.Struck (.flash d)) (onFlash d call) := by
  refine .focus (fun _ _ => h) (fun t ht => ht.flash d) (fun t link ht hlink => ?_) fun t error link ht hlink => ?_
  · refine ⟨ht.memories, fun d' => ?_, ht.store⟩
    show (s.flashLink d').Calm ((t.withFlash d link).flashLink d')
    rw [flashLink_withFlash]
    split
    · rename_i hsame
      exact hsame ▸ hlink
    · exact ht.flash d'
  · have hsame : (t.withFlash d link).flashLink d = link := by rw [flashLink_withFlash, if_pos rfl]
    have hother : ∀ d', d' ≠ d → (t.withFlash d link).flashLink d' = t.flashLink d' := fun d' hne => by
      rw [flashLink_withFlash, if_neg hne]
    refine ⟨ht.memories, (congrArg Link.errors hsame).trans hlink.errors, fun other hne => ?_, fun d' => ?_,
      fun d' => ?_⟩
    · cases other with
      | flash d' =>
        have hne' : d' ≠ d := fun heq => hne (congrArg DeviceId.flash heq)
        have hlink : t.SameLink (t.withFlash d link) (.flash d') := hother d' hne'
        exact fun hfailed => ht.not_failedOn _ (hlink.failedOn.mp hfailed)
      | files d' => exact ht.not_failedOn (.files d')
    · by_cases hd : d' = d
      · subst hd
        exact (congrArg (·.calls.release) hsame).trans hlink.releases
      · exact (congrArg (·.calls.release) (hother d' hd)).trans (ht.flash d').releases
    · by_cases hd : d' = d
      · subst hd
        show (s.flashLink d').Rests ((t.withFlash d' link).flashLink d')
        rw [hsame]
        exact hlink.toRests
      · exact hother d' hd ▸ (ht.flash d').toRests

/-- What is reported of a call on a link to a store is reported of it on the storage. -/
theorem onStore_reports {d : Fin k} {call : FileLink.Call α}
    (h : ∀ errors, Action.Reports (fun l => l.errors = errors) (fun error l => l.errors = error :: errors) call) :
    Action.Reports s.Calm (s.Struck (.files d)) (onStore d call) := by
  refine .focus (fun _ _ => h (s.fileLink d).errors) (fun t ht => ht.store d) (fun t link ht hlink => ?_)
    fun t error link ht hlink => ?_
  · refine ⟨ht.memories, ht.flash, fun d' => ?_⟩
    show ((t.withStore d link).fileLink d').errors = (s.fileLink d').errors
    rw [fileLink_withStore]
    split
    · rename_i hsame
      exact hsame ▸ hlink
    · exact ht.store d'
  · have hsame : (t.withStore d link).fileLink d = link := by rw [fileLink_withStore, if_pos rfl]
    refine ⟨ht.memories, (congrArg Link.errors hsame).trans hlink, fun other hne => ?_,
      fun d' => (ht.flash d').releases, ht.rests⟩
    cases other with
    | flash d' => exact ht.not_failedOn (.flash d')
    | files d' =>
      have hlink : t.SameLink (t.withStore d link) (.files d') := by
        rw [SameLink, fileLink_withStore, if_neg fun heq => hne (congrArg DeviceId.files heq)]
      exact fun hfailed => ht.not_failedOn _ (hlink.failedOn.mp hfailed)

/-! ### Settling -/

/-- A slot whose file is forgotten has none open, and no other slot is affected. -/
theorem openFile?_forget (s : Storage n k) (slot slot' : SlotId) :
    (s.forget slot).openFile? slot' = if slot' = slot then none else s.openFile? slot' := by
  simp only [openFile?, forget, List.find?_filter]
  split
  · rename_i hsame
    subst hsame
    exact List.find?_eq_none.mpr fun file _ => by simp
  · rename_i hne
    congr 1
    funext file
    by_cases hslot : file.slot = slot' <;> simp [hslot, hne]

/-- The files of some slots on one store have been closed, and nothing else has been done. -/
structure ClosedAt (d : Fin k) (slots : List SlotId) (s t : Storage n k) : Prop where
  memories : t.memories = s.memories
  buffer : t.buffer = s.buffer
  links : ∀ device, device ≠ .files d → s.SameLink t device
  files : ∀ slot, t.openFile? slot = if slot ∈ slots then none else s.openFile? slot

private theorem ClosedAt.trans {d : Fin k} {slots slots' : List SlotId} (h : ClosedAt d slots s t)
    (h' : ClosedAt d slots' t u) : ClosedAt d (slots ++ slots') s u := by
  refine ⟨h'.memories.trans h.memories, h'.buffer.trans h.buffer, fun device hne => ?_, fun slot => ?_⟩
  · cases device with
    | flash d' => exact (h'.links (.flash d') hne).trans (h.links (.flash d') hne)
    | files d' => exact (h'.links (.files d') hne).trans (h.links (.files d') hne)
  · rw [h'.files, h.files]
    by_cases hmem' : slot ∈ slots'
    · rw [if_pos hmem', if_pos (List.mem_append_right _ hmem')]
    · rw [if_neg hmem']
      by_cases hmem : slot ∈ slots
      · rw [if_pos hmem, if_pos (List.mem_append_left _ hmem)]
      · rw [if_neg hmem, if_neg fun h => (List.mem_append.mp h).elim hmem hmem']

private theorem closeHandle_closedAt {d : Fin k} {handle : Nat} : (onStore d (FileLink.close handle)).Ends s
    (fun _ t => ClosedAt d [] s t) (fun _ t => ClosedAt d [] s t) False := by
  have hclosed : ∀ link, ClosedAt d [] s (s.withStore d link) := by
    refine fun link => ⟨rfl, rfl, fun device hne => ?_, fun _ => rfl⟩
    cases device with
    | flash d' => rfl
    | files d' =>
      show (s.withStore d link).fileLink d' = s.fileLink d'
      rw [fileLink_withStore, if_neg fun heq => hne (congrArg DeviceId.files heq)]
  have hkeeps : Action.Preserves (Link.Fixed (fun f : FileStore => f.granule = (s.store d).granule)
      (s.fileLink d).schedule) False (FileLink.close handle) := Link.call_preserves FileStore.close_preserves
  have hends := hkeeps (s.fileLink d) ⟨rfl, rfl⟩
  exact onStore_ends.mpr (hends.imp (fun _ link _ => hclosed link) (fun _ link _ => hclosed link) id)

private theorem closeSlot_closedAt {d : Fin k} : (closeSlot slot d : Action (Storage n k) ε Bool).Ends s
    (fun _ t => ClosedAt d [slot] s t) (fun _ _ => False) False := by
  have hlinks : ∀ device, device ≠ .files d → s.SameLink s device := by
    rintro (d' | d') - <;> rfl
  simp only [closeSlot]
  rw [Action.ends_get_bind]
  split
  · rename_i hnone
    refine ⟨rfl, rfl, hlinks, fun slot' => ?_⟩
    split
    · rename_i hmem
      rwa [List.mem_singleton.mp hmem]
    · rfl
  · rename_i file hfile
    have hforget : ClosedAt d [slot] s (s.forget slot) := by
      refine ⟨rfl, rfl, hlinks, fun slot' => ?_⟩
      rw [openFile?_forget]
      simp only [List.mem_singleton]
    have hthen : ∀ t, ClosedAt d [] (s.forget slot) t → ClosedAt d [slot] s t := fun t h => hforget.trans h
    rw [Action.ends_modify_bind]
    exact closeHandle_closedAt.attempt_bind (fun _ t h => hthen t h) (fun _ t h => hthen t h) id

/-- Whatever the store answers, the slots come to be closed. -/
theorem closeSlots_closedAt {d : Fin k} (slots : List SlotId) :
    (closeSlots d slots : Action (Storage n k) ε Bool).Ends s (fun _ t => ClosedAt d slots s t)
      (fun _ _ => False) False := by
  induction slots generalizing s with
  | nil => exact ⟨rfl, rfl, by rintro (d' | d') - <;> rfl, fun _ => rfl⟩
  | cons slot rest ih =>
    refine closeSlot_closedAt.bind (fun _ t ht => ?_) (fun _ _ h => h) id
    refine ih.bind (fun _ u hu => ?_) (fun _ _ h => h) id
    exact ht.trans hu

/-- What settling a memory does: its device is given back once if it is flash, and no file is held open for it. -/
structure Settled (index : Nat) (memory : Memory n k) (s t : Storage n k) : Prop where
  memories : t.memories = s.memories
  dropped : t.buffer.bytes = []
  released : ∀ d, memory.device = .flash d → (s.flashLink d).Released (t.flashLink d)
  closed : ∀ d, memory.device = .files d → ∀ slot ∈ slotIds index memory, t.openFile? slot = none
  links : ∀ device, device ≠ memory.device → s.SameLink t device
  files : ∀ slot, slot.memory ≠ index → t.openFile? slot = s.openFile? slot

private theorem Settled.rests (h : Settled index memory s t) : s.Rests t := by
  intro d
  by_cases hd : memory.device = .flash d
  · exact (h.released d hd).toRests
  · have hsame : t.flashLink d = s.flashLink d := h.links (.flash d) (Ne.symm hd)
    exact hsame ▸ .refl _

private theorem not_mem_slotIds (h : slot.memory ≠ index) : slot ∉ slotIds index memory := by
  intro hmem
  obtain ⟨i, -, rfl⟩ := List.mem_map.mp hmem
  exact h rfl

private theorem settle_settled (hm : s.memories[index]? = some memory) :
    (settle index : Action (Storage n k) ε Unit).Ends s (fun _ t => Settled index memory s t)
      (fun _ _ => False) False := by
  simp only [settle, dropPending]
  simp only [Action.ends_modify_bind, Action.ends_get_bind, hm]
  split
  · rename_i d hd
    have hsettled : ∀ link, (s.flashLink d).Released link →
        Settled index memory s ({ s with buffer := s.buffer.dropPending }.withFlash d link) := by
      intro link hlink
      refine ⟨rfl, rfl, fun d' hd' => ?_, fun d' hd' => ?_, fun device hne => ?_, fun _ _ => rfl⟩
      · obtain rfl : d = d' := DeviceId.flash.inj (hd.symm.trans hd')
        rw [flashLink_withFlash, if_pos rfl]
        exact hlink
      · cases hd.symm.trans hd'
      · cases device with
        | flash d' =>
          show ({ s with buffer := s.buffer.dropPending }.withFlash d link).flashLink d' = s.flashLink d'
          have hne' : d' ≠ d := fun heq => hne (heq ▸ hd.symm)
          rw [flashLink_withFlash, if_neg hne']
          rfl
        | files d' => rfl
    have hrelease : (onFlash d FlashLink.release).Ends { s with buffer := s.buffer.dropPending }
        (fun _ t => Settled index memory s t) (fun _ t => Settled index memory s t) False :=
      onFlash_ends.mpr (FlashLink.release_released.imp (fun _ link => hsettled link) (fun _ link => hsettled link) id)
    exact hrelease.attempt_bind (fun _ _ h => h) (fun _ _ h => h) id
  · rename_i d hd
    simp only [closeMemory, hd]
    refine (closeSlots_closedAt _).bind (fun _ t ht => ?_) (fun _ _ h => h) id
    refine ⟨ht.memories, (congrArg GranuleBuffer.bytes ht.buffer), fun d' hd' => ?_, fun d' _ slot hslot => ?_,
      fun device hne => ?_, fun slot hne => ?_⟩
    · cases hd.symm.trans hd'
    · rw [ht.files, if_pos hslot]
    · have hlink := ht.links device (hd ▸ hne)
      cases device <;> exact hlink
    · rw [ht.files, if_neg (not_mem_slotIds hne)]
      rfl

/-! ### Requests that call devices -/

/-- A request that fails has failed before it came to a device that failed, or the memory of that device has been
settled. -/
def Ended (s : Storage n k) (cause : Error) (t : Storage n k) : Prop :=
  s.Calm t ∨ ∃ index memory error u, s.memories[index]? = some memory ∧ cause = error.toError ∧
    s.Struck memory.device error u ∧ (settle index : Op n k Unit) u = .ok () t ∧ Settled index memory u t

private theorem Ended.rests {cause : Error} (h : s.Ended cause t) : s.Rests t := by
  rcases h with hcalm | ⟨index, memory, error, u, -, -, hstruck, -, hsettled⟩
  · exact hcalm.rests
  · exact hstruck.rests.trans hsettled.rests

private theorem fail_reports {cause : Error} : Action.Reports s.Calm s.Ended (Action.fail cause : Op n k α) :=
  .fail fun _ ht => Or.inl ht

/-- A guarded call that fails has come to a device that failed, and the memory of that device has been settled. -/
theorem guarding_settles {calls : Call n k α} (hm : s.memories[index]? = some memory)
    (h : Action.Reports s.Calm (s.Struck memory.device) calls) :
    Action.Reports s.Calm (fun cause t => ∃ error u, cause = error.toError ∧ s.Struck memory.device error u ∧
      (settle index : Op n k Unit) u = .ok () t ∧ Settled index memory u t) (guarding index calls) := by
  intro t ht
  have hended := h t ht
  simp only [guarding]
  rw [Action.attempt_bind_apply]
  cases hcalls : calls t with
  | ok a u =>
    rw [hcalls] at hended
    exact hended
  | error stop u =>
    rw [hcalls] at hended
    cases stop with
    | trap => exact hended
    | error error =>
      have hm' : u.memories[index]? = some memory := hended.memories ▸ hm
      obtain ⟨_, v, hsettle, hsettled⟩ := (settle_settled (ε := Error) hm').exists_ok
      simp only [Action.bind_apply, hsettle, Action.fail_apply]
      exact ⟨error, u, rfl, hended, hsettle, hsettled⟩

/-- Calls that report what strikes the device of a memory are cleaned up after by the guard. -/
theorem guarding_reports {calls : Call n k α} (hm : s.memories[index]? = some memory)
    (h : Action.Reports s.Calm (s.Struck memory.device) calls) :
    Action.Reports s.Calm s.Ended (guarding index calls) :=
  (guarding_settles hm h).mono fun _ _ ⟨error, u, hcause, hstruck, hsettle, hsettled⟩ =>
    Or.inr ⟨index, memory, error, u, hm, hcause, hstruck, hsettle, hsettled⟩

private theorem lookup_reports {next : Memory n k × Slot → Op n k α}
    (h : ∀ memory entry, s.lookup? slot = .ok (memory, entry) →
      Action.Reports s.Calm s.Ended (next (memory, entry))) :
    Action.Reports s.Calm s.Ended (lookup slot >>= next) := by
  simp only [lookup]
  rw [bind_assoc]
  refine .get_bind fun t ht => ?_
  rw [ht.lookup? slot]
  cases hl : s.lookup? slot with
  | error cause => exact fail_reports
  | ok found => exact h _ _ hl

private theorem requireInside_reports :
    Action.Reports s.Calm s.Ended (requireInside entry offset length : Op n k Unit) := by
  simp only [requireInside]
  split
  · exact .pure ()
  · exact fail_reports

section Files
variable {d : Fin k} {path : String} {mode : FileMode}

private theorem openFor_reports : Action.Reports s.Calm (s.Struck (.files d)) (openFor slot d path mode) :=
  .bind (onStore_reports Link.call_errors) fun _ => .bind (modify_calm (fun _ => rfl) fun _ => rfl) fun _ => .pure _

private theorem handleFor_reports : Action.Reports s.Calm (s.Struck (.files d)) (handleFor slot d path mode) := by
  refine .get_bind fun t _ => ?_
  split
  · exact openFor_reports
  · split
    · exact .pure _
    · refine .bind (modify_calm (fun _ => rfl) fun _ => rfl) fun _ => ?_
      exact .bind (onStore_reports Link.call_errors) fun _ => openFor_reports

/-- Reading a file that fails is one error of its store. -/
theorem readFile_reports : Action.Reports s.Calm (s.Struck (.files d)) (readFile slot d path offset length) :=
  .bind handleFor_reports fun _ => .bind (onStore_reports Link.call_errors) fun _ => .pure _

/-- Writing a file that fails is one error of its store. -/
theorem writeFile_reports {data : Bytes} :
    Action.Reports s.Calm (s.Struck (.files d)) (writeFile slot d path offset data) :=
  .bind handleFor_reports fun _ => onStore_reports Link.call_errors

/-- Erasing a file that fails is one error of its store. -/
theorem eraseFile_reports : Action.Reports s.Calm (s.Struck (.files d)) (eraseFile slot d path offset length) :=
  .bind handleFor_reports fun _ => onStore_reports Link.call_errors

end Files

/-- Reading flash that fails is one error of its device. -/
theorem readFlash_reports {d : Fin n} {start : Nat} :
    Action.Reports s.Calm (s.Struck (.flash d)) (onFlash d (FlashLink.read start length)) :=
  onFlash_reports FlashLink.read_reports

/-- Writing flash that fails is one error of its device, be it the write or the wait. -/
theorem writeFlash_reports {d : Fin n} {start : Nat} {bytes : Bytes} :
    Action.Reports s.Calm (s.Struck (.flash d)) (onFlash d (do FlashLink.write start bytes; FlashLink.awaitReady)) :=
  onFlash_reports (.bind FlashLink.write_reports fun _ => FlashLink.awaitReady_reports)

/-- Erasing flash that fails is one error of its device, at whatever sector. -/
theorem eraseFlash_reports {d : Fin n} {count start : Nat} :
    Action.Reports s.Calm (s.Struck (.flash d)) (onFlash d (FlashLink.eraseFrom count start)) :=
  onFlash_reports (FlashLink.eraseFrom_reports count start)

private theorem read_reports : Action.Reports s.Calm s.Ended (read slot offset length : Op n k Bytes) := by
  refine lookup_reports fun memory entry hl => .bind requireInside_reports fun _ => ?_
  have hm := (getElem?_of_lookup? hl).1
  split
  · rename_i hd _
    exact .word_bind (guarding_reports hm (hd ▸ readFlash_reports))
  · rename_i hd _
    exact guarding_reports hm (hd ▸ readFile_reports)
  · exact fail_reports

private theorem erase_reports : Action.Reports s.Calm s.Ended (erase slot offset length : Op n k Unit) := by
  refine lookup_reports fun memory entry hl => .bind requireInside_reports fun _ => ?_
  have hm := (getElem?_of_lookup? hl).1
  split
  · exact .pure ()
  · split
    · rename_i hd _
      refine .word_bind (.get_bind fun t _ => ?_)
      dsimp only
      split
      · exact guarding_reports hm (hd ▸ eraseFlash_reports)
      · exact fail_reports
    · rename_i hd _
      exact guarding_reports hm (hd ▸ eraseFile_reports)
    · exact fail_reports

private theorem writeOut_reports : Action.Reports s.Calm s.Ended (writeOut : Op n k Unit) := by
  refine .get_bind fun t _ => lookup_reports fun memory entry hl => ?_
  have hm := (getElem?_of_lookup? hl).1
  have hadvance : Action.Reports s.Calm s.Ended
      (modify fun s => { s with buffer := s.buffer.advanced } : Op n k Unit) :=
    modify_calm (fun _ => rfl) fun _ => rfl
  dsimp only
  split
  · exact .bind (modify_calm (fun _ => rfl) fun _ => rfl) fun _ => fail_reports
  · split
    · rename_i hd _
      exact .word_bind (.bind (guarding_reports hm (hd ▸ writeFlash_reports)) fun _ => hadvance)
    · rename_i hd _
      exact .bind (guarding_reports hm (hd ▸ writeFile_reports)) fun _ => hadvance
    · exact .bind fail_reports fun _ => hadvance

private theorem pushBytes_reports (bytes : Bytes) : Action.Reports s.Calm s.Ended (pushBytes bytes : Op n k Unit) := by
  induction bytes with
  | nil => exact .pure ()
  | cons byte rest ih =>
    refine .bind (.bind (modify_calm (fun _ => rfl) fun _ => rfl) fun _ => .get_bind fun t _ => ?_) fun _ => ih
    split
    · exact writeOut_reports
    · exact .pure ()

private theorem continueRun_reports : Action.Reports s.Calm s.Ended (continueRun slot memory offset : Op n k Unit) := by
  refine .get_bind fun t ht => ?_
  split
  · split
    · exact .pure ()
    · exact fail_reports
  · dsimp only
    split
    · exact .set (ht.of_devices rfl rfl)
    · exact fail_reports

private theorem write_reports {data : Bytes} {mode : WriteMode} :
    Action.Reports s.Calm s.Ended (write slot offset data mode : Op n k Unit) := by
  refine lookup_reports fun memory entry _ => .bind requireInside_reports fun _ => ?_
  refine .bind continueRun_reports fun _ => .bind (pushBytes_reports data) fun _ => ?_
  cases mode with
  | buffered => exact .pure ()
  | force =>
    refine .get_bind fun t _ => ?_
    split
    · exact .bind (modify_calm (fun _ => rfl) fun _ => rfl) fun _ => writeOut_reports
    · exact .pure ()

private theorem copySpans_reports {source target : SlotId} (spans : List Span) :
    Action.Reports s.Calm s.Ended (copySpans source target spans : Op n k Unit) := by
  induction spans with
  | nil => exact .pure ()
  | cons span rest ih => exact .bind read_reports fun _ => .bind write_reports fun _ => ih

private theorem copy_reports {source target : SlotId} :
    Action.Reports s.Calm s.Ended (copy source target length : Op n k Unit) := by
  simp only [copy]
  split
  · exact fail_reports
  · refine lookup_reports fun _ _ _ => .bind requireInside_reports fun _ => ?_
    refine lookup_reports fun _ _ _ => .bind requireInside_reports fun _ => ?_
    exact .bind (copySpans_reports _) fun _ => write_reports

private theorem initFrom_reports (rest : List (Memory n k)) (index : Nat)
    (h : ∀ i, s.memories[index + i]? = rest[i]?) :
    Action.Reports s.Calm s.Ended (initFrom index rest : Op n k Unit) := by
  induction rest generalizing index with
  | nil => exact .pure ()
  | cons memory rest ih =>
    refine .bind (guarding_reports (h 0) ?_) fun _ => ih (index + 1) fun i => ?_
    · split
      · rename_i hd
        exact hd ▸ onFlash_reports (.bind FlashLink.init_reports fun _ => FlashLink.awaitReady_reports)
      · rename_i hd
        exact hd ▸ onStore_reports Link.call_errors
    · rw [Nat.add_right_comm]
      exact h (i + 1)

private theorem init_reports : Action.Reports s.Calm s.Ended (init : Op n k Unit) := by
  refine .get_bind fun t ht => ?_
  rw [ht.memories]
  exact initFrom_reports _ 0 fun i => by rw [Nat.zero_add]

/-! ### Devices that stay off -/

private theorem closeMemory_rests {F : ε → Storage n k → Prop} :
    Action.Reports s.Rests F (closeMemory index memory : Action (Storage n k) ε Bool) := by
  simp only [closeMemory]
  split
  · exact .pure _
  · refine .of_ends fun t ht => (closeSlots_closedAt _).imp (fun _ u hu => ?_) (fun _ _ h => h.elim) id
    exact ht.trans (rests_of_flashLink fun d => hu.links (.flash d) (by simp))

private theorem releaseMemory_rests {F : ε → Storage n k → Prop} :
    Action.Reports s.Rests F (releaseMemory index memory : Action (Storage n k) ε Bool) := by
  refine .bind (.attempt ?_) fun answer => ?_
  · refine .of_ends fun t ht => ?_
    split
    · exact onFlash_ends.mpr (FlashLink.release_released.imp (fun _ link h => ht.trans (.withFlash h.toRests))
        (fun _ link h => ht.trans (.withFlash h.toRests)) id)
    · rename_i d _
      have hkeeps : Action.Preserves (Link.Fixed (fun _ : FileStore => True) (t.fileLink d).schedule) False
          FileLink.release := Link.call_preserves (.modify fun _ h => h)
      have hends := hkeeps (t.fileLink d) ⟨trivial, rfl⟩
      exact onStore_ends.mpr (hends.imp (fun _ link _ => ht.trans (rests_of_flashLink fun _ => rfl))
        (fun _ link _ => ht.trans (rests_of_flashLink fun _ => rfl)) id)
  · split
    · exact .pure _
    · exact .pure _

private theorem everyMemory_rests {F : ε → Storage n k → Prop} {step : Nat → Memory n k → Action (Storage n k) ε Bool}
    (hstep : ∀ index memory, Action.Reports s.Rests F (step index memory)) (index : Nat)
    (memories : List (Memory n k)) : Action.Reports s.Rests F (everyMemory step index memories) := by
  induction memories generalizing index with
  | nil => exact .pure _
  | cons memory rest ih => exact .bind (hstep index memory) fun _ => .bind (ih _) fun _ => .pure _

private theorem dropPending_rests {F : ε → Storage n k → Prop} :
    Action.Reports s.Rests F (dropPending : Action (Storage n k) ε Unit) := .modify fun _ ht => ht

private theorem settle_rests : Action.Reports s.Rests (fun _ => s.Rests) (settle index : Op n k Unit) := by
  intro t ht
  cases hm : t.memories[index]? with
  | some memory =>
    obtain ⟨_, u, hsettle, hsettled⟩ := (settle_settled (ε := Error) hm).exists_ok
    rw [hsettle]
    exact ht.trans hsettled.rests
  | none =>
    have hsettle : (settle index : Op n k Unit) t = .ok () { t with buffer := t.buffer.dropPending } := by
      simp [settle, dropPending, hm]
    rw [hsettle]
    exact ht

private theorem closeFiles_rests : Action.Reports s.Rests (fun _ => s.Rests) (closeFiles : Op n k Unit) := by
  refine .get_bind fun t _ => .bind (everyMemory_rests (fun _ _ => closeMemory_rests) _ _) fun closed => ?_
  split
  · exact .pure ()
  · exact .fail fun _ h => h

private theorem release_rests : Action.Reports s.Rests (fun _ => s.Rests) (release : Op n k Unit) := by
  refine .bind dropPending_rests fun _ => .get_bind fun t _ => ?_
  refine .bind (everyMemory_rests (fun _ _ => closeMemory_rests) _ _) fun closed => ?_
  refine .bind (everyMemory_rests (fun _ _ => releaseMemory_rests) _ _) fun released => ?_
  split
  · exact .pure ()
  · exact .fail fun _ h => h

namespace Request

/-- What is asked for is bytes of a slot. -/
def isAccess : Request → Bool
  | read .. | write .. | erase .. | copy .. => true
  | _ => false

/-- An access comes to no call that fails, or ends by settling the memory whose device has failed. -/
theorem access_reports {request : Request} (h : request.isAccess) :
    Action.Reports s.Calm s.Ended (request.act : Op n k Unit) := by
  cases request with
  | read slot offset length => exact .bind read_reports fun _ => .pure ()
  | write slot offset data mode => exact write_reports
  | erase slot offset length => exact erase_reports
  | copy source target length => exact copy_reports
  | _ => cases h

private theorem init_or_access_reports {request : Request} (h : request = .init ∨ request.isAccess) :
    Action.Reports s.Calm s.Ended (request.act : Op n k Unit) := by
  rcases h with rfl | haccess
  · exact init_reports
  · exact access_reports haccess

/-- Whatever is asked for, and however that ends, a device that has been off rests. -/
theorem after_rests (request : Request) (s : Storage n k) : s.Rests (request.act.after s) := by
  have hothers : ∀ {act : Op n k Unit}, Action.Reports s.Rests (fun _ => s.Rests) act → s.Rests (act.after s) :=
    fun h => h.after (.refl s) (fun _ ht => ht) fun _ _ ht => ht
  have hcalling : request = .init ∨ request.isAccess → s.Rests (request.act.after s) := fun h =>
    (init_or_access_reports h).after (.refl s) (fun _ ht => ht.rests) fun _ _ ht => ht.rests
  cases request with
  | init => exact hcalling (Or.inl rfl)
  | read | write | erase | copy => exact hcalling (Or.inr rfl)
  | dropPending => exact hothers dropPending_rests
  | settle index => exact hothers settle_rests
  | closeFiles => exact hothers closeFiles_rests
  | release => exact hothers release_rests

end Request

/-- Devices that are off rest while requests are served. -/
theorem serve_rests (requests : List Request) (s : Storage n k) : s.Rests (s.serve requests) := by
  induction requests generalizing s with
  | nil => exact .refl s
  | cons request rest ih => exact (request.after_rests s).trans (ih _)

/-- Until it is initialized, no byte of the device changes, and whatever makes a call for its bytes fails. -/
def Shut (s : Storage n k) (d : Fin n) : Prop :=
  ∀ (requests : List Request) (request : Request), request.isAccess →
    let t := s.serve requests
    let u := request.act.after t
    (u.flashLink d).calls.init = (s.flashLink d).calls.init →
      (u.flash d).contents = (t.flash d).contents ∧
        ((u.flashLink d).accesses ≠ (t.flashLink d).accesses → ∃ cause, request.act t = .error (.error cause) u)

/-- A device that is off is shut. -/
theorem shut_of_off {d : Fin n} (hoff : (s.flash d).initialized = false) : s.Shut d := by
  intro requests request haccess t u hinits
  have hserved : (s.flashLink d).Rests (t.flashLink d) := serve_rests requests s d
  have hasked : (t.flashLink d).Rests (u.flashLink d) := request.after_rests t d
  have hmore := hserved.inits
  have hmore' := hasked.inits
  have hstays : (t.flashLink d).StaysOff (u.flashLink d) := ⟨hserved.off ⟨hoff, by omega⟩, by omega⟩
  refine ⟨hasked.contents hstays, fun hcalled => ?_⟩
  have hcalm : ∀ v, request.act.after t = v → ¬t.Calm v := by
    rintro _ rfl hv
    exact hcalled ((hv.flash d).unasked hstays)
  have hreports := Request.access_reports (s := t) haccess
  cases hact : request.act t with
  | ok a v => exact (hcalm v (by simp only [Action.after, hact]) (hreports.ok (.refl t) hact)).elim
  | error stop v =>
    have hafter : request.act.after t = v := by simp only [Action.after, hact]
    cases stop with
    | trap => exact (hcalm v hafter (hreports.trap (.refl t) hact)).elim
    | error cause =>
      refine ⟨cause, ?_⟩
      show _ = EStateM.Result.error (Stop.error cause) (request.act.after t)
      rw [hafter]

/-! ### What a failure leaves behind -/

/-- In the state `u` a call on the device of a memory has just failed with `error`, the first to do so since `s`, and
`t` is what settling the memory has made of that. -/
structure CleanedUp (index : Nat) (memory : Memory n k) (error : DeviceError) (s u t : Storage n k) : Prop where
  struck : s.Struck memory.device error u
  settled : (settle index : Op n k Unit) u = .ok () t
  dropped : t.pending = 0
  released : ∀ d, memory.device = .flash d → (t.flashLink d).calls.release = (s.flashLink d).calls.release + 1
  closed : ∀ d, memory.device = .files d → ∀ slot ∈ slotIds index memory, t.holdsFile slot = false
  links : ∀ i other, i ≠ index → s.memories[i]? = some other → u.SameLink t other.device
  files : ∀ slot, slot.memory ≠ index → t.openFile? slot = u.openFile? slot

/-- When a call fails that a storage makes on one of its memories, whatever it was asked for and wherever in that the
call stands, the storage answers with that failure, drops what was pending and settles that memory, and none of the
others. A flash memory whose device could be given back is shut. The one call that may fail without that is a poll that
is passed over. -/
theorem failed_call_settles (hdistinct : (s.memories.map (·.device)).Nodup) {request : Request}
    (hrequest : request = .init ∨ request.isAccess) (hm : s.memories[index]? = some memory)
    (hfailed : s.FailedOn (request.act.after s) memory.device) :
    ∃ error u t, request.act s = .error (.error error.toError) t ∧ CleanedUp index memory error s u t ∧
      ∀ d, memory.device = .flash d → (t.flashLink d).errors = (u.flashLink d).errors → t.Shut d := by
  have hreports := Request.init_or_access_reports (s := s) hrequest
  have hcalm : ∀ v, request.act.after s = v → ¬s.Calm v := by
    rintro _ rfl hv
    exact hv.not_failedOn memory.device hfailed
  cases hact : request.act s with
  | ok a v => exact (hcalm v (by simp only [Action.after, hact]) (hreports.ok (.refl s) hact)).elim
  | error stop t =>
    have hafter : request.act.after s = t := by simp only [Action.after, hact]
    cases stop with
    | trap => exact (hcalm t hafter (hreports.trap (.refl s) hact)).elim
    | error cause =>
      obtain hv | ⟨i, other, error, u, hi, rfl, hstruck, hsettle, hsettled⟩ := hreports.error (.refl s) hact
      · exact (hcalm t hafter hv).elim
      -- The memory that was settled is the one on whose device the call failed.
      have hdevice : other.device = memory.device := by
        refine Classical.byContradiction fun hne => hstruck.others memory.device (Ne.symm hne) ?_
        rw [hafter] at hfailed
        exact (hsettled.links memory.device (Ne.symm hne)).failedOn.mp hfailed
      obtain rfl : i = index := index_of_device hdistinct hm hi hdevice
      obtain rfl : memory = other := Option.some.inj (hm.symm.trans hi)
      refine ⟨error, u, t, rfl, ⟨hstruck, hsettle, ?_, fun d hd => ?_, fun d hd slot hslot => ?_, ?_, hsettled.files⟩,
        fun d hd hsame => shut_of_off ((hsettled.released d hd).switchedOff hsame)⟩
      · rw [pending, hsettled.dropped]
        rfl
      · rw [(hsettled.released d hd).releases, hstruck.releases]
      · rw [holdsFile, hsettled.closed d hd slot hslot]
        rfl
      · exact fun j other hne hj => hsettled.links other.device fun hsame => hne (index_of_device hdistinct hm hj hsame)

/-- A file is copied to a flash device that refuses to be written to. The file stays open, and the device is shut. -/
theorem sample_failed_copy_settles :
    let flash : FlashLink :=
      { device := { Flash.blank Sample.geometry with initialized := true }
        schedule := .ofOutages [⟨.write, 0, .invalidParameter⟩] }
    let store : FileLink :=
      { device := { granule := 8, files := [("update", [1, 2, 3, 4, 5, 6, 7, 8])], mounted := true } }
    let s : Storage 1 1 := { devices := ⟨#v[flash], #v[store]⟩, memories := [Sample.firstMemory, Sample.secondMemory] }
    ∃ u t, (Request.copy ⟨1, 0⟩ ⟨0, 0⟩ 8).act s = .error (.error .invalidParameters) t ∧
      CleanedUp 0 Sample.firstMemory .invalidParameter s u t ∧ t.Shut 0 ∧ t.holdsFile ⟨1, 0⟩ := by
  intro flash store s
  have hended : ((Request.copy ⟨1, 0⟩ ⟨0, 0⟩ 8).act.failsWith s fun cause t => decide (cause = .invalidParameters ∧
      t.errorsOn (.flash 0) = [.invalidParameter] ∧ t.holdsFile ⟨1, 0⟩)) = true := by decide +kernel
  have hmemory : s.memories[0]? = some Sample.firstMemory := rfl
  have haccess : Request.copy ⟨1, 0⟩ ⟨0, 0⟩ 8 = .init ∨ (Request.copy ⟨1, 0⟩ ⟨0, 0⟩ 8).isAccess := Or.inr rfl
  have hfailed : ((Request.copy ⟨1, 0⟩ ⟨0, 0⟩ 8).act.after s).errorsOn (.flash 0) ≠ s.errorsOn (.flash 0) := by
    decide +kernel
  obtain ⟨error, u, t, hact, hclean, hshut⟩ := failed_call_settles (by decide) haccess hmemory (Or.inl hfailed)
  obtain ⟨cause, t', hact', hchecked⟩ := Action.exists_of_failsWith hended
  obtain ⟨hcause, herrors, hopen⟩ := of_decide_eq_true hchecked
  cases hact.symm.trans hact'
  have herror : error = .invalidParameter := by
    cases error <;> first | rfl | cases hcause
  subst herror
  exact ⟨u, t, hact, hclean, hshut 0 rfl (herrors.trans hclean.struck.errors.symm), hopen⟩

/-- The first poll of a flash device fails and the second finds it idle. Whatever was asked for is answered as done, and
the device is neither given back nor on record for an error. -/
theorem failed_poll_passed_over :
    let flash : FlashLink :=
      { device := { Flash.blank Sample.geometry with initialized := true }
        schedule := fun point count => if point = .poll ∧ count = 0 then some .writeFailed else none }
    let s : Storage 1 1 :=
      { devices := ⟨#v[flash], #v[{ device := { granule := 8 } }]⟩, memories := [Sample.firstMemory] }
    ∀ request ∈ [Request.init, .write ⟨0, 0⟩ 0 [1, 2, 3, 4, 5, 6, 7, 8] .force, .erase ⟨0, 0⟩ 0 128],
      request.act.passes s (fun _ t => (t.flashLink 0).failedPolls = [0] ∧ (t.flashLink 0).calls.poll = 2 ∧
        (t.flashLink 0).errors = [] ∧ (t.flashLink 0).calls.release = 0 ∧ (t.flash 0).initialized) = true := by
  decide +kernel

end FirmwareUpdate.Storage
