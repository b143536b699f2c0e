import FirmwareUpdate.Proofs.Storage.Places
import FirmwareUpdate.Storage.Release

/-! Cleaning up after a failure, and bringing devices up: no byte of any slot changes, and the files
that stay open are still those of their slots. -/
namespace FirmwareUpdate.Storage
variable {n k : Nat} {ε α : Type} {s t : Storage n k} {memory : Memory n k} {entry : Slot} {slot : SlotId}

/-- What is forgotten of a file is no byte of it. -/
theorem still_forget (s : Storage n k) (slot : SlotId) : s.Still (s.forget slot) :=
  ⟨⟨rfl, fun _ => rfl, fun _ => rfl, fun _ => rfl⟩, fun _ => Nat.le_refl _,
    fun h file hfile => h.handles file (List.mem_filter.mp hfile).1, fun _ _ => rfl⟩

/-- A slot whose file is forgotten has none left. -/
theorem ne_of_mem_forget {file : OpenFile} (h : file ∈ (s.forget slot).openFiles) : file.slot ≠ slot := by
  simpa using (List.mem_filter.mp h).2

/-- A file that is found open for a slot is the slot's. -/
theorem InOrder.handle (hs : s.InOrder) (hl : s.lookup? slot = .ok (memory, entry)) {device : Fin k}
    (hd : memory.device = .files device) {file : OpenFile} (hf : s.openFile? slot = some file) :
    file.slot = slot ∧ ∃ path, entry.location = .file path ∧
      (s.store device).pathOf? file.handle = some path := by
  have hslot : file.slot = slot := by simpa using List.find?_some hf
  obtain ⟨memory', entry', device', path, hl', hd', hp, hpath⟩ :=
    hs.handles file (List.mem_of_find?_eq_some hf)
  rw [hslot, hl] at hl'
  cases hl'
  rw [hd] at hd'
  cases hd'
  exact ⟨hslot, path, hp, hpath⟩

/-- A handle is closed for one slot only. -/
theorem closeHandle_ends (hs : s.Sound) (hl : s.lookup? slot = .ok (memory, entry)) {device : Fin k}
    {path : String} {handle : Nat} (hd : memory.device = .files device)
    (hp : entry.location = .file path) (hpath : (s.store device).pathOf? handle = some path)
    (hothers : ∀ file ∈ s.openFiles, file.slot ≠ slot) :
    (onStore device (FileLink.close handle)).Ends s
      (fun _ t => s.Still t ∧ t.buffer = s.buffer)
      (fun _ t => (s.Still t ∧ t.buffer = s.buffer) ∧ FaultedOn (.files device) s t) False := by
  refine onStore_ends.mpr ((FileLink.close_ends hpath).imp ?_ ?_ id)
  · intro _ link hended
    obtain ⟨hk, -, hfiles, hgranule, hrest⟩ := hended
    refine ⟨withStore_changes hk hgranule ?_ ?_, rfl⟩
    · intro p _
      rw [FileStore.file?, hfiles]
      rfl
    · intro file hfile p hbound hended
      obtain ⟨memory', entry', hl', hd', hp'⟩ := hended
      rw [hrest]
      · exact hbound
      · intro hsame
        rw [hsame] at hbound
        obtain rfl := Option.some.inj (hpath.symm.trans hbound)
        exact hs.apart _ _ _ _ _ _ hl' hl (hothers file hfile) (.file device path) ⟨hd', hp'⟩
          ⟨hd, hp⟩
  · intro _ link hended
    obtain ⟨hk, hdevice, hlt⟩ := hended
    refine ⟨⟨withStore_still hk ?_ ?_ ?_, rfl⟩, ?_⟩
    · rw [hdevice]; rfl
    · rw [hdevice]; rfl
    · rw [hdevice]; rfl
    · rwa [FaultedOn, faultsOn_withStore]

/-- Closing the file of a slot changes no byte and does not fail. -/
theorem closeSlot_ends (hs : s.InOrder) (hl : s.lookup? slot = .ok (memory, entry)) {device : Fin k}
    (hd : memory.device = .files device) :
    (closeSlot slot device : Action (Storage n k) ε Bool).Ends s
      (fun _ t => s.Still t ∧ t.buffer = s.buffer) (fun _ _ => False) False := by
  simp only [closeSlot]
  rw [Action.ends_get_bind]
  split
  · exact ⟨Changes.refl _ s, rfl⟩
  · rename_i file hfile
    obtain ⟨-, path, hp, hpath⟩ := hs.handle hl hd hfile
    have hforget := still_forget s slot
    rw [Action.ends_modify_bind]
    have hclose := closeHandle_ends (hforget.inOrder hs).sound hl hd hp hpath
      fun file hfile => ne_of_mem_forget hfile
    refine hclose.attempt_bind ?_ ?_ id
    · exact fun _ t h => ⟨hforget.trans h.1, h.2⟩
    · exact fun _ t h => ⟨hforget.trans h.1.1, h.1.2⟩

/-- Closing the files of some slots changes no byte and does not fail. -/
theorem closeSlots_ends {device : Fin k} (slots : List SlotId) (hs : s.InOrder)
    (h : ∀ slot ∈ slots, ∃ memory entry, s.lookup? slot = .ok (memory, entry) ∧
      memory.device = .files device) :
    (closeSlots device slots : Action (Storage n k) ε Bool).Ends s
      (fun _ t => s.Still t ∧ t.buffer = s.buffer) (fun _ _ => False) False := by
  induction slots generalizing s with
  | nil => exact ⟨Changes.refl _ s, rfl⟩
  | cons slot rest ih =>
    obtain ⟨memory, entry, hl, hd⟩ := h slot List.mem_cons_self
    refine (closeSlot_ends hs hl hd).bind ?_ (fun _ _ h => h) id
    intro _ t hended
    obtain ⟨ht, hbuffer⟩ := hended
    refine (ih (ht.inOrder hs) ?_).bind ?_ (fun _ _ h => h) id
    · intro slot' hmem
      obtain ⟨memory', entry', hl', hd'⟩ := h slot' (List.mem_cons_of_mem _ hmem)
      exact ⟨memory', entry', ht.lookup? hl', hd'⟩
    · intro _ u hended
      obtain ⟨hu, hbuffer'⟩ := hended
      exact ⟨ht.trans hu, hbuffer'.trans hbuffer⟩

/-- Closing the files of a memory changes no byte and does not fail. -/
theorem closeMemory_ends {index : Nat} (hs : s.InOrder) (hm : s.memories[index]? = some memory) :
    (closeMemory index memory : Action (Storage n k) ε Bool).Ends s
      (fun _ t => s.Still t ∧ t.buffer = s.buffer) (fun _ _ => False) False := by
  simp only [closeMemory]
  split
  · exact ⟨Changes.refl _ s, rfl⟩
  · rename_i device hd
    refine closeSlots_ends _ hs fun slot hslot => ?_
    obtain ⟨i, hi, rfl⟩ := List.mem_map.mp hslot
    have hi' : i < memory.slots.length := List.mem_range.mp hi
    refine ⟨memory, memory.slots[i], ?_, hd⟩
    simp [lookup?, hm, hi']

/-- What a failed call leaves behind. A flash device that failed is switched off, if giving a device
back always succeeds. -/
structure Fails (P : Place n k → Prop) (device : DeviceId n k) (s t : Storage n k) : Prop where
  changes : Changes P s t
  dropped : t.buffer.bytes = []
  off : ∀ d, device = .flash d → (∀ i, s.scheduleOf device .release i = none) →
    (t.flash d).initialized = false

/-- Settling a memory is always done with, and changes no byte. -/
theorem settle_ends {index : Nat} (hs : s.InOrder) (hm : s.memories[index]? = some memory) :
    (settle index : Action (Storage n k) ε Unit).Ends s
      (fun _ t => Fails (fun _ => False) memory.device s t) (fun _ _ => False) False := by
  have hdrop : s.Still { s with buffer := s.buffer.dropPending } := still_buffer s _
  simp only [settle, dropPending]
  simp only [Action.ends_modify_bind, Action.ends_get_bind, hm]
  split
  · rename_i d hd
    have hrelease : (onFlash d FlashLink.release).Ends { s with buffer := s.buffer.dropPending }
        (fun _ t => Fails (fun _ => False) memory.device s t)
        (fun _ t => Fails (fun _ => False) memory.device s t) False := by
      refine onFlash_ends.mpr (FlashLink.release_ends.imp ?_ ?_ id)
      · intro _ link hended
        obtain ⟨hk, -, hdevice⟩ := hended
        refine ⟨hdrop.trans (withFlash_still hk (by rw [hdevice]; rfl) (by rw [hdevice]; rfl)), rfl, ?_⟩
        intro d' hd' _
        rw [hd] at hd'
        cases hd'
        rw [flash_withFlash, hdevice]
      · intro _ link hended
        obtain ⟨hk, hdevice, -, hdue⟩ := hended
        refine ⟨hdrop.trans (withFlash_still hk (by rw [hdevice]; rfl) (by rw [hdevice]; rfl)), rfl, ?_⟩
        intro d' hd' hquiet
        rw [hd] at hd' hquiet
        cases hd'
        exact (hdue (hquiet _)).elim
    exact hrelease.attempt_bind (fun _ _ h => h) (fun _ _ h => h) id
  · rename_i d hd
    refine (closeMemory_ends (hdrop.inOrder hs) hm).bind ?_ (fun _ _ h => h) id
    intro _ t hended
    obtain ⟨ht, hbuffer⟩ := hended
    refine ⟨hdrop.trans ht, by rw [hbuffer]; rfl, ?_⟩
    intro d' hd'
    rw [hd] at hd'
    cases hd'

/-- A guarded call that fails is cleaned up after, which changes nothing that is stored. -/
theorem guarding_ends {index : Nat} {calls : Call n k α} {P : Place n k → Prop} {Q : Storage n k → Prop}
    {done : α → Storage n k → Prop} {trapped : Prop} (hs : s.InOrder) (hm : s.memories[index]? = some memory)
    (hQ : ∀ t u, Q t → t.Still u → Q u) (h : calls.Ends s done (fun _ t => Changes P s t ∧ Q t) trapped) :
    (guarding index calls).Ends s done (fun _ t => Fails P memory.device s t ∧ Q t) trapped := by
  refine h.attempt_bind ?_ ?_ id
  · exact fun a t ht => ht
  · intro e t hended
    obtain ⟨hc, hq⟩ := hended
    refine (settle_ends (hc.inOrder hs) (hc.setup.memories ▸ hm)).bind ?_ (fun _ _ h => h.elim)
      False.elim
    rintro _ u hu
    refine ⟨⟨hc.trans (Still.changes hu.changes), hu.dropped, ?_⟩, hQ t u hq hu.changes⟩
    intro d hd hquiet
    exact hu.off d hd fun i => (congrFun (congrFun (hc.setup.schedule _) _) i).trans (hquiet i)

/-- A guarded call that fails by the fault of a device has its memory settled. -/
theorem guarding_ends_of_faulted {index : Nat} {calls : Call n k α} {P : Place n k → Prop}
    {done : α → Storage n k → Prop} {trapped : Prop} (hs : s.InOrder)
    (hm : s.memories[index]? = some memory)
    (h : calls.Ends s done (fun _ t => Changes P s t ∧ s.Faulted t) trapped) :
    (guarding index calls).Ends s done (fun _ t => Fails P memory.device s t ∧ s.Faulted t) trapped :=
  guarding_ends hs hm (fun _ _ hf hstill => hstill.faulted_left hf) h

private theorem initFlash_ends (d : Fin n) :
    (onFlash d (do FlashLink.init; FlashLink.awaitReady)).Ends s
      (fun _ t => s.Still t ∧ t.buffer = s.buffer) (fun _ t => s.Still t ∧ s.Faulted t) False := by
  have hcalls : (FlashLink.init >>= fun _ => FlashLink.awaitReady : FlashLink.Call Unit).Ends
      (s.flashLink d)
      (fun _ link => (s.flashLink d).Keeps link ∧ link.device.geometry = (s.flash d).geometry ∧
        link.device.contents = (s.flash d).contents)
      (fun _ link => (s.flashLink d).Keeps link ∧ link.device.geometry = (s.flash d).geometry ∧
        link.device.contents = (s.flash d).contents ∧ (s.flashLink d).faults < link.faults) False := by
    refine FlashLink.init_ends.bind ?_ ?_ id
    · intro _ link hended
      obtain ⟨hk, hf, hdevice⟩ := hended
      have hgeometry : link.device.geometry = (s.flash d).geometry := by
        rw [hdevice]
        rfl
      have hcontents : link.device.contents = (s.flash d).contents := by
        rw [hdevice]
        rfl
      refine FlashLink.awaitReady_ends.imp ?_ ?_ id
      · intro _ link' hended
        obtain ⟨hk', -, ha⟩ := hended
        exact ⟨hk.trans hk', ha.geometry.trans hgeometry, ha.contents.trans hcontents⟩
      · intro _ link' hended
        obtain ⟨hk', ha, hlt⟩ := hended
        exact ⟨hk.trans hk', ha.geometry.trans hgeometry, ha.contents.trans hcontents, hf ▸ hlt⟩
    · intro _ link hended
      obtain ⟨hk, hdevice, hlt⟩ := hended
      exact ⟨hk, congrArg Flash.geometry hdevice, congrArg Flash.contents hdevice, hlt⟩
  refine onFlash_ends.mpr (hcalls.imp ?_ ?_ id)
  · intro _ link hended
    obtain ⟨hk, hg, hc⟩ := hended
    exact ⟨withFlash_still hk hg hc, rfl⟩
  · intro _ link hended
    obtain ⟨hk, hg, hc, hlt⟩ := hended
    refine ⟨withFlash_still hk hg hc, .flash d, ?_⟩
    rwa [faultsOn_withFlash]

private theorem initStore_ends (d : Fin k) :
    (onStore d FileLink.init).Ends s
      (fun _ t => s.Still t ∧ t.buffer = s.buffer) (fun _ t => s.Still t ∧ s.Faulted t) False := by
  refine onStore_ends.mpr (FileLink.init_ends.imp ?_ ?_ id)
  · intro _ link hended
    obtain ⟨hk, -, hdevice⟩ := hended
    refine ⟨withStore_still hk ?_ ?_ ?_, rfl⟩
    · rw [hdevice]; rfl
    · rw [hdevice]; rfl
    · rw [hdevice]; rfl
  · intro _ link hended
    obtain ⟨hk, hdevice, hlt⟩ := hended
    refine ⟨withStore_still hk ?_ ?_ ?_, .files d, ?_⟩
    · rw [hdevice]; rfl
    · rw [hdevice]; rfl
    · rw [hdevice]; rfl
    · rwa [faultsOn_withStore]

/-- Bringing up a memory changes no byte, and fails only when its device does. -/
theorem initMemory_ends {index : Nat} (hs : s.InOrder) (hm : s.memories[index]? = some memory) :
    (initMemory index memory).Ends s (fun _ t => s.Still t ∧ t.buffer = s.buffer)
      (fun _ t => s.Still t ∧ t.buffer.bytes = [] ∧ s.Faulted t) False := by
  simp only [initMemory]
  split
  · rename_i d hd
    refine (guarding_ends_of_faulted hs hm (initFlash_ends d)).imp (fun _ _ h => h) ?_ id
    exact fun _ t h => ⟨h.1.changes, h.1.dropped, h.2⟩
  · rename_i d hd
    refine (guarding_ends_of_faulted hs hm (initStore_ends d)).imp (fun _ _ h => h) ?_ id
    exact fun _ t h => ⟨h.1.changes, h.1.dropped, h.2⟩

/-- Bringing up one memory after another changes no byte, and fails only when a device does. -/
theorem initFrom_ends (rest : List (Memory n k)) (index : Nat) (s : Storage n k) (hs : s.InOrder)
    (h : ∀ i memory, rest[i]? = some memory → s.memories[index + i]? = some memory) :
    (initFrom index rest).Ends s (fun _ t => s.Still t ∧ t.buffer = s.buffer)
      (fun _ t => s.Still t ∧ t.buffer.bytes = [] ∧ s.Faulted t) False := by
  induction rest generalizing index s with
  | nil => exact ⟨Changes.refl _ s, rfl⟩
  | cons memory rest ih =>
    refine (initMemory_ends hs (h 0 memory rfl)).bind ?_ (fun _ _ h => h) id
    intro _ t hended
    obtain ⟨ht, hbuffer⟩ := hended
    refine (ih (index + 1) t (ht.inOrder hs) ?_).imp ?_ ?_ id
    · intro i memory' hi
      rw [ht.setup.memories, Nat.add_right_comm]
      exact h (i + 1) memory' hi
    · intro _ u hended
      obtain ⟨hu, hbuffer'⟩ := hended
      exact ⟨ht.trans hu, hbuffer'.trans hbuffer⟩
    · intro _ u hended
      obtain ⟨hu, hdropped, hf⟩ := hended
      exact ⟨ht.trans hu, hdropped, ht.faulted_right hf⟩

/-- The devices are all switched on, unless one of them is at fault. -/
theorem init_ends (hs : s.InOrder) : (init : Op n k Unit).Ends s
    (fun _ t => s.Still t ∧ t.buffer = s.buffer)
    (fun _ t => s.Still t ∧ t.buffer.bytes = [] ∧ s.Faulted t) False := by
  simp only [init]
  rw [Action.ends_get_bind]
  refine initFrom_ends _ 0 s hs fun i memory hi => ?_
  rwa [Nat.zero_add]

private theorem closeEvery_ends (rest : List (Memory n k)) (index : Nat) (s : Storage n k)
    (hs : s.InOrder)
    (h : ∀ i memory, rest[i]? = some memory → s.memories[index + i]? = some memory) :
    (everyMemory closeMemory index rest : Action (Storage n k) ε Bool).Ends s
      (fun _ t => s.Still t ∧ t.buffer = s.buffer) (fun _ _ => False) False := by
  induction rest generalizing index s with
  | nil => exact ⟨Changes.refl _ s, rfl⟩
  | cons memory rest ih =>
    refine (closeMemory_ends hs (h 0 memory rfl)).bind ?_ (fun _ _ h => h) id
    intro _ t hended
    obtain ⟨ht, hbuffer⟩ := hended
    refine (ih (index + 1) t (ht.inOrder hs) ?_).bind ?_ (fun _ _ h => h) id
    · intro i memory' hi
      rw [ht.setup.memories, Nat.add_right_comm]
      exact h (i + 1) memory' hi
    · intro _ u hended
      obtain ⟨hu, hbuffer'⟩ := hended
      exact ⟨ht.trans hu, hbuffer'.trans hbuffer⟩

/-- Closing the files changes no byte, whether or not the stores answer. -/
theorem closeFiles_ends (hs : s.InOrder) : (closeFiles : Op n k Unit).Ends s
    (fun _ t => s.Still t ∧ t.buffer = s.buffer) (fun _ t => s.Still t ∧ t.buffer = s.buffer)
    False := by
  simp only [closeFiles]
  rw [Action.ends_get_bind]
  refine (closeEvery_ends _ 0 s hs fun i memory hi => ?_).bind ?_ (fun _ _ h => h.elim) id
  · rwa [Nat.zero_add]
  · rintro (_ | _) t ht <;> exact ht

/-! ### Giving devices back -/

private theorem openFiles_closeSlot (slot : SlotId) (device : Fin k) :
    (closeSlot slot device : Action (Storage n k) ε Bool).Yields s
      (fun _ t => t.openFiles = s.openFiles.filter (·.slot ≠ slot)) := by
  simp only [closeSlot]
  rw [Action.Yields, Action.ends_get_bind]
  split
  · rename_i hnone
    have hall : ∀ file ∈ s.openFiles, decide (file.slot ≠ slot) = true := by
      simpa [openFile?] using hnone
    exact (List.filter_eq_self.mpr hall).symm
  · rename_i file hfile
    rw [Action.ends_modify_bind]
    have hclose : (onStore device (FileLink.close file.handle)).Ends (s.forget slot)
        (fun _ t => t.openFiles = (s.forget slot).openFiles) (fun _ t => t.openFiles = (s.forget slot).openFiles)
        True := onStore_ends.mpr (Action.ends_of_all (fun _ _ => rfl) (fun _ _ => rfl) trivial)
    exact hclose.attempt_bind (fun _ _ h => h) (fun _ _ h => h) id

private theorem openFiles_closeSlots (slots : List SlotId) (device : Fin k) :
    (closeSlots device slots : Action (Storage n k) ε Bool).Yields s
      (fun _ t => ∀ file ∈ t.openFiles, file ∈ s.openFiles ∧ file.slot ∉ slots) := by
  induction slots generalizing s with
  | nil => exact fun file hfile => ⟨hfile, List.not_mem_nil⟩
  | cons slot rest ih =>
    refine (openFiles_closeSlot slot device).bind fun _ t ht => Action.Yields.bind ih fun _ u hu => ?_
    intro file hfile
    obtain ⟨hold, hrest⟩ := hu file hfile
    rw [ht] at hold
    obtain ⟨hmem, hdecided⟩ := List.mem_filter.mp hold
    have hne : file.slot ≠ slot := of_decide_eq_true hdecided
    exact ⟨hmem, fun hin => (List.mem_cons.mp hin).elim hne hrest⟩

private theorem openFiles_closeMemory {index : Nat} :
    (closeMemory index memory : Action (Storage n k) ε Bool).Yields s (fun _ t => ∀ file ∈ t.openFiles,
      file ∈ s.openFiles ∧ ∀ device, memory.device = .files device → file.slot ∉ slotIds index memory) := by
  simp only [closeMemory]
  split
  · rename_i d hd
    exact fun file hfile => ⟨hfile, fun device hdevice => by rw [hd] at hdevice; cases hdevice⟩
  · exact (openFiles_closeSlots _ _).imp fun _ t h file hfile => ⟨(h file hfile).1, fun _ _ => (h file hfile).2⟩

private theorem mem_slotIds (hl : s.lookup? slot = .ok (memory, entry)) : slot ∈ slotIds slot.memory memory :=
  List.mem_map.mpr ⟨slot.index, List.mem_range.mpr (List.getElem?_eq_some_iff.mp (getElem?_of_lookup? hl).2).1, rfl⟩

private theorem openFiles_closeEvery (rest : List (Memory n k)) (index : Nat) (s : Storage n k) (hs : s.InOrder)
    (hrest : ∀ i, s.memories[index + i]? = rest[i]?) :
    (everyMemory closeMemory index rest : Action (Storage n k) ε Bool).Yields s
      (fun _ t => ∀ file ∈ t.openFiles, file ∈ s.openFiles ∧ file.slot.memory < index) := by
  -- Once every memory has been closed no file is held open: those that were are files of slots.
  induction rest generalizing index s with
  | nil =>
    intro file hfile
    refine ⟨hfile, Nat.lt_of_not_le fun hle => ?_⟩
    obtain ⟨memory, entry, _, _, hl, -⟩ := hs.handles file hfile
    obtain ⟨i, hi⟩ := Nat.le.dest hle
    have hnone := hrest i
    rw [hi, (getElem?_of_lookup? hl).1] at hnone
    cases hnone
  | cons memory rest ih =>
    have hm : s.memories[index]? = some memory := hrest 0
    refine ((closeMemory_ends hs hm).and_yields openFiles_closeMemory).yields.bind ?_
    intro _ t hended
    obtain ⟨⟨hstill, -⟩, hclosed⟩ := hended
    refine Action.Yields.bind (ih (index + 1) t (hstill.inOrder hs) fun i => ?_) fun _ u hu file hfile => ?_
    · rw [hstill.setup.memories, Nat.add_right_comm]
      exact hrest (i + 1)
    · obtain ⟨hkept, hlt⟩ := hu file hfile
      obtain ⟨hold, hnot⟩ := hclosed file hkept
      refine ⟨hold, Nat.lt_of_le_of_ne (Nat.le_of_lt_succ hlt) fun heq => ?_⟩
      obtain ⟨memory', entry, device, _, hl, hd, -⟩ := hs.handles file hold
      have hsame := (getElem?_of_lookup? hl).1
      rw [heq, hm] at hsame
      cases hsame
      exact hnot device hd (heq ▸ mem_slotIds hl)

private theorem releaseDevice_ends (device : DeviceId n k) (hfiles : s.openFiles = []) :
    (match device with
      | .flash d => onFlash d FlashLink.release
      | .files d => onStore d FileLink.release : Call n k Unit).Ends s
      (fun _ t => s.Still t ∧ t.openFiles = [] ∧ t.buffer = s.buffer)
      (fun _ t => s.Still t ∧ t.openFiles = [] ∧ t.buffer = s.buffer) False := by
  cases device with
  | flash d =>
    refine onFlash_ends.mpr (FlashLink.release_ends.imp ?_ ?_ id)
    · intro _ link hended
      obtain ⟨hk, -, hdevice⟩ := hended
      exact ⟨withFlash_still hk (by rw [hdevice]; rfl) (by rw [hdevice]; rfl), hfiles, rfl⟩
    · intro _ link hended
      obtain ⟨hk, hdevice, -⟩ := hended
      exact ⟨withFlash_still hk (by rw [hdevice]; rfl) (by rw [hdevice]; rfl), hfiles, rfl⟩
  | files d =>
    -- The handles of a store are lost, but none is in use.
    have hnone : ∀ file ∈ s.openFiles, ∀ P : Prop, P := fun file hfile => by
      rw [hfiles] at hfile
      cases hfile
    refine onStore_ends.mpr (FileLink.release_ends.imp ?_ ?_ id)
    · intro _ link hended
      obtain ⟨hk, hsame, hgranule⟩ := hended
      refine ⟨withStore_changes hk hgranule (fun path _ => ?_) (fun file hfile _ _ _ => hnone file hfile _),
        hfiles, rfl⟩
      rw [FileStore.file?, hsame]
      rfl
    · intro _ link hended
      obtain ⟨hk, hdevice⟩ := hended
      exact ⟨withStore_still hk (by rw [hdevice]; rfl) (by rw [hdevice]; rfl) (by rw [hdevice]; rfl), hfiles, rfl⟩

private theorem releaseMemory_ends {index : Nat} (hfiles : s.openFiles = []) :
    (releaseMemory index memory : Action (Storage n k) ε Bool).Ends s
      (fun _ t => s.Still t ∧ t.openFiles = [] ∧ t.buffer = s.buffer) (fun _ _ => False) False := by
  simp only [releaseMemory]
  exact (releaseDevice_ends memory.device hfiles).attempt_bind (fun _ _ h => h) (fun _ _ h => h) id

private theorem releaseEvery_ends (rest : List (Memory n k)) (index : Nat) (hfiles : s.openFiles = []) :
    (everyMemory releaseMemory index rest : Action (Storage n k) ε Bool).Ends s
      (fun _ t => s.Still t ∧ t.buffer = s.buffer) (fun _ _ => False) False := by
  induction rest generalizing index s with
  | nil => exact ⟨Changes.refl _ s, rfl⟩
  | cons memory rest ih =>
    refine (releaseMemory_ends hfiles).bind ?_ (fun _ _ h => h) id
    intro _ t hended
    obtain ⟨ht, hfiles', hbuffer⟩ := hended
    refine (ih (index + 1) hfiles').bind ?_ (fun _ _ h => h) id
    exact fun _ u hu => ⟨ht.trans hu.1, hu.2.trans hbuffer⟩

/-- Devices are given back with no file of theirs held open. -/
theorem release_ends (hs : s.InOrder) : (release : Op n k Unit).Ends s
    (fun _ t => s.Still t ∧ t.buffer.bytes = []) (fun _ t => s.Still t ∧ t.buffer.bytes = []) False := by
  have hdrop : s.Still { s with buffer := s.buffer.dropPending } := still_buffer s _
  have hclosed := (closeEvery_ends s.memories 0 { s with buffer := s.buffer.dropPending } (hdrop.inOrder hs)
    (fun i memory hi => by rwa [Nat.zero_add])).and_yields (ε := Error)
    (openFiles_closeEvery s.memories 0 _ (hdrop.inOrder hs) fun i => by rw [Nat.zero_add])
  simp only [release, dropPending]
  simp only [Action.ends_modify_bind, Action.ends_get_bind]
  refine hclosed.bind ?_ (fun _ _ h => h.elim) id
  intro _ t hended
  obtain ⟨⟨ht, hbuffer⟩, hnone⟩ := hended
  have hfiles : t.openFiles = [] :=
    List.eq_nil_iff_forall_not_mem.mpr fun file hfile => Nat.not_lt_zero _ (hnone file hfile).2
  refine (releaseEvery_ends s.memories 0 hfiles).bind ?_ (fun _ _ h => h.elim) id
  intro _ u hended
  obtain ⟨hu, hbuffer'⟩ := hended
  have hdropped : s.Still u ∧ u.buffer.bytes = [] := by
    refine ⟨(hdrop.trans ht).trans hu, ?_⟩
    rw [hbuffer', hbuffer]
    rfl
  split
  · exact hdropped
  · exact hdropped

end FirmwareUpdate.Storage
