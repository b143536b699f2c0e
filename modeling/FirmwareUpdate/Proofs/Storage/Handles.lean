import FirmwareUpdate.Proofs.Device.Handles
import FirmwareUpdate.Proofs.Storage.Cleanup
import FirmwareUpdate.Proofs.Storage.Isolation

/-! Which files a storage holds open. A file is opened when its slot is first used, opened anew when it is to be written
to, and closed again by several roads, on each of which the device may refuse. -/
namespace FirmwareUpdate.Storage
variable {n k : Nat} {ε α : Type} {s₀ s t : Storage n k} {memory memory' : Memory n k} {entry : Slot}
  {slot slot' : SlotId} {d d' : Fin k} {path path' : String} {file : OpenFile} {link : FileLink}
  {index handle offset length : Nat} {mode : FileMode}

/-- The slot is kept in this file of this store. -/
def KeptIn (s : Storage n k) (slot : SlotId) (d : Fin k) (path : String) : Prop :=
  ∃ memory entry, s.lookup? slot = .ok (memory, entry) ∧ memory.device = .files d ∧ entry.location = .file path

/-- No two memories are kept on one store, and no two slots of a memory in one file. A memory has no more slots than
may be planned for it. -/
structure FilesApart (s : Storage n k) : Prop where
  stores : ∀ (i j : Nat) (memory memory' : Memory n k) (d : Fin k), s.memories[i]? = some memory →
    s.memories[j]? = some memory' → memory.device = .files d → memory'.device = .files d → i = j
  files : ∀ slot slot' d path, s.KeptIn slot d path → s.KeptIn slot' d path → slot = slot'
  slots_le : ∀ memory ∈ s.memories, memory.slots.length ≤ slotLimit

private theorem openFile?_remember (s : Storage n k) (file : OpenFile) (slot : SlotId) :
    (s.remember file).openFile? slot = if slot = file.slot then some file else s.openFile? slot := by
  simp only [openFile?, remember, List.find?_cons]
  by_cases hsame : slot = file.slot
  · simp [hsame]
  · simp [hsame, Ne.symm hsame]

/-- Every handle of a store that is open is open for a slot. -/
def Owned (s : Storage n k) (d : Fin k) : Prop :=
  ∀ handle path, (s.store d).pathOf? handle = some path →
    ∃ slot file, s.openFile? slot = some file ∧ s.KeptIn slot d path ∧ file.handle = handle

private theorem KeptIn.congr (hm : t.memories = s.memories) : t.KeptIn slot d path ↔ s.KeptIn slot d path := by
  simp only [KeptIn, lookup?]
  rw [hm]

/-- A slot has one file, in one store. -/
theorem KeptIn.unique (h : s.KeptIn slot d path) (h' : s.KeptIn slot d' path') : d = d' ∧ path = path' := by
  obtain ⟨memory, entry, hl, hd, hp⟩ := h
  obtain ⟨memory', entry', hl', hd', hp'⟩ := h'
  obtain ⟨rfl, rfl⟩ := Prod.mk.inj (Except.ok.inj (hl.symm.trans hl'))
  exact ⟨DeviceId.files.inj (hd.symm.trans hd'), Location.file.inj (hp.symm.trans hp')⟩

private theorem KeptIn.hosted (h : s.KeptIn slot d path) : ∃ memory, s.memories[slot.memory]? = some memory ∧
    memory.device = .files d ∧ slot ∈ slotIds slot.memory memory := by
  obtain ⟨memory, entry, hl, hd, -⟩ := h
  obtain ⟨hm, he⟩ := getElem?_of_lookup? hl
  exact ⟨memory, hm, hd, List.mem_map.mpr ⟨slot.index, List.mem_range.mpr (List.getElem?_eq_some_iff.mp he).1, rfl⟩⟩

/-- The slots that are kept on a store are those of the memory that is kept on it. -/
theorem FilesApart.mem_slotIds (h : s.FilesApart) (hm : s.memories[index]? = some memory)
    (hd : memory.device = .files d) (hkept : s.KeptIn slot d path) : slot ∈ slotIds index memory := by
  obtain ⟨memory', hm', hd', hmem⟩ := hkept.hosted
  obtain rfl := h.stores _ _ _ _ _ hm hm' hd hd'
  obtain rfl := Option.some.inj (hm.symm.trans hm')
  exact hmem

private theorem nodup_slotIds (index : Nat) (memory : Memory n k) : (slotIds index memory).Nodup :=
  List.Pairwise.map _ (fun _ _ hne hij => hne (congrArg SlotId.index hij)) List.nodup_range

/-! ### The discipline -/

/-- What is known of one store and of the slots that are kept on it. -/
structure Attended (s₀ s : Storage n k) (d : Fin k) : Prop where
  schedule : (s.fileLink d).schedule = (s₀.fileLink d).schedule
  closes : (s₀.fileLink d).calls.close ≤ (s.fileLink d).calls.close
  bound : ∀ slot path file, s.KeptIn slot d path → s.openFile? slot = some file →
    (s.store d).pathOf? file.handle = some path
  accounted : (s₀.store d).openCount = 0 → (s₀.fileLink d).ClosesHeeded (s.fileLink d) →
    s.Owned d ∧ ((s₀.fileLink d).Plain → (s.fileLink d).shortages = (s₀.fileLink d).shortages)

/-- Since `s₀` a storage has opened files for its slots only, and has lost none of them. -/
structure Disciplined (s₀ s : Storage n k) : Prop where
  memories : s.memories = s₀.memories
  kept : ∀ slot file, s.openFile? slot = some file → ∃ d path, s.KeptIn slot d path
  attended : ∀ d, Attended s₀ s d

/-- What is done elsewhere is of no matter. -/
theorem Attended.frame (h : Attended s₀ s d) (hm : t.memories = s.memories) (hl : t.fileLink d = s.fileLink d)
    (hf : ∀ slot path, s.KeptIn slot d path → t.openFile? slot = s.openFile? slot) : Attended s₀ t d := by
  have hstore : t.store d = s.store d := congrArg Link.device hl
  obtain ⟨hschedule, hcloses, hbound, haccounted⟩ := h
  refine ⟨hl ▸ hschedule, hl ▸ hcloses, fun slot path file hkept hfile => ?_, fun hfresh hheeded => ?_⟩
  · rw [KeptIn.congr hm] at hkept
    rw [hf _ _ hkept] at hfile
    exact hstore ▸ hbound _ _ _ hkept hfile
  · rw [hl] at hheeded ⊢
    obtain ⟨howned, hshort⟩ := haccounted hfresh hheeded
    refine ⟨fun handle path hpath => ?_, hshort⟩
    rw [hstore] at hpath
    obtain ⟨slot, file, hfile, hkept, hhandle⟩ := howned _ _ hpath
    exact ⟨slot, file, (hf _ _ hkept).trans hfile, (KeptIn.congr hm).mpr hkept, hhandle⟩

/-- Two slots of one store are open under different handles. -/
theorem Attended.slot_unique {file' : OpenFile} (h : Attended s₀ s d) (hs : s.FilesApart) (hkept : s.KeptIn slot d path)
    (hkept' : s.KeptIn slot' d path') (hfile : s.openFile? slot = some file) (hfile' : s.openFile? slot' = some file')
    (hsame : file.handle = file'.handle) : slot = slot' := by
  have hpath := h.bound _ _ _ hkept hfile
  rw [hsame, h.bound _ _ _ hkept' hfile'] at hpath
  obtain rfl := Option.some.inj hpath
  exact hs.files _ _ _ _ hkept hkept'

namespace Disciplined

/-- A slot that is open and belongs to the memory of a store is kept on that store. -/
theorem keptOn (h : Disciplined s₀ s) (hm : s.memories[index]? = some memory) (hd : memory.device = .files d)
    (hslot : slot ∈ slotIds index memory) (hfile : s.openFile? slot = some file) : ∃ path, s.KeptIn slot d path := by
  obtain ⟨i, -, rfl⟩ := List.mem_map.mp hslot
  obtain ⟨d', path, hkept⟩ := h.kept _ _ hfile
  obtain ⟨memory', hm', hd', -⟩ := hkept.hosted
  obtain rfl := Option.some.inj (hm.symm.trans hm')
  obtain rfl := DeviceId.files.inj (hd.symm.trans hd')
  exact ⟨path, hkept⟩

/-- Only slots of memories that are kept on a store are open. -/
theorem openFile?_eq_none (h : Disciplined s₀ s)
    (hno : ∀ memory d, s.memories[slot.memory]? = some memory → memory.device = .files d →
      slot ∉ slotIds slot.memory memory) : s.openFile? slot = none := by
  cases hfile : s.openFile? slot with
  | none => rfl
  | some file =>
    obtain ⟨d, path, hkept⟩ := h.kept _ _ hfile
    obtain ⟨memory, hm, hd, hmem⟩ := hkept.hosted
    exact (hno memory d hm hd hmem).elim

/-- The handles of a store that are open are counted by the slots that are. -/
theorem openCount_eq (h : Disciplined s₀ s) (hs : s.FilesApart) (howned : s.Owned d)
    (hm : s.memories[index]? = some memory) (hd : memory.device = .files d) :
    (s.store d).openCount = (slotIds index memory).countP s.holdsFile := by
  let handleOf := fun slot => (s.openFile? slot).map OpenFile.handle
  let taken := (List.range handleCount).filter fun handle => ((s.store d).pathOf? handle).isSome
  have htaken : taken.Nodup := List.nodup_range.filter _
  have hheld : ((slotIds index memory).filterMap handleOf).Nodup := by
    refine List.pairwise_filterMap.mpr ((nodup_slotIds index memory).imp_of_mem fun {slot slot'} hslot hslot' hne => ?_)
    intro handle hhandle handle' hhandle' hsame
    obtain ⟨file, hfile, rfl⟩ := Option.map_eq_some_iff.mp hhandle
    obtain ⟨file', hfile', rfl⟩ := Option.map_eq_some_iff.mp hhandle'
    obtain ⟨path, hkept⟩ := h.keptOn hm hd hslot hfile
    obtain ⟨path', hkept'⟩ := h.keptOn hm hd hslot' hfile'
    exact hne ((h.attended d).slot_unique hs hkept hkept' hfile hfile' hsame)
  have hsame : taken.Perm ((slotIds index memory).filterMap handleOf) := by
    refine (List.perm_ext_iff_of_nodup htaken hheld).mpr fun handle => ⟨fun hmem => ?_, fun hmem => ?_⟩
    · obtain ⟨path, hpath⟩ := Option.isSome_iff_exists.mp (List.mem_filter.mp hmem).2
      obtain ⟨slot, file, hfile, hkept, rfl⟩ := howned _ _ hpath
      exact List.mem_filterMap.mpr ⟨slot, hs.mem_slotIds hm hd hkept, by simp [handleOf, hfile]⟩
    · obtain ⟨slot, hslot, hhandle⟩ := List.mem_filterMap.mp hmem
      obtain ⟨file, hfile, rfl⟩ := Option.map_eq_some_iff.mp hhandle
      obtain ⟨path, hkept⟩ := h.keptOn hm hd hslot hfile
      have hpath := (h.attended d).bound _ _ _ hkept hfile
      exact List.mem_filter.mpr ⟨List.mem_range.mpr (FileStore.lt_of_pathOf? hpath), by simp [hpath]⟩
  calc (s.store d).openCount
      = taken.length := (FileStore.openCount_eq _).trans List.countP_eq_length_filter
    _ = ((slotIds index memory).filterMap handleOf).length := hsame.length_eq
    _ = (slotIds index memory).countP s.holdsFile := by
      rw [List.length_filterMap_eq_countP]
      refine congrArg (List.countP · _) (funext fun slot => ?_)
      simp [handleOf, holdsFile]

/-- A handle is always left, since a memory has fewer slots than a store has handles. -/
theorem openCount_lt (h : Disciplined s₀ s) (hs : s.FilesApart) (howned : s.Owned d) :
    (s.store d).openCount < handleCount := by
  by_cases hhosts : ∃ (index : Nat) (memory : Memory n k), s.memories[index]? = some memory ∧ memory.device = .files d
  · obtain ⟨index, memory, hm, hd⟩ := hhosts
    calc (s.store d).openCount
        = (slotIds index memory).countP s.holdsFile := h.openCount_eq hs howned hm hd
      _ ≤ (slotIds index memory).length := List.countP_le_length
      _ = memory.slots.length := by rw [slotIds, List.length_map, List.length_range]
      _ ≤ slotLimit := hs.slots_le memory (List.mem_of_getElem? hm)
      _ < handleCount := by decide
  · have hzero : (s.store d).openCount = 0 := by
      rw [FileStore.openCount_eq, List.countP_eq_zero]
      intro handle _ hopen
      obtain ⟨path, hpath⟩ := Option.isSome_iff_exists.mp hopen
      obtain ⟨slot, file, -, hkept, -⟩ := howned _ _ hpath
      obtain ⟨memory, hm, hd, -⟩ := hkept.hosted
      exact hhosts ⟨_, memory, hm, hd⟩
    rw [hzero]
    decide

/-! ### Steps -/

/-- A step is told by what it makes of one store, and of the files that are open for the slots kept on it. -/
theorem step (h : Disciplined s₀ s) (hm : t.memories = s.memories)
    (hlinks : ∀ d', t.fileLink d' = if d' = d then link else s.fileLink d')
    (hfiles : ∀ slot, (∀ path, ¬s.KeptIn slot d path) → t.openFile? slot = s.openFile? slot)
    (hschedule : link.schedule = (s₀.fileLink d).schedule) (hcloses : (s₀.fileLink d).calls.close ≤ link.calls.close)
    (hbound : ∀ slot path file, s.KeptIn slot d path → t.openFile? slot = some file →
      link.device.pathOf? file.handle = some path)
    (haccounted : (s₀.store d).openCount = 0 → (s₀.fileLink d).ClosesHeeded link →
      (∀ handle path, link.device.pathOf? handle = some path →
        ∃ slot file, t.openFile? slot = some file ∧ s.KeptIn slot d path ∧ file.handle = handle) ∧
      ((s₀.fileLink d).Plain → link.shortages = (s₀.fileLink d).shortages)) : Disciplined s₀ t := by
  refine ⟨hm.trans h.memories, fun slot file hfile => ?_, fun d' => ?_⟩
  · by_cases hhere : ∃ path, s.KeptIn slot d path
    · obtain ⟨path, hkept⟩ := hhere
      exact ⟨d, path, (KeptIn.congr hm).mpr hkept⟩
    · rw [hfiles slot (not_exists.mp hhere)] at hfile
      obtain ⟨d', path, hkept⟩ := h.kept _ _ hfile
      exact ⟨d', path, (KeptIn.congr hm).mpr hkept⟩
  · by_cases hsame : d' = d
    · subst hsame
      have hlink : t.fileLink d' = link := (hlinks d').trans (if_pos rfl)
      have hstore : t.store d' = link.device := congrArg Link.device hlink
      refine ⟨hlink ▸ hschedule, hlink ▸ hcloses, fun slot path file hkept hfile => ?_, fun hfresh hheeded => ?_⟩
      · exact hstore ▸ hbound _ _ _ ((KeptIn.congr hm).mp hkept) hfile
      · rw [hlink] at hheeded ⊢
        obtain ⟨howned, hshort⟩ := haccounted hfresh hheeded
        refine ⟨fun handle path hpath => ?_, hshort⟩
        obtain ⟨slot, file, hfile, hkept, hhandle⟩ := howned _ _ (hstore ▸ hpath)
        exact ⟨slot, file, hfile, (KeptIn.congr hm).mpr hkept, hhandle⟩
    · refine (h.attended d').frame hm ((hlinks d').trans (if_neg hsame)) fun slot path hkept => ?_
      exact hfiles slot fun path' hkept' => hsame (hkept.unique hkept').1

private theorem others_of_kept (hkept : s.KeptIn slot d path) {now : Option OpenFile}
    (hfiles : ∀ slot', t.openFile? slot' = if slot' = slot then now else s.openFile? slot') (slot' : SlotId)
    (hno : ∀ path, ¬s.KeptIn slot' d path) : t.openFile? slot' = s.openFile? slot' := by
  rw [hfiles, if_neg]
  rintro rfl
  exact hno path hkept

private theorem accounts (h : Disciplined s₀ s) (hs : s.FilesApart) (hproceeds : (s.fileLink d).Proceeds link)
    (hfresh : (s₀.store d).openCount = 0) (hheeded : (s₀.fileLink d).ClosesHeeded link) :
    s.Owned d ∧ ((s₀.fileLink d).Plain → link.shortages = (s₀.fileLink d).shortages) := by
  have hheeded' : (s₀.fileLink d).ClosesHeeded (s.fileLink d) := fun i hlower hupper =>
    hheeded i hlower (hproceeds.closes ▸ hupper)
  obtain ⟨howned, hshort⟩ := (h.attended d).accounted hfresh hheeded'
  refine ⟨howned, fun hplain => (hproceeds.shortages ?_ (h.openCount_lt hs howned)).trans (hshort hplain)⟩
  rw [FileLink.Plain, (h.attended d).schedule]
  exact hplain

/-- What is neither on a store nor a file that is open may change. -/
theorem aside (h : Disciplined s₀ s) (hm : t.memories = s.memories) (hl : ∀ d, t.fileLink d = s.fileLink d)
    (hf : t.openFiles = s.openFiles) : Disciplined s₀ t := by
  have hfiles : ∀ slot, t.openFile? slot = s.openFile? slot := fun slot => by rw [openFile?, openFile?, hf]
  refine ⟨hm.trans h.memories, fun slot file hfile => ?_,
    fun d => (h.attended d).frame hm (hl d) fun slot _ _ => hfiles slot⟩
  obtain ⟨d, path, hkept⟩ := h.kept slot file (hfiles slot ▸ hfile)
  exact ⟨d, path, (KeptIn.congr hm).mpr hkept⟩

private theorem steady (h : Disciplined s₀ s) (hs : s.FilesApart) (hsteady : (s.fileLink d).Steady link) :
    Disciplined s₀ (s.withStore d link) := by
  obtain ⟨hschedule, hcloses, hbound, -⟩ := h.attended d
  have hpaths : ∀ handle, link.device.pathOf? handle = (s.store d).pathOf? handle :=
    FileStore.pathOf?_of_handles hsteady.handles
  refine h.step rfl (fileLink_withStore s d · link) (fun _ _ => rfl) (hsteady.schedule.trans hschedule)
    (hsteady.closes ▸ hcloses) (fun slot path file hkept hfile => ?_) fun hfresh hheeded => ?_
  · exact (hpaths _).trans (hbound slot path file hkept hfile)
  · obtain ⟨howned, hshort⟩ := h.accounts hs hsteady.toProceeds hfresh hheeded
    exact ⟨fun handle path hpath => howned _ _ ((hpaths _).symm.trans hpath), hshort⟩

/-- A file is opened for a slot that had none open. -/
theorem opened (h : Disciplined s₀ s) (hs : s.FilesApart) (hkept : s.KeptIn slot d path)
    (hnone : s.openFile? slot = none) (hproceeds : (s.fileLink d).Proceeds link)
    (htakes : (s.store d).Takes path handle link.device) :
    Disciplined s₀ ((s.withStore d link).remember { slot, handle, mode }) := by
  obtain ⟨hschedule, hcloses, hbound, -⟩ := h.attended d
  have hfiles : ∀ slot', ((s.withStore d link).remember { slot, handle, mode }).openFile? slot' =
      if slot' = slot then some { slot, handle, mode } else s.openFile? slot' := openFile?_remember _ _
  refine h.step rfl (fileLink_withStore s d · link) (others_of_kept hkept hfiles)
    (hproceeds.schedule.trans hschedule) (hproceeds.closes ▸ hcloses) (fun slot' path' file hkept' hfile => ?_)
    fun hfresh hheeded => ?_
  · rw [hfiles] at hfile
    split at hfile
    · rename_i hsame
      subst hsame
      cases hfile
      rw [(hkept'.unique hkept).2]
      exact htakes.path
    · have hpath := hbound slot' path' file hkept' hfile
      have hother : file.handle ≠ handle := fun hsame => by
        rw [hsame, htakes.free] at hpath
        cases hpath
      rw [htakes.others _ hother]
      exact hpath
  · obtain ⟨howned, hshort⟩ := h.accounts hs hproceeds hfresh hheeded
    refine ⟨fun handle' path' hpath => ?_, hshort⟩
    by_cases hnew : handle' = handle
    · subst hnew
      obtain rfl := Option.some.inj (htakes.path.symm.trans hpath)
      exact ⟨slot, _, (hfiles slot).trans (if_pos rfl), hkept, rfl⟩
    · rw [htakes.others _ hnew] at hpath
      obtain ⟨slot', file, hfile, hkept', hhandle⟩ := howned _ _ hpath
      refine ⟨slot', file, (hfiles slot').trans ((if_neg ?_).trans hfile), hkept', hhandle⟩
      rintro rfl
      rw [hnone] at hfile
      cases hfile

/-- The file of a slot is closed. -/
theorem closed (h : Disciplined s₀ s) (hs : s.FilesApart) (hkept : s.KeptIn slot d path)
    (hfile : s.openFile? slot = some file) (hschedule : link.schedule = (s.fileLink d).schedule)
    (hcloses : link.calls.close = (s.fileLink d).calls.close + 1) (hshort : link.shortages = (s.fileLink d).shortages)
    (hfrees : (s.store d).Frees file.handle link.device) : Disciplined s₀ ((s.forget slot).withStore d link) := by
  obtain ⟨hschedule', hcloses', hbound, haccounted⟩ := h.attended d
  have hfiles : ∀ slot', ((s.forget slot).withStore d link).openFile? slot' =
      if slot' = slot then none else s.openFile? slot' := openFile?_forget s slot
  refine h.step rfl (fileLink_withStore (s.forget slot) d · link) (others_of_kept hkept hfiles)
    (hschedule.trans hschedule') (by omega) (fun slot' path' file' hkept' hfile' => ?_) fun hfresh hheeded => ?_
  · rw [hfiles] at hfile'
    split at hfile'
    · cases hfile'
    · rename_i hne
      rw [hfrees.others _ fun hsame => hne ((h.attended d).slot_unique hs hkept' hkept hfile' hfile hsame)]
      exact hbound slot' path' file' hkept' hfile'
  · obtain ⟨howned, hshort'⟩ := haccounted hfresh fun i hlower hupper => hheeded i hlower (by omega)
    refine ⟨fun handle path' hpath => ?_, fun hplain => hshort.trans (hshort' hplain)⟩
    have hother : handle ≠ file.handle := by
      rintro rfl
      rw [hfrees.free] at hpath
      cases hpath
    rw [hfrees.others _ hother] at hpath
    obtain ⟨slot', file', hfile', hkept', rfl⟩ := howned _ _ hpath
    refine ⟨slot', file', (hfiles slot').trans ((if_neg ?_).trans hfile'), hkept', rfl⟩
    rintro rfl
    exact hother (congrArg OpenFile.handle (Option.some.inj (hfile'.symm.trans hfile)))

/-- The call to close the file of a slot is failed. The slot is closed all the same, and its handle is lost. -/
theorem abandoned (h : Disciplined s₀ s) (hkept : s.KeptIn slot d path)
    (hschedule : link.schedule = (s.fileLink d).schedule)
    (hcloses : link.calls.close = (s.fileLink d).calls.close + 1)
    (hdue : (s.fileLink d).schedule .close (s.fileLink d).calls.close ≠ none) (hdevice : link.device = s.store d) :
    Disciplined s₀ ((s.forget slot).withStore d link) := by
  obtain ⟨hschedule', hcloses', hbound, -⟩ := h.attended d
  have hfiles : ∀ slot', ((s.forget slot).withStore d link).openFile? slot' =
      if slot' = slot then none else s.openFile? slot' := openFile?_forget s slot
  refine h.step rfl (fileLink_withStore (s.forget slot) d · link) (others_of_kept hkept hfiles)
    (hschedule.trans hschedule') (by omega) (fun slot' path' file' hkept' hfile' => ?_) fun _ hheeded => ?_
  · rw [hfiles] at hfile'
    split at hfile'
    · cases hfile'
    · rw [hdevice]
      exact hbound slot' path' file' hkept' hfile'
  · rw [hschedule'] at hdue
    exact (hdue (hheeded _ hcloses' (by omega))).elim

/-- A store is given back while no slot is open. -/
theorem released (h : Disciplined s₀ s) (hs : s.FilesApart) (hnone : ∀ slot, s.openFile? slot = none)
    (hproceeds : (s.fileLink d).Proceeds link) (hfree : ∀ handle, link.device.pathOf? handle = none) :
    Disciplined s₀ (s.withStore d link) := by
  obtain ⟨hschedule, hcloses, -, -⟩ := h.attended d
  refine h.step rfl (fileLink_withStore s d · link) (fun _ _ => rfl) (hproceeds.schedule.trans hschedule)
    (hproceeds.closes ▸ hcloses) (fun slot path file _ hfile => ?_) fun hfresh hheeded => ?_
  · cases (hnone slot).symm.trans hfile
  · refine ⟨fun handle path hpath => ?_, (h.accounts hs hproceeds hfresh hheeded).2⟩
    cases (hfree handle).symm.trans hpath

end Disciplined

/-! ### Requests -/

section Requests
variable (hs₀ : s₀.FilesApart)

/-- Whose file is whose depends on the memories alone. -/
theorem FilesApart.congr (h : s.FilesApart) (hm : t.memories = s.memories) : t.FilesApart := by
  refine ⟨?_, fun slot slot' d path hkept hkept' => ?_, ?_⟩
  · rw [hm]
    exact h.stores
  · exact h.files _ _ _ _ ((KeptIn.congr hm).mp hkept) ((KeptIn.congr hm).mp hkept')
  · rw [hm]
    exact h.slots_le

private theorem onFlash_disciplined {d : Fin n} {call : FlashLink.Call α} :
    Action.Preserves (Disciplined s₀) True (onFlash d call) := fun _ hs =>
  onFlash_ends.mpr (Action.ends_of_all (fun _ _ => hs.aside rfl (fun _ => rfl) rfl)
    (fun _ _ => hs.aside rfl (fun _ => rfl) rfl) trivial)

include hs₀

private theorem onStore_disciplined {call : FileLink.Call α}
    (h : ∀ l, call.Ends l (fun _ m => l.Steady m) (fun _ m => l.Steady m) False) :
    Action.Preserves (Disciplined s₀) True (onStore d call) := fun s hs =>
  onStore_ends.mpr ((h (s.fileLink d)).imp (fun _ _ hm => hs.steady (hs₀.congr hs.memories) hm)
    (fun _ _ hm => hs.steady (hs₀.congr hs.memories) hm) False.elim)

private theorem openFor_disciplined (hs : Disciplined s₀ s) (hkept : s.KeptIn slot d path)
    (hnone : s.openFile? slot = none) : (openFor slot d path mode).Ends s (fun _ t => Disciplined s₀ t)
      (fun _ t => Disciplined s₀ t) True := by
  have hs' := hs₀.congr hs.memories
  simp only [openFor]
  rw [Action.ends_bind]
  refine onStore_ends.mpr (FileLink.openFile_takes.imp (fun handle link hended => ?_)
    (fun _ _ hended => hs.steady hs' hended) False.elim)
  simp only [Action.ends_modify_bind, Action.ends_pure]
  exact hs.opened hs' hkept hnone hended.1 hended.2

private theorem closeFile_disciplined (hs : Disciplined s₀ s) (hkept : s.KeptIn slot d path)
    (hfile : s.openFile? slot = some file) :
    (onStore d (FileLink.close file.handle)).Ends (s.forget slot)
      (fun _ t => Disciplined s₀ t ∧ ∀ slot', t.openFile? slot' = if slot' = slot then none else s.openFile? slot')
      (fun _ t => Disciplined s₀ t ∧ ∀ slot', t.openFile? slot' = if slot' = slot then none else s.openFile? slot')
      False := by
  -- A file is closed together with what the storage knows of it.
  have hs' := hs₀.congr hs.memories
  have hpath : ((s.forget slot).fileLink d).device.pathOf? file.handle = some path :=
    (hs.attended d).bound _ _ _ hkept hfile
  refine onStore_ends.mpr ((FileLink.close_frees hpath).imp ?_ ?_ id)
  · intro _ link hended
    obtain ⟨hschedule, hcloses, hshort, hfrees⟩ := hended
    exact ⟨hs.closed hs' hkept hfile hschedule hcloses hshort hfrees, openFile?_forget s slot⟩
  · intro _ link hended
    obtain ⟨hschedule, hcloses, hdue, hdevice⟩ := hended
    exact ⟨hs.abandoned hkept hschedule hcloses hdue hdevice, openFile?_forget s slot⟩

private theorem handleFor_disciplined (hkept : s₀.KeptIn slot d path) :
    Action.Preserves (Disciplined s₀) True (handleFor slot d path mode) := by
  intro s hs
  have hkept' : s.KeptIn slot d path := (KeptIn.congr hs.memories).mpr hkept
  simp only [handleFor]
  rw [Action.ends_get_bind]
  split
  · rename_i hnone
    exact openFor_disciplined hs₀ hs hkept' hnone
  · rename_i file hfile
    split
    · exact hs
    · rw [Action.ends_modify_bind]
      refine (closeFile_disciplined hs₀ hs hkept' hfile).bind ?_ (fun _ _ h => h.1) False.elim
      intro _ t hended
      obtain ⟨ht, hfiles⟩ := hended
      exact openFor_disciplined hs₀ ht ((KeptIn.congr ht.memories).mpr hkept) ((hfiles slot).trans (if_pos rfl))

/-! ### Closing -/

private theorem closeSlots_disciplined (slots : List SlotId) (hs : Disciplined s₀ s)
    (hslots : ∀ slot ∈ slots, ∀ d' path, s₀.KeptIn slot d' path → d' = d) :
    (closeSlots d slots : Action (Storage n k) ε Bool).Ends s (fun _ t => Disciplined s₀ t) (fun _ _ => False)
      False := by
  -- Whatever the store answers, the files of the slots are closed.
  induction slots generalizing s with
  | nil => exact hs
  | cons slot rest ih =>
    have hfirst : (closeSlot slot d : Action (Storage n k) ε Bool).Ends s (fun _ t => Disciplined s₀ t)
        (fun _ _ => False) False := by
      simp only [closeSlot]
      rw [Action.ends_get_bind]
      split
      · exact hs
      · rename_i file hfile
        obtain ⟨d', path, hkept⟩ := hs.kept _ _ hfile
        obtain rfl := hslots slot List.mem_cons_self d' path ((KeptIn.congr hs.memories).mp hkept)
        rw [Action.ends_modify_bind]
        exact (closeFile_disciplined hs₀ hs hkept hfile).attempt_bind (fun _ _ h => h.1) (fun _ _ h => h.1) id
    refine hfirst.bind (fun _ t ht => ?_) (fun _ _ h => h) id
    have hrest := ih ht fun slot' hmem => hslots slot' (List.mem_cons_of_mem _ hmem)
    exact hrest.bind (fun _ _ h => h) (fun _ _ h => h) id

/-- No slot is open at all. -/
structure AllClosed (s₀ s : Storage n k) : Prop extends Disciplined s₀ s where
  none : ∀ slot, s.openFile? slot = none

/-- From `s` to `t` no slot has been opened, and those of one memory have been closed. -/
structure Closes (s₀ : Storage n k) (index : Nat) (s t : Storage n k) : Prop extends Disciplined s₀ t where
  shut : ∀ slot, slot.memory = index → t.openFile? slot = none
  others : ∀ slot, s.openFile? slot = none → t.openFile? slot = none

private theorem closeMemory_closes (hs : Disciplined s₀ s) (hm : s₀.memories[index]? = some memory) :
    (closeMemory index memory : Action (Storage n k) ε Bool).Ends s (fun _ t => Closes s₀ index s t)
      (fun _ _ => False) False := by
  rw [← hs.memories] at hm
  simp only [closeMemory]
  split
  · rename_i d hd
    refine ⟨hs, fun slot hslot => ?_, fun _ h => h⟩
    subst hslot
    refine hs.openFile?_eq_none fun memory' d' hm' hd' _ => ?_
    obtain rfl := Option.some.inj (hm.symm.trans hm')
    cases hd.symm.trans hd'
  · rename_i d hd
    have hmine : ∀ slot ∈ slotIds index memory, ∀ d' path, s₀.KeptIn slot d' path → d' = d := by
      intro slot hslot d' path hkept
      obtain ⟨i, -, rfl⟩ := List.mem_map.mp hslot
      obtain ⟨memory', hm', hd', -⟩ := hkept.hosted
      obtain rfl := Option.some.inj (hm.symm.trans (hs.memories ▸ hm'))
      exact DeviceId.files.inj (hd'.symm.trans hd)
    refine ((closeSlots_disciplined hs₀ _ hs hmine).and (closeSlots_closedAt _)).imp ?_ (fun _ _ h => h.1) And.left
    intro _ t hended
    obtain ⟨ht, hclosed⟩ := hended
    refine ⟨ht, fun slot hslot => ?_, fun slot hnone => ?_⟩
    · subst hslot
      rw [hclosed.files]
      split
      · rfl
      · rename_i hno
        refine hs.openFile?_eq_none fun memory' d' hm' _ hmem => hno ?_
        obtain rfl := Option.some.inj (hm.symm.trans hm')
        exact hmem
    · rw [hclosed.files, hnone, ite_self]

private theorem closeEvery_closes (rest : List (Memory n k)) (index : Nat) (hs : Disciplined s₀ s)
    (hrest : ∀ i, s₀.memories[index + i]? = rest[i]?)
    (hbefore : ∀ slot, slot.memory < index → s.openFile? slot = none) :
    (everyMemory closeMemory index rest : Action (Storage n k) ε Bool).Ends s
      (fun _ t => AllClosed s₀ t) (fun _ _ => False) False := by
  induction rest generalizing index s with
  | nil =>
    refine ⟨hs, fun slot => ?_⟩
    by_cases hlt : slot.memory < index
    · exact hbefore slot hlt
    · refine hs.openFile?_eq_none fun memory d hm _ _ => ?_
      have hnone := hrest (slot.memory - index)
      rw [Nat.add_sub_cancel' (Nat.not_lt.mp hlt), ← hs.memories, hm] at hnone
      cases hnone
  | cons memory rest ih =>
    refine (closeMemory_closes hs₀ hs (hrest 0)).bind (fun _ t ht => ?_) (fun _ _ h => h) id
    refine (ih (index + 1) ht.toDisciplined (fun i => ?_) fun slot hslot => ?_).bind (fun _ _ h => h)
      (fun _ _ h => h) id
    · rw [Nat.add_right_comm]
      exact hrest (i + 1)
    · rcases Nat.lt_succ_iff_lt_or_eq.mp hslot with hlt | heq
      · exact ht.others slot (hbefore slot hlt)
      · exact ht.shut slot heq

private theorem closeAll_closes (hs : Disciplined s₀ s) :
    (everyMemory closeMemory 0 s.memories : Action (Storage n k) ε Bool).Ends s (fun _ t => AllClosed s₀ t)
      (fun _ _ => False) False := by
  refine closeEvery_closes hs₀ _ 0 hs (fun i => ?_) fun slot hslot => (Nat.not_lt_zero _ hslot).elim
  rw [hs.memories, Nat.zero_add]

/-- Slots of a flash memory, and of none at all, are never open. -/
theorem settle_closes (hs : Disciplined s₀ s) : (settle index : Action (Storage n k) ε Unit).Ends s
    (fun _ t => Disciplined s₀ t ∧ ∀ slot, slot.memory = index → t.openFile? slot = none)
    (fun _ t => Disciplined s₀ t ∧ ∀ slot, slot.memory = index → t.openFile? slot = none) False := by
  have hdropped : Disciplined s₀ { s with buffer := s.buffer.dropPending } := hs.aside rfl (fun _ => rfl) rfl
  simp only [settle, dropPending]
  simp only [Action.ends_modify_bind, Action.ends_get_bind]
  split
  · rename_i hnone
    refine ⟨hdropped, fun slot hslot => hs.openFile?_eq_none fun memory d hm _ _ => ?_⟩
    rw [hslot, hnone] at hm
    cases hm
  · rename_i memory hm
    split
    · rename_i d hd
      have hflash : ∀ link, Disciplined s₀ ({ s with buffer := s.buffer.dropPending }.withFlash d link) ∧
          ∀ slot, slot.memory = index → s.openFile? slot = none := by
        refine fun link => ⟨hdropped.aside rfl (fun _ => rfl) rfl, fun slot hslot => ?_⟩
        refine hs.openFile?_eq_none fun memory' d' hm' hd' _ => ?_
        rw [hslot, hm] at hm'
        cases hm'
        cases hd.symm.trans hd'
      have hrelease : (onFlash d FlashLink.release).Ends { s with buffer := s.buffer.dropPending }
          (fun _ t => Disciplined s₀ t ∧ ∀ slot, slot.memory = index → t.openFile? slot = none)
          (fun _ t => Disciplined s₀ t ∧ ∀ slot, slot.memory = index → t.openFile? slot = none) False :=
        onFlash_ends.mpr (FlashLink.release_ends.imp (fun _ link _ => hflash link) (fun _ link _ => hflash link) id)
      exact hrelease.attempt_bind (fun _ _ h => h) (fun _ _ h => h) id
    · refine (closeMemory_closes hs₀ hdropped (hs.memories ▸ hm)).bind (fun _ t ht => ?_) (fun _ _ h => h.elim) id
      exact ⟨ht.toDisciplined, ht.shut⟩

/-- Closing the files closes them all, whatever the stores answer. -/
theorem closeFiles_closes (hs : Disciplined s₀ s) :
    (closeFiles : Op n k Unit).Ends s (fun _ t => AllClosed s₀ t) (fun _ t => AllClosed s₀ t) False := by
  simp only [closeFiles]
  rw [Action.ends_get_bind]
  refine (closeAll_closes hs₀ hs).bind ?_ (fun _ _ h => h.elim) id
  rintro (_ | _) t ht
  · exact ht
  · exact ht

private theorem releaseDevice_closes (device : DeviceId n k) (hs : AllClosed s₀ s) :
    (match device with
      | .flash d => onFlash d FlashLink.release
      | .files d => onStore d FileLink.release : Call n k Unit).Ends s
      (fun _ t => AllClosed s₀ t) (fun _ t => AllClosed s₀ t) False := by
  have hs' := hs₀.congr hs.memories
  cases device with
  | flash d =>
    have hflash : ∀ link, AllClosed s₀ (s.withFlash d link) := fun _ => ⟨hs.aside rfl (fun _ => rfl) rfl, hs.none⟩
    exact onFlash_ends.mpr (FlashLink.release_ends.imp (fun _ _ _ => hflash _) (fun _ _ _ => hflash _) id)
  | files d =>
    exact onStore_ends.mpr (FileLink.release_frees.imp
      (fun _ _ hended => ⟨hs.released hs' hs.none hended.1 hended.2, hs.none⟩)
      (fun _ _ hended => ⟨hs.steady hs' hended, hs.none⟩) id)

private theorem releaseEvery_closes (rest : List (Memory n k)) (index : Nat) (hs : AllClosed s₀ s) :
    (everyMemory releaseMemory index rest : Action (Storage n k) ε Bool).Ends s (fun _ t => AllClosed s₀ t)
      (fun _ _ => False) False := by
  induction rest generalizing index s with
  | nil => exact hs
  | cons memory rest ih =>
    have hfirst : (releaseMemory index memory : Action (Storage n k) ε Bool).Ends s (fun _ t => AllClosed s₀ t)
        (fun _ _ => False) False :=
      (releaseDevice_closes hs₀ memory.device hs).attempt_bind (fun _ _ h => h) (fun _ _ h => h) id
    refine hfirst.bind (fun _ t ht => ?_) (fun _ _ h => h) id
    exact (ih (index + 1) ht).bind (fun _ _ h => h) (fun _ _ h => h) id

/-- Giving the devices back closes all files first, whatever the stores answer. -/
theorem release_closes (hs : Disciplined s₀ s) :
    (release : Op n k Unit).Ends s (fun _ t => AllClosed s₀ t) (fun _ t => AllClosed s₀ t) False := by
  have hdropped : Disciplined s₀ { s with buffer := s.buffer.dropPending } := hs.aside rfl (fun _ => rfl) rfl
  simp only [release, dropPending]
  simp only [Action.ends_modify_bind, Action.ends_get_bind]
  refine (closeAll_closes hs₀ hdropped).bind ?_ (fun _ _ h => h.elim) id
  intro closed t ht
  refine (releaseEvery_closes hs₀ _ 0 ht).bind ?_ (fun _ _ h => h.elim) id
  intro released u hu
  split
  · exact hu
  · exact hu

/-! ### Access -/

private theorem guarding_disciplined {calls : Call n k α} (h : Action.Preserves (Disciplined s₀) True calls) :
    Action.Preserves (Disciplined s₀) True (guarding index calls) := by
  refine .bind h.attempt fun answer => ?_
  split
  · exact .pure _
  · refine .bind (fun s hs => ?_) fun _ => .fail _
    exact (settle_closes hs₀ hs).imp (fun _ _ h => h.1) (fun _ _ h => h.1) False.elim

omit hs₀ in
private theorem dropPending_disciplined :
    Action.Preserves (Disciplined s₀) True (dropPending : Action (Storage n k) ε Unit) :=
  .modify fun _ hs => hs.aside rfl (fun _ => rfl) rfl

omit hs₀ in
private theorem Disciplined.keptIn (hs : Disciplined s₀ s) (hl : s.lookup? slot = .ok (memory, entry))
    (hd : memory.device = .files d) (hp : entry.location = .file path) : s₀.KeptIn slot d path :=
  (KeptIn.congr hs.memories).mp ⟨memory, entry, hl, hd, hp⟩

private theorem read_disciplined :
    Action.Preserves (Disciplined s₀) True (read slot offset length : Op n k Bytes) := by
  refine read_of_calls (by intros; trivial) (fun _ _ => guarding_disciplined hs₀ onFlash_disciplined) ?_
  intro s memory entry d path hs hl hd hp
  refine guarding_disciplined hs₀ (.bind (handleFor_disciplined hs₀ (hs.keptIn hl hd hp)) fun handle => ?_)
  exact .bind (onStore_disciplined hs₀ fun _ => FileLink.read_steady) fun _ => .pure _

private theorem erase_disciplined :
    Action.Preserves (Disciplined s₀) True (erase slot offset length : Op n k Unit) := by
  refine erase_of_calls (by intros; trivial) (fun _ _ _ => guarding_disciplined hs₀ onFlash_disciplined) ?_
  intro s memory entry d path hs hl hd hp
  refine guarding_disciplined hs₀ (.bind (handleFor_disciplined hs₀ (hs.keptIn hl hd hp)) fun handle => ?_)
  exact onStore_disciplined hs₀ fun _ => FileLink.erase_steady

private theorem write_disciplined {data : Bytes} {mode : WriteMode} :
    Action.Preserves (Disciplined s₀) True (write slot offset data mode : Op n k Unit) := by
  have hbuffer : ∀ (s : Storage n k) (buffer : GranuleBuffer), Disciplined s₀ s → Disciplined s₀ { s with buffer } :=
    fun _ _ hs => hs.aside rfl (fun _ => rfl) rfl
  refine write_of_writeOut hbuffer (writeOut_of_calls hbuffer (by intros; trivial)
    (fun _ _ _ _ _ _ _ _ _ _ => guarding_disciplined hs₀ onFlash_disciplined) ?_)
  intro s slot memory entry d path offset bytes hs hl hd hp
  refine guarding_disciplined hs₀ (.bind (handleFor_disciplined hs₀ (hs.keptIn hl hd hp)) fun handle => ?_)
  exact onStore_disciplined hs₀ fun _ => FileLink.write_steady

private theorem init_disciplined : Action.Preserves (Disciplined s₀) True (init : Op n k Unit) := by
  have hfrom : ∀ memories index, Action.Preserves (Disciplined s₀) True (initFrom index memories : Op n k Unit) := by
    intro memories
    induction memories with
    | nil => exact fun _ => .pure _
    | cons memory rest ih =>
      refine fun index => .bind (guarding_disciplined hs₀ ?_) fun _ => ih _
      split
      · exact onFlash_disciplined
      · exact onStore_disciplined hs₀ fun _ => FileLink.init_steady
  exact .get_bind fun s _ => hfrom _ _

/-- A storage keeps to the discipline whatever is asked of it. -/
theorem disciplined_upkeep (hfits : s₀.Fits) : Upkeep s₀ (Disciplined s₀) (fun _ => True) True where
  memories _ hs := hs.memories
  reach := hfits.upkeep.reach
  read _ _ _ := read_disciplined hs₀
  write _ _ _ _ _ := write_disciplined hs₀
  erase _ _ _ _ := erase_disciplined hs₀
  dropPending := dropPending_disciplined
  settle _ _ hs := (settle_closes hs₀ hs).imp (fun _ _ h => h.1) (fun _ _ h => h.1) False.elim
  init := init_disciplined hs₀
  closeFiles _ hs := (closeFiles_closes hs₀ hs).imp (fun _ _ h => h.toDisciplined)
    (fun _ _ h => h.toDisciplined) False.elim
  release _ hs := (release_closes hs₀ hs).imp (fun _ _ h => h.toDisciplined)
    (fun _ _ h => h.toDisciplined) False.elim

end Requests
end FirmwareUpdate.Storage
