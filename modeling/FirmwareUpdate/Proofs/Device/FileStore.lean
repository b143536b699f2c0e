import FirmwareUpdate.Device.FileLink
import FirmwareUpdate.Proofs.Bytes
import FirmwareUpdate.Proofs.Device.Link

/-! What file store calls do to the files and to the table of handles. -/
namespace FirmwareUpdate

namespace FileStore
variable {s t : FileStore} {path : String} {handle offset length : Nat} {data : Bytes}

/-- The file an open handle stands for. -/
def pathOf? (s : FileStore) (handle : Nat) : Option String := s.handles[handle]?.join

private theorem lookup_putFile (files : List (String × Bytes)) (path p : String) (contents : Bytes) :
    (putFile files path contents).lookup p =
      if p = path then some contents else files.lookup p := by
  induction files with
  | nil =>
    by_cases h : p = path
    · simp [putFile, h]
    · simp [putFile, List.lookup_cons, h, beq_false_of_ne h]
  | cons entry rest ih =>
    obtain ⟨q, c⟩ := entry
    by_cases hq : q = path
    · subst hq
      by_cases h : p = q
      · simp [putFile, h]
      · simp [putFile, List.lookup_cons, h, beq_false_of_ne h]
    · by_cases h : p = q
      · subst h
        simp [putFile, hq]
      · simp [putFile, List.lookup_cons, hq, beq_false_of_ne h, ih]

/-- A file that is set is found as it was set, and the others as they were. -/
theorem file?_setFile (s : FileStore) (path p : String) (contents : Bytes) :
    (s.setFile path contents).file? p = if p = path then some contents else s.file? p :=
  lookup_putFile s.files path p contents

/-- Opening leaves the contents of every file alone; at most the file that is opened comes to be. -/
structure Opens (path : String) (mode : FileMode) (s t : FileStore) : Prop where
  granule : t.granule = s.granule
  others : ∀ p, (p = path → mode = .read) → t.file? p = s.file? p
  contents : (t.file? path).getD [] = (s.file? path).getD []
  handles : ∀ h p, s.pathOf? h = some p → t.pathOf? h = some p

private theorem Opens.refl (path : String) (mode : FileMode) (s : FileStore) : s.Opens path mode s :=
  ⟨rfl, fun _ _ => rfl, rfl, fun _ _ h => h⟩

private theorem takeHandle_ends : (takeHandle path).Ends s
    (fun handle t => t.files = s.files ∧ t.granule = s.granule ∧ t.pathOf? handle = some path ∧
      ∀ h p, s.pathOf? h = some p → t.pathOf? h = some p)
    (fun e t => t = s ∧ e.isRefusal = false) False := by
  simp only [takeHandle]
  rw [Action.ends_get_bind]
  split
  · exact ⟨rfl, rfl⟩
  · rename_i free hfree
    have hnone : (s.handles[free.val]).isNone = true := by
      obtain ⟨i, hi, rfl⟩ := Option.map_eq_some_iff.mp hfree
      exact (Array.findFinIdx?_eq_some_iff.mp hi).1
    refine ⟨rfl, rfl, ?_, ?_⟩
    · simp [pathOf?]
    · intro h p hp
      have hne : free.val ≠ h := by
        rintro rfl
        simp_all [pathOf?]
      simpa [pathOf?, hne] using hp

/-- A file that is opened is there under its handle. What goes wrong is no refusal. -/
theorem openFile_ends {mode : FileMode} : (openFile path mode).Ends s
    (fun handle t => s.Opens path mode t ∧ t.pathOf? handle = some path)
    (fun e t => s.Opens path mode t ∧ e.isRefusal = false) False := by
  simp only [openFile]
  rw [Action.ends_get_bind]
  split
  · split
    · refine takeHandle_ends.imp ?_ ?_ id
      · intro h t hended
        obtain ⟨hfiles, hgranule, hpath, hold⟩ := hended
        exact ⟨⟨hgranule, fun p _ => by rw [file?, hfiles, file?], by rw [file?, hfiles, file?], hold⟩, hpath⟩
      · intro e _ hended
        obtain ⟨rfl, hr⟩ := hended
        exact ⟨Opens.refl _ _ _, hr⟩
    · exact ⟨Opens.refl _ _ _, rfl⟩
    · rename_i hmissing
      have hcreated : s.Opens path .readWrite (s.setFile path []) := by
        refine ⟨rfl, fun p hp => ?_, ?_, fun _ _ h => h⟩
        · rw [file?_setFile, if_neg (fun h => by cases hp h)]
        · rw [file?_setFile, if_pos rfl, hmissing]
          rfl
      rw [Action.ends_set_bind]
      refine takeHandle_ends.imp ?_ ?_ id
      · intro h t hended
        obtain ⟨hfiles, hgranule, hpath, hold⟩ := hended
        have hfile : ∀ p, t.file? p = (s.setFile path []).file? p := fun p => by
          rw [file?, hfiles, file?]
        exact ⟨⟨hgranule.trans hcreated.granule, fun p hp => (hfile p).trans (hcreated.others p hp),
          (congrArg (·.getD []) (hfile path)).trans hcreated.contents, hold⟩, hpath⟩
      · intro e _ hended
        obtain ⟨rfl, hr⟩ := hended
        exact ⟨hcreated, hr⟩
  · exact ⟨Opens.refl _ _ _, rfl⟩

/-- One file is given new contents, and nothing else is touched. -/
structure Patches (path : String) (contents : Bytes) (s t : FileStore) : Prop where
  granule : t.granule = s.granule
  others : ∀ p, p ≠ path → t.file? p = s.file? p
  file : t.file? path = some contents
  handles : t.handles = s.handles

/-- Whatever is recorded about it. -/
theorem patches_setFile (s : FileStore) (path : String) (contents : Bytes) (writes : List WriteEntry) :
    s.Patches path contents { s.setFile path contents with writes } :=
  ⟨rfl, fun p hp => (file?_setFile s path p contents).trans (if_neg hp),
    (file?_setFile s path path contents).trans (if_pos rfl), rfl⟩

/-- A handle that is open stands for its file. -/
theorem handlePath_of_pathOf? (h : s.pathOf? handle = some path) : handlePath handle s = .ok path s := by
  have hsome : s.handles[handle]? = some (some path) := Option.join_eq_some_iff.mp h
  simp [handlePath, hsome]

private theorem fileOf_ends (h : s.pathOf? handle = some path) :
    (fileOf handle).Ends s
      (fun file t => t = s ∧ s.file? path = some file.2 ∧ file.1 = path)
      (fun e t => t = s ∧ e.isRefusal = false) False := by
  simp only [fileOf, Action.Ends]
  rw [Action.bind_of_ok (handlePath_of_pathOf? h)]
  simp only [Action.bind_apply, Action.get_apply]
  cases hfile : s.file? path with
  | none => exact ⟨rfl, rfl⟩
  | some contents => exact ⟨rfl, rfl, rfl⟩

/-- An open file is read from where it has been asked to, and as far as it goes. -/
theorem read_ends (h : s.pathOf? handle = some path) :
    (read handle offset length).Ends s
      (fun bytes t => t = s ∧ bytes = Bytes.slice ((s.file? path).getD []) offset length)
      (fun e t => t = s ∧ e.isRefusal = false) False := by
  refine (fileOf_ends h).bind ?_ (fun _ _ h => h) id
  rintro ⟨p, contents⟩ t ⟨rfl, hfile, -⟩
  simp [hfile]

/-- An open file is written to after being extended as far as needed. -/
theorem write_ends (h : s.pathOf? handle = some path) :
    (write handle offset data).Ends s
      (fun _ t => s.Patches path
        (Bytes.splice (Bytes.extend ((s.file? path).getD []) (offset + data.length)) offset data) t)
      (fun e t => t = s ∧ e.isRefusal = false) False := by
  refine (fileOf_ends h).bind ?_ (fun _ _ h => h) id
  rintro ⟨p, contents⟩ t ⟨rfl, hfile, rfl⟩
  rw [Action.ends_modify, hfile]
  exact patches_setFile t p _ _

/-- An open file is blanked after being extended as far as needed. -/
theorem erase_ends (h : s.pathOf? handle = some path) :
    (erase handle offset length).Ends s
      (fun _ t => s.Patches path (Bytes.splice
        (Bytes.extend ((s.file? path).getD []) (offset + length)) offset (Bytes.blank length)) t)
      (fun e t => t = s ∧ e.isRefusal = false) False := by
  refine (fileOf_ends h).bind ?_ (fun _ _ h => h) id
  rintro ⟨p, contents⟩ t ⟨rfl, hfile, rfl⟩
  rw [Action.ends_modify, hfile]
  exact patches_setFile t p _ t.writes

/-- An open file can be closed, and nothing else is affected. -/
theorem close_ends (h : s.pathOf? handle = some path) :
    (close handle).Ends s
      (fun _ t => t.files = s.files ∧ t.granule = s.granule ∧
        ∀ h', h' ≠ handle → t.pathOf? h' = s.pathOf? h')
      (fun _ _ => False) False := by
  simp only [close, Action.Ends]
  rw [Action.bind_of_ok (handlePath_of_pathOf? h)]
  refine ⟨rfl, rfl, fun h' hne => ?_⟩
  simp [pathOf?, Ne.symm hne]

/-! Only writing adds to the record of writes. -/

private theorem handlePath_yields : (handlePath handle).Yields s (fun _ t => t = s) := by
  simp only [handlePath]
  rw [Action.Yields, Action.ends_get_bind]
  split
  · exact rfl
  · trivial

private theorem fileOf_yields : (fileOf handle).Yields s (fun _ t => t = s) := by
  refine handlePath_yields.bind ?_
  rintro path _ rfl
  rw [Action.Yields, Action.ends_get_bind]
  split
  · rfl
  · trivial

private theorem takeHandle_writes : (takeHandle path).Yields s (fun _ t => t.writes = s.writes) := by
  simp only [takeHandle]
  rw [Action.Yields, Action.ends_get_bind]
  split
  · trivial
  · rfl

/-- Opening a file writes nothing. -/
theorem openFile_writes {mode : FileMode} :
    (openFile path mode).Yields s (fun _ t => t.writes = s.writes) := by
  simp only [openFile]
  rw [Action.Yields, Action.ends_get_bind]
  split
  · split
    · exact takeHandle_writes
    · trivial
    · rw [Action.ends_set_bind]
      exact takeHandle_writes
  · trivial

/-- Closing a file writes nothing. -/
theorem close_writes : (close handle).Yields s (fun _ t => t.writes = s.writes) := by
  refine handlePath_yields.bind ?_
  rintro _ _ rfl
  exact rfl

/-- Reading a file writes nothing. -/
theorem read_writes : (read handle offset length).Yields s (fun _ t => t.writes = s.writes) := by
  refine fileOf_yields.bind ?_
  rintro _ _ rfl
  exact rfl

/-- A file may end before all that is asked for has been read. -/
theorem read_length : (read handle offset length).Yields s (fun bytes _ => bytes.length ≤ length) := by
  refine fileOf_yields.bind ?_
  rintro ⟨_, contents⟩ t rfl
  show (Bytes.slice contents offset length).length ≤ length
  rw [Bytes.length_slice]
  exact Nat.min_le_left _ _

/-- A write that succeeds goes on record. -/
theorem write_writes :
    (write handle offset data).Yields s (fun _ t => t.writes = ⟨offset, data⟩ :: s.writes) := by
  refine fileOf_yields.bind ?_
  rintro _ _ rfl
  exact rfl

/-! Opening and closing move handles; at most a file that is missing is created. -/

section Keeps
variable {J : FileStore → Prop} {trapped : Prop}

private theorem takeHandle_keeps (hhandles : ∀ s handles, J s → J { s with handles }) :
    Action.Preserves J trapped (takeHandle path) := by
  refine .get_bind fun s hs => ?_
  split
  · exact .fail _
  · exact .bind (.set (hhandles s _ hs)) fun _ => .pure _

/-- Opening a file keeps what a taken handle and a created file keep. -/
theorem openFile_keeps {mode : FileMode} (hhandles : ∀ s handles, J s → J { s with handles })
    (hcreated : mode = .readWrite → ∀ s, J s → s.file? path = none → J (s.setFile path [])) :
    Action.Preserves J trapped (openFile path mode) := by
  refine .get_bind fun s hs => ?_
  split
  · split
    · exact takeHandle_keeps hhandles
    · exact .fail _
    · rename_i hmissing
      exact .bind (.set (hcreated rfl s hs hmissing)) fun _ => takeHandle_keeps hhandles
  · exact .fail _

/-- Closing a file keeps what a handle given back keeps. -/
theorem close_keeps (hhandles : ∀ s handles closes, J s → J { s with handles, closes }) :
    Action.Preserves J trapped (close handle) := by
  refine .bind (.get_bind fun s _ => ?_) fun _ => .modify fun s hs => hhandles s _ _ hs
  split
  · exact .pure _
  · exact .fail _

private theorem fileOf_keeps : Action.Preserves J trapped (fileOf handle) := by
  have hpath : Action.Preserves J trapped (handlePath handle) := by
    refine .get_bind fun s _ => ?_
    split
    · exact .pure _
    · exact .fail _
  refine .bind hpath fun path => .get_bind fun s _ => ?_
  split
  · exact .pure _
  · exact .fail _

/-- A store does not change when a file is read. -/
theorem read_keeps : Action.Preserves J trapped (read handle offset length) :=
  .bind fileOf_keeps fun _ => .pure _

end Keeps

/-- Whatever is opened, every file holds the bytes that it held; one that is created holds none. -/
theorem openFile_contents {p : String} {contents : Bytes} {mode : FileMode} {trapped : Prop} :
    Action.Preserves (fun s : FileStore => (s.file? p).getD [] = contents) trapped (openFile path mode) := by
  refine openFile_keeps (fun _ _ hs => hs) fun _ s hs hmissing => ?_
  rw [file?_setFile]
  split
  · rename_i hp
    rw [← hs, hp, hmissing]
    rfl
  · exact hs

/-- Closing a file changes no contents. -/
theorem close_contents {p : String} {contents : Bytes} {trapped : Prop} :
    Action.Preserves (fun s : FileStore => (s.file? p).getD [] = contents) trapped (close handle) :=
  close_keeps fun _ _ _ hs => hs

/-! Whatever is asked of it, a store keeps its granule. -/

section Fixed
variable {granule : Nat} {trapped : Prop}

theorem openFile_preserves {mode : FileMode} :
    Action.Preserves (fun s : FileStore => s.granule = granule) trapped (openFile path mode) :=
  openFile_keeps (fun _ _ hs => hs) fun _ _ hs _ => hs

theorem write_preserves :
    Action.Preserves (fun s : FileStore => s.granule = granule) trapped (write handle offset data) :=
  .bind fileOf_keeps fun _ => .modify fun _ hs => hs

theorem erase_preserves :
    Action.Preserves (fun s : FileStore => s.granule = granule) trapped (erase handle offset length) :=
  .bind fileOf_keeps fun _ => .modify fun _ hs => hs

theorem close_preserves :
    Action.Preserves (fun s : FileStore => s.granule = granule) trapped (close handle) :=
  close_keeps fun _ _ _ hs => hs

end Fixed

end FileStore

namespace FileLink
variable {l : FileLink} {path : String} {handle offset length : Nat} {data : Bytes}

/-- A store is mounted, or a device is at fault and it is as it was. -/
theorem init_ends : init.Ends l
    (fun _ m => l.Keeps m ∧ m.faults = l.faults ∧ m.device = { l.device with mounted := true })
    (fun _ m => l.Keeps m ∧ m.device = l.device ∧ l.faults < m.faults) False := by
  have hdevice : FileStore.init.Ends l.device (fun _ g => g = { l.device with mounted := true })
      (fun _ _ => False) False := rfl
  refine (Link.call_ends hdevice).imp (fun _ _ h => h) ?_ id
  intro e m hended
  obtain ⟨hk, ⟨-, h⟩ | ⟨h, -⟩⟩ := hended
  · exact ⟨hk, h⟩
  · exact h.elim

/-- A store that is given back keeps its files. -/
theorem release_ends : release.Ends l
    (fun _ m => l.Keeps m ∧ m.device.files = l.device.files ∧ m.device.granule = l.device.granule)
    (fun _ m => l.Keeps m ∧ m.device = l.device) False := by
  have hdevice : FileStore.release.Ends l.device
      (fun _ g => g.files = l.device.files ∧ g.granule = l.device.granule) (fun _ _ => False) False := ⟨rfl, rfl⟩
  refine (Link.call_ends hdevice).imp (fun _ _ h => ⟨h.1, h.2.2⟩) ?_ id
  intro e m hended
  obtain ⟨hk, ⟨-, hd, -⟩ | ⟨h, -⟩⟩ := hended
  · exact ⟨hk, hd⟩
  · exact h.elim

/-- An open call hands out a handle for its file. If it fails a device is at fault, and a file may have been created. -/
theorem openFile_ends {mode : FileMode} : (openFile path mode).Ends l
    (fun handle m => l.Keeps m ∧ m.faults = l.faults ∧ l.device.Opens path mode m.device ∧
      m.device.pathOf? handle = some path)
    (fun _ m => l.Keeps m ∧ l.device.Opens path mode m.device ∧ l.faults < m.faults) False := by
  refine (Link.call_ends FileStore.openFile_ends).imp (fun _ _ h => h) ?_ id
  intro e m hended
  obtain ⟨hk, ⟨-, hd, hf⟩ | ⟨⟨ho, hr⟩, hf⟩⟩ := hended
  · exact ⟨hk, hd ▸ FileStore.Opens.refl _ _ _, hf⟩
  · exact ⟨hk, ho, hf hr⟩

private theorem call_ends {α : Type} {point : CallPoint} {act : FileStore.Call α}
    {done : α → FileStore → Prop}
    (h : act.Ends l.device done (fun e t => t = l.device ∧ e.isRefusal = false) False) :
    (Link.call point act).Ends l
      (fun a m => l.Keeps m ∧ m.faults = l.faults ∧ done a m.device)
      (fun _ m => l.Keeps m ∧ m.device = l.device ∧ l.faults < m.faults) False := by
  refine (Link.call_ends h).imp (fun _ _ h => h) ?_ id
  intro e m hended
  obtain ⟨hk, ⟨-, h⟩ | ⟨⟨hd, hr⟩, hf⟩⟩ := hended
  · exact ⟨hk, h⟩
  · exact ⟨hk, hd, hf hr⟩

/-- A handle that is open reads from its file, unless a device is at fault. -/
theorem read_ends (h : l.device.pathOf? handle = some path) :
    (read handle offset length).Ends l
      (fun bytes m => l.Keeps m ∧ m.faults = l.faults ∧ m.device = l.device ∧
        bytes = Bytes.slice ((l.device.file? path).getD []) offset length)
      (fun _ m => l.Keeps m ∧ m.device = l.device ∧ l.faults < m.faults) False :=
  call_ends (FileStore.read_ends h)

/-- A handle that is open writes to its file, which grows where it has to, unless a device is at fault. -/
theorem write_ends (h : l.device.pathOf? handle = some path) :
    (write handle offset data).Ends l
      (fun _ m => l.Keeps m ∧ m.faults = l.faults ∧ l.device.Patches path (Bytes.splice
        (Bytes.extend ((l.device.file? path).getD []) (offset + data.length)) offset data) m.device)
      (fun _ m => l.Keeps m ∧ m.device = l.device ∧ l.faults < m.faults) False :=
  call_ends (FileStore.write_ends h)

/-- A handle that is open blanks a range of its file, which grows where it has to, unless a device is at fault. -/
theorem erase_ends (h : l.device.pathOf? handle = some path) :
    (erase handle offset length).Ends l
      (fun _ m => l.Keeps m ∧ m.faults = l.faults ∧ l.device.Patches path (Bytes.splice
        (Bytes.extend ((l.device.file? path).getD []) (offset + length)) offset
          (Bytes.blank length)) m.device)
      (fun _ m => l.Keeps m ∧ m.device = l.device ∧ l.faults < m.faults) False :=
  call_ends (FileStore.erase_ends h)

/-- Closing a handle takes no other one away. -/
theorem close_ends (h : l.device.pathOf? handle = some path) :
    (close handle).Ends l
      (fun _ m => l.Keeps m ∧ m.faults = l.faults ∧ m.device.files = l.device.files ∧
        m.device.granule = l.device.granule ∧
        ∀ h', h' ≠ handle → m.device.pathOf? h' = l.device.pathOf? h')
      (fun _ m => l.Keeps m ∧ m.device = l.device ∧ l.faults < m.faults) False :=
  call_ends ((FileStore.close_ends h).imp (fun _ _ h => h) (fun _ _ h => h.elim) id)

end FileLink
end FirmwareUpdate
