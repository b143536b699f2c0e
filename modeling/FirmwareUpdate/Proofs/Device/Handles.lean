import FirmwareUpdate.Proofs.Device.FileStore

/-! The table of handles of a file store. Opening takes a handle that was free, closing frees the one it names, and
no other call but giving the store back touches the table. -/
namespace FirmwareUpdate

namespace FileStore
variable {s t : FileStore} {path : String} {handle offset length : Nat} {data : Bytes} {mode : FileMode}

/-- A handle that was free is open, and that is all there is to the table. -/
structure Takes (path : String) (handle : Nat) (s t : FileStore) : Prop where
  free : s.pathOf? handle = none
  path : t.pathOf? handle = some path
  others : ∀ h, h ≠ handle → t.pathOf? h = s.pathOf? h

/-- A handle is free, and that is all there is to the table. -/
structure Frees (handle : Nat) (s t : FileStore) : Prop where
  free : t.pathOf? handle = none
  others : ∀ h, h ≠ handle → t.pathOf? h = s.pathOf? h

theorem pathOf?_of_handles (h : t.handles = s.handles) (handle : Nat) : t.pathOf? handle = s.pathOf? handle := by
  rw [pathOf?, pathOf?, h]

/-- No handle is open beyond those that there are. -/
theorem lt_of_pathOf? (h : s.pathOf? handle = some path) : handle < handleCount := by
  obtain ⟨hlt, -⟩ := Vector.getElem?_eq_some_iff.mp (Option.join_eq_some_iff.mp h)
  exact hlt

/-- The handles are counted by their numbers. -/
theorem openCount_eq (s : FileStore) :
    s.openCount = (List.range handleCount).countP fun handle => (s.pathOf? handle).isSome := by
  have hlist : s.handles.toList = (List.range handleCount).map s.pathOf? := by
    refine List.ext_getElem (by simp) fun i hi hi' => ?_
    have hlt : i < handleCount := by simpa using hi
    simp [pathOf?, hlt]
  rw [openCount, hlist, List.countP_map]
  rfl

/-- Without an open handle none stands for a file. -/
theorem pathOf?_of_openCount (h : s.openCount = 0) (handle : Nat) : s.pathOf? handle = none := by
  rw [openCount_eq, List.countP_eq_zero] at h
  cases hpath : s.pathOf? handle with
  | none => rfl
  | some path => exact (h handle (List.mem_range.mpr (lt_of_pathOf? hpath)) (by simp [hpath])).elim

/-- The first free handle is given out, unless all of them are taken; the rest of the store is as it was. -/
theorem takeHandle_takes : (takeHandle path).Ends s
    (fun handle t => s.Takes path handle t ∧ t = { s with handles := t.handles })
    (fun e t => e = .tooManyOpenFiles ∧ s.openCount = handleCount ∧ t = s) False := by
  simp only [takeHandle]
  rw [Action.ends_get_bind]
  split
  · rename_i hnone
    refine ⟨rfl, ?_, rfl⟩
    have hall : ∀ entry ∈ s.handles.toList, entry.isSome = true := by
      intro entry hentry
      have htaken := Vector.findFinIdx?_eq_none_iff.mp hnone entry (Vector.mem_toList_iff.mp hentry)
      exact Option.isSome_iff_ne_none.mpr fun hfree => htaken (by simp [hfree])
    rw [openCount, List.countP_eq_length.mpr hall, Vector.length_toList]
  · rename_i free hfree
    have hnone : s.handles[free.val] = none := by
      obtain ⟨i, hi, rfl⟩ := Option.map_eq_some_iff.mp hfree
      exact Option.isNone_iff_eq_none.mp (Array.findFinIdx?_eq_some_iff.mp hi).1
    refine ⟨⟨by simp [pathOf?, hnone], by simp [pathOf?], fun h hne => ?_⟩, rfl⟩
    simp [pathOf?, Ne.symm hne]

private theorem openFile_takes : (openFile path mode).Ends s (fun handle t => s.Takes path handle t)
    (fun e t => t.handles = s.handles ∧ (e = .tooManyOpenFiles → s.openCount = handleCount)) False := by
  simp only [openFile]
  rw [Action.ends_get_bind]
  split
  · split
    · exact takeHandle_takes.imp (fun _ _ h => h.1) (fun _ _ h => ⟨congrArg handles h.2.2, fun _ => h.2.1⟩) id
    · exact ⟨rfl, by simp⟩
    · rw [Action.ends_set_bind]
      refine takeHandle_takes.imp (fun _ _ h => ⟨h.1.free, h.1.path, h.1.others⟩) ?_ id
      rintro e _ ⟨-, hfull, rfl⟩
      exact ⟨rfl, fun _ => hfull⟩
  · exact ⟨rfl, by simp⟩

/-- A handle that is cleared is given back. -/
theorem frees_of_cleared (h : s.pathOf? handle = some path) (closes : Nat) :
    s.Frees handle { s with handles := s.handles.setIfInBounds handle none, closes } := by
  refine ⟨?_, fun h' hne => ?_⟩
  · simp [pathOf?, lt_of_pathOf? h]
  · simp [pathOf?, Ne.symm hne]

private theorem close_frees (h : s.pathOf? handle = some path) :
    (close handle).Ends s (fun _ t => s.Frees handle t) (fun _ _ => False) False := by
  simp only [close, Action.Ends]
  rw [Action.bind_of_ok (handlePath_of_pathOf? h)]
  exact frees_of_cleared h _

/-- The call leaves the table alone, and does not complain of it. -/
abbrev LeavesTable {α : Type} (call : Call α) : Prop := ∀ s, call.Ends s (fun _ t => t.handles = s.handles)
  (fun e t => t.handles = s.handles ∧ e ≠ .tooManyOpenFiles) False

private theorem init_apart : LeavesTable init := fun _ => rfl

private theorem fileOf_apart : (fileOf handle).Ends s (fun _ t => t = s)
    (fun e t => t = s ∧ e ≠ .tooManyOpenFiles) False := by
  have hpath : (handlePath handle).Ends s (fun _ t => t = s) (fun e t => t = s ∧ e ≠ .tooManyOpenFiles) False := by
    simp only [handlePath]
    rw [Action.ends_get_bind]
    split
    · rfl
    · exact ⟨rfl, by simp⟩
  refine hpath.bind ?_ (fun _ _ h => h) id
  rintro path _ rfl
  rw [Action.ends_get_bind]
  split
  · rfl
  · exact ⟨rfl, by simp⟩

private theorem read_apart : LeavesTable (read handle offset length) := by
  intro s
  refine fileOf_apart.bind ?_ (fun _ _ h => ⟨congrArg handles h.1, h.2⟩) id
  rintro _ _ rfl
  rfl

private theorem write_apart : LeavesTable (write handle offset data) := by
  intro s
  refine fileOf_apart.bind ?_ (fun _ _ h => ⟨congrArg handles h.1, h.2⟩) id
  rintro _ _ rfl
  rfl

private theorem erase_apart : LeavesTable (erase handle offset length) := by
  intro s
  refine fileOf_apart.bind ?_ (fun _ _ h => ⟨congrArg handles h.1, h.2⟩) id
  rintro _ _ rfl
  rfl

/-- A store that is given back has no handle open. -/
theorem release_frees : release.Ends s (fun _ t => ∀ handle, t.pathOf? handle = none) (fun _ _ => False) False := by
  intro handle
  by_cases hlt : handle < handleCount
  · simp [pathOf?, hlt]
  · simp [pathOf?, hlt]

end FileStore

/-- How a call ends on its link, and whether it was the schedule or the device that answered. -/
theorem Link.call_answered {δ α : Type} {l : Link δ} {point : CallPoint} {act : Action δ DeviceError α}
    {done : α → δ → Prop} {failed : DeviceError → δ → Prop} (h : act.Ends l.device done failed False) :
    (call point act).Ends l
      (fun a m => m.schedule = l.schedule ∧ m.calls = l.calls.bump point ∧ m.errors = l.errors ∧ done a m.device)
      (fun e m => m.schedule = l.schedule ∧ m.calls = l.calls.bump point ∧ m.errors = e :: l.errors ∧
        (l.due point = some e ∧ m.device = l.device ∨ failed e m.device)) False := by
  simp only [call]
  simp only [Action.ends_get_bind, Action.ends_set_bind]
  split
  · rename_i error hdue
    simp only [Action.ends_modify_bind, Action.ends_fail]
    exact ⟨rfl, rfl, rfl, Or.inl ⟨hdue, rfl⟩⟩
  · refine accounted_ends (fun e m => m.schedule = l.schedule ∧ m.calls = l.calls.bump point ∧ m.errors = l.errors ∧
      failed e m.device) (direct_ends.mpr (h.imp (fun _ _ hd => ⟨rfl, rfl, rfl, hd⟩)
        (fun _ _ hf => ⟨rfl, rfl, rfl, hf⟩) id)) fun e m hm => ?_
    obtain ⟨hschedule, hcalls, herrors, hfailed⟩ := hm
    split
    · exact ⟨hschedule, hcalls, congrArg (e :: ·) herrors, Or.inr hfailed⟩
    · exact ⟨hschedule, hcalls, congrArg (e :: ·) herrors, Or.inr hfailed⟩

namespace FileLink
variable {l m : FileLink} {path : String} {handle offset length : Nat} {data : Bytes} {mode : FileMode}
  {point : CallPoint} {α : Type}

/-- The calls that were answered with a want of handles. -/
def shortages (l : FileLink) : Nat := l.errors.count .tooManyOpenFiles

/-- The schedule fails no call with a want of handles. -/
def Plain (l : FileLink) : Prop := ∀ point i, l.schedule point i ≠ some .tooManyOpenFiles

/-- None of the calls to close a file that were made between `l` and the later state `m` was failed by the schedule. -/
def ClosesHeeded (l m : FileLink) : Prop :=
  ∀ i, l.calls.close ≤ i → i < m.calls.close → l.schedule .close i = none

/-- No file is closed between `l` and `m`, and as long as a handle is free there is no want of them. -/
structure Proceeds (l m : FileLink) : Prop where
  schedule : m.schedule = l.schedule
  closes : m.calls.close = l.calls.close
  shortages : l.Plain → l.device.openCount < handleCount → m.shortages = l.shortages

/-- And the table of handles is as it was. -/
structure Steady (l m : FileLink) : Prop extends Proceeds l m where
  handles : m.device.handles = l.device.handles

private theorem call_proceeds {act : FileStore.Call α} {done : α → FileStore → Prop}
    {failed : DeviceError → FileStore → Prop} (hpoint : point ≠ .close)
    (h : act.Ends l.device done (fun e device => failed e device ∧
      (e = .tooManyOpenFiles → l.device.openCount = handleCount)) False) :
    (Link.call point act).Ends l (fun a m => l.Proceeds m ∧ done a m.device)
      (fun e m => l.Proceeds m ∧ (m.device = l.device ∨ failed e m.device)) False := by
  have hcloses : (l.calls.bump point).close = l.calls.close := Link.calls_count_of_ne (l := l) hpoint
  refine (Link.call_answered h).imp ?_ ?_ id
  · intro a m hended
    obtain ⟨hschedule, hcalls, herrors, hdone⟩ := hended
    exact ⟨⟨hschedule, hcalls ▸ hcloses, fun _ _ => congrArg (List.count _) herrors⟩, hdone⟩
  · intro e m hended
    obtain ⟨hschedule, hcalls, herrors, hanswer⟩ := hended
    refine ⟨⟨hschedule, hcalls ▸ hcloses, fun hplain hroom => ?_⟩, hanswer.imp And.right And.left⟩
    have hother : e ≠ .tooManyOpenFiles := by
      rintro rfl
      rcases hanswer with ⟨hdue, -⟩ | ⟨-, hfull⟩
      · exact hplain _ _ hdue
      · exact absurd (hfull rfl) (Nat.ne_of_lt hroom)
    rw [shortages, herrors, List.count_cons_of_ne hother]
    rfl

private theorem call_steady {act : FileStore.Call α} (hpoint : point ≠ .close) (h : FileStore.LeavesTable act) :
    (Link.call point act).Ends l (fun _ m => l.Steady m) (fun _ m => l.Steady m) False := by
  refine (call_proceeds hpoint ((h l.device).imp (fun _ _ h => h)
    (fun _ _ h => ⟨h.1, fun heq => (h.2 heq).elim⟩) id)).imp ?_ ?_ id
  · exact fun _ m hended => ⟨hended.1, hended.2⟩
  · exact fun _ m hended => ⟨hended.1, hended.2.elim (congrArg FileStore.handles) id⟩

/-- Mounting a store takes no handle and gives none back. -/
theorem init_steady : init.Ends l (fun _ m => l.Steady m) (fun _ m => l.Steady m) False :=
  call_steady (by decide) FileStore.init_apart

/-- Reading takes no handle and gives none back. -/
theorem read_steady : (read handle offset length).Ends l (fun _ m => l.Steady m) (fun _ m => l.Steady m) False :=
  call_steady (by decide) FileStore.read_apart

/-- Writing takes no handle and gives none back. -/
theorem write_steady : (write handle offset data).Ends l (fun _ m => l.Steady m) (fun _ m => l.Steady m) False :=
  call_steady (by decide) FileStore.write_apart

/-- Erasing takes no handle and gives none back. -/
theorem erase_steady : (erase handle offset length).Ends l (fun _ m => l.Steady m) (fun _ m => l.Steady m) False :=
  call_steady (by decide) FileStore.erase_apart

/-- An open call that succeeds takes a handle for its file; one that fails takes none. -/
theorem openFile_takes : (openFile path mode).Ends l
    (fun handle m => l.Proceeds m ∧ l.device.Takes path handle m.device) (fun _ m => l.Steady m) False := by
  refine (call_proceeds (by decide) FileStore.openFile_takes).imp (fun _ _ h => h) ?_ id
  exact fun _ m hended => ⟨hended.1, hended.2.elim (congrArg FileStore.handles) id⟩

/-- A store that cannot be given back keeps its table, and one that is given back loses it. -/
theorem release_frees : release.Ends l
    (fun _ m => l.Proceeds m ∧ ∀ handle, m.device.pathOf? handle = none) (fun _ m => l.Steady m) False := by
  have hdevice : FileStore.release.Ends l.device (fun _ device => ∀ handle, device.pathOf? handle = none)
      (fun e _ => False ∧ (e = .tooManyOpenFiles → l.device.openCount = handleCount)) False :=
    FileStore.release_frees.imp (fun _ _ h => h) (fun _ _ h => h.elim) id
  refine (call_proceeds (by decide) hdevice).imp (fun _ _ h => h) ?_ id
  exact fun _ m hended => ⟨hended.1, hended.2.elim (congrArg FileStore.handles) False.elim⟩

/-- Only the schedule can fail a call to close a file that is open. -/
theorem close_frees (h : l.device.pathOf? handle = some path) : (close handle).Ends l
    (fun _ m => m.schedule = l.schedule ∧ m.calls.close = l.calls.close + 1 ∧ m.shortages = l.shortages ∧
      l.device.Frees handle m.device)
    (fun _ m => m.schedule = l.schedule ∧ m.calls.close = l.calls.close + 1 ∧
      l.schedule .close l.calls.close ≠ none ∧ m.device = l.device) False := by
  refine (Link.call_answered (FileStore.close_frees h)).imp ?_ ?_ id
  · intro _ m hended
    obtain ⟨hschedule, hcalls, herrors, hfrees⟩ := hended
    exact ⟨hschedule, congrArg CallCounts.close hcalls, congrArg (List.count _) herrors, hfrees⟩
  · intro e m hended
    obtain ⟨hschedule, hcalls, -, ⟨hdue, hdevice⟩ | hno⟩ := hended
    · have hsome : l.schedule .close l.calls.close = some e := hdue
      exact ⟨hschedule, congrArg CallCounts.close hcalls, by simp [hsome], hdevice⟩
    · exact hno.elim

end FileLink
end FirmwareUpdate
