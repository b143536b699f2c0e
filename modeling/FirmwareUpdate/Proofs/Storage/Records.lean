import FirmwareUpdate.Proofs.Storage.Patching

/-! Which writes the devices have carried out. Reading carries out none, and a granule that is
written out is one write to the device of its slot. -/
namespace FirmwareUpdate.Storage
variable {n k : Nat} {α : Type} {s t : Storage n k} {memory : Memory n k} {entry : Slot} {slot : SlotId}

/-- The writes a device has carried out, newest first. Flash is written by address, a file by the
offset in it. -/
def writesOn (s : Storage n k) : DeviceId n k → List WriteEntry
  | .flash device => (s.flash device).writes
  | .files device => (s.store device).writes

/-- The place that a device knows an offset in the slot by. -/
def placeOf (entry : Slot) (offset : Nat) : Nat :=
  match entry.location with
  | .flash address => address + offset
  | .file _ => offset

/-- Moving on along a slot is moving on along its device. -/
theorem placeOf_add (entry : Slot) (offset length : Nat) :
    placeOf entry (offset + length) = placeOf entry offset + length := by
  simp only [placeOf]
  split
  · exact (Nat.add_assoc _ _ _).symm
  · rfl

/-- One device has carried out one more write, and no other device any. -/
structure Recorded (device : DeviceId n k) (write : WriteEntry) (s t : Storage n k) : Prop where
  own : t.writesOn device = write :: s.writesOn device
  others : ∀ other, other ≠ device → t.writesOn other = s.writesOn other

private theorem Recorded.of_same {u : Storage n k} {device : DeviceId n k} {write : WriteEntry}
    (h : Recorded device write t u) (hst : t.writesOn = s.writesOn) : Recorded device write s u :=
  ⟨hst ▸ h.own, hst ▸ h.others⟩

private theorem writesOn_withFlash (s : Storage n k) (d : Fin n) (link : FlashLink) (device : DeviceId n k) :
    (s.withFlash d link).writesOn device =
      if device = .flash d then link.device.writes else s.writesOn device := by
  cases device with
  | flash d' =>
    simp only [writesOn, flash, flashLink_withFlash, DeviceId.flash.injEq]
    split <;> rfl
  | files d' => rfl

private theorem writesOn_withStore (s : Storage n k) (d : Fin k) (link : FileLink) (device : DeviceId n k) :
    (s.withStore d link).writesOn device =
      if device = .files d then link.device.writes else s.writesOn device := by
  cases device with
  | flash d' => rfl
  | files d' =>
    simp only [writesOn, store, fileLink_withStore, DeviceId.files.injEq]
    split <;> rfl

private theorem onFlash_yields {d : Fin n} {call : FlashLink.Call α} {writes : List WriteEntry}
    (h : call.Yields (s.flashLink d) (fun _ link => link.device.writes = writes)) :
    (onFlash d call).Yields s (fun _ t => t.writesOn (.flash d) = writes ∧
      ∀ other, other ≠ .flash d → t.writesOn other = s.writesOn other) := by
  refine onFlash_ends.mpr (h.imp fun _ link hwrites => ⟨?_, fun other hne => ?_⟩)
  · rw [writesOn_withFlash, if_pos rfl, hwrites]
  · rw [writesOn_withFlash, if_neg hne]

private theorem onStore_yields {d : Fin k} {call : FileLink.Call α} {writes : List WriteEntry}
    (h : call.Yields (s.fileLink d) (fun _ link => link.device.writes = writes)) :
    (onStore d call).Yields s (fun _ t => t.writesOn (.files d) = writes ∧
      ∀ other, other ≠ .files d → t.writesOn other = s.writesOn other) := by
  refine onStore_ends.mpr (h.imp fun _ link hwrites => ⟨?_, fun other hne => ?_⟩)
  · rw [writesOn_withStore, if_pos rfl, hwrites]
  · rw [writesOn_withStore, if_neg hne]

private theorem same_of_own {device : DeviceId n k} (h : t.writesOn device = s.writesOn device)
    (h' : ∀ other, other ≠ device → t.writesOn other = s.writesOn other) : t.writesOn = s.writesOn := by
  funext other
  by_cases hother : other = device
  · rw [hother, h]
  · exact h' other hother

/-- A guarded call that succeeds is the call itself. -/
theorem guarding_yields {index : Nat} {calls : Call n k α} {done : α → Storage n k → Prop}
    (h : calls.Yields s done) : (guarding index calls).Yields s done := by
  refine Action.Ends.attempt_bind h (fun _ _ ha => ha) ?_ id
  intro cause t _
  have hsettle : (settle index : Op n k Unit).Yields t (fun _ _ => True) :=
    Action.ends_of_all (fun _ _ => trivial) (fun _ _ => trivial) trivial
  exact hsettle.bind fun _ _ _ => trivial

section Files
variable {d : Fin k} {path : String} {mode : FileMode}

private theorem openFor_writes : (openFor slot d path mode).Yields s (fun _ t => t.writesOn = s.writesOn) := by
  have hopen : (onStore d (FileLink.openFile path mode)).Yields s (fun _ t => t.writesOn = s.writesOn) :=
    (onStore_yields (Link.call_yields FileStore.openFile_writes)).imp fun _ t h => same_of_own h.1 h.2
  exact hopen.bind fun handle t hsame => hsame

private theorem handleFor_writes : (handleFor slot d path mode).Yields s (fun _ t => t.writesOn = s.writesOn) := by
  simp only [handleFor]
  rw [Action.Yields, Action.ends_get_bind]
  split
  · exact openFor_writes
  · rename_i file _
    split
    · exact rfl
    · rw [Action.ends_modify_bind]
      have hclose : (onStore d (FileLink.close file.handle)).Yields (s.forget slot)
          (fun _ t => t.writesOn = s.writesOn) :=
        (onStore_yields (Link.call_yields FileStore.close_writes)).imp fun _ t h => same_of_own h.1 h.2
      exact hclose.bind fun _ t hsame => openFor_writes.imp fun _ u hsame' => hsame'.trans hsame

private theorem readFile_writes {offset length : Nat} :
    (readFile slot d path offset length).Yields s (fun _ t => t.writesOn = s.writesOn) := by
  refine handleFor_writes.bind fun handle t hsame => ?_
  refine (onStore_yields (Link.call_yields FileStore.read_writes)).bind fun bytes u hended => ?_
  exact (same_of_own hended.1 hended.2).trans hsame

private theorem writeFile_writes {offset : Nat} {data : Bytes} :
    (writeFile slot d path offset data).Yields s (fun _ t => Recorded (.files d) ⟨offset, data⟩ s t) := by
  refine handleFor_writes.bind fun handle t hsame => ?_
  refine (onStore_yields (Link.call_yields FileStore.write_writes)).imp fun _ u hended => ?_
  exact Recorded.of_same ⟨hended.1, hended.2⟩ hsame

end Files

/-- A slot that has been looked up is one that there is, and nothing has changed. -/
theorem lookup_yields : (lookup slot : Op n k (Memory n k × Slot)).Yields s
    (fun found t => t = s ∧ s.lookup? slot = .ok found) := by
  simp only [lookup]
  rw [Action.Yields, Action.ends_get_bind, Action.ends_ofExcept]
  split
  · exact ⟨rfl, by assumption⟩
  · trivial

/-- Whether an access is inside its slot is asked before anything changes. -/
theorem requireInside_yields {offset length : Nat} :
    (requireInside entry offset length : Op n k Unit).Yields s (fun _ t => t = s) := by
  simp only [requireInside]
  split
  · exact rfl
  · trivial

private theorem word_yields {ε : Type} {value : Nat} :
    (Action.word value : Action (Storage n k) ε Nat).Yields s (fun a t => t = s ∧ a = value) := by
  simp only [Action.word]
  split
  · exact ⟨rfl, rfl⟩
  · trivial

/-- Reading writes nothing. -/
theorem read_writes {offset length : Nat} :
    (read slot offset length : Op n k Bytes).Yields s (fun _ t => t.writesOn = s.writesOn) := by
  simp only [read]
  refine lookup_yields.bind ?_
  rintro ⟨memory, entry⟩ _ ⟨rfl, -⟩
  refine requireInside_yields.bind ?_
  rintro _ _ rfl
  split
  · refine word_yields.bind ?_
    rintro _ _ ⟨rfl, rfl⟩
    refine guarding_yields ((onFlash_yields FlashLink.read_writes).imp ?_)
    exact fun _ t h => same_of_own h.1 h.2
  · exact guarding_yields readFile_writes
  · trivial

/-- A granule that goes out is one write to the device of its slot. -/
theorem writeOut_records (hl : s.lookup? s.buffer.target = .ok (memory, entry)) :
    writeOut.Yields s (fun _ t =>
      Recorded memory.device ⟨placeOf entry s.buffer.offset, s.buffer.bytes⟩ s t) := by
  simp only [writeOut]
  rw [Action.Yields, Action.ends_get_bind, ends_lookup_bind hl]
  split
  · trivial
  · split
    · rename_i d address hd ha
      refine word_yields.bind ?_
      rintro _ _ ⟨rfl, rfl⟩
      refine (guarding_yields (onFlash_yields FlashLink.program_writes)).bind fun _ t hended => ?_
      rw [hd, placeOf, ha]
      exact ⟨hended.1, hended.2⟩
    · rename_i d path hd hp
      refine (guarding_yields writeFile_writes).bind fun _ t hended => ?_
      rw [hd, placeOf, hp]
      exact ⟨hended.own, hended.others⟩
    · trivial

end FirmwareUpdate.Storage
