import FirmwareUpdate.Proofs.Cipher.Cbc
import FirmwareUpdate.Proofs.Storage.Reading
import FirmwareUpdate.Update.Engine

/-! What the steps of an engine may change, and what is fixed once it is there. -/
namespace FirmwareUpdate.Engine
variable {n k : Nat} {α ε : Type} {e e' e'' : Engine n k} {P Q : Place n k → Prop}

/-- From `e` to a later state `e'` only the contents of places in `P` may change. -/
structure Changes (P : Place n k → Prop) (e e' : Engine n k) : Prop where
  storage : Storage.Changes P e.storage e'.storage
  policy : e'.policy = e.policy
  tuning : e'.tuning = e.tuning
  key : e'.key = e.key
  backend : e'.backend = e.backend

/-- No byte changes, and what is pending is left alone or dropped. -/
structure Still (e e' : Engine n k) : Prop extends Changes (fun _ => False) e e' where
  buffer : e'.storage.buffer = e.storage.buffer ∨ e'.storage.buffer.bytes = []

/-- Some call failed although nothing was wrong with the request. -/
def Faulted (e e' : Engine n k) : Prop := e.storage.Faulted e'.storage

namespace Changes

theorem refl (P : Place n k → Prop) (e : Engine n k) : Changes P e e :=
  ⟨Storage.Changes.refl P _, rfl, rfl, rfl, rfl⟩

theorem trans (h : Changes P e e') (h' : Changes P e' e'') : Changes P e e'' :=
  ⟨h.storage.trans h'.storage, h'.policy.trans h.policy, h'.tuning.trans h.tuning, h'.key.trans h.key,
    h'.backend.trans h.backend⟩

/-- Where no more than some places change, no more than a larger number of them does. -/
theorem mono (h : Changes P e e') (hPQ : ∀ p, P p → Q p) : Changes Q e e' :=
  ⟨h.storage.mono hPQ, h.policy, h.tuning, h.key, h.backend⟩

/-- What changes the storage changes the engine as much. -/
theorem of_storage {s : Storage n k} (h : Storage.Changes P e.storage s) :
    Changes P e { e with storage := s } := ⟨h, rfl, rfl, rfl, rfl⟩

/-- A fault after the changes is a fault since before them. -/
theorem faulted_right (h : Changes P e e') (hf : e'.Faulted e'') : e.Faulted e'' :=
  h.storage.faulted_right hf

/-- A fault before the changes is a fault until after them. -/
theorem faulted_left (h : Changes P e' e'') (hf : e.Faulted e') : e.Faulted e'' :=
  h.storage.faulted_left hf

/-- Changes of bytes leave the storage in order. -/
theorem inOrder (h : Changes P e e') (hs : e.storage.InOrder) : e'.storage.InOrder := h.storage.inOrder hs

private theorem slots (h : Changes P e e') : e'.storage.slots = e.storage.slots := by
  simp only [Storage.slots]
  rw [h.storage.setup.memories]

private theorem find? (h : Changes P e e') (content : Content) :
    e'.storage.find? content = e.storage.find? content := by
  simp only [Storage.find?]
  rw [h.slots]

/-- Changes of bytes leave the application slot where it is. -/
theorem application? (h : Changes P e e') : e'.application? = e.application? := by
  simp only [Engine.application?]
  rw [h.find?]

/-- Changes of bytes leave the slot for updates where it is. -/
theorem staged? (h : Changes P e e') : e'.staged? = e.staged? := by
  simp only [Engine.staged?]
  rw [h.find?]

/-- Changes of bytes leave the backup slot where it is. -/
theorem backup? (h : Changes P e e') : e'.backup? = e.backup? := by
  simp only [Engine.backup?]
  rw [h.slots, h.policy]

/-- Changes of bytes leave a slot encrypted or in the clear as it was. -/
theorem holdsEncrypted (h : Changes P e e') (slot : SlotId) : e'.holdsEncrypted slot = e.holdsEncrypted slot := by
  simp only [Engine.holdsEncrypted, Storage.hasTier, Storage.tier?]
  rw [h.policy, h.storage.setup.lookup?]

/-- Changes of bytes leave the size of a chunk as it is. -/
theorem chunk (h : Changes P e e') : e'.chunk = e.chunk := by
  simp only [Engine.chunk]
  rw [h.tuning]

end Changes

namespace Still

theorem refl (e : Engine n k) : e.Still e := ⟨Changes.refl _ e, Or.inl rfl⟩

/-- While no byte changes, an empty buffer stays empty. -/
theorem pending (h : e.Still e') (hb : e.storage.buffer.bytes = []) : e'.storage.buffer.bytes = [] :=
  h.buffer.elim (fun hsame => hsame ▸ hb) id

theorem trans (h : e.Still e') (h' : e'.Still e'') : e.Still e'' := by
  refine ⟨h.toChanges.trans h'.toChanges, ?_⟩
  rcases h'.buffer with hsame | hempty
  · rw [hsame]
    exact h.buffer
  · exact Or.inr hempty

/-- An engine whose bytes are still may be said to change anywhere. -/
theorem changes (h : e.Still e') : Changes P e e' := h.toChanges.mono fun _ h => h.elim

/-- An engine is still when its storage is and what was pending is left alone or dropped. -/
theorem of_storage {s : Storage n k} (h : e.storage.Still s)
    (hb : s.buffer = e.storage.buffer ∨ s.buffer.bytes = []) : e.Still { e with storage := s } :=
  ⟨Changes.of_storage h, hb⟩

end Still

/-- A call on the device failed, and the device was left in a known state. -/
structure Broken (memory : Memory n k) (e e' : Engine n k) : Prop where
  still : e.Still e'
  fails : Storage.Fails (fun _ => False) memory.device e.storage e'.storage
  onDevice : Storage.FaultedOn memory.device e.storage e'.storage

/-- A broken device is a fault that is no fault of the request. -/
theorem Broken.faulted {memory : Memory n k} (h : Broken memory e e') : e.Faulted e' := h.onDevice.faulted

/-- What the engine does before a device breaks does not matter if no byte changes meanwhile. -/
theorem Broken.after {memory : Memory n k} (h : e.Still e') (hb : Broken memory e' e'') : Broken memory e e'' := by
  refine ⟨h.trans hb.still, ⟨h.storage.trans hb.fails.changes, hb.fails.dropped, ?_⟩,
    h.storage.faultedOn_right hb.onDevice⟩
  intro d hd hquiet
  exact hb.fails.off d hd fun i => (congrFun (congrFun (h.storage.setup.schedule _) _) i).trans (hquiet i)

/-- A device that is off stays off while the storage is left alone. -/
theorem Broken.of_storage {memory : Memory n k} (h : Broken memory e e') (hs : e'.storage = e''.storage)
    (he : e'.Still e'') : Broken memory e e'' :=
  ⟨h.still.trans he, hs ▸ h.fails, he.storage.faultedOn_left h.onDevice⟩

/-- A call on the device of the slot failed although nothing was wrong with the request. -/
def FaultedAt (slot : SlotId) (e e' : Engine n k) : Prop :=
  ∃ memory entry, e.storage.lookup? slot = .ok (memory, entry) ∧
    Storage.FaultedOn memory.device e.storage e'.storage

namespace FaultedAt
variable {slot : SlotId}

/-- A fault at a slot is a fault. -/
theorem faulted (h : FaultedAt slot e e') : e.Faulted e' := by
  obtain ⟨memory, entry, -, hf⟩ := h
  exact hf.faulted

/-- A fault at a slot is one however much has changed before it. -/
theorem after (h : Changes P e e') (hf : FaultedAt slot e' e'') : FaultedAt slot e e'' := by
  obtain ⟨memory, entry, hl, hf⟩ := hf
  exact ⟨memory, entry, (h.storage.setup.lookup? slot).symm.trans hl, h.storage.faultedOn_right hf⟩

/-- A fault at a slot is one however much changes after it. -/
theorem before (hf : FaultedAt slot e e') (h : Changes P e' e'') : FaultedAt slot e e'' := by
  obtain ⟨memory, entry, hl, hf⟩ := hf
  exact ⟨memory, entry, hl, h.storage.faultedOn_left hf⟩

end FaultedAt

/-! ### Roles of slots -/

private theorem lookup?_of_find? {s : Storage n k} {p : SlotId × Slot → Bool} {slot : SlotId}
    (h : (s.slots.find? p).map Prod.fst = some slot) :
    ∃ memory entry, s.lookup? slot = .ok (memory, entry) ∧ p (slot, entry) = true := by
  obtain ⟨⟨slot', entry⟩, hfind, rfl⟩ := Option.map_eq_some_iff.mp h
  obtain ⟨memory, hl⟩ := Storage.lookup?_of_mem_slots (List.mem_of_find?_eq_some hfind)
  exact ⟨memory, entry, hl, List.find?_some hfind⟩

/-- The slot that is elected for the application is registered, and for an application. -/
theorem lookup_application {slot : SlotId} (h : e.application? = .ok slot) :
    ∃ memory entry, e.storage.lookup? slot = .ok (memory, entry) ∧
      entry.content.application = true := by
  unfold application? at h
  split at h
  · rename_i slot' hfind
    cases h
    obtain ⟨memory, entry, hl, hcontent⟩ := lookup?_of_find? hfind
    refine ⟨memory, entry, hl, ?_⟩
    simpa [Content.includes, Content.theApplication] using hcontent
  · cases h

/-- The slot that is elected for an update is registered, and for an update. -/
theorem lookup_staged {slot : SlotId} (h : e.staged? = .ok slot) :
    ∃ memory entry, e.storage.lookup? slot = .ok (memory, entry) ∧ entry.content.update = true := by
  unfold staged? at h
  split at h
  · rename_i slot' hfind
    cases h
    obtain ⟨memory, entry, hl, hcontent⟩ := lookup?_of_find? hfind
    refine ⟨memory, entry, hl, ?_⟩
    simpa [Content.includes, Content.anUpdate] using hcontent
  · cases h

/-- The slot that is elected for a backup is registered for one, and there is none without fallback. -/
theorem lookup_backup {slot : SlotId} (h : e.backup? = some slot) :
    e.policy.fallback = true ∧ ∃ memory entry, e.storage.lookup? slot = .ok (memory, entry) ∧
      entry.content = .aBackup := by
  unfold backup? at h
  split at h
  · rename_i hfallback
    obtain ⟨memory, entry, hl, hcontent⟩ := lookup?_of_find? h
    exact ⟨hfallback, memory, entry, hl, of_decide_eq_true hcontent⟩
  · cases h

/-- The backup of the application is not kept in its own slot. -/
theorem backup_ne_application {slot application : SlotId} (h : e.backup? = some slot)
    (ha : e.application? = .ok application) : slot ≠ application := by
  rintro rfl
  obtain ⟨-, memory, entry, hl, hcontent⟩ := lookup_backup h
  obtain ⟨memory', entry', hl', happlication⟩ := lookup_application ha
  rw [hl] at hl'
  cases hl'
  rw [hcontent] at happlication
  cases happlication

/-- Images in the first memory are plain. -/
theorem holdsEncrypted_of_primary {slot : SlotId} {memory : Memory n k} {entry : Slot}
    (hl : e.storage.lookup? slot = .ok (memory, entry)) (hprimary : memory.tier = .primary) :
    e.holdsEncrypted slot = false := by
  simp [holdsEncrypted, Storage.hasTier, Storage.tier?, hl, Except.map, hprimary]

/-! ### Parts of the engine -/

/-- What the storage does ends as it would by itself, and the rest of the engine is left alone. -/
theorem onStorage_ends {act : Action (Storage n k) ε α} {done : α → Engine n k → Prop}
    {failed : ε → Engine n k → Prop} {trapped : Prop} :
    (onStorage act).Ends e done failed trapped ↔
      act.Ends e.storage (fun a s => done a { e with storage := s })
        (fun cause s => failed cause { e with storage := s }) trapped :=
  Action.ends_focus act

/-- A note is kept in the log and nowhere else. -/
theorem note_bind {level : Severity} {tag text : String} {next : Unit → Action (Engine n k) ε α}
    {done : α → Engine n k → Prop} {failed : ε → Engine n k → Prop} {trapped : Prop}
    (h : ∀ log, (next ⟨⟩).Ends { e with log } done failed trapped) :
    (note level tag text >>= next).Ends e done failed trapped := by
  simp only [note]
  rw [Action.ends_modify_bind]
  exact h _

/-- The log does not matter to the bytes. -/
theorem still_log (e : Engine n k) (log : Log) : e.Still { e with log } :=
  ⟨⟨Storage.Changes.refl _ _, rfl, rfl, rfl, rfl⟩, Or.inl rfl⟩

/-- The session of the cipher does not matter to the bytes. -/
theorem still_cipher (e : Engine n k) (cipher : Cbc.Cipher) : e.Still { e with cipher } :=
  ⟨⟨Storage.Changes.refl _ _, rfl, rfl, rfl, rfl⟩, Or.inl rfl⟩

/-- What the cipher does ends as it would by itself, and the rest of the engine is left alone. -/
theorem onCipher_ends {act : Action Cbc.Cipher CipherError α} {done : α → Engine n k → Prop}
    {failed : Error → Engine n k → Prop} {trapped : Prop} :
    (onCipher act).Ends e done failed trapped ↔
      act.Ends e.cipher (fun a cipher => done a { e with cipher })
        (fun cause cipher => failed cause.toError { e with cipher }) trapped := by
  simp only [onCipher]
  rw [Action.ends_mapError, Action.ends_focus]

/-- Loading the key starts a session on it, and fails only if that cannot be started. -/
theorem loadKey_ends (iv : Bytes) :
    (loadKey iv).Ends e
      (fun _ e' => ∃ s, Cbc.Stream.start e.key.bytes iv = .ok s ∧ e' = { e with cipher := some s })
      (fun cause e' => e' = e ∧ ∃ refusal, Cbc.Stream.start e.key.bytes iv = .error refusal ∧
        cause = refusal.toError) False := by
  simp only [loadKey, Cbc.Cipher.load]
  rw [Action.ends_get_bind, onCipher_ends, Action.ends_bind, Action.ends_ofExcept]
  split
  · rename_i s hs
    exact ⟨s, hs, rfl⟩
  · rename_i refusal hrefusal
    exact ⟨rfl, refusal, hrefusal, rfl⟩

/-- Whole blocks are decrypted in one go, without failing. -/
theorem decrypt_ends {s : Cbc.Stream} {data : Bytes} {done : Bytes → Engine n k → Prop}
    {failed : Error → Engine n k → Prop} {trapped : Prop} (hs : e.cipher = some s)
    (hdata : data.length % Aes.blockLength = 0) :
    (decrypt data).Ends e done failed trapped ↔
      done (s.decryptWhole data) { e with cipher := some (s.after data) } := by
  simp only [decrypt]
  rw [onCipher_ends, hs, Cbc.Cipher.decrypt_ends hdata]

/-! ### One slot -/

/-- A slot, its bytes, and what it takes to judge them. -/
structure View (n k : Nat) where
  slot : SlotId
  memory : Memory n k
  entry : Slot
  bytes : Bytes
  backend : Backend
  key : Key
  encrypted : Bool

/-- The view is one of this engine. -/
structure Shows (e : Engine n k) (v : View n k) : Prop where
  inOrder : e.storage.InOrder
  chunk_pos : 0 < e.chunk
  lookup : e.storage.lookup? v.slot = .ok (v.memory, v.entry)
  bytes : e.storage.held v.memory v.entry = v.bytes
  backend : e.backend = v.backend
  key : e.key = v.key
  encrypted : e.holdsEncrypted v.slot = v.encrypted

variable {v : View n k}

/-- A view stays one as long as nothing changes within its slot. -/
theorem Shows.of_changes (h : e.Shows v) (he : Changes P e e')
    (hp : ∀ p, e.storage.within v.memory v.entry p → ¬P p) : e'.Shows v :=
  ⟨he.inOrder h.inOrder, he.chunk ▸ h.chunk_pos, he.storage.lookup? h.lookup,
    (he.storage.held_eq hp).trans h.bytes, he.backend.trans h.backend, he.key.trans h.key,
    (he.holdsEncrypted _).trans h.encrypted⟩

/-- A view stays one of an engine that is still. -/
theorem Shows.of_still (h : e.Shows v) (he : e.Still e') : e'.Shows v :=
  h.of_changes he.toChanges fun _ _ h => h

/-- A view has as many bytes as its slot. -/
theorem Shows.length_bytes (h : e.Shows v) : v.bytes.length = v.entry.size :=
  h.bytes ▸ Storage.length_held h.inOrder.sound h.lookup

/-- No slot is empty. -/
theorem Shows.size_pos (h : e.Shows v) : 0 < v.entry.size := h.inOrder.sound.size_pos h.lookup

/-- What is read in the slot is the stretch of the view that was asked for, unless a device breaks. -/
theorem Shows.read_ends {offset length : Nat} (h : e.Shows v) (hin : offset + length ≤ v.entry.size) :
    (read v.slot offset length).Ends e
      (fun bytes e' => e.Still e' ∧ e'.cipher = e.cipher ∧ bytes = Bytes.slice v.bytes offset length)
      (fun _ e' => Broken v.memory e e') (v.entry.size ≤ offset ∧ e.storage.AtTop) := by
  refine onStorage_ends.mpr ((Storage.read_ends h.inOrder h.lookup hin).imp ?_ ?_ id)
  · intro bytes s hended
    obtain ⟨hstill, hbuffer, rfl⟩ := hended
    exact ⟨.of_storage hstill (Or.inl hbuffer), rfl, by rw [h.bytes]⟩
  · intro _ s hended
    obtain ⟨hfails, hf⟩ := hended
    exact ⟨.of_storage hfails.changes (Or.inr hfails.dropped), hfails, hf⟩

/-- Nothing is read that is not within the slot. -/
theorem Shows.read_of_outside {offset length : Nat} (h : e.Shows v) (hout : v.entry.size < offset + length) :
    read v.slot offset length e = .error (.error .invalidLength) e := by
  simp only [read, onStorage, Action.focus]
  rw [Storage.read_of_outside h.lookup hout]

end FirmwareUpdate.Engine
