import FirmwareUpdate.Proofs.Storage.Total

/-! How far the buffer gets. A run starts inside its slot and goes on by granules that fit into it, so the buffer never
stands past the end of the slot. -/
namespace FirmwareUpdate.Storage
variable {n k : Nat} {ε α : Type} {s₀ s t : Storage n k} {b : GranuleBuffer} {memory : Memory n k} {entry : Slot}
  {slot : SlotId} {offset length : Nat}

/-- The memories are those of `s₀`, and the buffer stands where `b` does. -/
structure Stands (s₀ : Storage n k) (b : GranuleBuffer) (s : Storage n k) : Prop where
  memories : s.memories = s₀.memories
  buffer : s.buffer.dropPending = b

/-- The buffer does not stand past the end of its slot. -/
structure Placed (s₀ s : Storage n k) : Prop where
  memories : s.memories = s₀.memories
  inside : ∀ memory entry, s.lookup? s.buffer.target = .ok (memory, entry) → s.buffer.offset ≤ entry.size

private theorem lookup?_of_memories (h : s.memories = t.memories) (slot : SlotId) :
    s.lookup? slot = t.lookup? slot := by
  simp only [lookup?, h]

theorem Stands.refl (h : s.memories = s₀.memories) : Stands s₀ s.buffer.dropPending s := ⟨h, rfl⟩

private theorem Stands.placed (h : Stands s₀ s.buffer.dropPending t) (hs : Placed s₀ s) : Placed s₀ t := by
  refine ⟨h.memories, fun memory entry hl => ?_⟩
  obtain ⟨htarget, hoffset, -, -⟩ := GranuleBuffer.mk.inj h.buffer
  rw [htarget, lookup?_of_memories (h.memories.trans hs.memories.symm)] at hl
  exact hoffset ▸ hs.inside memory entry hl

/-- What leaves the buffer where it stands leaves it inside the slot. -/
theorem placed_of_stands {act : Action (Storage n k) ε α} (h : ∀ b, Action.Preserves (Stands s₀ b) True act) :
    Action.Preserves (Placed s₀) True act := fun s hs =>
  (h _ s (.refl hs.memories)).imp (fun _ _ ht => ht.placed hs) (fun _ _ ht => ht.placed hs) id

/-- Calls on flash leave it to the buffer where it stands. -/
theorem onFlash_stands {d : Fin n} {call : FlashLink.Call α} :
    Action.Preserves (Stands s₀ b) True (onFlash d call) := fun _ hs =>
  onFlash_ends.mpr (Action.ends_of_all (fun _ _ => ⟨hs.memories, hs.buffer⟩)
    (fun _ _ => ⟨hs.memories, hs.buffer⟩) trivial)

/-- Calls on a store leave it to the buffer where it stands. -/
theorem onStore_stands {d : Fin k} {call : FileLink.Call α} :
    Action.Preserves (Stands s₀ b) True (onStore d call) := fun _ hs =>
  onStore_ends.mpr (Action.ends_of_all (fun _ _ => ⟨hs.memories, hs.buffer⟩)
    (fun _ _ => ⟨hs.memories, hs.buffer⟩) trivial)

/-- No call on a device moves the buffer. -/
theorem tended_stands : Tended (Stands s₀ b) True where
  aside _ _ hs _ hm hb := ⟨hm.trans hs.memories, (hb.elim (congrArg _) (congrArg _)).trans hs.buffer⟩
  initFlash _ := onFlash_stands
  readFlash _ _ _ := onFlash_stands
  releaseFlash _ := onFlash_stands
  initStore _ := onStore_stands
  openFile _ _ _ := onStore_stands
  readFile _ _ _ _ := onStore_stands
  closeFile _ _ := onStore_stands
  releaseStore _ := onStore_stands

private theorem erase_stands : Action.Preserves (Stands s₀ b) True (erase slot offset length : Op n k Unit) := by
  refine erase_of_calls (by intros; trivial) (fun _ _ _ => tended_stands.guarding onFlash_stands) ?_
  intro s memory entry d path hs hl hd hp
  exact tended_stands.guarding (.bind tended_stands.handleFor fun _ => onStore_stands)

private theorem Stands.advanced (h : Stands s₀ s.buffer.dropPending t) (hs : s.memories = s₀.memories)
    (hl : s.lookup? s.buffer.target = .ok (memory, entry))
    (hin : s.buffer.offset + s.buffer.granule ≤ entry.size) :
    Placed s₀ { t with buffer := t.buffer.advanced } := by
  -- The granule that has been written out was part of the slot.
  refine ⟨h.memories, fun memory' entry' hl' => ?_⟩
  obtain ⟨htarget, hoffset, hgranule, -⟩ := GranuleBuffer.mk.inj h.buffer
  have hsame : t.lookup? t.buffer.target = .ok (memory', entry') := hl'
  rw [htarget, lookup?_of_memories (h.memories.trans hs.symm), hl] at hsame
  cases hsame
  show t.buffer.offset + t.buffer.granule ≤ entry.size
  rwa [hoffset, hgranule]

private theorem writeOut_placed : Action.Preserves (Placed s₀) True (writeOut : Op n k Unit) := by
  intro s hs
  have hstart : Stands s₀ s.buffer.dropPending s := .refl hs.memories
  simp only [writeOut]
  rw [Action.ends_get_bind]
  refine ends_of_lookup (fun _ => hs) fun memory entry hl => ?_
  rw [ends_lookup_bind hl]
  by_cases hshort : entry.size < s.buffer.offset + s.buffer.granule
  · simp only [if_pos hshort]
    exact (Stands.mk hs.memories rfl : Stands s₀ s.buffer.dropPending
      { s with buffer := s.buffer.dropPending }).placed hs
  · have hdone : ∀ {act : Op n k Unit}, Action.Preserves (Stands s₀ s.buffer.dropPending) True act →
        (act >>= fun _ => modify fun s => { s with buffer := s.buffer.advanced }).Ends s
          (fun _ t => Placed s₀ t) (fun _ t => Placed s₀ t) True := fun hact =>
      (hact s hstart).bind (fun _ t ht => ht.advanced hs.memories hl (Nat.not_lt.mp hshort))
        (fun _ t ht => ht.placed hs) id
    simp only [if_neg hshort]
    split
    · refine Action.word_bind (fun _ => trivial) (hdone ?_)
      exact tended_stands.guarding onFlash_stands
    · exact hdone (tended_stands.guarding (.bind tended_stands.handleFor fun _ => onStore_stands))
    · exact hdone (.fail _)

private theorem write_placed {data : Bytes} {mode : WriteMode} :
    Action.Preserves (Placed s₀) True (write slot offset data mode : Op n k Unit) := by
  -- A run that is begun is begun inside the slot.
  refine lookup_bind fun s memory entry hs hl => requireInside_bind fun hin => ?_
  have hstart : ∀ t, Placed s₀ t →
      Placed s₀ { t with buffer := .start slot offset (t.devices.granule memory.device) } := by
    refine fun t ht => ⟨ht.memories, fun memory' entry' hl' => ?_⟩
    have hsame : t.lookup? slot = .ok (memory', entry') := hl'
    rw [lookup?_of_memories (ht.memories.trans hs.memories.symm), hl] at hsame
    cases hsame
    exact Nat.le_trans (Nat.le_add_right _ _) hin
  refine .bind (continueRun_of_start hstart) fun _ => ?_
  refine .bind (pushBytes_of_writeOut (fun _ _ ht => ⟨ht.memories, ht.inside⟩) writeOut_placed data) fun _ => ?_
  cases mode with
  | buffered => exact .pure ()
  | force => exact forceOut_of_writeOut (fun _ ht => ⟨ht.memories, ht.inside⟩) writeOut_placed

/-- A buffer of a storage that fits its devices stays placed, whatever is asked for. -/
theorem Fits.placed_upkeep (h : s₀.Fits) : Upkeep s₀ (Placed s₀) (fun _ => True) True where
  memories _ hs := hs.memories
  reach := h.upkeep.reach
  read _ _ _ := placed_of_stands fun _ => tended_stands.read fun _ _ _ _ _ _ _ _ _ _ _ => trivial
  write _ _ _ _ _ := write_placed
  erase _ _ _ _ := placed_of_stands fun _ => erase_stands
  dropPending := placed_of_stands fun _ => tended_stands.dropPending
  settle _ := placed_of_stands fun _ => tended_stands.settle _
  init := placed_of_stands fun _ => tended_stands.init
  closeFiles := placed_of_stands fun _ => tended_stands.closeFiles
  release := placed_of_stands fun _ => tended_stands.release

end FirmwareUpdate.Storage
