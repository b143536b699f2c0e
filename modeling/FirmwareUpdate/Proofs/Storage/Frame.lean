import FirmwareUpdate.Proofs.Storage.Patching
import FirmwareUpdate.Proofs.Storage.Upkeep

/-! Whatever is asked of a storage, and however that ends, it stays in order, its buffer holds part of a
granule of some slot or nothing at all, and of the slots only those change that it is asked to write to. -/
namespace FirmwareUpdate.Storage
variable {n k : Nat} {s₀ s t u : Storage n k} {T U : SlotId → Prop} {memory : Memory n k} {entry : Slot}
  {slot : SlotId} {offset length : Nat}

/-- The buffer holds part of a granule of some slot. -/
def Gathering (s : Storage n k) : Prop :=
  ∃ memory entry, s.lookup? s.buffer.target = .ok (memory, entry) ∧
    s.buffer.granule = s.devices.granule memory.device ∧ s.buffer.bytes.length < s.buffer.granule

def Tidy (s : Storage n k) : Prop := s.buffer.bytes = [] ∨ s.Gathering

private theorem Gathering.of_buffer (h : s.Gathering) (ht : s.SameSetup t) (hb : t.buffer = s.buffer) :
    t.Gathering := by
  obtain ⟨memory, entry, hl, hgranule, hlt⟩ := h
  refine ⟨memory, entry, ?_, ?_, hb ▸ hlt⟩
  · rw [hb]
    exact (ht.lookup? _).trans hl
  · rw [hb, ht.deviceGranule]
    exact hgranule

/-- While the buffer stays as it is, what is wrong with it stays known. -/
theorem Tidy.of_buffer (h : s.Tidy) (ht : s.SameSetup t) (hb : t.buffer = s.buffer) : t.Tidy := by
  rcases h with hempty | hgathering
  · exact Or.inl (hb ▸ hempty)
  · exact Or.inr (hgathering.of_buffer ht hb)

/-- The places of the slots in `T`. -/
def inside (s : Storage n k) (T : SlotId → Prop) (p : Place n k) : Prop :=
  ∃ slot memory entry, T slot ∧ s.lookup? slot = .ok (memory, entry) ∧ s.within memory entry p

private theorem SameSetup.inside_iff (h : s.SameSetup t) (p : Place n k) : t.inside T p ↔ s.inside T p := by
  simp only [inside, h.lookup?, h.within_iff]

/-- From `s` to a later state `t` only slots in `T` have changed, and no file past the size of its slot. -/
structure Confined (T : SlotId → Prop) (s t : Storage n k) : Prop where
  changes : Changes (s.inside T) s t
  tail : ∀ slot memory entry, s.lookup? slot = .ok (memory, entry) → t.tail memory entry = s.tail memory entry

namespace Confined

private theorem of_still (h : s.Still t) : Confined T s t := ⟨h.changes, fun _ _ _ _ => h.tail_eq⟩

theorem refl (T : SlotId → Prop) (s : Storage n k) : Confined T s s := of_still (Changes.refl _ s)

private theorem trans (h : Confined T s t) (h' : Confined T t u) : Confined T s u := by
  refine ⟨h.changes.trans (h'.changes.mono fun p => (h.changes.setup.inside_iff p).mp), ?_⟩
  intro slot memory entry hl
  exact (h'.tail slot memory entry (h.changes.lookup? hl)).trans (h.tail slot memory entry hl)

/-- What touches one slot leaves the files of the others alone. -/
theorem of_touched (hs : s.Sound) (hl : s.lookup? slot = .ok (memory, entry)) (hT : T slot)
    (h : Touched memory entry s t) : Confined T s t := by
  refine ⟨h.changes.mono fun p hp => ⟨slot, memory, entry, hT, hl, hp⟩, ?_⟩
  intro slot' memory' entry' hl'
  by_cases hsame : slot' = slot
  · rw [hsame, hl] at hl'
    cases hl'
    exact h.tail
  · exact h.changes.tail_eq (hs.apart _ _ _ _ _ _ hl' hl hsame)

end Confined

/-- What a storage has done since `s₀` is confined to the slots in `T`, and its buffer is tidy. -/
structure Orderly (T : SlotId → Prop) (s₀ s : Storage n k) : Prop extends Confined T s₀ s where
  tidy : s.Tidy

private theorem Orderly.of_still (h : Orderly T s₀ s) (hstill : s.Still t)
    (hb : t.buffer = s.buffer ∨ t.buffer.bytes = []) : Orderly T s₀ t :=
  ⟨h.toConfined.trans (.of_still hstill), hb.elim (h.tidy.of_buffer hstill.setup) Or.inl⟩

/-- Bytes are being gathered for a slot in `T`. -/
structure Filling (T : SlotId → Prop) (s₀ : Storage n k) (slot : SlotId) (s : Storage n k) : Prop
    extends Confined T s₀ s where
  gathering : s.Gathering
  target : s.buffer.target = slot

private theorem lookup_orderly {α : Type} {next : Memory n k × Slot → Op n k α}
    (h : ∀ s memory entry, Orderly T s₀ s → s.lookup? slot = .ok (memory, entry) →
      (next (memory, entry)).Ends s (fun _ t => Orderly T s₀ t) (fun _ t => Orderly T s₀ t) s₀.AtTop) :
    Action.Preserves (Orderly T s₀) s₀.AtTop (lookup slot >>= next) := by
  refine fun s hs => ends_of_lookup (fun _ => hs) fun memory entry hl => ?_
  rw [ends_lookup_bind hl]
  exact h s _ _ hs hl

section Requests
variable (hs₀ : s₀.InOrder)
include hs₀

private theorem Confined.inOrder (h : Confined T s₀ s) : s.InOrder := h.changes.inOrder hs₀

private theorem Confined.touched (h : Confined T s₀ s) (hl : s.lookup? slot = .ok (memory, entry)) (hT : T slot)
    (ht : Touched memory entry s t) : Confined T s₀ t :=
  h.trans (.of_touched (h.inOrder hs₀).sound hl hT ht)

private theorem read_orderly : Action.Preserves (Orderly T s₀) s₀.AtTop (read slot offset length : Op n k Bytes) := by
  refine lookup_orderly fun s memory entry hs hl => ?_
  by_cases hin : offset + length ≤ entry.size
  · refine (ends_lookup_bind hl).mp ((read_ends (hs.inOrder hs₀) hl hin).imp ?_ ?_
      fun h => hs.changes.setup.atTop.mp h.2)
    · exact fun _ t h => hs.of_still h.1 (Or.inl h.2.1)
    · exact fun _ t h => hs.of_still h.1.changes (Or.inr h.1.dropped)
  · simp only [requireInside]
    simp only [if_neg hin]
    exact hs

private theorem erase_orderly (hT : T slot) :
    Action.Preserves (Orderly T s₀) s₀.AtTop (erase slot offset length : Op n k Unit) := by
  refine lookup_orderly fun s memory entry hs hl => ?_
  by_cases hreal : offset + length ≤ entry.size ∧ length ≠ 0
  · refine (ends_lookup_bind hl).mp ((eraseAt_ends (hs.inOrder hs₀) hl hreal.1 hreal.2).imp ?_ ?_
      hs.changes.setup.atTop.mp)
    · intro _ t hended
      obtain ⟨hpatch, hbuffer⟩ := hended
      exact ⟨hs.touched hs₀ hl hT hpatch.toTouched, hs.tidy.of_buffer hpatch.changes.setup hbuffer⟩
    · rintro _ t (⟨-, rfl⟩ | ⟨hfails, -, htail⟩)
      · exact hs
      · exact ⟨hs.touched hs₀ hl hT ⟨hfails.changes, htail⟩, Or.inl hfails.dropped⟩
  · simp only [requireInside]
    by_cases hin : offset + length ≤ entry.size
    · have hzero : length = 0 := Decidable.not_not.mp fun hne => hreal ⟨hin, hne⟩
      simp only [if_pos hin, Action.ends_pure_bind, if_pos hzero]
      exact hs
    · simp only [if_neg hin]
      exact hs

/-! ### Writing -/

private theorem writeFull_fills (hT : T slot) (h : Confined T s₀ s) (htarget : s.buffer.target = slot)
    (hl : s.lookup? slot = .ok (memory, entry)) (hgranule : s.buffer.granule = s.devices.granule memory.device)
    (hfull : s.buffer.bytes.length = s.buffer.granule) :
    writeOut.Ends s (fun _ t => Filling T s₀ slot t) (fun _ t => Orderly T s₀ t) False := by
  have hl' : s.lookup? s.buffer.target = .ok (memory, entry) := htarget ▸ hl
  have hs := h.inOrder hs₀
  refine (writeOut_ends hs hl' hgranule hfull).imp ?_ ?_ id
  · intro _ t hended
    obtain ⟨⟨_, -, -, hpatch⟩, hbuffer⟩ := hended
    refine ⟨h.touched hs₀ hl hT hpatch.toTouched, ⟨memory, entry, ?_, ?_, ?_⟩, ?_⟩
    · rw [hbuffer]
      exact hpatch.changes.lookup? hl'
    · rw [hbuffer, hpatch.changes.setup.deviceGranule]
      exact hgranule
    · rw [hbuffer]
      show 0 < s.buffer.granule
      rw [hgranule]
      exact hs.sound.granule_pos _ _ _ hl
    · rw [hbuffer]
      exact htarget
  · exact fun _ t hended => ⟨h.touched hs₀ hl hT hended.1, Or.inl hended.2.1⟩

private theorem pushByte_fills {byte : UInt8} (hT : T slot) (h : Filling T s₀ slot s) :
    (pushByte byte).Ends s (fun _ t => Filling T s₀ slot t) (fun _ t => Orderly T s₀ t) False := by
  obtain ⟨hconfined, ⟨memory, entry, hl, hgranule, hlt⟩, htarget⟩ := h
  have hstill : s.Still { s with buffer := s.buffer.push byte } := still_buffer s _
  have hpushed : Confined T s₀ { s with buffer := s.buffer.push byte } := hconfined.trans (.of_still hstill)
  have hlength : (s.buffer.push byte).bytes.length = s.buffer.bytes.length + 1 := List.length_append
  simp only [pushByte]
  simp only [Action.ends_modify_bind, Action.ends_get_bind]
  split
  · rename_i hcomplete
    exact writeFull_fills hs₀ hT hpushed htarget (htarget ▸ hl) hgranule (of_decide_eq_true hcomplete)
  · rename_i hpartial
    refine ⟨hpushed, ⟨memory, entry, hl, hgranule, ?_⟩, htarget⟩
    have hne : (s.buffer.push byte).bytes.length ≠ s.buffer.granule :=
      fun hfull => hpartial (decide_eq_true hfull)
    show (s.buffer.push byte).bytes.length < s.buffer.granule
    omega

private theorem pushBytes_fills (bytes : Bytes) (hT : T slot) (h : Filling T s₀ slot s) :
    (pushBytes bytes).Ends s (fun _ t => Filling T s₀ slot t) (fun _ t => Orderly T s₀ t) False := by
  induction bytes generalizing s with
  | nil => exact h
  | cons byte rest ih => exact (pushByte_fills hs₀ hT h).bind (fun _ t ht => ih ht) (fun _ _ h => h) id

private theorem forceOut_orderly (hT : T slot) (h : Filling T s₀ slot s) :
    forceOut.Ends s (fun _ t => Orderly T s₀ t) (fun _ t => Orderly T s₀ t) False := by
  simp only [forceOut]
  rw [Action.ends_get_bind]
  split
  · obtain ⟨hconfined, ⟨memory, entry, hl, hgranule, hlt⟩, htarget⟩ := h
    have hstill : s.Still { s with buffer := s.buffer.padded } := still_buffer s _
    rw [Action.ends_modify_bind]
    have hfull : s.buffer.padded.bytes.length = s.buffer.granule := by
      show (s.buffer.bytes ++ List.replicate (s.buffer.granule - s.buffer.bytes.length) 0).length = _
      rw [List.length_append, List.length_replicate]
      omega
    refine (writeFull_fills hs₀ hT (hconfined.trans (.of_still hstill)) htarget (htarget ▸ hl) hgranule
      hfull).imp ?_ (fun _ _ h => h) id
    exact fun _ t ht => ⟨ht.toConfined, Or.inr ht.gathering⟩
  · exact ⟨h.toConfined, Or.inr h.gathering⟩

private theorem continueRun_fills (h : Orderly T s₀ s) (hl : s.lookup? slot = .ok (memory, entry)) :
    (continueRun slot memory offset).Ends s (fun _ t => Filling T s₀ slot t) (fun _ t => t = s) False := by
  -- A run that is under way goes on for the same slot only, so what is pending is for that slot.
  simp only [continueRun]
  rw [Action.ends_get_bind]
  split
  · rename_i hwaiting
    split
    · rename_i hsame
      refine ⟨h.toConfined, h.tidy.resolve_left fun hempty => ?_, hsame.1⟩
      simp [GranuleBuffer.isWaiting, hempty] at hwaiting
    · rfl
  · by_cases hstart : offset % s.devices.granule memory.device = 0
    · simp only [if_pos hstart, Action.ends_set]
      refine ⟨h.toConfined.trans (.of_still (still_buffer s _)), ⟨memory, entry, hl, rfl, ?_⟩, rfl⟩
      exact (h.inOrder hs₀).sound.granule_pos _ _ _ hl
    · simp only [if_neg hstart, Action.ends_fail]

private theorem write_orderly {data : Bytes} {mode : WriteMode} (hT : T slot) :
    Action.Preserves (Orderly T s₀) s₀.AtTop (write slot offset data mode : Op n k Unit) := by
  refine lookup_orderly fun s memory entry hs hl => ?_
  simp only [requireInside]
  by_cases hin : offset + data.length ≤ entry.size
  · simp only [if_pos hin, Action.ends_pure_bind]
    refine (continueRun_fills hs₀ hs hl).bind ?_ ?_ False.elim
    · intro _ t ht
      refine (pushBytes_fills hs₀ data hT ht).bind ?_ (fun _ _ h => h) False.elim
      intro _ u hu
      cases mode with
      | buffered => exact ⟨hu.toConfined, Or.inr hu.gathering⟩
      | force => exact (forceOut_orderly hs₀ hT hu).imp (fun _ _ h => h) (fun _ _ h => h) False.elim
    · rintro _ _ rfl
      exact hs
  · simp only [if_neg hin]
    exact hs

/-! ### The devices -/

private theorem settle_orderly {ε : Type} (index : Nat) :
    Action.Preserves (Orderly T s₀) s₀.AtTop (settle index : Action (Storage n k) ε Unit) := by
  intro s hs
  cases hm : s.memories[index]? with
  | some memory =>
    refine (settle_ends (hs.inOrder hs₀) hm).imp ?_ (fun _ _ h => h.elim) False.elim
    exact fun _ t h => hs.of_still h.changes (Or.inr h.dropped)
  | none =>
    simp only [settle, dropPending]
    simp only [Action.ends_modify_bind, Action.ends_get_bind, hm]
    exact hs.of_still (still_buffer s _) (Or.inr rfl)

/-- A storage in order stays so, and its changes stay confined. -/
theorem orderly_upkeep (T : SlotId → Prop) : Upkeep s₀ (Orderly T s₀) T s₀.AtTop where
  memories _ hs := hs.changes.setup.memories
  reach slot memory entry address hl ha := by
    obtain ⟨d, address', hd, ha'⟩ | ⟨f, path, -, hp⟩ := hs₀.sound.location hl
    · rw [ha] at ha'
      cases ha'
      exact Nat.le_trans (hs₀.sound.flash hl hd ha).le_stop (s₀.flash d).geometry.stop_le
    · rw [ha] at hp
      cases hp
  read _ _ _ := read_orderly hs₀
  write _ _ _ _ := write_orderly hs₀
  erase _ _ _ := erase_orderly hs₀
  dropPending _ hs := hs.of_still (still_buffer _ _) (Or.inr rfl)
  settle := settle_orderly hs₀
  init _ hs := (init_ends (hs.inOrder hs₀)).imp (fun _ _ h => hs.of_still h.1 (Or.inl h.2))
    (fun _ _ h => hs.of_still h.1 (Or.inr h.2.1)) False.elim
  closeFiles _ hs := (closeFiles_ends (hs.inOrder hs₀)).imp (fun _ _ h => hs.of_still h.1 (Or.inl h.2))
    (fun _ _ h => hs.of_still h.1 (Or.inl h.2)) False.elim
  release _ hs := (release_ends (hs.inOrder hs₀)).imp (fun _ _ h => hs.of_still h.1 (Or.inr h.2))
    (fun _ _ h => hs.of_still h.1 (Or.inr h.2)) False.elim

end Requests

end FirmwareUpdate.Storage
