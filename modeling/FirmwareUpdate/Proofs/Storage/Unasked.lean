import FirmwareUpdate.Proofs.Storage.Total

/-! A storage that is asked to read asks no device to write or to erase. -/
namespace FirmwareUpdate.Storage
variable {n k : Nat} {s₀ s t u : Storage n k}

/-- On the way from `s` to `t` no device has been called to write or to erase. -/
structure Unasked (s t : Storage n k) : Prop where
  flash : ∀ d, (s.flashLink d).Unasked (t.flashLink d)
  store : ∀ d, (s.fileLink d).Unasked (t.fileLink d)

/-- Where no device is called, none is asked to write or to erase. -/
theorem Unasked.of_devices (h : t.devices = s.devices) : s.Unasked t := by
  refine ⟨fun d => ?_, fun d => ?_⟩
  · simp only [flashLink, h]
    exact ⟨rfl, rfl⟩
  · simp only [fileLink, h]
    exact ⟨rfl, rfl⟩

/-- Two stretches without a call to write or to erase make one. -/
theorem Unasked.trans (h : s.Unasked t) (h' : t.Unasked u) : s.Unasked u :=
  ⟨fun d => ⟨(h'.flash d).write.trans (h.flash d).write, (h'.flash d).erase.trans (h.flash d).erase⟩,
    fun d => ⟨(h'.store d).write.trans (h.store d).write, (h'.store d).erase.trans (h.store d).erase⟩⟩

/-- The memories are those of `s₀`, and no device has been called to write or to erase since. -/
structure Looked (s₀ s : Storage n k) : Prop extends Unasked s₀ s where
  memories : s.memories = s₀.memories

private theorem looked_iff : s₀.Looked s ↔
    Linked s₀.memories (fun d => (s₀.flashLink d).Unasked) (fun d => (s₀.fileLink d).Unasked) s :=
  ⟨fun h => ⟨h.memories, h.flash, h.store⟩, fun h => ⟨⟨h.flash, h.store⟩, h.memories⟩⟩

/-- Nothing but an access writes or erases. -/
theorem tended_looked : Tended (s₀.Looked) True := by
  have htended : Tended
      (Linked s₀.memories (fun d => (s₀.flashLink d).Unasked) (fun d => (s₀.fileLink d).Unasked)) True :=
    tended_of_links (fun _ => Link.indifferent_unasked) fun _ => Link.indifferent_unasked
  rwa [show s₀.Looked = _ from funext fun s => propext looked_iff]

/-- As long as no slot is written to, no device is asked to. -/
theorem Fits.looked_upkeep (h : s₀.Fits) : Upkeep s₀ (s₀.Looked) (fun _ => False) True where
  memories _ hs := hs.memories
  reach := h.upkeep.reach
  read _ _ _ := tended_looked.read fun _ _ _ _ _ _ _ _ _ _ _ => trivial
  write _ _ _ _ := False.elim
  erase _ _ _ := False.elim
  dropPending := tended_looked.dropPending
  settle := tended_looked.settle
  init := tended_looked.init
  closeFiles := tended_looked.closeFiles
  release := tended_looked.release

end FirmwareUpdate.Storage
