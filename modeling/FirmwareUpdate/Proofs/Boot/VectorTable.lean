import FirmwareUpdate.Proofs.Boot.Along
import FirmwareUpdate.Proofs.Update.Lineage

/-! Which bytes a boot hands over. The reset vector is checked against the bounds of the slot and not against the end of
the image, so what stands behind a short image can be handed over. It is not as long as every image that there is when
the boot begins reaches as far as the vector table: no installation, finished or given up, makes a shorter one valid. -/
namespace FirmwareUpdate.Boot
variable {n k : Nat} {e₀ e e' : Engine n k} {b b' : Boot n k} {home : Home n k} {slot : SlotId} {phase : BootPhase}
  {result : PhaseResult}

/-- Nothing is pending in a boot of the engine `e₀`, and no image in its slots claims fewer bytes than one that was in
them at first. -/
structure Traced (e₀ : Engine n k) (b : Boot n k) : Prop where
  empty : b.engine.storage.buffer.bytes = []
  descends : e₀.Descends b.engine

private theorem Traced.still (h : Traced e₀ b) (hstill : b.engine.Still b'.engine) : Traced e₀ b' :=
  ⟨hstill.pending h.empty, h.descends.trans hstill.descends⟩

private theorem Installs.descends (h : Installs slot e e') (he : e.InService) (hempty : e.storage.buffer.bytes = []) :
    e.Descends e' ∧ e'.storage.buffer.bytes = [] := by
  rcases h with hok | ⟨cause, e₁, hfailed, hstill⟩
  · exact (he.install_descends hempty slot).done_of_ok hok
  · obtain ⟨hdescends, hdropped⟩ := (he.install_descends hempty slot).failed_of_error hfailed
    exact ⟨hdescends.trans hstill.descends, hstill.pending hdropped⟩

private theorem Traced.worked (h : Traced e₀ b) (he : b.engine.InService) (hworked : Worked home b phase result b') :
    Traced e₀ b' := by
  rcases hworked.still_or_installs with hstill | ⟨-, slot, e, hstill, -, hinstalls⟩
  · exact h.still hstill
  · obtain ⟨hdescends, hdropped⟩ := hinstalls.descends (he.of_changes hstill.toChanges) (hstill.pending h.empty)
    exact ⟨hdropped, (h.descends.trans hstill.descends).trans hdescends⟩

/-- The images are traced along any sequence of steps. -/
theorem traced_of_reaches (he : e₀.InService) (hhome : e₀.RunsAt home) (hempty : e₀.storage.buffer.bytes = [])
    (hreach : (ofEngine e₀).Reaches b) : Traced e₀ b := by
  refine hreach.invariant_along (I := Traced e₀) he hhome (Or.inl hempty) ⟨hempty, Engine.Descends.refl e₀⟩
    fun b₁ b₂ verdict halong htaken htraced => ?_
  obtain ⟨result, b', hstep⟩ := halong.proceeds htaken
  exact (htraced.worked halong.service hstep.worked).still hstep.still

/-- A boot that begins with no valid image that ends before the eight bytes of the vector table are over hands over only
a table that the header and the digest of the application take in, however it gets there and whichever calls fail. -/
theorem table_covered_of_run {plan : Plan} {primary : DeviceId n k} {secondary : Option (DeviceId n k)}
    {backend : Backend} {bare after : Storage n k} {table : Nat} (hdistinct : secondary ≠ some primary)
    (hup : Engine.bringUp plan primary secondary backend bare = .ok e after)
    (hlong : ∀ slot header, e.Valid slot header →
      plan.tuning.tableOffset + 8 ≤ backend.headerLength + header.size.toNat)
    (hreach : (ofEngine e).Reaches b)
    (hrun : step b = .ok (some (.run table)) b' ∨ run b = .ok (some (.run table)) b') :
    ∃ slot memory entry address header, b'.engine.application? = .ok slot ∧
      b'.engine.storage.lookup? slot = .ok (memory, entry) ∧ entry.location = .flash address ∧
      table = address + plan.tuning.tableOffset ∧
      backend.Accepts b'.engine.key false (b'.engine.storage.held memory entry) header ∧
      plan.tuning.tableOffset + 8 ≤ backend.headerLength + header.size.toNat := by
  obtain ⟨-, hempty, -⟩ := (Engine.bringUp_ends hdistinct).done_of_ok hup
  obtain ⟨home, hhome⟩ := ((Engine.bringUp_ends hdistinct).done_of_ok hup).1.home
  obtain ⟨he, htuning, hbackend, hstart⟩ := guarded_of_bringUp home hdistinct hup
  obtain ⟨hb', hfit⟩ := (hstart.of_reaches he hhome hreach).fit_of_run he hhome hrun
  have hreach' : (ofEngine e).Reaches b' :=
    hrun.elim (fun htaken => .next b b' _ hreach htaken) fun hran => hreach.trans (reaches_of_run hran)
  have hhome' := hhome.of_changes hb'.changes
  obtain ⟨header, hvalid⟩ := hfit.valid
  obtain ⟨origin, original, horiginal, hle⟩ :=
    (traced_of_reaches he hhome hempty hreach').descends home.slot header hvalid
  refine ⟨home.slot, home.memory, home.entry, home.address, header, hhome'.role, hhome'.lookup, hhome'.location,
    ?_, ?_, ?_⟩
  · rw [hfit.table, hb'.changes.tuning, htuning]
  · rw [← hbackend, ← hb'.changes.backend]
    exact hvalid.plain hhome'.lookup hhome'.primary
  · exact Nat.le_trans (hlong origin original horiginal)
      (Nat.add_le_add_left (UInt32.le_iff_toNat_le.mp hle) _)

/-- On the sample board an update is installed, and its table is a part of it. -/
theorem sample_table_covered : ∃ (b' : Boot 1 0) (slot : SlotId) (memory : Memory 1 0) (entry : Slot)
    (address : Nat) (header : Header), .install ⟨0, 1⟩ ∈ b'.history ∧ b'.engine.application? = .ok slot ∧
      b'.engine.storage.lookup? slot = .ok (memory, entry) ∧ entry.location = .flash address ∧ 64 = address + 64 ∧
      Backend.Accepts {} b'.engine.key false (b'.engine.storage.held memory entry) header ∧
      64 + 8 ≤ Backend.headerLength {} + header.size.toNat := by
  have hcheck : ((Engine.bringUp (Sample.plan 64) (.flash 0) none {}).passes
      (Sample.board (Sample.image 1 [0, 16]) (Sample.image 2 [0, 24]) []) fun e _ =>
        decide (Sample.Holds e.storage ∧
          ∀ slot ∈ ([⟨0, 0⟩, ⟨0, 1⟩, ⟨0, 2⟩] : List SlotId), ∀ header ∈ e.headerAt? slot, 8 ≤ header.size.toNat) &&
        run.passes (ofEngine e) fun verdict b' =>
          decide (verdict = some (.run 64) ∧ .install ⟨0, 1⟩ ∈ b'.history)) = true := by
    decide +kernel
  obtain ⟨e, after, hup, hcheck⟩ := Action.exists_of_passes hcheck
  rw [Bool.and_eq_true] at hcheck
  obtain ⟨hholds, hlong⟩ := of_decide_eq_true hcheck.1
  obtain ⟨verdict, b', hrun, hcheck⟩ := Action.exists_of_passes hcheck.2
  obtain ⟨rfl, hinstalled⟩ := of_decide_eq_true hcheck
  have hcovered : ∀ slot header, e.Valid slot header → 64 + 8 ≤ Backend.headerLength {} + header.size.toNat := by
    intro slot header hvalid
    obtain ⟨memory, entry, hl⟩ := hvalid.lookup
    have hslot : slot ∈ ([⟨0, 0⟩, ⟨0, 1⟩, ⟨0, 2⟩] : List SlotId) := by
      simpa using hholds.eq_of_lookup? hl
    exact Nat.add_le_add_left (hlong slot hslot header hvalid.headerAt?) 64
  obtain ⟨slot, memory, entry, address, header, hfound⟩ :=
    table_covered_of_run (by decide) hup hcovered .refl (Or.inr hrun)
  exact ⟨b', slot, memory, entry, address, header, hinstalled, hfound⟩

/-- A valid application of four bytes is handed over with a table eight bytes behind its header: the table is what has
been left behind it in the slot. -/
theorem sample_stale_table : ∃ (e : Engine 1 0) (after : Storage 1 0) (b' : Boot 1 0) (header : Header),
    Engine.bringUp (Sample.plan 72) (.flash 0) none {}
        (Sample.board (Sample.image 1 [0] ++ Bytes.ofWord 0 ++ Bytes.ofWord 16) [] []) = .ok e after ∧
      run (ofEngine e) = .ok (some (.run 72)) b' ∧ b'.engine.application? = .ok ⟨0, 0⟩ ∧
      b'.engine.Valid ⟨0, 0⟩ header ∧ Backend.headerLength {} + header.size.toNat < 72 + 8 := by
  have hcheck : ((Engine.bringUp (Sample.plan 72) (.flash 0) none {}).passes
      (Sample.board (Sample.image 1 [0] ++ Bytes.ofWord 0 ++ Bytes.ofWord 16) [] []) fun e _ =>
        run.passes (ofEngine e) fun verdict b' => decide (verdict = some (.run 72) ∧
          b'.engine.storage.find? .theApplication = some ⟨0, 0⟩ ∧
          ∀ header ∈ b'.engine.headerAt? ⟨0, 0⟩, header.size.toNat = 4)) = true := by
    decide +kernel
  obtain ⟨e, after, hup, hcheck⟩ := Action.exists_of_passes hcheck
  obtain ⟨verdict, b', hrun, hcheck⟩ := Action.exists_of_passes hcheck
  obtain ⟨rfl, hfind, hsize⟩ := of_decide_eq_true hcheck
  obtain ⟨home, hhome⟩ := ((Engine.bringUp_ends (by decide)).done_of_ok hup).1.home
  obtain ⟨he, -, -, hstart⟩ := guarded_of_bringUp home (by decide) hup
  obtain ⟨hb', hfit⟩ := hstart.fit_of_run he hhome (Or.inr hrun)
  have hrole : b'.engine.application? = .ok ⟨0, 0⟩ := by
    rw [Engine.application?, hfind]
  have hslot : home.slot = ⟨0, 0⟩ := Except.ok.inj ((hhome.of_changes hb'.changes).role.symm.trans hrole)
  obtain ⟨header, hvalid⟩ := hfit.valid
  rw [hslot] at hvalid
  have hfour := hsize header hvalid.headerAt?
  exact ⟨e, after, b', header, hup, hrun, hrole, hvalid, by rw [hfour]; decide⟩

end FirmwareUpdate.Boot
