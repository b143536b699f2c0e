import FirmwareUpdate.Proofs.Boot.Route
import FirmwareUpdate.Proofs.Storage.Isolation

/-! A boot writes to the application slot and, to have something to go back to, to the backup slot. All else on the
devices stays as it was, whichever calls fail: above all the image that is staged for an update. -/
namespace FirmwareUpdate.Boot
variable {n k : Nat} {b : Boot n k} {e : Engine n k}

/-- The slots that a boot of the engine may write to. -/
def Writes (e : Engine n k) (slot : SlotId) : Prop :=
  e.application? = .ok slot ∨ e.policy.fallback = true ∧ e.backup? = some slot

/-- The slot for updates holds no application, and the one for a backup holds nothing else. -/
theorem not_writes_staged {staged : SlotId} (hapart : e.application? ≠ .ok staged) (hstaged : e.staged? = .ok staged) :
    ¬Writes e staged := by
  rintro (happlication | ⟨-, hbackup⟩)
  · exact hapart happlication
  · obtain ⟨memory, entry, hl, hupdate⟩ := Engine.lookup_staged hstaged
    obtain ⟨-, memory', entry', hl', hcontent⟩ := Engine.lookup_backup hbackup
    rw [hl] at hl'
    cases hl'
    rw [hcontent] at hupdate
    cases hupdate

/-- What a boot keeps in order while it writes to the slots that it may write to. -/
theorem writes_upkeep (he : e.storage.InOrder) :
    Engine.Upkeep e (Storage.Orderly (Writes e) e.storage) (Writes e) e.storage.AtTop :=
  ⟨Storage.orderly_upkeep he (Writes e), fun _ => Or.inl,
    fun _ hbackup => Or.inr ⟨(Engine.lookup_backup hbackup).1, hbackup⟩⟩

/-- An engine whose buffer is in order may be compared with itself. -/
theorem maintained_self (htidy : e.storage.Tidy) : Engine.Maintained e (Storage.Orderly (Writes e) e.storage) e :=
  ⟨⟨.refl _ _, htidy⟩, rfl, rfl, rfl, rfl⟩

/-- All that a boot changes is in the slots that it may write to. -/
theorem confined_of_reaches (he : e.storage.InOrder) (htidy : e.storage.Tidy) (hreach : (ofEngine e).Reaches b) :
    Storage.Confined (Writes e) e.storage b.engine.storage :=
  (hreach.maintained (writes_upkeep he) (maintained_self htidy)).storage.toConfined

/-- However far a boot gets, the devices hold what they held before its engine came up, but for cells and files of
the application slot and, if there is to be something to go back to, of the backup slot; and no file changes past the
size of its slot. The slot for updates does not change at all, and without the fallback only the application slot
does. -/
theorem writes_confined_of_bringUp {plan : Plan} {primary : DeviceId n k} {secondary : Option (DeviceId n k)}
    {backend : Backend} {bare after : Storage n k} (hdistinct : secondary ≠ some primary)
    (hup : Engine.bringUp plan primary secondary backend bare = .ok e after) (hreach : (ofEngine e).Reaches b) :
    (∀ d i, (b.engine.storage.flash d).contents[i]? ≠ (bare.flash d).contents[i]? →
      e.storage.CellOf (Writes e) d i) ∧
    (∀ d path, (b.engine.storage.store d).file? path ≠ (bare.store d).file? path →
      e.storage.FileOf b.engine.storage (Writes e) d path) ∧
    (∀ staged memory entry, e.staged? = .ok staged → e.storage.lookup? staged = .ok (memory, entry) →
      ∀ p, e.storage.within memory entry p → b.engine.storage.valueAt p = bare.valueAt p) ∧
    (plan.policy.fallback = false → ∀ p, b.engine.storage.valueAt p ≠ bare.valueAt p →
      e.storage.inside (fun slot => e.application? = .ok slot) p) := by
  obtain ⟨he, hempty, hpolicy, -, -, -, hbytes, -⟩ := (Engine.bringUp_ends hdistinct).done_of_ok hup
  obtain ⟨-, -, hapart⟩ := Engine.bringUp_fits.done_of_ok hup
  have hconfined := confined_of_reaches he.inOrder (Or.inl hempty) hreach
  have hsound := he.inOrder.sound
  refine ⟨fun d i hi => ?_, fun d path hpath => ?_, ?_, ?_⟩
  · refine hconfined.cell hsound ?_
    rwa [Storage.contents_of_valueAt (hbytes (.cell d i))]
  · refine hconfined.file ?_
    have hfile : (e.storage.store d).file? path = (bare.store d).file? path := hbytes (.file d path)
    rwa [hfile]
  · intro staged memory entry hstaged hl p hp
    refine (hconfined.changes.same p ?_).trans (hbytes p)
    rintro ⟨slot, memory', entry', hwrites, hl', hp'⟩
    have hne : staged ≠ slot := fun hsame =>
      not_writes_staged (hapart staged hstaged) hstaged (hsame ▸ hwrites)
    exact hsound.apart _ _ _ _ _ _ hl hl' hne p hp hp'
  · intro hoff p hp
    have hinside : e.storage.inside (Writes e) p := by
      refine Classical.byContradiction fun hno => hp ?_
      exact (hconfined.changes.same p hno).trans (hbytes p)
    obtain ⟨slot, memory, entry, hwrites, hl, hin⟩ := hinside
    refine ⟨slot, memory, entry, hwrites.resolve_right fun hbackup => ?_, hl, hin⟩
    rw [hpolicy, hoff] at hbackup
    cases hbackup.1

/-- An update is installed and the image that was running is kept: both slots change, and that for updates does
not. -/
theorem sample_writes_confined :
    ∃ (e : Engine 1 0) (b : Boot 1 0) (staged : SlotId) (memory : Memory 1 0) (entry : Slot),
    let bare := Sample.board (Sample.image 1 [0, 16]) (Sample.image 2 [0, 24]) []
    (bare.flash 0).contents[4]? = some 1 ∧ (b.engine.storage.flash 0).contents[4]? = some 2 ∧
      e.storage.CellOf (Writes e) 0 4 ∧
      (bare.flash 0).contents[260]? = some 0xFF ∧ (b.engine.storage.flash 0).contents[260]? = some 1 ∧
      e.storage.CellOf (Writes e) 0 260 ∧ e.staged? = .ok staged ∧ e.storage.lookup? staged = .ok (memory, entry) ∧
      ∀ p, e.storage.within memory entry p → b.engine.storage.valueAt p = bare.valueAt p := by
  have hcheck : (match Engine.bringUp (Sample.plan 64) (.flash 0) none {}
        (Sample.board (Sample.image 1 [0, 16]) (Sample.image 2 [0, 24]) []) with
      | .error _ _ => false
      | .ok e _ => run.passes (ofEngine e) fun _ b => decide (e.storage.find? .anUpdate = some ⟨0, 1⟩ ∧
          (b.engine.storage.flash 0).contents[4]? = some 2 ∧
          (b.engine.storage.flash 0).contents[260]? = some 1)) = true := by
    decide +kernel
  have hbefore : ((Sample.board (Sample.image 1 [0, 16]) (Sample.image 2 [0, 24]) []).flash 0).contents[4]? = some 1 ∧
      ((Sample.board (Sample.image 1 [0, 16]) (Sample.image 2 [0, 24]) []).flash 0).contents[260]? = some 0xFF := by
    decide +kernel
  split at hcheck
  · cases hcheck
  rename_i e after hup
  obtain ⟨verdict, b, hrun, hchecked⟩ := Action.exists_of_passes hcheck
  obtain ⟨hfind, hfirst, hlast⟩ := of_decide_eq_true hchecked
  have hstaged : e.staged? = .ok ⟨0, 1⟩ := by rw [Engine.staged?, hfind]
  obtain ⟨memory, entry, hl, -⟩ := Engine.lookup_staged hstaged
  obtain ⟨hcells, -, hkept, -⟩ := writes_confined_of_bringUp (by simp) hup (reaches_of_run hrun)
  refine ⟨e, b, ⟨0, 1⟩, memory, entry, hbefore.1, hfirst, hcells 0 4 ?_, hbefore.2, hlast, hcells 0 260 ?_, hstaged, hl,
    hkept _ _ _ hstaged hl⟩
  · rw [hfirst, hbefore.1]
    decide
  · rw [hlast, hbefore.2]
    decide

end FirmwareUpdate.Boot
