import FirmwareUpdate.Proofs.Update.Installed

/-! An installation never loses the last image that can be run. The application is overwritten only while
the image that replaces it, or the copy that was kept of it, lies in another slot. -/
namespace FirmwareUpdate.Engine
variable {n k : Nat} {e e' e₁ : Engine n k} {home : Home n k} {spare slot source : SlotId} {header running : Header}
  {v a : View n k} {P : Place n k → Prop}

/-- The engine can keep its application in the slot for a backup: the image stays plain there and fits. -/
structure Fallback (e : Engine n k) (home : Home n k) (spare : SlotId) : Prop where
  service : e.InService
  runs : e.RunsAt home
  role : e.backup? = some spare
  plain : e.holdsEncrypted spare = false
  room : ∀ memory entry, e.storage.lookup? spare = .ok (memory, entry) → home.entry.size ≤ entry.size
  honest : e.backend.Honest

/-- No device refuses to be given back, either. -/
structure Safeguard (e : Engine n k) (home : Home n k) (spare : SlotId) : Prop extends e.Fallback home spare where
  release : ∀ device i, e.storage.scheduleOf device .release i = none

/-- Having a fallback is a matter of setup. -/
theorem Fallback.of_changes (h : e.Fallback home spare) (hc : Changes P e e') : e'.Fallback home spare :=
  ⟨h.service.of_changes hc, h.runs.of_changes hc, hc.backup?.trans h.role, (hc.holdsEncrypted _).trans h.plain,
    fun memory entry hl => h.room memory entry ((hc.storage.setup.lookup? _).symm.trans hl), hc.backend ▸ h.honest⟩

/-- Having a safeguard is a matter of setup. -/
theorem Safeguard.of_changes (h : e.Safeguard home spare) (hc : Changes P e e') : e'.Safeguard home spare := by
  refine ⟨h.toFallback.of_changes hc, fun device i => ?_⟩
  rw [hc.storage.setup.schedule]
  exact h.release device i

/-- The backup is kept beside the application. -/
theorem Fallback.ne (h : e.Fallback home spare) : spare ≠ home.slot := backup_ne_application h.role h.runs.role

/-- The application or the backup is a valid image. -/
def Recoverable (e : Engine n k) (home : Home n k) (spare : SlotId) : Prop :=
  (∃ header, e.Valid home.slot header) ∨ ∃ header, e.Valid spare header

/-- An engine that is still loses no way back. -/
theorem Still.recoverable (h : e.Still e') (hr : e.Recoverable home spare) : e'.Recoverable home spare :=
  hr.imp (fun happlication => happlication.imp fun _ => h.valid_iff.mpr) fun hspare =>
    hspare.imp fun _ => h.valid_iff.mpr

private theorem valid_elsewhere (hf : e.Fallback home spare) (hvalid : e.Valid slot header) (hne : slot ≠ home.slot)
    (hc : Changes (e.storage.within home.memory home.entry) e e') : e'.Valid slot header := by
  obtain ⟨memory, entry, hl⟩ := hvalid.lookup
  exact hvalid.of_changes hl hc (hf.service.inOrder.sound.apart _ _ _ _ _ _ hl hf.runs.lookup hne)

/-- The slot holds a valid image that starts with these bytes. -/
structure Kept (e : Engine n k) (slot : SlotId) (front : Bytes) (header : Header) : Prop where
  valid : e.Valid slot header
  copy : ∀ memory entry, e.storage.lookup? slot = .ok (memory, entry) → front <+: e.storage.held memory entry

/-- The backup is kept while the application is overwritten. -/
theorem Kept.of_overwriting {front : Bytes} (h : e.Kept spare front header) (hf : e.Fallback home spare)
    (hc : Changes (e.storage.within home.memory home.entry) e e') : e'.Kept spare front header := by
  refine ⟨valid_elsewhere hf h.valid hf.ne hc, fun memory entry hl => ?_⟩
  have hl' := (hc.storage.setup.lookup? spare).symm.trans hl
  rw [hc.storage.held_eq (hf.service.inOrder.sound.apart _ _ _ _ _ _ hl' hf.runs.lookup hf.ne)]
  exact h.copy memory entry hl'

/-- An engine that is still keeps its backup. -/
theorem Still.kept {front : Bytes} (h : e.Still e') (hk : e.Kept slot front header) : e'.Kept slot front header := by
  refine ⟨h.valid_iff.mpr hk.valid, fun memory entry hl => ?_⟩
  rw [h.storage.held_eq fun _ _ h => h]
  exact hk.copy memory entry ((h.storage.setup.lookup? slot).symm.trans hl)

/-- As much of the application as is kept of an image with this header. -/
def kept (e : Engine n k) (home : Home n k) (running : Header) : Bytes :=
  (e.storage.held home.memory home.entry).take
    (e.backend.headerLength + running.size.toNat + e.backend.digestLength)

/-- Before the application is overwritten from another slot than that for the backup, it is kept there,
unless it cannot be read. -/
theorem Fallback.kept (hf : e.Fallback home spare) (hsource : source ≠ spare)
    (hbacked : Backed source (e.viewOf home.slot home.memory home.entry) e e₁)
    (hrunning : e.Valid home.slot running) :
    e.Still e₁ ∧ e.Broken home.memory e₁ ∨
      e₁.Kept spare (e.kept home running) running := by
  have ha := hf.service.shows hf.runs.lookup
  have haccepts := ha.valid_iff.mp hrunning
  have hplain := hf.runs.plain
  have htotal : (e.viewOf home.slot home.memory home.entry).total running =
      e.backend.headerLength + running.size.toNat + e.backend.digestLength := by
    simp [View.total, Header.bodyLength, viewOf, hplain]
  cases hbacked with
  | spared still why =>
    rcases why spare hf.role with hsame | hencrypted
    · exact absurd hsame.symm hsource
    · rw [hf.plain] at hencrypted
      cases hencrypted
  | unread still why => exact Or.inl ⟨still, why.resolve_right fun hinvalid => hinvalid running haccepts⟩
  | tooBig backup memory entry header still role lookup valid why =>
    obtain rfl : backup = spare := Option.some.inj (role.symm.trans hf.role)
    have hroom := hf.room memory entry lookup
    have hlength := ha.length_bytes
    have hsize : (e.viewOf home.slot home.memory home.entry).entry.size = home.entry.size := rfl
    have hfits : (e.viewOf home.slot home.memory home.entry).total header ≤
        (e.viewOf home.slot home.memory home.entry).bytes.length := valid.fits
    omega
  | copied backup memory entry header changes role lookup other valid fits empty held =>
    obtain rfl : backup = spare := Option.some.inj (role.symm.trans hf.role)
    obtain rfl : header = running := Except.ok.inj (valid.decodes.symm.trans haccepts.decodes)
    have hcopy : e.kept home header <+: e₁.storage.held memory entry := by
      rw [kept, ← htotal, held]
      exact (Storage.prefix_padTo _ _).trans (Storage.prefix_overlaid _ _ _ _ _)
    have hl := changes.storage.lookup? lookup
    refine Or.inr ⟨⟨memory, entry, hl, ?_⟩, fun memory' entry' hl' => ?_⟩
    · rw [changes.holdsEncrypted, hf.plain, changes.backend]
      exact (hrunning.plain hf.runs.lookup hf.runs.primary).of_front hf.honest hcopy
    · rw [hl] at hl'
      cases hl'
      exact hcopy

private theorem recoverable_of_overwriting (hs : e.Safeguard home spare) (hv : e.Shows v)
    (hne : v.slot ≠ home.slot) (hsource : (∃ header, e.Valid home.slot header) ∨ v.slot = spare)
    (hvalid : v.Accepts header) (hbacked : Backed v.slot (e.viewOf home.slot home.memory home.entry) e e₁)
    (hc : Changes (e.storage.within home.memory home.entry) e₁ e')
    (hoff : e₁.Off home.memory → Changes (fun _ => False) e₁ e') : e'.Recoverable home spare := by
  -- A step that is given up while the application is overwritten leaves the image that was to be installed, or the copy
  -- of the one that was running.
  have hs₁ := hs.of_changes hbacked.anywhere
  have hc₁ : Changes (e₁.storage.within home.memory home.entry) e₁ e' :=
    hc.mono fun p => (hbacked.anywhere.storage.setup.within_iff p).mpr
  by_cases hspare : v.slot = spare
  · have hv₁ := (hbacked.shows hv (Or.inl rfl)).valid_iff.mpr hvalid
    rw [hspare] at hv₁ hne
    exact Or.inr ⟨header, valid_elsewhere hs₁.toFallback hv₁ hne hc₁⟩
  · obtain ⟨running, hrunning⟩ := hsource.resolve_right hspare
    rcases hs.toFallback.kept hspare hbacked hrunning with ⟨still, hbroken⟩ | hkept
    · have hinit := hbroken.fails.off home.device hs.runs.onFlash fun i => hs.release _ i
      have hunchanged := hoff ⟨home.device, hs.runs.onFlash, hinit⟩
      refine Or.inl ⟨running, ?_⟩
      exact (still.valid_iff.mpr hrunning).of_changes hs₁.runs.lookup hunchanged fun _ _ h => h
    · exact Or.inr ⟨running, valid_elsewhere hs₁.toFallback hkept.valid hs.ne hc₁⟩

/-- Whatever becomes of an installation, the application or the backup is valid after it. It may be one
of a valid image over a valid application, or one of the backup. -/
theorem Safeguard.install_ends (hs : e.Safeguard home spare) (hempty : e.storage.buffer.bytes = [])
    (hvalid : e.Valid slot header) (hsource : (∃ header, e.Valid home.slot header) ∨ slot = spare) :
    (install slot).Ends e (fun _ e' => e'.Recoverable home spare) (fun _ e' => e'.Recoverable home spare)
      e.storage.AtTop := by
  have hnow : e.Recoverable home spare := hsource.elim Or.inl fun hspare => Or.inr ⟨header, hspare ▸ hvalid⟩
  by_cases hne : slot = home.slot
  · simp only [install]
    rw [Action.ends_get_bind, hs.runs.role]
    simp only [Action.ofExcept, Action.ends_pure_bind, if_pos hne]
    exact hnow
  · obtain ⟨memory, entry, hl⟩ := hvalid.lookup
    have hv := hs.service.shows hl
    have ha := hs.service.shows hs.runs.lookup
    refine (Engine.install_ends hv ha hs.runs.role hne hs.service.chunk_blocks hs.honest).imp ?_ ?_ id
    · intro _ e' hended
      obtain ⟨header', hreplaced⟩ := hended
      exact Or.inl ⟨header', hreplaced.valid_application hv ha hs.runs.primary⟩
    · intro _ e' hended
      obtain ⟨hgiven, -⟩ := hended
      cases hgiven hempty with
      | untouched still why => exact still.recoverable hnow
      | keeping spoilt =>
        obtain ⟨backup, memory', entry', hrole, hother, hl', hchanges, -⟩ := spoilt
        obtain rfl : backup = spare := Option.some.inj (hrole.symm.trans hs.role)
        obtain ⟨running, hrunning⟩ := hsource.resolve_right (Ne.symm hother)
        refine Or.inl ⟨running, hrunning.of_changes hs.runs.lookup hchanges ?_⟩
        exact hs.service.inOrder.sound.apart _ _ _ _ _ _ hs.runs.lookup hl' hs.ne.symm
      | overwriting header' e₁ valid backed changes fault off remains =>
        exact recoverable_of_overwriting hs hv hne hsource valid backed changes off

end FirmwareUpdate.Engine
