import FirmwareUpdate.Proofs.Update.UpToDate

/-! Where the images come from that are valid after an installation. However it ends, each of them claims no fewer
bytes than one that was valid before: a slot that has been given up halfway starts as it did, or with an erased byte,
or with what has been written of the header of a valid image. -/
namespace FirmwareUpdate

/-- The layout that is known starts with a zero byte. -/
theorem Backend.Heads.first {b : Backend} {bytes : Bytes} {h : Header} (hh : b.Heads bytes h) : bytes[0]? = some 0 := by
  obtain ⟨hr, -⟩ := Header.decode_ok_iff.mp hh.decodes
  have hfirst := congrArg (·[0]?) hr.layout
  simp only [Bytes.getElem?_slice] at hfirst
  rw [if_pos (by decide), List.getElem?_take_of_lt (Nat.lt_of_lt_of_le (by decide) hh.long)] at hfirst
  exact hfirst

namespace Engine
variable {n k : Nat} {e e' e'' e₁ : Engine n k} {v a : View n k} {source slot : SlotId} {header found : Header}
  {memory : Memory n k} {entry : Slot} {P : Place n k → Prop}

/-- Every image that is valid in `e'` claims no fewer bytes than one that is valid in `e`. -/
def Descends (e e' : Engine n k) : Prop :=
  ∀ slot header, e'.Valid slot header → ∃ origin original, e.Valid origin original ∧ original.size ≤ header.size

theorem Descends.refl (e : Engine n k) : e.Descends e := fun slot header hvalid =>
  ⟨slot, header, hvalid, UInt32.le_refl _⟩

theorem Descends.trans (h : e.Descends e') (h' : e'.Descends e'') : e.Descends e'' := by
  intro slot header hvalid
  obtain ⟨between, middle, hmiddle, hle⟩ := h' slot header hvalid
  obtain ⟨origin, original, horiginal, hle'⟩ := h between middle hmiddle
  exact ⟨origin, original, horiginal, UInt32.le_trans hle' hle⟩

/-- An engine that is still comes by no new image. -/
theorem Still.descends (h : e.Still e') : e.Descends e' := fun slot header hvalid =>
  ⟨slot, header, h.valid_iff.mp hvalid, UInt32.le_refl _⟩

/-- A slot of which no byte has changed had its image before. -/
theorem Valid.before (h : e'.Valid slot header) (hc : Changes P e e')
    (hheld : ∀ memory entry, e.storage.lookup? slot = .ok (memory, entry) →
      e'.storage.held memory entry = e.storage.held memory entry) : e.Valid slot header := by
  obtain ⟨memory, entry, hl, haccepts⟩ := h
  have hl' := (hc.storage.setup.lookup? slot).symm.trans hl
  rw [hc.backend, hc.key, hc.holdsEncrypted, hheld memory entry hl'] at haccepts
  exact ⟨memory, entry, hl', haccepts⟩

/-- An image that is valid in a slot that has been given up was there before, or claims no fewer bytes than the one
that was to be laid over it. -/
theorem Remains.valid (h : Remains v memory entry e e') (hc : Changes P e e') (hbackend : e.backend = v.backend)
    (hl : e.storage.lookup? slot = .ok (memory, entry)) (hvalid : v.Accepts header) (hfound : e'.Valid slot found) :
    e.Valid slot found ∨ header.size ≤ found.size := by
  have hheads := (headerAt?_eq_some (hc.storage.lookup? hl)).mp hfound.headerAt?
  cases h with
  | untouched held =>
    refine Or.inl (hfound.before hc fun memory' entry' hl' => ?_)
    cases hl.symm.trans hl'
    exact held
  | erased first =>
    have hzero : some (0xFF : UInt8) = some 0 := first.symm.trans hheads.first
    cases hzero
  | begun front =>
    rw [hc.backend, hbackend] at hheads
    exact Or.inr (front.size_le hvalid.toHeads hheads)

/-- Once the running image has been kept, what is valid in a slot was valid there or is that image. -/
theorem Backed.valid_before (h : Backed source a e e') (ha : e.Shows a) (hfound : e'.Valid slot found) :
    ∃ origin, e.Valid origin found := by
  rcases h.apart_or_copied ha slot with ⟨P, hchanges, hapart⟩ | ⟨header, hvalid, hheader⟩
  · exact ⟨slot, hfound.before hchanges fun memory entry hl => hchanges.storage.held_eq (hapart memory entry hl)⟩
  · obtain rfl : found = header := Option.some.inj (hfound.headerAt?.symm.trans hheader)
    exact ⟨a.slot, ha.valid_iff.mpr hvalid⟩

private theorem descends_of_backed (hv : e.Shows v) (ha : e.Shows a) (hbacked : Backed v.slot a e e₁)
    (hchanges : Changes (e.storage.within a.memory a.entry) e₁ e')
    (hown : ∀ found, e'.Valid a.slot found →
      e₁.Valid a.slot found ∨ ∃ header, v.Accepts header ∧ header.size ≤ found.size) : e.Descends e' := by
  -- All that is left to see after that is what is valid in the slot that is overwritten.
  have hkept : ∀ slot found, e₁.Valid slot found →
      ∃ origin original, e.Valid origin original ∧ original.size ≤ found.size := by
    intro slot found hfound
    obtain ⟨origin, horigin⟩ := hbacked.valid_before ha hfound
    exact ⟨origin, found, horigin, UInt32.le_refl _⟩
  intro slot found hfound
  by_cases hslot : slot = a.slot
  · subst hslot
    rcases hown found hfound with hbefore | ⟨header, hvalid, hle⟩
    · exact hkept _ found hbefore
    · exact ⟨v.slot, header, hv.valid_iff.mpr hvalid, hle⟩
  · refine hkept slot found (hfound.before hchanges fun memory entry hl => hchanges.storage.held_eq fun p hp => ?_)
    have hsetup := hbacked.anywhere.storage.setup
    exact ha.inOrder.sound.apart _ _ _ _ _ _ ((hsetup.lookup? slot).symm.trans hl) ha.lookup hslot p
      ((hsetup.within_iff p).mp hp)

private theorem Headed.descends (h : Headed v a header e e') (hv : e.Shows v) (ha : e.Shows a) : e.Descends e' := by
  obtain ⟨e₁, hbacked, hchanges, -⟩ := h.backed
  refine descends_of_backed hv ha hbacked hchanges fun found hfound => Or.inr ⟨header, h.valid, ?_⟩
  obtain rfl : found = header := Option.some.inj (hfound.headerAt?.symm.trans (h.headerAt?_application hv ha))
  exact UInt32.le_refl _

private theorem BackupSpoilt.descends (h : BackupSpoilt source a e e') (ha : e.Shows a) : e.Descends e' := by
  obtain ⟨backup, memory, entry, -, -, hl, hchanges, -, header, hvalid, hremains⟩ := h
  intro slot found hfound
  by_cases hslot : slot = backup
  · subst hslot
    rcases hremains.valid hchanges ha.backend hl hvalid hfound with hbefore | hle
    · exact ⟨slot, found, hbefore, UInt32.le_refl _⟩
    · exact ⟨a.slot, header, ha.valid_iff.mpr hvalid, hle⟩
  · refine ⟨slot, found, hfound.before hchanges fun memory' entry' hl' => ?_, UInt32.le_refl _⟩
    exact hchanges.storage.held_eq (ha.inOrder.sound.apart _ _ _ _ _ _ hl' hl hslot)

private theorem GivenUp.descends (h : GivenUp v a e e') (hv : e.Shows v) (ha : e.Shows a) : e.Descends e' := by
  cases h with
  | untouched still why => exact still.descends
  | keeping spoilt => exact spoilt.descends ha
  | overwriting header e₁ valid backed changes fault off remains =>
    have hbefore := backed.anywhere
    refine descends_of_backed hv ha backed changes fun found hfound => ?_
    have hlookup := hbefore.storage.lookup? ha.lookup
    exact (remains.valid changes (hbefore.backend.trans hv.backend) hlookup valid hfound).imp id
      fun hle => ⟨header, valid, hle⟩

private theorem Unsealed.descends (h : Unsealed v a e e') (hv : e.Shows v) (ha : e.Shows a) : e.Descends e' := by
  have hall := h.anywhere
  obtain ⟨header, e₁, hvalid, -, hbacked, hcut⟩ := h
  have hchanges := hcut.changes.mono fun p => (hbacked.anywhere.storage.setup.within_iff p).mp
  refine descends_of_backed hv ha hbacked hchanges fun found hfound => Or.inr ⟨header, hvalid, ?_⟩
  have hheads := (headerAt?_eq_some (hall.storage.lookup? ha.lookup)).mp hfound.headerAt?
  rw [hall.backend, hv.backend] at hheads
  exact hcut.front.size_le hvalid.toHeads hheads

/-- However an installation ends, nothing is pending after it, and no image has become valid that claims fewer bytes
than all that were. -/
theorem InService.install_descends (he : e.InService) (hempty : e.storage.buffer.bytes = []) (slot : SlotId) :
    (install slot).Ends e (fun _ e' => e.Descends e' ∧ e'.storage.buffer.bytes = [])
      (fun _ e' => e.Descends e' ∧ e'.storage.buffer.bytes = []) e.storage.AtTop := by
  obtain ⟨home, hhome⟩ := he.home
  have ha := he.shows hhome.lookup
  by_cases hne : slot = home.slot
  · simp only [install]
    rw [Action.ends_get_bind, hhome.role]
    simp only [Action.ofExcept, Action.ends_pure_bind, if_pos hne]
    exact ⟨Descends.refl e, hempty⟩
  cases hl : e.storage.lookup? slot with
  | ok place =>
    obtain ⟨memory, entry⟩ := place
    have hv := he.shows hl
    refine (install_outcomes hv ha hhome.role hne he.chunk_blocks).imp ?_ ?_ id
    · rintro _ e' ⟨header, hheaded, -⟩
      exact ⟨hheaded.descends hv ha, hheaded.empty⟩
    · rintro _ e' ⟨hwhy, hdropped⟩
      exact ⟨(hwhy hempty).elim (·.descends hv ha) (·.descends hv ha), hdropped⟩
  | error cause =>
    have hmissing : ∀ header, ¬e.Valid slot header := by
      intro header hvalid
      obtain ⟨memory, entry, hl'⟩ := hvalid.lookup
      cases hl.symm.trans hl'
    have hreplace : ∀ log, (replace slot home.slot).Ends { e with log } (fun _ _ => False) (fun _ e₁ => e.Still e₁)
        e.storage.AtTop := by
      intro log
      have hlog := still_log e log
      have he' := he.of_changes hlog.toChanges
      have hexamine : (examine slot).Ends { e with log } (fun _ _ => False) (fun _ e₁ => e.Still e₁) e.storage.AtTop :=
        (he'.examine_ends slot).imp (fun header _ hended => hmissing header (hlog.valid_iff.mp hended.2))
          (fun _ _ hended => hlog.trans hended.1) id
      exact (he'.replace_of_misfit hhome.lookup hexamine fun _ _ hno => hno.elim).imp (fun _ _ hno => hno)
        (fun _ _ hended => hended.elim id fun hbig => hbig.2.elim fun _ hno => hno.elim) id
    refine (install_of_replace hhome.role hne hreplace).imp ?_ ?_ id
    · exact fun _ _ hended => hended.elim fun _ hno => hno.1.elim
    · rintro _ _ ⟨e₁, log, hstill, rfl⟩
      exact ⟨(hstill.trans (still_givenUp e₁ log)).descends, rfl⟩

end Engine
end FirmwareUpdate
