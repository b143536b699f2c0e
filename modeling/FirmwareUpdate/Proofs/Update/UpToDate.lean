import FirmwareUpdate.Proofs.Bytes.Word
import FirmwareUpdate.Proofs.Update.Installed

/-! What is left to install. Once the newest image has been installed nothing is newer, not even the image that it
replaced, wherever that has been kept. -/
namespace FirmwareUpdate.Engine
variable {n k : Nat} {e₀ e e' e'' : Engine n k} {v a : View n k} {home : Home n k} {source slot : SlotId}
  {header running : Header} {J : Storage n k → Prop} {T : SlotId → Prop} {trapped : Prop}

/-- The image in this slot is the newest one, and another one runs. -/
def Awaits (e : Engine n k) (home : Home n k) (slot : SlotId) : Prop :=
  ∃ running, e.headerAt? home.slot = some running ∧ e.newest home.slot running = .update slot

/-- An engine that is still awaits what it awaited. -/
theorem Still.awaits_iff (h : e.Still e') : e'.Awaits home slot ↔ e.Awaits home slot := by
  simp only [Awaits]
  rw [h.headerAt?]
  exact exists_congr fun running => by rw [h.newest]

/-- No image awaits its own slot. -/
theorem Awaits.ne (h : e.Awaits home slot) : slot ≠ home.slot := by
  obtain ⟨running, hrunning, hnewest⟩ := h
  exact newest_ne hrunning hnewest

/-- Bytes that the image with this header takes up as an application. -/
def needed (e : Engine n k) (header : Header) : Nat :=
  e.backend.headerLength + header.size.toNat + e.backend.digestLength

/-- The view and the engine agree on what room an image needs. -/
theorem Shows.needed (h : e.Shows v) (header : Header) : v.needed header = e.needed header := by
  simp only [Engine.needed, View.needed, h.backend]

/-- The application, if it is valid, is the newest image, or the newest one cannot be installed: it is invalid or too
big. -/
def UpToDate (e : Engine n k) (home : Home n k) : Prop :=
  ∀ running slot header, e.Valid home.slot running → e.Awaits home slot → e.Valid slot header →
    home.entry.size < e.needed header

/-- An engine that is still is as up to date as it was. -/
theorem Still.upToDate_iff (h : e.Still e') : e'.UpToDate home ↔ e.UpToDate home := by
  simp only [UpToDate, needed]
  refine forall_congr' fun running => forall_congr' fun slot => forall_congr' fun header => ?_
  rw [h.valid_iff, h.valid_iff, h.awaits_iff, h.backend]

/-- An engine whose application is the newest image is up to date. -/
theorem upToDate_of_current (hrunning : e.headerAt? home.slot = some running)
    (h : e.newest home.slot running = .current slot) : e.UpToDate home := by
  rintro _ other _ - ⟨found, hfound, hnewest⟩
  obtain rfl : found = running := Option.some.inj (hfound.symm.trans hrunning)
  rw [h] at hnewest
  cases hnewest

/-- Only one image is the newest. -/
theorem Awaits.upToDate (h : e.Awaits home slot)
    (hsmall : ∀ header, e.Valid slot header → home.entry.size < e.needed header) : e.UpToDate home := by
  obtain ⟨running, hrunning, hnewest⟩ := h
  rintro _ other header - ⟨found, hfound, hother⟩ hvalid
  obtain rfl : found = running := Option.some.inj (hfound.symm.trans hrunning)
  rw [hnewest] at hother
  cases hother
  exact hsmall header hvalid

/-! ### The headers after an installation -/

/-- Keeping the running image leaves a slot alone, or that image is in the slot. -/
theorem Backed.apart_or_copied (h : Backed source a e e') (ha : e.Shows a) (slot : SlotId) :
    (∃ P, Changes P e e' ∧ ∀ memory entry, e.storage.lookup? slot = .ok (memory, entry) →
      ∀ p, e.storage.within memory entry p → ¬P p) ∨ ∃ header, a.Accepts header ∧ e'.headerAt? slot = some header := by
  have hleft : e.Still e' → ∃ P, Changes P e e' ∧ ∀ memory entry, e.storage.lookup? slot = .ok (memory, entry) →
      ∀ p, e.storage.within memory entry p → ¬P p := fun still => ⟨_, still.toChanges, fun _ _ _ _ _ => id⟩
  cases h with
  | spared still why => exact Or.inl (hleft still)
  | unread still why => exact Or.inl (hleft still)
  | tooBig backup memory entry header still role lookup valid why => exact Or.inl (hleft still)
  | copied backup memory entry header changes role lookup other valid fits empty held =>
    by_cases hslot : slot = backup
    · subst hslot
      have hbackend : e'.backend = a.backend := changes.backend.trans ha.backend
      have hlong : a.backend.headerLength ≤ a.total header := by
        simp only [View.total]
        omega
      have hfront : a.bytes.take e'.backend.headerLength <+: e'.storage.held memory entry := by
        rw [hbackend, held]
        exact (List.take_prefix_take_left hlong).trans ((Storage.prefix_padTo _ _).trans
          (Storage.prefix_overlaid e.storage memory (e.storage.held memory entry) _ _))
      refine Or.inr ⟨header, valid, ?_⟩
      exact headerAt?_of_front (changes.storage.lookup? lookup) (hbackend ▸ valid.toHeads) hfront
    · refine Or.inl ⟨_, changes, fun memory' entry' hl => ?_⟩
      exact ha.inOrder.sound.apart _ _ _ _ _ _ hl lookup hslot

private theorem Backed.headerAt? (h : Backed source a e e') (ha : e.Shows a) (slot : SlotId) :
    e'.headerAt? slot = e.headerAt? slot ∨ e'.headerAt? slot = e.headerAt? a.slot := by
  -- Keeping the running image changes no header but that of the backup, which becomes that of the running image.
  rcases h.apart_or_copied ha slot with ⟨P, hchanges, hapart⟩ | ⟨header, hvalid, hheader⟩
  · exact Or.inl (hchanges.headerAt? hapart)
  · exact Or.inr (hheader.trans (ha.valid_iff.mpr hvalid).headerAt?.symm)

private theorem Headed.headerAt? (h : Headed v a header e e') (hv : e.Shows v) (ha : e.Shows a) (slot : SlotId) :
    e'.headerAt? slot = e.headerAt? slot ∨ e'.headerAt? slot = e.headerAt? a.slot ∨
      e'.headerAt? slot = some header := by
  by_cases hslot : slot = a.slot
  · exact Or.inr (Or.inr (hslot ▸ h.headerAt?_application hv ha))
  · obtain ⟨e₁, hbacked, hchanges, -⟩ := h.backed
    have hsame : e'.headerAt? slot = e₁.headerAt? slot := hchanges.headerAt? fun memory entry hl p hp =>
      ha.inOrder.sound.apart _ _ _ _ _ _ ((hbacked.anywhere.storage.setup.lookup? slot).symm.trans hl) ha.lookup hslot p
        ((hbacked.anywhere.storage.setup.within_iff p).mp hp)
    rw [hsame]
    exact (hbacked.headerAt? ha slot).imp id Or.inl

private theorem Headed.newest (h : Headed v a header e e') (hv : e.Shows v) (ha : e.Shows a)
    (hrunning : e.headerAt? a.slot = some running) (hchosen : e.newest a.slot running = .update v.slot) :
    e'.newest a.slot header = .current a.slot := by
  have hpolicy : e'.policy = e.policy := h.anywhere.policy
  have hheader : e.headerAt? v.slot = some header := (hv.valid_iff.mpr h.valid).headerAt?
  obtain ⟨hbest, hrest⟩ := newestFrom_newest hchosen hheader (fun hcurrent => by cases hcurrent)
  refine newestFrom_eq fun slot hmem found hfound => ?_
  rw [h.anywhere.contenders] at hmem
  rw [hpolicy]
  rcases h.headerAt? hv ha slot with hsame | hsame | hsame
  · exact hrest slot hmem found (hsame.symm.trans hfound)
  · obtain rfl : running = found := Option.some.inj (hrunning.symm.trans (hsame.symm.trans hfound))
    exact hbest
  · obtain rfl : header = found := Option.some.inj (hsame.symm.trans hfound)
    exact Header.not_supersedes_self


/-! ### Without its digest -/

/-- The size that is found in what has been written of a header is no smaller than its own. -/
theorem HeaderLeft.size_le {memory : Memory n k} {entry : Slot} {found : Header} (h : HeaderLeft v memory entry e)
    (hheads : v.Heads header) (hfound : v.backend.Heads (e.storage.held memory entry) found) :
    header.size ≤ found.size := by
  have hlong := hfound.long
  rw [hheads.size_eq, hfound.size_eq]
  refine Bytes.wordAt_le fun i hi hi' => ?_
  have hin : i < v.backend.headerLength := by
    have hlast : 0x0C + 4 ≤ Header.encodedSize := by decide
    omega
  rw [List.getD_eq_getElem?_getD, List.getD_eq_getElem?_getD, List.getElem?_take_of_lt hin,
    List.getElem?_take_of_lt hin]
  rcases h i hin with hsame | herased
  · rw [hsame]
    exact UInt8.le_refl _
  · rw [herased]
    exact UInt8.le_iff_toNat_le.mpr (Nat.le_of_lt_succ (UInt8.toNat_lt _))

private theorem Unsealed.invalid (h : Unsealed v a e e') (hv : e.Shows v) (ha : e.Shows a)
    (hprimary : a.memory.tier = .primary) (found : Header) : ¬e'.Valid a.slot found := by
  -- An image that has been laid out without its digest is not valid: the size that is found in its header is no smaller
  -- than its own, and then the digest has to lie past the end of the slot.
  intro hfound
  have hchanges := h.anywhere
  obtain ⟨header, _, hvalid, -, -, hcut⟩ := h
  have hl := hchanges.storage.lookup? ha.lookup
  have hlength := Storage.length_held (hchanges.inOrder ha.inOrder).sound hl
  have haccepts := hfound.plain hl hprimary
  rw [hchanges.backend.trans hv.backend] at haccepts
  have hsize := hcut.front.size_le hvalid.toHeads haccepts.toHeads
  have hdigest := congrArg List.length haccepts.digest
  rw [Algorithm.length_digest, Bytes.length_slice] at hdigest
  have hsmall := hcut.small
  have hpositive := v.backend.algorithm.digestLength_pos
  have hle := UInt32.le_iff_toNat_le.mp hsize
  simp only [Header.bodyLength, Bool.false_eq_true, if_false] at hdigest
  omega

/-! ### Installing the newest image -/

/-- Once the newest image has been installed, or could not be, the application is up to date. -/
theorem InService.install_updates (he : e.InService) (hhome : e.RunsAt home) (hempty : e.storage.buffer.bytes = [])
    (hgranular : e.storage.AllGranular) (h : e.Awaits home slot) (hvalid : e.Valid slot header) :
    (install slot).Ends e (fun _ e' => e'.storage.buffer.bytes = [] ∧ e'.UpToDate home)
      (fun _ e' => e'.storage.buffer.bytes = [] ∧ (e.Faulted e' ∨ e'.UpToDate home)) e.storage.AtTop := by
  obtain ⟨memory, entry, hl⟩ := hvalid.lookup
  have hv := he.shows hl
  have ha := he.shows hhome.lookup
  have haccepts := hv.valid_iff.mp hvalid
  refine (install_outcomes hv ha hhome.role h.ne he.chunk_blocks).imp ?_ ?_ id
  · rintro _ e' ⟨found, hheaded, -⟩
    obtain ⟨running, hrunning, hnewest⟩ := h
    have hheader := hheaded.headerAt?_application hv ha
    exact ⟨hheaded.empty, upToDate_of_current hheader (hheaded.newest hv ha hrunning hnewest)⟩
  · rintro _ e' ⟨hwhy, hbuffer⟩
    refine ⟨hbuffer, ?_⟩
    rcases hwhy hempty with hgiven | hunsealed
    · refine (hgiven.faulted_or_small haccepts hgranular ha).imp id fun hended => ?_
      obtain ⟨hstill, hsmall⟩ := hended
      refine hstill.upToDate_iff.mpr (h.upToDate fun header' hvalid' => ?_)
      obtain rfl : header' = header := valid_unique hvalid hvalid'
      rw [← hv.needed]
      exact hsmall
    · exact Or.inr fun running _ _ hrunning => (hunsealed.invalid hv ha hhome.primary running hrunning).elim

/-- The installation of an image that is too big is given up before anything is written. Whatever reading keeps, it
keeps. -/
theorem InService.install_of_small (he : e.InService) (hhome : e.RunsAt home)
    (hupkeep : Storage.Upkeep e₀.storage J T trapped) (hm : Maintained e₀ J e) (hne : slot ≠ home.slot)
    (hvalid : e.Valid slot header) (hsmall : home.entry.size < e.needed header) :
    (install slot).Ends e (fun _ _ => False) (fun _ e' => e.Still e' ∧ Maintained e₀ J e') trapped := by
  have hreplace : ∀ log, (replace slot home.slot).Ends { e with log } (fun _ _ => False)
      (fun _ e₁ => e.Still e₁ ∧ Maintained e₀ J e₁) trapped := by
    intro log
    have hlog := still_log e log
    have he' := he.of_changes hlog.toChanges
    have hexamine := (he'.examine_of_valid (hlog.valid_iff.mpr hvalid)).and
      ((looking hupkeep).examine _ ((looking hupkeep).log e log hm))
    refine (he'.replace_of_misfit hhome.lookup hexamine fun found e₁ hended => ?_).imp (fun _ _ hno => hno) ?_ And.right
    · rw [hended.1.2]
      exact hsmall
    · rintro _ e₁ (⟨⟨hstill, -⟩, hm₁⟩ | ⟨-, found, ⟨hstill, -⟩, hm₁⟩)
      · exact ⟨hlog.trans hstill, hm₁⟩
      · exact ⟨hlog.trans hstill, hm₁⟩
  refine (install_of_replace hhome.role hne hreplace).imp ?_ ?_ id
  · exact fun _ _ hended => hended.elim fun _ hno => hno.1.elim
  · rintro _ _ ⟨e₁, log, ⟨hstill, hm₁⟩, rfl⟩
    refine ⟨hstill.trans (still_givenUp e₁ log), ?_, hm₁.policy, hm₁.tuning, hm₁.key, hm₁.backend⟩
    have hdrop : Action.Preserves J trapped (Storage.dropPending : Action (Storage n k) Error Unit) :=
      hupkeep.dropPending
    exact hdrop e₁.storage hm₁.storage

end FirmwareUpdate.Engine
