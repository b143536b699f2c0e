import FirmwareUpdate.Proofs.Update.Choice
import FirmwareUpdate.Proofs.Update.Install
import FirmwareUpdate.Proofs.Update.PlainImage

/-! What is in the application slot once an image has been installed there: the plain form of that image,
which is valid again. -/
namespace FirmwareUpdate
variable {n k : Nat}

/-- The image, padded to whole granules, is the first of what it is laid over. -/
theorem Storage.prefix_overlaid (s : Storage n k) (memory : Memory n k) (old : Bytes) (length : Nat) (data : Bytes) :
    padTo (s.devices.granule memory.device) data <+: s.overlaid memory old length data :=
  Bytes.prefix_splice _ _

/-- Every slot is one of whole granules. -/
def Storage.AllGranular (s : Storage n k) : Prop :=
  ∀ slot memory entry, s.lookup? slot = .ok (memory, entry) → s.Granular memory entry

/-- Being made of whole granules is a matter of setup. -/
theorem Storage.AllGranular.of_changes {s s' : Storage n k} {P : Place n k → Prop} (h : s.AllGranular)
    (hs : Storage.Changes P s s') : s'.AllGranular := fun slot memory entry hl =>
  hs.setup.granular.mpr (h slot memory entry ((hs.setup.lookup? _).symm.trans hl))

/-- All slots of the sample are made of whole granules. -/
theorem Sample.Holds.allGranular {s : Storage 1 0} (h : Sample.Holds s) : s.AllGranular := by
  intro slot memory entry hl
  obtain ⟨hmemory, hentry⟩ := Storage.getElem?_of_lookup? hl
  rw [h.memories] at hmemory
  obtain rfl := List.mem_singleton.mp (List.mem_of_getElem? hmemory)
  have hmem := List.mem_of_getElem? hentry
  simp only [Sample.memory, List.mem_cons, List.not_mem_nil, or_false] at hmem
  rcases hmem with rfl | rfl | rfl
  · exact h.granular rfl
  · exact h.granular rfl
  · exact h.granular rfl

namespace Engine
variable {e e' : Engine n k} {v a : View n k} {source : SlotId} {header : Header} {memory : Memory n k} {entry : Slot}

/-- A backup may be said to change anything. -/
theorem Backed.anywhere (h : Backed source a e e') : Changes (fun _ => True) e e' := by
  cases h with
  | spared still why => exact still.changes
  | unread still why => exact still.changes
  | tooBig backup memory entry header still role lookup valid why => exact still.changes
  | copied backup memory entry header changes role lookup other valid fits empty held =>
    exact changes.mono fun _ _ => trivial

/-- A header in its new place may be said to have changed anything. -/
theorem Headed.anywhere (h : Headed v a header e e') : Changes (fun _ => True) e e' := by
  obtain ⟨e₁, hbacked, hchanges, -⟩ := h.backed
  exact hbacked.anywhere.trans (hchanges.mono fun _ _ => trivial)

private theorem GivenUp.anywhere (h : GivenUp v a e e') : Changes (fun _ => True) e e' := by
  cases h with
  | untouched still why => exact still.changes
  | keeping spoilt =>
    obtain ⟨backup, memory, entry, -, -, -, hchanges, -⟩ := spoilt
    exact hchanges.mono fun _ _ => trivial
  | overwriting header e₁ valid backed changes fault off remains =>
    exact backed.anywhere.trans (changes.mono fun _ _ => trivial)

/-- An installation given up for want of room may be said to have changed anything. -/
theorem Unsealed.anywhere (h : Unsealed v a e e') : Changes (fun _ => True) e e' := by
  obtain ⟨header, e₁, -, -, hbacked, hcut⟩ := h
  exact hbacked.anywhere.trans (hcut.changes.mono fun _ _ => trivial)

/-- The image that has been installed is valid where it is now. -/
theorem Replaced.valid_application (h : Replaced v a header e e') (hv : e.Shows v) (ha : e.Shows a)
    (hprimary : a.memory.tier = .primary) : e'.Valid a.slot header := by
  have hchanges := h.anywhere
  have hl := hchanges.storage.lookup? ha.lookup
  have hlength := Storage.length_held (hchanges.inOrder ha.inOrder).sound hl
  refine ⟨a.memory, a.entry, hl, ?_⟩
  rw [holdsEncrypted_of_primary hl hprimary, hchanges.backend, hv.backend]
  apply h.valid.plainImage_accepted
  · rw [h.held]
    exact (Storage.prefix_padTo _ _).trans (Storage.prefix_overlaid _ _ _ _ _)
  · rw [hlength]
    exact h.fits

/-- The slot that it was installed from has not changed. -/
theorem Headed.shows_source (h : Headed v a header e e') (hv : e.Shows v) (ha : e.Shows a)
    (hne : v.slot ≠ a.slot) : e'.Shows v := by
  obtain ⟨e₁, hbacked, hchanges, -⟩ := h.backed
  have hapart := hv.inOrder.sound.apart _ _ _ _ _ _ hv.lookup ha.lookup hne
  have hwithin : ∀ p, e₁.storage.within v.memory v.entry p → e.storage.within v.memory v.entry p := fun p =>
    (hbacked.anywhere.storage.setup.within_iff p).mp
  exact (hbacked.shows hv (Or.inl rfl)).of_changes hchanges fun p hp => hapart p (hwithin p hp)

private theorem Headed.valid_source (h : Headed v a header e e') (hv : e.Shows v) (ha : e.Shows a)
    (hne : v.slot ≠ a.slot) : e'.Valid v.slot header :=
  (h.shows_source hv ha hne).valid_iff.mpr h.valid

/-- Its header is where the application is read from. -/
theorem Headed.headerAt?_application (h : Headed v a header e e') (hv : e.Shows v) (ha : e.Shows a) :
    e'.headerAt? a.slot = some header := by
  have hall := h.anywhere
  have hbackend : e'.backend = v.backend := hall.backend.trans hv.backend
  exact headerAt?_of_front (hall.storage.lookup? ha.lookup) (hbackend ▸ h.valid.toHeads) (hbackend ▸ h.front)

/-- A valid image is examined to be so, unless a call fails. -/
theorem InService.examine_of_valid (he : e.InService) {slot : SlotId} (h : e.Valid slot header) :
    (examine slot).Ends e (fun found e' => e.Still e' ∧ found = header) (fun _ e' => e.Still e' ∧ e.Faulted e')
      e.storage.AtTop := by
  refine (he.examine_ends slot).imp ?_ ?_ id
  · exact fun found e' hended => ⟨hended.1, valid_unique h hended.2⟩
  · exact fun _ e' hended => ⟨hended.1, (hended.2.resolve_right fun hnone => hnone header h).faulted⟩

/-- What is not accepted for installation, because of what examining it gives or because it does not fit, has been
examined and nothing more. -/
theorem InService.replace_of_misfit {target : SlotId} {done : Header → Engine n k → Prop}
    {failed : Error → Engine n k → Prop} {trapped : Prop} (he : e.InService)
    (hl : e.storage.lookup? target = .ok (memory, entry)) (hexamine : (examine source).Ends e done failed trapped)
    (hbig : ∀ found e₁, done found e₁ →
      entry.size < e.backend.headerLength + found.size.toNat + e.backend.digestLength) :
    (replace source target).Ends e (fun _ _ => False)
      (fun cause e₁ => failed cause e₁ ∨ cause = .invalidLength ∧ ∃ found, done found e₁) trapped := by
  simp only [replace]
  refine ((he.examine_ends source).and hexamine).bind ?_ (fun _ _ hended => Or.inl hended.2) And.right
  rintro found e₁ ⟨⟨hstill, hvalid⟩, hdone⟩
  obtain ⟨sourceMemory, sourceEntry, hsource⟩ := hvalid.lookup
  have hv := (he.shows hsource).of_still hstill
  have hslot : e₁.storage.slot? target = .ok entry := by
    simp only [Storage.slot?]
    rw [hstill.storage.lookup? hl]
    rfl
  have hlayout : e₁.layout? source found = .ok _ :=
    hv.layout?_of_accepts (hv.valid_iff.mp (hstill.valid_iff.mpr hvalid))
  have hsmall : entry.size < e₁.backend.headerLength + found.size.toNat + e₁.backend.digestLength := by
    rw [hstill.backend]
    exact hbig found e₁ hdone
  simp only [layout, bind_assoc, Action.ends_get_bind, hlayout, hslot, Action.ofExcept, Action.ends_pure_bind]
  rw [if_pos hsmall]
  exact Or.inr ⟨rfl, found, hdone⟩

/-- On slots of whole granules an installation gives up for the fault of a device, or for want of room. -/
theorem GivenUp.faulted_or_small (h : GivenUp v a e e') (hvalid : v.Accepts header)
    (hgranular : e.storage.AllGranular) (ha : e.Shows a) :
    e.Faulted e' ∨ e.Still e' ∧ a.entry.size < v.needed header := by
  cases h with
  | untouched still why => exact why.imp id fun hsmall => ⟨still, hsmall header hvalid⟩
  | keeping spoilt =>
    obtain ⟨backup, memory, entry, -, -, hl, -, hf, -⟩ := spoilt
    exact Or.inl (hf (hgranular backup memory entry hl))
  | overwriting header' e₁ valid backed changes fault off remains => exact Or.inl (fault (hgranular _ _ _ ha.lookup))

/-- From slots of whole granules a valid image is installed unless a device is at fault, or it is too big. It
makes no difference what has been done before that stores nothing. -/
theorem InService.install_valid_ends {home : Home n k} {e₁ : Engine n k} (he : e.InService) (hhome : e.RunsAt home)
    (hhonest : e.backend.Honest) (hempty : e.storage.buffer.bytes = []) (hgranular : e.storage.AllGranular)
    (hl : e.storage.lookup? source = .ok (memory, entry)) (hvalid : e.Valid source header)
    (hne : source ≠ home.slot) (hstill : e.Still e₁) :
    (install source).Ends e₁
      (fun _ e' => Replaced (e.viewOf source memory entry) (e.viewOf home.slot home.memory home.entry) header e e')
      (fun _ e' => e₁.Faulted e' ∨
        e₁.Still e' ∧ home.entry.size < (e.viewOf source memory entry).needed header) e.storage.AtTop := by
  have hv := he.shows hl
  have ha := he.shows hhome.lookup
  have haccepts := hv.valid_iff.mp hvalid
  refine (install_ends (hv.of_still hstill) (ha.of_still hstill) (hstill.application?.trans hhome.role) hne
    (hstill.chunk ▸ he.chunk_blocks) hhonest).imp ?_ ?_ hstill.storage.setup.atTop.mp
  · intro _ e' hended
    obtain ⟨found, hreplaced⟩ := hended
    obtain rfl : found = header := Except.ok.inj (hreplaced.valid.decodes.symm.trans haccepts.decodes)
    exact hreplaced.between hstill (Still.refl e')
  · exact fun _ e' hgiven => (hgiven.1 (hstill.pending hempty)).faulted_or_small haccepts
      (hgranular.of_changes hstill.storage) (ha.of_still hstill)

/-- What has been installed from a valid image has the header of that image, which is in its place still. -/
theorem InService.install_spreads {home : Home n k} (he : e.InService) (hhome : e.RunsAt home)
    (hvalid : e.Valid source header) (hne : source ≠ home.slot) :
    (install source).Yields e
      (fun _ e' => e'.headerAt? home.slot = some header ∧ e'.headerAt? source = some header) := by
  obtain ⟨memory, entry, hl⟩ := hvalid.lookup
  have hv := he.shows hl
  have ha := he.shows hhome.lookup
  refine (install_outcomes hv ha hhome.role hne he.chunk_blocks).yields.imp ?_
  rintro _ e' ⟨found, hheaded, -⟩
  obtain rfl : found = header := valid_unique hvalid (hv.valid_iff.mpr hheaded.valid)
  exact ⟨hheaded.headerAt?_application hv ha, (hheaded.valid_source hv ha hne).headerAt?⟩

/-- However the installation of a valid image ends, nothing is pending after it. -/
theorem InService.install_empties (he : e.InService) (hhonest : e.backend.Honest)
    (hempty : e.storage.buffer.bytes = []) {slot : SlotId} (hvalid : e.Valid slot header) :
    (install slot).Ends e (fun _ e' => Changes (fun _ => True) e e' ∧ e'.storage.buffer.bytes = [])
      (fun _ e' => Changes (fun _ => True) e e' ∧ e'.storage.buffer.bytes = []) e.storage.AtTop := by
  obtain ⟨home, hhome⟩ := he.home
  by_cases hne : slot = home.slot
  · simp only [install]
    rw [Action.ends_get_bind, hhome.role]
    simp only [Action.ofExcept, Action.ends_pure_bind, if_pos hne]
    exact ⟨Changes.refl _ e, hempty⟩
  · obtain ⟨memory, entry, hl⟩ := hvalid.lookup
    refine (install_ends (he.shows hl) (he.shows hhome.lookup) hhome.role hne he.chunk_blocks hhonest).imp ?_ ?_ id
    · intro _ e' hended
      obtain ⟨found, hreplaced⟩ := hended
      exact ⟨hreplaced.anywhere, hreplaced.empty⟩
    · exact fun _ e' hgiven => ⟨(hgiven.1 hempty).anywhere, hgiven.2⟩

/-- The image that was stored in a slot has been installed: the application slot starts with its raw
header, then its payload in the clear, then the digest of the seed and that payload, and then zeros up to a
granule. Nothing is pending, and the application is found valid, with the same header. -/
structure Placed (e : Engine n k) (source application : SlotId) (stored : Bytes) (memory : Memory n k)
    (entry : Slot) (header : Header) (e' : Engine n k) : Prop where
  image : Storage.padTo (e.storage.devices.granule memory.device)
    (stored.take e.backend.headerLength ++
      e.backend.payload e.key (e.holdsEncrypted source) stored header ++
      e.backend.algorithm.digest
        (header.seed ++ e.backend.payload e.key (e.holdsEncrypted source) stored header)) <+:
    e'.storage.held memory entry
  empty : e'.storage.buffer.bytes = []
  accepted : (examine application).Ends e' (fun found _ => found = header) (fun _ e'' => e'.Faulted e'') False

/-- An image that has been examined and fits is installed, unless a device is at fault. Neither the chunk
size nor the granule has a part in its header, payload and digest. -/
theorem install_places_image {e₁ : Engine n k} {application : SlotId} {sourceMemory : Memory n k}
    {sourceEntry : Slot} (he : e.InService) (hempty : e.storage.buffer.bytes = [])
    (hgranular : e.storage.AllGranular) (htop : ¬e.storage.AtTop) (hhonest : e.backend.Honest)
    (hrole : e.application? = .ok application) (hl : e.storage.lookup? application = .ok (memory, entry))
    (hsource : e.storage.lookup? source = .ok (sourceMemory, sourceEntry)) (hne : source ≠ application)
    (hexamined : examine source e = .ok header e₁)
    (hfits : e.backend.headerLength + header.size.toNat + e.backend.digestLength ≤ entry.size) :
    (install source).Ends e₁
      (fun _ e' => Placed e source application (e.storage.held sourceMemory sourceEntry) memory entry header e')
      (fun _ e' => e₁.Faulted e') False := by
  obtain ⟨hstill, hvalid⟩ := (he.examine_ends source).done_of_ok hexamined
  obtain ⟨home, hhome⟩ := he.home
  obtain rfl : home.slot = application := Except.ok.inj (hhome.role.symm.trans hrole)
  rw [hhome.lookup] at hl
  cases hl
  refine (he.install_valid_ends hhome hhonest hempty hgranular hsource hvalid hne hstill).imp ?_ ?_ htop
  · rintro _ e' hreplaced
    refine ⟨?_, hreplaced.empty, ?_⟩
    · have hheld : e'.storage.held home.memory home.entry = _ := hreplaced.held
      rw [hheld]
      exact Storage.prefix_overlaid _ _ _ _ _
    · have hvalid' := hreplaced.valid_application (he.shows hsource) (he.shows hhome.lookup) hhome.primary
      have hchanges := hreplaced.anywhere
      exact ((he.of_changes hchanges).examine_of_valid hvalid').imp (fun _ _ h => h.2) (fun _ _ h => h.2)
        fun h => htop (hchanges.storage.setup.atTop.mp h)
  · exact fun _ e' hgiven => hgiven.resolve_right fun hsmall => absurd hsmall.2 (Nat.not_lt.mpr hfits)

/-- An update on the sample board is placed over a blank application slot. -/
theorem sample_install_places_image : ∃ (e e₁ : Engine 1 0) (header : Header), header.index = 2 ∧
    (install ⟨0, 1⟩).Ends e₁
      (fun _ e' => Placed e ⟨0, 1⟩ ⟨0, 0⟩ (e.storage.held Sample.memory (Sample.slot 128 .anUpdate)) Sample.memory
        (Sample.slot 0 .theApplication) header e')
      (fun _ e' => e₁.Faulted e') False := by
  have hcheck : (match bringUp (Sample.plan 64) (.flash 0) none {} (Sample.board [] (Sample.image 2 [0, 16, 7]) []) with
      | .error _ _ => false
      | .ok e _ => match examine ⟨0, 1⟩ e with
        | .error _ _ => false
        | .ok header _ => decide (Sample.Holds e.storage ∧ e.storage.find? .theApplication = some ⟨0, 0⟩ ∧
            header.index = 2 ∧ header.size = 12)) = true := by
    decide +kernel
  split at hcheck
  · cases hcheck
  rename_i e after hup
  split at hcheck
  · cases hcheck
  rename_i header e₁ hexamined
  obtain ⟨hholds, hfind, hindex, hsize⟩ := of_decide_eq_true hcheck
  obtain ⟨he, hempty, -, -, hbackend, -⟩ := (bringUp_ends (by simp)).done_of_ok hup
  obtain ⟨happlication, hupdate, -⟩ := hholds.lookup?
  refine ⟨e, e₁, header, hindex, install_places_image he hempty hholds.allGranular hholds.not_atTop ?_ ?_
    happlication hupdate (by decide) hexamined ?_⟩
  · rw [hbackend]
    exact Nat.le_refl _
  · rw [application?, hfind]
  · rw [hbackend, hsize]
    decide

end Engine
end FirmwareUpdate
