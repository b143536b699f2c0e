import FirmwareUpdate.Proofs.Update.Streaming

/-! Installing an image. Nothing is overwritten before the image is known to be valid and to fit, and
the running image is overwritten only once it has been kept, or found to be no loss. -/
namespace FirmwareUpdate.Engine
variable {n k : Nat} {e e' e'' : Engine n k} {v : View n k} {header : Header} {target : SlotId}
  {memory : Memory n k} {entry : Slot}

/-- The device of a memory is switched off. -/
def Off (e : Engine n k) (memory : Memory n k) : Prop :=
  ∃ d, memory.device = .flash d ∧ (e.storage.flash d).initialized = false

/-- Bytes that the plain form of an image takes up. -/
def View.needed (v : View n k) (h : Header) : Nat :=
  v.backend.headerLength + h.size.toNat + v.backend.digestLength

/-- The plain form of the image that is viewed. -/
def View.plain (v : View n k) (h : Header) : Bytes := v.backend.plainImage v.key v.encrypted v.bytes h

/-- What remains of a slot once it has been given up to lay the image in `v` over it: what it had, or it starts with an
erased byte, or with what has been written of the header of that image. -/
inductive Remains (v : View n k) (memory : Memory n k) (entry : Slot) (e e' : Engine n k) : Prop where
  | untouched (held : e'.storage.held memory entry = e.storage.held memory entry)
  | erased (first : (e'.storage.held memory entry)[0]? = some 0xFF)
  | begun (front : HeaderLeft v memory entry e')

private theorem Remains.of_torn (h : Storage.Torn memory entry 0 e.storage e'.storage) : Remains v memory entry e e' :=
  h.elim .untouched .erased

private theorem Remains.between {e₀ : Engine n k} (h₀ : e.Still e₀) (h : Remains v memory entry e₀ e')
    (h' : e'.Still e'') :
    Remains v memory entry e e'' := by
  have hheld : e''.storage.held memory entry = e'.storage.held memory entry := h'.storage.held_eq fun _ _ h => h
  cases h with
  | untouched held => exact .untouched (hheld.trans (held.trans (h₀.storage.held_eq fun _ _ h => h)))
  | erased first => exact .erased (hheld ▸ first)
  | begun front => exact .begun (front.of_still h')

private theorem eraseOn_ends {length : Nat} (hs : e.storage.InOrder)
    (hl : e.storage.lookup? target = .ok (memory, entry)) (hin : length ≤ entry.size) (hne : length ≠ 0) :
    (onStorage (Storage.erase target 0 length) : Op n k Unit).Ends e
      (fun _ e' => Changes (e.storage.within memory entry) e e' ∧ ¬e.Off memory ∧
        e'.storage.buffer = e.storage.buffer ∧ e'.storage.held memory entry =
          Bytes.splice (e.storage.held memory entry) 0 (Bytes.blank (e.storage.erasedLength memory length)))
      (fun _ e' => Changes (e.storage.within memory entry) e e' ∧ e.Faulted e' ∧
        (e.Off memory → Changes (fun _ => False) e e') ∧ Storage.Torn memory entry 0 e.storage e'.storage)
      e.storage.AtTop := by
  apply onStorage_ends.mpr
  by_cases hoff : e.Off memory
  · obtain ⟨d, hd, hinit⟩ := hoff
    refine ((Storage.erase_ends hs hl hin hne).and (Storage.erase_of_off hs hl hd hinit hin hne)).imp
      (fun _ _ h => h.2.elim) ?_ And.left
    intro _ s hended
    obtain ⟨⟨hfails, hf, htorn⟩, hstill⟩ := hended
    exact ⟨.of_storage hfails.changes, hf, fun _ => .of_storage hstill.changes, htorn⟩
  · refine (Storage.erase_ends hs hl hin hne).imp ?_ ?_ id
    · intro _ s hended
      obtain ⟨hpatch, hbuffer⟩ := hended
      exact ⟨.of_storage hpatch.changes, hoff, hbuffer, hpatch.held⟩
    · intro _ s hended
      obtain ⟨hfails, hf, htorn⟩ := hended
      exact ⟨.of_storage hfails.changes, hf, fun h => (hoff h).elim, htorn⟩

private theorem read_keeps_pending {offset length : Nat} (h : e.Shows v) (hin : offset + length ≤ v.entry.size) :
    (read v.slot offset length).Yields e (fun _ e' => e'.storage.buffer = e.storage.buffer) :=
  onStorage_ends.mpr ((Storage.read_ends h.inOrder h.lookup hin).imp (fun _ _ hended => hended.2.1)
    (fun _ _ _ => trivial) fun _ => trivial)

private theorem write_of_pending {data : Bytes} {mode : Storage.WriteMode}
    (hl : e.storage.lookup? target = .ok (memory, entry)) (hpending : e.storage.buffer.bytes ≠ []) :
    (write target 0 data mode).Ends e (fun _ _ => False) (fun _ _ => True) False :=
  onStorage_ends.mpr (Storage.write_of_pending hl hpending)

private theorem fill_of_pending {rest : Op n k Unit} (h : e.Shows v) (hin : v.backend.headerLength ≤ v.entry.size)
    (hl : e.storage.lookup? target = .ok (memory, entry)) (hpending : e.storage.buffer.bytes ≠ []) :
    (do
      let raw ← read v.slot 0 v.backend.headerLength
      write target 0 raw .buffered
      rest : Op n k Unit).Ends e (fun _ _ => False) (fun _ _ => True) e.storage.AtTop := by
  refine ((h.read_ends (by omega)).and_yields (read_keeps_pending h (by omega))).bind ?_
    (fun _ _ _ => trivial) And.right
  intro raw e₁ hended
  obtain ⟨⟨hstill, -, -⟩, hbuffer⟩ := hended
  exact (write_of_pending (hstill.storage.lookup? hl) (hbuffer ▸ hpending)).bind (fun _ _ h => h.elim)
    (fun _ _ h => h) False.elim

private theorem overwrite_ends {chunk : Nat} {text : String} (h : e.Shows v) (haccepts : v.Accepts header)
    (hl : e.storage.lookup? target = .ok (memory, entry)) (hne : v.slot ≠ target)
    (hchunk : 0 < chunk) (hblocks : chunk % Aes.blockLength = 0) (hfits : v.needed header ≤ entry.size) :
    (do
      onStorage (Storage.erase target 0 (v.needed header))
      let raw ← read v.slot 0 v.backend.headerLength
      write target 0 raw .buffered
      openPayload v.slot (v.backend.layoutOf v.encrypted header)
      let hasher ← streamSpans v.slot target (v.backend.layoutOf v.encrypted header)
        (spans chunk header.size.toNat) ((Hasher.start v.backend.algorithm).update header.seed)
      write target (v.backend.headerLength + header.size.toNat) hasher.value .force
      note .info "transfer" text : Op n k Unit).Ends e
      (fun _ e' => Changes (e.storage.within memory entry) e e' ∧ ¬e.Off memory ∧
        e'.storage.buffer.bytes = [] ∧ v.bytes.take v.backend.headerLength <+: e'.storage.held memory entry ∧
        (v.backend.Honest → e'.storage.held memory entry =
          e.storage.overlaid memory (e.storage.held memory entry) (v.needed header) (v.plain header)))
      (fun _ e' => e.storage.buffer.bytes = [] → (Changes (e.storage.within memory entry) e e' ∧
        (e.storage.Granular memory entry → e.Faulted e') ∧ (e.Off memory → Changes (fun _ => False) e e') ∧
          Remains v memory entry e e') ∨ CutShort v memory entry header e e') e.storage.AtTop := by
  -- On a device that is off nothing changes. Only a digest that is longer than declared can keep the slot from holding
  -- the plain form, but not from starting with the header.
  have hneeded : v.needed header ≠ 0 := by
    have hsize := haccepts.size_pos
    simp only [View.needed]
    omega
  refine (eraseOn_ends h.inOrder hl hfits hneeded).bind ?_ ?_ id
  · intro _ e₁ hended
    obtain ⟨hchanges, hon, hbuffer₁, hheld⟩ := hended
    have hapart := h.inOrder.sound.apart _ _ _ _ _ _ h.lookup hl hne
    have hshows := h.of_changes hchanges hapart
    by_cases hbuffer : e.storage.buffer.bytes = []
    case neg =>
      have hcomplete := haccepts.complete
      have hlen := h.length_bytes
      refine (fill_of_pending hshows (by omega) (hchanges.storage.lookup? hl) (hbuffer₁ ▸ hbuffer)).imp
        (fun _ _ h => h.elim) ?_ hchanges.storage.setup.atTop.mp
      exact fun _ _ _ hempty => (hbuffer hempty).elim
    obtain ⟨r, hslot, rfl, rfl, hgranule, hbefore, hlimit, htaken⟩ := Storage.Run.exists_run
      (hchanges.inOrder h.inOrder) (hchanges.storage.lookup? hl) hfits
      (e.storage.le_erasedLength memory (v.needed header)) hheld (hbuffer₁ ▸ hbuffer)
    subst hslot
    have hfills : Fills r v [] e₁ := ⟨hshows, htaken, hne⟩
    have hroom : v.backend.headerLength + header.size.toNat ≤ r.limit := hlimit ▸ Nat.le_add_right _ _
    have hdigest : v.backend.Honest →
        v.backend.headerLength + header.size.toNat + v.backend.algorithm.digestLength ≤ r.limit :=
      fun hhonest => hlimit ▸ Nat.add_le_add_left hhonest _
    have hwithin : ∀ p, e₁.storage.within r.memory r.entry p → e.storage.within r.memory r.entry p :=
      fun p => (hchanges.storage.setup.within_iff p).mp
    refine (fill_ends hfills haccepts hchunk hblocks hroom).imp ?_ ?_ hchanges.storage.setup.atTop.mp
    · intro _ e₂ hended
      obtain ⟨hfill, hbytes, hfront, hheld₂⟩ := hended
      refine ⟨hchanges.trans (hfill.mono hwithin), hon, hbytes, hfront, fun hhonest => ?_⟩
      rw [hheld₂ (hdigest hhonest), hbefore, hgranule, hchanges.storage.setup.deviceGranule]
      rfl
    · rintro _ e₂ (hspoilt | hcut) -
      · refine Or.inl ⟨hchanges.trans (hspoilt.changes.mono hwithin), fun hgranular => ?_, fun hoff => (hon hoff).elim,
          .begun ?_⟩
        · exact hchanges.faulted_right (hspoilt.faulted (hchanges.storage.setup.granular.mpr hgranular))
        · have hcomplete := haccepts.complete
          have hplain : v.bytes.take v.backend.headerLength <+: v.plain header :=
            (List.prefix_append _ _).trans (List.prefix_append _ _)
          exact headerLeft_of_left hspoilt.left (hplain.trans (Storage.prefix_padTo _ _)) (by omega) (by omega)
      · exact Or.inr (hcut.after hchanges)
  · intro _ e₁ hended _
    obtain ⟨hchanges, hf, hoff, htorn⟩ := hended
    exact Or.inl ⟨hchanges, fun _ => hf, hoff, .of_torn htorn⟩

/-! ### Keeping the running image -/

/-- Bytes that an image takes up in its slot. -/
def View.total (v : View n k) (h : Header) : Nat :=
  v.backend.headerLength + h.bodyLength v.encrypted + v.backend.digestLength

/-- What becomes of the image in `a` before it is overwritten from `source`. -/
inductive Backed (source : SlotId) (a : View n k) (e e' : Engine n k) : Prop where
  | spared (still : e.Still e') (why : ∀ backup, e.backup? = some backup →
      backup = source ∨ e.holdsEncrypted backup = true)
  | unread (still : e.Still e') (why : e.Broken a.memory e' ∨ ∀ header, ¬a.Accepts header)
  | tooBig (backup : SlotId) (memory : Memory n k) (entry : Slot) (header : Header) (still : e.Still e')
      (role : e.backup? = some backup) (lookup : e.storage.lookup? backup = .ok (memory, entry))
      (valid : a.Accepts header) (why : entry.size < a.total header)
  | copied (backup : SlotId) (memory : Memory n k) (entry : Slot) (header : Header)
      (changes : Changes (e.storage.within memory entry) e e') (role : e.backup? = some backup)
      (lookup : e.storage.lookup? backup = .ok (memory, entry)) (other : backup ≠ source)
      (valid : a.Accepts header) (fits : a.total header ≤ entry.size)
      (empty : e'.storage.buffer.bytes = [])
      (held : e'.storage.held memory entry = e.storage.overlaid memory (e.storage.held memory entry)
        (a.total header) (a.bytes.take (a.total header)))

/-- How keeping the image in `a` fails: in the backup slot, by the fault of a device if the slot is
one of whole granules. -/
def BackupSpoilt (source : SlotId) (a : View n k) (e e' : Engine n k) : Prop :=
  ∃ backup memory entry, e.backup? = some backup ∧ backup ≠ source ∧
    e.storage.lookup? backup = .ok (memory, entry) ∧
    Changes (e.storage.within memory entry) e e' ∧ (e.storage.Granular memory entry → e.Faulted e') ∧
    ∃ header, a.Accepts header ∧ Remains a memory entry e e'

private theorem keep_ends {a : View n k} {length : Nat} {text : String} (h : e.Shows a)
    (hl : e.storage.lookup? target = .ok (memory, entry)) (hne : a.slot ≠ target)
    (hfits : length ≤ entry.size) (hlength : length ≤ a.bytes.length) (hpos : length ≠ 0)
    (hheader : a.backend.headerLength ≤ length) :
    (do
      onStorage (Storage.erase target 0 length)
      onStorage (Storage.copy a.slot target length)
      note .info "transfer" text : Op n k Unit).Ends e
      (fun _ e' => Changes (e.storage.within memory entry) e e' ∧ e'.storage.buffer.bytes = [] ∧
        e'.storage.held memory entry =
          e.storage.overlaid memory (e.storage.held memory entry) length (a.bytes.take length))
      (fun _ e' => e.storage.buffer.bytes = [] → Changes (e.storage.within memory entry) e e' ∧
        (e.storage.Granular memory entry → e.Faulted e') ∧ Remains a memory entry e e') e.storage.AtTop := by
  have hlen := h.length_bytes
  refine (eraseOn_ends h.inOrder hl hfits hpos).bind ?_ (fun _ _ hf _ => ⟨hf.1, fun _ => hf.2.1, .of_torn hf.2.2.2⟩) id
  intro _ e₁ hended
  obtain ⟨hchanges, -, hbuffer₁, hheld⟩ := hended
  have hapart := h.inOrder.sound.apart _ _ _ _ _ _ h.lookup hl hne
  have hshows := h.of_changes hchanges hapart
  by_cases hbuffer : e.storage.buffer.bytes = []
  case neg =>
    have hrefused : (onStorage (Storage.copy a.slot target length) : Op n k Unit).Ends e₁ (fun _ _ => False)
        (fun _ _ => True) e₁.storage.AtTop :=
      onStorage_ends.mpr (Storage.copy_of_pending hshows.inOrder hshows.lookup (hchanges.storage.lookup? hl) hpos
        (hbuffer₁ ▸ hbuffer))
    exact hrefused.bind (fun _ _ h => h.elim) (fun _ _ _ hempty => (hbuffer hempty).elim)
      hchanges.storage.setup.atTop.mp
  obtain ⟨r, hslot, rfl, rfl, hgranule, hbefore, hlimit, htaken⟩ := Storage.Run.exists_run
    (hchanges.inOrder h.inOrder) (hchanges.storage.lookup? hl) hfits
    (e.storage.le_erasedLength memory length) hheld (hbuffer₁ ▸ hbuffer)
  subst hslot
  have hwithin : ∀ p, e₁.storage.within r.memory r.entry p → e.storage.within r.memory r.entry p :=
    fun p => (hchanges.storage.setup.within_iff p).mp
  have hcopy := Storage.Run.copy_ends hne hshows.lookup (by omega) (Nat.le_of_eq hlimit.symm) htaken
  rw [hshows.bytes] at hcopy
  have hkept : (onStorage (Storage.copy a.slot r.slot length) : Op n k Unit).Ends e₁
      (fun _ e₂ => Changes (e.storage.within r.memory r.entry) e e₂ ∧ e₂.storage.buffer.bytes = [] ∧
        e₂.storage.held r.memory r.entry =
          e.storage.overlaid r.memory (e.storage.held r.memory r.entry) length (a.bytes.take length))
      (fun _ e₂ => e.storage.buffer.bytes = [] → Changes (e.storage.within r.memory r.entry) e e₂ ∧
        (e.storage.Granular r.memory r.entry → e.Faulted e₂) ∧ Remains a r.memory r.entry e e₂) e.storage.AtTop := by
    refine onStorage_ends.mpr (hcopy.imp ?_ ?_ False.elim)
    · intro _ s hended
      obtain ⟨hstep, hheld₂, hbytes⟩ := hended
      refine ⟨hchanges.trans (Changes.of_storage (hstep.mono hwithin)), hbytes, ?_⟩
      rw [hheld₂, hbefore, hgranule, hchanges.storage.setup.deviceGranule]
      rfl
    · intro _ s hfails _
      refine ⟨hchanges.trans (Changes.of_storage (hfails.changes.mono hwithin)), fun hgranular => ?_, .begun ?_⟩
      · have hfault : e₁.Faulted { e₁ with storage := s } :=
          hfails.faulted (hchanges.storage.setup.granular.mpr hgranular)
        exact hchanges.faulted_right hfault
      · have hfront : a.bytes.take a.backend.headerLength <+: a.bytes.take length := List.take_prefix_take_left hheader
        exact headerLeft_of_left (Storage.Run.left_of_fails hfails) (hfront.trans (Storage.prefix_padTo _ _)) (by omega)
          (by omega)
  refine hkept.bind ?_ (fun _ _ hf => hf) id
  intro _ e₂ hended
  obtain ⟨hchanges₂, hbytes, hheld₂⟩ := hended
  exact ⟨hchanges₂.trans (still_log e₂ _).changes, hbytes, hheld₂⟩

/-- However a backup ends, it is known what has become of both images. -/
theorem backUp_ends {a : View n k} {source : SlotId} (h : e.Shows a) (happlication : e.application? = .ok a.slot) :
    (backUp a.slot source).Ends e (fun _ e' => Backed source a e e')
      (fun _ e' => e.storage.buffer.bytes = [] → BackupSpoilt source a e e') e.storage.AtTop := by
  simp only [backUp]
  rw [Action.ends_get_bind]
  split
  · rename_i hnone
    exact .spared (Still.refl e) fun backup hbackup => by rw [hnone] at hbackup; cases hbackup
  · rename_i backup hbackup
    obtain ⟨-, memory, entry, hl, -⟩ := lookup_backup hbackup
    have hne := backup_ne_application hbackup happlication
    rw [Action.ends_get_bind]
    split
    · rename_i hskip
      refine .spared (still_log e _) fun backup' hbackup' => ?_
      rw [hbackup] at hbackup'
      cases hbackup'
      exact hskip
    · rename_i hwanted
      refine h.examine_ends.attempt_bind ?_ ?_ False.elim
      · intro header e₁ hended
        obtain ⟨hstill, hanswer⟩ := hended
        have hshows := h.of_still hstill
        have hlayout := hshows.layout?_of_accepts hanswer
        have hl' := hstill.storage.lookup? hl
        have hslot : e₁.storage.slot? backup = .ok entry := by
          simp only [Storage.slot?]
          rw [hl']
          rfl
        simp only [layout]
        simp only [bind_assoc, Action.ends_get_bind, hlayout, hslot, Action.ofExcept, Action.ends_pure_bind]
        split
        · rename_i hsmall
          exact .tooBig backup memory entry header (hstill.trans (still_log e₁ _)) hbackup hl hanswer hsmall
        · rename_i hfits
          have hpos : a.total header ≠ 0 := by
            have hsize := hanswer.size_pos
            simp only [View.total, Header.bodyLength]
            split <;> omega
          have hwithin : ∀ p, e₁.storage.within memory entry p → e.storage.within memory entry p :=
            fun p => (hstill.storage.setup.within_iff p).mp
          have hheader : a.backend.headerLength ≤ a.total header := by
            simp only [View.total]
            omega
          refine (keep_ends hshows hl' (Ne.symm hne) (Nat.le_of_not_lt hfits) hanswer.fits hpos hheader).imp ?_ ?_
            hstill.storage.setup.atTop.mp
          · intro _ e₂ hended
            obtain ⟨hchanges, hempty, hheld⟩ := hended
            rw [hstill.storage.held_eq fun _ _ h => h, hstill.storage.setup.overlaid] at hheld
            exact .copied backup memory entry header (hstill.changes.trans (hchanges.mono hwithin)) hbackup hl
              (fun hsame => hwanted (Or.inl hsame)) hanswer (Nat.le_of_not_lt hfits) hempty hheld
          · intro _ e₂ hended hbuffer
            obtain ⟨hchanges, hf, hremains⟩ := hended (hstill.pending hbuffer)
            refine ⟨backup, memory, entry, hbackup, fun hsame => hwanted (Or.inl hsame), hl,
              hstill.changes.trans (hchanges.mono hwithin), fun hgranular => ?_, header, hanswer, ?_⟩
            · exact hstill.faulted_right (hf (hstill.storage.setup.granular.mpr hgranular))
            · exact hremains.between hstill (Still.refl e₂)
      · intro cause e₁ hended
        obtain ⟨hstill, hanswer⟩ := hended
        refine .unread (hstill.trans (still_log e₁ _)) ?_
        exact hanswer.imp (fun hb => hb.of_storage rfl (still_log e₁ _)) id

namespace Backed
variable {a : View n k} {source : SlotId}

private theorem after (h : e.Still e') (hb : Backed source a e' e'') : Backed source a e e'' := by
  have hwithin : ∀ {memory : Memory n k} {entry : Slot} p, e'.storage.within memory entry p →
      e.storage.within memory entry p := fun p => (h.storage.setup.within_iff p).mp
  cases hb with
  | spared still why =>
    refine .spared (h.trans still) fun backup hbackup => ?_
    rw [← h.holdsEncrypted]
    exact why backup (h.backup?.trans hbackup)
  | unread still why => exact .unread (h.trans still) (why.imp (Broken.after h) id)
  | tooBig backup memory entry header still role lookup valid why =>
    exact .tooBig backup memory entry header (h.trans still) (h.backup?.symm.trans role)
      ((h.storage.setup.lookup? _).symm.trans lookup) valid why
  | copied backup memory entry header changes role lookup other valid fits empty held =>
    rw [h.storage.held_eq fun _ _ h => h, h.storage.setup.overlaid] at held
    exact .copied backup memory entry header (h.changes.trans (changes.mono hwithin))
      (h.backup?.symm.trans role) ((h.storage.setup.lookup? _).symm.trans lookup) other valid fits empty held

/-- A slot other than the backup slot, or that is the source, is left as it was. -/
theorem changes (h : Backed source a e e') (hs : e.storage.InOrder) {slot : SlotId} {memory : Memory n k}
    {entry : Slot} (hl : e.storage.lookup? slot = .ok (memory, entry))
    (hslot : slot = source ∨ e.backup? ≠ some slot) :
    ∃ P, Changes P e e' ∧ ∀ p, e.storage.within memory entry p → ¬P p := by
  have hleft : e.Still e' → ∃ P, Changes P e e' ∧ ∀ p, e.storage.within memory entry p → ¬P p :=
    fun still => ⟨_, still.toChanges, fun _ _ h => h⟩
  cases h with
  | spared still why => exact hleft still
  | unread still why => exact hleft still
  | tooBig backup memory' entry' header still role lookup valid why => exact hleft still
  | copied backup memory' entry' header changes role lookup other valid fits empty held =>
    refine ⟨_, changes, hs.sound.apart _ _ _ _ _ _ hl lookup ?_⟩
    rintro rfl
    rcases hslot with rfl | hno
    · exact other rfl
    · exact hno role

/-- A backup affects no slot but the one it is kept in. -/
theorem shows (h : Backed source a e e') (hv : e.Shows v) (hslot : v.slot = source ∨ e.backup? ≠ some v.slot) :
    e'.Shows v := by
  obtain ⟨P, hchanges, hapart⟩ := h.changes hv.inOrder hv.lookup hslot
  exact hv.of_changes hchanges hapart

private theorem pending (h : Backed source a e e') (hb : e.storage.buffer.bytes = []) :
    e'.storage.buffer.bytes = [] := by
  cases h with
  | spared still why => exact still.pending hb
  | unread still why => exact still.pending hb
  | tooBig backup memory' entry' header still role lookup valid why => exact still.pending hb
  | copied backup memory' entry' header changes role lookup other valid fits empty held => exact empty

end Backed

/-! ### The whole installation -/

/-- The header of the image in `v` has taken the place of that of the image in `a`. -/
structure Headed (v a : View n k) (header : Header) (e e' : Engine n k) : Prop where
  valid : v.Accepts header
  fits : v.needed header ≤ a.entry.size
  backed : ∃ e₁, Backed v.slot a e e₁ ∧ Changes (e.storage.within a.memory a.entry) e₁ e' ∧ ¬e₁.Off a.memory
  empty : e'.storage.buffer.bytes = []
  front : v.bytes.take v.backend.headerLength <+: e'.storage.held a.memory a.entry

/-- The image in `v` has taken the place of the one in `a`, header, payload and digest. -/
structure Replaced (v a : View n k) (header : Header) (e e' : Engine n k) : Prop extends Headed v a header e e' where
  held : e'.storage.held a.memory a.entry =
    e.storage.overlaid a.memory a.bytes (v.needed header) (v.plain header)

/-- The three points at which an installation gives up. -/
inductive GivenUp (v a : View n k) (e e' : Engine n k) : Prop where
  | untouched (still : e.Still e') (why : e.Faulted e' ∨ ∀ h, v.Accepts h → a.entry.size < v.needed h)
  | keeping (spoilt : BackupSpoilt v.slot a e e')
  | overwriting (header : Header) (e₁ : Engine n k) (valid : v.Accepts header)
      (backed : Backed v.slot a e e₁) (changes : Changes (e.storage.within a.memory a.entry) e₁ e')
      (fault : e.storage.Granular a.memory a.entry → e.Faulted e')
      (off : e₁.Off a.memory → Changes (fun _ => False) e₁ e') (remains : Remains v a.memory a.entry e₁ e')

/-- The installation has been given up for want of room, because the digest is longer than declared. -/
def Unsealed (v a : View n k) (e e' : Engine n k) : Prop :=
  ∃ header e₁, v.Accepts header ∧ v.needed header ≤ a.entry.size ∧ Backed v.slot a e e₁ ∧
    CutShort v a.memory a.entry header e₁ e'

/-- The installation has succeeded: some valid image has been laid over the one in `a`, as a whole unless its digest is
longer than declared. -/
def Installed (v a : View n k) (e e' : Engine n k) : Prop :=
  ∃ header, Headed v a header e e' ∧ (v.backend.Honest → Replaced v a header e e')

section Around
variable {a : View n k}

private theorem Headed.between {e₀ : Engine n k} (h₀ : e.Still e₀) (h : Headed v a header e₀ e') (h' : e'.Still e'') :
    Headed v a header e e'' := by
  have hwithin : ∀ p, e₀.storage.within a.memory a.entry p → e.storage.within a.memory a.entry p :=
    fun p => (h₀.storage.setup.within_iff p).mp
  obtain ⟨e₁, hbacked, hchanges, hon⟩ := h.backed
  refine ⟨h.valid, h.fits, ⟨e₁, hbacked.after h₀, (hchanges.mono hwithin).trans h'.changes, hon⟩,
    h'.pending h.empty, ?_⟩
  rw [h'.storage.held_eq fun _ _ h => h]
  exact h.front

/-- What an engine that is still does before and after does not matter to what has been replaced. -/
theorem Replaced.between {e₀ : Engine n k} (h₀ : e.Still e₀) (h : Replaced v a header e₀ e') (h' : e'.Still e'') :
    Replaced v a header e e'' := by
  refine ⟨h.toHeaded.between h₀ h', ?_⟩
  rw [h'.storage.held_eq fun _ _ h => h, h.held, h₀.storage.setup.overlaid]

private theorem Installed.between {e₀ : Engine n k} (h₀ : e.Still e₀) (h : Installed v a e₀ e') (h' : e'.Still e'') :
    Installed v a e e'' := by
  obtain ⟨header, hheaded, hreplaced⟩ := h
  exact ⟨header, hheaded.between h₀ h', fun hhonest => (hreplaced hhonest).between h₀ h'⟩

private theorem BackupSpoilt.between {source : SlotId} {e₀ : Engine n k} (h₀ : e.Still e₀)
    (h : BackupSpoilt source a e₀ e') (h' : e'.Still e'') : BackupSpoilt source a e e'' := by
  obtain ⟨backup, memory, entry, hbackup, hother, hl, hchanges, hf, header, hvalid, hremains⟩ := h
  refine ⟨backup, memory, entry, h₀.backup?.symm.trans hbackup, hother, (h₀.storage.setup.lookup? _).symm.trans hl,
    (h₀.changes.trans (hchanges.mono fun p => ?_)).trans h'.changes, fun hgranular => ?_, header, hvalid,
    hremains.between h₀ h'⟩
  · exact (h₀.storage.setup.within_iff p).mp
  · exact h'.faulted_left (h₀.faulted_right (hf (h₀.storage.setup.granular.mpr hgranular)))

private theorem Unsealed.honest (h : Unsealed v a e e') : ¬v.backend.Honest := by
  obtain ⟨header, _, -, hfits, -, hcut⟩ := h
  have hsmall := hcut.small
  simp only [View.needed] at hfits
  intro hhonest
  have hle : v.backend.algorithm.digestLength ≤ v.backend.digestLength := hhonest
  omega

private theorem Unsealed.between {e₀ : Engine n k} (h₀ : e.Still e₀) (h : Unsealed v a e₀ e') (h' : e'.Still e'') :
    Unsealed v a e e'' := by
  obtain ⟨header, e₁, hvalid, hfits, hbacked, hchanges, hsmall, hfront⟩ := h
  exact ⟨header, e₁, hvalid, hfits, hbacked.after h₀, hchanges.trans h'.changes, hsmall, hfront.of_still h'⟩

private theorem GivenUp.between {e₀ : Engine n k} (h₀ : e.Still e₀) (h : GivenUp v a e₀ e') (h' : e'.Still e'') :
    GivenUp v a e e'' := by
  cases h with
  | untouched still why =>
    refine .untouched ((h₀.trans still).trans h') (why.imp (fun hf => ?_) id)
    exact h'.faulted_left (h₀.faulted_right hf)
  | keeping spoilt => exact .keeping (spoilt.between h₀ h')
  | overwriting header e₁ valid backed changes fault off remains =>
    refine .overwriting header e₁ valid (backed.after h₀) ((changes.mono fun p => ?_).trans h'.changes)
      (fun hgranular => ?_) (fun hoff => (off hoff).trans h'.toChanges) (remains.between (Still.refl e₁) h')
    · exact (h₀.storage.setup.within_iff p).mp
    · exact h'.faulted_left (h₀.faulted_right (fault (h₀.storage.setup.granular.mpr hgranular)))

end Around

private theorem replaceBacked_ends {a : View n k} {chunk : Nat} (text : String) (hv : e.Shows v)
    (ha : e.Shows a) (happlication : e.application? = .ok a.slot) (hne : v.slot ≠ a.slot)
    (hbacked : Backed v.slot a e e') (hvalid : v.Accepts header) (hchunk : 0 < chunk)
    (hblocks : chunk % Aes.blockLength = 0) (hfits : v.needed header ≤ a.entry.size) :
    (do
      onStorage (Storage.erase a.slot 0 (v.needed header))
      let raw ← read v.slot 0 v.backend.headerLength
      write a.slot 0 raw .buffered
      openPayload v.slot (v.backend.layoutOf v.encrypted header)
      let hasher ← streamSpans v.slot a.slot (v.backend.layoutOf v.encrypted header)
        (spans chunk header.size.toNat) ((Hasher.start v.backend.algorithm).update header.seed)
      write a.slot (v.backend.headerLength + header.size.toNat) hasher.value .force
      note .info "transfer" text : Op n k Unit).Ends e'
      (fun _ e'' => Installed v a e e'')
      (fun _ e'' => e.storage.buffer.bytes = [] → GivenUp v a e e'' ∨ Unsealed v a e e'') e.storage.AtTop := by
  have hspared : e.backup? ≠ some a.slot := fun hbackup => backup_ne_application hbackup happlication rfl
  have hv' := hbacked.shows hv (Or.inl rfl)
  have ha' := hbacked.shows ha (Or.inr hspared)
  obtain ⟨P, hchanges, hapart⟩ := hbacked.changes ha.inOrder ha.lookup (Or.inr hspared)
  have hwithin : ∀ p, e'.storage.within a.memory a.entry p → e.storage.within a.memory a.entry p :=
    fun p => (hchanges.storage.setup.within_iff p).mp
  refine (overwrite_ends hv' hvalid ha'.lookup hne hchunk hblocks hfits).imp ?_ ?_ hchanges.storage.setup.atTop.mp
  · intro _ e'' hended
    obtain ⟨hover, hon, hempty, hfront, hheld⟩ := hended
    have hheaded : Headed v a header e e'' :=
      ⟨hvalid, hfits, ⟨e', hbacked, hover.mono hwithin, hon⟩, hempty, hfront⟩
    refine ⟨header, hheaded, fun hhonest => ⟨hheaded, ?_⟩⟩
    rw [hheld hhonest, ha'.bytes, hchanges.storage.setup.overlaid]
  · intro _ e'' hended hbuffer
    rcases hended (hbacked.pending hbuffer) with ⟨hover, hf, hoff, hremains⟩ | hcut
    · refine Or.inl (.overwriting header e' hvalid hbacked (hover.mono hwithin) (fun hgranular => ?_) hoff hremains)
      exact hchanges.faulted_right (hf (hchanges.storage.setup.granular.mpr hgranular))
    · exact Or.inr ⟨header, e', hvalid, hfits, hbacked, hcut⟩

/-- Replacing the application installs the new image, or it is known how far it got. -/
theorem replace_ends {a : View n k} (hv : e.Shows v) (ha : e.Shows a)
    (happlication : e.application? = .ok a.slot) (hne : v.slot ≠ a.slot)
    (hblocks : e.chunk % Aes.blockLength = 0) :
    (replace v.slot a.slot).Ends e (fun _ e' => Installed v a e e')
      (fun _ e' => e.storage.buffer.bytes = [] → GivenUp v a e e' ∨ Unsealed v a e e') e.storage.AtTop := by
  simp only [replace]
  refine hv.examine_ends.bind ?_ ?_ False.elim
  · intro header e₁ hended
    obtain ⟨hstill, hvalid⟩ := hended
    have hv₁ := hv.of_still hstill
    have ha₁ := ha.of_still hstill
    have hslot : e₁.storage.slot? a.slot = .ok a.entry := by
      simp only [Storage.slot?]
      rw [ha₁.lookup]
      rfl
    have hoverwrite {text : String} := fun (e₂ : Engine n k) (hbacked : Backed v.slot a e₁ e₂)
        (hfits : v.needed header ≤ a.entry.size) =>
      replaceBacked_ends text hv ha happlication hne (hbacked.after hstill) hvalid hv₁.chunk_pos
        (hstill.chunk ▸ hblocks) hfits
    simp only [layout]
    simp only [bind_assoc, Action.ends_get_bind, hv₁.layout?_of_accepts hvalid, hslot, Action.ofExcept,
      Action.ends_pure_bind, hv₁.backend]
    split
    · rename_i hsmall
      refine fun _ => Or.inl (.untouched hstill (Or.inr fun header' hvalid' => ?_))
      obtain rfl : header' = header := Except.ok.inj (hvalid'.decodes.symm.trans hvalid.decodes)
      exact hsmall
    · rename_i hroom
      have hfits : v.needed header ≤ a.entry.size := Nat.le_of_not_lt hroom
      split
      · refine (backUp_ends ha₁ (hstill.application?.trans happlication)).bind ?_ ?_ hstill.storage.setup.atTop.mp
        · exact fun _ e₂ hbacked => hoverwrite e₂ hbacked hfits
        · exact fun _ e₂ hspoilt hbuffer =>
            Or.inl (.keeping ((hspoilt (hstill.pending hbuffer)).between hstill (Still.refl e₂)))
      · rename_i hno
        refine hoverwrite e₁ (.spared (Still.refl e₁) fun backup hbackup => ?_) hfits
        exact (hno (lookup_backup hbackup).1).elim
  · intro _ e₁ hended
    obtain ⟨hstill, hb | hinvalid⟩ := hended
    · exact fun _ => Or.inl (.untouched hstill (Or.inl hb.faulted))
    · exact fun _ => Or.inl (.untouched hstill (Or.inr fun h hvalid => (hinvalid h hvalid).elim))

/-- What is left of an installation that has been given up: no key is loaded and nothing is pending. -/
def givenUp (e : Engine n k) (log : Log) : Engine n k :=
  { e with storage := { e.storage with buffer := e.storage.buffer.dropPending }, cipher := none, log }

/-- Noting that an installation is given up changes nothing. -/
theorem still_givenUp (e : Engine n k) (log : Log) : e.Still (e.givenUp log) :=
  ⟨⟨Storage.still_buffer e.storage _, rfl, rfl, rfl, rfl⟩, Or.inr rfl⟩

/-- An installation comes to what replacing the image comes to. -/
theorem install_of_replace {application source : SlotId} {done : Engine n k → Prop} {failed : Error → Engine n k → Prop}
    {trapped : Prop} (hrole : e.application? = .ok application) (hne : source ≠ application)
    (h : ∀ log, (replace source application).Ends { e with log } (fun _ e' => done e') failed trapped) :
    (install source).Ends e (fun _ e' => ∃ e₁, done e₁ ∧ e' = { e₁ with cipher := none })
      (fun cause e' => ∃ e₁ log, failed cause e₁ ∧ e' = e₁.givenUp log) trapped := by
  simp only [install]
  rw [Action.ends_get_bind, hrole]
  simp only [Action.ofExcept, Action.ends_pure_bind, if_neg hne]
  refine note_bind fun log => ?_
  simp only [unloadKey]
  refine (h log).attempt_bind ?_ ?_ id
  · intro _ e₁ hdone
    rw [Action.ends_modify_bind]
    exact ⟨e₁, hdone, rfl⟩
  · intro cause e₁ hfailed
    rw [Action.ends_modify_bind]
    have hdrop : (onStorage Storage.dropPending : Op n k Unit).Ends { e₁ with cipher := none }
        (fun _ e₂ => e₂ = e₁.givenUp e₁.log) (fun _ _ => False) False := onStorage_ends.mpr rfl
    refine hdrop.bind ?_ (fun _ _ h => h.elim) False.elim
    rintro _ _ rfl
    exact note_bind fun log' => ⟨e₁, log', hfailed, rfl⟩

/-- An installation ends with nothing pending, and with the image in place or, unless bytes were pending before it, for
one of the reasons to give up. -/
theorem install_outcomes {a : View n k} (hv : e.Shows v) (ha : e.Shows a)
    (happlication : e.application? = .ok a.slot) (hne : v.slot ≠ a.slot)
    (hblocks : e.chunk % Aes.blockLength = 0) :
    (install v.slot).Ends e (fun _ e' => Installed v a e e')
      (fun _ e' => (e.storage.buffer.bytes = [] → GivenUp v a e e' ∨ Unsealed v a e e') ∧
        e'.storage.buffer.bytes = []) e.storage.AtTop := by
  have hreplace : ∀ log, (replace v.slot a.slot).Ends { e with log } (fun _ e₁ => Installed v a e e₁)
      (fun _ e₁ => e.storage.buffer.bytes = [] → GivenUp v a e e₁ ∨ Unsealed v a e e₁) e.storage.AtTop := by
    intro log
    have hlog := still_log e log
    refine (replace_ends (hv.of_still hlog) (ha.of_still hlog) happlication hne hblocks).imp ?_ ?_ id
    · exact fun _ e₁ hinstalled => hinstalled.between hlog (Still.refl e₁)
    · exact fun _ e₁ hgiven hbuffer =>
        (hgiven hbuffer).imp (·.between hlog (Still.refl e₁)) (·.between hlog (Still.refl e₁))
  refine (install_of_replace happlication hne hreplace).imp ?_ ?_ id
  · rintro _ _ ⟨e₁, hinstalled, rfl⟩
    exact hinstalled.between (Still.refl e) (still_cipher e₁ none)
  · rintro _ _ ⟨e₁, log, hgiven, rfl⟩
    have hstill := still_givenUp e₁ log
    exact ⟨fun hbuffer => (hgiven hbuffer).imp (·.between (Still.refl e) hstill) (·.between (Still.refl e) hstill), rfl⟩

/-- With digests as they are declared, the whole image is in place. -/
theorem install_ends {a : View n k} (hv : e.Shows v) (ha : e.Shows a)
    (happlication : e.application? = .ok a.slot) (hne : v.slot ≠ a.slot)
    (hblocks : e.chunk % Aes.blockLength = 0) (hhonest : v.backend.Honest) :
    (install v.slot).Ends e (fun _ e' => ∃ header, Replaced v a header e e')
      (fun _ e' => (e.storage.buffer.bytes = [] → GivenUp v a e e') ∧ e'.storage.buffer.bytes = [])
      e.storage.AtTop :=
  (install_outcomes hv ha happlication hne hblocks).imp
    (fun _ _ hinstalled => hinstalled.imp fun _ hended => hended.2 hhonest)
    (fun _ _ hgiven => ⟨fun hbuffer => (hgiven.1 hbuffer).resolve_right fun h => h.honest hhonest, hgiven.2⟩) id

end FirmwareUpdate.Engine
