import FirmwareUpdate.Proofs.Storage.Unasked
import FirmwareUpdate.Proofs.Update.UpToDate

/-! An image that is not to be installed is refused before any device is asked to write or to erase, for the reason that
examining it gives. What has been noted on the way has no part in that. -/
namespace FirmwareUpdate.Engine
variable {n k : Nat} {ε α : Type} {e e' e'' : Engine n k} {application slot source : SlotId} {header : Header}
  {memory : Memory n k} {entry : Slot} {cause : Error} {offset length : Nat}

/-! ### The log has no part in it -/

/-- The engines differ in their logs at most. -/
def SameButLog (e e' : Engine n k) : Prop := ∃ log, e' = { e with log }

private theorem onStorage_blind (act : Action (Storage n k) ε α) : Action.Blind SameButLog (onStorage act) := by
  refine .focus act ?_ ?_
  · rintro e _ ⟨log, rfl⟩
    rfl
  · rintro e _ storage ⟨log, rfl⟩
    exact ⟨log, rfl⟩

private theorem onCipher_blind (act : Action Cbc.Cipher CipherError α) :
    Action.Blind SameButLog (onCipher act : Op n k α) := by
  refine .mapError (.focus act ?_ ?_)
  · rintro e _ ⟨log, rfl⟩
    rfl
  · rintro e _ cipher ⟨log, rfl⟩
    exact ⟨log, rfl⟩

private theorem note_blind {level : Severity} {tag text : String} :
    Action.Blind SameButLog (note level tag text : Op n k Unit) := by
  refine .modify ?_
  rintro e _ ⟨log, rfl⟩
  exact ⟨_, rfl⟩

private theorem get_blind {next : Engine n k → Op n k α} (h : ∀ e log, next e = next { e with log })
    (h' : ∀ e, Action.Blind SameButLog (next e)) : Action.Blind SameButLog (get >>= next) := by
  refine .get_bind ?_ h'
  rintro e _ ⟨log, rfl⟩
  exact h e log

private theorem headerOf_blind : Action.Blind SameButLog (headerOf slot : Op n k Header) :=
  get_blind (fun _ _ => rfl) fun _ => .bind (onStorage_blind _) fun _ => .ofExcept _

private theorem layout_blind : Action.Blind SameButLog (layout slot header : Op n k Layout) :=
  get_blind (fun _ _ => rfl) fun _ => .ofExcept _

private theorem hashSpans_blind (spans : List Span) (hasher : Hasher) :
    Action.Blind SameButLog (hashSpans slot offset spans hasher : Op n k Hasher) := by
  induction spans generalizing hasher with
  | nil => exact .pure hasher
  | cons span rest ih => exact .bind (onStorage_blind _) fun data => ih (hasher.update data)

private theorem digestPart_blind {seed : Bytes} :
    Action.Blind SameButLog (digestPart slot seed offset length : Op n k Bytes) :=
  get_blind (fun _ _ => rfl) fun _ => .bind (hashSpans_blind _ _) fun _ => .pure _

private theorem checkKey_blind {layout : Layout} : Action.Blind SameButLog (checkKey slot layout : Op n k Unit) := by
  refine .bind (onStorage_blind _) fun iv => .bind (onStorage_blind _) fun coded => ?_
  have htry : Action.Blind SameButLog (do loadKey iv; decrypt coded : Op n k Bytes) :=
    .bind (get_blind (fun _ _ => rfl) fun _ => onCipher_blind _) fun _ => onCipher_blind _
  refine .bind htry.attempt fun result => .bind (.modify ?_) fun _ => .bind (.ofExcept result) fun block => ?_
  · rintro e _ ⟨log, rfl⟩
    exact ⟨log, rfl⟩
  · split
    · exact .pure ()
    · exact .fail _

private theorem inspect_blind : Action.Blind SameButLog (inspect slot : Op n k Header) := by
  refine .bind headerOf_blind fun header => .bind layout_blind fun layout => ?_
  have hcompare : Action.Blind SameButLog (do
      let computed ← digestPart slot header.seed layout.bodyStart layout.bodyLength
      let stored ← read slot layout.digestStart computed.length
      if sameBytes computed stored then return header else Action.fail .digestMismatch : Op n k Header) := by
    refine .bind digestPart_blind fun computed => .bind (onStorage_blind _) fun stored => ?_
    split
    · exact .pure header
    · exact .fail _
  split
  · exact .bind checkKey_blind fun _ => hcompare
  · exact hcompare

/-- What examining a slot comes to does not hang on the log. -/
theorem examine_blind : Action.Blind SameButLog (examine slot : Op n k Header) := by
  refine .bind note_blind fun _ => .bind inspect_blind.attempt fun answer => ?_
  cases answer with
  | ok header => exact .bind note_blind fun _ => .pure header
  | error cause => exact .bind note_blind fun _ => .fail cause

/-! ### Nothing is written -/

/-- No device has been asked to write or to erase, and every byte is as it was. -/
structure Untouched (e e' : Engine n k) : Prop where
  unasked : e.storage.Unasked e'.storage
  same : ∀ p, e'.storage.valueAt p = e.storage.valueAt p

private theorem Untouched.refl (e : Engine n k) : e.Untouched e := ⟨.of_devices rfl, fun _ => rfl⟩

private theorem Untouched.givenUp (h : e.Untouched e') (log : Log) : e.Untouched (e'.givenUp log) :=
  ⟨h.unasked.trans (.of_devices rfl), fun p => ((still_givenUp e' log).storage.same p id).trans (h.same p)⟩

/-- Examining a slot does not touch anything. -/
theorem InService.examine_untouched (he : e.InService) (slot : SlotId) :
    (examine slot).Ends e (fun _ e' => e.Untouched e') (fun _ e' => e.Untouched e') e.storage.AtTop := by
  have hexamine : Action.Preserves (Maintained e e.storage.Looked) True (examine slot : Op n k Header) :=
    (looking he.inOrder.sound.toFits.looked_upkeep).examine
  have hlooked := hexamine e ((Still.refl e).toChanges.maintained ⟨.of_devices rfl, rfl⟩)
  refine ((he.examine_ends slot).and hlooked).imp ?_ ?_ And.left
  · exact fun _ e' hended => ⟨hended.2.storage.toUnasked, fun p => hended.1.1.storage.same p id⟩
  · exact fun _ e' hended => ⟨hended.2.storage.toUnasked, fun p => hended.1.1.storage.same p id⟩

/-- The installation fails for this reason and leaves everything as it was. -/
def Refuses (e : Engine n k) (source : SlotId) (cause : Error) : Prop :=
  ∃ e', install source e = .error (.error cause) e' ∧ e.Untouched e'

private theorem refuses_of_replace (hrole : e.application? = .ok application) (hne : source ≠ application)
    (h : ∀ log, (replace source application).Ends { e with log } (fun _ _ => False)
      (fun found e' => found = cause ∧ e.Untouched e') False) : e.Refuses source cause := by
  have hends := (install_of_replace hrole hne h).imp (fun _ _ hended => hended.elim fun _ hno => hno.1)
    (fun _ _ hended => hended) id
  obtain ⟨found, _, hinstall, e', log, ⟨rfl, hsame⟩, rfl⟩ := hends.exists_error
  exact ⟨_, hinstall, hsame.givenUp log⟩

private theorem refuses_of_rejected (he : e.InService) (hrole : e.application? = .ok application)
    (hl : e.storage.lookup? application = .ok (memory, entry)) (hne : source ≠ application)
    (hexamined : examine source e = .error (.error cause) e') : e.Refuses source cause := by
  have hsame := (he.examine_untouched source).failed_of_error hexamined
  refine refuses_of_replace hrole hne fun log => ?_
  obtain ⟨_, hlogged, log', rfl⟩ := examine_blind.error ⟨log, rfl⟩ hexamined
  have hexamine : (examine source).Ends { e with log } (fun _ _ => False)
      (fun found e₁ => found = cause ∧ e.Untouched e₁) False := by
    simp only [Action.Ends]
    rw [hlogged]
    exact ⟨rfl, hsame.unasked, hsame.same⟩
  exact ((he.of_changes (still_log e log).toChanges).replace_of_misfit hl hexamine fun _ _ hno => hno.elim).imp
    (fun _ _ hno => hno) (fun _ _ hended => hended.resolve_right fun hbig => hbig.2.elim fun _ hno => hno) id

private theorem refuses_of_big (he : e.InService) (hrole : e.application? = .ok application)
    (hl : e.storage.lookup? application = .ok (memory, entry)) (hne : source ≠ application)
    (hexamined : examine source e = .ok header e') (hbig : entry.size < e.needed header) :
    e.Refuses source .invalidLength := by
  have hsame := (he.examine_untouched source).done_of_ok hexamined
  refine refuses_of_replace hrole hne fun log => ?_
  obtain ⟨_, hlogged, log', rfl⟩ := examine_blind.ok ⟨log, rfl⟩ hexamined
  have hexamine : (examine source).Ends { e with log } (fun found e₁ => found = header ∧ e.Untouched e₁)
      (fun _ _ => False) False := by
    simp only [Action.Ends]
    rw [hlogged]
    exact ⟨rfl, hsame.unasked, hsame.same⟩
  refine ((he.of_changes (still_log e log).toChanges).replace_of_misfit hl hexamine fun found _ hended => ?_).imp
    (fun _ _ hno => hno) (fun _ _ hended => ?_) id
  · rw [hended.1]
    exact hbig
  · obtain ⟨hcause, found, -, hsame'⟩ := hended.resolve_left id
    exact ⟨hcause, hsame'⟩

/-- The image in the application slot is not installed over itself. An image that is rejected when it is examined is
not installed for the same reason, and one that is valid but does not fit is not installed because of its length. No
device is asked to write or to erase then and no byte changes, whichever of the calls fail. -/
theorem install_refuses (he : e.InService) (hrole : e.application? = .ok application)
    (hl : e.storage.lookup? application = .ok (memory, entry)) (source : SlotId) :
    (source = application → e.Refuses source .invalidParameters) ∧
      (source ≠ application → ∀ cause e', examine source e = .error (.error cause) e' → e.Refuses source cause) ∧
      (source ≠ application → ∀ header e', examine source e = .ok header e' →
        entry.size < e.backend.headerLength + header.size.toNat + e.backend.digestLength →
        e.Refuses source .invalidLength) := by
  refine ⟨?_, ?_, ?_⟩
  · rintro rfl
    refine ⟨e, ?_, .refl e⟩
    simp only [install, Action.bind_apply, Action.get_apply, hrole, Action.ofExcept, Action.pure_apply, if_true,
      Action.fail_apply]
  · exact fun hne cause e' hexamined => refuses_of_rejected he hrole hl hne hexamined
  · exact fun hne header e' hexamined hbig => refuses_of_big he hrole hl hne hexamined hbig

-- The slot for updates is twice as long as that of the application.
private def widePlan : Plan :=
  { memories := [⟨.primary, .flash, [⟨.flash 0, 64⟩, ⟨.flash 64, 128⟩], by decide⟩]
    memories_le := by decide
    tuning := { chunk := 16 } }

private def wideGeometry : Geometry := (Geometry.ofSizes? 0 192 64 8).getD Sample.geometry

-- The update does not fit the application slot, and some calls to read may fail.
private def wideBoard (outages : List Outage) : Storage 1 0 :=
  { devices :=
      { flashes := #v[
          { device := Sample.preset (.blank wideGeometry) 64 (Sample.image 2 [0, 16]), schedule := .ofOutages outages }]
        stores := .emptyWithCapacity 0 } }

-- The memory of that plan as it is registered.
private def wideMemory : Memory 1 0 :=
  ⟨.primary, Sample.device, [⟨⟨.flash 0, 64⟩, .theApplication, 0⟩,
    ⟨⟨.flash 64, 128⟩, { update := true, backup := true }, 0⟩]⟩

private theorem lookup?_wide {s : Storage 1 0} (h : s.memories = [wideMemory]) :
    s.lookup? ⟨0, 0⟩ = .ok (wideMemory, ⟨⟨.flash 0, 64⟩, .theApplication, 0⟩) := by
  simp [Storage.lookup?, h, wideMemory]

/-- An update that is too long is refused for its length, and because of the device if that cannot be read. -/
theorem sample_install_refuses : ∃ e e' : Engine 1 0,
    e.Refuses ⟨0, 0⟩ .invalidParameters ∧ e.Refuses ⟨0, 1⟩ .invalidLength ∧ e'.Refuses ⟨0, 1⟩ .driverFailure := by
  have hcheck : ((bringUp widePlan Sample.device none {}).passes (wideBoard []) fun e _ =>
      (examine ⟨0, 1⟩).passes e fun header _ => decide (e.storage.find? .theApplication = some ⟨0, 0⟩ ∧
        64 < e.backend.headerLength + header.size.toNat + e.backend.digestLength ∧
        e.storage.memories = [wideMemory])) = true := by
    decide +kernel
  have hfaulty : ((bringUp widePlan Sample.device none {}).passes (wideBoard [⟨.read, 1, .readFailed⟩]) fun e _ =>
      (examine ⟨0, 1⟩).failsWith e fun cause _ => decide (cause = .driverFailure ∧
        e.storage.find? .theApplication = some ⟨0, 0⟩ ∧ e.storage.memories = [wideMemory])) = true := by
    decide +kernel
  obtain ⟨e, after, hup, hcheck⟩ := Action.exists_of_passes hcheck
  obtain ⟨header, e₁, hexamined, hchecked⟩ := Action.exists_of_passes hcheck
  obtain ⟨hfind, hbig, hmemories⟩ := of_decide_eq_true hchecked
  obtain ⟨e', after', hup', hfaulty⟩ := Action.exists_of_passes hfaulty
  obtain ⟨cause, e₁', hrejected, hchecked'⟩ := Action.exists_of_failsWith hfaulty
  obtain ⟨rfl, hfind', hmemories'⟩ := of_decide_eq_true hchecked'
  have he := ((bringUp_ends (by simp)).done_of_ok hup).1
  have he' := ((bringUp_ends (by simp)).done_of_ok hup').1
  have hrefuses := install_refuses he (by rw [application?, hfind]) (lookup?_wide hmemories)
  have hrefuses' := install_refuses he' (by rw [application?, hfind']) (lookup?_wide hmemories')
  exact ⟨e, e', (hrefuses ⟨0, 0⟩).1 rfl, (hrefuses ⟨0, 1⟩).2.2 (by decide) header e₁ hexamined hbig,
    (hrefuses' ⟨0, 1⟩).2.1 (by decide) _ e₁' hrejected⟩

end FirmwareUpdate.Engine
