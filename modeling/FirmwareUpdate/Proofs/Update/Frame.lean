import FirmwareUpdate.Proofs.Storage.Frame
import FirmwareUpdate.Proofs.Update.Engine
import FirmwareUpdate.Update.Choice
import FirmwareUpdate.Update.Install

/-! Whatever an engine is asked to do, and however that ends, it keeps its plan and its storage stays in
order. The slots it writes to are those of the application and of the backup. -/
namespace FirmwareUpdate.Engine
variable {n k : Nat} {ε α : Type} {e₀ e e' : Engine n k} {J : Storage n k → Prop} {T : SlotId → Prop}
  {trapped : Prop} {slot source target : SlotId} {offset length : Nat}

/-- The engine is made of the same parts as `e₀`, and its storage is in the condition `J`. -/
structure Maintained (e₀ : Engine n k) (J : Storage n k → Prop) (e : Engine n k) : Prop where
  storage : J e.storage
  policy : e.policy = e₀.policy
  tuning : e.tuning = e₀.tuning
  key : e.key = e₀.key
  backend : e.backend = e₀.backend

/-- Whatever has changed in the storage, an engine is made of the same parts. -/
theorem Changes.maintained {P : Place n k → Prop} (h : Changes P e₀ e) (hJ : J e.storage) : Maintained e₀ J e :=
  ⟨hJ, h.policy, h.tuning, h.key, h.backend⟩

/-- A condition of the storage that the engine keeps, in which the slots in `T` may be written to. -/
structure Upkeep (e₀ : Engine n k) (J : Storage n k → Prop) (T : SlotId → Prop) (trapped : Prop) : Prop
    extends Storage.Upkeep e₀.storage J T trapped where
  onApplication : ∀ slot, e₀.application? = .ok slot → T slot
  onBackup : ∀ slot, e₀.backup? = some slot → T slot

/-- What the storage keeps is kept by the engine that makes it do so. -/
theorem onStorage_preserves {act : Action (Storage n k) ε α} (h : Action.Preserves J trapped act) :
    Action.Preserves (Maintained e₀ J) trapped (onStorage act) :=
  h.focus (fun _ he => he.storage) fun _ _ he hs => ⟨hs, he.policy, he.tuning, he.key, he.backend⟩

/-- A note in the log affects no condition on the storage. -/
theorem note_preserves {level : Severity} {tag text : String} :
    Action.Preserves (Maintained e₀ J) trapped (note level tag text : Action (Engine n k) ε Unit) :=
  .modify fun _ he => ⟨he.storage, he.policy, he.tuning, he.key, he.backend⟩

/-- Unloading the key affects no condition on the storage. -/
theorem unloadKey_preserves : Action.Preserves (Maintained e₀ J) trapped (unloadKey : Action (Engine n k) ε Unit) :=
  .modify fun _ he => ⟨he.storage, he.policy, he.tuning, he.key, he.backend⟩

private theorem onCipher_preserves {act : Action Cbc.Cipher CipherError α}
    (h : Action.Preserves (fun _ => True) trapped act) :
    Action.Preserves (Maintained e₀ J) trapped (onCipher act : Op n k α) :=
  .mapError (h.focus (fun _ _ => trivial) fun _ _ he _ => ⟨he.storage, he.policy, he.tuning, he.key, he.backend⟩)

private theorem loadKey_preserves {iv : Bytes} :
    Action.Preserves (Maintained e₀ J) trapped (loadKey iv : Op n k Unit) := by
  refine .get_bind fun e _ => onCipher_preserves ?_
  exact .bind (.ofExcept _) fun _ => .modify fun _ _ => trivial

private theorem decrypt_preserves {data : Bytes} :
    Action.Preserves (Maintained e₀ J) trapped (decrypt data : Op n k Bytes) := by
  have hstream : Action.Preserves (fun _ => True) trapped (Cbc.Stream.decrypt data) := by
    simp only [Cbc.Stream.decrypt, Cbc.Stream.process]
    split
    · exact .get_bind fun _ _ => .bind (.modify fun _ _ => trivial) fun _ => .pure _
    · exact .fail _
  refine onCipher_preserves ?_
  simp only [Cbc.Cipher.decrypt]
  split
  · refine .get_bind fun cipher _ => ?_
    split
    · exact .fail _
    · exact hstream.focus (fun _ _ => trivial) fun _ _ _ _ => trivial
  · exact .fail _

/-! ### Looking -/

/-- A condition that the engine keeps while it looks at images. The log does not matter to it, and reads and the check
of the key keep it. -/
structure Looking (I : Engine n k → Prop) (trapped : Prop) : Prop where
  log : ∀ e log, I e → I { e with log }
  read : ∀ slot offset length, Action.Preserves I trapped (read slot offset length : Op n k Bytes)
  checkKey : ∀ slot layout, Action.Preserves I trapped (checkKey slot layout : Op n k Unit)

private theorem layout_preserves {I : Engine n k → Prop} {header : Header} :
    Action.Preserves I trapped (layout slot header : Op n k Layout) :=
  .get_bind fun _ _ => .ofExcept _

namespace Looking
variable {I : Engine n k → Prop} (h : Looking I trapped)
include h

/-- A note in the log affects nothing that is being looked at. -/
theorem note {level : Severity} {tag text : String} :
    Action.Preserves I trapped (note level tag text : Action (Engine n k) ε Unit) :=
  .modify fun e he => h.log e _ he

/-- Reading a header is looking. -/
theorem headerOf : Action.Preserves I trapped (headerOf slot : Op n k Header) :=
  .get_bind fun _ _ => .bind (h.read _ _ _) fun _ => .ofExcept _

private theorem hashSpans (spans : List Span) (hasher : Hasher) :
    Action.Preserves I trapped (hashSpans slot offset spans hasher : Op n k Hasher) := by
  induction spans generalizing hasher with
  | nil => exact .pure hasher
  | cons span rest ih => exact .bind (h.read _ _ _) fun data => ih (hasher.update data)

private theorem digestPart {seed : Bytes} :
    Action.Preserves I trapped (digestPart slot seed offset length : Op n k Bytes) :=
  .get_bind fun _ _ => .bind (h.hashSpans _ _) fun _ => .pure _

private theorem inspect : Action.Preserves I trapped (inspect slot : Op n k Header) := by
  refine .bind h.headerOf fun header => .bind layout_preserves fun layout => ?_
  have hcompare : Action.Preserves I trapped (do
      let computed ← Engine.digestPart slot header.seed layout.bodyStart layout.bodyLength
      let stored ← Engine.read slot layout.digestStart computed.length
      if sameBytes computed stored then return header else Action.fail .digestMismatch : Op n k Header) := by
    refine .bind h.digestPart fun computed => .bind (h.read _ _ _) fun stored => ?_
    split
    · exact .pure header
    · exact .fail _
  split
  · exact .bind (h.checkKey _ _) fun _ => hcompare
  · exact hcompare

/-- Examining an image is looking. -/
theorem examine : Action.Preserves I trapped (examine slot : Op n k Header) := by
  refine .bind h.note fun _ => .bind h.inspect.attempt fun answer => ?_
  cases answer with
  | ok header => exact .bind h.note fun _ => .pure header
  | error cause => exact .bind h.note fun _ => .fail cause

private theorem chooseFrom (slots : List SlotId) (best : Header) (choice : Choice) :
    Action.Preserves I trapped (chooseFrom slots best choice : Op n k Choice) := by
  induction slots generalizing best choice with
  | nil => exact .pure choice
  | cons slot rest ih =>
    refine .bind h.headerOf.attempt fun answer => ?_
    cases answer with
    | error cause => exact .bind h.note fun _ => ih best choice
    | ok header =>
      refine .get_bind fun e _ => ?_
      split
      · exact .bind h.note fun _ => ih header _
      · exact .bind h.note fun _ => ih best choice

/-- Choosing an image is looking. -/
theorem choose : Action.Preserves I trapped (choose : Op n k Choice) := by
  refine .get_bind fun e _ => .bind (.ofExcept _) fun current => .bind h.headerOf.attempt fun answer => ?_
  cases answer with
  | error cause => exact .bind h.note fun _ => .fail cause
  | ok header => exact .get_bind fun e _ => h.chooseFrom _ _ _

end Looking

/-- Reading keeps what the storage is kept in. -/
theorem read_preserves (h : Storage.Upkeep e₀.storage J T trapped) :
    Action.Preserves (Maintained e₀ J) trapped (read slot offset length : Op n k Bytes) :=
  onStorage_preserves (h.read slot offset length)

/-- Where the storage is kept up, its engine is looking. -/
theorem looking (h : Storage.Upkeep e₀.storage J T trapped) : Looking (Maintained e₀ J) trapped where
  log _ _ he := ⟨he.storage, he.policy, he.tuning, he.key, he.backend⟩
  read _ _ _ := read_preserves h
  checkKey _ _ := by
    refine .bind (read_preserves h) fun iv => .bind (read_preserves h) fun coded => ?_
    refine .bind (Action.Preserves.bind loadKey_preserves fun _ => decrypt_preserves).attempt fun result => ?_
    refine .bind unloadKey_preserves fun _ => .bind (.ofExcept result) fun block => ?_
    split
    · exact .pure ()
    · exact .fail _

/-! ### Installing -/

namespace Upkeep

private theorem application? (h : Upkeep e₀ J T trapped) (he : Maintained e₀ J e) :
    e.application? = e₀.application? := by
  simp only [Engine.application?, Storage.find?]
  rw [h.slots he.storage]

private theorem backup? (h : Upkeep e₀ J T trapped) (he : Maintained e₀ J e) : e.backup? = e₀.backup? := by
  simp only [Engine.backup?]
  rw [h.slots he.storage, he.policy]

/-- Writing to a slot that may be written to keeps what the storage is kept in. -/
theorem write_preserves {data : Bytes} {mode : Storage.WriteMode} (h : Upkeep e₀ J T trapped) (hT : T slot) :
    Action.Preserves (Maintained e₀ J) trapped (write slot offset data mode : Op n k Unit) :=
  onStorage_preserves (h.write slot offset data mode hT)

private theorem backUp (h : Upkeep e₀ J T trapped) :
    Action.Preserves (Maintained e₀ J) trapped (backUp target source : Op n k Unit) := by
  refine .get_bind fun e he => ?_
  split
  · exact .pure ()
  · rename_i backup hbackup
    have hT : T backup := h.onBackup backup ((h.backup? he).symm.trans hbackup)
    refine .get_bind fun e _ => ?_
    split
    · exact note_preserves
    · refine .bind (looking h.toUpkeep).examine.attempt fun answer => ?_
      cases answer with
      | error cause => exact note_preserves
      | ok header =>
        refine .bind layout_preserves fun layout => .get_bind fun e _ => .bind (.ofExcept _) fun entry => ?_
        split
        · exact note_preserves
        · refine .bind (onStorage_preserves (h.erase backup _ _ hT)) fun _ => ?_
          exact .bind (onStorage_preserves (h.copy hT)) fun _ => note_preserves

private theorem streamSpans {layout : Layout} (h : Upkeep e₀ J T trapped) (hT : T target) (spans : List Span)
    (hasher : Hasher) :
    Action.Preserves (Maintained e₀ J) trapped (streamSpans source target layout spans hasher : Op n k Hasher) := by
  induction spans generalizing hasher with
  | nil => exact .pure hasher
  | cons span rest ih =>
    refine .bind (read_preserves h.toUpkeep) fun stored => ?_
    have hrest : ∀ data, Action.Preserves (Maintained e₀ J) trapped (do
        Engine.write target (layout.bodyStart + span.start) data .buffered
        Engine.streamSpans source target layout rest (hasher.update data) : Op n k Hasher) :=
      fun data => .bind (h.write_preserves hT) fun _ => ih (hasher.update data)
    split
    · exact .bind decrypt_preserves hrest
    · exact .bind (.pure stored) hrest

private theorem openPayload {layout : Layout} (h : Upkeep e₀ J T trapped) :
    Action.Preserves (Maintained e₀ J) trapped (openPayload source layout : Op n k Unit) := by
  simp only [Engine.openPayload]
  split
  · refine .bind (read_preserves h.toUpkeep) fun iv => .bind (read_preserves h.toUpkeep) fun coded => ?_
    exact .bind loadKey_preserves fun _ => .bind decrypt_preserves fun _ => .pure ()
  · exact .pure ()

private theorem replace (h : Upkeep e₀ J T trapped) (hT : T target) :
    Action.Preserves (Maintained e₀ J) trapped (replace source target : Op n k Unit) := by
  refine .bind (looking h.toUpkeep).examine fun header => .bind layout_preserves fun layout => ?_
  refine .get_bind fun e _ => .bind (.ofExcept _) fun entry => ?_
  have hoverwrite : Action.Preserves (Maintained e₀ J) trapped (do
      onStorage (Storage.erase target 0 (e.backend.headerLength + header.size.toNat + e.backend.digestLength))
      let raw ← Engine.read source 0 e.backend.headerLength
      Engine.write target 0 raw .buffered
      Engine.openPayload source layout
      let hasher ← Engine.streamSpans source target layout (spans e.chunk header.size.toNat)
        ((Hasher.start e.backend.algorithm).update header.seed)
      Engine.write target (e.backend.headerLength + header.size.toNat) hasher.value .force
      note .info "transfer" (target.label ++ " installed from " ++ source.label ++ ": index " ++
        Text.decimal header.index.toNat ++ " (" ++ Text.decimal header.size.toNat ++ " bytes)") : Op n k Unit) := by
    refine .bind (onStorage_preserves (h.erase target _ _ hT)) fun _ => ?_
    refine .bind (read_preserves h.toUpkeep) fun raw => .bind (h.write_preserves hT) fun _ => ?_
    refine .bind h.openPayload fun _ => .bind (h.streamSpans hT _ _) fun hasher => ?_
    exact .bind (h.write_preserves hT) fun _ => note_preserves
  split
  · exact .fail _
  · split
    · exact .bind h.backUp fun _ => hoverwrite
    · exact hoverwrite

/-- Where the storage is kept up, installing keeps up the engine. -/
theorem install (h : Upkeep e₀ J T trapped) :
    Action.Preserves (Maintained e₀ J) trapped (install source : Op n k Unit) := by
  refine .get_bind fun e he => .ofExcept_bind fun target htarget => ?_
  have hT : T target := h.onApplication target ((h.application? he).symm.trans htarget)
  split
  · exact .fail _
  · refine .bind note_preserves fun _ => .bind (h.replace hT).attempt fun answer => ?_
    refine .bind unloadKey_preserves fun _ => ?_
    cases answer with
    | ok => exact .pure ()
    | error cause =>
      refine .bind (onStorage_preserves h.dropPending) fun _ => ?_
      exact .bind note_preserves fun _ => .fail cause

end Upkeep

/-! ### In order -/

/-- An engine whose storage is in order and tidy keeps it so, and keeps all that it was made with. -/
def Stays (e e' : Engine n k) : Prop :=
  e.storage.InOrder → e.storage.Tidy → Changes (fun _ => True) e e' ∧ e'.storage.Tidy

/-- Staying in order can be put together. -/
theorem stays_closed : Action.Closed (Stays (n := n) (k := k)) := by
  refine ⟨fun e _ htidy => ⟨Changes.refl _ e, htidy⟩, ?_⟩
  intro e e' e'' h h' he htidy
  obtain ⟨hchanges, htidy'⟩ := h he htidy
  obtain ⟨hchanges', htidy''⟩ := h' (hchanges.inOrder he) htidy'
  exact ⟨hchanges.trans hchanges', htidy''⟩

/-- An engine that is still has a tidy storage if it had one. -/
theorem Still.tidy (h : e.Still e') (htidy : e.storage.Tidy) : e'.storage.Tidy :=
  h.buffer.elim (htidy.of_buffer h.storage.setup) Or.inl

/-- An engine that is still stays in order. -/
theorem Still.stays (h : e.Still e') : e.Stays e' := fun _ htidy => ⟨h.changes, h.tidy htidy⟩

/-- An engine that is kept in order has changed only inside the slots it may write to. -/
theorem Maintained.changes (h : Maintained e (Storage.Orderly T e.storage) e') :
    Changes (e.storage.inside T) e e' :=
  ⟨h.storage.changes, h.policy, h.tuning, h.key, h.backend⟩

private theorem along_stays {act : Op n k α} (h : ∀ e : Engine n k, e.storage.InOrder →
    Action.Preserves (Maintained e (Storage.Orderly (fun _ => True) e.storage)) True act) :
    Action.Along Stays act := by
  intro e
  by_cases he : e.storage.InOrder ∧ e.storage.Tidy
  · have hstart : Maintained e (Storage.Orderly (fun _ => True) e.storage) e :=
      (Still.refl e).toChanges.maintained ⟨Storage.Confined.refl _ _, he.2⟩
    have hstays : ∀ e', Maintained e (Storage.Orderly (fun _ => True) e.storage) e' → e.Stays e' :=
      fun e' h _ _ => ⟨h.changes.mono fun _ _ => trivial, h.storage.tidy⟩
    exact (h e he.1 e hstart).imp (fun _ e' ht => hstays e' ht) (fun _ e' ht => hstays e' ht) id
  · exact Action.ends_of_all (fun _ _ hs htidy => (he ⟨hs, htidy⟩).elim)
      (fun _ _ hs htidy => (he ⟨hs, htidy⟩).elim) trivial

private theorem upkeep_all (he : e.storage.InOrder) :
    Upkeep e (Storage.Orderly (fun _ => True) e.storage) (fun _ => True) e.storage.AtTop :=
  ⟨Storage.orderly_upkeep he _, fun _ _ => trivial, fun _ _ => trivial⟩

/-- Writing keeps the engine in order. -/
theorem write_stays {data : Bytes} {mode : Storage.WriteMode} :
    Action.Along Stays (write slot offset data mode : Op n k Unit) :=
  along_stays fun _ he _ h => ((upkeep_all he).write_preserves trivial _ h).imp (fun _ _ h => h) (fun _ _ h => h)
    fun _ => trivial

/-- Installing keeps the engine in order. -/
theorem install_stays : Action.Along Stays (install source : Op n k Unit) :=
  along_stays fun _ he _ h => ((upkeep_all he).install _ h).imp (fun _ _ h => h) (fun _ _ h => h) fun _ => trivial

end FirmwareUpdate.Engine
