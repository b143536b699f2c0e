import FirmwareUpdate.Proofs.Image.Header
import FirmwareUpdate.Proofs.Update.Validity

/-! An image with a checksum for a digest does not stand a change of up to four bytes in a row. Two checksums
see to that: the one at the end of the header, and the digest, which takes that checksum in as its seed, so that
every byte of the image is under one of them. -/
namespace FirmwareUpdate

namespace Backend
variable {key : Key} {encrypted : Bool} {bytes bytes' : Bytes} {h : Header}

/-- Bytes of an image with a checksum for a digest. -/
def checkedLength (encrypted : Bool) (h : Header) : Nat := (layoutOf {} encrypted h).totalLength

/-- At least one byte of an image of this length is altered, and at most four in a row. -/
structure Altered (length : Nat) (data data' : Bytes) : Prop where
  window : ∃ start, Bytes.AgreeOutside start 4 data data'
  inside : Bytes.AgreeOutside 0 length data data'
  differ : data' ≠ data

/-- From the checksum of the header on, an image ends in the checksum of what comes before. -/
theorem Accepts.sealed (ha : Accepts {} key encrypted bytes h) :
    Crc32.Sealed (Bytes.slice bytes Header.coveredSize (checkedLength encrypted h - Header.coveredSize)) := by
  have hseed : h.seed = Bytes.slice bytes Header.coveredSize 4 :=
    (Header.seed_of_decode ha.decodes).1.trans (Bytes.slice_take (Nat.le_refl _))
  have hdigest : Bytes.slice bytes (Header.encodedSize + h.bodyLength encrypted) 4 =
      Bytes.ofWord (Crc32.checksum (h.seed ++ Bytes.slice bytes Header.encodedSize (h.bodyLength encrypted))) :=
    ha.digest
  have hlength : checkedLength encrypted h - Header.coveredSize = 4 + h.bodyLength encrypted + 4 := by
    show Header.encodedSize + h.bodyLength encrypted + 4 - Header.coveredSize = _
    simp only [Header.encodedSize, Header.coveredSize]
    omega
  refine ⟨h.seed ++ Bytes.slice bytes Header.encodedSize (h.bodyLength encrypted), ?_⟩
  rw [← hdigest, hseed, hlength, ← Bytes.slice_append, ← Bytes.slice_append, ← Nat.add_assoc]
  rfl

private theorem eq_of_parts (hhead : bytes'.take Header.encodedSize = bytes.take Header.encodedSize)
    {length : Nat} (hrest : Bytes.slice bytes' Header.coveredSize (length - Header.coveredSize) =
      Bytes.slice bytes Header.coveredSize (length - Header.coveredSize))
    (hinside : Bytes.AgreeOutside 0 length bytes bytes') : bytes' = bytes := by
  -- The two checksums overlap and leave no byte of the image out.
  apply List.ext_getElem?
  intro i
  by_cases hi : i < Header.encodedSize
  · have hget := congrArg (·[i]?) hhead
    simpa only [List.getElem?_take, if_pos hi] using hget
  · by_cases hin : i < length
    · have hcovered : Header.coveredSize ≤ Header.encodedSize := by decide
      exact Bytes.getElem?_of_slice hrest (by omega) (by omega)
    · exact hinside i (by omega)

/-- What is found wrong with an image that has been altered. -/
theorem Accepts.assess_altered (ha : Accepts {} key encrypted bytes h) (hlength : bytes'.length = bytes.length)
    (haltered : Altered (checkedLength encrypted h) bytes bytes') :
    ∃ cause, assess {} key encrypted bytes' = .error cause ∧
      (bytes'.take Header.encodedSize ≠ bytes.take Header.encodedSize → cause = .headerInvalid) ∧
      (bytes'.take Header.encodedSize = bytes.take Header.encodedSize →
        cause = .digestMismatch ∨ encrypted = true ∧ cause = .wrongKey) := by
  obtain ⟨start, hwindow⟩ := haltered.window
  have hcomplete : Header.encodedSize ≤ bytes.length := ha.complete
  by_cases hsame : bytes'.take Header.encodedSize = bytes.take Header.encodedSize
  · have hheads : Heads {} bytes' h := ⟨hlength ▸ ha.complete, hsame ▸ ha.decodes⟩
    have hdigest : ¬Accepts {} key encrypted bytes' h := by
      intro ha'
      refine haltered.differ (eq_of_parts hsame ?_ haltered.inside)
      refine ha.sealed.eq_of_burst ha'.sealed ?_ (hwindow.sliced _ _)
      rw [Bytes.length_slice, Bytes.length_slice, hlength]
    rw [assess_of_heads hheads, judge, if_neg fun hodd => hodd.2 (ha.wholeBlocks hodd.1),
      if_neg (Nat.not_lt.mpr (hlength ▸ ha.fits))]
    split
    · rename_i hlocked
      exact ⟨_, rfl, fun hne => (hne hsame).elim, fun _ => Or.inr ⟨hlocked.1, rfl⟩⟩
    rename_i hkey
    split
    · exact ⟨_, rfl, fun hne => (hne hsame).elim, fun _ => Or.inl rfl⟩
    rename_i hholds
    refine (hdigest ⟨hheads, ha.wholeBlocks, hlength ▸ ha.fits, ?_, Decidable.not_not.mp hholds⟩).elim
    exact fun hencrypted => Decidable.not_not.mp fun hne => hkey ⟨hencrypted, hne⟩
  · rw [assess, if_neg (Nat.not_lt.mpr (hlength ▸ ha.complete))]
    cases hdecode : Header.decode (bytes'.take (Backend.headerLength {})) with
    | error cause =>
      exact ⟨cause, rfl, fun _ => Header.decode_error hdecode, fun heq => (hsame heq).elim⟩
    | ok found =>
      have hsealed : Crc32.Sealed ((bytes.take Header.encodedSize).take Header.encodedSize) :=
        Header.sealed_of_decode ha.decodes
      have hsealed' : Crc32.Sealed ((bytes'.take Header.encodedSize).take Header.encodedSize) :=
        Header.sealed_of_decode hdecode
      rw [List.take_take, Nat.min_self] at hsealed hsealed'
      refine (hsame (hsealed.eq_of_burst hsealed' ?_ (hwindow.sliced 0 _))).elim
      rw [List.length_take, List.length_take, hlength]

end Backend

namespace Engine
variable {n k : Nat} {e e₁ e' : Engine n k} {slot : SlotId} {header : Header} {memory : Memory n k} {entry : Slot}
  {P : Place n k → Prop}

/-- An image that has been accepted is refused once one byte of it has changed, or up to four in a row: for its
header if the header has changed, and otherwise for the digest, unless the key already turns out wrong. -/
theorem examine_detects_change (he : e.InService) (hbackend : e.backend = {})
    (hl : e.storage.lookup? slot = .ok (memory, entry)) (hexamined : examine slot e = .ok header e₁)
    (hchanges : Changes P e₁ e')
    (haltered : Backend.Altered (Backend.checkedLength (e.holdsEncrypted slot) header)
      (e.storage.held memory entry) (e'.storage.held memory entry)) :
    (examine slot).Ends e' (fun _ _ => False)
      (fun cause e'' => e'.Faulted e'' ∨
        if (e'.storage.held memory entry).take Header.encodedSize =
          (e.storage.held memory entry).take Header.encodedSize
        then cause = .digestMismatch ∨ e.holdsEncrypted slot = true ∧ cause = .wrongKey
        else cause = .headerInvalid) False := by
  obtain ⟨hstill, hverdict⟩ := (he.shows hl).examine_verdict.done_of_ok hexamined
  have haccepts : Backend.Accepts {} e.key (e.holdsEncrypted slot) (e.storage.held memory entry) header := by
    have hok := Backend.assess_ok_iff.mp hverdict
    rwa [viewOf, hbackend] at hok
  have hall : Changes P e e' := hstill.changes.trans hchanges
  have he' := he.of_changes hall
  have hl' := hall.storage.lookup? hl
  have hlength : (e'.storage.held memory entry).length = (e.storage.held memory entry).length := by
    rw [Storage.length_held he'.inOrder.sound hl', Storage.length_held he.inOrder.sound hl]
  obtain ⟨cause, hfound, hheader, hrest⟩ := haccepts.assess_altered hlength haltered
  have hverdict' : (e'.viewOf slot memory entry).verdict = .error cause := by
    simp only [View.verdict, viewOf]
    rw [hall.backend, hall.key, hall.holdsEncrypted, hbackend]
    exact hfound
  have hhonest : e'.backend.Honest := by
    rw [hall.backend, hbackend]
    exact Nat.le_refl _
  refine ((he'.shows hl').verdict_ends hhonest).imp ?_ ?_ id
  · intro found e'' hended
    rw [hverdict'] at hended
    cases hended.2
  · intro found e'' hended
    obtain ⟨-, hbroken | hsame⟩ := hended
    · exact Or.inl hbroken.faulted
    · rw [hverdict'] at hsame
      cases hsame
      refine Or.inr ?_
      split
      · exact hrest ‹_›
      · exact hheader ‹_›

/-- One byte of the payload of an update is overwritten after the update has been accepted. -/
theorem sample_examine_detects_change : ∃ (e e₁ e' : Engine 1 0) (header : Header),
    examine ⟨0, 1⟩ e = .ok header e₁ ∧
      (examine ⟨0, 1⟩).Ends e' (fun _ _ => False)
        (fun cause e'' => e'.Faulted e'' ∨ cause = .digestMismatch) False := by
  have hcheck : ((bringUp (Sample.plan 64) (.flash 0) none {}).passes
      (Sample.board [] (Sample.image 2 [16, 7]) []) fun e _ =>
        (examine ⟨0, 1⟩).passes e fun header e₁ =>
          (write ⟨0, 1⟩ 64 [0, 0, 0, 0, 7, 0, 0, 0] .force).passes e₁ fun _ e' =>
            let before := e.storage.held Sample.memory (Sample.slot 128 .anUpdate)
            let after := e'.storage.held Sample.memory (Sample.slot 128 .anUpdate)
            decide (Sample.Holds e.storage ∧ header.size = 8 ∧ e.holdsEncrypted ⟨0, 1⟩ = false ∧
              after = Bytes.splice before 64 [0] ∧ after ≠ before ∧
              after.take Header.encodedSize = before.take Header.encodedSize)) = true := by
    decide +kernel
  obtain ⟨e, bare, hup, hcheck⟩ := Action.exists_of_passes hcheck
  obtain ⟨header, e₁, hexamined, hcheck⟩ := Action.exists_of_passes hcheck
  obtain ⟨_, e', hwrite, hcheck⟩ := Action.exists_of_passes hcheck
  obtain ⟨hholds, hsize, hplain, hspliced, hdiffer, hsame⟩ := of_decide_eq_true hcheck
  obtain ⟨he, hempty, -, -, hbackend, -⟩ := (bringUp_ends (by simp)).done_of_ok hup
  obtain ⟨hstill, -⟩ := (he.examine_ends ⟨0, 1⟩).done_of_ok hexamined
  have hstays := (write_stays e₁).done_of_ok hwrite
  obtain ⟨hchanges, -⟩ := hstays (hstill.inOrder he.inOrder) (Or.inl (hstill.pending hempty))
  have hlength := Storage.length_held he.inOrder.sound hholds.lookup?.2.1
  have hwindow : Bytes.AgreeOutside 64 4 (e.storage.held Sample.memory (Sample.slot 128 .anUpdate))
      (e'.storage.held Sample.memory (Sample.slot 128 .anUpdate)) := by
    rw [hspliced]
    exact Bytes.agreeOutside_splice (by rw [hlength]; decide) (by decide)
  have hlong : Backend.checkedLength (e.holdsEncrypted ⟨0, 1⟩) header = 76 := by
    rw [hplain]
    show Header.encodedSize + header.size.toNat + 4 = 76
    rw [hsize]
    rfl
  refine ⟨e, e₁, e', header, hexamined, (examine_detects_change he hbackend hholds.lookup?.2.1 hexamined hchanges
    ⟨⟨64, hwindow⟩, ?_, hdiffer⟩).imp (fun _ _ h => h) ?_ id⟩
  · rw [hlong]
    exact (Bytes.AgreeOutside.refl 0 76 _).trans hwindow (by decide) (by decide)
  · intro cause e'' hended
    rw [if_pos hsame, hplain] at hended
    exact hended.imp id fun hcause => hcause.resolve_right fun hwrong => Bool.noConfusion hwrong.1

end Engine
end FirmwareUpdate
