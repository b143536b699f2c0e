import FirmwareUpdate.Proofs.Update.Validity
import FirmwareUpdate.Update.Choice

/-! Which image is chosen hangs on the headers in the slots and on nothing else, as long as no device is
at fault. A fault can only keep an image from being considered. -/
namespace FirmwareUpdate

/-- An image supersedes another by its index, and by its version as well where it may not go back. -/
theorem Header.supersedes_iff {candidate baseline : Header} {forwardOnly : Bool} :
    candidate.supersedes baseline forwardOnly = true ↔ baseline.index < candidate.index ∧
      (forwardOnly = true → candidate.version.newerThan baseline.version = true) := by
  cases forwardOnly <;> simp [supersedes]

/-- What supersedes what supersedes an image supersedes that image. -/
theorem Header.supersedes_trans {a b c : Header} {forwardOnly : Bool} (h : b.supersedes a forwardOnly = true)
    (h' : c.supersedes b forwardOnly = true) : c.supersedes a forwardOnly = true := by
  rw [supersedes_iff] at h h' ⊢
  refine ⟨UInt32.lt_trans h.1 h'.1, fun honly => ?_⟩
  have hfirst := of_decide_eq_true (h.2 honly)
  have hsecond := of_decide_eq_true (h'.2 honly)
  exact decide_eq_true (UInt32.lt_trans hfirst hsecond)

/-- No image supersedes itself. -/
theorem Header.not_supersedes_self {header : Header} {forwardOnly : Bool} :
    ¬header.supersedes header forwardOnly = true := fun h => UInt32.lt_irrefl _ (supersedes_iff.mp h).1

namespace Engine
variable {n k : Nat} {e e' : Engine n k} {slot application : SlotId} {header best : Header} {choice : Choice}

/-- The header that the slot starts with. -/
def headerAt? (e : Engine n k) (slot : SlotId) : Option Header :=
  match e.storage.lookup? slot with
  | .error _ => none
  | .ok (memory, entry) =>
    if e.backend.headerLength ≤ (e.storage.held memory entry).length then
      (Header.decode ((e.storage.held memory entry).take e.backend.headerLength)).toOption
    else none

/-- The newest of the images in these slots, and of the best one so far. -/
def newestFrom (e : Engine n k) : List SlotId → (best : Header) → Choice → Choice
  | [], _, choice => choice
  | slot :: rest, best, choice =>
    match e.headerAt? slot with
    | none => newestFrom e rest best choice
    | some header =>
      if header.supersedes best e.policy.forwardOnly then newestFrom e rest header (.update slot)
      else newestFrom e rest best choice

/-- What is to be chosen while this is the header of the running image. -/
def newest (e : Engine n k) (application : SlotId) (running : Header) : Choice :=
  e.newestFrom e.contenders running (.current application)

/-- What is chosen over the best image so far is newer. -/
theorem newestFrom_update {slots : List SlotId} (h : e.newestFrom slots best choice = .update slot) :
    choice = .update slot ∨ slot ∈ slots ∧
      ∃ header, e.headerAt? slot = some header ∧ header.supersedes best e.policy.forwardOnly = true := by
  induction slots generalizing best choice with
  | nil => exact Or.inl h
  | cons next rest ih =>
    unfold newestFrom at h
    split at h
    · exact (ih h).imp_right fun hfound => ⟨List.mem_cons_of_mem next hfound.1, hfound.2⟩
    · rename_i header hheader
      split at h
      · rename_i hnewer
        rcases ih h with hchosen | ⟨hmem, header', hheader', hlater⟩
        · cases hchosen
          exact Or.inr ⟨List.mem_cons_self, header, hheader, hnewer⟩
        · exact Or.inr ⟨List.mem_cons_of_mem next hmem, header', hheader', Header.supersedes_trans hnewer hlater⟩
      · exact (ih h).imp_right fun hfound => ⟨List.mem_cons_of_mem next hfound.1, hfound.2⟩

/-- The running image is kept only if nothing is newer. -/
theorem newestFrom_current {slots : List SlotId} (h : e.newestFrom slots best choice = .current slot) :
    choice = .current slot ∧ ∀ other ∈ slots, ∀ header, e.headerAt? other = some header →
      ¬header.supersedes best e.policy.forwardOnly = true := by
  induction slots generalizing best choice with
  | nil => exact ⟨h, fun _ hmem => (List.not_mem_nil hmem).elim⟩
  | cons next rest ih =>
    unfold newestFrom at h
    split at h
    · rename_i hnone
      refine ⟨(ih h).1, List.forall_mem_cons.mpr ⟨fun header hheader => ?_, (ih h).2⟩⟩
      rw [hnone] at hheader
      cases hheader
    · rename_i header hheader
      split at h
      · exact absurd (ih h).1 nofun
      · rename_i holder
        refine ⟨(ih h).1, List.forall_mem_cons.mpr ⟨fun found hfound => ?_, (ih h).2⟩⟩
        rw [hheader] at hfound
        cases hfound
        exact holder

/-- Nothing is newer than what is chosen over the best image so far, and neither is that. -/
theorem newestFrom_newest {slots : List SlotId} (h : e.newestFrom slots best choice = .update slot)
    (hheader : e.headerAt? slot = some header) (hchoice : choice = .update slot → header = best) :
    ¬best.supersedes header e.policy.forwardOnly = true ∧ ∀ other ∈ slots, ∀ found, e.headerAt? other = some found →
      ¬found.supersedes header e.policy.forwardOnly = true := by
  induction slots generalizing best choice with
  | nil =>
    obtain rfl := hchoice h
    exact ⟨Header.not_supersedes_self, fun _ hmem => (List.not_mem_nil hmem).elim⟩
  | cons next rest ih =>
    have hhere := newestFrom_update h
    unfold newestFrom at h
    split at h
    · rename_i hnone
      obtain ⟨hbest, hrest⟩ := ih h hchoice
      refine ⟨hbest, fun other hmem found hfound => ?_⟩
      rcases List.mem_cons.mp hmem with rfl | hmem
      · rw [hnone] at hfound
        cases hfound
      · exact hrest other hmem found hfound
    · rename_i header' hheader'
      split at h
      · rename_i hnewer
        obtain ⟨hbest, hrest⟩ := ih h fun hsame => by
          cases hsame
          exact Option.some.inj (hheader.symm.trans hheader')
        refine ⟨fun hold => hbest (Header.supersedes_trans hold hnewer), fun other hmem found hfound => ?_⟩
        rcases List.mem_cons.mp hmem with rfl | hmem
        · rw [hheader'] at hfound
          cases hfound
          exact hbest
        · exact hrest other hmem found hfound
      · rename_i holder
        obtain ⟨hbest, hrest⟩ := ih h hchoice
        refine ⟨hbest, fun other hmem found hfound => ?_⟩
        rcases List.mem_cons.mp hmem with rfl | hmem
        · rw [hheader'] at hfound
          cases hfound
          rcases hhere with hkept | ⟨-, chosen, hchosen, hnewer⟩
          · exact hchoice hkept ▸ holder
          · rw [hheader] at hchosen
            cases hchosen
            exact fun hlater => holder (Header.supersedes_trans hnewer hlater)
        · exact hrest other hmem found hfound

/-- Nothing is chosen over an image that nothing is newer than. -/
theorem newestFrom_eq {slots : List SlotId} (h : ∀ slot ∈ slots, ∀ header, e.headerAt? slot = some header →
    ¬header.supersedes best e.policy.forwardOnly = true) : e.newestFrom slots best choice = choice := by
  induction slots with
  | nil => rfl
  | cons next rest ih =>
    have hrest := ih fun slot hmem => h slot (List.mem_cons_of_mem next hmem)
    simp only [newestFrom]
    split
    · exact hrest
    · rename_i header hheader
      rw [if_neg (h next List.mem_cons_self header hheader)]
      exact hrest

/-- The image that runs is not an update of itself. -/
theorem newest_ne {running : Header} (hrunning : e.headerAt? application = some running)
    (h : e.newest application running = .update slot) : slot ≠ application := by
  rintro rfl
  rcases newestFrom_update h with hcurrent | ⟨-, header, hheader, hnewer⟩
  · cases hcurrent
  · rw [hrunning] at hheader
    cases hheader
    exact Header.not_supersedes_self hnewer

/-- The header of a slot is the one that its bytes give. -/
theorem headerAt?_eq_some {memory : Memory n k} {entry : Slot} (hl : e.storage.lookup? slot = .ok (memory, entry)) :
    e.headerAt? slot = some header ↔ e.backend.Heads (e.storage.held memory entry) header := by
  simp only [headerAt?]
  simp only [hl]
  constructor
  · intro h
    split at h
    · rename_i hcomplete
      refine ⟨hcomplete, ?_⟩
      cases hdecode : Header.decode ((e.storage.held memory entry).take e.backend.headerLength) with
      | ok header' =>
        rw [hdecode] at h
        cases h
        rfl
      | error cause =>
        rw [hdecode] at h
        cases h
    · cases h
  · intro h
    rw [if_pos h.complete, h.decodes]
    rfl

/-- A valid image has a header. -/
theorem Valid.headerAt? (h : e.Valid slot header) : e.headerAt? slot = some header := by
  obtain ⟨memory, entry, hl, haccepts⟩ := h
  exact (headerAt?_eq_some hl).mpr haccepts.toHeads

/-- The header of a slot hangs on the bytes of that slot only. -/
theorem Changes.headerAt? {P : Place n k → Prop} (h : Changes P e e')
    (hp : ∀ memory entry, e.storage.lookup? slot = .ok (memory, entry) → ∀ p, e.storage.within memory entry p → ¬P p) :
    e'.headerAt? slot = e.headerAt? slot := by
  simp only [Engine.headerAt?]
  rw [h.storage.setup.lookup?, h.backend]
  cases hl : e.storage.lookup? slot with
  | error cause => rfl
  | ok found => simp only [h.storage.held_eq (hp found.1 found.2 hl)]

/-- While no byte changes, a slot has the header that it had. -/
theorem Still.headerAt? (h : e.Still e') (slot : SlotId) : e'.headerAt? slot = e.headerAt? slot :=
  h.toChanges.headerAt? fun _ _ _ _ _ => id

/-- A slot that starts with the same bytes has the same header. -/
theorem headerAt?_of_front {memory : Memory n k} {entry : Slot} {bytes : Bytes}
    (hl : e.storage.lookup? slot = .ok (memory, entry)) (hheads : e.backend.Heads bytes header)
    (hfront : bytes.take e.backend.headerLength <+: e.storage.held memory entry) : e.headerAt? slot = some header := by
  have hcomplete : (bytes.take e.backend.headerLength).length = e.backend.headerLength :=
    List.length_take_of_le hheads.complete
  have hsame := List.prefix_iff_eq_take.mp hfront
  rw [hcomplete] at hsame
  refine (headerAt?_eq_some hl).mpr ⟨?_, ?_⟩
  · rw [← hcomplete]
    exact hfront.length_le
  · rw [← hsame]
    exact hheads.decodes

private theorem Still.newestFrom (h : e.Still e') (slots : List SlotId) (best : Header) (choice : Choice) :
    e'.newestFrom slots best choice = e.newestFrom slots best choice := by
  induction slots generalizing best choice with
  | nil => rfl
  | cons slot rest ih =>
    simp only [Engine.newestFrom]
    rw [h.headerAt?, h.policy]
    simp only [ih]

/-- Which slots may hold an update depends on the setup alone. -/
theorem Changes.contenders {P : Place n k → Prop} (h : Changes P e e') : e'.contenders = e.contenders := by
  simp only [Engine.contenders]
  rw [h.staged?, h.backup?]

/-- The header of a slot is read as it stands there, unless its device fails. -/
theorem InService.headerOf_ends (he : e.InService) (slot : SlotId) :
    (headerOf slot).Ends e (fun header e' => e.Still e' ∧ e.headerAt? slot = some header)
      (fun _ e' => e.Still e' ∧ (FaultedAt slot e e' ∨ e.headerAt? slot = none)) False := by
  cases hl : e.storage.lookup? slot with
  | error cause =>
    simp only [Action.Ends]
    simp only [headerOf, read, onStorage, Action.focus, Storage.read, Storage.lookup, Action.bind_apply,
      Action.get_apply, hl, Action.ofExcept, Action.fail_apply]
    exact ⟨Still.refl e, Or.inr (by simp only [headerAt?, hl])⟩
  | ok found =>
    obtain ⟨memory, entry⟩ := found
    refine (he.shows hl).headerOf_ends.imp ?_ ?_ id
    · exact fun header e' h => ⟨h.1, (headerAt?_eq_some hl).mpr h.2⟩
    · intro _ e' hended
      obtain ⟨hstill, hb | ⟨hnone, -⟩⟩ := hended
      · exact ⟨hstill, Or.inl ⟨memory, entry, hl, hb.onDevice⟩⟩
      · refine ⟨hstill, Or.inr (Option.eq_none_iff_forall_ne_some.mpr fun header heq => ?_)⟩
        exact hnone header ((headerAt?_eq_some hl).mp heq)

/-- What is chosen is the newest of the images whose headers are read, and it takes a fault to leave one out. -/
theorem InService.chooseFrom_ends (he : e.InService) (slots : List SlotId) (best : Header) (choice : Choice) :
    (chooseFrom slots best choice).Ends e
      (fun chosen e' => e.Still e' ∧ ∃ found, found.Sublist slots ∧ chosen = e.newestFrom found best choice ∧
        (e.Faulted e' ∨ found = slots))
      (fun _ _ => False) False := by
  induction slots generalizing e best choice with
  | nil => exact ⟨Still.refl e, [], .slnil, rfl, Or.inr rfl⟩
  | cons slot rest ih =>
    -- `first` is the slot, or nothing where its header could not be read
    have hnext : ∀ (e₁ : Engine n k) best' choice' (first : List SlotId), e.Still e₁ → first.Sublist [slot] →
        (∀ found, e.newestFrom (first ++ found) best choice = e.newestFrom found best' choice') →
        (e.Faulted e₁ ∨ first = [slot]) →
        (chooseFrom rest best' choice').Ends e₁
          (fun chosen e' => e.Still e' ∧ ∃ found, found.Sublist (slot :: rest) ∧
            chosen = e.newestFrom found best choice ∧ (e.Faulted e' ∨ found = slot :: rest))
          (fun _ _ => False) False := by
      intro e₁ best' choice' first hstill hfirst hsame hleft
      refine (ih (he.of_changes hstill.toChanges) best' choice').imp ?_ (fun _ _ h => h) id
      rintro chosen e₂ ⟨hstill₂, found, hfound, rfl, hrest⟩
      refine ⟨hstill.trans hstill₂, first ++ found, hfirst.append hfound, ?_, ?_⟩
      · rw [hsame, hstill.newestFrom]
      · rcases hleft with hf | rfl
        · exact Or.inl (hstill₂.faulted_left hf)
        · exact hrest.imp hstill.faulted_right fun hall => by rw [hall]; rfl
    refine (he.headerOf_ends slot).attempt_bind ?_ ?_ id
    · rintro header e₁ ⟨hstill, hanswer⟩
      rw [Action.ends_get_bind, hstill.policy]
      split
      · rename_i hnewer
        refine note_bind fun log => hnext _ header (.update slot) [slot] (hstill.trans (still_log e₁ log))
          (.refl _) (fun found => ?_) (Or.inr rfl)
        simp only [List.singleton_append, newestFrom, hanswer, if_pos hnewer]
      · rename_i holder
        refine note_bind fun log => hnext _ best choice [slot] (hstill.trans (still_log e₁ log)) (.refl _)
          (fun found => ?_) (Or.inr rfl)
        simp only [List.singleton_append, newestFrom, hanswer, if_neg holder]
    · rintro cause e₁ ⟨hstill, hanswer⟩
      refine note_bind fun log => ?_
      have hlog := still_log e₁ log
      rcases hanswer with hf | hnone
      · exact hnext _ best choice [] (hstill.trans hlog) (List.nil_sublist _) (fun _ => rfl)
          (Or.inl (hlog.faulted_left hf.faulted))
      · refine hnext _ best choice [slot] (hstill.trans hlog) (.refl _) (fun found => ?_) (Or.inr rfl)
        simp only [List.singleton_append, newestFrom, hnone]

/-- While no byte changes, the newest image is the same. -/
theorem Still.newest (h : e.Still e') (application : SlotId) (running : Header) :
    e'.newest application running = e.newest application running := by
  simp only [Engine.newest]
  rw [h.newestFrom, h.toChanges.contenders]

/-- The newest of the images whose headers are read is chosen, if the running image has a header. -/
theorem InService.choose_finds (he : e.InService) (happlication : e.application? = .ok application) :
    choose.Ends e
      (fun chosen e' => e.Still e' ∧ ∃ running found, e.headerAt? application = some running ∧
        found.Sublist e.contenders ∧ chosen = e.newestFrom found running (.current application) ∧
        (e.Faulted e' ∨ found = e.contenders))
      (fun _ e' => e.Still e' ∧ (FaultedAt application e e' ∨ e.headerAt? application = none)) False := by
  simp only [choose]
  simp only [Action.ends_get_bind, happlication, Action.ofExcept, Action.ends_pure_bind]
  refine (he.headerOf_ends application).attempt_bind ?_ ?_ id
  · rintro header e₁ ⟨hstill, hanswer⟩
    rw [Action.ends_get_bind, hstill.toChanges.contenders]
    refine ((he.of_changes hstill.toChanges).chooseFrom_ends _ header _).imp ?_ (fun _ _ h => h.elim) id
    rintro chosen e₂ ⟨hstill₂, found, hfound, rfl, hleft⟩
    exact ⟨hstill.trans hstill₂, header, found, hanswer, hfound, hstill.newestFrom _ _ _,
      hleft.imp hstill.faulted_right id⟩
  · rintro cause e₁ ⟨hstill, hanswer⟩
    refine note_bind fun log => ?_
    exact ⟨hstill.trans (still_log e₁ log), hanswer.imp (·.before (still_log e₁ log).toChanges) id⟩

/-- The newest image is chosen, unless a device is at fault or the running image has no header. -/
theorem InService.choose_ends (he : e.InService) (happlication : e.application? = .ok application) :
    choose.Ends e
      (fun chosen e' => e.Still e' ∧ (e.Faulted e' ∨
        ∃ running, e.headerAt? application = some running ∧ chosen = e.newest application running))
      (fun _ e' => e.Still e' ∧ (FaultedAt application e e' ∨ e.headerAt? application = none)) False := by
  refine (he.choose_finds happlication).imp ?_ (fun _ _ h => h) id
  rintro chosen e' ⟨hstill, running, found, hrunning, -, rfl, hleft⟩
  exact ⟨hstill, hleft.imp id fun hall => ⟨running, hrunning, by rw [hall]; rfl⟩⟩

/-- The image in the slot is newer than the one that the application slot holds. -/
def Supersedes (e : Engine n k) (slot application : SlotId) : Prop :=
  ∃ header running, e.headerAt? slot = some header ∧ e.headerAt? application = some running ∧
    header.supersedes running e.policy.forwardOnly = true

/-- While no byte changes, a slot that supersedes another one still does. -/
theorem Still.supersedes_iff (h : e.Still e') : e'.Supersedes slot application ↔ e.Supersedes slot application := by
  simp only [Supersedes]
  rw [h.headerAt?, h.headerAt?, h.policy]

/-- No slot supersedes itself. -/
theorem Supersedes.ne (h : e.Supersedes slot application) : slot ≠ application := by
  rintro rfl
  obtain ⟨header, running, hheader, hrunning, hnewer⟩ := h
  rw [hheader] at hrunning
  cases hrunning
  exact Header.not_supersedes_self hnewer

/-- Only a newer image is chosen, whatever fails. -/
theorem InService.choose_supersedes (he : e.InService) (happlication : e.application? = .ok application) :
    choose.Yields e (fun chosen _ => ∀ slot, chosen = .update slot → e.Supersedes slot application) := by
  refine (he.choose_finds happlication).yields.imp ?_
  rintro chosen e' ⟨-, running, found, hrunning, -, rfl, -⟩ slot hchosen
  rcases newestFrom_update hchosen with hcurrent | ⟨-, header, hheader, hnewer⟩
  · cases hcurrent
  · exact ⟨header, running, hheader, hrunning, hnewer⟩

end Engine
end FirmwareUpdate
