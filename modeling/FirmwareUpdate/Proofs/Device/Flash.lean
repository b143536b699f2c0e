import FirmwareUpdate.Device.FlashLink
import FirmwareUpdate.Proofs.Bytes
import FirmwareUpdate.Proofs.Device.Link

/-! What flash calls do to a device: what it holds after each, and why one fails. -/
namespace FirmwareUpdate

namespace Flash
variable {f g : Flash} {start length : Nat} {data : Bytes}

/-- Devices that differ at most in how long they stay busy. -/
def Alike (f g : Flash) : Prop := ∃ rest, g = { f with busyRest := rest }

theorem Alike.refl (f : Flash) : f.Alike f := ⟨f.busyRest, rfl⟩

theorem Alike.trans {h : Flash} (hfg : f.Alike g) (hgh : g.Alike h) : f.Alike h := by
  obtain ⟨r, rfl⟩ := hfg
  obtain ⟨r', rfl⟩ := hgh
  exact ⟨r', rfl⟩

/-- Devices that are alike hold the same bytes. -/
theorem Alike.contents (h : f.Alike g) : g.contents = f.contents := by
  obtain ⟨r, rfl⟩ := h
  rfl

/-- Devices that are alike are of the same shape. -/
theorem Alike.geometry (h : f.Alike g) : g.geometry = f.geometry := by
  obtain ⟨r, rfl⟩ := h
  rfl

private theorem Alike.writes (h : f.Alike g) : g.writes = f.writes := by
  obtain ⟨r, rfl⟩ := h
  rfl

private theorem Alike.erases (h : f.Alike g) : g.erases = f.erases := by
  obtain ⟨r, rfl⟩ := h
  rfl

private theorem init_ends : init.Ends f (fun _ g => g = { f with initialized := true }) (fun _ _ => False)
    False := by
  simp [init]

private theorem release_ends : release.Ends f
    (fun _ g => g = { f with initialized := false, releases := f.releases + 1 })
    (fun _ _ => False) False := by
  simp [release]

private theorem requireInitialized_ends : requireInitialized.Ends f
    (fun _ g => g = f ∧ f.initialized = true) (fun e g => g = f ∧ e = .notInitialized) False := by
  simp only [requireInitialized]
  rw [Action.ends_get_bind]
  split <;> simp_all

private theorem requireInside_ends (h : f.geometry.contains start length = true) :
    (requireInside start length).Ends f (fun _ g => g = f) (fun _ _ => False) False := by
  simp [requireInside, h]

/-- A device that is switched off gives an error to every access. -/
theorem read_ends (h : f.geometry.contains start length = true) :
    (read start length).Ends f
      (fun bytes g => g = f ∧ bytes = Bytes.slice f.contents (start - f.geometry.base) length)
      (fun e g => g = f ∧ e.isRefusal = false) False := by
  refine requireInitialized_ends.bind ?_ ?_ id
  · intro _ _ hended
    obtain ⟨rfl, -⟩ := hended
    refine (requireInside_ends h).bind ?_ (fun _ _ h => h.elim) id
    rintro _ _ rfl
    rw [Action.ends_get_bind]
    exact ⟨rfl, rfl⟩
  · intro _ _ hended
    obtain ⟨rfl, rfl⟩ := hended
    exact ⟨rfl, rfl⟩

/-- The request is one the device can carry out. -/
structure Takes (f : Flash) (start : Nat) (data : Bytes) : Prop where
  inside : f.geometry.contains start data.length = true
  nonempty : data ≠ []
  granule_pos : 0 < f.geometry.granule

/-- The write starts and ends on granules of the device. -/
def Aligned (f : Flash) (start : Nat) (data : Bytes) : Prop :=
  (start - f.geometry.base) % f.geometry.granule = 0 ∧ data.length % f.geometry.granule = 0

/-- A write inside a device programs it. If it fails nothing has changed, and only one that is out of place is refused.
-/
theorem write_ends (h : f.Takes start data) :
    (write start data).Ends f
      (fun _ g => g = f.program start data h.inside)
      (fun e g => g = f ∧ (f.Aligned start data → e.isRefusal = false)) False := by
  refine requireInitialized_ends.bind ?_ ?_ id
  · intro _ _ hended
    obtain ⟨rfl, -⟩ := hended
    refine (requireInside_ends h.inside).bind ?_ (fun _ _ h => h.elim) id
    rintro _ _ rfl
    have hpos := h.granule_pos
    rw [Action.ends_get_bind, if_neg h.nonempty, if_neg (by omega)]
    split
    · rename_i hmis
      simp only [Action.ends_fail, Aligned]
      exact ⟨trivial, fun ha => by omega⟩
    · split
      · exact ⟨rfl, fun _ => rfl⟩
      · rw [dif_pos h.inside]
        exact rfl
  · intro _ _ hended
    obtain ⟨rfl, rfl⟩ := hended
    exact ⟨rfl, fun _ => rfl⟩

/-- The range lies inside the device. -/
def Spans (f : Flash) (start length : Nat) : Prop :=
  f.geometry.base ≤ start ∧ start + length ≤ f.geometry.base + f.geometry.size

/-- Every access starts with the same two questions. -/
theorem access_ends : (do requireInitialized; requireInside start length : Call Unit).Ends f
    (fun _ g => g = f ∧ f.initialized = true ∧ f.Spans start length)
    (fun _ g => g = f ∧ ¬(f.initialized = true ∧ f.Spans start length)) False := by
  have hinside : f.geometry.contains start length = true ↔ f.Spans start length := Geometry.contains_iff
  simp only [requireInitialized, requireInside, ← hinside]
  rw [Action.ends_bind, Action.ends_get_bind]
  by_cases hon : f.initialized = true
  · rw [if_pos hon, Action.ends_pure, Action.ends_get_bind]
    by_cases hin : f.geometry.contains start length = true
    · rw [if_pos hin]
      exact ⟨rfl, hon, hin⟩
    · rw [if_neg hin]
      exact ⟨rfl, fun hboth => hin hboth.2⟩
  · rw [if_neg hon]
    exact ⟨rfl, fun hboth => hon hboth.1⟩

private theorem access_yields : (do requireInitialized; requireInside start length : Call Unit).Yields f
    (fun _ g => g = f) :=
  access_ends.yields.imp fun _ _ hended => hended.1

private theorem read_yields : (read start length).Yields f (fun _ g => g = f) := by
  simp only [read]
  rw [← bind_assoc]
  refine access_yields.bind ?_
  rintro _ _ rfl
  exact rfl

/-- Of the ways through a write, one ends well, and it is recorded. -/
theorem write_yields : (write start data).Yields f (fun _ g => g.writes = ⟨start, data⟩ :: f.writes) := by
  simp only [write]
  rw [← bind_assoc]
  refine access_yields.bind ?_
  rintro _ _ rfl
  rw [Action.Yields, Action.ends_get_bind]
  repeat' split
  all_goals trivial

/-- Whole sectors of a device are blanked. If that fails nothing has changed, and it is the fault of the device. -/
theorem erase_ends (h : f.geometry.contains start length = true)
    (hstart : f.geometry.isSector start = true) (hlength : length % f.geometry.sector = 0) :
    (erase start length).Ends f
      (fun _ g => g = f.blankRange start length h)
      (fun e g => g = f ∧ e.isRefusal = false) False := by
  refine requireInitialized_ends.bind ?_ ?_ id
  · intro _ _ hended
    obtain ⟨rfl, -⟩ := hended
    refine (requireInside_ends h).bind ?_ (fun _ _ h => h.elim) id
    rintro _ _ rfl
    rw [Action.ends_get_bind, if_pos ⟨hstart, hlength⟩, dif_pos h]
    exact rfl
  · intro _ _ hended
    obtain ⟨rfl, rfl⟩ := hended
    exact ⟨rfl, rfl⟩

/-- A device that is switched off erases nothing. -/
theorem erase_of_off (h : f.initialized = false) :
    (erase start length).Ends f (fun _ _ => False) (fun _ g => g = f) False := by
  simp only [erase, requireInitialized]
  simp [Action.ends_bind, h]

/-- A poll changes at most how long the device stays busy. -/
theorem poll_ends : poll.Ends f (fun _ g => f.Alike g) (fun _ _ => False) False := by
  simp only [poll]
  rw [Action.ends_get_bind]
  split
  · exact Alike.refl f
  · exact ⟨_, rfl⟩

section Keeps
variable {I : Flash → Prop} {trapped : Prop}

private theorem requireInitialized_keeps : Action.Preserves I trapped requireInitialized := by
  refine .get_bind fun f _ => ?_
  split
  · exact .pure ()
  · exact .fail _

private theorem requireInside_keeps : Action.Preserves I trapped (requireInside start length) := by
  refine .get_bind fun f _ => ?_
  split
  · exact .pure ()
  · exact .fail _

/-- A device that is read does not change. -/
theorem read_keeps : Action.Preserves I trapped (read start length) :=
  .bind requireInitialized_keeps fun _ => .bind requireInside_keeps fun _ => .get_bind fun _ _ => .pure _

end Keeps

/-! Whatever is asked of it, a device stays where it is. -/

section Fixed
variable {geometry : Geometry} {trapped : Prop}

theorem write_preserves (hpos : 0 < geometry.granule) :
    Action.Preserves (fun f : Flash => f.geometry = geometry) trapped (write start data) := by
  refine .bind requireInitialized_keeps fun _ => .bind requireInside_keeps fun _ => .get_bind fun f hf => ?_
  split
  · exact .fail _
  rw [if_neg (by rw [hf]; omega)]
  split
  · exact .fail _
  split
  · exact .fail _
  split
  · exact .set hf
  · exact .fail _

private theorem erase_preserves :
    Action.Preserves (fun f : Flash => f.geometry = geometry) trapped (erase start length) := by
  refine .bind requireInitialized_keeps fun _ => .bind requireInside_keeps fun _ => .get_bind fun f hf => ?_
  split
  · split
    · exact .set hf
    · exact .fail _
  · exact .fail _

private theorem poll_preserves : Action.Preserves (fun f : Flash => f.geometry = geometry) trapped poll := by
  refine .get_bind fun f hf => ?_
  split
  · exact .pure _
  · exact .bind (.set hf) fun _ => .pure _

/-- The sector that follows one of the device starts no further than the device ends. -/
theorem nextSector?_le {g : Geometry} {address next : Nat} (h : g.nextSector? address = some next) :
    next ≤ g.stop := by
  unfold Geometry.nextSector? at h
  split at h
  · rename_i hcontains
    obtain ⟨hb, he⟩ := Geometry.contains_iff.mp hcontains
    obtain ⟨count, hcount⟩ := g.sector_dvd
    cases h
    have hlt : (address - g.base) / g.sector < count := by
      rw [Nat.div_lt_iff_lt_mul g.sector_pos, Nat.mul_comm]
      omega
    have hle : ((address - g.base) / g.sector + 1) * g.sector ≤ count * g.sector := Nat.mul_le_mul_right _ hlt
    rw [Nat.mul_comm count, ← hcount] at hle
    exact Nat.add_le_add_left hle _
  · cases h

private theorem nextSector?_preserves (htop : UInt32.size ≤ geometry.stop → trapped) :
    Action.Preserves (fun f : Flash => f.geometry = geometry) trapped (nextSector? start) := by
  refine .get_bind fun f hf => ?_
  split
  · exact .pure _
  · rename_i next hnext
    rw [hf] at hnext
    exact .word_bind (fun hword => htop (Nat.le_trans hword (nextSector?_le hnext))) (.pure _)

end Fixed

end Flash

namespace FlashLink
variable {l : FlashLink} {start : Nat} {data : Bytes}

/-- A device is switched on, unless it is at fault. -/
theorem init_ends : init.Ends l
    (fun _ m => l.Keeps m ∧ m.faults = l.faults ∧ m.device = { l.device with initialized := true })
    (fun _ m => l.Keeps m ∧ m.device = l.device ∧ l.faults < m.faults) False := by
  refine (Link.call_ends Flash.init_ends).imp (fun _ _ h => h) ?_ id
  intro e m hended
  obtain ⟨hk, ⟨-, h⟩ | ⟨h, -⟩⟩ := hended
  · exact ⟨hk, h⟩
  · exact h.elim

/-- A device that is given back is off, unless the schedule has the call fail. -/
theorem release_ends : release.Ends l
    (fun _ m => l.Keeps m ∧ m.faults = l.faults ∧
      m.device = { l.device with initialized := false, releases := l.device.releases + 1 })
    (fun _ m => l.Keeps m ∧ m.device = l.device ∧ l.faults < m.faults ∧
      l.schedule .release (l.calls.of .release) ≠ none) False := by
  refine (Link.call_ends Flash.release_ends).imp (fun _ _ h => h) ?_ id
  intro e m hended
  obtain ⟨hk, ⟨hs, hd, hf⟩ | ⟨h, -⟩⟩ := hended
  · exact ⟨hk, hd, hf, hs⟩
  · exact h.elim

/-- What is inside a device is read as it is, unless the device is at fault. -/
theorem read_ends {length : Nat} (h : l.device.geometry.contains start length = true) :
    (read start length).Ends l
      (fun bytes m => l.Keeps m ∧ m.faults = l.faults ∧ m.device = l.device ∧
        bytes = Bytes.slice l.device.contents (start - l.device.geometry.base) length)
      (fun _ m => l.Keeps m ∧ m.device = l.device ∧ l.faults < m.faults) False := by
  refine (Link.call_ends (Flash.read_ends h)).imp (fun _ _ h => h) ?_ id
  intro e m hended
  obtain ⟨hk, ⟨-, h⟩ | ⟨⟨hd, hr⟩, hf⟩⟩ := hended
  · exact ⟨hk, h⟩
  · exact ⟨hk, hd, hf hr⟩

/-- Reading writes nothing. -/
theorem read_writes {length : Nat} :
    (read start length).Yields l (fun _ m => m.device.writes = l.device.writes) :=
  (Link.call_yields Flash.read_yields).imp fun _ _ hsame => congrArg Flash.writes hsame

/-- A poll always gets an answer, and changes no cell. -/
theorem poll_ends : poll.Ends l
    (fun _ m => l.Keeps m ∧ m.faults = l.faults ∧ l.device.Alike m.device)
    (fun _ _ => False) False := by
  simp only [poll]
  simp only [Action.ends_get_bind, Action.ends_set_bind]
  split
  · simp only [Action.ends_modify_bind, Action.ends_pure]
    exact ⟨⟨rfl, Nat.le_refl _⟩, rfl, Flash.Alike.refl _⟩
  · exact Link.direct_ends.mpr (Flash.poll_ends.imp
      (fun _ f hf => ⟨⟨rfl, Nat.le_refl _⟩, rfl, hf⟩) (fun _ _ h => h) id)

private theorem awaitIdle_ends (polls : Nat) (l : FlashLink) :
    (Flash.awaitIdle poll polls).Ends l
      (fun _ m => l.Keeps m ∧ m.faults = l.faults ∧ l.device.Alike m.device)
      (fun e m => (l.Keeps m ∧ m.faults = l.faults ∧ l.device.Alike m.device) ∧ e.isRefusal = false)
      False := by
  induction polls generalizing l with
  | zero => exact ⟨⟨Link.Keeps.refl l, rfl, Flash.Alike.refl _⟩, rfl⟩
  | succ polls ih =>
    refine poll_ends.bind ?_ (fun _ _ h => h.elim) id
    rintro answer m hm
    cases answer with
    | idle => exact hm
    | busy =>
      obtain ⟨hk, hf, ha⟩ := hm
      refine (ih m).imp ?_ ?_ id
      · intro _ k hended
        obtain ⟨hk', hf', ha'⟩ := hended
        exact ⟨hk.trans hk', hf'.trans hf, ha.trans ha'⟩
      · intro e k hended
        obtain ⟨⟨hk', hf', ha'⟩, hr⟩ := hended
        exact ⟨⟨hk.trans hk', hf'.trans hf, ha.trans ha'⟩, hr⟩
    | error => exact ⟨hm, rfl⟩

/-- Waiting changes nothing; a device that is given up is at fault. -/
theorem awaitReady_ends : awaitReady.Ends l
    (fun _ m => l.Keeps m ∧ m.faults = l.faults ∧ l.device.Alike m.device)
    (fun _ m => l.Keeps m ∧ l.device.Alike m.device ∧ l.faults < m.faults) False := by
  refine Link.accounted_ends (fun e m =>
    (l.Keeps m ∧ m.faults = l.faults ∧ l.device.Alike m.device) ∧ e.isRefusal = false) ?_ ?_
  · refine poll_ends.bind ?_ (fun _ _ h => h.elim) id
    intro answer m hended
    obtain ⟨hk, hf, ha⟩ := hended
    have hrest : (Flash.awaitIdle poll Flash.pollLimit).Ends m
        (fun _ k => l.Keeps k ∧ k.faults = l.faults ∧ l.device.Alike k.device)
        (fun e k => (l.Keeps k ∧ k.faults = l.faults ∧ l.device.Alike k.device) ∧
          e.isRefusal = false) False := by
      refine (awaitIdle_ends Flash.pollLimit m).imp ?_ ?_ id
      · intro _ k hended
        obtain ⟨hk', hf', ha'⟩ := hended
        exact ⟨hk.trans hk', hf'.trans hf, ha.trans ha'⟩
      · intro e k hended
        obtain ⟨⟨hk', hf', ha'⟩, hr⟩ := hended
        exact ⟨⟨hk.trans hk', hf'.trans hf, ha.trans ha'⟩, hr⟩
    cases answer with
    | idle => exact ⟨hk, hf, ha⟩
    | busy => exact hrest
    | error => exact hrest
  · intro e m hended
    obtain ⟨⟨hk, hf, ha⟩, hr⟩ := hended
    have hlt : l.faults < (m.addError e).addFault.faults := by
      show l.faults < m.faults + 1
      omega
    simp only [hr, Bool.false_eq_true, if_false]
    exact ⟨⟨hk.schedule, Nat.le_of_lt hlt⟩, ha, hlt⟩

private theorem change_ends {point : CallPoint} {act : Flash.Call Unit} {after : Flash} (inOrder : Prop)
    (h : act.Ends l.device (fun _ g => g = after)
      (fun e g => g = l.device ∧ (inOrder → e.isRefusal = false)) False) :
    (Link.call point act >>= fun _ => awaitReady : Call Unit).Ends l
      (fun _ m => l.Keeps m ∧ m.faults = l.faults ∧ after.Alike m.device)
      (fun _ m => l.Keeps m ∧ (m.device = l.device ∨ after.Alike m.device) ∧
        (inOrder → l.faults < m.faults)) False := by
  -- A call that is followed by a fault may have taken place.
  refine (Link.call_ends h).bind ?_ ?_ id
  · intro _ m hended
    obtain ⟨hk, hf, hd⟩ := hended
    refine awaitReady_ends.imp ?_ ?_ id
    · intro _ k hended
      obtain ⟨hk', hf', ha⟩ := hended
      exact ⟨hk.trans hk', hf'.trans hf, hd ▸ ha⟩
    · intro _ k hended
      obtain ⟨hk', ha, hlt⟩ := hended
      exact ⟨hk.trans hk', Or.inr (hd ▸ ha), fun _ => hf ▸ hlt⟩
  · intro e m hended
    obtain ⟨hk, ⟨-, hd, hlt⟩ | ⟨⟨hd, hr⟩, hlt⟩⟩ := hended
    · exact ⟨hk, Or.inl hd, fun _ => hlt⟩
    · exact ⟨hk, Or.inl hd, fun ha => hlt (hr ha)⟩

/-- A write and the wait that follows leave the bytes programmed. What comes before a fault may have taken place. -/
theorem program_ends (h : l.device.Takes start data) :
    (write start data >>= fun _ => awaitReady : Call Unit).Ends l
      (fun _ m => l.Keeps m ∧ m.faults = l.faults ∧
        (l.device.program start data h.inside).Alike m.device)
      (fun _ m => l.Keeps m ∧
        (m.device = l.device ∨ (l.device.program start data h.inside).Alike m.device) ∧
        (l.device.Aligned start data → l.faults < m.faults)) False :=
  change_ends _ (Flash.write_ends h)

/-- Waiting for the device adds nothing to what a write has recorded. -/
theorem program_writes : (write start data >>= fun _ => awaitReady : Call Unit).Yields l
    (fun _ m => m.device.writes = ⟨start, data⟩ :: l.device.writes) := by
  refine (Link.call_yields Flash.write_yields).bind fun _ m hwritten => ?_
  exact awaitReady_ends.yields.imp fun _ k h => h.2.2.writes.trans hwritten

private theorem eraseRange_ends {length : Nat} (h : l.device.geometry.contains start length = true)
    (hs : l.device.geometry.isSector start = true) (hl : length % l.device.geometry.sector = 0) :
    (erase start length >>= fun _ => awaitReady : Call Unit).Ends l
      (fun _ m => l.Keeps m ∧ m.faults = l.faults ∧ (l.device.blankRange start length h).Alike m.device)
      (fun _ m => l.Keeps m ∧
        (m.device = l.device ∨ (l.device.blankRange start length h).Alike m.device) ∧
        l.faults < m.faults) False := by
  refine (change_ends True ((Flash.erase_ends h hs hl).imp (fun _ _ h => h) ?_ id)).imp
    (fun _ _ h => h) ?_ id
  · exact fun _ _ h => ⟨h.1, fun _ => h.2⟩
  · exact fun _ _ h => ⟨h.1, h.2.1, h.2.2 trivial⟩

/-- A position at which `count` sectors of the device start. -/
structure AtSectors (g : Geometry) (count start : Nat) : Prop where
  base_le : g.base ≤ start
  onSector : (start - g.base) % g.sector = 0
  le_stop : start + count * g.sector ≤ g.base + g.size

/-- Behind the first of several sectors there is one less of them. -/
theorem AtSectors.next {g : Geometry} {count : Nat} (h : AtSectors g (count + 1) start) :
    AtSectors g count (start + g.sector) := by
  obtain ⟨hb, hs, he⟩ := h
  rw [Nat.add_mul, Nat.one_mul] at he
  refine ⟨by omega, ?_, by omega⟩
  rw [show start + g.sector - g.base = start - g.base + g.sector by omega, Nat.add_mod_right]
  exact hs

/-- The first of several sectors is inside the device. -/
theorem AtSectors.contains {g : Geometry} {count : Nat} (h : AtSectors g (count + 1) start) :
    g.contains start g.sector = true := by
  obtain ⟨hb, -, he⟩ := h
  rw [Nat.add_mul, Nat.one_mul] at he
  rw [Geometry.contains_iff]
  omega

/-- The first of several sectors starts where a sector does. -/
theorem AtSectors.isSector {g : Geometry} {count : Nat} (h : AtSectors g (count + 1) start) :
    g.isSector start = true := by
  have hone : g.contains start 1 = true := by
    have hinside := h.contains
    have hpos := g.sector_pos
    rw [Geometry.contains_iff] at hinside ⊢
    omega
  simpa [Geometry.isSector, hone] using h.onSector

/-- The device ends with the address space if the sector after one of its own starts behind it. -/
theorem AtSectors.stop_ge {g : Geometry} {count : Nat} (h : AtSectors g (count + 1) start)
    (hword : UInt32.size ≤ start + g.sector) : UInt32.size ≤ g.stop := by
  have he := h.le_stop
  rw [Nat.add_mul, Nat.one_mul] at he
  rw [Geometry.stop]
  omega

/-- The sector that follows is found, unless its address is none. -/
theorem nextSector_ends {count : Nat} (h : AtSectors l.device.geometry (count + 1) start) :
    (Link.direct (Flash.nextSector? start) : Call (Option Nat)).Ends l
      (fun next m => l = m ∧ next = some (start + l.device.geometry.sector) ∧
        start + l.device.geometry.sector < UInt32.size)
      (fun _ _ => False) (UInt32.size ≤ start + l.device.geometry.sector) := by
  have hone : l.device.geometry.contains start 1 = true := by
    have hsector := h.isSector
    rw [Geometry.isSector, decide_eq_true_eq] at hsector
    exact hsector.1
  have hnext : l.device.geometry.nextSector? start = some (start + l.device.geometry.sector) := by
    have hdiv := Nat.div_mul_cancel (Nat.dvd_of_mod_eq_zero h.onSector)
    have hb := h.base_le
    rw [Geometry.nextSector?, if_pos hone, Nat.add_mul, hdiv, Nat.one_mul]
    congr 1
    omega
  rw [Link.direct_ends]
  simp only [Flash.nextSector?]
  rw [Action.ends_get_bind, hnext]
  simp only [Action.word]
  split
  · rename_i hlt
    exact ⟨rfl, rfl, hlt⟩
  · rename_i hnot
    exact Nat.not_lt.mp hnot

/-- Sectors are erased in turn, so a fault leaves those that follow as they were. -/
theorem eraseFrom_ends (count : Nat) (l : FlashLink) (start : Nat)
    (h : AtSectors l.device.geometry count start) :
    (eraseFrom count start).Ends l
      (fun _ m => l.Keeps m ∧ m.faults = l.faults ∧ m.device.geometry = l.device.geometry ∧
        m.device.contents = Bytes.splice l.device.contents (start - l.device.geometry.base)
          (Bytes.blank (count * l.device.geometry.sector)))
      (fun _ m => l.Keeps m ∧ l.faults < m.faults ∧ m.device.geometry = l.device.geometry ∧
        Bytes.AgreeOutside (start - l.device.geometry.base) (count * l.device.geometry.sector)
          l.device.contents m.device.contents)
      (UInt32.size ≤ l.device.geometry.stop) := by
  induction count generalizing l start with
  | zero =>
    refine ⟨Link.Keeps.refl l, rfl, rfl, ?_⟩
    simp [Bytes.splice, Bytes.blank]
  | succ count ih =>
    have hb := h.base_le
    have he := h.le_stop
    have hlen := l.device.contents_length
    rw [Nat.add_mul, Nat.one_mul] at he
    rw [Nat.add_mul, Nat.one_mul, Nat.add_comm (count * _)]
    generalize hplace : start - l.device.geometry.base = place
    have hskip : start + l.device.geometry.sector - l.device.geometry.base =
        place + l.device.geometry.sector := by omega
    have hblank : ∀ m : FlashLink, (l.device.blankRange start _ h.contains).Alike m.device →
        m.device.contents = Bytes.splice l.device.contents place (Bytes.blank l.device.geometry.sector) :=
      fun m ha => hplace ▸ ha.contents
    have hagree : Bytes.AgreeOutside place (l.device.geometry.sector + count * l.device.geometry.sector)
        l.device.contents (Bytes.splice l.device.contents place (Bytes.blank l.device.geometry.sector)) :=
      Bytes.agreeOutside_splice (by omega) (by simp)
    simp only [eraseFrom]
    refine (nextSector_ends h).bind ?_ (fun _ _ h => h.elim) h.stop_ge
    intro _ _ hended
    obtain ⟨rfl, rfl, -⟩ := hended
    simp only [Nat.add_sub_cancel_left]
    rw [← bind_assoc]
    refine (eraseRange_ends h.contains h.isSector (Nat.mod_self _)).bind ?_ ?_ False.elim
    · intro _ m hended
      obtain ⟨hk, hf, ha⟩ := hended
      have hgeo : m.device.geometry = l.device.geometry := ha.geometry
      have hih := ih m (start + l.device.geometry.sector) (hgeo ▸ h.next)
      rw [hgeo, hskip, hblank m ha] at hih
      refine hih.imp ?_ ?_ id
      · intro _ k hended
        obtain ⟨hk', hf', hg', hc'⟩ := hended
        refine ⟨hk.trans hk', hf'.trans hf, hg', ?_⟩
        have hnext : Bytes.splice (Bytes.splice l.device.contents place (Bytes.blank l.device.geometry.sector))
            (place + (Bytes.blank l.device.geometry.sector).length)
            (Bytes.blank (count * l.device.geometry.sector)) = _ := Bytes.splice_splice (by omega)
        rw [Bytes.length_blank, ← Bytes.blank_add] at hnext
        rw [hc', hnext]
      · intro _ k hended
        obtain ⟨hk', hf', hg', ha'⟩ := hended
        exact ⟨hk.trans hk', by omega, hg', hagree.trans ha' (by omega) (by omega)⟩
    · intro e m hended
      obtain ⟨hk, hd | ha, hlt⟩ := hended
      · exact ⟨hk, hlt, by rw [hd], by rw [hd]; exact Bytes.AgreeOutside.refl _ _ _⟩
      · exact ⟨hk, hlt, ha.geometry, by rw [hblank m ha]; exact hagree⟩

/-- Each of the sectors is erased once, the lowest first; the record holds the latest first. -/
theorem eraseFrom_erases (count : Nat) (l : FlashLink) (start : Nat) (h : AtSectors l.device.geometry count start) :
    (eraseFrom count start).Yields l (fun _ m => m.device.erases =
      ((List.range count).map fun i => (start + i * l.device.geometry.sector, l.device.geometry.sector)).reverse ++
        l.device.erases) := by
  induction count generalizing l start with
  | zero => exact rfl
  | succ count ih =>
    simp only [eraseFrom]
    refine (nextSector_ends h).yields.bind ?_
    intro _ _ hended
    obtain ⟨rfl, rfl, -⟩ := hended
    simp only [Nat.add_sub_cancel_left]
    rw [← bind_assoc]
    refine (eraseRange_ends h.contains h.isSector (Nat.mod_self _)).yields.bind ?_
    intro _ m hended
    obtain ⟨-, -, ha⟩ := hended
    have hgeo : m.device.geometry = l.device.geometry := ha.geometry
    have herases : m.device.erases = (start, l.device.geometry.sector) :: l.device.erases := ha.erases
    refine (ih m _ (hgeo ▸ h.next)).imp fun _ k hrecord => ?_
    have hshift : ∀ i, start + l.device.geometry.sector + i * l.device.geometry.sector =
        start + (i + 1) * l.device.geometry.sector := fun i => by rw [Nat.add_mul]; omega
    rw [hrecord, hgeo, herases, List.range_succ_eq_map, List.map_cons, List.map_map, List.reverse_cons,
      List.append_assoc]
    simp only [hshift, Function.comp_def, Nat.zero_mul, Nat.add_zero, List.singleton_append, Nat.succ_eq_add_one]

/-- The first of the sectors is erased first, so as long as it is not, nothing is. -/
theorem eraseFrom_tears {count : Nat} (h : AtSectors l.device.geometry (count + 1) start) :
    (eraseFrom (count + 1) start).Ends l (fun _ _ => True)
      (fun _ m => m.device.contents = l.device.contents ∨
        m.device.contents[start - l.device.geometry.base]? = some 0xFF)
      (UInt32.size ≤ l.device.geometry.stop) := by
  have hb := h.base_le
  have he := h.le_stop
  have hlen := l.device.contents_length
  have hpos := l.device.geometry.sector_pos
  rw [Nat.add_mul, Nat.one_mul] at he
  have hfirst : ∀ m : FlashLink, (l.device.blankRange start _ h.contains).Alike m.device →
      m.device.contents[start - l.device.geometry.base]? = some 0xFF := by
    intro m ha
    have hblank : m.device.contents = Bytes.splice l.device.contents (start - l.device.geometry.base)
        (Bytes.blank l.device.geometry.sector) := ha.contents
    rw [hblank, Bytes.getElem?_splice (by omega), if_neg (Nat.lt_irrefl _), Bytes.length_blank,
      if_pos (by omega), Bytes.getElem?_blank, if_pos (by omega)]
  simp only [eraseFrom]
  refine (nextSector_ends h).bind ?_ (fun _ _ h => h.elim) h.stop_ge
  intro _ _ hended
  obtain ⟨rfl, rfl, -⟩ := hended
  simp only [Nat.add_sub_cancel_left]
  rw [← bind_assoc]
  refine (eraseRange_ends h.contains h.isSector (Nat.mod_self _)).bind ?_ ?_ False.elim
  · intro _ m hended
    obtain ⟨-, -, ha⟩ := hended
    have hgeo : m.device.geometry = l.device.geometry := ha.geometry
    refine (eraseFrom_ends count m _ (hgeo ▸ h.next)).imp (fun _ _ _ => trivial) ?_ fun htop => hgeo ▸ htop
    intro _ k hended
    obtain ⟨-, -, -, hagree⟩ := hended
    right
    rw [hgeo] at hagree
    rw [← hfirst m ha]
    exact hagree _ (Or.inl (by omega))
  · intro _ m hended
    obtain ⟨-, hd | ha, -⟩ := hended
    · exact Or.inl (by rw [hd])
    · exact Or.inr (hfirst m ha)

/-- A device that is switched off erases nothing. -/
theorem eraseFrom_of_off {count : Nat} (h : AtSectors l.device.geometry (count + 1) start)
    (hoff : l.device.initialized = false) :
    (eraseFrom (count + 1) start).Ends l (fun _ _ => False) (fun _ m => l.Keeps m ∧ m.device = l.device)
      (UInt32.size ≤ l.device.geometry.stop) := by
  simp only [eraseFrom]
  refine (nextSector_ends h).bind ?_ (fun _ _ h => h.elim) h.stop_ge
  intro _ _ hended
  obtain ⟨rfl, rfl, -⟩ := hended
  refine (Link.call_ends (Flash.erase_of_off hoff)).bind ?_ ?_ False.elim
  · intro _ _ hended
    obtain ⟨-, -, h⟩ := hended
    exact h.elim
  · intro e m hended
    obtain ⟨hk, ⟨-, hd, -⟩ | ⟨hd, -⟩⟩ := hended
    · exact ⟨hk, hd⟩
    · exact ⟨hk, hd⟩

/-! Whatever the state of a device, calls on it leave it where it is. -/

/-- Waiting is polling. -/
theorem awaitReady_keeps {I : FlashLink → Prop} {trapped : Prop} (hI : Link.Tolerant I)
    (hpoll : Action.Preserves I trapped poll) : Action.Preserves I trapped awaitReady := by
  have hawait : ∀ polls, Action.Preserves I trapped (Flash.awaitIdle poll polls) := by
    intro polls
    induction polls with
    | zero => exact .fail _
    | succ polls ih =>
      refine .bind hpoll fun answer => ?_
      cases answer with
      | idle => exact .pure ()
      | busy => exact ih
      | error => exact .fail _
  refine hI.accounted (.bind hpoll fun answer => ?_)
  split
  · exact .pure ()
  · exact hawait _

section Fixed
variable {geometry : Geometry} {schedule : Schedule} {trapped : Prop}

private theorem poll_preserves :
    Action.Preserves (Link.Fixed (fun f : Flash => f.geometry = geometry) schedule) trapped poll := by
  refine .get_bind fun l hl => .bind (.set ⟨hl.device, hl.schedule⟩) fun _ => ?_
  split
  · exact .bind (.modify fun m hm => Link.tolerant_fixed.addFailedPoll m _ hm) fun _ => .pure _
  · exact Link.direct_preserves Flash.poll_preserves

/-- Waiting leaves a device where it is. -/
theorem awaitReady_preserves :
    Action.Preserves (Link.Fixed (fun f : Flash => f.geometry = geometry) schedule) trapped awaitReady :=
  awaitReady_keeps Link.tolerant_fixed poll_preserves

/-- Erasing leaves a device where it is. -/
theorem eraseFrom_preserves (htop : UInt32.size ≤ geometry.stop → trapped) (count start : Nat) :
    Action.Preserves (Link.Fixed (fun f : Flash => f.geometry = geometry) schedule) trapped
      (eraseFrom count start) := by
  induction count generalizing start with
  | zero => exact .pure ()
  | succ count ih =>
    refine .bind (Link.direct_preserves (Flash.nextSector?_preserves htop)) fun answer => ?_
    cases answer with
    | none => exact Link.tolerant_fixed.accounted (.fail _)
    | some next =>
      exact .bind (Link.call_preserves Flash.erase_preserves) fun _ => .bind awaitReady_preserves fun _ => ih next

end Fixed

/-- Waiting is not seen by what does not look at polls. -/
theorem awaitReady_of_indifferent {I : FlashLink → Prop} (hI : Link.Indifferent I) :
    Action.Preserves I True awaitReady := by
  refine awaitReady_keeps hI.toTolerant ?_
  refine .get_bind fun l hl => ?_
  refine .bind (.set (hI.count l .poll CallPoint.noConfusion CallPoint.noConfusion hl)) fun _ => ?_
  split
  · exact .bind (.modify fun m hm => hI.addFailedPoll m _ hm) fun _ => .pure _
  · exact hI.direct

end FlashLink
end FirmwareUpdate
