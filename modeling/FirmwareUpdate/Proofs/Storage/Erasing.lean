import FirmwareUpdate.Proofs.Storage.Isolation
import FirmwareUpdate.Proofs.Topology.Registration

/-! What erasing a part of a slot erases: on flash the sectors that hold a byte of it, each of them once,
and in a file the part itself. -/
namespace FirmwareUpdate

/-! ### Sectors -/

namespace Geometry
variable {g : Geometry} {start length : Nat}

/-- Where the sectors start that hold a byte of a range, in ascending order. -/
def sectorsOf (g : Geometry) (start length : Nat) : List Nat :=
  ((List.range (g.size / g.sector)).map (g.base + · * g.sector)).filter fun sector =>
    start < sector + g.sector ∧ sector < start + length

/-- Sectors are counted up to a length by rounding it up. -/
theorem lt_sectorsFor_iff {i : Nat} : i < g.sectorsFor length ↔ i * g.sector < length := by
  have hpos := g.sector_pos
  rw [sectorsFor, Nat.lt_iff_add_one_le, Nat.le_div_iff_mul_le hpos, Nat.succ_mul]
  omega

private theorem filter_range {p : Nat → Bool} (before : Nat) {count after : Nat}
    (hbelow : ∀ i, i < before → p i = false)
    (hinside : ∀ i, i < count → p (before + i) = true) (habove : ∀ i, p (before + count + i) = false) :
    (List.range (before + count + after)).filter p = (List.range count).map (before + ·) := by
  have hfirst : (List.range before).filter p = [] :=
    List.filter_eq_nil_iff.mpr fun i hi => by rw [hbelow i (List.mem_range.mp hi)]; exact Bool.false_ne_true
  have hmiddle : ((List.range count).map (before + ·)).filter p = (List.range count).map (before + ·) :=
    List.filter_eq_self.mpr (List.forall_mem_map.mpr fun i hi => hinside i (List.mem_range.mp hi))
  have hlast : ((List.range after).map (before + count + ·)).filter p = [] :=
    List.filter_eq_nil_iff.mpr (List.forall_mem_map.mpr fun i _ => by rw [habove i]; exact Bool.false_ne_true)
  rw [List.range_add, List.range_add, List.filter_append, List.filter_append, hfirst, hmiddle, hlast,
    List.nil_append, List.append_nil]

/-- The walk from a sector on takes in just the sectors that hold a byte of the range. -/
theorem sectorsOf_eq (hlow : g.base ≤ start) (hsector : (start - g.base) % g.sector = 0)
    (hhigh : start + length ≤ g.stop) (hne : 0 < length) :
    g.sectorsOf start length = (List.range (g.sectorsFor length)).map (start + · * g.sector) := by
  have hpos := g.sector_pos
  obtain ⟨before, hbefore⟩ := Nat.dvd_of_mod_eq_zero hsector
  obtain ⟨total, htotal⟩ := g.sector_dvd
  rw [Nat.mul_comm] at hbefore htotal
  rw [stop] at hhigh
  have hstart : start = g.base + before * g.sector := by omega
  have hroom : length ≤ (total - before) * g.sector := by
    rw [Nat.sub_mul, ← htotal]
    omega
  have hcount : g.sectorsFor length ≤ total - before :=
    Nat.le_of_not_lt fun hlt => absurd (lt_sectorsFor_iff.mp hlt) (Nat.not_lt.mpr hroom)
  have hbelow : before ≤ total := by
    refine Nat.le_of_mul_le_mul_right ?_ hpos
    omega
  obtain ⟨after, hafter⟩ := Nat.exists_eq_add_of_le (show before + g.sectorsFor length ≤ total by omega)
  have hsectors : g.size / g.sector = before + g.sectorsFor length + after := by
    rw [htotal, Nat.mul_div_cancel _ hpos, hafter]
  rw [sectorsOf, List.filter_map, hsectors, filter_range before, List.map_map]
  · refine List.map_congr_left fun i _ => ?_
    rw [Function.comp_apply, Nat.add_mul, hstart, Nat.add_assoc]
  · intro i hi
    have hle : (i + 1) * g.sector ≤ before * g.sector := Nat.mul_le_mul_right _ hi
    rw [Nat.succ_mul] at hle
    simp only [Function.comp_apply, decide_eq_false_iff_not]
    omega
  · intro i hi
    have hlt := lt_sectorsFor_iff.mp hi
    simp only [Function.comp_apply, decide_eq_true_eq, Nat.add_mul]
    omega
  · intro i
    have hge : length ≤ (g.sectorsFor length + i) * g.sector :=
      Nat.le_of_not_lt fun hlt => absurd (lt_sectorsFor_iff.mpr hlt) (by omega)
    simp only [Function.comp_apply, decide_eq_false_iff_not, Nat.add_assoc before, Nat.add_mul before]
    omega

end Geometry

/-- The bytes of a range have been set to what erased ones are, and the string has grown up to its end. -/
structure Bytes.ErasedIn (offset count : Nat) (old new : Bytes) : Prop where
  length : new.length = max old.length (offset + count)
  erased : ∀ i, offset ≤ i → i < offset + count → new[i]? = some 0xFF
  kept : ∀ i, i < offset ∨ offset + count ≤ i → i < old.length → new[i]? = old[i]?
  grown : ∀ i, old.length ≤ i → i < new.length → new[i]? = some 0xFF

private theorem Bytes.erasedIn_splice (old : Bytes) (offset count : Nat) :
    ErasedIn offset count old (splice (extend old (offset + count)) offset (blank count)) := by
  have hgrown := length_extend old (offset + count)
  have hlength : (splice (extend old (offset + count)) offset (blank count)).length =
    max old.length (offset + count) := by
    rw [length_splice (by rw [length_blank]; omega), hgrown]
  have hat : ∀ i, (splice (extend old (offset + count)) offset (blank count))[i]? =
      if offset ≤ i ∧ i < offset + count then some 0xFF
      else if i < old.length then old[i]? else if i < offset + count then some 0xFF else none := by
    intro i
    rw [getElem?_splice (by omega), length_blank, getElem?_blank, getElem?_extend]
    split
    · rw [if_neg (c := offset ≤ i ∧ i < offset + count) (by omega)]
    · split
      · rw [if_pos (by omega), if_pos (by omega)]
      · rw [if_neg (c := offset ≤ i ∧ i < offset + count) (by omega)]
  refine ⟨hlength, fun i hlow hhigh => ?_, fun i hout hin => ?_, fun i hlow hhigh => ?_⟩
  · rw [hat, if_pos ⟨hlow, hhigh⟩]
  · rw [hat, if_neg (by omega), if_pos hin]
  · rw [hlength] at hhigh
    rw [hat, if_neg (c := i < old.length) (by omega), if_pos (c := i < offset + count) (by omega), ite_self]

namespace Storage
variable {n k : Nat} {s t : Storage n k} {memory : Memory n k} {entry : Slot} {slot : SlotId}
  {d : Fin n} {f : Fin k} {address offset length : Nat} {path : String}

/-! ### Flash -/

/-- The sectors that hold a byte of a range have been erased, each of them once and in ascending order, and
nothing else has been done. The record holds the latest first. -/
structure SectorsErased (d : Fin n) (start length : Nat) (s t : Storage n k) : Prop where
  record : (t.flash d).erases = (((s.flash d).geometry.sectorsOf start length).map
    (·, (s.flash d).geometry.sector)).reverse ++ (s.flash d).erases
  erased : ∀ sector ∈ (s.flash d).geometry.sectorsOf start length, ∀ i, i < (s.flash d).geometry.sector →
    (t.flash d).contents[sector + i - (s.flash d).geometry.base]? = some 0xFF
  kept : ∀ i, (∀ sector ∈ (s.flash d).geometry.sectorsOf start length, (s.flash d).geometry.base + i < sector ∨
    sector + (s.flash d).geometry.sector ≤ (s.flash d).geometry.base + i) →
    (t.flash d).contents[i]? = (s.flash d).contents[i]?
  others : t = s.withFlash d (t.flashLink d)
  buffer : t.buffer = s.buffer

private theorem sectorsErased_withFlash {start : Nat} {link : FlashLink}
    (hsectors : FlashLink.AtSectors (s.flash d).geometry ((s.flash d).geometry.sectorsFor length) start)
    (hhigh : start + length ≤ (s.flash d).geometry.stop) (hne : 0 < length)
    (hcontents : link.device.contents = Bytes.splice (s.flash d).contents (start - (s.flash d).geometry.base)
      (Bytes.blank ((s.flash d).geometry.sectorsFor length * (s.flash d).geometry.sector)))
    (herases : link.device.erases = ((List.range ((s.flash d).geometry.sectorsFor length)).map fun i =>
      (start + i * (s.flash d).geometry.sector, (s.flash d).geometry.sector)).reverse ++ (s.flash d).erases) :
    SectorsErased d start length s (s.withFlash d link) := by
  have hlow := hsectors.base_le
  have hstop := hsectors.le_stop
  have hlength := (s.flash d).contents_length
  have hof := Geometry.sectorsOf_eq hlow hsectors.onSector hhigh hne
  have hmem : ∀ j, j < (s.flash d).geometry.sectorsFor length →
      start + j * (s.flash d).geometry.sector ∈ (s.flash d).geometry.sectorsOf start length := by
    intro j hj
    rw [hof]
    exact List.mem_map_of_mem (List.mem_range.mpr hj)
  have hat : ∀ i, link.device.contents[i]? =
      if i < start - (s.flash d).geometry.base then (s.flash d).contents[i]?
      else if i < start - (s.flash d).geometry.base +
        (s.flash d).geometry.sectorsFor length * (s.flash d).geometry.sector then some 0xFF
      else (s.flash d).contents[i]? := by
    intro i
    rw [hcontents, Bytes.getElem?_splice (by omega), Bytes.length_blank, Bytes.getElem?_blank]
    split
    · rfl
    · split
      · rw [if_pos (by omega)]
      · rfl
  refine ⟨?_, ?_, ?_, ?_, rfl⟩
  · rw [flash_withFlash, herases, hof, List.map_map]
    rfl
  · intro sector hsector i hi
    rw [hof] at hsector
    obtain ⟨j, hj, rfl⟩ := List.mem_map.mp hsector
    have hle := Nat.mul_le_mul_right (s.flash d).geometry.sector (List.mem_range.mp hj)
    rw [Nat.succ_mul] at hle
    rw [flash_withFlash, hat, if_neg (by omega), if_pos (by omega)]
  · intro i hout
    rw [flash_withFlash, hat]
    split
    · rfl
    · split
      · -- the sector that the byte lies in has been erased
        rename_i hbelow habove
        have hdiv := Nat.div_add_mod (i - (start - (s.flash d).geometry.base)) (s.flash d).geometry.sector
        have hmod := Nat.mod_lt (i - (start - (s.flash d).geometry.base)) (s.flash d).geometry.sector_pos
        rw [Nat.mul_comm] at hdiv
        have hsector := hout _ (hmem ((i - (start - (s.flash d).geometry.base)) / (s.flash d).geometry.sector)
          ((Nat.div_lt_iff_lt_mul (s.flash d).geometry.sector_pos).mpr (by omega)))
        omega
      · rfl
  · rw [flashLink_withFlash, if_pos rfl]

/-- On flash the sectors are erased that hold a byte of the part, in one guarded call. -/
theorem eraseSectors_ends (hs : s.InOrder) (hl : s.lookup? slot = .ok (memory, entry)) (hd : memory.device = .flash d)
    (ha : entry.location = .flash address) (hin : offset + length ≤ entry.size) (hne : 0 < length)
    (hsector : offset % (s.flash d).geometry.sector = 0) :
    (guarding slot.memory (onFlash d
      (FlashLink.eraseFrom ((s.flash d).geometry.sectorsFor length) (address + offset)))).Ends s
      (fun _ t => SectorsErased d (address + offset) length s t) (fun _ t => s.Faulted t)
      (UInt32.size ≤ (s.flash d).geometry.stop) := by
  have hregion := hs.sound.flash hl hd ha
  have hstop := hregion.le_stop
  obtain ⟨hsectors, -⟩ := hregion.atSectors hin hsector
  have hcalls : (onFlash d (FlashLink.eraseFrom ((s.flash d).geometry.sectorsFor length) (address + offset))).Ends s
      (fun _ t => SectorsErased d (address + offset) length s t)
      (fun _ t => Changes (fun _ => True) s t ∧ s.Faulted t) (UInt32.size ≤ (s.flash d).geometry.stop) := by
    have hwalk := (FlashLink.eraseFrom_ends _ _ _ hsectors).and_yields (FlashLink.eraseFrom_erases _ _ _ hsectors)
    refine onFlash_ends.mpr (hwalk.imp ?_ ?_ id)
    · intro _ link hended
      obtain ⟨⟨-, -, -, hcontents⟩, herases⟩ := hended
      refine sectorsErased_withFlash hsectors ?_ hne hcontents herases
      rw [Geometry.stop]
      omega
    · intro _ link hended
      obtain ⟨hk, hlt, hg, -⟩ := hended
      refine ⟨withFlash_changes hk hg fun i hi => (hi trivial).elim, .flash d, ?_⟩
      rwa [faultsOn_withFlash]
  exact (guarding_ends_of_faulted hs (getElem?_of_lookup? hl).1 hcalls).imp (fun _ _ h => h) (fun _ _ h => h.2) id

/-! ### Files -/

/-- A range of a file has been erased, and no other byte has changed. -/
structure FileErased (f : Fin k) (path : String) (offset length : Nat) (s t : Storage n k) : Prop where
  file : ∃ bytes, (t.store f).file? path = some bytes ∧
    Bytes.ErasedIn offset length (((s.store f).file? path).getD []) bytes
  others : ∀ p, p ≠ .file f path → t.valueAt p = s.valueAt p
  buffer : t.buffer = s.buffer

private theorem handleFor_contents {mode : FileMode} {p : String} :
    (handleFor slot f path mode).Yields s
      (fun _ t => ((t.store f).file? p).getD [] = ((s.store f).file? p).getD []) := by
  let kept : FileStore → Prop := fun store => (store.file? p).getD [] = ((s.store f).file? p).getD []
  have hcalls : ∀ {α : Type} {call : FileLink.Call α},
      Action.Preserves (Link.Fixed kept (s.fileLink f).schedule) True call →
      Action.Preserves (fun t : Storage n k => Link.Fixed kept (s.fileLink f).schedule (t.fileLink f)) True
        (onStore f call) := by
    intro α call hcall
    refine hcall.focus (fun _ ht => ht) fun t link _ hlink => ?_
    show Link.Fixed kept _ ((t.withStore f link).fileLink f)
    rwa [fileLink_withStore, if_pos rfl]
  have hhandle : Action.Preserves (fun t : Storage n k => Link.Fixed kept (s.fileLink f).schedule (t.fileLink f)) True
      (handleFor slot f path mode) :=
    handleFor_of_calls (fun _ _ ht => ht) (hcalls (Link.call_preserves FileStore.openFile_contents)) fun handle =>
      hcalls (Link.call_preserves FileStore.close_contents)
  exact (hhandle s ⟨rfl, rfl⟩).yields.imp fun _ _ ht => ht.device

/-- In a file the part itself is erased, in one guarded call. -/
theorem eraseFile_ends (hs : s.InOrder) (hl : s.lookup? slot = .ok (memory, entry)) (hd : memory.device = .files f)
    (hp : entry.location = .file path) (hin : offset + length ≤ entry.size) :
    (guarding slot.memory (eraseFile slot f path offset length)).Ends s
      (fun _ t => FileErased f path offset length s t) (fun _ t => s.Faulted t) False := by
  have hpatch : (eraseFile slot f path offset length).Ends s
      (fun _ t => Patched memory entry offset (Bytes.blank length) s t ∧ t.buffer = s.buffer)
      (fun _ t => Touched memory entry s t ∧ s.Faulted t ∧ t.held memory entry = s.held memory entry) False := by
    refine patchFile_ends hs hl hd hp (by rwa [Bytes.length_blank]) fun link handle hpath => ?_
    rw [Bytes.length_blank]
    exact FileLink.erase_ends hpath
  have hfile : (eraseFile slot f path offset length).Yields s (fun _ t => (t.store f).file? path =
      some (Bytes.splice (Bytes.extend (((s.store f).file? path).getD []) (offset + length)) offset
        (Bytes.blank length))) := by
    have hhandle : (handleFor slot f path .readWrite).Yields s (fun handle t => (t.store f).pathOf? handle = some path ∧
        ((t.store f).file? path).getD [] = ((s.store f).file? path).getD []) :=
      ((handleFor_ends hs hl hd hp).and_yields handleFor_contents).yields.imp fun _ _ h => ⟨h.1.2, h.2⟩
    refine hhandle.bind fun handle t hended => ?_
    obtain ⟨hpath, hcontents⟩ := hended
    refine onStore_ends.mpr ((FileLink.erase_ends hpath).yields.imp fun _ link hended => ?_)
    rw [store_withStore, hended.2.2.file]
    exact congrArg (fun old => some (Bytes.splice (Bytes.extend old (offset + length)) offset (Bytes.blank length)))
      hcontents
  have hcalls : (eraseFile slot f path offset length).Ends s _
      (fun _ t => Changes (s.within memory entry) s t ∧ s.Faulted t) False :=
    (hpatch.and_yields hfile).imp (fun _ _ h => h) (fun _ _ h => ⟨h.1.changes, h.2.1⟩) id
  refine (guarding_ends_of_faulted hs (getElem?_of_lookup? hl).1 hcalls).imp ?_ (fun _ _ h => h.2) id
  intro _ t hended
  obtain ⟨⟨hpatched, hbuffer⟩, hbytes⟩ := hended
  refine ⟨⟨_, hbytes, Bytes.erasedIn_splice _ _ _⟩, fun p hne => hpatched.changes.same p fun hwithin => hne ?_, hbuffer⟩
  cases p with
  | cell d' i =>
    have hflash := hd.symm.trans hwithin.1
    cases hflash
  | file f' path' =>
    have hdevice := hd.symm.trans hwithin.1
    have hlocation := hp.symm.trans hwithin.2
    cases hdevice
    cases hlocation
    rfl

/-! ### Slots -/

/-- Erasing a part of a slot erases just what it is to erase. On flash that is the sectors that hold a byte of
the part, which are the slot's own; the part has to start with one of them. In a file it is the part itself.
Only a device that fails keeps it from being done, and bytes that are pending stay pending. -/
theorem erase_exact (hs : s.InOrder) (hl : s.lookup? slot = .ok (memory, entry)) (hin : offset + length ≤ entry.size) :
    (length = 0 → erase slot offset length s = .ok ⟨⟩ s) ∧
      (∀ d address, memory.device = .flash d → entry.location = .flash address → 0 < length →
        ((¬ ∃ i, address + offset = (s.flash d).geometry.base + i * (s.flash d).geometry.sector) →
          erase slot offset length s = .error (.error .invalidAddress) s) ∧
        ((∃ i, address + offset = (s.flash d).geometry.base + i * (s.flash d).geometry.sector) →
          (s.flash d).geometry.stop < UInt32.size →
          (erase slot offset length).Ends s (fun _ t => SectorsErased d (address + offset) length s t ∧
            ∀ sector ∈ (s.flash d).geometry.sectorsOf (address + offset) length,
              address ≤ sector ∧ sector + (s.flash d).geometry.sector ≤ address + entry.size)
            (fun _ t => s.Faulted t) False)) ∧
      ∀ f path, memory.device = .files f → entry.location = .file path → 0 < length →
        (erase slot offset length).Ends s (fun _ t => FileErased f path offset length s t)
          (fun _ t => s.Faulted t) False := by
  refine ⟨fun hzero => ?_, fun d address hd ha hne => ?_, fun f path hd hp hne => ?_⟩
  · have hnothing : (erase slot offset length).Ends s (fun _ t => t = s) (fun _ _ => False) False := by
      simp only [erase]
      rw [ends_lookup_bind hl]
      simp only [requireInside, if_pos hin, Action.ends_pure_bind, if_pos hzero]
      rfl
    obtain ⟨_, _, herase, rfl⟩ := hnothing.exists_ok
    exact herase
  · have hregion := hs.sound.flash hl hd ha
    have hlow := hregion.base_le
    have hhigh := hregion.le_stop
    have hboundary : (∃ i, address + offset = (s.flash d).geometry.base + i * (s.flash d).geometry.sector) ↔
        offset % (s.flash d).geometry.sector = 0 := by
      rw [← hregion.isSector_iff (by omega), Memory.isSector_iff_exists (by omega) (by rw [Geometry.stop]; omega)]
    rw [hboundary]
    refine ⟨fun hoff => ?_, fun hsector hbelow => ?_⟩
    · have hrefused : (erase slot offset length).Ends s (fun _ _ => False)
          (fun cause t => cause = .invalidAddress ∧ t = s) False :=
        erase_of_flash hl hregion hd ha hin (Nat.ne_of_gt hne) (fun _ => ⟨rfl, rfl⟩) fun hsector => (hoff hsector).elim
      obtain ⟨_, _, herase, rfl, rfl⟩ := hrefused.exists_error
      exact herase
    · refine erase_of_flash hl hregion hd ha hin (Nat.ne_of_gt hne) (fun hoff => (hoff hsector).elim) fun _ => ?_
      refine (eraseSectors_ends hs hl hd ha hin hne hsector).imp (fun _ t herased => ⟨herased, ?_⟩) (fun _ _ h => h)
        (Nat.not_le.mpr hbelow)
      intro sector hmem
      obtain ⟨hsectors, hinside⟩ := hregion.atSectors hin hsector
      rw [Geometry.sectorsOf_eq hsectors.base_le hsectors.onSector (by rw [Geometry.stop]; omega) hne] at hmem
      obtain ⟨j, hj, rfl⟩ := List.mem_map.mp hmem
      have hle := Nat.mul_le_mul_right (s.flash d).geometry.sector (List.mem_range.mp hj)
      rw [Nat.succ_mul] at hle
      omega
  · simp only [erase]
    rw [ends_lookup_bind hl]
    simp only [requireInside, if_pos hin, Action.ends_pure_bind, if_neg (Nat.ne_of_gt hne), hd, hp]
    exact eraseFile_ends hs hl hd hp hin

/-- One byte more than a sector is erased with the two sectors of the slot; what lies below it stays. -/
theorem sample_erase_exact :
    let programmed : Flash := { Flash.blank Sample.geometry with
      initialized := true, contents := List.replicate 384 0, contents_length := List.length_replicate }
    let entry : Slot := ⟨⟨.flash 128, 256⟩, .theApplication, 0⟩
    let memory : Memory 1 0 := ⟨.primary, .flash 0, [entry]⟩
    let s : Storage 1 0 := { devices := Sample.alone programmed, memories := [memory] }
    ∃ t, erase ⟨0, 0⟩ 0 129 s = .ok ⟨⟩ t ∧ SectorsErased 0 128 129 s t ∧
      (t.flash 0).erases = [(256, 128), (128, 128)] ∧ (t.flash 0).contents[127]? = some 0 := by
  intro programmed entry memory s
  have hregister : Memory.register s.devices 0 ⟨.primary, .flash, [⟨.flash 128, 256⟩], by decide⟩ (.flash 0) {} =
      .ok memory := by with_unfolding_all rfl
  have hsound : s.Sound := by
    refine sound_of_checked (fun other hmem => ?_) (by decide)
    obtain rfl := List.mem_singleton.mp hmem
    exact checked_of_register hregister
  have hs : s.InOrder := ⟨hsound, fun file hfile => by cases hfile⟩
  have hpasses : ((erase ⟨0, 0⟩ 0 129).passes s fun _ t =>
      decide ((t.flash 0).erases = [(256, 128), (128, 128)] ∧ (t.flash 0).contents[127]? = some 0)) = true := by
    decide +kernel
  obtain ⟨_, t, herase, hcheck⟩ := Action.exists_of_passes hpasses
  have hlookup : s.lookup? ⟨0, 0⟩ = .ok (memory, entry) := rfl
  have hin : 0 + 129 ≤ entry.size := by decide
  obtain ⟨-, hflash, -⟩ := erase_exact hs hlookup hin
  have hended := ((hflash 0 128 rfl rfl (by decide)).2 ⟨1, rfl⟩ (by decide)).done_of_ok herase
  exact ⟨t, herase, hended.1, of_decide_eq_true hcheck⟩

end Storage
end FirmwareUpdate
