import FirmwareUpdate.Proofs.Bytes.Span
import FirmwareUpdate.Proofs.Storage.Pausing

/-! Requests that are refused. Where all slots are made up of whole granules, what a storage refuses it refuses before
it has changed anything, so the run that it was asked to go on with before can still go on. -/
namespace FirmwareUpdate.Storage
variable {n k : Nat} {α : Type} {s₀ s t u : Storage n k} {memory : Memory n k} {entry : Slot} {slot : SlotId}
  {offset length : Nat} {data : Bytes} {mode : WriteMode}

/-- The devices hold what they held, and so does the buffer. -/
structure Untouched (s t : Storage n k) : Prop where
  contents : ∀ p, t.valueAt p = s.valueAt p
  buffer : t.buffer = s.buffer

/-- Nothing has been touched, or a call has failed. -/
def Refused (s t : Storage n k) : Prop := s.Untouched t ∨ s.Erred t

/-- Devices have been looked at, and none of the calls has failed. -/
structure Quiet (s t : Storage n k) : Prop extends Untouched s t where
  setup : s.SameSetup t
  calm : s.Calm t

private theorem Untouched.refl (s : Storage n k) : s.Untouched s := ⟨fun _ => rfl, rfl⟩

private theorem Untouched.trans (h : s.Untouched t) (h' : t.Untouched u) : s.Untouched u :=
  ⟨fun p => (h'.contents p).trans (h.contents p), h'.buffer.trans h.buffer⟩

private theorem Quiet.refl (s : Storage n k) : s.Quiet s := ⟨.refl s, .refl s, .refl s⟩

/-- The slots of all memories are made up of whole granules. -/
def WholeSlots (s : Storage n k) : Prop :=
  ∀ memory ∈ s.memories, ∀ entry ∈ memory.slots, entry.size % s.devices.granule memory.device = 0

instance (s : Storage n k) : Decidable s.WholeSlots :=
  inferInstanceAs (Decidable (∀ memory ∈ s.memories, ∀ entry ∈ memory.slots,
    entry.size % s.devices.granule memory.device = 0))

private theorem WholeSlots.of_lookup? (h : s.WholeSlots) (hl : s.lookup? slot = .ok (memory, entry)) :
    entry.size % s.devices.granule memory.device = 0 := by
  obtain ⟨hm, he⟩ := getElem?_of_lookup? hl
  exact h memory (List.mem_of_getElem? hm) entry (List.mem_of_getElem? he)

private theorem WholeSlots.congr (h : s.WholeSlots) (hsetup : s.SameSetup t) : t.WholeSlots := by
  intro memory hmem entry hentry
  rw [hsetup.deviceGranule]
  exact h memory (hsetup.memories ▸ hmem) entry hentry

private theorem guarding_erred {index : Nat} {calls : Call n k α} (hm : s₀.memories[index]? = some memory)
    (hcalm : s₀.Calm s) (h : Action.Reports s₀.Calm (s₀.Struck memory.device) calls) :
    (guarding index calls).Ends s (fun _ t => s₀.Calm t) (fun _ t => s₀.Erred t) True := by
  refine ((guarding_settles hm h).ends hcalm).imp (fun _ _ h => h) ?_ id
  rintro _ t ⟨error, u, -, hstruck, hsettle, -⟩
  exact hstruck.erred hsettle

private theorem lookup_refused {next : Memory n k × Slot → Op n k α}
    (h : ∀ memory entry, s.lookup? slot = .ok (memory, entry) →
      (next (memory, entry)).Ends s (fun _ _ => True) (fun _ t => s.Refused t) True) :
    (lookup slot >>= next).Ends s (fun _ _ => True) (fun _ t => s.Refused t) True :=
  ends_of_lookup (fun _ => Or.inl (.refl s)) fun memory entry hl => (ends_lookup_bind hl).mpr (h memory entry hl)

private theorem requireInside_refused {next : Unit → Op n k α}
    (h : offset + length ≤ entry.size → (next ()).Ends s (fun _ _ => True) (fun _ t => s.Refused t) True) :
    (requireInside entry offset length >>= next).Ends s (fun _ _ => True) (fun _ t => s.Refused t) True := by
  simp only [requireInside]
  split
  · exact h (by assumption)
  · exact Or.inl (.refl s)

/-! ### Reading -/

section Files
variable {d : Fin k} {path : String}

private theorem onStore_untouched {point : CallPoint} {act : FileStore.Call α}
    (h : ∀ contents, Action.Preserves (fun f : FileStore => f.file? = contents) True act) :
    Action.Preserves s.Untouched True (onStore d (Link.call point act)) := by
  intro t ht
  have hsame : ∀ link : FileLink, link.device.file? = (t.store d).file? → s.Untouched (t.withStore d link) := by
    refine fun link hlink => ht.trans ⟨fun p => ?_, rfl⟩
    cases p with
    | cell d' i => rfl
    | file d' path =>
      simp only [valueAt, store, fileLink_withStore]
      split
      · rename_i hd
        exact hd ▸ congrFun hlink path
      · rfl
  have hcall : Action.Preserves (Link.Fixed (fun f : FileStore => f.file? = (t.store d).file?) (t.fileLink d).schedule)
      True (Link.call point act) := Link.call_preserves (h _)
  exact onStore_ends.mpr ((hcall (t.fileLink d) ⟨rfl, rfl⟩).imp (fun _ link hlink => hsame link hlink.device)
    (fun _ link hlink => hsame link hlink.device) id)

private theorem readFile_untouched : Action.Preserves s.Untouched True (readFile slot d path offset length) := by
  -- No file is created in order to be read.
  have hopen : Action.Preserves s.Untouched True (onStore d (FileLink.openFile path .read)) :=
    onStore_untouched fun _ => FileStore.openFile_keeps (fun _ _ h => h) nofun
  have hclose : ∀ handle, Action.Preserves s.Untouched True (onStore d (FileLink.close handle)) := fun handle =>
    onStore_untouched fun _ => FileStore.close_keeps fun _ _ _ h => h
  refine .bind (handleFor_of_calls (fun _ _ ht => ⟨ht.contents, ht.buffer⟩) hopen hclose) fun handle => ?_
  exact .bind (onStore_untouched fun _ => FileStore.read_keeps) fun _ => .pure _

private theorem readFile_length :
    (readFile slot d path offset length).Yields s (fun bytes _ => bytes.length = length) := by
  have hhandle : (handleFor slot d path .read : Call n k Nat).Yields s (fun _ _ => True) :=
    Action.ends_of_all (fun _ _ => trivial) (fun _ _ => trivial) trivial
  refine hhandle.bind fun handle t _ => ?_
  have hread : (onStore d (FileLink.read handle offset length)).Yields t (fun bytes _ => bytes.length ≤ length) :=
    onStore_ends.mpr (Link.call_yields FileStore.read_length)
  refine hread.bind fun bytes _ hle => ?_
  show (Bytes.extend bytes length).length = length
  rw [Bytes.length_extend]
  omega

end Files

private theorem readFlash_untouched {d : Fin n} {start : Nat}
    (h : (s.flash d).geometry.contains start length = true) : (onFlash d (FlashLink.read start length)).Yields s
      (fun bytes t => s.Untouched t ∧ bytes.length = length) := by
  refine onFlash_ends.mpr ((FlashLink.read_ends h).yields.imp ?_)
  rintro bytes link ⟨-, -, hdevice, rfl⟩
  refine ⟨⟨fun p => ?_, rfl⟩, ?_⟩
  · cases p with
    | cell d' i =>
      simp only [valueAt, flash, flashLink_withFlash]
      split
      · rename_i hd
        rw [hd, hdevice]
      · rfl
    | file d' path => rfl
  · have hlength := (s.flash d).contents_length
    have hinside := Geometry.contains_iff.mp h
    rw [Bytes.length_slice]
    show min length ((s.flash d).contents.length - (start - (s.flash d).geometry.base)) = length
    omega

private theorem read_quiet (hfits : s₀.Fits) (hl : s₀.lookup? slot = .ok (memory, entry))
    (hin : offset + length ≤ entry.size)
    (hs : s₀.SameSetup s) (hcalm : s₀.Calm s) :
    (read slot offset length).Ends s
      (fun bytes t => s₀.SameSetup t ∧ s₀.Calm t ∧ s.Untouched t ∧ bytes.length = length)
      (fun _ t => s₀.Erred t) True := by
  have hm := (getElem?_of_lookup? hl).1
  have hsetup : (read slot offset length).Yields s (fun _ t => s₀.SameSetup t) :=
    (hfits.upkeep.read slot offset length s hs).yields
  have hread : (read slot offset length).Ends s
      (fun bytes t => s₀.Calm t ∧ s.Untouched t ∧ bytes.length = length) (fun _ t => s₀.Erred t) True := by
    simp only [read]
    rw [ends_lookup_bind ((hs.lookup? slot).trans hl)]
    simp only [requireInside, if_pos hin, Action.ends_pure_bind]
    rcases hfits.location hl with ⟨d, address, hd, ha⟩ | ⟨d, path, hd, hp⟩
    · have hregion := region_of_checkSlot (hd ▸ hfits.slots slot memory entry hl) ha
      have hb := hregion.base_le
      have he := hregion.le_stop
      have hcontains : (s.flash d).geometry.contains (address + offset) length = true := by
        rw [hs.geometry, Geometry.contains_iff]
        omega
      simp only [hd, ha]
      refine Action.word_bind (fun _ => trivial) ?_
      exact (guarding_erred hm hcalm (hd ▸ readFlash_reports)).and_yields
        (guarding_yields (readFlash_untouched hcontains))
    · simp only [hd, hp]
      refine (guarding_erred hm hcalm (hd ▸ readFile_reports)).and_yields (guarding_yields ?_)
      exact (readFile_untouched s (.refl s)).yields.and_yields readFile_length
  exact (hread.and_yields hsetup).imp (fun _ _ h => ⟨h.2, h.1⟩) (fun _ _ h => h) id

private theorem read_refused (hfits : s.Fits) :
    (read slot offset length).Ends s (fun _ _ => True) (fun _ t => s.Refused t) True := by
  refine ends_of_lookup (fun _ => Or.inl (.refl s)) fun memory entry hl => ?_
  by_cases hin : offset + length ≤ entry.size
  · exact (read_quiet hfits hl hin (.refl s) (.refl s)).imp (fun _ _ _ => trivial) (fun _ _ h => Or.inr h) id
  · have hrefused := read_of_outside hl (Nat.lt_of_not_le hin)
    show (read slot offset length).Ends s _ _ _
    rw [Action.Ends, hrefused]
    exact Or.inl (.refl s)

/-! ### Erasing and writing -/

private theorem erase_refused : (erase slot offset length).Ends s (fun _ _ => True) (fun _ t => s.Refused t) True := by
  refine lookup_refused fun memory entry hl => requireInside_refused fun hin => ?_
  have hm := (getElem?_of_lookup? hl).1
  have herred : ∀ {calls : Call n k Unit}, Action.Reports s.Calm (s.Struck memory.device) calls →
      (guarding slot.memory calls).Ends s (fun _ _ => True) (fun _ t => s.Refused t) True := fun h =>
    (guarding_erred hm (.refl s) h).imp (fun _ _ _ => trivial) (fun _ _ h => Or.inr h) id
  split
  · trivial
  · split
    · rename_i hd _
      refine Action.word_bind (fun _ => trivial) ?_
      rw [Action.ends_get_bind]
      dsimp only
      split
      · exact herred (hd ▸ eraseFlash_reports)
      · exact Or.inl (.refl s)
    · rename_i hd _
      exact herred (hd ▸ eraseFile_reports)
    · exact Or.inl (.refl s)

/-- A copy has come so far: at first nothing has been written, and from the first write on its run is under way. -/
def Copying (s : Storage n k) (slot : SlotId) (memory : Memory n k) (entry : Slot) (position : Nat)
    (t : Storage n k) : Prop :=
  s.Quiet t ∧ position = 0 ∨ Underway s slot memory entry t ∧ t.buffer.next = position

private theorem Copying.setup {position : Nat} (h : Copying s slot memory entry position t) : s.SameSetup t :=
  h.elim (·.1.setup) (·.1.setup)

private theorem Copying.calm {position : Nat} (h : Copying s slot memory entry position t) : s.Calm t :=
  h.elim (·.1.calm) (·.1.calm)

private theorem Copying.untouched {position : Nat} (h : Copying s slot memory entry position t) (hu : t.Untouched u)
    (hsetup : s.SameSetup u) (hcalm : s.Calm u) : Copying s slot memory entry position u := by
  -- What is read in between is of no matter.
  rcases h with ⟨hquiet, hstart⟩ | ⟨hrun, hnext⟩
  · exact Or.inl ⟨⟨hquiet.toUntouched.trans hu, hsetup, hcalm⟩, hstart⟩
  · have hpending : u.pending = t.pending := congrArg (·.bytes.length) hu.buffer
    refine Or.inr ⟨⟨⟨hsetup, hcalm, ?_, ?_, ?_⟩, ?_, ?_⟩, ?_⟩
    · rw [hu.buffer, hrun.target]
    · rw [hu.buffer, hrun.granule]
    · rw [hu.buffer, hrun.aligned]
    · rw [hpending, hu.buffer]
      exact hrun.short
    · rw [hu.buffer]
      exact hrun.inside
    · rw [hu.buffer, hnext]

section Runs
variable (hfits : s.Fits) (hpaused : s.Paused) (hwhole : s.WholeSlots)
include hfits hpaused hwhole

private theorem write_refused :
    (write slot offset data mode).Ends s (fun _ _ => True) (fun _ t => s.Refused t) True := by
  refine ends_of_lookup (fun _ => Or.inl (.refl s)) fun memory entry hl => ?_
  refine (hpaused.write_ends hfits hl (.refl s) (.refl s)).imp (fun _ _ _ => trivial) ?_ False.elim
  rintro _ t (⟨rfl, -⟩ | hlost)
  · exact Or.inl (.refl t)
  · exact Or.inr (hlost.erred (hwhole.of_lookup? hl))

private theorem copyWrite_refused {position : Nat} (hl : s.lookup? slot = .ok (memory, entry))
    (hin : position + data.length ≤ entry.size) (h : Copying s slot memory entry position t) :
    (write slot position data mode).Ends t
      (fun _ u => mode = .buffered → Copying s slot memory entry (position + data.length) u)
      (fun _ u => s.Refused u) True := by
  -- Only the first write of a copy can be refused, when nothing has been touched yet.
  have hlost : ∀ u, Lost s memory entry u → s.Refused u := fun u hu => Or.inr (hu.erred (hwhole.of_lookup? hl))
  rcases h with ⟨hquiet, -⟩ | ⟨hrun, hnext⟩
  · have hstill : t.Paused := hpaused.congr hquiet.setup (Or.inl hquiet.buffer)
    refine (hstill.write_ends hfits hl hquiet.setup hquiet.calm).imp ?_ ?_ False.elim
    · exact fun _ u hu hbuffered => Or.inr ⟨hu.1, hu.2 hbuffered⟩
    · rintro _ u (⟨rfl, -⟩ | hu)
      · exact Or.inl hquiet.toUntouched
      · exact hlost u hu
  · refine (hrun.write_ends hfits hl hnext hin).imp ?_ (fun _ u hu => hlost u hu) False.elim
    exact fun _ u hu hbuffered => Or.inr ⟨hu.1, hu.2 hbuffered⟩

private theorem copySpans_refused {source : SlotId} {memory' : Memory n k} {entry' : Slot} (spans : List Span)
    {start stop : Nat} (hl : s.lookup? slot = .ok (memory, entry)) (hl' : s.lookup? source = .ok (memory', entry'))
    (hspans : Consecutive start spans stop) (hstop : stop ≤ entry.size) (hstop' : stop ≤ entry'.size)
    (h : Copying s slot memory entry start t) :
    (copySpans source slot spans).Ends t (fun _ u => Copying s slot memory entry stop u) (fun _ u => s.Refused u)
      True := by
  induction spans generalizing start t with
  | nil =>
    cases hspans
    exact h
  | cons span rest ih =>
    obtain ⟨rfl, hrest⟩ := hspans
    have hle := hrest.le
    refine (read_quiet hfits hl' (by omega) h.setup h.calm).bind ?_ (fun _ _ h => Or.inr h) id
    rintro bytes u ⟨hsetup, hcalm, huntouched, hlength⟩
    have hin : span.start + bytes.length ≤ entry.size := by omega
    refine (copyWrite_refused hfits hpaused hwhole hl hin (h.untouched huntouched hsetup hcalm)).bind ?_
      (fun _ _ h => h) id
    exact fun _ v hv => ih hrest (hlength ▸ hv rfl)

private theorem copy_refused {source target : SlotId} :
    (copy source target length).Ends s (fun _ _ => True) (fun _ t => s.Refused t) True := by
  simp only [copy]
  split
  · exact Or.inl (.refl s)
  · refine lookup_refused fun memory' entry' hl' => requireInside_refused fun hin' => ?_
    refine lookup_refused fun memory entry hl => requireInside_refused fun hin => ?_
    rw [Nat.zero_add] at hin hin'
    refine (copySpans_refused hfits hpaused hwhole _ hl hl' (spans_consecutive (by decide) length) hin hin'
      (Or.inl ⟨.refl s, rfl⟩)).bind ?_ (fun _ _ h => h) id
    exact fun _ t ht => (copyWrite_refused hfits hpaused hwhole hl hin ht).imp (fun _ _ _ => trivial)
      (fun _ _ h => h) id

/-- An access that fails has touched nothing, or a call has failed. -/
theorem Request.access_refused {request : Request} (h : request.isAccess) :
    (request.act : Op n k Unit).Ends s (fun _ _ => True) (fun _ t => s.Refused t) True := by
  cases request with
  | read slot offset length => exact (read_refused hfits).bind (fun _ _ _ => trivial) (fun _ _ h => h) id
  | write slot offset data mode => exact write_refused hfits hpaused hwhole
  | erase slot offset length => exact erase_refused
  | copy source target length => exact copy_refused hfits hpaused hwhole
  | _ => cases h

end Runs

/-! ### The run that was pending -/

/-- What comes next in the slot of the buffer is taken, unless a call fails. -/
def Continues (s : Storage n k) : Prop :=
  ∃ memory entry, s.lookup? s.buffer.target = .ok (memory, entry) ∧ s.buffer.next ≤ entry.size ∧
    ∀ (data : Bytes) (mode : WriteMode), s.buffer.next + data.length ≤ entry.size →
      (write s.buffer.target s.buffer.next data mode).Ends s
        (fun _ t => mode = .buffered →
          t.buffer.target = s.buffer.target ∧ t.buffer.next = s.buffer.next + data.length)
        (fun _ t => s.Erred t) False

private theorem Paused.continues (h : s.Paused) (hfits : s.Fits) (hwhole : s.WholeSlots) (hpending : s.pending ≠ 0) :
    s.Continues := by
  obtain ⟨memory, entry, hl, hgranule, haligned, hinside⟩ := h.waiting hpending
  refine ⟨memory, entry, hl, hinside, fun data mode hin => ?_⟩
  have hrun : Underway s s.buffer.target memory entry s :=
    ⟨⟨.refl s, .refl s, rfl, hgranule, haligned⟩, h.short, hinside⟩
  refine (hrun.write_ends hfits hl rfl hin).imp ?_ ?_ id
  · exact fun _ t ht hbuffered => ⟨ht.1.target, ht.2 hbuffered⟩
  · exact fun _ t ht => ht.erred (hwhole.of_lookup? hl)

/-- In a storage whose slots are made up of whole granules, whatever has been asked of it before: a request to read,
write, erase or copy that fails although none of its calls has failed leaves no trace. All devices hold what they held,
the buffer is the same, and a run that was pending goes on. -/
theorem refused_leaves_no_trace {devices : Devices n k} (h : Reachable devices s) (hwhole : s.WholeSlots)
    {request : Request} (haccess : request.isAccess) {cause : Error}
    (hact : request.act s = .error (.error cause) t) (hcalls : ∀ device, t.errorsOn device = s.errorsOn device) :
    (∀ p, t.valueAt p = s.valueAt p) ∧ t.buffer = s.buffer ∧ (t.pending ≠ 0 → t.Continues) := by
  have hfounded := h.founded
  have hrefused : s.Refused t :=
    (Request.access_refused hfounded.fits hfounded.upheld.paused hwhole haccess).failed_of_error hact
  have huntouched : s.Untouched t := by
    refine hrefused.resolve_right fun ⟨device, hlt⟩ => ?_
    rw [hcalls device] at hlt
    exact Nat.lt_irrefl _ hlt
  have hthen : Founded devices t := (h.asked request (Or.inr ⟨cause, hact⟩)).founded
  have hsetup : s.SameSetup t :=
    (hfounded.fits.upkeep.request request (fun _ _ => trivial) s (.refl s)).failed_of_error hact
  exact ⟨huntouched.contents, huntouched.buffer, hthen.upheld.paused.continues hthen.fits (hwhole.congr hsetup)⟩

/-- Three bytes are pending when a copy to their slot is asked for. It reads its source before it is refused, and the
run goes on. -/
theorem sample_refused_copy :
    let devices := (Sample.secureBoard []).devices
    let s : Storage 1 1 := { devices, memories := [Sample.firstMemory, Sample.secondMemory] }
    let t := s.serve [.init, .write ⟨0, 0⟩ 0 [9, 9, 9] .buffered]
    ∃ u, (Request.copy ⟨1, 0⟩ ⟨0, 0⟩ 8).act t = .error (.error .invalidParameters) u ∧
      (u.fileLink 0).calls.read = (t.fileLink 0).calls.read + 1 ∧ (∀ p, u.valueAt p = t.valueAt p) ∧
      u.pending = 3 ∧ u.Continues := by
  intro devices s t
  have hfirst : Reachable devices { devices, memories := [Sample.firstMemory] } :=
    Reachable.new.added (registered_secure Sample.firstMemory (by simp)) rfl
  have hboth : Reachable devices s := hfirst.added (registered_secure Sample.secondMemory (by simp)) rfl
  have hinit := hboth.asked .init (Action.leaves_of_passes (by decide +kernel))
  have hreachable : Reachable devices t :=
    hinit.asked (.write ⟨0, 0⟩ 0 [9, 9, 9] .buffered) (Action.leaves_of_passes (by decide +kernel))
  have hended : ((Request.copy ⟨1, 0⟩ ⟨0, 0⟩ 8).act.failsWith t fun cause u => decide (cause = .invalidParameters ∧
      (u.fileLink 0).calls.read = (t.fileLink 0).calls.read + 1 ∧ u.errorsOn (.flash 0) = t.errorsOn (.flash 0) ∧
      u.errorsOn (.files 0) = t.errorsOn (.files 0) ∧ u.pending = 3)) = true := by decide +kernel
  obtain ⟨cause, u, hact, hchecked⟩ := Action.exists_of_failsWith hended
  obtain ⟨rfl, hread, hflash, hfiles, hpending⟩ := of_decide_eq_true hchecked
  have hcalls : ∀ device, u.errorsOn device = t.errorsOn device := by
    rintro (d | d)
    · rwa [Subsingleton.elim d 0]
    · rwa [Subsingleton.elim d 0]
  obtain ⟨hcontents, -, hgoes⟩ := refused_leaves_no_trace hreachable (by decide +kernel) rfl hact hcalls
  exact ⟨u, hact, hread, hcontents, hpending, hgoes (by rw [hpending]; decide)⟩

end FirmwareUpdate.Storage
