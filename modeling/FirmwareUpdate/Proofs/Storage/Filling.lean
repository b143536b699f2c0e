import FirmwareUpdate.Proofs.Storage.Pausing
import FirmwareUpdate.Proofs.Topology.Registration

/-! How written bytes fill the granule that is gathered. Up to its end they are just put behind one another, so a write
can as well take whole parts of its data, in turns that end with a granule. In no state of a storage is a turn taken in
vain or the array left that holds the granule, and a run whose pending bytes are lost is not taken up again behind
them. -/
namespace FirmwareUpdate

namespace GranuleBuffer

/-- What is missing of the granule. -/
def room (b : GranuleBuffer) : Nat := b.granule - b.bytes.length

def append (b : GranuleBuffer) (part : Bytes) : GranuleBuffer := { b with bytes := b.bytes ++ part }

private theorem isComplete_append {b : GranuleBuffer} {part : Bytes} :
    (b.append part).isComplete = true ↔ b.bytes.length + part.length = b.granule := by
  rw [isComplete, decide_eq_true_eq, append, List.length_append]

private theorem push_eq_append (b : GranuleBuffer) (byte : UInt8) : b.push byte = b.append [byte] := rfl

private theorem append_append (b : GranuleBuffer) (part more : Bytes) :
    (b.append part).append more = b.append (part ++ more) := by
  simp only [append, List.append_assoc]

private theorem append_nil (b : GranuleBuffer) : b.append [] = b := by
  rw [append, List.append_nil]

end GranuleBuffer

namespace Storage
variable {n k : Nat} {s t u : Storage n k} {memory : Memory n k} {entry : Slot} {slot : SlotId} {offset : Nat}
  {data part : Bytes} {mode : WriteMode}

/-! ### Turns -/

/-- The granule is gathered in an array of `granuleLimit` bytes. -/
def requirePart (start stop : Nat) : Op n k Unit :=
  if start ≤ stop ∧ stop ≤ granuleLimit then pure () else Action.trap

/-- One turn: as much of the data as there is room for goes to the granule, which is written out if it is full then. The
result is the rest of the data. A turn that takes nothing traps. -/
def fillOnce (data : Bytes) : Op n k Bytes := do
  let buffer := (← get).buffer
  let part := data.take buffer.room
  if part = [] then Action.trap
  else do
    requirePart buffer.bytes.length (buffer.bytes.length + part.length)
    modify fun s => { s with buffer := s.buffer.append part }
    if (← get).buffer.isComplete then do
      requirePart 0 buffer.granule
      writeOut
    else pure ()
    return data.drop part.length

/-- So many turns at most; data that is left then traps. -/
def fillTurns : Nat → Bytes → Op n k Unit
  | _, [] => pure ()
  | 0, _ :: _ => Action.trap
  | turns + 1, byte :: rest => do fillTurns turns (← fillOnce (byte :: rest))

/-- Fills a partial granule in its array. -/
def forcePart : Op n k Unit := do
  let buffer := (← get).buffer
  if buffer.isWaiting then do
    requirePart buffer.bytes.length buffer.granule
    modify fun s => { s with buffer := s.buffer.padded }
    requirePart 0 buffer.granule
    writeOut
  else pure ()

/-- A write that is made in turns, one for each byte at most. -/
def writeInTurns (slot : SlotId) (offset : Nat) (data : Bytes) (mode : WriteMode) : Op n k Unit := do
  let (memory, entry) ← lookup slot
  requireInside entry offset data.length
  continueRun slot memory offset
  fillTurns data.length data
  match mode with
  | .buffered => pure ()
  | .force => forcePart

/-- Bytes may be pushed in two parts. -/
theorem pushBytes_append (data more : Bytes) :
    (pushBytes (data ++ more) : Op n k Unit) = pushBytes data >>= fun _ => pushBytes more := by
  induction data with
  | nil => rfl
  | cons byte rest ih =>
    simp only [List.cons_append, pushBytes]
    rw [ih, bind_assoc]

/-- A byte that does not complete the granule waits. -/
theorem pushByte_of_short {byte : UInt8} (hshort : s.pending + 1 < s.buffer.granule) :
    (pushByte byte : Op n k Unit) s = .ok () { s with buffer := s.buffer.append [byte] } := by
  have hpartial : ¬(s.buffer.append [byte]).isComplete = true :=
    fun hcomplete => Nat.ne_of_lt hshort (GranuleBuffer.isComplete_append.mp hcomplete)
  simp only [pushByte, GranuleBuffer.push_eq_append]
  rw [Action.bind_of_ok (Action.modify_apply _ _), Action.bind_of_ok (Action.get_apply _), if_neg hpartial]
  rfl

/-- The last byte of a granule has it written out. -/
theorem pushByte_of_last {byte : UInt8} (hlast : s.pending + 1 = s.buffer.granule) :
    (pushByte byte : Op n k Unit) s = writeOut { s with buffer := s.buffer.append [byte] } := by
  have hcomplete : (s.buffer.append [byte]).isComplete = true := GranuleBuffer.isComplete_append.mpr hlast
  simp only [pushByte, GranuleBuffer.push_eq_append]
  rw [Action.bind_of_ok (Action.modify_apply _ _), Action.bind_of_ok (Action.get_apply _), if_pos hcomplete]

/-- What is appended is pending. -/
theorem pending_append (s : Storage n k) (part : Bytes) :
    ({ s with buffer := s.buffer.append part } : Storage n k).pending = s.pending + part.length := List.length_append

/-- Bytes that leave some room are put behind those that are pending. -/
theorem pushBytes_of_short (hshort : s.pending + part.length < s.buffer.granule) :
    (pushBytes part : Op n k Unit) s = .ok () { s with buffer := s.buffer.append part } := by
  induction part generalizing s with
  | nil =>
    rw [GranuleBuffer.append_nil]
    rfl
  | cons byte rest ih =>
    rw [List.length_cons] at hshort
    have hrest :
        ({ s with buffer := s.buffer.append [byte] } : Storage n k).pending + rest.length < s.buffer.granule := by
      rw [pending_append, List.length_singleton]
      omega
    simp only [pushBytes]
    rw [Action.bind_of_ok (pushByte_of_short (by omega)), ih hrest, GranuleBuffer.append_append, List.singleton_append]

/-- Bytes that leave none are put behind those that are pending, and the granule is written out. -/
theorem pushBytes_of_full (hsome : part ≠ []) (hfull : s.pending + part.length = s.buffer.granule) :
    (pushBytes part : Op n k Unit) s = writeOut { s with buffer := s.buffer.append part } := by
  obtain ⟨front, last, rfl⟩ : ∃ front last, part = front ++ [last] :=
    ⟨_, _, (List.dropLast_concat_getLast hsome).symm⟩
  rw [List.length_append, List.length_singleton] at hfull
  have hlast : ({ s with buffer := s.buffer.append front } : Storage n k).pending + 1 = s.buffer.granule := by
    rw [pending_append]
    omega
  have hone : (pushBytes [last] : Op n k Unit) = pushByte last := bind_pure_unit
  rw [pushBytes_append, Action.bind_of_ok (pushBytes_of_short (by omega)), hone, pushByte_of_last hlast,
    GranuleBuffer.append_append]

/-- There is room in the buffer, and the granule fits its array. -/
structure Roomy (s : Storage n k) : Prop where
  short : s.pending < s.buffer.granule
  granule_le : s.buffer.granule ≤ granuleLimit

private theorem writeFile_buffer {d : Fin k} {path : String} {b : GranuleBuffer} :
    Action.Preserves (fun s : Storage n k => s.buffer = b) True (writeFile slot d path offset data) :=
  .bind (handleFor_of_calls (fun _ _ hs => hs) onStore_buffer fun _ => onStore_buffer) fun _ => onStore_buffer

/-- A granule that has been written out makes room for the next one. -/
theorem writeOut_advances : (writeOut : Op n k Unit).Yields s (fun _ t => t.buffer = s.buffer.advanced) := by
  simp only [writeOut]
  rw [Action.Yields, Action.ends_get_bind]
  refine ends_of_lookup (fun _ => trivial) fun memory entry hl => ?_
  rw [ends_lookup_bind hl]
  have hadvance {act : Op n k Unit} (hact : act.Yields s (fun _ t => t.buffer = s.buffer)) :
      (act >>= fun _ => modify fun s => { s with buffer := s.buffer.advanced }).Yields s
        (fun _ t => t.buffer = s.buffer.advanced) :=
    hact.bind fun _ t ht => congrArg GranuleBuffer.advanced ht
  dsimp only
  split
  · trivial
  · split
    · exact Action.word_bind (fun _ => trivial) (hadvance (guarding_yields (onFlash_buffer s rfl).yields))
    · exact hadvance (guarding_yields (writeFile_buffer s rfl).yields)
    · trivial

private theorem requirePart_bind {α : Type} {start stop : Nat} {next : Unit → Op n k α} (hle : start ≤ stop)
    (hstop : stop ≤ granuleLimit) : (requirePart start stop >>= next) = next () := by
  rw [requirePart, if_pos ⟨hle, hstop⟩]
  rfl

/-- A turn takes what there is room for, and does with it what is done with so many single bytes. -/
theorem fillOnce_eq (h : s.Roomy) (hsome : data ≠ []) : (fillOnce data : Op n k Bytes) s =
    (pushBytes (data.take s.buffer.room) >>= fun _ => pure (data.drop s.buffer.room)) s := by
  have hshort : s.buffer.bytes.length < s.buffer.granule := h.short
  have hle := h.granule_le
  have hroom : 0 < s.buffer.room := Nat.sub_pos_of_lt hshort
  generalize hpart : data.take s.buffer.room = part
  have hrest : data.drop part.length = data.drop s.buffer.room := by
    rw [← hpart, List.length_take]
    rcases Nat.le_total s.buffer.room data.length with hmore | hless
    · rw [Nat.min_eq_left hmore]
    · rw [Nat.min_eq_right hless, List.drop_length, List.drop_eq_nil_of_le hless]
  have hpos : part ≠ [] := by
    rw [← hpart, List.ne_nil_iff_length_pos, List.length_take]
    exact Nat.lt_min.mpr ⟨hroom, List.length_pos_iff.mpr hsome⟩
  have hlength : part.length ≤ s.buffer.room := by
    rw [← hpart, List.length_take]
    exact Nat.min_le_left _ _
  have hfits : s.buffer.bytes.length + part.length ≤ s.buffer.granule := by
    rw [GranuleBuffer.room] at hlength
    omega
  simp only [fillOnce]
  rw [Action.bind_of_ok (Action.get_apply s), hpart, if_neg hpos,
    requirePart_bind (Nat.le_add_right _ _) (Nat.le_trans hfits hle), hrest,
    Action.bind_of_ok (Action.modify_apply _ _), Action.bind_of_ok (Action.get_apply _)]
  rcases Nat.lt_or_eq_of_le hfits with hwaits | hfull
  · have hpartial : ¬(s.buffer.append part).isComplete = true :=
      fun hcomplete => Nat.ne_of_lt hwaits (GranuleBuffer.isComplete_append.mp hcomplete)
    rw [if_neg hpartial, Action.bind_of_ok (pushBytes_of_short hwaits)]
  · rw [if_pos (GranuleBuffer.isComplete_append.mpr hfull), requirePart_bind (Nat.zero_le _) hle, Action.bind_apply,
      Action.bind_apply, pushBytes_of_full hpos hfull]

/-- Bytes that there is room for leave some, or make it when the granule is written out. -/
theorem pushBytes_roomy (h : s.Roomy) (hfits : s.pending + part.length ≤ s.buffer.granule) :
    (pushBytes part : Op n k Unit).Yields s (fun _ t => t.Roomy) := by
  rcases Nat.lt_or_eq_of_le hfits with hwaits | hfull
  · rw [Action.Yields, Action.Ends, pushBytes_of_short hwaits]
    exact ⟨by rwa [pending_append], h.granule_le⟩
  · have hsome : part ≠ [] := by
      rintro rfl
      exact absurd hfull (Nat.ne_of_lt h.short)
    rw [Action.Yields, Action.Ends, pushBytes_of_full hsome hfull]
    refine writeOut_advances.imp fun _ t hbuffer => ⟨?_, ?_⟩
    · rw [pending, hbuffer]
      exact Nat.lt_of_le_of_lt (Nat.zero_le _) h.short
    · rw [hbuffer]
      exact h.granule_le

/-- As many turns as there are bytes are enough, and no turn is taken in vain. -/
theorem fillTurns_eq {turns : Nat} (h : s.Roomy) (hturns : data.length ≤ turns) :
    (fillTurns turns data : Op n k Unit) s = pushBytes data s := by
  induction turns generalizing s data with
  | zero =>
    obtain rfl := List.length_eq_zero_iff.mp (Nat.le_zero.mp hturns)
    rfl
  | succ turns ih =>
    cases data with
    | nil => rfl
    | cons byte rest =>
      have hroom : 0 < s.buffer.room := Nat.sub_pos_of_lt h.short
      have hshorter : ((byte :: rest).drop s.buffer.room).length ≤ turns := by
        rw [List.length_drop]
        omega
      have hfits : s.pending + ((byte :: rest).take s.buffer.room).length ≤ s.buffer.granule := by
        have hshort : s.buffer.bytes.length < s.buffer.granule := h.short
        rw [List.length_take, GranuleBuffer.room, pending]
        omega
      calc (fillTurns (turns + 1) (byte :: rest) : Op n k Unit) s
        _ = ((pushBytes ((byte :: rest).take s.buffer.room) >>= fun _ => pure ((byte :: rest).drop s.buffer.room)) >>=
              fillTurns turns) s := by
            simp only [fillTurns]
            rw [Action.bind_apply, fillOnce_eq h (List.cons_ne_nil byte rest), ← Action.bind_apply]
        _ = (pushBytes ((byte :: rest).take s.buffer.room) >>= fun _ =>
              fillTurns turns ((byte :: rest).drop s.buffer.room)) s := by
            rw [bind_assoc]
            simp only [pure_bind]
        _ = (pushBytes ((byte :: rest).take s.buffer.room) >>= fun _ =>
              pushBytes ((byte :: rest).drop s.buffer.room)) s :=
            Action.bind_congr ((pushBytes_roomy h hfits).imp fun _ _ ht => ih ht hshorter)
        _ = (pushBytes (byte :: rest) : Op n k Unit) s := by
            rw [← pushBytes_append, List.take_append_drop]

private theorem forcePart_eq (h : s.Roomy) : (forcePart : Op n k Unit) s = forceOut s := by
  simp only [forcePart, forceOut]
  rw [Action.bind_of_ok (Action.get_apply s), Action.bind_of_ok (Action.get_apply s)]
  have hshort : s.buffer.bytes.length < s.buffer.granule := h.short
  split
  · rw [requirePart_bind (Nat.le_of_lt hshort) h.granule_le, Action.bind_of_ok (Action.modify_apply _ _),
      Action.bind_of_ok (Action.modify_apply _ _), requirePart_bind (Nat.zero_le _) h.granule_le]
  · rfl

/-- Data leaves room for more, however much of it there is. -/
theorem pushBytes_leaves_room (h : s.Roomy) : (pushBytes data : Op n k Unit).Yields s (fun _ t => t.Roomy) := by
  induction data generalizing s with
  | nil => exact h
  | cons byte rest ih =>
    have hone : (pushByte byte : Op n k Unit).Yields s (fun _ t => t.Roomy) := by
      have hfits : (pushBytes [byte] : Op n k Unit).Yields s (fun _ t => t.Roomy) := pushBytes_roomy h h.short
      have hsame : (pushBytes [byte] : Op n k Unit) = pushByte byte := bind_pure_unit
      rwa [hsame] at hfits
    exact hone.bind fun _ _ ht => ih ht

/-- A run that is under way goes on in its granule, and one that is started has a granule of the slot before it. -/
theorem continueRun_roomy (h : s.Paused) (hpos : 0 < s.devices.granule memory.device)
    (hle : s.devices.granule memory.device ≤ granuleLimit)
    (hwaiting : s.pending ≠ 0 → s.buffer.granule ≤ granuleLimit) :
    (continueRun slot memory offset).Yields s (fun _ t => t.Roomy) := by
  simp only [continueRun]
  rw [Action.Yields, Action.ends_get_bind]
  split
  · rename_i hpending
    split
    · exact ⟨h.short, hwaiting (of_decide_eq_true hpending)⟩
    · trivial
  · split
    · exact ⟨hpos, hle⟩
    · trivial

/-! ### At any time -/

/-- The granule of a slot fits the array. -/
theorem Founded.granule_le {devices : Devices n k} (h : Founded devices s) (hl : s.lookup? slot = .ok (memory, entry)) :
    s.devices.granule memory.device ≤ granuleLimit := by
  obtain ⟨index, plan, device, policy, hregister⟩ :=
    h.registered memory (List.mem_of_getElem? (getElem?_of_lookup? hl).1)
  have hle := (Memory.registrable_of_register hregister).granule_le
  rw [h.upheld.setup.deviceGranule, (Memory.register_ok hregister).1]
  exact hle

private theorem Founded.pending_granule_le {devices : Devices n k} (h : Founded devices s) (hpending : s.pending ≠ 0) :
    s.buffer.granule ≤ granuleLimit := by
  obtain ⟨memory, entry, hl, hgranule, -⟩ := h.upheld.paused.waiting hpending
  rw [hgranule]
  exact h.granule_le hl

/-- A write might as well be made in turns. -/
theorem write_eq_turns {devices : Devices n k} (h : Founded devices s) :
    (write slot offset data mode : Op n k Unit) s = writeInTurns slot offset data mode s := by
  simp only [write, writeInTurns]
  refine Action.bind_congr (lookup_yields.imp ?_)
  rintro ⟨memory, entry⟩ _ ⟨rfl, hl⟩
  refine Action.bind_congr (requireInside_yields.imp ?_)
  rintro _ _ rfl
  refine Action.bind_congr ((continueRun_roomy h.upheld.paused (h.fits.granule_pos _ _ _ hl) (h.granule_le hl)
    h.pending_granule_le).imp fun _ t ht => ?_)
  rw [Action.bind_apply, ← fillTurns_eq ht (Nat.le_refl _), ← Action.bind_apply]
  refine Action.bind_congr ?_
  rw [Action.Yields, Action.Ends, fillTurns_eq ht (Nat.le_refl _)]
  refine (pushBytes_leaves_room ht).imp fun _ u hu => ?_
  cases mode with
  | buffered => rfl
  | force => exact (forcePart_eq hu).symm

/-- From one state to a later one things are asked of the storage, and each request comes to an end. -/
inductive Leads : Storage n k → Storage n k → Prop where
  | refl (s : Storage n k) : Leads s s
  | asked {s t u : Storage n k} (request : Request) (h : Leads s t) (hleaves : request.act.Leaves t u) : Leads s u

private theorem Reachable.leads {devices : Devices n k} (h : Reachable devices s) (hleads : s.Leads t) :
    Reachable devices t ∧ s.SameSetup t := by
  induction hleads with
  | refl => exact ⟨h, .refl s⟩
  | @asked t u request _ hleaves ih =>
    obtain ⟨hreachable, hsetup⟩ := ih
    have hthen := (hreachable.founded.fits.upkeep.request request fun _ _ => trivial).leaves (.refl t) hleaves
    exact ⟨hreachable.asked request hleaves, hsetup.trans hthen⟩

/-- Where a run stands with part of a granule no other run can start. -/
theorem Paused.next_off_granule (h : s.Paused) (hpending : s.pending ≠ 0) :
    ¬s.buffer.granule ∣ s.buffer.next := by
  obtain ⟨memory, entry, -, -, haligned, -⟩ := h.waiting hpending
  intro hnext
  have hwhole : s.buffer.granule ∣ s.pending :=
    (Nat.dvd_add_right (Nat.dvd_of_mod_eq_zero haligned)).mp hnext
  exact Nat.not_le.mpr h.short (Nat.le_of_dvd (Nat.pos_of_ne_zero hpending) hwhole)

/-- A run whose pending bytes are lost is not taken up again behind them. -/
theorem Paused.write_refused (h : s.Paused) (hpending : s.pending ≠ 0) (hsetup : s.SameSetup t) (hlost : t.pending = 0)
    (hl : s.lookup? s.buffer.target = .ok (memory, entry)) (hin : s.buffer.next + data.length ≤ entry.size) :
    write s.buffer.target s.buffer.next data mode t = .error (.error .invalidAddress) t := by
  obtain ⟨memory', entry', hl', hgranule, -⟩ := h.waiting hpending
  have hoff : ¬s.buffer.next % t.devices.granule memory.device = 0 := by
    intro haligned
    rw [hl] at hl'
    cases hl'
    rw [hsetup.deviceGranule, ← hgranule] at haligned
    exact h.next_off_granule hpending (Nat.dvd_of_mod_eq_zero haligned)
  have hidle : ¬t.buffer.isWaiting = true := fun hwaiting => of_decide_eq_true hwaiting hlost
  have hrefused : (write s.buffer.target s.buffer.next data mode).Ends t (fun _ _ => False)
      (fun cause u => cause = .invalidAddress ∧ u = t) False := by
    simp only [write, requireInside]
    rw [ends_lookup_bind ((hsetup.lookup? _).trans hl), if_pos hin, Action.ends_pure_bind, Action.ends_bind]
    simp only [continueRun]
    rw [Action.ends_get_bind, if_neg hidle, if_neg hoff]
    exact ⟨rfl, rfl⟩
  obtain ⟨cause, u, hwrite, rfl, rfl⟩ := hrefused.exists_error
  exact hwrite

/-- At any time, whatever was asked of the storage and whichever calls its devices failed: less than a granule is
pending, and if there is any of it, it lies inside its slot, from a granule of the slot on that fits the array. So a
write can be made in turns that each take something and keep to the array, and it comes to an end. If what is pending
is lost, in whatever way, a write that would go on behind it is refused and changes nothing. -/
theorem buffer_well_kept {devices : Devices n k} (h : Reachable devices s) :
    s.pending < s.buffer.granule ∧
      (s.pending ≠ 0 → ∃ memory entry, s.lookup? s.buffer.target = .ok (memory, entry) ∧
        s.buffer.granule = s.devices.granule memory.device ∧ s.buffer.granule ≤ granuleLimit ∧
        s.buffer.offset % s.buffer.granule = 0 ∧ s.buffer.offset + s.pending ≤ entry.size) ∧
      (∀ slot offset data mode, write slot offset data mode s = writeInTurns slot offset data mode s ∧
        ∀ t, write slot offset data mode s ≠ .error .trap t) ∧
      ∀ t, s.Leads t → s.pending ≠ 0 → t.pending = 0 →
        ∀ memory entry, s.lookup? s.buffer.target = .ok (memory, entry) →
          ∀ data mode, s.buffer.next + data.length ≤ entry.size →
            write s.buffer.target s.buffer.next data mode t = .error (.error .invalidAddress) t := by
  have hfounded := h.founded
  have hpaused := hfounded.upheld.paused
  refine ⟨hpaused.short, fun hpending => ?_, fun slot offset data mode => ⟨write_eq_turns hfounded, ?_⟩, ?_⟩
  · obtain ⟨memory, entry, hl, hgranule, haligned, hinside⟩ := hpaused.waiting hpending
    exact ⟨memory, entry, hl, hgranule, hfounded.pending_granule_le hpending, haligned, hinside⟩
  · have hends : (write slot offset data mode).Ends s (fun _ _ => True) (fun _ _ => True) False :=
      ends_of_lookup (fun _ => trivial) fun memory entry hl =>
        (hpaused.write_ends hfounded.fits hl (.refl s) (.refl s)).imp (fun _ _ _ => trivial) (fun _ _ _ => trivial) id
    exact fun t htrap => hends.trapped_of_trap htrap
  · intro t hleads hpending hlost memory entry hl data mode hin
    exact hpaused.write_refused hpending (h.leads hleads).2 hlost hl hin

/-- Three bytes of a granule of eight are pending when another memory is settled. The write that was to come next is
refused. -/
theorem sample_buffer_well_kept :
    let devices := (Sample.secureBoard []).devices
    let s : Storage 1 1 := { devices, memories := [Sample.firstMemory, Sample.secondMemory] }
    let t := s.serve [.init, .write ⟨0, 0⟩ 0 [9, 9, 9] .buffered]
    let u := (Request.settle 1).act.after t
    Reachable devices t ∧ t.pending = 3 ∧ t.buffer.granule = 8 ∧ t.Leads u ∧ u.pending = 0 ∧
      write ⟨0, 0⟩ 3 [9, 9, 9, 9, 9] .buffered u = .error (.error .invalidAddress) u := by
  intro devices s t u
  have hfirst : Reachable devices { devices, memories := [Sample.firstMemory] } :=
    Reachable.new.added (registered_secure Sample.firstMemory (by simp)) rfl
  have hboth : Reachable devices s := hfirst.added (registered_secure Sample.secondMemory (by simp)) rfl
  have hinit := hboth.asked .init (Action.leaves_of_passes (by decide +kernel))
  have hreachable : Reachable devices t :=
    hinit.asked (.write ⟨0, 0⟩ 0 [9, 9, 9] .buffered) (Action.leaves_of_passes (by decide +kernel))
  have hleads : t.Leads u := .asked (.settle 1) (.refl t) (Action.leaves_of_passes (by decide +kernel))
  have hpending : t.pending = 3 := by decide +kernel
  have hlost : u.pending = 0 := by decide +kernel
  have htarget : t.buffer.target = ⟨0, 0⟩ := by decide +kernel
  have hnext : t.buffer.next = 3 := by decide +kernel
  have hlookup : t.lookup? t.buffer.target = .ok (Sample.firstMemory, Sample.slot 0 .theApplication) := by
    rw [htarget]
    rfl
  obtain ⟨-, -, -, hrefused⟩ := buffer_well_kept hreachable
  have hbehind := hrefused u hleads (by rw [hpending]; decide) hlost _ _ hlookup [9, 9, 9, 9, 9] .buffered
    (by rw [hnext]; decide)
  rw [htarget, hnext] at hbehind
  exact ⟨hreachable, hpending, by decide +kernel, hleads, hlost, hbehind⟩

end Storage
end FirmwareUpdate
