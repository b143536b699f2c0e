import FirmwareUpdate.Proofs.Device.Flash

/-! What a flash device holds under any sequence of calls. A call that is refused leaves the device as it was. The
others read a range, clear bits in whole granules or set all bits of whole sectors, and beside the range nothing
changes. -/
namespace FirmwareUpdate.Flash
variable {f g : Flash} {start length : Nat} {data patch : Bytes}

/-- A call to a device, whatever its arguments are. -/
inductive Request where
  | init
  | release
  | read (start length : Nat)
  | write (start : Nat) (data : Bytes)
  | erase (start length : Nat)
  | poll
  deriving DecidableEq

/-- What a call that is served gives back. -/
inductive Reply where
  | done
  | bytes (data : Bytes)
  | status (answer : PollAnswer)
  deriving DecidableEq

def Request.act : Request → Call Reply
  | init => do
    Flash.init
    return .done
  | release => do
    Flash.release
    return .done
  | read start length => return .bytes (← Flash.read start length)
  | write start data => do
    Flash.write start data
    return .done
  | erase start length => do
    Flash.erase start length
    return .done
  | poll => return .status (← Flash.poll)

/-- What is answered to a call. The device goes on after an error. -/
def answer (request : Request) : Action Flash Empty (Except DeviceError Reply) := Action.attempt request.act

/-! ### Cells -/

/-- The byte that the device holds at an address. -/
def cell? (f : Flash) (address : Nat) : Option UInt8 :=
  if f.geometry.base ≤ address then f.contents[address - f.geometry.base]? else none

def bit? (f : Flash) (address bit : Nat) : Option Bool := (f.cell? address).map fun byte => byte.toNat.testBit bit

private theorem cell?_isSome {address : Nat} : (f.cell? address).isSome ↔ f.Spans address 1 := by
  have hlength := f.contents_length
  simp only [cell?, Spans]
  split
  · rw [isSome_getElem?]
    omega
  · rename_i hbase
    exact ⟨nofun, fun hspans => absurd hspans.1 hbase⟩

/-- The bytes of a part that is read are those of the cells. -/
theorem getElem?_slice_contents (hbase : f.geometry.base ≤ start) {i : Nat} (hi : i < length) :
    (Bytes.slice f.contents (start - f.geometry.base) length)[i]? = f.cell? (start + i) := by
  have hplace : start + i - f.geometry.base = start - f.geometry.base + i := by omega
  rw [Bytes.getElem?_slice, if_pos hi, cell?, if_pos (by omega), hplace]

private theorem length_slice_contents (hspans : f.Spans start length) :
    (Bytes.slice f.contents (start - f.geometry.base) length).length = length := by
  obtain ⟨hbase, hstop⟩ := hspans
  rw [Bytes.length_slice, f.contents_length]
  omega

/-- A patch is laid over the cells of its range. -/
theorem cell?_patched (hgeometry : g.geometry = f.geometry)
    (hcontents : g.contents = Bytes.splice f.contents (start - f.geometry.base) patch)
    (hspans : f.Spans start patch.length) (address : Nat) :
    g.cell? address =
      if start ≤ address ∧ address < start + patch.length then patch[address - start]? else f.cell? address := by
  have hlength := f.contents_length
  obtain ⟨hbase, hstop⟩ := hspans
  simp only [cell?, hgeometry, hcontents]
  by_cases hlow : f.geometry.base ≤ address
  · rw [if_pos hlow, if_pos hlow, Bytes.getElem?_splice (by omega)]
    by_cases hbefore : address < start
    · rw [if_pos (by omega), if_neg (by omega)]
    · rw [if_neg (by omega)]
      by_cases hafter : address < start + patch.length
      · rw [if_pos (by omega), if_pos (by omega)]
        congr 1
        omega
      · rw [if_neg (by omega), if_neg (by omega)]
  · rw [if_neg hlow, if_neg hlow, if_neg (by omega)]

/-! ### One call -/

/-- Whether the device does what is asked of it. Reading, writing and erasing take a device that is on and a range
inside it; writing also takes some data in whole granules, and a write that may still be made; erasing takes whole
sectors. -/
def Granted (f : Flash) : Request → Prop
  | .read start length => f.initialized = true ∧ f.Spans start length
  | .write start data => f.initialized = true ∧ f.Spans start data.length ∧ data ≠ [] ∧
      f.geometry.granule ∣ start - f.geometry.base ∧ f.geometry.granule ∣ data.length ∧
      ∀ limit, f.writeLimit = some limit → f.writes.length < limit
  | .erase start length => f.initialized = true ∧ f.Spans start length ∧ f.Spans start 1 ∧
      f.geometry.sector ∣ start - f.geometry.base ∧ f.geometry.sector ∣ length
  | _ => True

/-- The devices do not differ in what no access changes. -/
structure Steady (f g : Flash) : Prop where
  geometry : g.geometry = f.geometry
  initialized : g.initialized = f.initialized
  releases : g.releases = f.releases
  writeLimit : g.writeLimit = f.writeLimit
  busySpan : g.busySpan = f.busySpan

/-- In the cells of the range those bits are left that are set in the data as well. -/
structure Masked (f : Flash) (start : Nat) (data : Bytes) (g : Flash) : Prop extends Steady f g where
  cells : ∀ i byte, data[i]? = some byte →
    ∃ old, f.cell? (start + i) = some old ∧ g.cell? (start + i) = some (old &&& byte)
  beside : ∀ address, address < start ∨ start + data.length ≤ address → g.cell? address = f.cell? address
  writes : g.writes = ⟨start, data⟩ :: f.writes
  erases : g.erases = f.erases

/-- All bits are set in the cells of the range. -/
structure Blanked (f : Flash) (start length : Nat) (g : Flash) : Prop extends Steady f g where
  cells : ∀ i, i < length → g.cell? (start + i) = some 0xFF
  beside : ∀ address, address < start ∨ start + length ≤ address → g.cell? address = f.cell? address
  writes : g.writes = f.writes
  erases : g.erases = (start, length) :: f.erases

/-- What a call that is granted comes to. -/
def Served (f : Flash) : Request → Reply → Flash → Prop
  | .init, reply, g => reply = .done ∧ g = { f with initialized := true }
  | .release, reply, g => reply = .done ∧ g = { f with initialized := false, releases := f.releases + 1 }
  | .read start length, reply, g => g = f ∧
      ∃ data, reply = .bytes data ∧ data.length = length ∧ ∀ i, i < length → data[i]? = f.cell? (start + i)
  | .write start data, reply, g => reply = .done ∧ f.Masked start data g
  | .erase start length, reply, g => reply = .done ∧ f.Blanked start length g
  | .poll, reply, g => g = { f with busyRest := f.busyRest - 1 } ∧
      reply = .status (if f.busyRest = 0 then .idle else .busy)

/-- Programming clears bits of its range, and sets none. -/
theorem program_masked (hin : f.geometry.contains start data.length = true) :
    f.Masked start data (f.program start data hin) := by
  have hspans : f.Spans start data.length := Geometry.contains_iff.mp hin
  have hpatch : (List.zipWith (· &&& ·) (Bytes.slice f.contents (start - f.geometry.base) data.length) data).length =
      data.length := by
    rw [List.length_zipWith, length_slice_contents hspans, Nat.min_self]
  have hcell := cell?_patched (f := f) (g := f.program start data hin) rfl rfl (by rwa [hpatch])
  refine ⟨⟨rfl, rfl, rfl, rfl, rfl⟩, fun i byte hbyte => ?_, fun address hbeside => ?_, rfl, rfl⟩
  · obtain ⟨hi, -⟩ := List.getElem?_eq_some_iff.mp hbyte
    have hinside : f.Spans (start + i) 1 := by
      obtain ⟨hbase, hstop⟩ := hspans
      exact ⟨by omega, by omega⟩
    obtain ⟨old, hold⟩ := Option.isSome_iff_exists.mp (cell?_isSome.mpr hinside)
    refine ⟨old, hold, ?_⟩
    rw [hcell, if_pos (by omega), Nat.add_sub_cancel_left, List.getElem?_zipWith, getElem?_slice_contents hspans.1 hi,
      hold, hbyte]
  · rw [hcell, if_neg (by omega)]

/-- Blanking sets all the bits of its range. -/
theorem blankRange_blanked (hin : f.geometry.contains start length = true) :
    f.Blanked start length (f.blankRange start length hin) := by
  have hspans : f.Spans start length := Geometry.contains_iff.mp hin
  have hcell := cell?_patched (f := f) (g := f.blankRange start length hin) rfl rfl (by rwa [Bytes.length_blank])
  rw [Bytes.length_blank] at hcell
  refine ⟨⟨rfl, rfl, rfl, rfl, rfl⟩, fun i hi => ?_, fun address hbeside => ?_, rfl, rfl⟩
  · rw [hcell, if_pos (by omega), Nat.add_sub_cancel_left, Bytes.getElem?_blank, if_pos hi]
  · rw [hcell, if_neg (by omega)]

/-- The ways in which a call can end: it is granted and served, or it is refused and nothing is changed. -/
inductive Answered (f : Flash) (request : Request) : Except DeviceError Reply → Flash → Prop where
  | refused (cause : DeviceError) (hrefused : ¬f.Granted request) : Answered f request (.error cause) f
  | served {reply : Reply} {g : Flash} (hgranted : f.Granted request) (hserved : f.Served request reply g) :
    Answered f request (.ok reply) g

/-- Each way in which the step ends is one in which the call may be answered. -/
abbrev Answers (f : Flash) (request : Request) (act : Call Reply) : Prop :=
  act.Ends f (fun reply g => f.Answered request (.ok reply) g) (fun cause g => f.Answered request (.error cause) g)
    False

/-- A call is refused at once if it takes a device that is on, or a range inside it, and there is none. -/
theorem access_answers {request : Request} {next : Unit → Call Reply}
    (hneeds : f.Granted request → f.initialized = true ∧ f.Spans start length)
    (hnext : f.initialized = true → f.Spans start length → f.Answers request (next ())) :
    f.Answers request ((do requireInitialized; requireInside start length : Call Unit) >>= next) := by
  refine access_ends.bind ?_ ?_ id
  · rintro _ f ⟨rfl, hon, hspans⟩
    exact hnext hon hspans
  · rintro cause _ ⟨rfl, hrefused⟩
    exact .refused cause fun hgranted => hrefused (hneeds hgranted)

/-- A read is answered with the cells, or refused, as the device stands. -/
theorem read_answers : f.Answers (.read start length) (Request.act (.read start length)) := by
  simp only [Request.act, read]
  rw [bind_assoc, bind_assoc, ← bind_assoc]
  refine access_answers id fun hon hspans => ?_
  rw [bind_assoc, Answers, Action.ends_get_bind]
  exact .served ⟨hon, hspans⟩
    ⟨rfl, _, rfl, length_slice_contents hspans, fun i hi => getElem?_slice_contents hspans.1 hi⟩

private theorem limit_reached_iff : (f.writeLimit.any fun limit => limit ≤ f.writes.length) = true ↔
    ¬∀ limit, f.writeLimit = some limit → f.writes.length < limit := by
  cases f.writeLimit with
  | none => simp
  | some limit => simp

private theorem isSector_iff_spans : f.geometry.isSector start = true ↔
    f.Spans start 1 ∧ f.geometry.sector ∣ start - f.geometry.base := by
  rw [Geometry.isSector, decide_eq_true_eq, Geometry.contains_iff, Nat.dvd_iff_mod_eq_zero]
  rfl

/-- A write clears bits and sets none, or is refused, as the device stands. -/
theorem write_answers (hgranule : 0 < f.geometry.granule) :
    f.Answers (.write start data) (Request.act (.write start data)) := by
  simp only [Request.act, write]
  rw [bind_assoc, bind_assoc, ← bind_assoc]
  refine access_answers (fun hgranted => ⟨hgranted.1, hgranted.2.1⟩) fun hon hspans => ?_
  rw [bind_assoc, Answers, Action.ends_get_bind, Action.ends_bind]
  split
  · rename_i hempty
    exact .refused .unaligned fun hgranted => hgranted.2.2.1 hempty
  rename_i hdata
  rw [if_neg (Nat.ne_of_gt hgranule)]
  split
  · rename_i hmis
    refine .refused .unaligned fun hgranted => ?_
    obtain ⟨-, -, -, hstart, hlength, -⟩ := hgranted
    exact hmis.elim (fun h => h (Nat.mod_eq_zero_of_dvd hstart)) fun h => h (Nat.mod_eq_zero_of_dvd hlength)
  rename_i hgranules
  have hstart : f.geometry.granule ∣ start - f.geometry.base := Nat.dvd_of_mod_eq_zero (by omega)
  have hlength : f.geometry.granule ∣ data.length := Nat.dvd_of_mod_eq_zero (by omega)
  split
  · rename_i hreached
    exact .refused .writeFailed fun hgranted => limit_reached_iff.mp hreached hgranted.2.2.2.2.2
  rename_i hlimit
  have hroom := Decidable.not_not.mp fun hreached => hlimit (limit_reached_iff.mpr hreached)
  have hin : f.geometry.contains start data.length = true := Geometry.contains_iff.mpr hspans
  rw [dif_pos hin]
  exact .served ⟨hon, hspans, hdata, hstart, hlength, hroom⟩ ⟨rfl, program_masked hin⟩

/-- An erase blanks whole sectors, or is refused, as the device stands. -/
theorem erase_answers : f.Answers (.erase start length) (Request.act (.erase start length)) := by
  simp only [Request.act, erase]
  rw [bind_assoc, bind_assoc, ← bind_assoc]
  refine access_answers (fun hgranted => ⟨hgranted.1, hgranted.2.1⟩) fun hon hspans => ?_
  have hin : f.geometry.contains start length = true := Geometry.contains_iff.mpr hspans
  rw [bind_assoc, Answers, Action.ends_get_bind, Action.ends_bind, dif_pos hin]
  split
  · rename_i hsectors
    obtain ⟨hfirst, hstart⟩ := isSector_iff_spans.mp hsectors.1
    exact .served ⟨hon, hspans, hfirst, hstart, Nat.dvd_of_mod_eq_zero hsectors.2⟩ ⟨rfl, blankRange_blanked hin⟩
  · rename_i hsectors
    refine .refused .eraseFailed fun hgranted => hsectors ?_
    obtain ⟨-, -, hfirst, hstart, hlength⟩ := hgranted
    exact ⟨isSector_iff_spans.mpr ⟨hfirst, hstart⟩, Nat.mod_eq_zero_of_dvd hlength⟩

/-- A poll is answered as the device stands. -/
theorem poll_answers : f.Answers .poll (Request.act .poll) := by
  simp only [Request.act, poll]
  rw [bind_assoc, Answers, Action.ends_get_bind, Action.ends_bind]
  split
  · rename_i hrest
    have hsame : f.busyRest - 1 = f.busyRest := by omega
    refine .served trivial ⟨?_, ?_⟩
    · rw [hsame]
    · rw [if_pos hrest]
  · rename_i hrest
    exact .served trivial ⟨rfl, by rw [if_neg hrest]⟩

/-- No call traps. -/
theorem request_answers (hgranule : 0 < f.geometry.granule) (request : Request) :
    f.Answers request request.act := by
  cases request with
  | init => exact .served trivial ⟨rfl, rfl⟩
  | release => exact .served trivial ⟨rfl, rfl⟩
  | read start length => exact read_answers
  | write start data => exact write_answers hgranule
  | erase start length => exact erase_answers
  | poll => exact poll_answers

/-- Every request to a device with a granule is answered. -/
theorem exists_answer (hgranule : 0 < f.geometry.granule) (request : Request) :
    ∃ result g, answer request f = .ok result g ∧ f.Answered request result g :=
  Action.Ends.exists_ok ((request_answers hgranule request).attempt (fun _ _ h => h) (fun _ _ h => h) id)

/-! ### Sequences of calls -/

variable {request : Request} {requests : List Request} {result : Except DeviceError Reply}
  {results : List (Except DeviceError Reply)} {address bit : Nat}

/-- Each of the calls is answered on the device that the calls before it have left. -/
inductive Trace : Flash → List Request → List (Except DeviceError Reply) → Flash → Prop where
  | nil (f : Flash) : Trace f [] [] f
  | cons {f g k : Flash} {request : Request} {requests : List Request} {result : Except DeviceError Reply}
      {results : List (Except DeviceError Reply)} (hfirst : f.Answered request result g)
      (hrest : Trace g requests results k) : Trace f (request :: requests) (result :: results) k

private theorem Answered.geometry (h : f.Answered request result g) : g.geometry = f.geometry := by
  cases h with
  | refused => rfl
  | served _ hserved =>
    cases request with
    | init => rw [hserved.2]
    | release => rw [hserved.2]
    | read start length => rw [hserved.1]
    | write start data => exact hserved.2.geometry
    | erase start length => exact hserved.2.geometry
    | poll => rw [hserved.1]

/-- Requests to a device with a granule are all answered, one after another. -/
theorem exists_trace (hgranule : 0 < f.geometry.granule) (requests : List Request) :
    ∃ results g, requests.mapM answer f = .ok results g ∧ Trace f requests results g := by
  induction requests generalizing f with
  | nil => exact ⟨[], f, rfl, .nil f⟩
  | cons request requests ih =>
    obtain ⟨result, g, hanswer, hanswered⟩ := exists_answer hgranule request
    obtain ⟨results, k, hrun, htrace⟩ := ih (hanswered.geometry ▸ hgranule)
    exact ⟨result :: results, k, Action.mapM_cons_of_ok hanswer hrun, .cons hanswered htrace⟩

private theorem bit?_isSome : (f.bit? address bit).isSome ↔ f.Spans address 1 := by
  rw [bit?, Option.isSome_map, cell?_isSome]

/-- A bit of the cells is set where it was clear only by a call that erases the cell. -/
theorem Answered.sets_bit (h : f.Answered request result g) (hclear : f.bit? address bit = some false)
    (hset : g.bit? address bit = some true) : ∃ start length,
    request = .erase start length ∧ result = .ok .done ∧ start ≤ address ∧ address < start + length := by
  have hchanged : g.cell? address ≠ f.cell? address := by
    intro hsame
    rw [bit?, hsame, ← bit?, hclear] at hset
    cases hset
  cases h with
  | refused => exact absurd rfl hchanged
  | served _ hserved =>
    cases request with
    | init => exact absurd (congrArg (cell? · address) hserved.2) hchanged
    | release => exact absurd (congrArg (cell? · address) hserved.2) hchanged
    | read start length => exact absurd (congrArg (cell? · address) hserved.1) hchanged
    | poll => exact absurd (congrArg (cell? · address) hserved.1) hchanged
    | write start data =>
      have hrange : start ≤ address ∧ address < start + data.length :=
        Decidable.not_not.mp fun hbeside => hchanged (hserved.2.beside address (by omega))
      have hi : address - start < data.length := by omega
      obtain ⟨old, hold, hnew⟩ := hserved.2.cells (address - start) _ (List.getElem?_eq_getElem hi)
      rw [Nat.add_sub_cancel' hrange.1] at hold hnew
      rw [bit?, hold] at hclear
      rw [bit?, hnew] at hset
      have hzero : old.toNat.testBit bit = false := Option.some.inj hclear
      have hone : (old &&& data[address - start]).toNat.testBit bit = true := Option.some.inj hset
      rw [UInt8.toNat_and, Nat.testBit_and, hzero, Bool.false_and] at hone
      cases hone
    | erase start length =>
      have hrange : start ≤ address ∧ address < start + length :=
        Decidable.not_not.mp fun hbeside => hchanged (hserved.2.beside address (by omega))
      exact ⟨start, length, rfl, congrArg Except.ok hserved.1, hrange⟩

/-- A bit that comes to be set was in the range of an erase that was asked for and done. -/
theorem Trace.sets_bit (h : Trace f requests results g) (hclear : f.bit? address bit = some false)
    (hset : g.bit? address bit = some true) : ∃ i start length : Nat, requests[i]? = some (.erase start length) ∧
      results[i]? = some (.ok .done) ∧ start ≤ address ∧ address < start + length := by
  induction h with
  | nil =>
    rw [hclear] at hset
    cases hset
  | @cons f g k request _ result _ hfirst hrest ih =>
    have hthere : (g.bit? address bit).isSome := by
      rw [bit?_isSome, Spans, hfirst.geometry]
      exact bit?_isSome.mp (Option.isSome_of_eq_some hclear)
    obtain ⟨value, hvalue⟩ := Option.isSome_iff_exists.mp hthere
    cases value with
    | true =>
      obtain ⟨start, length, rfl, rfl, hrange⟩ := hfirst.sets_bit hclear hvalue
      exact ⟨0, start, length, rfl, rfl, hrange⟩
    | false =>
      obtain ⟨i, start, length, hrequest, hresult, hrange⟩ := ih hvalue hset
      exact ⟨i + 1, start, length, hrequest, hresult, hrange⟩

/-- Whatever is called, each call is answered: it is refused for its arguments or the state of the device, and then the
device is as it was, or it is served and changes no cell but those of its range. From one state of the device to another
a bit is only set by erasing. -/
theorem session_cells (hgranule : 0 < f.geometry.granule) (requests : List Request) :
    ∃ results g, requests.mapM answer f = .ok results g ∧ Trace f requests results g ∧
      ∀ address bit, f.bit? address bit = some false → g.bit? address bit = some true →
        ∃ i start length : Nat, requests[i]? = some (.erase start length) ∧ results[i]? = some (.ok .done) ∧
          start ≤ address ∧ address < start + length := by
  obtain ⟨results, g, hrun, htrace⟩ := exists_trace hgranule requests
  exact ⟨results, g, hrun, htrace, fun _ _ => htrace.sets_bit⟩

/-- Two sectors of two granules each. The third write that is recorded would be one too many. -/
def sampleDevice : Flash := limitWrites (blank ⟨0x1000, 16, 8, 4, by decide, by decide, by decide⟩ 0) 2

def sampleRequests : List Request :=
  [.write 0x1004 [0, 0, 0, 0], .init, .write 0x1004 [0x0F, 0xFF, 0xF0, 0x00], .write 0x1004 [0xF0, 0xFF, 0xFF, 0xFF],
   .write 0x1006 [0, 0, 0, 0], .write 0x1000 [0, 0, 0, 0], .read 0x1003 4, .erase 0x1004 8, .erase 0x1000 8,
   .read 0x1003 4]

/-- A device refuses what comes before it is on, what is out of place and what is one write too many, and does the rest.
-/
theorem sample_session_cells : 0 < sampleDevice.geometry.granule ∧ ∃ results g,
    sampleRequests.mapM answer sampleDevice = .ok results g ∧ Trace sampleDevice sampleRequests results g ∧
      results = [.error .notInitialized, .ok .done, .ok .done, .ok .done, .error .unaligned, .error .writeFailed,
        .ok (.bytes [0xFF, 0x00, 0xFF, 0xF0]), .error .eraseFailed, .ok .done,
        .ok (.bytes [0xFF, 0xFF, 0xFF, 0xFF])] := by
  have hgranule : 0 < sampleDevice.geometry.granule := by decide
  obtain ⟨results, g, hrun, htrace, -⟩ := session_cells hgranule sampleRequests
  obtain ⟨g', hcomputed⟩ : ∃ g', sampleRequests.mapM answer sampleDevice = .ok [.error .notInitialized, .ok .done,
      .ok .done, .ok .done, .error .unaligned, .error .writeFailed, .ok (.bytes [0xFF, 0x00, 0xFF, 0xF0]),
      .error .eraseFailed, .ok .done, .ok (.bytes [0xFF, 0xFF, 0xFF, 0xFF])] g' := ⟨_, rfl⟩
  rw [hrun] at hcomputed
  exact ⟨hgranule, results, g, hrun, htrace, (EStateM.Result.ok.inj hcomputed).1⟩

end FirmwareUpdate.Flash
