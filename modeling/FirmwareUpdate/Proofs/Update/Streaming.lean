import FirmwareUpdate.Proofs.Storage.Writing
import FirmwareUpdate.Proofs.Update.Examine
import FirmwareUpdate.Update.Install

/-! The streaming pass that fills an erased slot with the plain form of the image in another one. What
comes out does not depend on the chunk size or on the granules that are written. -/
namespace FirmwareUpdate
variable {n k : Nat}

/-- What stored bytes stand for, given the cipher they come to. -/
def clearOf (encrypted : Bool) (cipher : Cbc.Cipher) (stored : Bytes) : Bytes :=
  match encrypted, cipher with
  | true, some s => s.decryptWhole stored
  | true, none => []
  | false, _ => stored

/-- The cipher that bytes behind `stored` come to. -/
def cipherAfter (encrypted : Bool) (cipher : Cbc.Cipher) (stored : Bytes) : Cbc.Cipher :=
  if encrypted then cipher.map (·.after stored) else cipher

/-- A cipher that is ready for spans of a payload. -/
def Ready (encrypted : Bool) (cipher : Cbc.Cipher) (spans : List Span) : Prop :=
  encrypted = true → cipher.isSome = true ∧ ∀ span ∈ spans, span.length % Aes.blockLength = 0

section Ready
variable {encrypted : Bool} {cipher : Cbc.Cipher} {span : Span} {rest : List Span} {stored back : Bytes}

private theorem Ready.next (h : Ready encrypted cipher (span :: rest)) :
    Ready encrypted (cipherAfter encrypted cipher stored) rest := by
  intro henc
  obtain ⟨hloaded, hwhole⟩ := h henc
  refine ⟨?_, fun s hs => hwhole s (List.mem_cons_of_mem _ hs)⟩
  rw [cipherAfter, if_pos henc, Option.isSome_map]
  exact hloaded

private theorem Ready.length_clearOf (h : Ready encrypted cipher (span :: rest))
    (hstored : stored.length = span.length) :
    (clearOf encrypted cipher stored).length = span.length := by
  cases encrypted with
  | false => exact hstored
  | true =>
    obtain ⟨hloaded, hwhole⟩ := h rfl
    obtain ⟨s, rfl⟩ := Option.isSome_iff_exists.mp hloaded
    have hblocks := hwhole span List.mem_cons_self
    rw [← hstored] at hblocks ⊢
    exact Cbc.Stream.length_decryptWhole hblocks

private theorem Ready.clearOf_append (h : Ready encrypted cipher (span :: rest))
    (hstored : stored.length = span.length) :
    clearOf encrypted cipher (stored ++ back) = clearOf encrypted cipher stored ++
      clearOf encrypted (cipherAfter encrypted cipher stored) back := by
  cases encrypted with
  | false => rfl
  | true =>
    obtain ⟨hloaded, hwhole⟩ := h rfl
    obtain ⟨s, rfl⟩ := Option.isSome_iff_exists.mp hloaded
    have hblocks := hwhole span List.mem_cons_self
    rw [← hstored] at hblocks
    exact Cbc.Stream.decryptWhole_append hblocks

end Ready

namespace Backend

/-- The chain of an encrypted payload: it starts at the vector and goes on over the known block. -/
def chain? (b : Backend) (key : Key) (bytes : Bytes) : Cbc.Cipher :=
  match Cbc.Stream.start key.bytes (Bytes.slice bytes b.headerLength Cbc.ivLength) with
  | .ok s => some (s.after (Bytes.slice bytes (b.headerLength + Cbc.ivLength) Aes.blockLength))
  | .error _ => none

/-- The payload of a valid image in the clear. -/
def payload (b : Backend) (key : Key) (encrypted : Bool) (bytes : Bytes) (h : Header) : Bytes :=
  clearOf encrypted (b.chain? key bytes)
    (Bytes.slice bytes (b.layoutOf encrypted h).payloadStart h.size.toNat)

/-- The plain image that is installed for a valid image: its raw header, its payload in the clear, and
the digest of the seed and that payload. -/
def plainImage (b : Backend) (key : Key) (encrypted : Bool) (bytes : Bytes) (h : Header) : Bytes :=
  bytes.take b.headerLength ++ b.payload key encrypted bytes h ++
    b.algorithm.digest (h.seed ++ b.payload key encrypted bytes h)

private theorem Accepts.payload_inside {b : Backend} {key : Key} {encrypted : Bool} {bytes : Bytes} {h : Header}
    (ha : b.Accepts key encrypted bytes h) :
    (b.layoutOf encrypted h).payloadStart + h.size.toNat + b.digestLength ≤ bytes.length := by
  have hfits := ha.fits
  simp only [Layout.payloadStart, layoutOf]
  unfold Header.bodyLength at hfits
  cases encrypted with
  | false => exact hfits
  | true =>
    simp only [if_true] at hfits ⊢
    omega

/-- The payload of an accepted image is as long as its header says. -/
theorem Accepts.length_payload {b : Backend} {key : Key} {encrypted : Bool} {bytes : Bytes} {h : Header}
    (ha : b.Accepts key encrypted bytes h) : (b.payload key encrypted bytes h).length = h.size.toNat := by
  have hinside := ha.payload_inside
  have hstored : (Bytes.slice bytes (b.layoutOf encrypted h).payloadStart h.size.toNat).length =
      h.size.toNat := by
    rw [Bytes.length_slice]
    omega
  cases encrypted with
  | false => exact hstored
  | true =>
    obtain ⟨s, hs, -⟩ := ha.rightKey rfl
    have hblocks := ha.wholeBlocks rfl
    rw [← hstored] at hblocks
    rw [payload, chain?, hs]
    exact (Cbc.Stream.length_decryptWhole hblocks).trans hstored

end Backend

namespace Engine
variable {e e' e'' : Engine n k} {v : View n k} {r : Storage.Run n k} {data : Bytes}

/-- A run that fills one slot while another one is read. -/
structure Fills (r : Storage.Run n k) (v : View n k) (data : Bytes) (e : Engine n k) : Prop where
  shows : e.Shows v
  taken : r.Taken data e.storage
  ne : v.slot ≠ r.slot

/-- A step of the run. -/
abbrev Fill (r : Storage.Run n k) (e e' : Engine n k) : Prop :=
  Changes (e.storage.within r.memory r.entry) e e'

/-- How the run of `full` fails: by the fault of a device, if the slot is one of whole granules. -/
structure Spoilt (r : Storage.Run n k) (full : Bytes) (e e' : Engine n k) : Prop where
  changes : Fill r e e'
  dropped : e'.storage.buffer.bytes = []
  faulted : e.storage.Granular r.memory r.entry → e.Faulted e'
  left : r.Left full e'.storage

private theorem Fill.trans (h : Fill r e e') (h' : Fill r e' e'') : Fill r e e'' :=
  Changes.trans h (Changes.mono h' fun p hp => (h.storage.setup.within_iff p).mp hp)

namespace Spoilt
variable {full longer : Bytes}

private theorem after (h : Fill r e e') (hs : Spoilt r full e' e'') : Spoilt r full e e'' :=
  ⟨h.trans hs.changes, hs.dropped, fun hgranular =>
    h.faulted_right (hs.faulted (h.storage.setup.granular.mpr hgranular)), hs.left⟩

private theorem mono (hs : Spoilt r full e e') (hlonger : full <+: longer) : Spoilt r longer e e' :=
  ⟨hs.changes, hs.dropped, hs.faulted, hs.left.mono hlonger⟩

private theorem of_fails {s : Storage n k} (h : r.Fails full e.storage s) : Spoilt r full e { e with storage := s } :=
  ⟨Changes.of_storage h.changes, h.dropped, h.faulted, Storage.Run.left_of_fails h⟩

end Spoilt

namespace Fills

private theorem next {more : Bytes} {s : Storage n k} (h : Fills r v data e) (hstep : r.Step e.storage s)
    (ht : r.Taken more s) : Fills r v more { e with storage := s } := by
  refine ⟨h.shows.of_changes (Changes.of_storage hstep) ?_, ht, h.ne⟩
  exact h.shows.inOrder.sound.apart _ _ _ _ _ _ h.shows.lookup h.taken.lookup h.ne

private theorem of_cipher (h : Fills r v data e) (cipher : Cbc.Cipher) : Fills r v data { e with cipher } :=
  ⟨h.shows.of_still (still_cipher e cipher), h.taken, h.ne⟩

/-- While the image is being filled in, the other slot is read as the view shows it. -/
theorem read_ends {offset length : Nat} (h : Fills r v data e) (hin : offset + length ≤ v.entry.size) :
    (read v.slot offset length).Ends e
      (fun bytes e' => Fill r e e' ∧ e'.cipher = e.cipher ∧ Fills r v data e' ∧
        bytes = Bytes.slice v.bytes offset length)
      (fun _ e' => Spoilt r data e e') e.storage.AtTop := by
  have hread := Storage.Track.read_ends Storage.Run.kept_track h.taken h.shows.lookup hin
  refine onStorage_ends.mpr (hread.imp ?_ (fun _ _ => .of_fails) And.right)
  intro bytes s hended
  obtain ⟨hstill, ht, rfl⟩ := hended
  exact ⟨Changes.of_storage hstill.changes, rfl, h.next hstill.changes ht, by rw [h.shows.bytes]⟩

/-- What is written next is filled in behind what there is. -/
theorem write_ends (more : Bytes) (h : Fills r v data e) (hroom : data.length + more.length ≤ r.entry.size) :
    (write r.slot data.length more .buffered).Ends e
      (fun _ e' => Fill r e e' ∧ e'.cipher = e.cipher ∧ Fills r v (data ++ more) e')
      (fun _ e' => Spoilt r (data ++ more) e e') False := by
  refine onStorage_ends.mpr ((Storage.Run.write_ends more h.taken hroom).imp ?_ (fun _ _ => .of_fails) id)
  intro _ s hended
  obtain ⟨hstep, ht⟩ := hended
  exact ⟨Changes.of_storage hstep, rfl, h.next hstep ht⟩

/-- The last write leaves what came before it in the slot, and all of the run if it does not reach past what has been
erased. It is refused only where it reaches past the slot. -/
theorem last_ends (more : Bytes) (h : Fills r v data e) (hdata : data.length ≤ r.limit) :
    (write r.slot data.length more .force).Ends e
      (fun _ e' => Fill r e e' ∧ data <+: e'.storage.held r.memory r.entry ∧ e'.storage.buffer.bytes = [] ∧
        (data.length + more.length ≤ r.limit → e'.storage.held r.memory r.entry =
          Bytes.splice r.before 0 (Storage.padTo r.granule (data ++ more))))
      (fun _ e' => Spoilt r (Storage.padTo r.granule (data ++ more)) e e' ∨
        e' = e ∧ r.entry.size < data.length + more.length) False := by
  refine onStorage_ends.mpr ((Storage.Run.write_force_ends more h.taken).imp ?_ ?_ id)
  · rintro _ s ⟨hstep, hlaid, hbytes⟩
    have hfront : data <+: Storage.padTo r.granule (data ++ more) :=
      (List.prefix_append _ _).trans (Storage.prefix_padTo _ _)
    refine ⟨Changes.of_storage hstep, hlaid.prefix_held hfront hdata, hbytes, fun hroom => ?_⟩
    exact hlaid.held_padTo (by rwa [List.length_append])
  · rintro _ s (hfails | ⟨rfl, hbeyond⟩)
    · exact Or.inl (.of_fails hfails)
    · exact Or.inr ⟨rfl, hbeyond⟩

end Fills

private theorem clear_bind {α : Type} {encrypted : Bool} {span : Span} {rest : List Span} {stored : Bytes}
    {next : Bytes → Op n k α} {done : α → Engine n k → Prop} {failed : Error → Engine n k → Prop}
    {trapped : Prop} (hready : Ready encrypted e.cipher (span :: rest)) (hstored : stored.length = span.length)
    (h : (next (clearOf encrypted e.cipher stored)).Ends
      { e with cipher := cipherAfter encrypted e.cipher stored } done failed trapped) :
    (if encrypted = true then decrypt stored >>= next else next stored).Ends e done failed trapped := by
  cases encrypted with
  | false => exact h
  | true =>
    obtain ⟨hloaded, hwhole⟩ := hready rfl
    obtain ⟨s, hs⟩ := Option.isSome_iff_exists.mp hloaded
    have hblocks := hwhole span List.mem_cons_self
    rw [← hstored] at hblocks
    rw [if_pos rfl, Action.ends_bind, decrypt_ends hs hblocks]
    rw [hs] at h
    exact h

/-- Whatever the spans, the payload is installed and hashed in the clear as a whole. -/
theorem streamSpans_ends (layout : Layout) (hasher : Hasher) (front : Bytes) (spans : List Span) {start stop : Nat}
    (hspans : Consecutive start spans stop) (hstop : layout.payloadStart + stop ≤ v.entry.size)
    (hroom : layout.bodyStart + stop ≤ r.limit) (hlength : data.length = layout.bodyStart + start)
    (hready : Ready layout.encrypted e.cipher spans) (h : Fills r v data e) :
    (streamSpans v.slot r.slot layout spans (hasher.update front)).Ends e
      (fun result e' => Fill r e e' ∧
        result = hasher.update (front ++ clearOf layout.encrypted e.cipher
          (Bytes.slice v.bytes (layout.payloadStart + start) (stop - start))) ∧
        Fills r v (data ++ clearOf layout.encrypted e.cipher
          (Bytes.slice v.bytes (layout.payloadStart + start) (stop - start))) e')
      (fun _ e' => Spoilt r (data ++ clearOf layout.encrypted e.cipher
        (Bytes.slice v.bytes (layout.payloadStart + start) (stop - start))) e e') e.storage.AtTop := by
  induction spans generalizing start front data e with
  | nil =>
    cases hspans
    have hnone : clearOf layout.encrypted e.cipher [] = [] := by
      simp only [clearOf]
      split <;> rfl
    refine ⟨Changes.refl _ e, ?_, ?_⟩
    · rw [Nat.sub_self, Bytes.slice, List.take_zero, hnone, List.append_nil]
    · rw [Nat.sub_self, Bytes.slice, List.take_zero, hnone, List.append_nil]
      exact h
  | cons span rest ih =>
    obtain ⟨rfl, hrest⟩ := hspans
    have hle := hrest.le
    have hlen := h.shows.length_bytes
    generalize hstored : Bytes.slice v.bytes (layout.payloadStart + span.start) span.length = stored
    have hcount : stored.length = span.length := by
      rw [← hstored, Bytes.length_slice]
      omega
    have hsplit : Bytes.slice v.bytes (layout.payloadStart + span.start) (stop - span.start) =
        stored ++ Bytes.slice v.bytes (layout.payloadStart + (span.start + span.length))
          (stop - (span.start + span.length)) := by
      have hsum : stop - span.start = span.length + (stop - (span.start + span.length)) := by omega
      rw [← hstored, ← Nat.add_assoc, Bytes.slice_append, ← hsum]
    have hclear := hready.length_clearOf hcount
    rw [hsplit, hready.clearOf_append hcount]
    simp only [streamSpans]
    refine (h.read_ends (by omega)).bind ?_ (fun _ _ hs => hs.mono (List.prefix_append _ _)) id
    intro stored' e₁ hended
    obtain ⟨hfill₁, hcipher₁, h₁, hread⟩ := hended
    obtain rfl : stored' = stored := hread.trans hstored
    rw [← hcipher₁] at hready hclear ⊢
    apply clear_bind hready hcount
    generalize hclearOf : clearOf layout.encrypted e₁.cipher stored' = clear at hclear ⊢
    have hlimit := r.limit_le
    have hwrite := (h₁.of_cipher (cipherAfter layout.encrypted e₁.cipher stored')).write_ends clear (by omega)
    rw [hlength] at hwrite
    have hfill : Fill r e { e₁ with cipher := cipherAfter layout.encrypted e₁.cipher stored' } :=
      hfill₁.trans (still_cipher e₁ _).changes
    refine hwrite.bind ?_ ?_ False.elim
    · intro _ e₂ hended
      obtain ⟨hfill₂, hcipher₂, h₂⟩ := hended
      have hnext : Ready layout.encrypted e₂.cipher rest := hcipher₂ ▸ hready.next
      rw [← Hasher.update_append]
      refine (ih _ hrest ?_ hnext h₂).imp ?_ ?_ (hfill.trans hfill₂).storage.setup.atTop.mp
      · rw [List.length_append, hclear]
        omega
      · intro result e₃ hended
        obtain ⟨hfill₃, hresult, h₃⟩ := hended
        rw [hcipher₂] at hresult h₃
        refine ⟨(hfill.trans hfill₂).trans hfill₃, ?_, ?_⟩
        · rw [hresult, List.append_assoc]
        · rw [← List.append_assoc]
          exact h₃
      · rw [hcipher₂, List.append_assoc]
        exact fun _ e₃ hs => hs.after (hfill.trans hfill₂)
    · rw [← List.append_assoc]
      exact fun _ e₂ hs => (hs.after hfill).mono (List.prefix_append _ _)

private theorem openPayload_ends {layout : Layout} (h : Fills r v data e) (hlayout : layout.encrypted = v.encrypted)
    (hstart : layout.bodyStart = v.backend.headerLength)
    (hin : v.encrypted = true → v.backend.headerLength + encryptionLead ≤ v.entry.size)
    (hkey : v.encrypted = true → v.KeyHolds) :
    (openPayload v.slot layout).Ends e
      (fun _ e' => Fill r e e' ∧ Fills r v data e' ∧
        (v.encrypted = true → e'.cipher = v.backend.chain? v.key v.bytes ∧ e'.cipher.isSome = true))
      (fun _ e' => Spoilt r data e e') e.storage.AtTop := by
  have hlen := h.shows.length_bytes
  simp only [openPayload]
  rw [hlayout, hstart]
  split
  · rename_i hencrypted
    have hlead := hin hencrypted
    unfold encryptionLead at hlead
    refine (h.read_ends (by omega)).bind ?_ (fun _ _ hs => hs) id
    intro iv e₁ hended
    obtain ⟨hfill₁, -, h₁, hiv⟩ := hended
    refine (h₁.read_ends (by omega)).bind ?_ (fun _ _ hs => hs.after hfill₁) hfill₁.storage.setup.atTop.mp
    intro coded e₂ hended
    obtain ⟨hfill₂, -, h₂, hcoded⟩ := hended
    have hfill := hfill₁.trans hfill₂
    have hblock : coded.length = Aes.blockLength := by
      rw [hcoded, Bytes.length_slice]
      omega
    obtain ⟨s, hs, -⟩ := hkey hencrypted
    rw [← hiv] at hs
    refine (loadKey_ends iv).bind ?_ ?_ False.elim
    · intro _ _ hended
      obtain ⟨s', hs', rfl⟩ := hended
      rw [h₂.shows.key, hs] at hs'
      cases hs'
      rw [Action.ends_bind, decrypt_ends rfl (by rw [hblock]; rfl)]
      refine ⟨hfill.trans (still_cipher e₂ _).changes, h₂.of_cipher _, fun _ => ⟨?_, rfl⟩⟩
      rw [Backend.chain?, ← hiv, hs, ← hcoded]
    · intro _ _ hended
      obtain ⟨-, refusal, hrefusal, -⟩ := hended
      rw [h₂.shows.key, hs] at hrefusal
      cases hrefusal
  · rename_i hplain
    exact ⟨Changes.refl _ e, h, fun hencrypted => (hplain hencrypted).elim⟩

/-- Of the raw header of the image in `v`, the slot has what has been written there, and the rest of it is erased. -/
def HeaderLeft (v : View n k) (memory : Memory n k) (entry : Slot) (e : Engine n k) : Prop :=
  ∀ i < v.backend.headerLength, (e.storage.held memory entry)[i]? = v.bytes[i]? ∨
    (e.storage.held memory entry)[i]? = some 0xFF

/-- What is left of a header is left of it by an engine that is still. -/
theorem HeaderLeft.of_still {memory : Memory n k} {entry : Slot} (h : HeaderLeft v memory entry e) (he : e.Still e') :
    HeaderLeft v memory entry e' := by
  rw [HeaderLeft, he.storage.held_eq fun _ _ h => h]
  exact h

/-- What a track has left where a header was to go is part of that header. -/
theorem headerLeft_of_left {full : Bytes} (h : r.Left full e.storage)
    (hfull : v.bytes.take v.backend.headerLength <+: full)
    (hlong : v.backend.headerLength ≤ v.bytes.length) (hlimit : v.backend.headerLength ≤ r.limit) :
    HeaderLeft v r.memory r.entry e := by
  intro i hi
  rcases h i (Nat.lt_of_lt_of_le hi hlimit) with herased | ⟨byte, hheld, hbyte⟩
  · exact Or.inr herased
  · obtain ⟨rest, rfl⟩ := hfull
    rw [List.getElem?_append_left (by rw [List.length_take]; omega), List.getElem?_take_of_lt hi] at hbyte
    exact Or.inl (hheld.trans hbyte.symm)

/-- There is no room for the digest in the slot that was to be filled. -/
structure CutShort (v : View n k) (memory : Memory n k) (entry : Slot) (header : Header) (e e' : Engine n k) :
    Prop where
  changes : Changes (e.storage.within memory entry) e e'
  small : entry.size < v.backend.headerLength + header.size.toNat + v.backend.algorithm.digestLength
  front : HeaderLeft v memory entry e'

/-- A slot that is cut short is one however much of it has changed before. -/
theorem CutShort.after {memory : Memory n k} {entry : Slot} {header : Header}
    (h : Changes (e.storage.within memory entry) e e') (hcut : CutShort v memory entry header e' e'') :
    CutShort v memory entry header e e'' :=
  ⟨h.trans (hcut.changes.mono fun p => (h.storage.setup.within_iff p).mp), hcut.small, hcut.front⟩

/-- A valid image fills an erased slot with its plain form, if there is room for its digest. Even if there is not, its
header comes out as it is. -/
theorem fill_ends {header : Header} {chunk : Nat} {text : String} (h : Fills r v [] e)
    (haccepts : v.Accepts header) (hchunk : 0 < chunk) (hblocks : chunk % Aes.blockLength = 0)
    (hroom : v.backend.headerLength + header.size.toNat ≤ r.limit) :
    (do
      let raw ← read v.slot 0 v.backend.headerLength
      write r.slot 0 raw .buffered
      openPayload v.slot (v.backend.layoutOf v.encrypted header)
      let hasher ← streamSpans v.slot r.slot (v.backend.layoutOf v.encrypted header)
        (spans chunk header.size.toNat) ((Hasher.start v.backend.algorithm).update header.seed)
      write r.slot (v.backend.headerLength + header.size.toNat) hasher.value .force
      note .info "transfer" text : Op n k Unit).Ends e
      (fun _ e' => Fill r e e' ∧ e'.storage.buffer.bytes = [] ∧
        v.bytes.take v.backend.headerLength <+: e'.storage.held r.memory r.entry ∧
        (v.backend.headerLength + header.size.toNat + v.backend.algorithm.digestLength ≤ r.limit →
          e'.storage.held r.memory r.entry = Bytes.splice r.before 0
            (Storage.padTo r.granule (v.backend.plainImage v.key v.encrypted v.bytes header))))
      (fun _ e' => Spoilt r (Storage.padTo r.granule (v.backend.plainImage v.key v.encrypted v.bytes header)) e e' ∨
        CutShort v r.memory r.entry header e e') e.storage.AtTop := by
  have hlen := h.shows.length_bytes
  have hcomplete := haccepts.complete
  have hfits := haccepts.fits
  have hfilled : v.bytes.take v.backend.headerLength ++ v.backend.payload v.key v.encrypted v.bytes header <+:
      Storage.padTo r.granule (v.backend.plainImage v.key v.encrypted v.bytes header) :=
    (List.prefix_append _ _).trans (Storage.prefix_padTo _ _)
  have hheaded := (List.prefix_append _ _).trans hfilled
  refine (h.read_ends (by omega)).bind ?_ (fun _ _ hs => Or.inl (hs.mono List.nil_prefix)) id
  intro raw e₁ hended
  obtain ⟨hfill₁, -, h₁, hraw⟩ := hended
  rw [Bytes.slice_zero] at hraw
  have hrawLength : raw.length = v.backend.headerLength := by
    rw [hraw, List.length_take]
    omega
  rw [← hraw] at hfilled hheaded
  have hlimit := r.limit_le
  have hwrite : (write r.slot 0 raw .buffered).Ends e₁ _ _ False :=
    h₁.write_ends raw (by rw [List.length_nil]; omega)
  refine hwrite.bind ?_ (fun _ _ hs => Or.inl ((hs.after hfill₁).mono hheaded)) False.elim
  intro _ e₂ hended
  obtain ⟨hfill₂, -, h₂⟩ := hended
  rw [List.nil_append] at h₂
  have hfill := hfill₁.trans hfill₂
  refine (openPayload_ends h₂ rfl rfl ?_ haccepts.rightKey).bind ?_
    (fun _ _ hs => Or.inl ((hs.after hfill).mono hheaded)) hfill.storage.setup.atTop.mp
  · intro hencrypted
    simp only [hencrypted, Header.bodyLength, if_true] at hfits
    omega
  intro _ e₃ hended
  obtain ⟨hfill₃, h₃, hchain⟩ := hended
  have hfill := hfill.trans hfill₃
  have hready : Ready v.encrypted e₃.cipher (spans chunk header.size.toNat) := fun hencrypted =>
    ⟨(hchain hencrypted).2, fun span hspan => spans_whole hblocks (haccepts.wholeBlocks hencrypted) hspan⟩
  have hinside := haccepts.payload_inside
  have hpayload : clearOf v.encrypted e₃.cipher (Bytes.slice v.bytes
      ((v.backend.layoutOf v.encrypted header).payloadStart + 0) (header.size.toNat - 0)) =
      v.backend.payload v.key v.encrypted v.bytes header := by
    rw [Nat.add_zero, Nat.sub_zero, Backend.payload]
    cases hencrypted : v.encrypted with
    | false => rfl
    | true => rw [(hchain hencrypted).1]
  have hstream := streamSpans_ends (v.backend.layoutOf v.encrypted header)
    (Hasher.start v.backend.algorithm) header.seed _ (spans_consecutive hchunk header.size.toNat)
    (by omega) (by show v.backend.headerLength + _ ≤ _; omega) hrawLength hready h₃
  simp only [show (v.backend.layoutOf v.encrypted header).encrypted = v.encrypted from rfl, hpayload] at hstream
  refine hstream.bind ?_ (fun _ _ hs => Or.inl ((hs.after hfill).mono hfilled)) hfill.storage.setup.atTop.mp
  intro _ e₄ hended
  obtain ⟨hfill₄, rfl, h₄⟩ := hended
  have hfill := hfill.trans hfill₄
  rw [Hasher.value_update_start]
  have hlength : (raw ++ v.backend.payload v.key v.encrypted v.bytes header).length =
      v.backend.headerLength + header.size.toNat := by
    rw [List.length_append, hrawLength, haccepts.length_payload]
  rw [hraw] at h₄ hlength
  have hlast := h₄.last_ends (v.backend.algorithm.digest
    (header.seed ++ v.backend.payload v.key v.encrypted v.bytes header)) (hlength ▸ hroom)
  rw [hlength, Algorithm.length_digest] at hlast
  refine hlast.bind ?_ ?_ False.elim
  · rintro _ e₅ ⟨hfill₅, hfront, hbytes, hheld⟩
    refine ⟨hfill.trans (hfill₅.trans (still_log e₅ _).changes), hbytes, (List.prefix_append _ _).trans hfront, ?_⟩
    exact hheld
  · rintro _ e₅ (hs | ⟨rfl, hsmall⟩)
    · exact Or.inl (hs.after hfill)
    · refine Or.inr ⟨hfill, hsmall, ?_⟩
      exact headerLeft_of_left (Storage.Run.left_of_taken h₄.taken) (List.prefix_append _ _) (by omega) (by omega)

end Engine
end FirmwareUpdate
