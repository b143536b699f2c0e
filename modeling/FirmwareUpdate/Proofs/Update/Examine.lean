import FirmwareUpdate.Proofs.Bytes.Span
import FirmwareUpdate.Proofs.Digest.Hasher
import FirmwareUpdate.Proofs.Image.Header
import FirmwareUpdate.Proofs.Update.Engine
import FirmwareUpdate.Update.Examine

/-! Examining a slot decides whether its bytes are a valid image, and says what is wrong with them if
they are not. Only the fault of a device keeps the engine from deciding. -/
namespace FirmwareUpdate
variable {n k : Nat}

/-- Bytes between the header and the digest of an image. -/
def Header.bodyLength (h : Header) (encrypted : Bool) : Nat :=
  if encrypted then h.size.toNat + encryptionLead else h.size.toNat

/-- The key brings the known block back. -/
def Key.Opens (key : Key) (iv coded : Bytes) : Prop :=
  ∃ s, Cbc.Stream.start key.bytes iv = .ok s ∧ Crc32.checksum (s.decryptWhole coded) = knownChecksum

instance (key : Key) (iv coded : Bytes) : Decidable (key.Opens iv coded) :=
  match h : Cbc.Stream.start key.bytes iv with
  | .ok s => decidable_of_iff (Crc32.checksum (s.decryptWhole coded) = knownChecksum)
      ⟨fun hknown => ⟨s, h, hknown⟩, fun ⟨s', hs', hknown⟩ => by
        rw [h] at hs'
        cases hs'
        exact hknown⟩
  | .error _ => isFalse fun ⟨s, hs, _⟩ => by
      rw [h] at hs
      cases hs

namespace Backend

/-- A digest is no longer than what is declared for it. -/
def Honest (b : Backend) : Prop := b.algorithm.digestLength ≤ b.digestLength

/-- The bytes start with this header. -/
structure Heads (b : Backend) (bytes : Bytes) (h : Header) : Prop where
  complete : b.headerLength ≤ bytes.length
  decodes : Header.decode (bytes.take b.headerLength) = .ok h

private theorem Heads.decoded {b : Backend} {bytes : Bytes} {h : Header} (hh : b.Heads bytes h) :
    Header.encodedSize ≤ b.headerLength ∧ h = Header.fields (bytes.take b.headerLength) := by
  obtain ⟨hr, hfields⟩ := Header.decode_ok_iff.mp hh.decodes
  have hlong := hr.complete
  rw [List.length_take_of_le hh.complete] at hlong
  exact ⟨hlong, hfields⟩

/-- An image with a header has a payload. -/
theorem Heads.size_pos {b : Backend} {bytes : Bytes} {h : Header} (hh : b.Heads bytes h) : 0 < h.size.toNat :=
  Nat.pos_of_ne_zero fun hzero => Header.size_ne_zero hh.decodes (UInt32.toNat_inj.mp hzero)

/-- The raw header has room for all fields of one. -/
theorem Heads.long {b : Backend} {bytes : Bytes} {h : Header} (hh : b.Heads bytes h) :
    Header.encodedSize ≤ b.headerLength := hh.decoded.1

/-- The size that a header declares stands in its bytes. -/
theorem Heads.size_eq {b : Backend} {bytes : Bytes} {h : Header} (hh : b.Heads bytes h) :
    h.size = Bytes.wordAt (bytes.take b.headerLength) 0x0C := congrArg Header.size hh.decoded.2

/-- The bytes of a slot start with a valid image: the header parses, the image fits the slot, the
key is the right one where it is encrypted, and the digest is that of the seed and the body. -/
structure Accepts (b : Backend) (key : Key) (encrypted : Bool) (bytes : Bytes) (h : Header) : Prop
    extends b.Heads bytes h where
  wholeBlocks : encrypted = true → h.size.toNat % Aes.blockLength = 0
  fits : b.headerLength + h.bodyLength encrypted + b.digestLength ≤ bytes.length
  rightKey : encrypted = true → key.Opens (Bytes.slice bytes b.headerLength Cbc.ivLength)
    (Bytes.slice bytes (b.headerLength + Cbc.ivLength) Aes.blockLength)
  digest : Bytes.slice bytes (b.headerLength + h.bodyLength encrypted) b.algorithm.digestLength =
    b.algorithm.digest (h.seed ++ Bytes.slice bytes b.headerLength (h.bodyLength encrypted))

/-- Where the parts of the image with this header lie. -/
def layoutOf (b : Backend) (encrypted : Bool) (h : Header) : Layout :=
  ⟨b.headerLength, h.bodyLength encrypted, b.digestLength, encrypted⟩

/-- The verdict on an image with this header: the first thing that is wrong with it, if anything is. -/
def judge (b : Backend) (key : Key) (encrypted : Bool) (bytes : Bytes) (h : Header) : Except Error Header :=
  if encrypted = true ∧ h.size.toNat % Aes.blockLength ≠ 0 then .error .invalidLength
  else if bytes.length < b.headerLength + h.bodyLength encrypted + b.digestLength then .error .invalidLength
  else if encrypted = true ∧ ¬key.Opens (Bytes.slice bytes b.headerLength Cbc.ivLength)
      (Bytes.slice bytes (b.headerLength + Cbc.ivLength) Aes.blockLength) then .error .wrongKey
  else if Bytes.slice bytes (b.headerLength + h.bodyLength encrypted) b.algorithm.digestLength ≠
      b.algorithm.digest (h.seed ++ Bytes.slice bytes b.headerLength (h.bodyLength encrypted)) then
    .error .digestMismatch
  else .ok h

instance : DecidableEq (Except Error Header)
  | .ok h, .ok h' => decidable_of_iff (h = h') (Except.ok.injEq h h' ▸ Iff.rfl)
  | .error cause, .error cause' => decidable_of_iff (cause = cause') (Except.error.injEq cause cause' ▸ Iff.rfl)
  | .ok _, .error _ => isFalse nofun
  | .error _, .ok _ => isFalse nofun

/-- The verdict on the bytes of a slot. -/
def assess (b : Backend) (key : Key) (encrypted : Bool) (bytes : Bytes) : Except Error Header :=
  if bytes.length < b.headerLength then .error .invalidLength
  else (Header.decode (bytes.take b.headerLength)).bind (b.judge key encrypted bytes)

variable {b : Backend} {key : Key} {encrypted : Bool} {bytes : Bytes} {h : Header}

/-- Once the header is found good, what is assessed is judged by the rest. -/
theorem assess_of_heads (hh : b.Heads bytes h) :
    b.assess key encrypted bytes = b.judge key encrypted bytes h := by
  simp only [assess]
  rw [if_neg (Nat.not_lt.mpr hh.complete), hh.decodes]
  rfl

private theorem judge_ok {h' : Header} (hj : b.judge key encrypted bytes h' = .ok h) (hh : b.Heads bytes h') :
    b.Accepts key encrypted bytes h := by
  simp only [judge] at hj
  split at hj
  · cases hj
  rename_i hblocks
  split at hj
  · cases hj
  rename_i hfits
  split at hj
  · cases hj
  rename_i hkey
  split at hj
  · cases hj
  rename_i hdigest
  cases hj
  refine ⟨hh, ?_, Nat.le_of_not_lt hfits, ?_, Decidable.not_not.mp hdigest⟩
  · exact fun hencrypted => Decidable.not_not.mp fun hne => hblocks ⟨hencrypted, hne⟩
  · exact fun hencrypted => Decidable.not_not.mp fun hne => hkey ⟨hencrypted, hne⟩

/-- The verdict is good for the images that are valid. -/
theorem assess_ok_iff : b.assess key encrypted bytes = .ok h ↔ b.Accepts key encrypted bytes h := by
  constructor
  · intro hassess
    simp only [assess] at hassess
    split at hassess
    · cases hassess
    rename_i hcomplete
    cases hdecode : Header.decode (bytes.take b.headerLength) with
    | error cause =>
      rw [hdecode] at hassess
      cases hassess
    | ok found =>
      rw [hdecode] at hassess
      exact judge_ok hassess ⟨Nat.le_of_not_lt hcomplete, hdecode⟩
  · intro ha
    rw [assess_of_heads ha.toHeads, judge, if_neg, if_neg (Nat.not_lt.mpr ha.fits), if_neg, if_neg]
    · exact not_not_intro ha.digest
    · exact fun hlocked => hlocked.2 (ha.rightKey hlocked.1)
    · exact fun hodd => hodd.2 (ha.wholeBlocks hodd.1)

end Backend

namespace Engine
variable {e e' : Engine n k} {v : View n k} {header : Header}

def View.Heads (v : View n k) (h : Header) : Prop := v.backend.Heads v.bytes h

def View.Accepts (v : View n k) (h : Header) : Prop := v.backend.Accepts v.key v.encrypted v.bytes h

/-- The image with this header is made of whole blocks where it has to be, and fits the slot. -/
def View.Fits (v : View n k) (h : Header) : Prop :=
  (v.encrypted = true → h.size.toNat % Aes.blockLength = 0) ∧
    v.backend.headerLength + h.bodyLength v.encrypted + v.backend.digestLength ≤ v.bytes.length

/-- The stored digest is that of the seed and the body. -/
def View.DigestHolds (v : View n k) (h : Header) : Prop :=
  Bytes.slice v.bytes (v.backend.headerLength + h.bodyLength v.encrypted)
      v.backend.algorithm.digestLength =
    v.backend.algorithm.digest
      (h.seed ++ Bytes.slice v.bytes v.backend.headerLength (h.bodyLength v.encrypted))

def View.KeyHolds (v : View n k) : Prop :=
  v.key.Opens (Bytes.slice v.bytes v.backend.headerLength Cbc.ivLength)
    (Bytes.slice v.bytes (v.backend.headerLength + Cbc.ivLength) Aes.blockLength)

def View.verdict (v : View n k) : Except Error Header := v.backend.assess v.key v.encrypted v.bytes

namespace View

private theorem not_accepts_of_error {cause : Error} (h : v.verdict = .error cause) (header : Header) :
    ¬v.Accepts header := by
  intro haccepts
  have hok : v.verdict = .ok header := Backend.assess_ok_iff.mpr haccepts
  rw [h] at hok
  cases hok

private theorem verdict_of_misfit (hh : v.Heads header) (hfits : ¬v.Fits header) :
    v.verdict = .error .invalidLength := by
  rw [verdict, Backend.assess_of_heads hh, Backend.judge]
  split
  · rfl
  rename_i hblocks
  rw [if_pos]
  refine Nat.lt_of_not_le fun hle => hfits ⟨fun hencrypted => ?_, hle⟩
  exact Decidable.not_not.mp fun hne => hblocks ⟨hencrypted, hne⟩

private theorem not_odd (hfits : v.Fits header) :
    ¬(v.encrypted = true ∧ header.size.toNat % Aes.blockLength ≠ 0) := fun hodd => hodd.2 (hfits.1 hodd.1)

private theorem verdict_of_locked (hh : v.Heads header) (hfits : v.Fits header) (hencrypted : v.encrypted = true)
    (hkey : ¬v.KeyHolds) : v.verdict = .error .wrongKey := by
  rw [verdict, Backend.assess_of_heads hh, Backend.judge, if_neg (not_odd hfits),
    if_neg (Nat.not_lt.mpr hfits.2), if_pos ⟨hencrypted, hkey⟩]

private theorem verdict_of_differs (hh : v.Heads header) (hfits : v.Fits header)
    (hkey : v.encrypted = true → v.KeyHolds) (hdiffers : ¬v.DigestHolds header) :
    v.verdict = .error .digestMismatch := by
  rw [verdict, Backend.assess_of_heads hh, Backend.judge, if_neg (not_odd hfits),
    if_neg (Nat.not_lt.mpr hfits.2), if_neg fun hlocked => hlocked.2 (hkey hlocked.1)]
  exact if_pos hdiffers

end View

/-- The header is found, or the bytes have none; then that is what is wrong with them. -/
theorem Shows.headerOf_ends (h : e.Shows v) :
    (headerOf v.slot).Ends e (fun header e' => e.Still e' ∧ v.Heads header)
      (fun cause e' => e.Still e' ∧
        (e.Broken v.memory e' ∨ (∀ header, ¬v.Heads header) ∧ v.verdict = .error cause)) False := by
  have hlen := h.length_bytes
  have hpos := h.size_pos
  simp only [headerOf]
  rw [Action.ends_get_bind, h.backend]
  by_cases hin : v.backend.headerLength ≤ v.entry.size
  · refine (h.read_ends (by omega)).bind ?_ ?_ fun htrap => by omega
    · intro raw e' hended
      obtain ⟨hstill, -, rfl⟩ := hended
      rw [Bytes.slice_zero, Action.ends_ofExcept]
      split
      · rename_i header hdecode
        exact ⟨hstill, by omega, hdecode⟩
      · rename_i cause hdecode
        refine ⟨hstill, Or.inr ⟨fun header hheads => ?_, ?_⟩⟩
        · rw [hheads.decodes] at hdecode
          cases hdecode
        · rw [View.verdict, Backend.assess, if_neg (by omega), hdecode]
          rfl
    · exact fun _ e' hb => ⟨hb.still, Or.inl hb⟩
  · have hread : read v.slot 0 v.backend.headerLength e = .error (.error .invalidLength) e :=
      h.read_of_outside (by omega)
    simp only [Action.Ends]
    rw [Action.bind_of_error hread]
    refine ⟨Still.refl e, Or.inr ⟨fun header hheads => hin ?_, ?_⟩⟩
    · have hcomplete := hheads.complete
      omega
    · rw [View.verdict, Backend.assess, if_pos (by omega)]

private theorem Shows.layout?_eq (h : e.Shows v) (header : Header) :
    v.Fits header ∧ e.layout? v.slot header = .ok (v.backend.layoutOf v.encrypted header) ∨
      ¬v.Fits header ∧ e.layout? v.slot header = .error .invalidLength := by
  have hlen := h.length_bytes
  simp only [layout?, View.Fits]
  simp only [h.encrypted, h.backend, Storage.slot?, h.lookup]
  by_cases hwhole : v.encrypted = true ∧ header.size.toNat % Aes.blockLength ≠ 0
  · right
    rw [if_pos hwhole]
    exact ⟨fun hfits => hwhole.2 (hfits.1 hwhole.1), rfl⟩
  · rw [if_neg hwhole]
    have hblocks : v.encrypted = true → header.size.toNat % Aes.blockLength = 0 := fun henc =>
      Decidable.not_not.mp fun hne => hwhole ⟨henc, hne⟩
    by_cases hfits : v.entry.size < (v.backend.layoutOf v.encrypted header).totalLength
    · right
      refine ⟨fun hf => ?_, ?_⟩
      · have hle : (v.backend.layoutOf v.encrypted header).totalLength ≤ v.bytes.length := hf.2
        omega
      · exact if_pos hfits
    · left
      refine ⟨⟨hblocks, ?_⟩, ?_⟩
      · have hle := Nat.le_of_not_lt hfits
        rw [← hlen] at hle
        exact hle
      · exact if_neg hfits

/-- An accepted image is laid out as its header says. -/
theorem Shows.layout?_of_accepts (h : e.Shows v) (ha : v.Accepts header) :
    e.layout? v.slot header = .ok (v.backend.layoutOf v.encrypted header) := by
  rcases h.layout?_eq header with ⟨-, hlayout⟩ | ⟨hno, -⟩
  · exact hlayout
  · exact (hno ⟨ha.wholeBlocks, ha.fits⟩).elim

private theorem hashSpans_ends (spans : List Span) {offset start stop : Nat} (h : e.Shows v)
    (hspans : Consecutive start spans stop) (hpos : ∀ span ∈ spans, 0 < span.length)
    (hstop : offset + stop ≤ v.entry.size) (hasher : Hasher) (front : Bytes) :
    (hashSpans v.slot offset spans (hasher.update front)).Ends e
      (fun result e' => e.Still e' ∧
        result = hasher.update (front ++ Bytes.slice v.bytes (offset + start) (stop - start)))
      (fun _ e' => e.Broken v.memory e') False := by
  -- A span that is not empty starts inside the slot, where reading does not trap.
  induction spans generalizing start front e with
  | nil =>
    cases hspans
    refine ⟨Still.refl e, ?_⟩
    rw [Nat.sub_self, Bytes.slice, List.take_zero, List.append_nil]
  | cons span rest ih =>
    obtain ⟨rfl, hrest⟩ := hspans
    have hle := hrest.le
    have hspan := hpos span List.mem_cons_self
    refine (h.read_ends (by omega)).bind ?_ (fun _ _ h => h) fun htrap => by omega
    intro data e' hended
    obtain ⟨hstill, -, rfl⟩ := hended
    rw [← Hasher.update_append]
    refine (ih (h.of_still hstill) hrest (fun span hspan => hpos span (List.mem_cons_of_mem _ hspan)) _).imp ?_ ?_ id
    · intro result e'' hended
      obtain ⟨hstill', rfl⟩ := hended
      refine ⟨hstill.trans hstill', ?_⟩
      have hsum : stop - span.start = span.length + (stop - (span.start + span.length)) := by omega
      rw [List.append_assoc, ← Nat.add_assoc, Bytes.slice_append, hsum]
    · exact fun _ e'' hb => hb.after hstill

/-- A part of a slot is hashed as a whole, whatever the chunk size. -/
theorem Shows.digestPart_ends {seed : Bytes} {offset length : Nat} (h : e.Shows v)
    (hin : offset + length ≤ v.entry.size) :
    (digestPart v.slot seed offset length).Ends e
      (fun digest e' => e.Still e' ∧
        digest = v.backend.algorithm.digest (seed ++ Bytes.slice v.bytes offset length))
      (fun _ e' => e.Broken v.memory e') False := by
  simp only [digestPart]
  rw [Action.ends_get_bind, h.backend]
  refine (hashSpans_ends _ h (spans_consecutive h.chunk_pos length) (spans_pos h.chunk_pos length) hin _ _).bind ?_
    (fun _ _ h => h) id
  intro hasher e' hended
  obtain ⟨hstill, rfl⟩ := hended
  refine ⟨hstill, ?_⟩
  rw [Hasher.value_update_start, Nat.add_zero, Nat.sub_zero]

private theorem tryKey_ends {iv coded : Bytes} (hcoded : coded.length % Aes.blockLength = 0) :
    (Action.attempt (do loadKey iv; decrypt coded) : Op n k (Except Error Bytes)).Ends e
      (fun result e' => e.Still e' ∧ match result with
        | .ok block => ∃ s, Cbc.Stream.start e.key.bytes iv = .ok s ∧ block = s.decryptWhole coded
        | .error cause => ∃ refusal, Cbc.Stream.start e.key.bytes iv = .error refusal ∧ cause = refusal.toError)
      (fun _ _ => False) False := by
  have hcalls : (loadKey iv >>= fun _ => decrypt coded : Op n k Bytes).Ends e
      (fun block e' => e.Still e' ∧ ∃ s, Cbc.Stream.start e.key.bytes iv = .ok s ∧ block = s.decryptWhole coded)
      (fun cause e' => e.Still e' ∧
        ∃ refusal, Cbc.Stream.start e.key.bytes iv = .error refusal ∧ cause = refusal.toError) False := by
    refine (loadKey_ends iv).bind ?_ ?_ id
    · intro _ _ hended
      obtain ⟨s, hs, rfl⟩ := hended
      rw [decrypt_ends rfl hcoded]
      exact ⟨still_cipher e _, s, hs, rfl⟩
    · intro _ _ hended
      obtain ⟨rfl, hrefused⟩ := hended
      exact ⟨Still.refl _, hrefused⟩
  exact hcalls.attempt (fun _ _ h => h) (fun _ _ h => h) id

/-- The key check needs a body that holds the known block. A key that cannot be loaded is a wrong one. -/
theorem Shows.checkKey_ends (h : e.Shows v) {layout : Layout} (hstart : layout.bodyStart = v.backend.headerLength)
    (hin : v.backend.headerLength + encryptionLead ≤ v.entry.size) :
    (checkKey v.slot layout).Ends e (fun _ e' => e.Still e' ∧ v.KeyHolds)
      (fun cause e' => e.Still e' ∧ (e.Broken v.memory e' ∨ cause = .wrongKey ∧ ¬v.KeyHolds)) False := by
  have hlen := h.length_bytes
  have hsplit : v.backend.headerLength + Cbc.ivLength + Aes.blockLength ≤ v.entry.size := hin
  have hivPos : 0 < Cbc.ivLength := by decide
  have hblockPos : 0 < Aes.blockLength := by decide
  simp only [checkKey]
  rw [hstart]
  refine (h.read_ends (by omega)).bind ?_ (fun _ e' hb => ⟨hb.still, Or.inl hb⟩) fun htrap => by omega
  intro iv e₁ hended
  obtain ⟨hstill₁, -, hiv⟩ := hended
  refine ((h.of_still hstill₁).read_ends hsplit).bind ?_ ?_ fun htrap => by omega
  · intro coded e₂ hended
    obtain ⟨hstill₂, -, hcoded⟩ := hended
    have hstill := hstill₁.trans hstill₂
    have hkey : e₂.key = v.key := hstill.key.trans h.key
    have hivLength : iv.length = Cbc.ivLength := by
      rw [hiv, Bytes.length_slice]
      omega
    have hcodedLength : coded.length = Aes.blockLength := by
      rw [hcoded, Bytes.length_slice]
      omega
    have hholds : v.KeyHolds ↔ v.key.Opens iv coded := by rw [View.KeyHolds, hiv, hcoded]
    rw [hholds]
    refine (tryKey_ends (by rw [hcodedLength]; rfl)).bind ?_ (fun _ _ h => h.elim) False.elim
    intro result e₃ hended
    obtain ⟨hstill₃, hresult⟩ := hended
    have hstill₄ := (hstill.trans hstill₃).trans (still_cipher e₃ none)
    rw [hkey] at hresult
    simp only [unloadKey]
    rw [Action.ends_modify_bind, Action.ends_bind, Action.ends_ofExcept]
    split
    · obtain ⟨s, hs, rfl⟩ := hresult
      split
      · rename_i hknown
        exact ⟨hstill₄, s, hs, hknown⟩
      · rename_i hunknown
        refine ⟨hstill₄, Or.inr ⟨rfl, ?_⟩⟩
        rintro ⟨s', hs', hknown⟩
        rw [hs] at hs'
        cases hs'
        exact hunknown hknown
    · obtain ⟨refusal, hrefusal, rfl⟩ := hresult
      obtain rfl := Cbc.Stream.start_error hivLength hrefusal
      refine ⟨hstill₄, Or.inr ⟨rfl, ?_⟩⟩
      rintro ⟨s, hs, -⟩
      rw [hrefusal] at hs
      cases hs
  · exact fun _ e₂ hb => ⟨hstill₁.trans hb.still, Or.inl (hb.after hstill₁)⟩

-- What an inspection ends with, once the key has been found right.
private def compareDigest (slot : SlotId) (h : Header) (layout : Layout) : Op n k Header := do
  let computed ← digestPart slot h.seed layout.bodyStart layout.bodyLength
  let stored ← read slot layout.digestStart computed.length
  if sameBytes computed stored then return h else Action.fail .digestMismatch

private theorem compareDigest_ends (h : e.Shows v) (hfits : v.Fits header) :
    (compareDigest v.slot header (v.backend.layoutOf v.encrypted header)).Ends e
      (fun result e' => e.Still e' ∧ result = header ∧ v.DigestHolds header)
      (fun cause e' => e.Still e' ∧ (e.Broken v.memory e' ∨
        ¬v.DigestHolds header ∧ (v.backend.Honest → cause = .digestMismatch))) False := by
  -- A digest that is longer than declared may not be there to compare with.
  have hlen := h.length_bytes
  have hbody := hfits.2
  have hpos := v.backend.algorithm.digestLength_pos
  have hpart : v.backend.headerLength + header.bodyLength v.encrypted ≤ v.entry.size := by omega
  simp only [compareDigest]
  refine (h.digestPart_ends hpart).bind ?_ (fun _ e' hb => ⟨hb.still, Or.inl hb⟩) id
  intro computed e₁ hended
  obtain ⟨hstill₁, rfl⟩ := hended
  rw [Algorithm.length_digest]
  have hshows₁ := h.of_still hstill₁
  by_cases hin : v.backend.headerLength + header.bodyLength v.encrypted +
      v.backend.algorithm.digestLength ≤ v.entry.size
  · refine (hshows₁.read_ends hin).bind ?_ ?_ fun htrap => by omega
    · intro stored e₂ hended
      obtain ⟨hstill₂, -, rfl⟩ := hended
      have hstill := hstill₁.trans hstill₂
      split
      · rename_i hsame
        exact ⟨hstill, rfl, ((sameBytes_iff _ _).mp hsame).symm⟩
      · rename_i hdiffer
        exact ⟨hstill, Or.inr ⟨fun hholds => hdiffer ((sameBytes_iff _ _).mpr hholds.symm), fun _ => rfl⟩⟩
    · exact fun _ e₂ hb => ⟨hstill₁.trans hb.still, Or.inl (hb.after hstill₁)⟩
  · have hread := hshows₁.read_of_outside (Nat.lt_of_not_le hin)
    simp only [Action.Ends]
    rw [Action.bind_apply]
    refine hread ▸ ⟨hstill₁, Or.inr ⟨fun hholds => hin ?_, fun hhonest => (hin ?_).elim⟩⟩
    · have hlength := congrArg List.length hholds
      rw [Algorithm.length_digest, Bytes.length_slice] at hlength
      omega
    · have hle : v.backend.algorithm.digestLength ≤ v.backend.digestLength := hhonest
      omega

/-- The engine comes to the verdict, or finds a device at fault. -/
theorem Shows.inspect_ends (h : e.Shows v) :
    (inspect v.slot).Ends e (fun header e' => e.Still e' ∧ v.verdict = .ok header)
      (fun cause e' => e.Still e' ∧ (e.Broken v.memory e' ∨
        ∃ found, v.verdict = .error found ∧ (v.backend.Honest → cause = found))) False := by
  have hlen := h.length_bytes
  simp only [inspect]
  refine h.headerOf_ends.bind ?_ ?_ id
  · intro header e₁ hended
    obtain ⟨hstill₁, hheads⟩ := hended
    have hshows₁ := h.of_still hstill₁
    simp only [layout]
    rw [bind_assoc, Action.ends_get_bind]
    rcases hshows₁.layout?_eq header with ⟨hfits, hlayout⟩ | ⟨hfits, hlayout⟩
    · rw [hlayout]
      have hcompare : ∀ e₂ : Engine n k, e.Still e₂ → (v.encrypted = true → v.KeyHolds) →
          (compareDigest v.slot header (v.backend.layoutOf v.encrypted header)).Ends e₂
            (fun header e' => e.Still e' ∧ v.verdict = .ok header)
            (fun cause e' => e.Still e' ∧ (e.Broken v.memory e' ∨
              ∃ found, v.verdict = .error found ∧ (v.backend.Honest → cause = found))) False := by
        intro e₂ hstill₂ hkey
        refine (compareDigest_ends (h.of_still hstill₂) hfits).imp ?_ ?_ id
        · intro _ e₃ hended
          obtain ⟨hstill₃, rfl, hholds⟩ := hended
          exact ⟨hstill₂.trans hstill₃, Backend.assess_ok_iff.mpr ⟨hheads, hfits.1, hfits.2, hkey, hholds⟩⟩
        · intro cause e₃ hended
          obtain ⟨hstill₃, hb | ⟨hdiffers, hcause⟩⟩ := hended
          · exact ⟨hstill₂.trans hstill₃, Or.inl (hb.after hstill₂)⟩
          · exact ⟨hstill₂.trans hstill₃, Or.inr ⟨_, View.verdict_of_differs hheads hfits hkey hdiffers, hcause⟩⟩
      cases hencrypted : v.encrypted with
      | false =>
        rw [hencrypted] at hcompare
        exact hcompare e₁ hstill₁ Bool.noConfusion
      | true =>
        have hbody := hfits.2
        simp only [hencrypted, Header.bodyLength, if_true] at hbody
        rw [hencrypted] at hcompare
        refine (hshows₁.checkKey_ends rfl (by omega)).bind ?_ ?_ id
        · intro _ e₂ hended
          obtain ⟨hstill₂, hopens⟩ := hended
          exact hcompare e₂ (hstill₁.trans hstill₂) fun _ => hopens
        · intro cause e₂ hended
          obtain ⟨hstill₂, hb | ⟨rfl, hwrong⟩⟩ := hended
          · exact ⟨hstill₁.trans hstill₂, Or.inl (hb.after hstill₁)⟩
          · exact ⟨hstill₁.trans hstill₂,
              Or.inr ⟨_, View.verdict_of_locked hheads hfits hencrypted hwrong, fun _ => rfl⟩⟩
    · rw [hlayout]
      exact ⟨hstill₁, Or.inr ⟨_, View.verdict_of_misfit hheads hfits, fun _ => rfl⟩⟩
  · intro cause e₁ hended
    obtain ⟨hstill₁, hb | ⟨-, hverdict⟩⟩ := hended
    · exact ⟨hstill₁, Or.inl hb⟩
    · exact ⟨hstill₁, Or.inr ⟨cause, hverdict, fun _ => rfl⟩⟩

/-- What is found on looking at an image is what there is, unless a device breaks. -/
theorem Shows.examine_verdict (h : e.Shows v) :
    (examine v.slot).Ends e (fun header e' => e.Still e' ∧ v.verdict = .ok header)
      (fun cause e' => e.Still e' ∧ (e.Broken v.memory e' ∨
        ∃ found, v.verdict = .error found ∧ (v.backend.Honest → cause = found))) False := by
  simp only [examine]
  refine note_bind fun log => ?_
  have hlog := still_log e log
  refine (h.of_still hlog).inspect_ends.attempt_bind ?_ ?_ id
  · intro header e₁ hended
    obtain ⟨hstill₁, hverdict⟩ := hended
    exact note_bind fun log₁ => ⟨(hlog.trans hstill₁).trans (still_log e₁ log₁), hverdict⟩
  · intro cause e₁ hended
    obtain ⟨hstill₁, hanswer⟩ := hended
    refine note_bind fun log₁ => ⟨(hlog.trans hstill₁).trans (still_log e₁ log₁), ?_⟩
    exact hanswer.imp (fun hb => (hb.after hlog).of_storage rfl (still_log e₁ log₁)) id

/-- With an honest digest the cause of a refusal is that of the verdict. -/
theorem Shows.verdict_ends (h : e.Shows v) (hhonest : v.backend.Honest) :
    (examine v.slot).Ends e (fun header e' => e.Still e' ∧ v.verdict = .ok header)
      (fun cause e' => e.Still e' ∧ (e.Broken v.memory e' ∨ v.verdict = .error cause)) False := by
  refine h.examine_verdict.imp (fun _ _ hended => hended) ?_ id
  intro cause e' hended
  obtain ⟨hstill, hbroken | ⟨found, hverdict, hfound⟩⟩ := hended
  · exact ⟨hstill, Or.inl hbroken⟩
  · obtain rfl := hfound hhonest
    exact ⟨hstill, Or.inr hverdict⟩

/-- The engine accepts what is valid and nothing else, or finds a device at fault. -/
theorem Shows.examine_ends (h : e.Shows v) :
    (examine v.slot).Ends e (fun header e' => e.Still e' ∧ v.Accepts header)
      (fun _ e' => e.Still e' ∧ (e.Broken v.memory e' ∨ ∀ header, ¬v.Accepts header)) False := by
  refine h.examine_verdict.imp ?_ ?_ id
  · exact fun header e' hended => ⟨hended.1, Backend.assess_ok_iff.mp hended.2⟩
  · intro _ e' hended
    obtain ⟨hstill, hb | ⟨_, hverdict, -⟩⟩ := hended
    · exact ⟨hstill, Or.inl hb⟩
    · exact ⟨hstill, Or.inr (View.not_accepts_of_error hverdict)⟩

end Engine
end FirmwareUpdate
