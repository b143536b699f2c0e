import FirmwareUpdate.Proofs.Image.Encode
import FirmwareUpdate.Proofs.Image.Header
import FirmwareUpdate.Proofs.Update.Installed

/-! From the encoder to the application slot: what has been encoded is accepted, and an encrypted image is
installed as the plain image that could have been encoded in its place. -/
namespace FirmwareUpdate

namespace Image
variable {payload body : Bytes} {wrapping : Option Wrapping} {key : Key} {encrypted : Bool}

/-- The image of a payload, encrypted or not. -/
def ofPayloadIn (wrapping : Option Wrapping) (index : UInt32) (version : Version) (payload : Bytes) : Image :=
  { ofPayload index version payload with wrapping }

/-- The payload is not empty and of a size that a header can give; where it is encrypted, it is made of whole
blocks and the key is one of an AES variant. -/
structure Encodable (wrapping : Option Wrapping) (payload : Bytes) : Prop where
  nonempty : payload ≠ []
  short : payload.length < UInt32.size
  key : ∀ w, wrapping = some w → w.key.length ∈ [16, 24, 32]
  wholeBlocks : wrapping.isSome = true → payload.length % Aes.blockLength = 0

private theorem Encodable.size (h : Encodable wrapping payload) (index : UInt32) (version : Version) :
    (ofPayload index version payload).header.size.toNat = payload.length :=
  UInt32.toNat_ofNat_of_lt' h.short

private theorem Encodable.decodes (h : Encodable wrapping payload) (index : UInt32) (version : Version) :
    Header.decode (ofPayload index version payload).header.encode = .ok (ofPayload index version payload).header := by
  refine Header.decode_encode fun hzero => h.nonempty (List.length_eq_zero_iff.mp ?_)
  rw [← h.size index version]
  exact congrArg UInt32.toNat hzero

/-- What the body of an image says with this key: an encrypted one starts with the vector. -/
def Carries (key : Key) (encrypted : Bool) (payload body : Bytes) : Prop :=
  match encrypted with
  | false => body = payload
  | true => ∃ s, Cbc.Stream.start key.bytes (Bytes.slice body 0 Cbc.ivLength) = .ok s ∧
      Wraps s payload (body.drop Cbc.ivLength)

private theorem Encodable.body_ok (h : Encodable wrapping payload) (index : UInt32) (version : Version) :
    ∃ body, (ofPayloadIn wrapping index version payload).body = .ok body ∧
      ∀ key : Key, (∀ w, wrapping = some w → key.bytes = w.key) → Carries key wrapping.isSome payload body := by
  cases wrapping with
  | none => exact ⟨payload, rfl, fun _ _ => rfl⟩
  | some w =>
    obtain ⟨s, coded, hs, hwrapped, hwraps⟩ := wrapped_ok (h.key w rfl) (h.wholeBlocks rfl)
    have hiv : w.iv.toList.length = Cbc.ivLength := Vector.length_toList
    refine ⟨w.iv.toList ++ coded, ?_, fun key hkey => ⟨s, ?_, ?_⟩⟩
    · show (wrapped w payload).mapError CipherError.toError = _
      rw [hwrapped]
      rfl
    · rw [hkey w rfl, Bytes.slice_zero, List.take_left' hiv]
      exact hs
    · rw [List.drop_left' hiv]
      exact hwraps

private theorem Carries.length (h : Carries key encrypted payload body) :
    body.length = if encrypted then payload.length + encryptionLead else payload.length := by
  cases encrypted with
  | false => exact congrArg List.length h
  | true =>
    obtain ⟨s, -, hwraps⟩ := h
    have hlength := hwraps.length
    have hpos : 0 < Aes.blockLength := by decide
    rw [List.length_drop] at hlength
    simp only [if_true, encryptionLead]
    omega

private theorem Carries.opens (h : Carries key true payload body) :
    key.Opens (Bytes.slice body 0 Cbc.ivLength) (Bytes.slice body Cbc.ivLength Aes.blockLength) := by
  obtain ⟨s, hs, hwraps⟩ := h
  refine ⟨s, hs, ?_⟩
  rw [Bytes.slice, hwraps.known, checksum_knownBlock]

end Image

namespace Backend
variable {a : Algorithm} {h : Header} {payload body bytes : Bytes} {key : Key} {encrypted : Bool}

private theorem lead_of_carries (hc : Image.Carries key true payload body)
    (hbody : Bytes.slice bytes Header.encodedSize body.length = body) :
    Bytes.slice bytes Header.encodedSize Cbc.ivLength = Bytes.slice body 0 Cbc.ivLength ∧
      Bytes.slice bytes (Header.encodedSize + Cbc.ivLength) Aes.blockLength =
        Bytes.slice body Cbc.ivLength Aes.blockLength := by
  have hlength := hc.length
  simp only [if_true, encryptionLead] at hlength
  have hiv : Bytes.slice bytes (Header.encodedSize + 0) Cbc.ivLength = Bytes.slice body 0 Cbc.ivLength :=
    Bytes.slice_of_part hbody (by omega)
  exact ⟨hiv, Bytes.slice_of_part hbody (by omega)⟩

private theorem payload_of_carries (hsize : h.size.toNat = payload.length)
    (hc : Image.Carries key encrypted payload body)
    (hbody : Bytes.slice bytes Header.encodedSize body.length = body) :
    ({ algorithm := a } : Backend).payload key encrypted bytes h = payload := by
  -- The payload is found behind the header, and behind the vector and the known block where there are any.
  have hlength := hc.length
  cases encrypted with
  | false =>
    obtain rfl : body = payload := hc
    show Bytes.slice bytes Header.encodedSize h.size.toNat = body
    rw [hsize, hbody]
  | true =>
    obtain ⟨hiv, hknown⟩ := lead_of_carries hc hbody
    obtain ⟨s, hs, hwraps⟩ := hc
    simp only [if_true, encryptionLead] at hlength
    have hrest : Bytes.slice bytes (Header.encodedSize + encryptionLead) payload.length =
        (body.drop Cbc.ivLength).drop Aes.blockLength := by
      rw [Bytes.slice_of_part hbody (by rw [encryptionLead]; omega), Bytes.slice, List.drop_drop,
        List.take_of_length_le (by rw [List.length_drop, encryptionLead]; omega)]
      rfl
    have hchain : ({ algorithm := a } : Backend).chain? key bytes =
        some (s.after (Bytes.slice body Cbc.ivLength Aes.blockLength)) := by
      simp only [chain?]
      rw [hiv, hs, hknown]
    have hstored : Bytes.slice bytes (layoutOf { algorithm := a } true h).payloadStart h.size.toNat =
        (body.drop Cbc.ivLength).drop Aes.blockLength := by
      rw [hsize]
      exact hrest
    rw [Backend.payload, hchain, hstored]
    exact hwraps.rest

/-- Bytes that start with an encoded image are accepted, and the image comes out of them in the clear. -/
theorem accepts_of_carries (hdecode : Header.decode h.encode = .ok h) (hsize : h.size.toNat = payload.length)
    (hwhole : encrypted = true → payload.length % Aes.blockLength = 0)
    (hc : Image.Carries key encrypted payload body)
    (hfront : h.encode ++ body ++ a.digest (h.seed ++ body) <+: bytes) :
    ({ algorithm := a } : Backend).Accepts key encrypted bytes h ∧
      ({ algorithm := a } : Backend).plainImage key encrypted bytes h =
        h.encode ++ payload ++ a.digest (h.seed ++ payload) := by
  obtain ⟨hhead, hbody, hdigest⟩ := Bytes.slices_of_front hfront
  have hfits := hfront.length_le
  rw [List.length_append, List.length_append] at hfits
  rw [Header.length_encode] at hhead hbody hdigest hfits
  rw [Algorithm.length_digest] at hdigest hfits
  have hlength : body.length = h.bodyLength encrypted := by
    rw [hc.length, Header.bodyLength, hsize]
  have hpayload := payload_of_carries (a := a) hsize hc hbody
  have hkey : encrypted = true → key.Opens (Bytes.slice bytes Header.encodedSize Cbc.ivLength)
      (Bytes.slice bytes (Header.encodedSize + Cbc.ivLength) Aes.blockLength) := by
    rintro rfl
    obtain ⟨hiv, hknown⟩ := lead_of_carries hc hbody
    rw [hiv, hknown]
    exact hc.opens
  rw [hlength] at hbody hdigest hfits
  refine ⟨⟨⟨?_, ?_⟩, ?_, hfits, hkey, ?_⟩, ?_⟩
  · exact Nat.le_trans (Nat.le_trans (Nat.le_add_right _ _) (Nat.le_add_right _ _)) hfits
  · exact (congrArg Header.decode hhead).trans hdecode
  · rw [hsize]
    exact hwhole
  · exact hdigest.trans (by rw [hbody])
  · rw [plainImage, hpayload]
    exact congrArg (· ++ payload ++ a.digest (h.seed ++ payload)) hhead

end Backend

namespace Engine

/-- The slot starts with these bytes. -/
def Begins {n k : Nat} (e : Engine n k) (slot : SlotId) (bytes : Bytes) : Prop :=
  ∃ memory entry, e.storage.lookup? slot = .ok (memory, entry) ∧ bytes <+: e.storage.held memory entry

/-- The slot starts with an encoded image and is one for images of its kind. The engine has the key the image
was encrypted with, and its kind of digest. -/
structure Stored {n k : Nat} (e : Engine n k) (a : Algorithm) (wrapping : Option Wrapping) (bytes : Bytes)
    (slot : SlotId) : Prop where
  backend : e.backend = { algorithm := a }
  encrypted : e.holdsEncrypted slot = wrapping.isSome
  key : ∀ w, wrapping = some w → e.key.bytes = w.key
  bytes : e.Begins slot bytes

/-- Every payload that can be encoded makes an image that is accepted wherever it is stored, with the header it
was given. Encrypted or not, an installation that succeeds leaves what the plain encoding of the payload is. -/
theorem image_round_trip {wrapping : Option Wrapping} {payload : Bytes} (h : Image.Encodable wrapping payload)
    (index : UInt32) (version : Version) (a : Algorithm) :
    ∃ bytes plain, (Image.ofPayloadIn wrapping index version payload).encode a = .ok bytes ∧
      (Image.ofPayload index version payload).encode a = .ok plain ∧
      ∀ {n k : Nat} (e : Engine n k) (slot : SlotId), e.InService → e.Stored a wrapping bytes slot →
        (examine slot).Ends e (fun header _ => header = (Image.ofPayload index version payload).header)
            (fun _ e' => e.Faulted e') False ∧
          (install slot).Yields e
            (fun _ e' => ∃ application, e.application? = .ok application ∧ e'.Begins application plain) := by
  obtain ⟨body, hbody, hcarries⟩ := h.body_ok index version
  generalize hheader : (Image.ofPayload index version payload).header = header
  have hdecode := h.decodes index version
  have hsize := h.size index version
  rw [hheader] at hdecode hsize
  refine ⟨header.encode ++ body ++ a.digest (header.seed ++ body),
    header.encode ++ payload ++ a.digest (header.seed ++ payload), ?_, ?_, ?_⟩
  · rw [Image.encode, hbody, ← hheader]
    rfl
  · rw [← hheader]
    rfl
  intro n k e slot he hstored
  obtain ⟨memory, entry, hl, hfront⟩ := hstored.bytes
  obtain ⟨home, hhome⟩ := he.home
  have hv := he.shows hl
  obtain ⟨haccepts, hplain⟩ :=
    Backend.accepts_of_carries hdecode hsize h.wholeBlocks (hcarries e.key hstored.key) hfront
  rw [← hstored.backend, ← hstored.encrypted] at haccepts hplain
  have hunique : ∀ found, (e.viewOf slot memory entry).Accepts found → found = header := fun found hfound =>
    Except.ok.inj (hfound.decodes.symm.trans haccepts.decodes)
  refine ⟨hv.examine_ends.imp ?_ ?_ id, ?_⟩
  · exact fun found e' hended => hunique found hended.2
  · intro _ e' hended
    exact hended.2.elim Broken.faulted fun hnone => (hnone header haccepts).elim
  by_cases hne : slot = home.slot
  · simp only [install]
    rw [Action.Yields, Action.ends_get_bind, hhome.role]
    simp only [Action.ofExcept, Action.ends_pure_bind, if_pos hne]
    exact trivial
  · have hhonest : e.backend.Honest := by
      rw [hstored.backend]
      exact Nat.le_refl _
    have ha := he.shows hhome.lookup
    refine (install_ends hv ha hhome.role hne he.chunk_blocks hhonest).yields.imp ?_
    intro _ e' hended
    obtain ⟨found, hreplaced⟩ := hended
    obtain rfl := hunique found hreplaced.valid
    refine ⟨home.slot, hhome.role, home.memory, home.entry, hreplaced.anywhere.storage.lookup? hhome.lookup, ?_⟩
    have hheld : e'.storage.held home.memory home.entry = _ := hreplaced.held
    rw [hheld, View.plain, ← hplain]
    exact (Storage.prefix_padTo _ _).trans (Storage.prefix_overlaid _ _ _ _ _)

/-- An encrypted update on the second board is installed in the clear. -/
theorem sample_image_round_trip : ∃ (e e' : Engine 1 1), install ⟨1, 0⟩ e = .ok () e' ∧
    e'.Begins ⟨0, 0⟩ (Sample.image 2 [0, 16, 7, 9]) := by
  have hcheck : ((bringUp (Sample.securePlan (List.replicate 16 1)) (.flash 0) (some (.files 0)) {}).passes
      (Sample.secureBoard (Sample.codedImage 2 (List.replicate 16 1) [0, 16, 7, 9])) fun e _ =>
        (install ⟨1, 0⟩).passes e fun _ _ =>
          decide (e.storage.memories[1]? = some Sample.secondMemory ∧ e.holdsEncrypted ⟨1, 0⟩ = true ∧
            e.storage.find? .theApplication = some ⟨0, 0⟩ ∧ Sample.codedImage 2 (List.replicate 16 1) [0, 16, 7, 9] <+:
              e.storage.held Sample.secondMemory Sample.updateFile)) = true := by
    decide +kernel
  obtain ⟨e, after, hup, hcheck⟩ := Action.exists_of_passes hcheck
  obtain ⟨_, e', hinstall, hcheck⟩ := Action.exists_of_passes hcheck
  obtain ⟨hmemory, hencrypted, hfind, hfront⟩ := of_decide_eq_true hcheck
  obtain ⟨he, -, -, -, hbackend, hkey, -⟩ := (bringUp_ends (by simp)).done_of_ok hup
  have hcan : Image.Encodable (some ⟨List.replicate 16 1, Vector.replicate 16 7⟩)
      ([0, 16, 7, 9].flatMap Bytes.ofWord) :=
    ⟨by decide, by decide, fun _ hw => Option.some.inj hw ▸ by decide, fun _ => by decide⟩
  obtain ⟨bytes, plain, hbytes, hplain, hstored⟩ := image_round_trip hcan 2 {} .crc32
  have hcoded : Sample.codedImage 2 (List.replicate 16 1) [0, 16, 7, 9] = bytes := by
    simp only [Image.ofPayloadIn] at hbytes
    simp only [Sample.codedImage]
    rw [hbytes]
  have himage : Sample.image 2 [0, 16, 7, 9] = plain := by
    simp only [Sample.image]
    rw [hplain]
  rw [hcoded] at hfront
  obtain ⟨-, hinstalled⟩ := hstored e ⟨1, 0⟩ he ⟨hbackend, hencrypted, fun _ hw => Option.some.inj hw ▸ hkey,
    _, _, Sample.lookup?_updateFile hmemory, hfront⟩
  obtain ⟨application, hrole, hbegins⟩ := hinstalled.done_of_ok hinstall
  rw [application?, hfind] at hrole
  cases hrole
  exact ⟨e, e', hinstall, himage ▸ hbegins⟩

end Engine
end FirmwareUpdate
