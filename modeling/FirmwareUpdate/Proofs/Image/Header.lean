import FirmwareUpdate.Image.Header
import FirmwareUpdate.Proofs.Bytes.Word
import FirmwareUpdate.Proofs.Digest.Crc32

/-! The header codec. A header that is written can be read back, and one that is read is written as it was, but
for the bytes that no field takes up. -/
namespace FirmwareUpdate

namespace Version

private theorem pack_eq_wordOf (v : Version) : v.pack = Bytes.wordOf v.patch v.minor v.major 0 := by
  simp only [pack, Bytes.wordOf]
  rw [UInt32.or_comm, UInt32.or_comm (v.major.toUInt32 <<< 16), ← UInt32.or_assoc]
  simp

/-- A version that is packed is unpacked as it was. -/
theorem unpack_pack (v : Version) : unpack v.pack = v := by
  have hbytes := Bytes.ofWord_wordOf v.patch v.minor v.major 0
  simp only [Bytes.ofWord, List.cons.injEq] at hbytes
  obtain ⟨hpatch, hminor, hmajor, -⟩ := hbytes
  rw [unpack, pack_eq_wordOf, hpatch, hminor, hmajor]

/-- The top byte of a version's word is lost. -/
theorem ofWord_pack_unpack (word : UInt32) :
    Bytes.ofWord (unpack word).pack = (Bytes.ofWord word).take 3 ++ [0] := by
  rw [pack_eq_wordOf, Bytes.ofWord_wordOf]
  rfl

end Version

namespace Header
variable {raw : Bytes} {h : Header}

/-! ### What is read -/

/-- The bytes start with the header of an application: the layout and the type are known, the payload is not empty
and the checksum is that of what comes before it. -/
structure Readable (raw : Bytes) : Prop where
  complete : 64 ≤ raw.length
  layout : Bytes.slice raw 0x00 4 = Bytes.ofWord 0x00010000
  imageType : raw[0x08]? = some 1
  size : Bytes.slice raw 0x0C 4 ≠ Bytes.ofWord 0
  checksum : Bytes.slice raw 0x3C 4 = Bytes.ofWord (Crc32.checksum (raw.take 0x3C))

private theorem wordAt_iff {offset : Nat} {word : UInt32} (hin : offset + 4 ≤ raw.length) :
    Bytes.wordAt raw offset = word ↔ Bytes.slice raw offset 4 = Bytes.ofWord word := by
  rw [← Bytes.ofWord_wordAt hin, Bytes.ofWord_injective.eq_iff]

private theorem getD_iff {i : Nat} {byte : UInt8} (hne : byte ≠ 0) : raw.getD i 0 = byte ↔ raw[i]? = some byte := by
  rw [List.getD_eq_getElem?_getD]
  cases raw[i]? with
  | none => simpa using hne.symm
  | some found => simp

private theorem checks_iff : (encodedSize ≤ raw.length ∧ (fields raw).layoutVersion = supportedLayout ∧
    (fields raw).imageType = applicationType ∧ (fields raw).size ≠ 0 ∧
    Crc32.checksum (raw.take coveredSize) = (fields raw).checksum) ↔ Readable raw := by
  constructor
  · rintro ⟨hcomplete, hlayout, htype, hsize, hchecksum⟩
    have hlong : 64 ≤ raw.length := hcomplete
    exact ⟨hlong, (wordAt_iff (by omega)).mp hlayout, (getD_iff (by decide)).mp htype,
      fun hzero => hsize ((wordAt_iff (by omega)).mpr hzero), (wordAt_iff (by omega)).mp hchecksum.symm⟩
  · intro hr
    have hlong := hr.complete
    exact ⟨hlong, (wordAt_iff (by omega)).mpr hr.layout, (getD_iff (by decide)).mpr hr.imageType,
      fun hzero => hr.size ((wordAt_iff (by omega)).mp hzero), ((wordAt_iff (by omega)).mpr hr.checksum).symm⟩

instance (raw : Bytes) : Decidable (Readable raw) := decidable_of_iff _ checks_iff

/-- The reader accepts what is readable and nothing else, and takes the fields as they stand. -/
theorem decode_ok_iff : decode raw = .ok h ↔ Readable raw ∧ h = fields raw := by
  rw [← checks_iff]
  simp only [decode]
  split
  · rename_i hchecks
    exact ⟨fun hd => ⟨hchecks, (Except.ok.inj hd).symm⟩, fun hd => congrArg Except.ok hd.2.symm⟩
  · rename_i hchecks
    refine ⟨fun hd => ?_, fun hd => absurd hd.1 hchecks⟩
    cases hd

/-- A header that is read declares a payload. -/
theorem size_ne_zero (hd : decode raw = .ok h) : h.size ≠ 0 := by
  obtain ⟨hr, rfl⟩ := decode_ok_iff.mp hd
  exact (checks_iff.mpr hr).2.2.2.1

/-- There is one error for all that may be wrong with a header. -/
theorem decode_error {cause : Error} (hd : decode raw = .error cause) : cause = .headerInvalid := by
  simp only [decode] at hd
  split at hd
  · cases hd
  · exact (Except.error.inj hd).symm

/-- The checksum of a header that is accepted stands at its end. -/
theorem seed_of_decode (hd : decode raw = .ok h) : h.seed = Bytes.slice raw coveredSize 4 ∧
    h.seed = Bytes.ofWord (Crc32.checksum (raw.take coveredSize)) := by
  obtain ⟨hr, rfl⟩ := decode_ok_iff.mp hd
  have hplace : (fields raw).seed = Bytes.slice raw coveredSize 4 := Bytes.ofWord_wordAt hr.complete
  exact ⟨hplace, hplace.trans hr.checksum⟩

/-- A header that is read has its checksum in it. -/
theorem sealed_of_decode (hd : decode raw = .ok h) : Crc32.Sealed (raw.take encodedSize) := by
  obtain ⟨hplace, hseed⟩ := seed_of_decode hd
  refine ⟨raw.take coveredSize, ?_⟩
  rw [← hseed, hplace, Bytes.take_append_slice]
  rfl

/-! ### There and back -/

private theorem fields_encode (h : Header) : fields h.encode = h := by
  have hlayout : Bytes.wordAt h.encode 0x00 = h.layoutVersion := Bytes.wordOf_bytes _
  have hindex : Bytes.wordAt h.encode 0x04 = h.index := Bytes.wordOf_bytes _
  have hsize : Bytes.wordAt h.encode 0x0C = h.size := Bytes.wordOf_bytes _
  have hversion : Bytes.wordAt h.encode 0x10 = h.version.pack := Bytes.wordOf_bytes _
  have hchecksum : Bytes.wordAt h.encode coveredSize = h.checksum := Bytes.wordOf_bytes _
  rw [fields, hlayout, hindex, hsize, hversion, hchecksum, Version.unpack_pack]
  rfl

/-- A header that its own bytes are read as: of the known layout and type, for a payload that is not empty, with
the checksum set right. -/
structure Regular (h : Header) : Prop where
  layout : h.layoutVersion = 0x00010000
  imageType : h.imageType = 1
  size : h.size ≠ 0
  checksum : h.checksum = Crc32.checksum (h.encode.take 0x3C)

/-- A header can be read once it is encoded exactly if it is a regular one. -/
theorem readable_encode_iff (h : Header) : Readable h.encode ↔ Regular h := by
  rw [← checks_iff, fields_encode]
  exact ⟨fun ⟨_, hlayout, htype, hsize, hchecksum⟩ => ⟨hlayout, htype, hsize, hchecksum.symm⟩,
    fun hr => ⟨Nat.le_refl _, hr.layout, hr.imageType, hr.size, hr.checksum.symm⟩⟩

/-- A header is read back as it was written exactly if it is a regular one. -/
theorem decode_encode_iff (h : Header) : decode h.encode = .ok h ↔ Regular h := by
  rw [decode_ok_iff, fields_encode, readable_encode_iff]
  exact and_iff_left rfl

private theorem regular_forApplication (index size : UInt32) (version : Version) :
    Regular (forApplication index size version) ↔ size ≠ 0 :=
  ⟨Regular.size, fun hsize => ⟨rfl, rfl, hsize, rfl⟩⟩

/-- The header of an application that is not empty comes back from its bytes. -/
theorem decode_encode {index size : UInt32} {version : Version} (hsize : size ≠ 0) :
    decode (forApplication index size version).encode = .ok (forApplication index size version) :=
  (decode_encode_iff _).mpr ((regular_forApplication index size version).mpr hsize)

/-- Positions in a header that no field takes up. The top byte of the version's word is one of them. -/
def Reserved (i : Nat) : Prop := (0x09 ≤ i ∧ i ≤ 0x0B) ∨ (0x13 ≤ i ∧ i ≤ 0x3B)

instance : DecidablePred Reserved := fun i =>
    inferInstanceAs (Decidable ((0x09 ≤ i ∧ i ≤ 0x0B) ∨ (0x13 ≤ i ∧ i ≤ 0x3B)))

/-- The fields of a header as they were read, with zeros between them. -/
theorem encode_fields (hlong : 64 ≤ raw.length) :
    (fields raw).encode = Bytes.slice raw 0x00 9 ++ List.replicate 3 0 ++ Bytes.slice raw 0x0C 7 ++
      List.replicate 41 0 ++ Bytes.slice raw 0x3C 4 := by
  have hword : ∀ offset, offset + 4 ≤ 64 → Bytes.ofWord (Bytes.wordAt raw offset) = Bytes.slice raw offset 4 :=
    fun offset hin => Bytes.ofWord_wordAt (by omega)
  have htype : [raw.getD 0x08 0, 0, 0, 0] = Bytes.slice raw 0x08 1 ++ List.replicate 3 0 := by
    rw [Bytes.slice, List.getD_eq_getElem?_getD, List.drop_eq_getElem_cons (by omega),
      List.getElem?_eq_getElem (by omega)]
    rfl
  have hversion : Bytes.ofWord (Version.unpack (Bytes.wordAt raw 0x10)).pack = Bytes.slice raw 0x10 3 ++ [0] := by
    rw [Version.ofWord_pack_unpack, hword _ (by decide), Bytes.take_slice]
    rfl
  have hfront : Bytes.slice raw 0x00 9 =
      Bytes.slice raw 0x00 4 ++ Bytes.slice raw 0x04 4 ++ Bytes.slice raw 0x08 1 := by
    rw [Bytes.slice_append raw 0x00 4 4, Bytes.slice_append raw 0x00 8 1]
  have hmiddle : Bytes.slice raw 0x0C 7 = Bytes.slice raw 0x0C 4 ++ Bytes.slice raw 0x10 3 :=
    (Bytes.slice_append raw 0x0C 4 3).symm
  simp only [encode, coveredBytes, fields, coveredSize]
  rw [hword _ (by decide), hword _ (by decide), hword _ (by decide), hword _ (by decide), htype, hversion, hfront,
    hmiddle]
  simp only [List.append_assoc]
  rfl

/-- What has been read is written again byte by byte, but for the positions that are reserved, which are cleared. -/
theorem getElem?_encode_fields (hlong : 64 ≤ raw.length) {i : Nat} (hi : i < 64) :
    (fields raw).encode[i]? = if Reserved i then some 0 else raw[i]? := by
  have hlength : ∀ offset count, offset + count ≤ 64 → (Bytes.slice raw offset count).length = count := by
    intro offset count hin
    rw [Bytes.length_slice]
    omega
  rw [encode_fields hlong]
  simp only [List.getElem?_append, List.length_append, List.length_replicate, hlength 0x00 9 (by decide),
    hlength 0x0C 7 (by decide), Bytes.getElem?_slice, List.getElem?_replicate, Reserved]
  grind

/-- The reader accepts the bytes that are readable. Of the headers that are written it gives back those that are
regular, as the header of every application that is not empty is. A header that has been read is written as its
bytes were, but for the reserved ones. -/
theorem codec_exact :
    (∀ raw, (∃ h, decode raw = .ok h) ↔ Readable raw) ∧
      (∀ h, decode h.encode = .ok h ↔ Regular h) ∧
      (∀ index size version, Regular (forApplication index size version) ↔ size ≠ 0) ∧
      ∀ raw h, decode raw = .ok h → ∀ i < 64, h.encode[i]? = if Reserved i then some 0 else raw[i]? := by
  refine ⟨fun raw => ⟨fun ⟨h, hd⟩ => ?_, fun hr => ?_⟩, decode_encode_iff, regular_forApplication, ?_⟩
  · exact (decode_ok_iff.mp hd).1
  · exact ⟨fields raw, decode_ok_iff.mpr ⟨hr, rfl⟩⟩
  · intro raw h hd i hi
    obtain ⟨hr, rfl⟩ := decode_ok_iff.mp hd
    exact getElem?_encode_fields hr.complete hi

-- The header of an application with a reserved byte set, sealed again and with another byte behind it.
private def crowded : Bytes :=
  let front := Bytes.splice ((forApplication 7 1024 ⟨1, 2, 3⟩).encode.take 0x3C) 0x13 [9, 8]
  front ++ Bytes.ofWord (Crc32.checksum front) ++ [5]

/-- It is read, and comes back without what was reserved. -/
theorem sample_codec : ∃ h, decode crowded = .ok h ∧ h.version = ⟨1, 2, 3⟩ ∧ decode h.encode ≠ .ok h ∧
    ∀ i < 64, h.encode[i]? = if Reserved i then some 0 else crowded[i]? := by
  have hreads : Readable crowded ∧ (fields crowded).version = ⟨1, 2, 3⟩ ∧
      (fields crowded).checksum ≠ Crc32.checksum ((fields crowded).encode.take 0x3C) := by
    decide +kernel
  obtain ⟨hr, hversion, hchecksum⟩ := hreads
  have hd : decode crowded = .ok (fields crowded) := decode_ok_iff.mpr ⟨hr, rfl⟩
  refine ⟨fields crowded, hd, hversion, fun hback => ?_, codec_exact.2.2.2 crowded _ hd⟩
  exact hchecksum ((codec_exact.2.1 _).mp hback).checksum

end Header
end FirmwareUpdate
