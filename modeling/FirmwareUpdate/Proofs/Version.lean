import FirmwareUpdate.Version

/-! The texts that stand for versions. A text is read exactly if it is three components with dots between them, and what
is printed for a version is read back. -/
namespace FirmwareUpdate.Version
variable {digits text : List Char} {value : UInt8}

/-- One or more digits of a value that fits a byte. Zeros in front add nothing to it, however many there are. -/
structure Numeral (digits : List Char) (value : UInt8) : Prop where
  nonempty : digits ≠ []
  decimal : ∀ c ∈ digits, c.isDigit = true
  value_eq : Nat.ofDigitChars 10 digits 0 = value.toNat

/-- A component is a numeral, which may have a plus sign in front of it. -/
inductive Component : List Char → UInt8 → Prop where
  | plain {digits : List Char} {value : UInt8} (h : Numeral digits value) : Component digits value
  | signed {digits : List Char} {value : UInt8} (h : Numeral digits value) : Component ('+' :: digits) value

/-- The text holds the components of the version in order, and two dots. -/
def Denotes (text : List Char) (v : Version) : Prop :=
  ∃ major minor patch, text = major ++ '.' :: minor ++ '.' :: patch ∧
    Component major v.major ∧ Component minor v.minor ∧ Component patch v.patch

private theorem digitsValue_eq (digits : List Char) : digitsValue digits = Nat.ofDigitChars 10 digits 0 := by
  rw [digitsValue, Nat.ofDigitChars_eq_foldl]
  congr 1
  funext value c
  rw [Nat.mul_comm]

/-- A text of digits is read as the number it denotes, and no other text is one. -/
theorem digits?_iff : digits? digits = some value ↔ Numeral digits value := by
  unfold digits?
  split
  · rename_i h
    obtain ⟨hne, hdecimal, hle⟩ := h
    have hbyte : (UInt8.ofNat (digitsValue digits)).toNat = digitsValue digits :=
      UInt8.toNat_ofNat_of_lt' (Nat.lt_succ_of_le hle)
    constructor
    · intro hvalue
      obtain rfl := Option.some.inj hvalue
      exact ⟨hne, List.all_eq_true.mp hdecimal, by rw [hbyte, digitsValue_eq]⟩
    · intro hnumeral
      have hvalue : digitsValue digits = value.toNat := (digitsValue_eq digits).trans hnumeral.value_eq
      rw [hvalue, UInt8.ofNat_toNat]
  · rename_i h
    refine ⟨nofun, fun hnumeral => absurd ⟨hnumeral.nonempty, List.all_eq_true.mpr hnumeral.decimal, ?_⟩ h⟩
    rw [digitsValue_eq, hnumeral.value_eq]
    exact Nat.le_of_lt_succ value.toNat_lt

private theorem Numeral.not_mem {c : Char} (h : Numeral digits value) (hc : c.isDigit = false) :
    c ∉ digits := fun hmem =>
  absurd (h.decimal c hmem) (Bool.eq_false_iff.mp hc)

/-- A plus sign is never read as part of the numeral. -/
theorem not_numeral_signed : ¬Numeral ('+' :: digits) value := fun h => h.not_mem rfl List.mem_cons_self

/-- A part of a version is read exactly if it is a byte in decimal. -/
theorem component?_iff : component? text = some value ↔ Component text value := by
  fun_cases component? text with
  | case1 digits =>
    rw [digits?_iff]
    constructor
    · exact Component.signed
    · intro h
      cases h with
      | plain h => exact absurd h not_numeral_signed
      | signed h => exact h
  | case2 _ hunsigned =>
    rw [digits?_iff]
    constructor
    · exact Component.plain
    · intro h
      cases h with
      | plain h => exact h
      | signed h => exact absurd rfl (hunsigned _)

/-- No component has a dot in it. -/
theorem Component.dotless (h : Component text value) : '.' ∉ text := by
  cases h with
  | plain h => exact h.not_mem rfl
  | signed h => exact List.not_mem_cons_of_ne_of_not_mem (by decide) (h.not_mem rfl)

/-- Three parts come out of a text exactly if dots stand between them and nowhere else. -/
theorem splitOn_dot {major minor patch : List Char} (hmajor : '.' ∉ major) (hminor : '.' ∉ minor)
    (hpatch : '.' ∉ patch) : (major ++ '.' :: minor ++ '.' :: patch).splitOn '.' = [major, minor, patch] := by
  have hparts : ∀ part ∈ [major, minor, patch], '.' ∉ part := by
    simp only [List.forall_mem_cons]
    exact ⟨hmajor, hminor, hpatch, nofun⟩
  have hjoined : major ++ '.' :: minor ++ '.' :: patch = ['.'].intercalate [major, minor, patch] := by
    simp [List.intercalate]
  rw [hjoined]
  exact List.splitOn_intercalate '.' hparts (List.cons_ne_nil _ _)

/-- A version is read exactly from the texts that denote it. -/
theorem parse?_iff {text : String} {v : Version} : parse? text = some v ↔ Denotes text.toList v := by
  unfold parse?
  constructor
  · intro h
    split at h
    · rename_i major minor patch hsplit
      simp only [Option.pure_def, Option.bind_eq_bind, Option.bind_eq_some_iff] at h
      obtain ⟨x, hmajor, y, hminor, z, hpatch, hv⟩ := h
      obtain rfl := Option.some.inj hv
      refine ⟨major, minor, patch, ?_, component?_iff.mp hmajor, component?_iff.mp hminor, component?_iff.mp hpatch⟩
      calc
        text.toList = ['.'].intercalate (text.toList.splitOn '.') := (List.intercalate_splitOn '.').symm
        _ = ['.'].intercalate [major, minor, patch] := by rw [hsplit]
        _ = major ++ '.' :: minor ++ '.' :: patch := by simp [List.intercalate]
    · cases h
  · rintro ⟨major, minor, patch, htext, hmajor, hminor, hpatch⟩
    rw [htext, splitOn_dot hmajor.dotless hminor.dotless hpatch.dotless]
    simp only [component?_iff.mpr hmajor, component?_iff.mpr hminor, component?_iff.mpr hpatch]
    rfl

/-- A byte in decimal is a part of a version. -/
theorem component_decimal (value : UInt8) : Component (Text.decimal value.toNat).toList value := by
  rw [Text.decimal, String.toList_ofList]
  exact .plain ⟨Nat.toDigits_ne_nil, fun _ => Nat.isDigit_of_mem_toDigits (by decide) (by decide),
    Nat.ofDigitChars_ten_toDigits⟩

/-- A version as it is shown denotes itself. -/
theorem denotes_render (v : Version) : Denotes v.render.toList v := by
  refine ⟨_, _, _, ?_, component_decimal v.major, component_decimal v.minor, component_decimal v.patch⟩
  simp [render]

/-- A text is read as a version exactly if it is made up of the components of that version, and each version is read
back from what is printed for it. -/
theorem parse_exact :
    (∀ text v, parse? text = some v ↔ Denotes text.toList v) ∧ ∀ v : Version, parse? v.render = some v :=
  ⟨fun _ _ => parse?_iff, fun v => parse?_iff.mpr (denotes_render v)⟩

example : parse? "+007.0.255" = some ⟨7, 0, 255⟩ ∧ parse? "1.0.256" = none ∧ parse? "1..0" = none := by decide +kernel

end FirmwareUpdate.Version
