import FirmwareUpdate.Log
import Mathlib.Data.List.Induction

/-! What an entry keeps of a text that is written to it in pieces. It begins with the text as far as whole characters
of it fit. More is kept if a piece that comes after the cut starts with a character for which there is still room. -/
namespace FirmwareUpdate.Log
variable {text message message' : String} {pieces : List String} {chars : List Char}

/-- The longest part at the front of the text that an entry can hold, in whole characters. -/
structure Cut (text message : String) : Prop where
  front : message.toList <+: text.toList
  fits : message.utf8ByteSize ≤ messageCapacity
  longest : ∀ other : String, other.toList <+: text.toList → other.utf8ByteSize ≤ messageCapacity →
    other.utf8ByteSize ≤ message.utf8ByteSize

/-- There is no room behind the message for the first of the characters. -/
def Blocks (message : String) (chars : List Char) : Prop :=
  ∀ c, chars.head? = some c → messageCapacity < message.utf8ByteSize + c.utf8Size

private theorem eq_append_of_toList (h : text.toList = message.toList ++ chars) :
    text = message ++ String.ofList chars := by
  apply String.toList_injective
  rw [h, String.toList_append, String.toList_ofList]

private theorem size_of_toList (h : text.toList = message.toList ++ chars) :
    text.utf8ByteSize = message.utf8ByteSize + (String.ofList chars).utf8ByteSize := by
  rw [eq_append_of_toList h, String.utf8ByteSize_append]

private theorem size_le_of_front (h : message.toList <+: text.toList) : message.utf8ByteSize ≤ text.utf8ByteSize := by
  obtain ⟨chars, hchars⟩ := h
  rw [size_of_toList hchars.symm]
  exact Nat.le_add_right _ _

private theorem utf8Size_le_ofList_cons (c : Char) (chars : List Char) :
    c.utf8Size ≤ (String.ofList (c :: chars)).utf8ByteSize := by
  rw [String.ofList_cons, String.utf8ByteSize_append, String.utf8ByteSize_singleton]
  exact Nat.le_add_right _ _

/-- A part at the front is the longest that fits exactly if the character behind it does not fit any more. -/
theorem cut_iff : Cut text message ↔
    message.utf8ByteSize ≤ messageCapacity ∧ ∃ rest, text.toList = message.toList ++ rest ∧ Blocks message rest := by
  constructor
  · intro h
    obtain ⟨rest, hrest⟩ := h.front
    refine ⟨h.fits, rest, hrest.symm, fun c hc => Nat.lt_of_not_le fun hroom => ?_⟩
    obtain ⟨rest', rfl⟩ := List.head?_eq_some_iff.mp hc
    have hfront : (message.push c).toList <+: text.toList := by
      rw [String.toList_push, ← hrest]
      exact ⟨rest', by rw [List.append_assoc, List.singleton_append]⟩
    have hle := h.longest (message.push c) hfront (by rwa [String.utf8ByteSize_push])
    rw [String.utf8ByteSize_push] at hle
    have hpos := c.utf8Size_pos
    omega
  · rintro ⟨hfits, rest, hrest, hblocks⟩
    refine ⟨⟨rest, hrest.symm⟩, hfits, fun other hother hfit => ?_⟩
    rcases List.prefix_or_prefix_of_prefix hother ⟨rest, hrest.symm⟩ with hshort | ⟨more, hmore⟩
    · exact size_le_of_front hshort
    · have hsize := size_of_toList hmore.symm
      cases more with
      | nil => exact Nat.le_of_eq hsize
      | cons c more =>
        rw [hrest, ← hmore, List.prefix_append_right_inj] at hother
        obtain ⟨rest', rfl⟩ := hother
        have hlong := hblocks c rfl
        have hle := utf8Size_le_ofList_cons c more
        omega

/-- There is one way only to cut a text to its capacity. -/
theorem Cut.unique (h : Cut text message) (h' : Cut text message') : message = message' := by
  wlog hfront : message.toList <+: message'.toList generalizing message message'
  · exact (this h' h ((List.prefix_or_prefix_of_prefix h.front h'.front).resolve_left hfront)).symm
  obtain ⟨more, hmore⟩ := hfront
  have hsize := size_of_toList hmore.symm
  have hle := h.longest message' h'.front h'.fits
  have hempty : String.ofList more = "" := String.utf8ByteSize_eq_zero_iff.mp (by omega)
  rw [eq_append_of_toList hmore.symm, hempty, String.append_empty]

/-- What comes behind a text that does not fit makes no difference. -/
theorem Cut.append (h : Cut text message) (hover : messageCapacity < text.utf8ByteSize) (more : String) :
    Cut (text ++ more) message := by
  obtain ⟨hfits, rest, hrest, hblocks⟩ := cut_iff.mp h
  refine cut_iff.mpr ⟨hfits, rest ++ more.toList, ?_, fun c hc => hblocks c ?_⟩
  · rw [String.toList_append, hrest, List.append_assoc]
  · cases rest with
    | nil =>
      have hwhole := size_of_toList hrest
      rw [String.ofList_nil, String.utf8ByteSize_empty] at hwhole
      omega
    | cons c' rest => exact hc

/-! ### One piece -/

/-- A piece is taken character by character, up to the first one that does not fit. -/
theorem appendFitting_takes (text : String) (chars : List Char) : ∃ taken rest, chars = taken ++ rest ∧
    (appendFitting text chars).toList = text.toList ++ taken ∧ Blocks (appendFitting text chars) rest := by
  induction chars generalizing text with
  | nil => exact ⟨[], [], rfl, (List.append_nil _).symm, nofun⟩
  | cons c chars ih =>
    simp only [appendFitting]
    split
    · obtain ⟨taken, rest, hchars, htaken, hblocks⟩ := ih (text.push c)
      refine ⟨c :: taken, rest, congrArg (c :: ·) hchars, ?_, hblocks⟩
      rw [htaken, String.toList_push, List.append_assoc, List.singleton_append]
    · rename_i hroom
      refine ⟨[], c :: chars, rfl, (List.append_nil _).symm, fun c' hc' => ?_⟩
      obtain rfl := Option.some.inj hc'
      exact Nat.lt_of_not_le hroom

private theorem appendFitting_fits (h : text.utf8ByteSize ≤ messageCapacity) (chars : List Char) :
    (appendFitting text chars).utf8ByteSize ≤ messageCapacity := by
  induction chars generalizing text with
  | nil => exact h
  | cons c chars ih =>
    simp only [appendFitting]
    split
    · rename_i hroom
      exact ih (by rwa [String.utf8ByteSize_push])
    · exact h

private theorem appendFitting_front (text : String) (chars : List Char) :
    text.toList <+: (appendFitting text chars).toList := by
  obtain ⟨taken, rest, -, htaken, -⟩ := appendFitting_takes text chars
  exact ⟨taken, htaken.symm⟩

/-- Nothing is taken of a piece exactly if its first character does not fit. -/
theorem appendFitting_eq_self_iff : appendFitting text chars = text ↔ Blocks text chars := by
  constructor
  · intro h
    obtain ⟨taken, rest, hchars, htaken, hblocks⟩ := appendFitting_takes text chars
    rw [h] at htaken hblocks
    rwa [hchars, List.self_eq_append_right.mp htaken]
  · intro h
    cases chars with
    | nil => rfl
    | cons c chars =>
      simp only [appendFitting]
      rw [if_neg (Nat.not_le_of_lt (h c rfl))]

/-- A piece behind a text that has fitted so far goes on with it. -/
theorem cut_appendFitting (h : text.utf8ByteSize ≤ messageCapacity) (piece : String) :
    Cut (text ++ piece) (appendFitting text piece.toList) := by
  obtain ⟨taken, rest, hpiece, htaken, hblocks⟩ := appendFitting_takes text piece.toList
  refine cut_iff.mpr ⟨appendFitting_fits h _, rest, ?_, hblocks⟩
  rw [String.toList_append, htaken, hpiece, List.append_assoc]

/-! ### All pieces -/

private theorem compose_concat (pieces : List String) (piece : String) :
    compose (pieces ++ [piece]) = appendFitting (compose pieces) piece.toList := by
  simp only [compose, List.foldl_append]
  rfl

/-- A message fits its entry, however many pieces it comes in. -/
theorem compose_fits (pieces : List String) : (compose pieces).utf8ByteSize ≤ messageCapacity := by
  induction pieces using List.reverseRecOn with
  | nil => exact Nat.zero_le _
  | append_singleton pieces piece ih =>
    rw [compose_concat]
    exact appendFitting_fits ih _

/-- A piece that comes after the text has run over starts with a character for which there is room behind the cut. -/
def Resumes (pieces : List String) (cut : String) : Prop :=
  ∃ i piece c, pieces[i]? = some piece ∧ messageCapacity < (String.join (pieces.take i)).utf8ByteSize ∧
    piece.toList.head? = some c ∧ cut.utf8ByteSize + c.utf8Size ≤ messageCapacity

private theorem not_blocks_iff : ¬Blocks message chars ↔
    ∃ c, chars.head? = some c ∧ message.utf8ByteSize + c.utf8Size ≤ messageCapacity := by
  simp only [Blocks, not_forall, Nat.not_lt, exists_prop]

private theorem resumes_concat {piece : String} : Resumes (pieces ++ [piece]) message ↔
    Resumes pieces message ∨ messageCapacity < (String.join pieces).utf8ByteSize ∧ ¬Blocks message piece.toList := by
  rw [not_blocks_iff]
  constructor
  · rintro ⟨i, piece', c, hpiece, hover, hc, hroom⟩
    by_cases hi : i < pieces.length
    · rw [List.getElem?_append_left hi] at hpiece
      rw [List.take_append_of_le_length (Nat.le_of_lt hi)] at hover
      exact .inl ⟨i, piece', c, hpiece, hover, hc, hroom⟩
    · obtain ⟨hbound, rfl⟩ := List.getElem?_eq_some_iff.mp hpiece
      rw [List.length_append, List.length_singleton] at hbound
      obtain rfl : i = pieces.length := by omega
      rw [List.take_left] at hover
      rw [List.getElem_concat_length rfl] at hc
      exact .inr ⟨hover, c, hc, hroom⟩
  · rintro (⟨i, piece', c, hpiece, hover, hc, hroom⟩ | ⟨hover, c, hc, hroom⟩)
    · obtain ⟨hbound, -⟩ := List.getElem?_eq_some_iff.mp hpiece
      refine ⟨i, piece', c, ?_, ?_, hc, hroom⟩
      · rw [List.getElem?_append_left hbound, hpiece]
      · rwa [List.take_append_of_le_length (Nat.le_of_lt hbound)]
    · refine ⟨pieces.length, piece, c, ?_, ?_, hc, hroom⟩
      · rw [List.getElem?_concat_length]
      · rwa [List.take_left]

/-- As long as the text fits no piece comes too late. -/
theorem not_resumes_of_fits (h : (String.join pieces).utf8ByteSize ≤ messageCapacity) : ¬Resumes pieces message := by
  rintro ⟨i, piece, c, -, hover, -, -⟩
  have hsize : (String.join pieces).utf8ByteSize =
      (String.join (pieces.take i)).utf8ByteSize + (String.join (pieces.drop i)).utf8ByteSize := by
    rw [← String.utf8ByteSize_append, ← String.join_append, List.take_append_drop]
  omega

/-- The message begins with the cut of the whole text. There is more behind it exactly if a later piece resumes. -/
theorem compose_cut (pieces : List String) : ∃ cut, Cut (String.join pieces) cut ∧
    cut.toList <+: (compose pieces).toList ∧ (compose pieces = cut ↔ ¬Resumes pieces cut) := by
  induction pieces using List.reverseRecOn with
  | nil =>
    have hempty : Cut "" "" := cut_iff.mpr ⟨Nat.zero_le _, [], rfl, nofun⟩
    exact ⟨"", hempty, List.prefix_rfl, fun _ => not_resumes_of_fits (Nat.zero_le _), fun _ => rfl⟩
  | append_singleton pieces piece ih =>
    obtain ⟨cut, hcut, hfront, hexact⟩ := ih
    have hjoin : String.join (pieces ++ [piece]) = String.join pieces ++ piece := by
      rw [String.join_append, String.join_cons, String.join_nil, String.append_empty]
    rw [compose_concat, hjoin]
    by_cases hover : messageCapacity < (String.join pieces).utf8ByteSize
    · refine ⟨cut, hcut.append hover piece, hfront.trans (appendFitting_front _ _), ?_⟩
      rw [resumes_concat, not_or, ← hexact, not_and, not_not, imp_iff_right hover]
      constructor
      · intro hsame
        -- Between the cut and the longer message there is only the message of the pieces before.
        have hback : (compose pieces).toList <+: cut.toList := by
          rw [← hsame]
          exact appendFitting_front _ _
        have hbefore : compose pieces = cut :=
          String.toList_injective (hback.eq_of_length_le hfront.length_le)
        rw [hbefore] at hsame
        exact ⟨hbefore, appendFitting_eq_self_iff.mp hsame⟩
      · rintro ⟨hbefore, hblocks⟩
        rw [hbefore]
        exact appendFitting_eq_self_iff.mpr hblocks
    · have hfits := Nat.le_of_not_lt hover
      have hwhole : Cut (String.join pieces) (String.join pieces) :=
        ⟨List.prefix_rfl, hfits, fun _ hother _ => size_le_of_front hother⟩
      have hbefore : compose pieces = String.join pieces :=
        (hexact.mpr (not_resumes_of_fits hfits)).trans (hcut.unique hwhole)
      rw [hbefore]
      refine ⟨_, cut_appendFitting hfits piece, List.prefix_rfl, fun _ => ?_, fun _ => rfl⟩
      rw [resumes_concat, not_or]
      exact ⟨not_resumes_of_fits hfits, fun h => hover h.1⟩

/-! ### What is stored -/

private theorem record_stores {log : Log} {level : Severity} (h : log.isRecorded level = true) (tag : String)
    (pieces : List String) :
    (log.record level tag pieces).entries.getLast? = some ⟨level, log.next, tag, compose pieces⟩ := by
  rw [record, if_pos h, push]
  exact List.getLast?_concat

/-- An entry holds the cut of the text and has room for no more than its capacity. It holds nothing but the cut, in
whatever pieces the text is written, exactly if none of them resumes behind the cut. -/
theorem stored_message {log : Log} {level : Severity} (h : log.isRecorded level = true) (tag : String)
    (pieces : List String) : ∃ entry cut,
    (log.record level tag pieces).entries.getLast? = some entry ∧ Cut (String.join pieces) cut ∧
      cut.toList <+: entry.message.toList ∧ entry.message.utf8ByteSize ≤ messageCapacity ∧
      (entry.message = cut ↔ ¬Resumes pieces cut) := by
  obtain ⟨cut, hcut, hfront, hexact⟩ := compose_cut pieces
  exact ⟨_, cut, record_stores h tag pieces, hcut, hfront, compose_fits pieces, hexact⟩

/-- Text with room for one more byte behind it. -/
def sampleText : String := String.ofList (List.replicate 95 'x')

/-- Two bytes are needed for the character at which the text is cut, and for the one that the last piece starts with. -/
theorem sample_stored_message : isRecorded {} .info = true ∧ ∃ entry,
    (record {} .info "boot" [sampleText, "éa", "ü"]).entries.getLast? = some entry ∧
      Cut (String.join [sampleText, "éa", "ü"]) sampleText ∧ entry.message = sampleText := by
  have hsample : Cut (String.join [sampleText, "éa", "ü"]) sampleText := by
    refine cut_iff.mpr ⟨by decide +kernel, ['é', 'a', 'ü'], by decide +kernel, fun c hc => ?_⟩
    obtain rfl := Option.some.inj hc
    decide +kernel
  have hquiet : ¬Resumes [sampleText, "éa", "ü"] sampleText := by
    rintro ⟨i, piece, c, hpiece, hover, hc, hroom⟩
    match i with
    | 0 => exact absurd hover (by decide +kernel)
    | 1 => exact absurd hover (by decide +kernel)
    | 2 =>
      obtain rfl := Option.some.inj hpiece
      obtain rfl : 'ü' = c := Option.some.inj ((by decide +kernel : _ = _).trans hc)
      exact absurd hroom (by decide +kernel)
    | i + 3 => cases hpiece
  have hrecorded : isRecorded {} .info = true := rfl
  obtain ⟨entry, cut, hentry, hcut, -, -, hexact⟩ := stored_message hrecorded "boot" [sampleText, "éa", "ü"]
  rw [hcut.unique hsample] at hexact
  exact ⟨hrecorded, entry, hentry, hsample, hexact.mpr hquiet⟩

/-- The character in the middle of the text is dropped, and the one behind it is kept. -/
theorem later_piece_resumes : ∃ entry,
    (record {} .info "boot" [sampleText, "é", "y"]).entries.getLast? = some entry ∧ entry.message = sampleText ++ "y" ∧
      ¬Cut (String.join [sampleText, "é", "y"]) entry.message := by
  have hmessage : compose [sampleText, "é", "y"] = sampleText ++ "y" := by decide +kernel
  have hrecorded : isRecorded {} .info = true := rfl
  have hstored := record_stores hrecorded "boot" [sampleText, "é", "y"]
  rw [hmessage] at hstored
  exact ⟨_, hstored, rfl, fun hcut => absurd hcut.front (by decide +kernel)⟩

end FirmwareUpdate.Log
