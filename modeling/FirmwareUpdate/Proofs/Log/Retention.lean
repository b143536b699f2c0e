import FirmwareUpdate.Proofs.Log.Message
import Mathlib.Data.List.DropRight

/-! What a log holds after any sequence of calls: the newest of the entries that have been recorded since it was cleared
last, with the numbers they have among all that were ever recorded. -/
namespace FirmwareUpdate.Log

/-- A call to a log: to record a text that is handed over in pieces, to set the threshold, or to drop the entries. -/
inductive Call where
  | record (level : Severity) (tag : String) (pieces : List String)
  | setThreshold (level : Severity)
  | clear
  deriving DecidableEq

/-- An entry but for its number. -/
structure Note where
  level : Severity
  tag : String
  message : String

def Note.numbered (note : Note) (number : Nat) : LogItem :=
  ⟨note.level, UInt32.ofNat number, note.tag, note.message⟩

namespace Call

def apply (log : Log) : Call → Log
  | record level tag pieces => log.record level tag pieces
  | setThreshold level => { log with threshold := level }
  | clear => log.clear

def threshold? : Call → Option Severity
  | setThreshold level => some level
  | _ => none

/-- What is recorded of a call while this threshold is in force. -/
def note? (threshold : Severity) : Call → Option Note
  | record level tag pieces => if level.rank ≤ threshold.rank then some ⟨level, tag, compose pieces⟩ else none
  | _ => none

end Call

/-- A new log after these calls. -/
def run (calls : List Call) : Log := calls.foldl Call.apply {}

/-- The threshold that has been set last. -/
def thresholdAfter (calls : List Call) : Severity := (calls.filterMap Call.threshold?).getLastD .info

/-- What is recorded of the calls, each under the threshold that those before it have left. -/
def notes (calls : List Call) : List Note :=
  (List.range calls.length).filterMap fun i => calls[i]?.bind (Call.note? (thresholdAfter (calls.take i)))

/-- All entries since the log was made, numbered in the order in which they were recorded. -/
def recorded (calls : List Call) : List LogItem := (notes calls).mapIdx fun number note => note.numbered number

/-- How many entries there had been when the log was cleared last. -/
def clearedCount (calls : List Call) : Nat := (notes (calls.rdropWhile fun call => call ≠ .clear)).length

variable (calls : List Call) (call : Call)

private theorem run_concat : run (calls ++ [call]) = call.apply (run calls) := by
  simp only [run, List.foldl_append]
  rfl

/-! ### What one more call adds to the record -/

private theorem thresholdAfter_concat :
    thresholdAfter (calls ++ [call]) = call.threshold?.getD (thresholdAfter calls) := by
  simp only [thresholdAfter, List.filterMap_append]
  cases hcall : call.threshold? with
  | none => simp [hcall]
  | some level => simp [hcall]

private theorem notes_concat : notes (calls ++ [call]) = notes calls ++ (call.note? (thresholdAfter calls)).toList := by
  simp only [notes, List.length_append, List.length_singleton, List.range_succ, List.filterMap_append]
  congr 1
  · refine List.filterMap_congr fun i hi => ?_
    have hbefore : i < calls.length := List.mem_range.mp hi
    rw [List.getElem?_append_left hbefore, List.take_append_of_le_length (Nat.le_of_lt hbefore)]
  · simp only [List.filterMap_cons, List.filterMap_nil, List.getElem?_concat_length, List.take_left, Option.bind_some]
    cases call.note? (thresholdAfter calls) <;> rfl

private theorem recorded_concat : recorded (calls ++ [call]) =
    recorded calls ++ ((call.note? (thresholdAfter calls)).map (·.numbered (notes calls).length)).toList := by
  simp only [recorded, notes_concat, List.mapIdx_append]
  congr 1
  cases call.note? (thresholdAfter calls) with
  | none => rfl
  | some note => simp

private theorem length_recorded : (recorded calls).length = (notes calls).length := List.length_mapIdx

private theorem clearedCount_concat :
    clearedCount (calls ++ [call]) = if call = .clear then (notes calls).length else clearedCount calls := by
  rw [clearedCount, List.rdropWhile_concat]
  by_cases hclear : call = .clear
  · rw [hclear, if_neg (by decide), if_pos rfl, notes_concat]
    exact congrArg List.length (List.append_nil _)
  · rw [if_pos (decide_eq_true hclear), if_neg hclear]
    rfl

private theorem clearedCount_le : clearedCount calls ≤ (recorded calls).length := by
  rw [length_recorded]
  induction calls using List.reverseRecOn with
  | nil => exact Nat.le_refl _
  | append_singleton calls call ih =>
    rw [clearedCount_concat, notes_concat, List.length_append]
    split
    · exact Nat.le_add_right _ _
    · exact Nat.le_trans ih (Nat.le_add_right _ _)

/-! ### What the log holds -/

private theorem run_threshold : (run calls).threshold = thresholdAfter calls := by
  induction calls using List.reverseRecOn with
  | nil => rfl
  | append_singleton calls call ih =>
    rw [run_concat, thresholdAfter_concat, ← ih]
    cases call with
    | record level tag pieces =>
      simp only [Call.apply, record]
      split <;> rfl
    | setThreshold level => rfl
    | clear => rfl

variable {calls call} {log : Log} {note : Note}

private theorem apply_of_note (h : call.note? log.threshold = some note) :
    call.apply log = log.push ⟨note.level, log.next, note.tag, note.message⟩ := by
  cases call with
  | record level tag pieces =>
    simp only [Call.note?] at h
    split at h
    · rename_i hlevel
      obtain rfl := Option.some.inj h
      have hrecorded : log.isRecorded level = true := decide_eq_true hlevel
      exact if_pos hrecorded
    · cases h
  | setThreshold level => cases h
  | clear => cases h

/-- A call of which nothing is recorded uses up no number. -/
theorem apply_of_none (h : call.note? log.threshold = none) :
    (call.apply log).next = log.next ∧ (call.apply log).entries = if call = .clear then [] else log.entries := by
  cases call with
  | record level tag pieces =>
    simp only [Call.note?] at h
    split at h
    · cases h
    · rename_i hlevel
      have hrejected : ¬log.isRecorded level = true := by simpa [isRecorded] using hlevel
      simp only [Call.apply, record]
      rw [if_neg hrejected, if_neg Call.noConfusion]
      exact ⟨rfl, rfl⟩
  | setThreshold level => exact ⟨rfl, rfl⟩
  | clear => exact ⟨rfl, rfl⟩

private theorem run_next (calls : List Call) : (run calls).next = UInt32.ofNat (recorded calls).length := by
  induction calls using List.reverseRecOn with
  | nil => rfl
  | append_singleton calls call ih =>
    rw [run_concat, recorded_concat]
    cases hnote : call.note? (thresholdAfter calls) with
    | none =>
      rw [← run_threshold] at hnote
      rw [(apply_of_none hnote).1, ih]
      simp
    | some note =>
      rw [← run_threshold] at hnote
      rw [apply_of_note hnote]
      show (run calls).next + 1 = _
      rw [ih]
      simp

/-- Adding at the end of the newest, and dropping the oldest if there is no room. -/
theorem rtake_push {α : Type} (xs : List α) (x : α) {n : Nat} (h : 0 < n) :
    (if (xs.rtake n).length < n then xs.rtake n else (xs.rtake n).tail) ++ [x] = (xs ++ [x]).rtake n := by
  obtain ⟨m, rfl⟩ : ∃ m, n = m + 1 := ⟨n - 1, by omega⟩
  rw [List.rtake_concat_succ]
  congr 1
  simp only [List.rtake, List.length_drop, List.tail_drop]
  split
  · rw [show xs.length - (m + 1) = 0 by omega, show xs.length - m = 0 by omega]
  · congr 1
    omega

private theorem run_entries (calls : List Call) :
    (run calls).entries = ((recorded calls).drop (clearedCount calls)).rtake capacity := by
  induction calls using List.reverseRecOn with
  | nil => rfl
  | append_singleton calls call ih =>
    rw [run_concat, recorded_concat, clearedCount_concat]
    cases hnote : call.note? (thresholdAfter calls) with
    | none =>
      rw [← run_threshold] at hnote
      rw [(apply_of_none hnote).2, ih, Option.map_none, Option.toList_none, List.append_nil]
      split
      · rw [← length_recorded, List.drop_length]
        rfl
      · rfl
    | some note =>
      have hkept : call ≠ .clear := by
        rintro rfl
        cases hnote
      rw [if_neg hkept, Option.map_some, Option.toList_some, List.drop_append_of_le_length (clearedCount_le calls),
        ← rtake_push _ _ (by decide : 0 < capacity), ← ih, ← length_recorded]
      rw [← run_threshold] at hnote
      rw [apply_of_note hnote, run_next]
      rfl

/-! ### What is found in it -/

private theorem notes_fit (h : note ∈ notes calls) : note.message.utf8ByteSize ≤ messageCapacity := by
  obtain ⟨i, -, hnote⟩ := List.mem_filterMap.mp h
  obtain ⟨call, -, hnote⟩ := Option.bind_eq_some_iff.mp hnote
  cases call with
  | record level tag pieces =>
    simp only [Call.note?] at hnote
    split at hnote
    · obtain rfl := Option.some.inj hnote
      exact compose_fits pieces
    · cases hnote
  | setThreshold level => cases hnote
  | clear => cases hnote

private theorem recorded_fit {entry : LogItem} (h : entry ∈ recorded calls) :
    entry.message.utf8ByteSize ≤ messageCapacity := by
  obtain ⟨number, hnumber, rfl⟩ := List.mem_mapIdx.mp h
  exact notes_fit (List.getElem_mem hnumber)

/-- A text occurs in another exactly if it is a stretch of it. -/
theorem occurs_iff (needle text : List Char) : occurs needle text = true ↔ needle <:+: text := by
  induction text with
  | nil => rw [occurs, List.isEmpty_iff, List.infix_nil]
  | cons c text ih => rw [occurs, Bool.or_eq_true, List.isPrefixOf_iff_prefix, ih, List.infix_cons_iff]

/-- Looking for a text finds it exactly if an entry with that tag has it in its message. -/
theorem contains_iff {tag needle : String} : log.contains tag needle = true ↔
    ∃ entry ∈ log.entries, entry.tag = tag ∧ needle.toList <:+: entry.message.toList := by
  simp only [contains, List.any_eq_true, Bool.and_eq_true, decide_eq_true_eq, occurs_iff]

/-- A log holds the newest of the entries that have been recorded since it was cleared last, as many as it has room for,
and knows how many have ever been recorded. Clearing it does not set the numbers back. -/
theorem retained_exact (calls : List Call) :
    (run calls).entries = ((recorded calls).drop (clearedCount calls)).rtake capacity ∧
      (run calls).entries.length = min capacity ((recorded calls).length - clearedCount calls) ∧
      (∀ i entry, (recorded calls)[i]? = some entry → entry.sequence = UInt32.ofNat i) ∧
      (run calls).total = UInt32.ofNat (recorded calls).length ∧
      (∀ entry ∈ (run calls).entries, entry.message.utf8ByteSize ≤ messageCapacity) ∧
      ∀ tag needle, (run calls).contains tag needle = true ↔
        ∃ entry ∈ (run calls).entries, entry.tag = tag ∧ needle.toList <:+: entry.message.toList := by
  refine ⟨run_entries calls, ?_, fun i entry hentry => ?_, run_next calls, fun entry hentry => ?_,
    fun _ _ => contains_iff⟩
  · rw [run_entries, List.rtake, List.length_drop, List.length_drop]
    omega
  · rw [recorded, List.getElem?_mapIdx] at hentry
    obtain ⟨note, -, rfl⟩ := Option.map_eq_some_iff.mp hentry
    rfl
  · rw [run_entries] at hentry
    exact recorded_fit (List.mem_of_mem_drop (List.mem_of_mem_drop hentry))

example : (run (List.replicate 33 (.record .info "boot" ["old"]) ++
    [.clear, .record .debug "boot" ["hidden"], .record .warn "boot" ["new"]])).entries =
      [⟨.warn, 33, "boot", "new"⟩] := by decide +kernel

end FirmwareUpdate.Log
