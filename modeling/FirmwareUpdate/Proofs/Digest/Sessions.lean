import FirmwareUpdate.Proofs.Action
import FirmwareUpdate.Proofs.Digest.Hasher
import Mathlib.Data.List.DropRight

/-! Digests under any sequence of calls to one hasher. A digest is one of the data that have come in since the hasher
last started afresh, in whatever pieces they came. -/
namespace FirmwareUpdate.Hasher

/-- A call to a hasher: to start afresh, to take data in, or to write the digest to a buffer. -/
inductive Call where
  | reset
  | absorb (data : Bytes)
  | finish (out : Bytes)

namespace Call
variable {a : Algorithm} {call : Call}

/-- The data that a call hands over. -/
def data : Call → Bytes
  | absorb data => data
  | _ => []

/-- The buffer that a call is handed for the digest. -/
def buffer : Call → Bytes
  | finish out => out
  | _ => []

/-- A digest is only taken if there is room for it, and then the hasher starts afresh. -/
def startsAfresh (a : Algorithm) : Call → Bool
  | reset => true
  | absorb _ => false
  | finish out => a.digestLength ≤ out.length

/-- The answer is the number of bytes that are written. -/
def act : Call → Action Hasher CipherError (Nat × Bytes)
  | reset => do
    Hasher.reset
    return (0, [])
  | absorb data => do
    Hasher.absorb data
    return (0, [])
  | finish out => finishInto out

/-- What is answered to a call after these data. -/
def expected (a : Algorithm) (data : Bytes) : Call → Action.Answer CipherError Nat
  | finish out =>
    if a.digestLength ≤ out.length then ⟨.ok a.digestLength, a.digest data ++ out.drop a.digestLength⟩
    else ⟨.error .bufferTooSmall, out⟩
  | _ => ⟨.ok 0, []⟩

end Call

def answer (call : Call) : Action Hasher Empty (Action.Answer CipherError Nat) := Action.answer call.buffer call.act

/-- The data that have been handed over since the last call that started afresh. -/
def absorbed (a : Algorithm) (calls : List Call) : Bytes :=
  (calls.rtakeWhile fun call => !call.startsAfresh a).flatMap Call.data

private theorem absorbed_concat (a : Algorithm) (calls : List Call) (call : Call) :
    absorbed a (calls ++ [call]) = if call.startsAfresh a then [] else absorbed a calls ++ call.data := by
  rw [absorbed, List.rtakeWhile_concat]
  cases call.startsAfresh a with
  | true => rfl
  | false =>
    simp only [Bool.not_false, if_true, Bool.false_eq_true, if_false]
    rw [List.flatMap_append, List.flatMap_singleton]
    rfl

/-- A hasher that has absorbed the data. Before any data come in it may be as it was made. -/
inductive Holds (a : Algorithm) : Hasher → Bytes → Prop where
  | made : Holds a (start a) []
  | fed (data : Bytes) : Holds a ((start a).update data) data

namespace Holds
variable {a : Algorithm} {h : Hasher} {data : Bytes}

private theorem algorithm_eq (hh : Holds a h data) : h.algorithm = a := by
  cases hh <;> cases a <;> rfl

private theorem update (hh : Holds a h data) (more : Bytes) : Holds a (h.update more) (data ++ more) := by
  cases hh with
  | made => exact .fed more
  | fed =>
    rw [← update_append]
    exact .fed _

private theorem restart (hh : Holds a h data) : Holds a h.restart [] := by
  have hempty : h.restart = (start a).update [] := by
    rw [← hh.algorithm_eq]
    cases h <;> rfl
  rw [hempty]
  exact .fed []

private theorem value_eq (hh : Holds a h data) : h.value = a.digest data := by
  cases hh with
  | made =>
    have hempty : (start a).value = ((start a).update []).value := by cases a <;> rfl
    rw [hempty]
    exact value_update_start a []
  | fed => exact value_update_start a data

/-- A digest is written to the front of a buffer that has room for it. -/
theorem finishInto_of_room {out : Bytes} (hh : Holds a h data) (hroom : a.digestLength ≤ out.length) :
    finishInto out h = .ok (a.digestLength, a.digest data ++ out.drop a.digestLength) (start a) := by
  simp only [finishInto, Action.bind_apply, Action.get_apply]
  rw [hh.algorithm_eq, hh.value_eq, if_neg (Nat.not_lt.mpr hroom), Bytes.splice, List.take_zero, List.nil_append,
    Nat.zero_add, a.length_digest]
  rfl

private theorem finishInto_of_short {out : Bytes} (hh : Holds a h data) (hshort : ¬a.digestLength ≤ out.length) :
    finishInto out h = .error (.error .bufferTooSmall) h := by
  simp only [finishInto, Action.bind_apply, Action.get_apply]
  rw [hh.algorithm_eq, if_pos (Nat.not_le.mp hshort)]
  rfl

/-- A call is answered for the data that are held, and they stay unless the hasher starts afresh. -/
theorem answer_call (hh : Holds a h data) (call : Call) :
    ∃ h', answer call h = .ok (call.expected a data) h' ∧
      Holds a h' (if call.startsAfresh a then [] else data ++ call.data) := by
  cases call with
  | reset => exact ⟨_, Action.answer_of_ok rfl, hh.restart⟩
  | absorb more => exact ⟨_, Action.answer_of_ok rfl, hh.update more⟩
  | finish out =>
    simp only [Call.expected, Call.startsAfresh, decide_eq_true_eq]
    by_cases hroom : a.digestLength ≤ out.length
    · rw [if_pos hroom, if_pos hroom]
      exact ⟨_, Action.answer_of_ok (hh.finishInto_of_room hroom), .made⟩
    · rw [if_neg hroom, if_neg hroom, show (Call.finish out).data = [] from rfl, List.append_nil]
      exact ⟨_, Action.answer_of_error (hh.finishInto_of_short hroom), hh⟩

/-- Each call is answered for what the calls before it have left. -/
theorem answer_calls {before : List Call} (hh : Holds a h (absorbed a before)) (calls : List Call) :
    ∃ answers h', calls.mapM answer h = .ok answers h' ∧ Holds a h' (absorbed a (before ++ calls)) ∧
      answers.length = calls.length ∧ ∀ (i : Nat) call, calls[i]? = some call →
        answers[i]? = some (call.expected a (absorbed a (before ++ calls.take i))) := by
  induction calls generalizing before h with
  | nil =>
    refine ⟨[], h, rfl, ?_, rfl, fun i call hat => ?_⟩
    · rw [List.append_nil]
      exact hh
    · cases hat
  | cons call calls ih =>
    obtain ⟨h₁, hcall, hh₁⟩ := hh.answer_call call
    rw [← absorbed_concat] at hh₁
    obtain ⟨answers, h₂, hcalls, hh₂, hlength, hanswers⟩ := ih hh₁
    simp only [List.append_assoc, List.singleton_append] at hh₂ hanswers
    refine ⟨_, h₂, Action.mapM_cons_of_ok hcall hcalls, hh₂, congrArg (· + 1) hlength, fun i call' hat => ?_⟩
    cases i with
    | zero =>
      obtain rfl : call = call' := Option.some.inj hat
      rw [List.take_zero, List.append_nil]
      rfl
    | succ i => exact hanswers i call' hat

end Holds

/-- Whatever is called, a buffer with room for a digest gets the one of the data since the hasher last started afresh,
in front of what it held. A shorter buffer is refused and is left as it was, and so are the data. -/
theorem session_digests (a : Algorithm) (calls : List Call) :
    ∃ answers h, calls.mapM answer (start a) = .ok answers h ∧ answers.length = calls.length ∧
      ∀ (i : Nat) out, calls[i]? = some (.finish out) → answers[i]? = some
        (if a.digestLength ≤ out.length then
          ⟨.ok a.digestLength, a.digest (absorbed a (calls.take i)) ++ out.drop a.digestLength⟩
        else ⟨.error .bufferTooSmall, out⟩) := by
  have hmade : Holds a (start a) (absorbed a []) := .made
  obtain ⟨answers, h, hcalls, -, hlength, hanswers⟩ := hmade.answer_calls calls
  exact ⟨answers, h, hcalls, hlength, fun i out hat => hanswers i _ hat⟩

-- The published digest of the three letters abc.
example : Algorithm.sha3.digest [0x61, 0x62, 0x63] =
    [0x3A, 0x98, 0x5D, 0xA7, 0x4F, 0xE2, 0x25, 0xB2, 0x04, 0x5C, 0x17, 0x2D, 0x6B, 0xD3, 0x90, 0xBD,
     0x85, 0x5F, 0x08, 0x6E, 0x3E, 0x9D, 0x52, 0x5B, 0x46, 0xBF, 0xE2, 0x45, 0x11, 0x43, 0x15, 0x32] := by
  decide +kernel

/-- A digest for which there is no room at first, and the one of no data after it. -/
def sampleCalls : List Call :=
  [.absorb [0x31, 0x32, 0x33, 0x34], .finish [0xEE, 0xEE, 0xEE], .absorb [], .absorb [0x35, 0x36, 0x37, 0x38, 0x39],
   .finish [0xEE, 0xEE, 0xEE, 0xEE, 0xEE], .finish [0xEE, 0xEE, 0xEE, 0xEE]]

/-- Five bytes more are taken in after a refusal, and the digest is that of all nine; the next one is that of none. -/
theorem sample_session_digests : ∃ answers h, sampleCalls.mapM answer (start .crc32) = .ok answers h ∧
    answers[1]? = some ⟨.error .bufferTooSmall, [0xEE, 0xEE, 0xEE]⟩ ∧
    answers[4]? = some ⟨.ok 4, [0x26, 0x39, 0xF4, 0xCB, 0xEE]⟩ ∧ answers[5]? = some ⟨.ok 4, [0, 0, 0, 0]⟩ := by
  have hwhole : Algorithm.crc32.digest (absorbed .crc32 (sampleCalls.take 4)) = [0x26, 0x39, 0xF4, 0xCB] := by
    decide +kernel
  have hempty : Algorithm.crc32.digest (absorbed .crc32 (sampleCalls.take 5)) = [0, 0, 0, 0] := by
    decide +kernel
  obtain ⟨answers, h, hcalls, -, hanswers⟩ := session_digests .crc32 sampleCalls
  have hfirst := hanswers 4 _ rfl
  have hsecond := hanswers 5 _ rfl
  rw [hwhole] at hfirst
  rw [hempty] at hsecond
  exact ⟨answers, h, hcalls, hanswers 1 _ rfl, hfirst, hsecond⟩

end FirmwareUpdate.Hasher
