import FirmwareUpdate.Proofs.Cipher.Cbc

/-! Streams under any sequence of calls. Data may be handed over in whole blocks at any time, and a call that is
refused goes by without a trace: what is encrypted in one sequence of calls is brought back by any other. -/
namespace FirmwareUpdate.Cbc

open Aes
variable {σ : Type}

/-- A call to the machine at one end of a stream: a key and a vector to start from, or data to be turned into their
other form in place. -/
inductive Call where
  | load (key iv : Bytes)
  | turn (data : Bytes)

namespace Call

/-- The buffer that a call is handed. -/
def buffer : Call → Bytes
  | load _ _ => []
  | turn data => data

/-- Why a call is refused, if it is. Only a machine that is loaded turns data. -/
def refusal? (loaded : Bool) : Call → Option CipherError
  | load key iv =>
    if key.length ∉ [16, 24, 32] then some .invalidKey
    else if iv.length ≠ 16 then some .invalidIv
    else none
  | turn data =>
    if data.length % 16 ≠ 0 then some .invalidLength
    else if loaded then none
    else some .notInitialized

/-- At the end that encrypts there is a stream from the beginning, and another one may take its place. -/
def encrypting : Call → Action Stream CipherError (Unit × Bytes)
  | load key iv => do
    set (← Action.ofExcept (Stream.start key iv))
    return ((), [])
  | turn data => return ((), ← Stream.encrypt data)

def decrypting : Call → Action Cipher CipherError (Unit × Bytes)
  | load key iv => do
    Cipher.load key iv
    return ((), [])
  | turn data => return ((), ← Cipher.decrypt data)

end Call

/-- What is answered to a call. -/
def answer (act : Call → Action σ CipherError (Unit × Bytes)) (call : Call) :
    Action σ Empty (Action.Answer CipherError Unit) :=
  Action.answer call.buffer (act call)

/-- A call is refused for its reason, and then the machine and the buffer are as they were, or it goes through. -/
def Refuses (act : Call → Action σ CipherError (Unit × Bytes)) (loaded : σ → Bool) : Prop :=
  ∀ call s, match Call.refusal? (loaded s) call with
    | some cause => answer act call s = .ok ⟨.error cause, call.buffer⟩ s
    | none => ∃ out t, answer act call s = .ok ⟨.ok (), out⟩ t

private theorem start_of_load (loaded : Bool) (key iv : Bytes) : match (Call.load key iv).refusal? loaded with
    | some cause => Stream.start key iv = .error cause
    | none => ∃ t, Stream.start key iv = .ok t := by
  have hvector : ivLength = 16 := rfl
  simp only [Call.refusal?, Stream.start, hvector]
  by_cases hkey : key.length ∈ [16, 24, 32]
  · by_cases hiv : iv.length = 16
    · simp [hkey, hiv]
    · simp [hkey, hiv]
  · simp [hkey]

/-! ### Both ends -/

/-- A machine at one end of a stream. Its states are those of the stream, and those in which it is not loaded. -/
structure Machine (act : Call → Action σ CipherError (Unit × Bytes)) (loaded : σ → Bool) (view : Stream → σ)
    (step : Stream → Block → Block × Stream) : Prop where
  load_ok : ∀ {key iv t} s, Stream.start key iv = .ok t → act (.load key iv) s = .ok ((), []) (view t)
  load_error : ∀ {key iv cause} s, Stream.start key iv = .error cause →
    act (.load key iv) s = .error (.error cause) s
  whole : ∀ {data} s, data.length % 16 = 0 →
    act (.turn data) (view s) = .ok ((), (Stream.through step s data).1) (view (Stream.through step s data).2)
  odd : ∀ {data} s, data.length % 16 ≠ 0 → act (.turn data) s = .error (.error .invalidLength) s
  unloaded : ∀ {data s}, loaded s = false → data.length % 16 = 0 →
    act (.turn data) s = .error (.error .notInitialized) s
  loaded_iff : ∀ s, loaded s = true ↔ ∃ t, s = view t

private theorem machine_encrypting : Machine Call.encrypting (fun _ => true) id Stream.encryptBlock where
  load_ok s ht := by
    simp only [Call.encrypting]
    rw [ht]
    rfl
  load_error s hcause := by
    simp only [Call.encrypting]
    rw [hcause]
    rfl
  whole _ hwhole := Action.bind_of_ok (Stream.process_of_whole hwhole)
  odd _ hodd := Action.bind_of_error (Stream.process_of_odd hodd)
  unloaded := Bool.noConfusion
  loaded_iff s := ⟨fun _ => ⟨s, rfl⟩, fun _ => rfl⟩

private theorem machine_decrypting : Machine Call.decrypting Cipher.isLoaded some Stream.decryptBlock where
  load_ok _ ht := Action.bind_of_ok (Cipher.load_of_start ht)
  load_error _ hcause := Action.bind_of_error (Cipher.load_of_refusal hcause)
  whole _ hwhole := Action.bind_of_ok (Cipher.decrypt_of_whole hwhole)
  odd _ hodd := Action.bind_of_error (Cipher.decrypt_of_odd hodd)
  unloaded {_ c} hnone hwhole := by
    obtain rfl : c = none := Option.not_isSome_iff_eq_none.mp (Bool.eq_false_iff.mp hnone)
    exact Action.bind_of_error (Cipher.decrypt_of_unloaded hwhole)
  loaded_iff _ := Option.isSome_iff_exists

namespace Machine
variable {act : Call → Action σ CipherError (Unit × Bytes)} {loaded : σ → Bool} {view : Stream → σ}
  {step : Stream → Block → Block × Stream} {call : Call} {calls : List Call} {data : Bytes}

private theorem refused (h : Machine act loaded view step) {s : σ} {cause : CipherError}
    (hcause : call.refusal? (loaded s) = some cause) : act call s = .error (.error cause) s := by
  cases call with
  | load key iv =>
    have hstart := start_of_load (loaded s) key iv
    rw [hcause] at hstart
    exact h.load_error s hstart
  | turn data =>
    by_cases hwhole : data.length % 16 = 0
    · cases hloaded : loaded s with
      | true => simp [Call.refusal?, hwhole, hloaded] at hcause
      | false =>
        obtain rfl : .notInitialized = cause := by simpa [Call.refusal?, hwhole, hloaded] using hcause
        exact h.unloaded hloaded hwhole
    · obtain rfl : .invalidLength = cause := by simpa [Call.refusal?, hwhole] using hcause
      exact h.odd s hwhole

private theorem granted (h : Machine act loaded view step) {s : σ} (hnone : call.refusal? (loaded s) = none) :
    ∃ out t, act call s = .ok ((), out) t := by
  cases call with
  | load key iv =>
    have hstart := start_of_load (loaded s) key iv
    rw [hnone] at hstart
    obtain ⟨t, ht⟩ := hstart
    exact ⟨_, _, h.load_ok s ht⟩
  | turn data =>
    have hwhole : data.length % 16 = 0 := Decidable.not_not.mp fun hodd => by
      simp [Call.refusal?, hodd] at hnone
    have hloaded : loaded s = true := by simpa [Call.refusal?, hwhole] using hnone
    obtain ⟨t, rfl⟩ := (h.loaded_iff s).mp hloaded
    exact ⟨_, _, h.whole t hwhole⟩

private theorem refuses (h : Machine act loaded view step) : Refuses act loaded := by
  intro call s
  cases hrefusal : call.refusal? (loaded s) with
  | some cause => exact Action.answer_of_error (h.refused hrefusal)
  | none =>
    obtain ⟨out, t, hact⟩ := h.granted hrefusal
    exact ⟨out, t, Action.answer_of_ok hact⟩

end Machine

/-! ### Sequences of calls -/

/-- The calls hand over the data, in whole blocks at a time. Whatever else is called is refused. -/
inductive Hands : List Call → Bytes → Prop where
  | done : Hands [] []
  | piece {data rest calls} (whole : data.length % 16 = 0) (hands : Hands calls rest) :
      Hands (.turn data :: calls) (data ++ rest)
  | refused {call data calls cause} (refusal : call.refusal? true = some cause) (hands : Hands calls data) :
      Hands (call :: calls) data

/-- What the pieces are answered with makes up this output. Whatever is refused is answered with the reason, and its
buffer is as it was. -/
inductive Answered : List Call → List (Action.Answer CipherError Unit) → Bytes → Prop where
  | done : Answered [] [] []
  | piece {data out rest calls answers} (whole : data.length % 16 = 0) (length : out.length = data.length)
      (answered : Answered calls answers rest) :
      Answered (.turn data :: calls) (⟨.ok (), out⟩ :: answers) (out ++ rest)
  | refused {call cause out calls answers} (refusal : call.refusal? true = some cause)
      (answered : Answered calls answers out) : Answered (call :: calls) (⟨.error cause, call.buffer⟩ :: answers) out

namespace Machine
variable {act : Call → Action σ CipherError (Unit × Bytes)} {loaded : σ → Bool} {view : Stream → σ}
  {step : Stream → Block → Block × Stream} {call : Call} {calls : List Call} {data : Bytes}

/-- Data that are handed over in any pieces are turned as they would be at once, and leave the stream as they would
then, whatever is refused in between. -/
theorem session_of_hands (h : Machine act loaded view step) (hands : Hands calls data) (s : Stream) :
    ∃ answers, calls.mapM (answer act) (view s) = .ok answers (view (Stream.through step s data).2) ∧
      Answered calls answers (Stream.through step s data).1 := by
  induction hands generalizing s with
  | done => exact ⟨[], rfl, .done⟩
  | piece whole _ ih =>
    obtain ⟨answers, hrest, hanswered⟩ := ih (Stream.through step s _).2
    rw [Stream.through_append whole]
    exact ⟨_, Action.mapM_cons_of_ok (Action.answer_of_ok (h.whole s whole)) hrest,
      .piece whole (Stream.length_through whole) hanswered⟩
  | refused refusal _ ih =>
    obtain ⟨answers, hrest, hanswered⟩ := ih s
    have hloaded : loaded (view s) = true := (h.loaded_iff _).mpr ⟨s, rfl⟩
    have hrefused := h.refused (s := view s) (by rw [hloaded]; exact refusal)
    exact ⟨_, Action.mapM_cons_of_ok (Action.answer_of_error hrefused) hrest, .refused refusal hanswered⟩

/-- Every call is answered. -/
theorem answers (h : Machine act loaded view step) (call : Call) (s : σ) : ∃ a t, answer act call s = .ok a t := by
  have hanswer := h.refuses call s
  split at hanswer
  · exact ⟨_, _, hanswer⟩
  · obtain ⟨out, t, hgranted⟩ := hanswer
    exact ⟨_, _, hgranted⟩

end Machine

/-- Whole blocks that are encrypted in any pieces come out the same, and decrypting them in any other pieces, after
whatever went before, gives them back. A call that is refused leaves its buffer and the machine as they were, and
changes nothing for those that follow it. -/
theorem session_round_trip {key iv plain : Bytes} (hkey : key.length ∈ [16, 24, 32]) (hiv : iv.length = 16)
    (hplain : plain.length % 16 = 0) :
    ∃ s t coded, Stream.start key iv = .ok s ∧ s.encryptWhole plain = .ok coded ∧ coded.length = plain.length ∧
      (∀ calls, Hands calls plain → ∃ answers,
        calls.mapM (answer Call.encrypting) s = .ok answers t ∧ Answered calls answers coded) ∧
      (∀ c before calls, Hands calls coded → ∃ earlier answers, earlier.length = before.length ∧
        (before ++ .load key iv :: calls).mapM (answer Call.decrypting) c =
          .ok (earlier ++ ⟨.ok (), []⟩ :: answers) (some t) ∧ Answered calls answers plain) ∧
      Refuses Call.encrypting (fun _ => true) ∧ Refuses Call.decrypting Cipher.isLoaded := by
  have hgranted : (Call.load key iv).refusal? true = none := by simp [Call.refusal?, hkey, hiv]
  have hload := start_of_load true key iv
  rw [hgranted] at hload
  obtain ⟨s, hstart⟩ := hload
  have hback := Stream.through_decrypt_encrypt (s := s) hplain
  refine ⟨s, (Stream.through Stream.encryptBlock s plain).2, (Stream.through Stream.encryptBlock s plain).1, hstart,
    if_pos hplain, Stream.length_through hplain, fun calls hands => ?_, fun c before calls hands => ?_,
    machine_encrypting.refuses, machine_decrypting.refuses⟩
  · exact machine_encrypting.session_of_hands hands s
  · obtain ⟨earlier, c', hbefore, hlength⟩ := Action.mapM_ok machine_decrypting.answers before c
    have hloaded : answer Call.decrypting (.load key iv) c' = .ok ⟨.ok (), []⟩ (some s) :=
      Action.answer_of_ok (machine_decrypting.load_ok c' hstart)
    obtain ⟨answers, hcalls, hanswered⟩ := machine_decrypting.session_of_hands hands s
    rw [hback] at hcalls hanswered
    exact ⟨earlier, answers, hlength, Action.mapM_append_of_ok hbefore (Action.mapM_cons_of_ok hloaded hcalls),
      hanswered⟩

namespace Sample

def key : Bytes :=
  [0x2B, 0x7E, 0x15, 0x16, 0x28, 0xAE, 0xD2, 0xA6, 0xAB, 0xF7, 0x15, 0x88, 0x09, 0xCF, 0x4F, 0x3C]

def iv : Bytes :=
  [0x00, 0x01, 0x02, 0x03, 0x04, 0x05, 0x06, 0x07, 0x08, 0x09, 0x0A, 0x0B, 0x0C, 0x0D, 0x0E, 0x0F]

def plain : Bytes :=
  [0x6B, 0xC1, 0xBE, 0xE2, 0x2E, 0x40, 0x9F, 0x96, 0xE9, 0x3D, 0x7E, 0x11, 0x73, 0x93, 0x17, 0x2A,
   0xAE, 0x2D, 0x8A, 0x57, 0x1E, 0x03, 0xAC, 0x9C, 0x9E, 0xB7, 0x6F, 0xAC, 0x45, 0xAF, 0x8E, 0x51]

def coded : Bytes :=
  [0x76, 0x49, 0xAB, 0xAC, 0x81, 0x19, 0xB2, 0x46, 0xCE, 0xE9, 0x8E, 0x9B, 0x12, 0xE9, 0x19, 0x7D,
   0x50, 0x86, 0xCB, 0x9B, 0x50, 0x72, 0x19, 0xEE, 0x95, 0xDB, 0x11, 0x3A, 0x91, 0x76, 0x78, 0xB2]

/-- One block and then the other, with odd data and an empty key in between. -/
def encryptingCalls : List Call := [.turn (plain.take 16), .turn [1, 2, 3], .load [] iv, .turn (plain.drop 16)]

/-- Nothing that a cipher without a key grants. -/
def earlyCalls : List Call := [.turn coded, .load key [0]]

/-- Both blocks at once, after a single byte. -/
def decryptingCalls : List Call := [.turn [4], .turn coded]

private theorem hands_encryptingCalls : Hands encryptingCalls plain :=
  .piece rfl (.refused rfl (.refused rfl (.piece rfl .done)))

private theorem hands_decryptingCalls : Hands decryptingCalls coded :=
  .refused rfl (.piece rfl .done)

end Sample

/-- What is encrypted block by block is decrypted at once, by a cipher that was first asked for it without a key. -/
theorem sample_session : ∃ s t encrypted earlier decrypted,
    Sample.encryptingCalls.mapM (answer Call.encrypting) s = .ok encrypted t ∧
      Answered Sample.encryptingCalls encrypted Sample.coded ∧
      (Sample.earlyCalls ++ .load Sample.key Sample.iv :: Sample.decryptingCalls).mapM (answer Call.decrypting) none =
        .ok (earlier ++ ⟨.ok (), []⟩ :: decrypted) (some t) ∧
      Answered Sample.decryptingCalls decrypted Sample.plain := by
  have hvector : ((Stream.start Sample.key Sample.iv).bind (·.encryptWhole Sample.plain)).toOption =
      some Sample.coded := by
    decide +kernel
  have hkey : Sample.key.length ∈ [16, 24, 32] := by decide
  have hiv : Sample.iv.length = 16 := rfl
  have hplain : Sample.plain.length % 16 = 0 := rfl
  obtain ⟨s, t, coded, hstart, hcoded, -, hencrypting, hdecrypting, -⟩ := session_round_trip hkey hiv hplain
  rw [hstart] at hvector
  obtain rfl : coded = Sample.coded := by
    rw [show (Except.ok s).bind (·.encryptWhole Sample.plain) = _ from hcoded] at hvector
    exact Option.some.inj hvector
  obtain ⟨encrypted, hencrypted, hanswered⟩ := hencrypting _ Sample.hands_encryptingCalls
  obtain ⟨earlier, decrypted, -, hdecrypted, hanswered'⟩ :=
    hdecrypting none Sample.earlyCalls _ Sample.hands_decryptingCalls
  exact ⟨s, t, encrypted, earlier, decrypted, hencrypted, hanswered, hdecrypted, hanswered'⟩

end FirmwareUpdate.Cbc
