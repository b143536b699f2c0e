import FirmwareUpdate.Action
import FirmwareUpdate.Bytes

/-! Every way a step can end, in one statement: with a result, with an error, or trapped. Composed
steps are reasoned about one at a time, each from the state the one before it left. -/
namespace FirmwareUpdate.Action
variable {σ τ ε ε' α β : Type}

/-- Each way the step can end from `s` meets its condition. -/
def Ends (act : Action σ ε α) (s : σ) (done : α → σ → Prop) (failed : ε → σ → Prop)
    (trapped : Prop) : Prop :=
  match act s with
  | .ok a t => done a t
  | .error (.error cause) t => failed cause t
  | .error .trap _ => trapped

variable {act : Action σ ε α} {s t : σ} {done : α → σ → Prop} {failed : ε → σ → Prop}
  {trapped : Prop}

@[simp] theorem fail_apply (cause : ε) (s : σ) :
    (fail cause : Action σ ε α) s = .error (.error cause) s := rfl

/-- What comes after a step that is done goes on with its result and from its state. -/
theorem bind_of_ok {next : α → Action σ ε β} {a : α} (h : act s = .ok a t) : (act >>= next) s = next a t := by
  rw [bind_apply, h]

/-- What comes after a step that did not get through is not done. -/
theorem bind_of_error {next : α → Action σ ε β} {stop : Stop ε} (h : act s = .error stop t) :
    (act >>= next) s = .error stop t := by
  rw [bind_apply, h]

@[simp] theorem ends_pure (a : α) : (pure a : Action σ ε α).Ends s done failed trapped ↔ done a s :=
  Iff.rfl

@[simp] theorem ends_fail (cause : ε) :
    (fail cause : Action σ ε α).Ends s done failed trapped ↔ failed cause s := Iff.rfl

@[simp] theorem ends_modify (f : σ → σ) (done : PUnit → σ → Prop) :
    (modify f : Action σ ε PUnit).Ends s done failed trapped ↔ done ⟨⟩ (f s) := Iff.rfl

@[simp] theorem ends_set (done : PUnit → σ → Prop) :
    (set t : Action σ ε PUnit).Ends s done failed trapped ↔ done ⟨⟩ t := Iff.rfl

@[simp] theorem ends_get (done : σ → σ → Prop) :
    (get : Action σ ε σ).Ends s done failed trapped ↔ done s s := Iff.rfl

/-- A composed step ends as its second part does, if there is one to run. -/
theorem ends_bind (act : Action σ ε α) (next : α → Action σ ε β) (done : β → σ → Prop) :
    (act >>= next).Ends s done failed trapped ↔
      act.Ends s (fun a t => (next a).Ends t done failed trapped) failed trapped := by
  simp only [Ends]
  rw [bind_apply]
  cases act s with
  | ok a t => rfl
  | error stop t => cases stop <;> rfl

@[simp] theorem ends_pure_bind (a : α) (next : α → Action σ ε β) (done : β → σ → Prop) :
    (pure a >>= next).Ends s done failed trapped ↔ (next a).Ends s done failed trapped := by
  rw [ends_bind, ends_pure]

@[simp] theorem ends_get_bind (next : σ → Action σ ε β) (done : β → σ → Prop) :
    (get >>= next).Ends s done failed trapped ↔ (next s).Ends s done failed trapped := by
  rw [ends_bind, ends_get]

@[simp] theorem ends_set_bind (next : PUnit → Action σ ε β) (done : β → σ → Prop) :
    (set t >>= next).Ends s done failed trapped ↔ (next ⟨⟩).Ends t done failed trapped := by
  rw [ends_bind, ends_set]

@[simp] theorem ends_modify_bind (f : σ → σ) (next : PUnit → Action σ ε β) (done : β → σ → Prop) :
    (modify f >>= next).Ends s done failed trapped ↔ (next ⟨⟩).Ends (f s) done failed trapped := by
  rw [ends_bind, ends_modify]

/-- A step ends in whatever allows for everything. -/
theorem ends_of_all (hd : ∀ a t, done a t) (hf : ∀ cause t, failed cause t) (ht : trapped) :
    act.Ends s done failed trapped := by
  simp only [Ends]
  split
  · exact hd _ _
  · exact hf _ _
  · exact ht

/-- How a step ends may be said less exactly. -/
theorem Ends.imp {done' : α → σ → Prop} {failed' : ε → σ → Prop} {trapped' : Prop}
    (h : act.Ends s done failed trapped) (hd : ∀ a t, done a t → done' a t)
    (hf : ∀ e t, failed e t → failed' e t) (ht : trapped → trapped') :
    act.Ends s done' failed' trapped' := by
  simp only [Ends] at h ⊢
  split <;> simp_all

/-- The rule for two steps in turn. -/
theorem Ends.bind {next : α → Action σ ε β} {done' : β → σ → Prop} {failed' : ε → σ → Prop}
    {trapped' : Prop} (h : act.Ends s done failed trapped)
    (hd : ∀ a t, done a t → (next a).Ends t done' failed' trapped')
    (hf : ∀ e t, failed e t → failed' e t) (ht : trapped → trapped') :
    (act >>= next).Ends s done' failed' trapped' :=
  (ends_bind act next done').mpr (h.imp hd hf ht)

/-- What is said of the done case holds of a step that is known to be done. -/
theorem Ends.done_of_ok (h : act.Ends s done failed trapped) {a : α} (he : act s = .ok a t) :
    done a t := by
  unfold Ends at h
  rwa [he] at h

/-- What is said of the failing case holds of a step that is known to have failed. -/
theorem Ends.failed_of_error (h : act.Ends s done failed trapped) {cause : ε}
    (he : act s = .error (.error cause) t) : failed cause t := by
  unfold Ends at h
  rwa [he] at h

/-- A step that is known to trap is one that may. -/
theorem Ends.trapped_of_trap (h : act.Ends s done failed trapped) (he : act s = .error .trap t) : trapped := by
  unfold Ends at h
  rwa [he] at h

/-- A step that is known to be done ends as it should exactly if its result does. -/
theorem ends_of_ok {a : α} (h : act s = .ok a t) : act.Ends s done failed trapped ↔ done a t := by
  unfold Ends
  rw [h]

/-- A step that is known to have failed ends as it should exactly if its error does. -/
theorem ends_of_error {cause : ε} (h : act s = .error (.error cause) t) :
    act.Ends s done failed trapped ↔ failed cause t := by
  unfold Ends
  rw [h]

/-- A step ends in what it comes to. -/
theorem ends_self (act : Action σ ε α) (s : σ) :
    act.Ends s (fun a t => act s = .ok a t) (fun cause t => act s = .error (.error cause) t)
      (∃ t, act s = .error .trap t) := by
  simp only [Ends]
  split
  · assumption
  · assumption
  · exact ⟨_, by assumption⟩

/-- A step that neither fails nor traps succeeds. -/
theorem Ends.exists_ok (h : act.Ends s done (fun _ _ => False) False) : ∃ a t, act s = .ok a t ∧ done a t := by
  simp only [Ends] at h
  split at h
  · exact ⟨_, _, by assumption, h⟩
  · exact h.elim
  · exact h.elim

/-- A step that neither succeeds nor traps fails. -/
theorem Ends.exists_error (h : act.Ends s (fun _ _ => False) failed False) :
    ∃ cause t, act s = .error (.error cause) t ∧ failed cause t := by
  simp only [Ends] at h
  split at h
  · exact h.elim
  · exact ⟨_, _, by assumption, h⟩
  · exact h.elim

/-- The error of an attempt is a value. -/
theorem Ends.attempt {done' : Except ε α → σ → Prop} {failed' : ε' → σ → Prop} {trapped' : Prop}
    (h : act.Ends s done failed trapped) (hd : ∀ a t, done a t → done' (.ok a) t)
    (hf : ∀ e t, failed e t → done' (.error e) t) (ht : trapped → trapped') :
    (attempt act : Action σ ε' (Except ε α)).Ends s done' failed' trapped' := by
  simp only [Ends] at h ⊢
  simp only [Action.attempt]
  cases hact : act s with
  | ok a t => simp only [hact] at h ⊢; exact hd a t h
  | error stop t =>
    cases stop with
    | error cause => simp only [hact] at h ⊢; exact hf cause t h
    | trap => simp only [hact] at h ⊢; exact ht h

/-- A step that is only attempted never fails, and a trap is no failure. -/
theorem attempt_bind_apply (act : Action σ ε α) (next : Except ε α → Action σ ε' β) (s : σ) :
    (Action.attempt act >>= next) s = match act s with
      | .ok a t => next (.ok a) t
      | .error (.error cause) t => next (.error cause) t
      | .error .trap t => .error .trap t := by
  rw [bind_apply]
  simp only [Action.attempt]
  cases act s with
  | ok a t => rfl
  | error stop t => cases stop <;> rfl

/-- The rule for an attempt and what is done about its result. -/
theorem Ends.attempt_bind {next : Except ε α → Action σ ε' β} {done' : β → σ → Prop} {failed' : ε' → σ → Prop}
    {trapped' : Prop} (h : act.Ends s done failed trapped)
    (hd : ∀ a t, done a t → (next (.ok a)).Ends t done' failed' trapped')
    (hf : ∀ e t, failed e t → (next (.error e)).Ends t done' failed' trapped')
    (ht : trapped → trapped') : (Action.attempt act >>= next).Ends s done' failed' trapped' := by
  rw [ends_bind]
  exact h.attempt hd hf ht

/-- Of a step with its errors renamed, only what is said of the errors changes. -/
theorem ends_mapError (f : ε → ε') (act : Action σ ε α) (failed : ε' → σ → Prop) :
    (mapError f act).Ends s done failed trapped ↔
      act.Ends s done (fun e t => failed (f e) t) trapped := by
  simp only [Ends, mapError]
  cases act s with
  | ok a t => rfl
  | error stop t => cases stop <;> rfl

/-- A step on a part ends as that part does, put back in its place. -/
theorem ends_focus {part : σ → τ} {put : σ → τ → σ} (act : Action τ ε α) :
    (focus part put act).Ends s done failed trapped ↔
      act.Ends (part s) (fun a t => done a (put s t)) (fun e t => failed e (put s t)) trapped := by
  simp only [Ends, focus]
  cases act (part s) with
  | ok a t => rfl
  | error stop t => cases stop <;> rfl

/-- A result that is there already changes no state. -/
theorem ends_ofExcept (r : Except ε α) :
    (ofExcept r : Action σ ε α).Ends s done failed trapped ↔
      match r with
      | .ok a => done a s
      | .error e => failed e s := by
  cases r <;> rfl

/-- A number that leaves the word traps. -/
theorem word_bind {value : Nat} {next : Nat → Action σ ε α} (ht : UInt32.size ≤ value → trapped)
    (h : (next value).Ends s done failed trapped) : (word value >>= next).Ends s done failed trapped := by
  simp only [word]
  split
  · exact (ends_pure_bind value next done).mpr h
  · exact ht (by omega)

/-- Two facts about the same step hold together. -/
theorem Ends.and {done' : α → σ → Prop} {failed' : ε → σ → Prop} {trapped' : Prop}
    (h : act.Ends s done failed trapped) (h' : act.Ends s done' failed' trapped') :
    act.Ends s (fun a t => done a t ∧ done' a t) (fun e t => failed e t ∧ failed' e t)
      (trapped ∧ trapped') := by
  simp only [Ends] at h h' ⊢
  split <;> simp_all

/-! ### Steps that work on a buffer -/

/-- What the caller of a step is told, and what the caller's buffer holds afterwards. -/
structure Answer (ε α : Type) where
  result : Except ε α
  buffer : Bytes

/-- The buffer gives way to what the step makes of it. Nothing is written to it if the step fails. -/
def answer (buffer : Bytes) (act : Action σ ε (α × Bytes)) : Action σ Empty (Answer ε α) := do
  match ← attempt act with
  | .ok (a, out) => return ⟨.ok a, out⟩
  | .error cause => return ⟨.error cause, buffer⟩

/-- A call that is done answers with its result and hands its buffer over. -/
theorem answer_of_ok {act : Action σ ε (α × Bytes)} {buffer out : Bytes} {a : α} (h : act s = .ok (a, out) t) :
    answer buffer act s = .ok ⟨.ok a, out⟩ t := by
  rw [answer, attempt_bind_apply, h]
  rfl

/-- A call that fails answers with its error and leaves the buffer as it was. -/
theorem answer_of_error {act : Action σ ε (α × Bytes)} {buffer : Bytes} {cause : ε}
    (h : act s = .error (.error cause) t) : answer buffer act s = .ok ⟨.error cause, buffer⟩ t := by
  rw [answer, attempt_bind_apply, h]
  rfl

/-! ### Steps for the members of a list -/

/-- The steps for a list are the one for its head, and then those for the rest. -/
theorem mapM_cons_of_ok {f : α → Action σ ε β} {x : α} {xs : List α} {b : β} {bs : List β} {u : σ}
    (hx : f x s = .ok b t) (hxs : xs.mapM f t = .ok bs u) : (x :: xs).mapM f s = .ok (b :: bs) u := by
  rw [List.mapM_cons, bind_of_ok hx, bind_of_ok hxs]
  rfl

/-- The steps for two lists in a row are those for the first, and then those for the second. -/
theorem mapM_append_of_ok {f : α → Action σ ε β} {xs ys : List α} {bs cs : List β} {u : σ}
    (hxs : xs.mapM f s = .ok bs t) (hys : ys.mapM f t = .ok cs u) : (xs ++ ys).mapM f s = .ok (bs ++ cs) u := by
  rw [List.mapM_append, bind_of_ok hxs, bind_of_ok hys]
  rfl

/-- Where each step succeeds, so do the steps for a list. -/
theorem mapM_ok {f : α → Action σ ε β} (h : ∀ x s, ∃ b t, f x s = .ok b t) (xs : List α) (s : σ) :
    ∃ bs t, xs.mapM f s = .ok bs t ∧ bs.length = xs.length := by
  induction xs generalizing s with
  | nil => exact ⟨[], s, rfl, rfl⟩
  | cons x xs ih =>
    obtain ⟨b, t, hx⟩ := h x s
    obtain ⟨bs, u, hxs, hlength⟩ := ih t
    exact ⟨b :: bs, u, mapM_cons_of_ok hx hxs, congrArg (· + 1) hlength⟩

/-! ### Steps that succeed -/

/-- If the step succeeds, its result meets the condition. -/
abbrev Yields (act : Action σ ε α) (s : σ) (done : α → σ → Prop) : Prop :=
  act.Ends s done (fun _ _ => True) True

/-- What holds if a step is done holds in particular where nothing is said of the other ways it may end. -/
theorem Ends.yields (h : act.Ends s done failed trapped) : act.Yields s done :=
  h.imp (fun _ _ h => h) (fun _ _ _ => trivial) fun _ => trivial

/-- What is said of a step that is done may be said less exactly. -/
theorem Yields.imp {done' : α → σ → Prop} (h : act.Yields s done) (hd : ∀ a t, done a t → done' a t) :
    act.Yields s done' := Ends.imp h hd (fun _ _ h => h) id

/-- Where only the done case counts, a step is followed by the next. -/
theorem Yields.bind {next : α → Action σ ε β} {done' : β → σ → Prop} (h : act.Yields s done)
    (hd : ∀ a t, done a t → (next a).Yields t done') : (act >>= next).Yields s done' :=
  Ends.bind h hd (fun _ _ h => h) id

/-- Two ways to go on are the same if they are after each end of the first step. -/
theorem bind_congr {next next' : α → Action σ ε β} (h : act.Yields s (fun a t => next a t = next' a t)) :
    (act >>= next) s = (act >>= next') s := by
  rw [bind_apply, bind_apply]
  cases hact : act s with
  | ok a t => exact h.done_of_ok hact
  | error stop t => rfl

/-- What is known of a step that succeeds adds to what is known of how it ends. -/
theorem Ends.and_yields {done' : α → σ → Prop} (h : act.Ends s done failed trapped)
    (h' : act.Yields s done') :
    act.Ends s (fun a t => done a t ∧ done' a t) failed trapped :=
  (h.and h').imp (fun _ _ h => h) (fun _ _ h => h.1) And.left

/-- The step succeeds, and its result passes a check. -/
def passes (act : Action σ ε α) (s : σ) (check : α → σ → Bool) : Bool :=
  match act s with
  | .ok a t => check a t
  | .error _ _ => false

/-- A check that passes was made on a step that was done. -/
theorem exists_of_passes {check : α → σ → Bool} (h : act.passes s check = true) :
    ∃ a t, act s = .ok a t ∧ check a t = true := by
  unfold passes at h
  split at h
  · exact ⟨_, _, ‹_›, h⟩
  · cases h

/-- The step fails, and its error and the state it leaves pass a check. -/
def failsWith (act : Action σ ε α) (s : σ) (check : ε → σ → Bool) : Bool :=
  match act s with
  | .error (.error cause) t => check cause t
  | _ => false

/-- A check of a failure that passes was made on a step that failed. -/
theorem exists_of_failsWith {check : ε → σ → Bool} (h : act.failsWith s check = true) :
    ∃ cause t, act s = .error (.error cause) t ∧ check cause t = true := by
  unfold failsWith at h
  split at h
  · exact ⟨_, _, ‹_›, h⟩
  · cases h

/-- The step traps. -/
def traps (act : Action σ ε α) (s : σ) : Bool :=
  match act s with
  | .error .trap _ => true
  | _ => false

/-- A check for a trap that passes was made on a step that traps. -/
theorem exists_of_traps (h : act.traps s = true) : ∃ t, act s = .error .trap t := by
  unfold traps at h
  split at h
  · exact ⟨_, ‹_›⟩
  · cases h

/-! ### Steps that keep a condition -/

/-- From a state in the condition the step ends in one, however it ends. -/
def Preserves (I : σ → Prop) (trapped : Prop) (act : Action σ ε α) : Prop :=
  ∀ s, I s → act.Ends s (fun _ t => I t) (fun _ t => I t) trapped

namespace Preserves
variable {I : σ → Prop}

protected theorem pure (a : α) : Preserves I trapped (pure a : Action σ ε α) := fun _ h => h

protected theorem fail (cause : ε) : Preserves I trapped (Action.fail cause : Action σ ε α) := fun _ h => h

theorem ofExcept (r : Except ε α) : Preserves I trapped (Action.ofExcept r) := by
  intro s h
  rw [ends_ofExcept]
  cases r <;> exact h

theorem modify {f : σ → σ} (h : ∀ s, I s → I (f s)) : Preserves I trapped (modify f : Action σ ε PUnit) := h

theorem set (h : I t) : Preserves I trapped (set t : Action σ ε PUnit) := fun _ _ => h

/-- If both of two steps keep a condition, so do they in a row. -/
theorem bind {next : α → Action σ ε β} (h : Preserves I trapped act) (h' : ∀ a, Preserves I trapped (next a)) :
    Preserves I trapped (act >>= next) := fun s hs =>
  (h s hs).bind (fun a t ht => h' a t ht) (fun _ _ ht => ht) id

theorem get_bind {next : σ → Action σ ε α} (h : ∀ s, I s → Preserves I trapped (next s)) :
    Preserves I trapped (get >>= next) := fun s hs =>
  (ends_get_bind next _).mpr (h s hs s hs)

/-- After a result that is there already, only what comes after it has to keep the condition. -/
theorem ofExcept_bind {r : Except ε α} {next : α → Action σ ε β}
    (h : ∀ a, r = .ok a → Preserves I trapped (next a)) : Preserves I trapped (Action.ofExcept r >>= next) := by
  cases r with
  | ok a => exact h a rfl
  | error cause => exact Preserves.fail cause

/-- A value that is no word is a trap; one that is goes on. -/
theorem word_bind {value : Nat} {next : Nat → Action σ ε α} (ht : UInt32.size ≤ value → trapped)
    (h : Preserves I trapped (next value)) : Preserves I trapped (word value >>= next) := fun s hs =>
  Action.word_bind ht (h s hs)

/-- What a step keeps it also keeps when it is only attempted. -/
theorem attempt (h : Preserves I trapped act) :
    Preserves I trapped (attempt act : Action σ ε' (Except ε α)) := fun s hs =>
  (h s hs).attempt (fun _ _ ht => ht) (fun _ _ ht => ht) id

/-- Renaming errors keeps what the step keeps. -/
theorem mapError {f : ε → ε'} (h : Preserves I trapped act) : Preserves I trapped (mapError f act) :=
  fun s hs => (ends_mapError f act _).mpr (h s hs)

/-- A step on a part keeps what can be put together from the part and the rest. -/
theorem focus {J : τ → Prop} {part : σ → τ} {put : σ → τ → σ} {act : Action τ ε α} (h : Preserves J trapped act)
    (hpart : ∀ s, I s → J (part s)) (hput : ∀ s t, I s → J t → I (put s t)) :
    Preserves I trapped (focus part put act) := fun s hs =>
  (ends_focus act).mpr ((h (part s) (hpart s hs)).imp (fun _ t ht => hput s t hs ht)
    (fun _ t ht => hput s t hs ht) id)

end Preserves

/-- The state that a step leaves, however it ends. -/
def after (act : Action σ ε α) (s : σ) : σ :=
  match act s with
  | .ok _ t => t
  | .error _ t => t

/-- However a step ends, it ends in the state that it leaves. -/
theorem ends_after (act : Action σ ε α) (s : σ) :
    act.Ends s (fun _ t => act.after s = t) (fun _ t => act.after s = t) True := by
  unfold Ends Action.after
  cases act s with
  | ok a t => rfl
  | error stop t => cases stop <;> trivial

/-- What is said of every way a step can end holds of the state that it leaves. -/
theorem Ends.after {Q : σ → Prop} (h : act.Ends s (fun _ t => Q t) (fun _ t => Q t) False) : Q (act.after s) := by
  simp only [Ends] at h
  unfold Action.after
  split at h
  · rename_i hact
    simpa only [hact] using h
  · rename_i hact
    simpa only [hact] using h
  · exact h.elim

/-- A condition that a step keeps holds of the state that it leaves. -/
theorem Preserves.after {I : σ → Prop} (h : Preserves I trapped act) (hs : I s) (ht : ¬trapped) :
    I (act.after s) :=
  Ends.after ((h s hs).imp (fun _ _ h => h) (fun _ _ h => h) ht)

/-- The step ends there, with a result or with an error. -/
def Leaves (act : Action σ ε α) (s t : σ) : Prop :=
  (∃ a, act s = .ok a t) ∨ ∃ cause, act s = .error (.error cause) t

/-- A check that passes is evidence of how a step ends. -/
theorem leaves_of_passes (h : (act.passes s fun _ _ => true) = true) : act.Leaves s (act.after s) := by
  obtain ⟨a, t, hact, -⟩ := exists_of_passes h
  refine Or.inl ⟨a, ?_⟩
  simp only [Action.after, hact]

/-- A condition that a step keeps holds of every state that it can leave. -/
theorem Preserves.leaves {I : σ → Prop} (h : Preserves I trapped act) (hs : I s) (hleaves : act.Leaves s t) : I t := by
  rcases hleaves with ⟨a, hact⟩ | ⟨cause, hact⟩
  · exact (h s hs).done_of_ok hact
  · exact (h s hs).failed_of_error hact

/-! ### Steps whose errors are reported -/

/-- From a state in the condition `I` the step ends in one, unless it fails; what it fails with and the state it
leaves then meet `F`. A trap is no failure. -/
def Reports (I : σ → Prop) (F : ε → σ → Prop) (act : Action σ ε α) : Prop :=
  ∀ s, I s → match act s with
    | .ok _ t => I t
    | .error (.error cause) t => F cause t
    | .error .trap t => I t

namespace Reports
variable {I : σ → Prop} {F : ε → σ → Prop}

/-- A step that is done leaves the condition as it was. -/
theorem ok (h : Reports I F act) (hs : I s) {a : α} (hact : act s = .ok a t) : I t := by
  have hended := h s hs
  simpa only [hact] using hended

/-- A step that traps has not failed, so that it leaves the condition as it was. -/
theorem trap (h : Reports I F act) (hs : I s) (hact : act s = .error .trap t) : I t := by
  have hended := h s hs
  simpa only [hact] using hended

/-- A step that fails meets what is said of its failure. -/
theorem error (h : Reports I F act) (hs : I s) {cause : ε} (hact : act s = .error (.error cause) t) : F cause t := by
  have hended := h s hs
  simpa only [hact] using hended

/-- The three ways to end, read off at once. -/
theorem ends (h : Reports I F act) (hs : I s) : act.Ends s (fun _ t => I t) F True := by
  have hended := h s hs
  unfold Ends
  split
  · simpa only [*] using hended
  · simpa only [*] using hended
  · trivial

/-- What is said of a failure may be said less exactly. -/
theorem mono {G : ε → σ → Prop} (h : Reports I F act) (hFG : ∀ cause s, F cause s → G cause s) : Reports I G act := by
  intro s hs
  have hended := h s hs
  split at hended
  · exact hended
  · exact hFG _ _ hended
  · exact hended

/-- What holds both while the condition does and after a failure holds of the state that a step leaves. -/
theorem after {Q : σ → Prop} (h : Reports I F act) (hs : I s) (hI : ∀ t, I t → Q t) (hF : ∀ cause t, F cause t → Q t) :
    Q (act.after s) := by
  have hended := h s hs
  unfold Action.after
  cases hact : act s with
  | ok a t => exact hI t (h.ok hs hact)
  | error stop t =>
    cases stop with
    | error cause => exact hF cause t (h.error hs hact)
    | trap => exact hI t (h.trap hs hact)

/-- A step that cannot trap reports as it ends. -/
theorem of_ends (h : ∀ s, I s → act.Ends s (fun _ t => I t) F False) : Reports I F act := by
  intro s hs
  have hended := h s hs
  simp only [Ends] at hended
  split
  · simpa only [*] using hended
  · simpa only [*] using hended
  · simp only [*] at hended

protected theorem pure (a : α) : Reports I F (pure a : Action σ ε α) := fun _ hs => hs

protected theorem fail {cause : ε} (h : ∀ s, I s → F cause s) : Reports I F (Action.fail cause : Action σ ε α) := h

theorem modify {f : σ → σ} (h : ∀ s, I s → I (f s)) : Reports I F (modify f : Action σ ε PUnit) := h

theorem set (h : I t) : Reports I F (set t : Action σ ε PUnit) := fun _ _ => h

/-- If both of two steps report, so do they in a row. -/
theorem bind {next : α → Action σ ε β} (h : Reports I F act) (h' : ∀ a, Reports I F (next a)) :
    Reports I F (act >>= next) := by
  intro s hs
  have hended := h s hs
  rw [bind_apply]
  cases hact : act s with
  | ok a t =>
    rw [hact] at hended
    exact h' a t hended
  | error stop t =>
    rw [hact] at hended
    cases stop <;> exact hended

theorem get_bind {next : σ → Action σ ε α} (h : ∀ s, I s → Reports I F (next s)) : Reports I F (get >>= next) := by
  intro s hs
  rw [bind_apply]
  exact h s hs s hs

/-- A value that is no word is a trap, which is no failure. -/
theorem word_bind {value : Nat} {next : Nat → Action σ ε α} (h : Reports I F (next value)) :
    Reports I F (word value >>= next) := by
  intro s hs
  by_cases hword : value < UInt32.size
  · have hstep : (word value >>= next) s = next value s := by simp [word, hword]
    rw [hstep]
    exact h s hs
  · have hstep : (word value >>= next) s = .error .trap s := by simp [word, hword, Action.trap]
    rw [hstep]
    exact hs

/-- Where an error is a value, a step that fails in the condition goes on in it. -/
theorem attempt {F' : ε' → σ → Prop} (h : Reports I (fun _ => I) act) :
    Reports I F' (attempt act : Action σ ε' (Except ε α)) := by
  intro s hs
  have hended := h s hs
  simp only [Action.attempt]
  cases hact : act s with
  | ok a t => simpa only [hact] using hended
  | error stop t => cases stop <;> simpa only [hact] using hended

/-- A step on a part reports what can be put together from the part and the rest. -/
theorem focus {J : σ → τ → Prop} {G : σ → ε → τ → Prop} {part : σ → τ} {put : σ → τ → σ} {act : Action τ ε α}
    (h : ∀ s, I s → Reports (J s) (G s) act) (hpart : ∀ s, I s → J s (part s))
    (hput : ∀ s t, I s → J s t → I (put s t)) (hfail : ∀ s cause t, I s → G s cause t → F cause (put s t)) :
    Reports I F (focus part put act) := by
  intro s hs
  have hended := h s hs (part s) (hpart s hs)
  simp only [Action.focus]
  cases hact : act (part s) with
  | ok a t =>
    rw [hact] at hended
    exact hput s t hs hended
  | error stop t =>
    rw [hact] at hended
    cases stop with
    | error cause => exact hfail s cause t hs hended
    | trap => exact hput s t hs hended

end Reports

/-! ### Steps that do not tell states apart -/

/-- From states that are related the step ends in the same way, in states that are related again. -/
def Blind (R : σ → σ → Prop) (act : Action σ ε α) : Prop :=
  ∀ s s', R s s' → match act s with
    | .ok a t => ∃ t', act s' = .ok a t' ∧ R t t'
    | .error stop t => ∃ t', act s' = .error stop t' ∧ R t t'

namespace Blind
variable {R : σ → σ → Prop} {s' : σ}

/-- Of two runs that are related the second is done when the first is. -/
theorem ok (h : Blind R act) (hs : R s s') {a : α} (hact : act s = .ok a t) : ∃ t', act s' = .ok a t' ∧ R t t' := by
  have hended := h s s' hs
  simpa only [hact] using hended

/-- Of two runs that are related the second breaks off as the first does. -/
theorem error (h : Blind R act) (hs : R s s') {stop : Stop ε} (hact : act s = .error stop t) :
    ∃ t', act s' = .error stop t' ∧ R t t' := by
  have hended := h s s' hs
  simpa only [hact] using hended

protected theorem pure (a : α) : Blind R (pure a : Action σ ε α) := fun _ s' hs => ⟨s', rfl, hs⟩

protected theorem fail (cause : ε) : Blind R (Action.fail cause : Action σ ε α) := fun _ s' hs => ⟨s', rfl, hs⟩

theorem ofExcept (r : Except ε α) : Blind R (Action.ofExcept r) := by
  cases r with
  | ok a => exact .pure a
  | error cause => exact .fail cause

theorem modify {f : σ → σ} (h : ∀ s s', R s s' → R (f s) (f s')) : Blind R (modify f : Action σ ε PUnit) :=
  fun s s' hs => ⟨f s', rfl, h s s' hs⟩

/-- If neither of two steps sees the difference, nor do they in a row. -/
theorem bind {next : α → Action σ ε β} (h : Blind R act) (h' : ∀ a, Blind R (next a)) : Blind R (act >>= next) := by
  intro s s' hs
  rw [bind_apply, bind_apply]
  cases hact : act s with
  | ok a t =>
    obtain ⟨t', hact', ht⟩ := h.ok hs hact
    rw [hact']
    exact h' a t t' ht
  | error stop t =>
    obtain ⟨t', hact', ht⟩ := h.error hs hact
    rw [hact']
    exact ⟨t', rfl, ht⟩

/-- What is looked at must not tell the two states apart. -/
theorem get_bind {next : σ → Action σ ε α} (h : ∀ s s', R s s' → next s = next s') (h' : ∀ s, Blind R (next s)) :
    Blind R (get >>= next) := by
  intro s s' hs
  rw [bind_apply, bind_apply]
  show match next s s with
    | .ok a t => ∃ t', next s' s' = .ok a t' ∧ R t t'
    | .error stop t => ∃ t', next s' s' = .error stop t' ∧ R t t'
  rw [← h s s' hs]
  exact h' s s s' hs

/-- An attempt sees no more than the step itself. -/
theorem attempt (h : Blind R act) : Blind R (attempt act : Action σ ε' (Except ε α)) := by
  intro s s' hs
  simp only [Action.attempt]
  cases hact : act s with
  | ok a t =>
    obtain ⟨t', hact', ht⟩ := h.ok hs hact
    exact ⟨t', by rw [hact'], ht⟩
  | error stop t =>
    obtain ⟨t', hact', ht⟩ := h.error hs hact
    cases stop <;> exact ⟨t', by rw [hact'], ht⟩

theorem mapError {f : ε → ε'} (h : Blind R act) : Blind R (mapError f act) := by
  intro s s' hs
  simp only [Action.mapError]
  cases hact : act s with
  | ok a t =>
    obtain ⟨t', hact', ht⟩ := h.ok hs hact
    exact ⟨t', by rw [hact'], ht⟩
  | error stop t =>
    obtain ⟨t', hact', ht⟩ := h.error hs hact
    cases stop <;> exact ⟨t', by rw [hact'], ht⟩

/-- A step on a part of the state is told nothing of the rest. -/
theorem focus {part : σ → τ} {put : σ → τ → σ} (act : Action τ ε α) (hpart : ∀ s s', R s s' → part s = part s')
    (hput : ∀ s s' t, R s s' → R (put s t) (put s' t)) : Blind R (focus part put act) := by
  intro s s' hs
  simp only [Action.focus]
  rw [← hpart s s' hs]
  cases act (part s) with
  | ok a t => exact ⟨put s' t, rfl, hput s s' t hs⟩
  | error stop t => exact ⟨put s' t, rfl, hput s s' t hs⟩

end Blind

/-! ### Steps that keep to a relation -/

/-- However the step ends, the state it leaves is related to the one it found. -/
def Along (R : σ → σ → Prop) (act : Action σ ε α) : Prop :=
  ∀ s, act.Ends s (fun _ t => R s t) (fun _ t => R s t) True

/-- A relation that steps in turn do not leave. -/
structure Closed (R : σ → σ → Prop) : Prop where
  refl : ∀ s, R s s
  trans : ∀ {s t u}, R s t → R t u → R s u

end FirmwareUpdate.Action
