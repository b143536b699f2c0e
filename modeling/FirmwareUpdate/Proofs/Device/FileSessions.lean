import FirmwareUpdate.Proofs.Device.Handles

/-! What a file store holds under any sequence of calls. A call that is refused leaves the store as it was, with one
exception: a file that is to be created is there even if no handle is left for it. The calls that go through a handle
touch the file that the handle was opened on, and no other. -/
namespace FirmwareUpdate.FileStore
variable {s t u : FileStore} {path : String} {mode : FileMode} {handle offset length : Nat} {data contents : Bytes}

/-- A call to a store, whatever its arguments are. -/
inductive Request where
  | init
  | release
  | openFile (path : String) (mode : FileMode)
  | read (handle offset length : Nat)
  | write (handle offset : Nat) (data : Bytes)
  | erase (handle offset length : Nat)
  | close (handle : Nat)
  deriving DecidableEq

/-- What a call that is served gives back. -/
inductive Reply where
  | done
  | handle (handle : Nat)
  | bytes (data : Bytes)
  deriving DecidableEq

def Request.act : Request → Call Reply
  | init => do
    FileStore.init
    return .done
  | release => do
    FileStore.release
    return .done
  | openFile path mode => return .handle (← FileStore.openFile path mode)
  | read handle offset length => return .bytes (← FileStore.read handle offset length)
  | write handle offset data => do
    FileStore.write handle offset data
    return .done
  | erase handle offset length => do
    FileStore.erase handle offset length
    return .done
  | close handle => do
    FileStore.close handle
    return .done

/-- What is answered to a call. The store goes on after an error. -/
def answer (request : Request) : Action FileStore Empty (Except DeviceError Reply) := Action.attempt request.act

/-! ### One call -/

/-- There is no handle left for a file that is not there. -/
def Crowded (s : FileStore) (path : String) : Prop :=
  s.mounted = true ∧ s.file? path = none ∧ s.openCount = handleCount

instance : Decidable (s.Crowded path) := inferInstanceAs (Decidable (_ ∧ _ ∧ _))

/-- The file of a handle and its contents. -/
def Reaches (s : FileStore) (handle : Nat) (path : String) (contents : Bytes) : Prop :=
  s.pathOf? handle = some path ∧ s.file? path = some contents

/-- Whether the store does what is asked of it. Opening takes a mounted store, a free handle and a file, unless the
file may be created. The other calls take a handle that is open. -/
def Granted (s : FileStore) : Request → Prop
  | .init => True
  | .release => True
  | .openFile path mode =>
      s.mounted = true ∧ s.openCount < handleCount ∧ (mode = .read → ∃ contents, s.file? path = some contents)
  | .read handle _ _ => ∃ path contents, s.Reaches handle path contents
  | .write handle _ _ => ∃ path contents, s.Reaches handle path contents
  | .erase handle _ _ => ∃ path contents, s.Reaches handle path contents
  | .close handle => ∃ path, s.pathOf? handle = some path

/-- The store with the file in it, which is empty if it was missing. -/
def withFile (s : FileStore) (path : String) : FileStore :=
  if s.file? path = none then s.setFile path [] else s

/-- Nothing but the file and the record of writes has changed. -/
structure Touches (path : String) (contents : Bytes) (s t : FileStore) : Prop extends Patches path contents s t where
  mounted : t.mounted = s.mounted
  closes : t.closes = s.closes

/-- What a call that is granted comes to. -/
def Served (s : FileStore) : Request → Reply → FileStore → Prop
  | .init, reply, t => reply = .done ∧ t = { s with mounted := true }
  | .release, reply, t => reply = .done ∧ (∀ handle, t.pathOf? handle = none) ∧
      t = { s with mounted := false, handles := t.handles }
  | .openFile path _, reply, t => ∃ handle, reply = .handle handle ∧ s.Takes path handle t ∧
      t = { s.withFile path with handles := t.handles }
  | .read handle offset length, reply, t => t = s ∧ ∃ path contents, s.Reaches handle path contents ∧
      reply = .bytes (Bytes.slice contents offset length)
  | .write handle offset data, reply, t => reply = .done ∧ ∃ path contents, s.Reaches handle path contents ∧
      s.Touches path (Bytes.splice (Bytes.extend contents (offset + data.length)) offset data) t ∧
      t.writes = ⟨offset, data⟩ :: s.writes
  | .erase handle offset length, reply, t => reply = .done ∧ ∃ path contents, s.Reaches handle path contents ∧
      s.Touches path (Bytes.splice (Bytes.extend contents (offset + length)) offset (Bytes.blank length)) t ∧
      t.writes = s.writes
  | .close handle, reply, t => reply = .done ∧ s.Frees handle t ∧
      t = { s with handles := t.handles, closes := s.closes + 1 }

/-- The ways in which a call can end: it is granted and served, it is refused and nothing is changed, or a file is
created that no handle is left for. -/
inductive Answered (s : FileStore) : Request → Except DeviceError Reply → FileStore → Prop where
  | refused {request : Request} (cause : DeviceError) (hrefused : ¬s.Granted request)
      (huncrowded : ∀ path, request = .openFile path .readWrite → ¬s.Crowded path) :
      Answered s request (.error cause) s
  | crowded {path : String} (hcrowded : s.Crowded path) :
      Answered s (.openFile path .readWrite) (.error .tooManyOpenFiles) (s.setFile path [])
  | served {request : Request} {reply : Reply} {t : FileStore} (hgranted : s.Granted request)
      (hserved : s.Served request reply t) : Answered s request (.ok reply) t

/-- Each way in which the step ends is one in which the call may be answered. -/
abbrev Answers (s : FileStore) (request : Request) (act : Call Reply) : Prop :=
  act.Ends s (fun reply t => s.Answered request (.ok reply) t) (fun cause t => s.Answered request (.error cause) t)
    False

private theorem Takes.pathOf?_eq (h : s.Takes path handle t) :
    t.pathOf? = fun handle' => if handle' = handle then some path else s.pathOf? handle' := by
  funext handle'
  split
  · rename_i heq
    exact heq ▸ h.path
  · rename_i hne
    exact h.others handle' hne

private theorem Frees.pathOf?_eq (h : s.Frees handle t) :
    t.pathOf? = fun handle' => if handle' = handle then none else s.pathOf? handle' := by
  funext handle'
  split
  · rename_i heq
    exact heq ▸ h.free
  · rename_i hne
    exact h.others handle' hne

/-- A handle that is free is one of those that are not counted. -/
theorem Takes.openCount_lt (h : s.Takes path handle t) : s.openCount < handleCount := by
  have hlt : handle < handleCount := lt_of_pathOf? h.path
  have hall : (List.range handleCount).countP (fun handle => (s.pathOf? handle).isSome) ≠
      (List.range handleCount).length := by
    intro hall
    have hopen := List.countP_eq_length.mp hall handle (List.mem_range.mpr hlt)
    rw [h.free] at hopen
    cases hopen
  have hcount := Nat.lt_of_le_of_ne List.countP_le_length hall
  rwa [← openCount_eq, List.length_range] at hcount

/-- An opening is answered with a handle, or refused, as the store stands. -/
theorem openFile_answers : s.Answers (.openFile path mode) (Request.act (.openFile path mode)) := by
  simp only [Request.act, openFile]
  rw [Answers, Action.ends_bind, Action.ends_get_bind]
  split
  · rename_i hmounted
    split
    · rename_i contents hfile
      have hthere : s.withFile path = s := by rw [withFile, hfile, if_neg (by simp)]
      refine takeHandle_takes.imp ?_ ?_ id
      · rintro handle t ⟨htakes, hrest⟩
        exact .served ⟨hmounted, htakes.openCount_lt, fun _ => ⟨contents, hfile⟩⟩
          ⟨handle, rfl, htakes, by rw [hthere]; exact hrest⟩
      · rintro e _ ⟨rfl, hfull, rfl⟩
        refine .refused _ (fun hgranted => ?_) fun p hp hcrowded => ?_
        · exact absurd hgranted.2.1 (by omega)
        · cases hp
          rw [hcrowded.2.1] at hfile
          cases hfile
    · rename_i hmissing
      refine .refused _ (fun hgranted => ?_) fun p hp _ => ?_
      · obtain ⟨contents, hfile⟩ := hgranted.2.2 rfl
        rw [hmissing] at hfile
        cases hfile
      · cases hp
    · rename_i hmissing
      have hcreated : s.withFile path = s.setFile path [] := by rw [withFile, if_pos hmissing]
      rw [Action.ends_set_bind]
      refine takeHandle_takes.imp ?_ ?_ id
      · rintro handle t ⟨htakes, hrest⟩
        have htook : s.Takes path handle t := ⟨htakes.free, htakes.path, htakes.others⟩
        exact .served ⟨hmounted, htook.openCount_lt, fun hread => FileMode.noConfusion hread⟩
          ⟨handle, rfl, htook, by rw [hcreated]; exact hrest⟩
      · rintro e _ ⟨rfl, hfull, rfl⟩
        exact .crowded ⟨hmounted, hmissing, hfull⟩
  · rename_i hmounted
    exact .refused _ (fun hgranted => hmounted hgranted.1) fun _ _ hcrowded => hmounted hcrowded.1

private theorem handlePath_exact : (handlePath handle).Ends s (fun path t => t = s ∧ s.pathOf? handle = some path)
    (fun _ t => t = s ∧ s.pathOf? handle = none) False := by
  simp only [handlePath]
  rw [Action.ends_get_bind]
  split
  · rename_i hopen
    exact ⟨rfl, Option.join_eq_some_iff.mpr hopen⟩
  · rename_i hclosed
    refine ⟨rfl, ?_⟩
    rw [pathOf?]
    cases hentry : s.handles[handle]? with
    | none => rfl
    | some entry =>
      cases entry with
      | none => rfl
      | some path => exact (hclosed path hentry).elim

/-- A call is refused at once if it needs the file of a handle and there is none. -/
theorem fileOf_answers {request : Request} {next : String × Bytes → Call Reply}
    (hneeds : s.Granted request → ∃ path contents, s.Reaches handle path contents)
    (hother : ∀ path mode, request ≠ .openFile path mode)
    (hnext : ∀ path contents, s.Reaches handle path contents → s.Answers request (next (path, contents))) :
    s.Answers request (fileOf handle >>= next) := by
  have hrefused (cause : DeviceError) (hnone : ∀ path contents, ¬s.Reaches handle path contents) :
      s.Answered request (.error cause) s := by
    refine .refused cause (fun hgranted => ?_) fun path hopen => (hother path _ hopen).elim
    obtain ⟨path, contents, hreaches⟩ := hneeds hgranted
    exact hnone path contents hreaches
  simp only [fileOf]
  rw [bind_assoc]
  refine handlePath_exact.bind ?_ ?_ id
  · rintro path t ⟨rfl, hpath⟩
    rw [bind_assoc, Action.ends_get_bind]
    split
    · rename_i contents hfile
      rw [Action.ends_pure_bind]
      exact hnext path contents ⟨hpath, hfile⟩
    · rename_i hmissing
      refine hrefused .fileNotFound fun p contents hreaches => ?_
      obtain ⟨hp, hfile⟩ := hreaches
      rw [hpath] at hp
      cases hp
      rw [hmissing] at hfile
      cases hfile
  · rintro cause t ⟨rfl, hclosed⟩
    refine hrefused cause fun path contents hreaches => ?_
    have hpath := hreaches.1
    rw [hclosed] at hpath
    cases hpath

/-- A read is answered with the bytes there are, or refused, as the store stands. -/
theorem read_answers : s.Answers (.read handle offset length) (Request.act (.read handle offset length)) := by
  simp only [Request.act, read]
  rw [bind_assoc]
  refine fileOf_answers id nofun fun path contents hreaches => ?_
  exact .served ⟨path, contents, hreaches⟩ ⟨rfl, path, contents, hreaches, rfl⟩

private theorem touches_setFile (s : FileStore) (path : String) (contents : Bytes) (writes : List WriteEntry) :
    s.Touches path contents { s.setFile path contents with writes } :=
  ⟨patches_setFile s path contents writes, rfl, rfl⟩

/-- A write has all of its effect or is refused, as the store stands. -/
theorem write_answers : s.Answers (.write handle offset data) (Request.act (.write handle offset data)) := by
  simp only [Request.act, write]
  rw [bind_assoc]
  refine fileOf_answers id nofun fun path contents hreaches => ?_
  exact .served ⟨path, contents, hreaches⟩ ⟨rfl, path, contents, hreaches, touches_setFile s path _ _, rfl⟩

/-- An erase has all of its effect or is refused, as the store stands. -/
theorem erase_answers : s.Answers (.erase handle offset length) (Request.act (.erase handle offset length)) := by
  simp only [Request.act, erase]
  rw [bind_assoc]
  refine fileOf_answers id nofun fun path contents hreaches => ?_
  exact .served ⟨path, contents, hreaches⟩ ⟨rfl, path, contents, hreaches, touches_setFile s path _ s.writes, rfl⟩

/-- A handle that is open is closed, and another one is refused. -/
theorem close_answers : s.Answers (.close handle) (Request.act (.close handle)) := by
  simp only [Request.act, close]
  rw [bind_assoc]
  refine handlePath_exact.bind ?_ ?_ id
  · rintro path t ⟨rfl, hpath⟩
    exact .served ⟨path, hpath⟩ ⟨rfl, frees_of_cleared hpath _, rfl⟩
  · rintro cause t ⟨rfl, hclosed⟩
    refine .refused cause (fun hgranted => ?_) fun p hp _ => ?_
    · obtain ⟨path, hpath⟩ := hgranted
      rw [hclosed] at hpath
      cases hpath
    · cases hp

/-- No call traps. -/
theorem request_answers (request : Request) : s.Answers request request.act := by
  cases request with
  | init => exact .served trivial ⟨rfl, rfl⟩
  | release => exact .served trivial ⟨rfl, release_frees, rfl⟩
  | openFile path mode => exact openFile_answers
  | read handle offset length => exact read_answers
  | write handle offset data => exact write_answers
  | erase handle offset length => exact erase_answers
  | close handle => exact close_answers

/-- Every request to a store is answered. -/
theorem exists_answer (s : FileStore) (request : Request) :
    ∃ result t, answer request s = .ok result t ∧ s.Answered request result t :=
  Action.Ends.exists_ok ((request_answers request).attempt (fun _ _ h => h) (fun _ _ h => h) id)

/-- A file that is created for want of a handle stays where it is. -/
theorem answer_of_crowded (h : s.Crowded path) :
    answer (.openFile path .readWrite) s = .ok (.error .tooManyOpenFiles) (s.setFile path []) := by
  obtain ⟨result, t, hanswer, hanswered⟩ := exists_answer s (.openFile path .readWrite)
  cases hanswered with
  | refused _ _ huncrowded => exact (huncrowded path rfl h).elim
  | crowded => exact hanswer
  | served hgranted => exact absurd hgranted.2.1 (by rw [h.2.2]; exact Nat.lt_irrefl _)

/-! ### Sequences of calls -/

variable {request : Request} {requests : List Request} {result : Except DeviceError Reply} {reply : Reply}
  {results : List (Except DeviceError Reply)}

/-- Each of the calls is answered on the store that the calls before it have left. -/
inductive Trace : FileStore → List Request → List (Except DeviceError Reply) → FileStore → Prop where
  | nil (s : FileStore) : Trace s [] [] s
  | cons {s t u : FileStore} {request : Request} {requests : List Request} {result : Except DeviceError Reply}
      {results : List (Except DeviceError Reply)} (hfirst : s.Answered request result t)
      (hrest : Trace t requests results u) : Trace s (request :: requests) (result :: results) u

/-- Requests are all answered, one after another. -/
theorem exists_trace (s : FileStore) (requests : List Request) :
    ∃ results t, requests.mapM answer s = .ok results t ∧ Trace s requests results t := by
  induction requests generalizing s with
  | nil => exact ⟨[], s, rfl, .nil s⟩
  | cons request requests ih =>
    obtain ⟨result, t, hanswer, hanswered⟩ := exists_answer s request
    obtain ⟨results, u, hrun, htrace⟩ := ih t
    exact ⟨result :: results, u, Action.mapM_cons_of_ok hanswer hrun, .cons hanswered htrace⟩

/-- One more call in the book of the handles: the file that each handle was opened on, if it has not been closed since.
The book goes by the calls and their answers alone. -/
def noted (book : Nat → Option String) : Request × Except DeviceError Reply → Nat → Option String
  | (.openFile path _, .ok (.handle taken)) => fun handle => if handle = taken then some path else book handle
  | (.close freed, .ok _) => fun handle => if handle = freed then none else book handle
  | (.release, .ok _) => fun _ => none
  | _ => book

/-- The book after some calls to a store. -/
def openedOn (s : FileStore) (calls : List (Request × Except DeviceError Reply)) : Nat → Option String :=
  calls.foldl noted s.pathOf?

/-- The book is right after one call. -/
theorem Answered.noted (h : s.Answered request result t) : t.pathOf? = noted s.pathOf? (request, result) := by
  cases h with
  | refused cause => cases request <;> rfl
  | crowded => rfl
  | served hgranted hserved =>
    cases request with
    | init => rw [hserved.2]; rfl
    | release => exact funext hserved.2.1
    | openFile path mode =>
      obtain ⟨taken, rfl, htakes, -⟩ := hserved
      exact htakes.pathOf?_eq
    | read handle offset length => rw [hserved.1]; rfl
    | write handle offset data =>
      obtain ⟨-, path, contents, -, htouches, -⟩ := hserved
      exact funext (pathOf?_of_handles htouches.handles)
    | erase handle offset length =>
      obtain ⟨-, path, contents, -, htouches, -⟩ := hserved
      exact funext (pathOf?_of_handles htouches.handles)
    | close freed =>
      exact hserved.2.1.pathOf?_eq

/-- The book is right after any calls. -/
theorem Trace.openedOn (h : Trace s requests results t) : t.pathOf? = openedOn s (requests.zip results) := by
  induction h with
  | nil => rfl
  | cons hfirst _ ih => rw [ih, FileStore.openedOn, hfirst.noted]; rfl

/-- The handle of a call that works on the contents of a file. -/
def Request.through? : Request → Option Nat
  | .read handle _ _ => some handle
  | .write handle _ _ => some handle
  | .erase handle _ _ => some handle
  | _ => none

/-- A request through a handle that succeeds touches no file but the one the handle stands for. -/
theorem Answered.touches (h : s.Answered request (.ok reply) t) (hthrough : request.through? = some handle) :
    ∃ path contents, s.pathOf? handle = some path ∧ s.Touches path contents t := by
  cases h with
  | served hgranted hserved =>
    cases request with
    | read handle offset length =>
      cases hthrough
      obtain ⟨rfl, path, contents, ⟨hpath, hfile⟩, -⟩ := hserved
      exact ⟨path, contents, hpath, ⟨⟨rfl, fun _ _ => rfl, hfile, rfl⟩, rfl, rfl⟩⟩
    | write handle offset data =>
      cases hthrough
      obtain ⟨-, path, contents, ⟨hpath, -⟩, htouches, -⟩ := hserved
      exact ⟨path, _, hpath, htouches⟩
    | erase handle offset length =>
      cases hthrough
      obtain ⟨-, path, contents, ⟨hpath, -⟩, htouches, -⟩ := hserved
      exact ⟨path, _, hpath, htouches⟩
    | _ => cases hthrough

/-- An answer that is an error leaves the store alone, unless a file had been created before the handle was missing. -/
theorem Answered.unchanged_of_error {cause : DeviceError} (h : s.Answered request (.error cause) t) :
    t = s ∨ ∃ path, request = .openFile path .readWrite ∧ s.Crowded path ∧ t = s.setFile path [] := by
  cases h with
  | refused => exact Or.inl rfl
  | @crowded path hcrowded => exact Or.inr ⟨path, rfl, hcrowded, rfl⟩

/-- After any calls a further one is answered. An error leaves the store exactly as it was, unless a missing file was to
be created and all handles are taken: that file is there then, and it is empty. What is done through a handle is done to
the file that the handle was opened on, and to no other. -/
theorem session_files (s : FileStore) (requests : List Request) (request : Request) :
    ∃ results t result u, requests.mapM answer s = .ok results t ∧ answer request t = .ok result u ∧
      Trace s requests results t ∧ t.Answered request result u ∧
      (∀ cause, result = .error cause →
        u = t ∨ ∃ path, request = .openFile path .readWrite ∧ t.Crowded path ∧ u = t.setFile path []) ∧
      ∀ handle reply, request.through? = some handle → result = .ok reply →
        ∃ path contents, openedOn s (requests.zip results) handle = some path ∧ t.Touches path contents u := by
  obtain ⟨results, t, hrun, htrace⟩ := exists_trace s requests
  obtain ⟨result, u, hanswer, hanswered⟩ := exists_answer t request
  refine ⟨results, t, result, u, hrun, hanswer, htrace, hanswered, ?_, ?_⟩
  · rintro cause rfl
    exact hanswered.unchanged_of_error
  · rintro handle reply hthrough rfl
    rw [← htrace.openedOn]
    exact hanswered.touches hthrough

/-- As many files as there are handles. -/
def sampleOpens : List Request :=
  .init :: ["f0", "f1", "f2", "f3"].map fun path => .openFile path .readWrite

/-- The call fails, and the file that was to be opened is there afterwards. -/
theorem failed_open_leaves_file : ∃ results t u, sampleOpens.mapM answer { granule := 4 } = .ok results t ∧
    answer (.openFile "one-more" .readWrite) t = .ok (.error .tooManyOpenFiles) u ∧
    t.file? "one-more" = none ∧ u.file? "one-more" = some [] := by
  have hpasses : ((sampleOpens.mapM answer).passes { granule := 4 } fun _ t => t.Crowded "one-more") = true := by
    decide +kernel
  obtain ⟨results, t, hopens, hcheck⟩ := Action.exists_of_passes hpasses
  have hcrowded : t.Crowded "one-more" := of_decide_eq_true hcheck
  exact ⟨results, t, _, hopens, answer_of_crowded hcrowded, hcrowded.2.1,
    (file?_setFile t "one-more" "one-more" []).trans (if_pos rfl)⟩

end FirmwareUpdate.FileStore
