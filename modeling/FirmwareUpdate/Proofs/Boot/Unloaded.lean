import FirmwareUpdate.Proofs.Boot.Topology

/-! The key is loaded in two places, to try it on the known block of an image and to decrypt a payload. It does not stay
loaded after either of them, wherever they break off. -/
namespace FirmwareUpdate
variable {n k : Nat} {ε α β : Type}

namespace Engine
variable {e e' : Engine n k} {source : SlotId}

/-- The cipher holds no key. -/
def Unloaded (e : Engine n k) : Prop := e.cipher = none

private theorem unload_after {act : Op n k α} {rest : Except Error α → Op n k β}
    (h : ∀ result, Action.Preserves Unloaded True (rest result)) :
    Action.Preserves Unloaded True (do
      let result ← Action.attempt act
      unloadKey
      rest result : Op n k β) := by
  -- Whatever the attempt leaves loaded is unloaded before its result is looked at.
  intro e _
  have hact : act.Ends e (fun _ _ => True) (fun _ _ => True) True :=
    Action.ends_of_all (fun _ _ => trivial) (fun _ _ => trivial) trivial
  refine hact.attempt_bind ?_ ?_ id
  · exact fun a e' _ => (Action.ends_modify_bind _ _ _).mpr (h (.ok a) _ rfl)
  · exact fun cause e' _ => (Action.ends_modify_bind _ _ _).mpr (h (.error cause) _ rfl)

private theorem onStorage_unloaded (act : Action (Storage n k) ε α) : Action.Preserves Unloaded True (onStorage act) :=
  Action.Preserves.focus (J := fun _ => True)
    (fun _ _ => Action.ends_of_all (fun _ _ => trivial) (fun _ _ => trivial) trivial) (fun _ _ => trivial)
    fun _ _ he _ => he

private theorem keeping_unloaded : Keeping (Unloaded (n := n) (k := k)) True where
  log _ _ he := he
  read _ _ _ := onStorage_unloaded _
  checkKey _ _ := by
    refine .bind (onStorage_unloaded _) fun iv => .bind (onStorage_unloaded _) fun coded => ?_
    refine unload_after fun result => ?_
    refine .bind (.ofExcept result) fun block => ?_
    split
    · exact .pure ()
    · exact .fail _
  init := onStorage_unloaded _
  closeFiles := onStorage_unloaded _
  table _ _ _ := Action.ends_of_all (fun _ _ _ _ _ => trivial) (fun _ _ => trivial) trivial

private theorem install_unloaded : Action.Preserves Unloaded True (install source : Op n k Unit) := by
  -- The payload may break off anywhere.
  refine .get_bind fun e _ => .bind (.ofExcept _) fun target => ?_
  split
  · exact .fail _
  · refine .bind keeping_unloaded.note fun _ => unload_after fun result => ?_
    cases result with
    | ok => exact .pure ()
    | error cause => exact .bind (onStorage_unloaded _) fun _ => .bind keeping_unloaded.note fun _ => .fail cause

private theorem release_unloaded : Action.Preserves Unloaded True (release : Op n k Unit) := by
  refine .bind (.modify fun _ _ => rfl) fun _ => .bind (onStorage_unloaded _).attempt fun result => ?_
  exact .bind keeping_unloaded.note fun _ => .ofExcept result

private theorem task_unloaded (task : Task) : Action.Preserves Unloaded True (task.act : Op n k Unit) :=
  keeping_unloaded.task (fun _ => onStorage_unloaded _) (fun _ => install_unloaded) release_unloaded task

private theorem reaches_unloaded {b : Boot n k} (hreach : (Boot.ofEngine e).Reaches b) (he : e.Unloaded) :
    b.engine.Unloaded :=
  hreach.keeps keeping_unloaded (fun _ => install_unloaded) he

/-- What the engine becomes while it is put to use: tasks are done with it, and boots are started on it and left after
any number of steps. What fails is followed by the next as well. -/
inductive Serves (e : Engine n k) : Engine n k → Prop
  | unused : Serves e e
  | task (task : Task) (e' e'' : Engine n k) (served : Serves e e') (leaves : task.act.Leaves e' e'') : Serves e e''
  | boot (e' : Engine n k) (b : Boot n k) (served : Serves e e') (reached : (Boot.ofEngine e').Reaches b) :
      Serves e b.engine

private theorem Serves.unloaded (hserves : e.Serves e') (he : e.Unloaded) : e'.Unloaded := by
  induction hserves with
  | unused => exact he
  | task task e' e'' served leaves ih => exact (task_unloaded task).leaves ih leaves
  | boot e' b served reached ih => exact reaches_unloaded reached ih

/-- However an engine is brought up, no key is loaded. -/
theorem bringUp_unloaded {plan : Plan} {primary : DeviceId n k} {secondary : Option (DeviceId n k)}
    {backend : Backend} {bare : Storage n k} :
    (bringUp plan primary secondary backend).Yields bare fun e _ => e.Unloaded := by
  refine Action.Ends.bind (Action.ends_self _ _) ?_ (fun _ _ _ => trivial) fun _ => trivial
  intro key s _
  rw [Action.ends_get_bind]
  refine Action.Ends.bind (Action.ends_self _ _) ?_ (fun _ _ _ => trivial) fun _ => trivial
  intro t s' _
  rw [Action.ends_set_bind]
  refine Action.Ends.bind (Action.ends_self _ _) ?_ (fun _ _ _ => trivial) fun _ => trivial
  intro _ t' _
  exact (Action.ends_get_bind _ _).mpr rfl

/-- An engine that has come up never has a key loaded between one use and the next, whatever is on the devices and
whichever of their calls fail. -/
theorem unloaded_of_bringUp {plan : Plan} {primary : DeviceId n k} {secondary : Option (DeviceId n k)}
    {backend : Backend} {bare after : Storage n k} (hup : bringUp plan primary secondary backend bare = .ok e after)
    (hserves : e.Serves e') : e'.cipher = none :=
  hserves.unloaded (bringUp_unloaded.done_of_ok hup)

-- The flash device for the application fails to write once the header is there.
private def frailBoard (key : Bytes) : Storage 1 1 :=
  { devices :=
      { flashes := #v[{ device := .blank Sample.geometry, schedule := .ofOutages [⟨.write, 8, .writeFailed⟩] }]
        stores := #v[{ device := { granule := 8, files := [("update", Sample.codedImage 1 key [0, 16, 24, 32])] } }] } }

/-- The payload breaks off at its first write, with the key loaded that decrypts it, and the installation unloads it. -/
theorem sample_unloaded : ∃ (e : Engine 1 1) (after : Storage 1 1) (e' : Engine 1 1),
    bringUp (Sample.securePlan (List.replicate 16 3)) (.flash 0) (some (.files 0)) {}
        (frailBoard (List.replicate 16 3)) = .ok e after ∧
      install ⟨1, 0⟩ e = .error (.error .driverFailure) e' ∧ (e'.storage.flashLink 0).calls.write = 9 ∧
      e'.cipher = none := by
  have hcheck : ((bringUp (Sample.securePlan (List.replicate 16 3)) (.flash 0) (some (.files 0)) {}).passes
      (frailBoard (List.replicate 16 3)) fun e _ => (install ⟨1, 0⟩).failsWith e fun cause e' =>
        decide (cause = .driverFailure ∧ (e'.storage.flashLink 0).calls.write = 9)) = true := by
    decide +kernel
  obtain ⟨e, after, hup, hcheck⟩ := Action.exists_of_passes hcheck
  obtain ⟨cause, e', hinstall, hchecked⟩ := Action.exists_of_failsWith hcheck
  obtain ⟨rfl, hwrites⟩ := of_decide_eq_true hchecked
  have hserves : e.Serves e' := .task (.install ⟨1, 0⟩) e e' .unused (Or.inr ⟨_, hinstall⟩)
  exact ⟨e, after, e', hup, hinstall, hwrites, unloaded_of_bringUp hup hserves⟩

end Engine
end FirmwareUpdate
