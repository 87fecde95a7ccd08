import WeftAgent.Containers.Reconciler

/-!
# The container-set subscriber

`HandleMessage` of `pkg/containers/containers.go`: a published set is decoded and applied.
-/

namespace WeftAgent.Containers

open WeftAgent.Go WeftAgent.Effect WeftAgent.Pod

def subject (vmID : GoString) : GoString := lit "weft.containers." ++ vmID

/-- `HandleMessage`, from the outcome of `json.Unmarshal` on the message. -/
def handleMessage (order : RangeOrder GoString) (unmarshalled : Except GoError ContainerSet)
    (r : Reconciler) : Prog runtimeSig (Option GoError × Reconciler) :=
  match unmarshalled with
  | .error e => .ret (some (.wrap "decode container set: %w" [] e), r)
  | .ok s => r.apply order s

/-- The part of `HandleMessage` before the first change: the set it goes on with. -/
def decodeSet (unmarshalled : Except GoError ContainerSet) : Except GoError ContainerSet :=
  match unmarshalled with
  | .error e => .error (.wrap "decode container set: %w" [] e)
  | .ok s =>
    match s.validate with
    | some e => .error (.wrap "containers: invalid set: %w" [] e)
    | none => .ok s

/-- A message that does not decode to a valid set is dropped: nothing is asked of the runtime and
the reconciler stays as it was. -/
theorem handleMessage_eq (order : RangeOrder GoString) (unmarshalled : Except GoError ContainerSet)
    (r : Reconciler) :
    handleMessage order unmarshalled r =
      match decodeSet unmarshalled with
      | .error e => .ret (some e, r)
      | .ok s => r.apply order s := by
  cases unmarshalled with
  | error e => rfl
  | ok s =>
    cases hv : s.validate with
    | some e => simp [handleMessage, decodeSet, Reconciler.apply, hv]
    | none => simp [handleMessage, decodeSet, hv]

end WeftAgent.Containers
