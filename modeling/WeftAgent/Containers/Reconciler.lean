import WeftAgent.Effect.Prog
import WeftAgent.Pod.Containers
import Mathlib.Data.List.Sort

/-!
# The container reconciler

`pkg/containers/containers.go`: a published container set is compared with the one applied last, and
the runtime is told to stop, pull and start what differs.
-/

namespace WeftAgent.Containers

open WeftAgent.Go WeftAgent.Effect WeftAgent.Pod

/-- The methods of `Runtime` that the reconciler calls. -/
inductive RuntimeOp where
  | pull (image : GoString)
  | start (c : WorkloadContainer)
  | stop (name : GoString)
  deriving DecidableEq

/-- The signature of the runtime: every method returns an error, `none` for nil. -/
abbrev runtimeSig : Sig := ⟨RuntimeOp, fun _ => Option GoError⟩

def pull (image : GoString) : Prog runtimeSig (Option GoError) := .call (.pull image) .ret

def start (c : WorkloadContainer) : Prog runtimeSig (Option GoError) := .call (.start c) .ret

def stop (name : GoString) : Prog runtimeSig (Option GoError) := .call (.stop name) .ret

/-! ## Comparing two specs -/

/-- Two slices are compared by their lengths, then element by element. -/
def sliceEq {α : Type} [DecidableEq α] (a b : List α) : Bool :=
  if a.length ≠ b.length then false else (a.zip b).all fun (x, y) => x = y

def stringSliceEq (a b : List GoString) : Bool := sliceEq a b

/-- `containerEqual`. A variable that is missing in the second environment reads as empty. -/
def containerEqual (a b : WorkloadContainer) : Bool :=
  if a.image ≠ b.image ∨ a.workingDir ≠ b.workingDir ∨ a.net ≠ b.net then false
  else if !stringSliceEq a.command b.command || !stringSliceEq a.args b.args then false
  else if a.env.entries.length ≠ b.env.entries.length then false
  else if a.env.entries.any fun e => b.env.index e.1 ≠ e.2 then false
  else sliceEq a.mounts b.mounts

/-! ## Applying a set -/

/-- `Reconciler`: the set applied last, by name. -/
structure Reconciler where
  desired : GoMap GoString WorkloadContainer := ∅

/-- The map `next` of the containers of a set by name. -/
def nextMap (s : ContainerSet) : GoMap GoString WorkloadContainer :=
  s.containers.foldl (fun next c => next.insert c.name c) ∅

/-- `record`: the first error is kept. -/
def record (firstErr err : Option GoError) : Option GoError :=
  match firstErr with
  | some e => some e
  | none => err

/-- The first loop of `Apply`: the containers that are no longer listed are stopped. -/
def stopDropped (next : GoMap GoString WorkloadContainer) :
    List GoString → Option GoError → Prog runtimeSig (Option GoError)
  | [], firstErr => pure firstErr
  | name :: names, firstErr =>
    if name ∈ next then stopDropped next names firstErr
    else do
      let err ← stop name
      stopDropped next names (record firstErr err)

/-- The second half of a round of the second loop: the image is pulled, then the container
started. -/
def pullAndStart (want : WorkloadContainer) (firstErr : Option GoError) :
    Prog runtimeSig (Option GoError) := do
  match ← pull want.image with
  | some e => pure (record firstErr (some (.wrap "pull %s: %w" [.str want.image] e)))
  | none => do
    let err ← start want
    pure (record firstErr err)

/-- A round of the second loop of `Apply`: an unchanged container is left alone, a changed one is
stopped first. -/
def settle (prev : Option WorkloadContainer) (name : GoString) (want : WorkloadContainer)
    (firstErr : Option GoError) : Prog runtimeSig (Option GoError) :=
  match prev with
  | none => pullAndStart want firstErr
  | some p =>
    if containerEqual p want then pure firstErr
    else do
      let err ← stop name
      pullAndStart want (record firstErr err)

/-- The second loop of `Apply`, over names of `next`. -/
def settleAll (desired next : GoMap GoString WorkloadContainer) :
    List GoString → Option GoError → Prog runtimeSig (Option GoError)
  | [], firstErr => pure firstErr
  | name :: names, firstErr =>
    match next.lookup name with
    | none => settleAll desired next names firstErr
    | some want => do
      let firstErr ← settle (desired.lookup name) name want firstErr
      settleAll desired next names firstErr

/-- `Reconciler.Apply`: the returned error, and the reconciler afterwards. The recorded set is
replaced whether or not the runtime calls succeeded. -/
def Reconciler.apply (order : RangeOrder GoString) (r : Reconciler) (s : ContainerSet) :
    Prog runtimeSig (Option GoError × Reconciler) :=
  match s.validate with
  | some e => pure (some (.wrap "containers: invalid set: %w" [] e), r)
  | none => do
    let next := nextMap s
    let firstErr ← stopDropped next (order.visit r.desired.keys) none
    let firstErr ← settleAll r.desired next (next.keys.insertionSort (· ≤ ·)) firstErr
    pure (firstErr, ⟨next⟩)

end WeftAgent.Containers
