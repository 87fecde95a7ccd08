import WeftAgent.Containers.Reconciler
import WeftAgent.Effect.Loop

/-!
# The calls of a reconciler

A run of applies over any runtime, and the calls of one apply grouped by the container they are for.
-/

namespace WeftAgent.Containers

open WeftAgent.Go WeftAgent.Effect WeftAgent.Pod

/-- A runtime call with its answer. -/
abbrev Call := Σ _ : RuntimeOp, Option GoError

variable {S : Type}

/-- The applies of published sets one after the other, each with the order in which it ranges over
the recorded map. -/
def applyAll :
    List (ContainerSet × RangeOrder GoString) → Reconciler → Prog runtimeSig Reconciler :=
  loop fun (s, order) r => do
    let (_, r') ← r.apply order s
    pure r'

/-- A round of the first loop of `Apply`. -/
def stopRound (next : GoMap GoString WorkloadContainer) (name : GoString)
    (firstErr : Option GoError) : Prog runtimeSig (Option GoError) :=
  if name ∈ next then pure firstErr
  else do
    let err ← stop name
    pure (record firstErr err)

/-- A round of the second loop of `Apply`. -/
def settleRound (desired next : GoMap GoString WorkloadContainer) (name : GoString)
    (firstErr : Option GoError) : Prog runtimeSig (Option GoError) :=
  match next.lookup name with
  | none => pure firstErr
  | some want => settle (desired.lookup name) name want firstErr

/-- The calls of an apply of a valid set, grouped by the name whose turn it is. -/
def Reconciler.rounds (h : Handler runtimeSig S) (order : RangeOrder GoString) (r : Reconciler)
    (s : ContainerSet) (st : S) : List (GoString × List Call) :=
  let next := nextMap s
  let dropped := order.visit r.desired.keys
  let stopped := run h (stopDropped next dropped none) st
  Effect.rounds h (stopRound next) dropped none st ++
    Effect.rounds h (settleRound r.desired next) (next.keys.insertionSort (· ≤ ·)) stopped.1
      stopped.2

/-- The calls for one name. -/
def callsFor (n : GoString) (rounds : List (GoString × List Call)) : List Call :=
  (rounds.filter fun round => round.1 = n).flatMap Prod.snd

/-- The answer to the pull among some calls, if there is one. -/
def pullAnswer (calls : List Call) : Option (Option GoError) :=
  calls.findSome? fun
    | ⟨.pull _, err⟩ => some err
    | _ => none

/-- The error under which a failed call is reported: that of a pull names the image. -/
def reported : RuntimeOp → GoError → GoError
  | .pull image, e => .wrap "pull %s: %w" [.str image] e
  | _, e => e

end WeftAgent.Containers
