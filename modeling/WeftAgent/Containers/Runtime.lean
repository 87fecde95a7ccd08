import WeftAgent.Containers.Reconciler

/-!
# Runtimes and runs

The in-memory runtime of `pkg/containers/runtime_stub.go`, the same runtime with calls that fail,
and the runs of publishes that a reconciler applies over it.
-/

namespace WeftAgent.Containers

open WeftAgent.Go WeftAgent.Effect WeftAgent.Pod

structure StubRuntime where
  pulled : GoMap GoString Unit := ∅
  started : GoMap GoString WorkloadContainer := ∅

/-- The methods of `StubRuntime`; all of them succeed. -/
def StubRuntime.serve : Handler runtimeSig StubRuntime
  | .pull image, rt => (none, { rt with pulled := rt.pulled.insert image () })
  | .start c, rt => (none, { rt with started := rt.started.insert c.name c })
  | .stop name, rt => (none, { rt with started := rt.started.erase name })

/-- What becomes of a call. -/
inductive Outcome where
  | ok
  /-- The call returns an error; nothing is started, and the containers `lost` are not running any
  more. -/
  | fail (e : GoError) (lost : List GoString)

/-- The runtime without some of its containers. -/
def StubRuntime.lose (rt : StubRuntime) (lost : List GoString) : StubRuntime :=
  { rt with started := lost.foldl (fun running name => running.erase name) rt.started }

/-- A runtime whose calls have the outcomes listed; those after the list succeed. -/
def faulty : Handler runtimeSig (StubRuntime × List Outcome)
  | op, (rt, []) => ((StubRuntime.serve op rt).1, (StubRuntime.serve op rt).2, [])
  | op, (rt, .ok :: outcomes) =>
    ((StubRuntime.serve op rt).1, (StubRuntime.serve op rt).2, outcomes)
  | _, (rt, .fail e lost :: outcomes) => (some e, rt.lose lost, outcomes)

/-- A reconciler and its runtime. -/
structure Machine where
  reconciler : Reconciler := {}
  runtime : StubRuntime := {}

/-- A published set, with the choices left to the environment. -/
structure Publish where
  set : ContainerSet
  order : RangeOrder GoString := .listed
  /-- The outcomes of the runtime calls, in the order in which they are issued. -/
  outcomes : List Outcome := []

namespace Machine

/-- The machine after a publish. -/
def publish (m : Machine) (p : Publish) : Machine :=
  let r := run faulty (m.reconciler.apply p.order p.set) (m.runtime, p.outcomes)
  ⟨r.1.2, r.2.1⟩

/-- The runtime calls of a publish with their answers. -/
def calls (m : Machine) (p : Publish) : List (Σ _ : RuntimeOp, Option GoError) :=
  log faulty (m.reconciler.apply p.order p.set) (m.runtime, p.outcomes)

def FaultFree (m : Machine) (p : Publish) : Prop := ∀ call ∈ m.calls p, call.2 = none

instance (m : Machine) (p : Publish) : Decidable (m.FaultFree p) :=
  inferInstanceAs (Decidable (∀ call ∈ m.calls p, call.2 = none))

end Machine

end WeftAgent.Containers
