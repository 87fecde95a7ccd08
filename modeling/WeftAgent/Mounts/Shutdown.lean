import WeftAgent.Mounts.Mounts

/-!
# Share mounts at shutdown

The handlers of share-mount messages and the shutdown sequence of `run`
(`cmd/weft-microvm-agent/main.go`) work on one registry. `Apply` and `UnmountAll` hold its lock, so
they are single steps; between the delivery of a message and its `Apply` the shutdown can go on.
Closing the connection stops the deliveries, and does not wait for handlers that are running.
-/

namespace WeftAgent.Mounts

open WeftAgent.Go

/-! ## `UnmountAll` -/

/-- What `UnmountAll` has done so far. -/
structure Teardown where
  registry : Registry
  /-- The shares that could not be detached; the registry has dropped them all the same. -/
  stuck : List Mounted := []
  first : Option GoError := none

/-- One share is taken down; `errs` is the outcome of its `Unmount`. -/
def Teardown.unmount (errs : GoString → Option GoError) (d : Teardown) (id : GoString) :
    Teardown :=
  match d.registry.active.lookup id with
  | none => d
  | some m =>
    { registry := ⟨d.registry.active.erase id⟩
      stuck := if (errs id).isSome then d.stuck ++ [m] else d.stuck
      first := d.first.or (errs id) }

/-- `Registry.UnmountAll`: best-effort, with the first error as its result. -/
def Registry.unmountAll (order : RangeOrder GoString) (errs : GoString → Option GoError)
    (r : Registry) : Teardown :=
  (order.visit r.active.keys).foldl (Teardown.unmount errs) { registry := r }

/-! ## The agent -/

/-- How far the shutdown sequence has come. -/
inductive Phase where
  | serving
  /-- The NATS connections are closed. -/
  | closed
  /-- `UnmountAll` has returned. -/
  | unmounted
  deriving DecidableEq, Repr

structure Agent where
  registry : Registry
  /-- The messages whose handlers are running and have not taken the lock yet. -/
  inFlight : List Message := []
  phase : Phase := .serving
  stuck : List Mounted := []

/-- The shares that are mounted. -/
def Agent.active (s : Agent) : List Mounted := s.registry.active.entries.map Sigma.snd ++ s.stuck

inductive Event where
  | deliver (msg : Message)
  /-- A handler takes the lock and finishes. -/
  | handle (i : Nat) (unmountErr mountErr : Option GoError)
  | close
  | unmountAll (order : RangeOrder GoString) (errs : GoString → Option GoError)

def Agent.step (s : Agent) : Event → Agent
  | .deliver msg =>
    if s.phase = .serving then { s with inFlight := s.inFlight ++ [msg] } else s
  | .handle i unmountErr mountErr =>
    match s.inFlight[i]? with
    | none => s
    | some msg =>
      { s with
        registry := (handleMessage unmountErr mountErr s.registry msg).1
        inFlight := s.inFlight.eraseIdx i }
  | .close => if s.phase = .serving then { s with phase := .closed } else s
  | .unmountAll order errs =>
    if s.phase = .closed then
      let d := s.registry.unmountAll order errs
      { s with registry := d.registry, phase := .unmounted, stuck := d.stuck }
    else s

/-- The agent after some events, from the registry with the mounts made at boot. -/
def after (boot : Registry) (es : List Event) : Agent := es.foldl Agent.step { registry := boot }

/-- The message makes its handler mount a share. -/
def CarriesMount (msg : Message) : Prop :=
  ∃ m, msg = .ok m ∧ m.validate = none ∧ m.action ≠ mountActionUnmount

end WeftAgent.Mounts
