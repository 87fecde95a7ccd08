import WeftAgent.Effect.Prog
import WeftAgent.Go.Basic

/-!
# Control requests of the guest pod plane

The control messages of `guestv1` and `dispatchControl` of `pkg/guestplane/client.go`, which routes
a request to the callback of the dispatcher for its variant and acknowledges it in any case.
-/

namespace WeftAgent.Guestplane

open WeftAgent.Go WeftAgent.Effect

/-! ## Messages -/

structure KillContainer where
  containerId : GoString
  signal : GoString := []

structure ExecInContainer where
  containerId : GoString
  command : List GoString := []
  env : GoMap GoString GoString := ∅
  tty : Bool := false

structure UpdateContainer where
  containerId : GoString
  command : List GoString := []
  env : GoMap GoString GoString := ∅

/-- The `op` of a `ControlRequest`. -/
inductive ControlOp where
  | stopPod (graceSeconds : UInt32)
  | kill (k : KillContainer)
  | exec (e : ExecInContainer)
  | update (u : UpdateContainer)
  /-- No variant that the agent knows; `typeName` is what `%T` prints for it. -/
  | unknown (typeName : GoString)

structure ControlRequest where
  callId : UInt64
  op : ControlOp

structure ControlResponse where
  callId : UInt64
  /-- Empty on success. -/
  error : GoString := []
  deriving DecidableEq

/-! ## The dispatcher -/

/-- A call of one of the callbacks of the `Dispatcher`. -/
inductive CallbackOp where
  | stopPod (graceSeconds : UInt32)
  | kill (containerID signal : GoString)
  | exec (e : ExecInContainer)
  | update (u : UpdateContainer)

/-- The signature of the callbacks: every one returns an error, `none` for nil. -/
abbrev callbackSig : Sig := ⟨CallbackOp, fun _ => Option GoError⟩

/-- `Dispatcher`: which of the callbacks are set. -/
structure Dispatcher where
  stopPod : Bool := false
  kill : Bool := false
  exec : Bool := false
  update : Bool := false

def unwired : GoString :=
  lit "guestplane: control dispatch not yet routed to in-guest reconciler"

/-- The callback `dispatchControl` calls for an `op`, or the text it answers with instead. -/
def route (dp : Dispatcher) : ControlOp → Except GoString CallbackOp
  | .stopPod graceSeconds => if dp.stopPod then .ok (.stopPod graceSeconds) else .error unwired
  | .kill k =>
    if dp.kill then
      let sig := if k.signal = [] then lit "SIGTERM" else k.signal
      .ok (.kill k.containerId sig)
    else .error unwired
  | .exec e => if dp.exec then .ok (.exec e) else .error unwired
  | .update u => if dp.update then .ok (.update u) else .error unwired
  | .unknown typeName => .error (lit "guestplane: unknown ControlRequest op " ++ typeName)

/-- `dispatchControl`; `errorText` is the `Error` method of the errors the callbacks return. -/
def dispatchControl (errorText : GoError → GoString) (cr : ControlRequest)
    (dp : Option Dispatcher) : Prog callbackSig ControlResponse :=
  match dp with
  | none => .ret { callId := cr.callId, error := unwired }
  | some dp =>
    match route dp cr.op with
    | .error text => .ret { callId := cr.callId, error := text }
    | .ok op => .call op fun err =>
      match err with
      | some e => .ret { callId := cr.callId, error := errorText e }
      | none => .ret { callId := cr.callId }

end WeftAgent.Guestplane
