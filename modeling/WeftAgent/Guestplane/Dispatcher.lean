import WeftAgent.Containers.Subscriber
import WeftAgent.ExecSession.Sessions
import WeftAgent.Guestplane.Control

/-!
# The dispatcher of the agent

`newGuestplaneDispatcher` of `cmd/weft-microvm-agent/main.go`: each callback translates its control
request into a message on the bus. On the other side of the bus are the two in-guest consumers,
`containers.HandleMessage` and `execsession.DecodeRequest`.
-/

namespace WeftAgent.Guestplane

open WeftAgent.Go WeftAgent.Effect WeftAgent.Pod

/-- `encoding/json` at one type. -/
structure Codec (α : Type) where
  marshal : α → Except GoError GoString
  unmarshal : GoString → Except GoError α
  /-- What was encoded is decoded to the same value. -/
  decodes : ∀ v data, marshal v = .ok data → unmarshal data = .ok v

/-- The payload of a kill message. -/
structure KillPayload where
  containerID : GoString
  signal : GoString

structure Json where
  set : Codec ContainerSet
  kill : Codec KillPayload
  exec : Codec ExecSession.ExecRequest

/-- A message handed to `nc.Publish`. -/
structure Msg where
  subject : GoString
  data : GoString
  deriving DecidableEq

abbrev busSig : Sig := ⟨Msg, fun _ => Option GoError⟩

def publish (subject data : GoString) : Prog busSig (Option GoError) := .call ⟨subject, data⟩ .ret

/-- The common part of the callbacks: the encoded payload is published; `format` is that of the
error for a payload that cannot be encoded. -/
def publishPayload (format : String) (marshalled : Except GoError GoString) (subject : GoString) :
    Prog busSig (Option GoError) :=
  match marshalled with
  | .error e => .ret (some (.wrap format [] e))
  | .ok payload => publish subject payload

section Callbacks

variable (json : Json) (vmID : GoString)

/-- `StopPod`: the empty set. The grace period only goes to the log. -/
def stopPod (_graceSeconds : UInt32) : Prog busSig (Option GoError) :=
  publishPayload "guestplane stop-pod marshal: %w"
    (json.set.marshal { version := containerSetVersion, containers := [] })
    (Containers.subject vmID)

def kill (containerID signal : GoString) : Prog busSig (Option GoError) :=
  publishPayload "guestplane kill marshal: %w"
    (json.kill.marshal { containerID := containerID, signal := signal })
    (Containers.subject vmID ++ lit ".kill")

/-- The request that `Exec` publishes at the time `now` (`time.Now().UnixNano()`). -/
def execRequest (now : Int) (e : ExecInContainer) : ExecSession.ExecRequest :=
  { id := lit "gplane-" ++ lit (toString now)
    target :=
      { kind := lit "exec", container := e.containerId, command := e.command, env := e.env } }

def exec (now : Int) (e : ExecInContainer) : Prog busSig (Option GoError) :=
  publishPayload "guestplane exec marshal: %w" (json.exec.marshal (execRequest now e))
    (ExecSession.subjectOpen vmID)

/-- The set that `Update` publishes. The image stays unset. -/
def updateSet (u : UpdateContainer) : ContainerSet :=
  { version := containerSetVersion
    containers := [{ name := u.containerId, image := [], command := u.command, env := u.env }] }

def update (u : UpdateContainer) : Prog busSig (Option GoError) :=
  publishPayload "guestplane update marshal: %w" (json.set.marshal (updateSet u))
    (Containers.subject vmID)

/-- `newGuestplaneDispatcher`: what a call of each callback does at the time `now`. -/
def newGuestplaneDispatcher (now : Int) : CallbackOp → Prog busSig (Option GoError)
  | .stopPod graceSeconds => stopPod json vmID graceSeconds
  | .kill containerID signal => kill json vmID containerID signal
  | .exec e => exec json vmID now e
  | .update u => update json vmID u

/-- The in-guest consumer of the message's subject accepts the message: it decodes and passes the
consumer's validation. Other subjects have no consumer. -/
def Accepted (m : Msg) : Prop :=
  (m.subject = Containers.subject vmID ∧
    ∃ s, Containers.decodeSet (json.set.unmarshal m.data) = .ok s) ∨
  (m.subject = ExecSession.subjectOpen vmID ∧
    ∃ req, ExecSession.decodeRequest (json.exec.unmarshal m.data) = .ok req)

end Callbacks

end WeftAgent.Guestplane
