import WeftAgent.Guestplane.Control

/-!
# One session of the guest pod plane

`runOnce` of `pkg/guestplane/client.go` as three goroutines on one stream: the main one attaches,
sends the hello, waits for its acknowledgement and then for the end of the session; the heartbeat
sends the pod's status; the receiver answers control requests. A `Send` is in progress from the step
that hands the frame over to the step in which the call returns, and so is `CloseSend`. What the
calls of the stream and the callbacks return is open.
-/

namespace WeftAgent.Guestplane

open WeftAgent.Go WeftAgent.Effect

/-! ## Frames -/

structure GuestHello where
  podId : GoString
  initVersion : GoString
  kernel : GoString
  reportedCid : UInt32

structure PodStatus where
  podId : GoString
  uptimeMs : UInt64

/-- A frame that the agent sends. -/
inductive GuestFrame where
  | hello (h : GuestHello)
  | podStatus (p : PodStatus)
  | controlResp (r : ControlResponse)

/-- A frame that the host sends. -/
inductive HostFrame where
  | helloAck
  | controlReq (cr : ControlRequest)
  /-- Any other body; `typeName` is what `%T` prints for it. -/
  | other (typeName : GoString)

def HostFrame.typeName : HostFrame → GoString
  | .helloAck => lit "*guestv1.GuestFrame_HelloAck"
  | .controlReq _ => lit "*guestv1.GuestFrame_ControlReq"
  | .other typeName => typeName

/-- The fields of `Config` that a session reads. -/
structure Config where
  hostCID : UInt32
  port : UInt32
  podID : GoString
  kernelInfo : GoString
  initVersion : GoString
  /-- In nanoseconds; no heartbeats if it is not positive. -/
  heartbeatTick : Int
  dispatcher : Option Dispatcher
  /-- The `Error` method of the errors the callbacks return. -/
  errorText : GoError → GoString

/-! ## The goroutines -/

inductive MainPhase where
  | connecting
  | attached
  | sendingHello (h : GuestHello)
  | awaitingAck
  | selecting
  /-- `CloseSend` is in progress. -/
  | closing
  | returned (err : Option GoError)

inductive HeartbeatPhase where
  /-- Not started. -/
  | absent
  | waiting
  | sending (p : PodStatus)
  | stopped

inductive ReceiverPhase where
  /-- Not started. -/
  | absent
  | receiving
  /-- `dispatchControl` is being executed on the request; `rest` is what is left of it. -/
  | dispatching (cr : ControlRequest) (rest : Prog callbackSig ControlResponse)
  | sending (cr : ControlRequest) (resp : ControlResponse)
  /-- The response to the request could not be sent; the goroutine has returned. -/
  | failed (cr : ControlRequest)
  /-- `Recv` returned an error; the goroutine has returned. -/
  | stopped

/-- A session: the goroutines, what they share, and the history. -/
structure Session where
  main : MainPhase := .connecting
  heartbeat : HeartbeatPhase := .absent
  receiver : ReceiverPhase := .absent
  /-- The context of the session is done. -/
  cancelled : Bool := false
  errCh : List (Option GoError) := []
  /-- The frames of the host that have not been received. -/
  incoming : List HostFrame
  received : List HostFrame := []
  /-- The frames `Send` was called with, in the order of the calls. -/
  handed : List GuestFrame := []
  /-- The frames for which `Send` returned nil, in the order of the returns. -/
  sent : List GuestFrame := []
  /-- The callbacks invoked, with the errors they returned. -/
  invoked : List (CallbackOp × Option GoError) := []

/-- The outcome of `DialWithRetry`, `grpc.NewClient` and `Attach`. -/
inductive ConnectOutcome where
  | dialFailed (e : GoError)
  | clientFailed (e : GoError)
  | attachFailed (e : GoError)
  | attached

inductive MainEvent where
  | connect (outcome : ConnectOutcome)
  | sendHello (reportedCid : UInt32)
  | sendReturns (err : Option GoError)
  /-- `Recv` returns this error, or the next frame of the host. -/
  | recvReturns (err : Option GoError)
  /-- The `select` takes `ctx.Done()`. -/
  | ctxDone
  | closeReturns
  /-- The `select` takes `errCh`. -/
  | errReady

inductive HeartbeatEvent where
  | tick (uptimeMs : UInt64)
  | sendReturns (err : Option GoError)
  /-- The `select` takes `heartbeatCtx.Done()`. -/
  | ctxDone

inductive ReceiverEvent where
  /-- `Recv` returns this error, or the next frame of the host. -/
  | recvReturns (err : Option GoError)
  | callbackReturns (err : Option GoError)
  | sendResponse
  | sendReturns (err : Option GoError)

inductive Event where
  | cancel
  | main (ev : MainEvent)
  | heartbeat (ev : HeartbeatEvent)
  | receiver (ev : ReceiverEvent)

def ctxErr : GoError := .errorf "context canceled" []

def ioEOF : GoError := .errorf "EOF" []

/-- `errors.Is(err, io.EOF)`. -/
def isEOF : GoError → Bool
  | .wrap _ _ e => isEOF e
  | e => e = ioEOF

variable (cfg : Config)

/-- The main goroutine after its first `Recv` has returned a frame. -/
def Session.acknowledge (s : Session) : HostFrame → Session
  | .helloAck =>
    { s with
      main := .selecting
      heartbeat := if 0 < cfg.heartbeatTick then .waiting else .absent
      receiver := .receiving }
  | frame =>
    { s with
      main := .returned (some (.errorf "expected GuestHelloAck, got %T" [.str frame.typeName])) }

/-- A step of the main goroutine. Here and below an event that is not enabled changes nothing. -/
def mainStep (s : Session) : MainEvent → Session
  | .connect outcome =>
    match s.main, outcome with
    | .connecting, .dialFailed e =>
      let args : List FmtArg := [.int cfg.hostCID.toNat, .int cfg.port.toNat]
      { s with main := .returned (some (.wrap "dial vsock (%d,%d): %w" args e)) }
    | .connecting, .clientFailed e =>
      { s with main := .returned (some (.wrap "grpc client: %w" [] e)) }
    | .connecting, .attachFailed e => { s with main := .returned (some (.wrap "Attach: %w" [] e)) }
    | .connecting, .attached => { s with main := .attached }
    | _, _ => s
  | .sendHello reportedCid =>
    match s.main with
    | .attached =>
      let hello : GuestHello :=
        { podId := cfg.podID, initVersion := cfg.initVersion, kernel := cfg.kernelInfo,
          reportedCid := reportedCid }
      { s with main := .sendingHello hello, handed := s.handed ++ [.hello hello] }
    | _ => s
  | .sendReturns err =>
    match s.main, err with
    | .sendingHello _, some e => { s with main := .returned (some (.wrap "send hello: %w" [] e)) }
    | .sendingHello hello, none =>
      { s with main := .awaitingAck, sent := s.sent ++ [.hello hello] }
    | _, _ => s
  | .recvReturns err =>
    match s.main, err, s.incoming with
    | .awaitingAck, some e, _ =>
      { s with main := .returned (some (.wrap "recv hello-ack: %w" [] e)) }
    | .awaitingAck, none, frame :: frames =>
      { s with incoming := frames, received := s.received ++ [frame] }.acknowledge cfg frame
    | _, _, _ => s
  | .ctxDone =>
    match s.main with
    | .selecting => if s.cancelled then { s with main := .closing } else s
    | _ => s
  | .closeReturns =>
    match s.main with
    | .closing => { s with main := .returned (some ctxErr) }
    | _ => s
  | .errReady =>
    match s.main, s.errCh with
    | .selecting, err :: errs => { s with main := .returned err, errCh := errs }
    | _, _ => s

/-- A step of the heartbeat goroutine. Its context is done when that of the session is or `runOnce`
has returned. -/
def heartbeatStep (s : Session) : HeartbeatEvent → Session
  | .tick uptimeMs =>
    match s.heartbeat with
    | .waiting =>
      let status : PodStatus := { podId := cfg.podID, uptimeMs := uptimeMs }
      { s with heartbeat := .sending status, handed := s.handed ++ [.podStatus status] }
    | _ => s
  | .sendReturns err =>
    match s.heartbeat, err with
    | .sending status, none =>
      { s with heartbeat := .waiting, sent := s.sent ++ [.podStatus status] }
    | .sending _, some e =>
      { s with
        heartbeat := .stopped
        errCh := s.errCh ++ [some (.wrap "send pod-status: %w" [] e)] }
    | _, _ => s
  | .ctxDone =>
    match s.heartbeat, s.main with
    | .waiting, .returned _ => { s with heartbeat := .stopped }
    | .waiting, _ => if s.cancelled then { s with heartbeat := .stopped } else s
    | _, _ => s

/-- What the receiver does with a frame. -/
def afterFrame : HostFrame → ReceiverPhase
  | .controlReq cr => .dispatching cr (dispatchControl cfg.errorText cr cfg.dispatcher)
  | _ => .receiving

/-- A step of the receiver goroutine. -/
def receiverStep (s : Session) : ReceiverEvent → Session
  | .recvReturns err =>
    match s.receiver, err, s.incoming with
    | .receiving, some e, _ =>
      let err := if isEOF e then none else some (.wrap "recv: %w" [] e)
      { s with receiver := .stopped, errCh := s.errCh ++ [err] }
    | .receiving, none, frame :: frames =>
      { s with
        receiver := afterFrame cfg frame
        incoming := frames
        received := s.received ++ [frame] }
    | _, _, _ => s
  | .callbackReturns err =>
    match s.receiver with
    | .dispatching cr (.call op k) =>
      { s with receiver := .dispatching cr (k err), invoked := s.invoked ++ [(op, err)] }
    | _ => s
  | .sendResponse =>
    match s.receiver with
    | .dispatching cr (.ret resp) =>
      { s with receiver := .sending cr resp, handed := s.handed ++ [.controlResp resp] }
    | _ => s
  | .sendReturns err =>
    match s.receiver, err with
    | .sending _ resp, none =>
      { s with receiver := .receiving, sent := s.sent ++ [.controlResp resp] }
    | .sending cr _, some e =>
      { s with
        receiver := .failed cr
        errCh := s.errCh ++ [some (.wrap "send control-resp: %w" [] e)] }
    | _, _ => s

def step (s : Session) : Event → Session
  | .cancel => { s with cancelled := true }
  | .main ev => mainStep cfg s ev
  | .heartbeat ev => heartbeatStep cfg s ev
  | .receiver ev => receiverStep cfg s ev

/-- The session after a sequence of events, from the call of `runOnce`; `incoming` are the frames
the host sends. -/
def runOnce (incoming : List HostFrame) (evs : List Event) : Session :=
  evs.foldl (step cfg) { incoming := incoming }

/-! ## Calls in progress -/

inductive StreamCall where
  | send (f : GuestFrame)
  | closeSend

def MainPhase.calls : MainPhase → List StreamCall
  | .sendingHello h => [.send (.hello h)]
  | .closing => [.closeSend]
  | _ => []

def HeartbeatPhase.calls : HeartbeatPhase → List StreamCall
  | .sending p => [.send (.podStatus p)]
  | _ => []

def ReceiverPhase.calls : ReceiverPhase → List StreamCall
  | .sending _ resp => [.send (.controlResp resp)]
  | _ => []

/-- The calls of `Send` and `CloseSend` that are in progress on the stream. -/
def Session.inProgress (s : Session) : List StreamCall :=
  s.main.calls ++ s.heartbeat.calls ++ s.receiver.calls

end WeftAgent.Guestplane
