import WeftAgent.ExecSession.Pump

/-!
# Exec sessions that share an ID

The subscriber of `subscriber_linux.go` with a `Run` in progress for each instance. All instances
use one connection: a message on an in subject is queued for every live subscription that it
matches, and each subscription calls back on its own queue. Opening an ID anew cancels the instance
that is registered for it, and starts the goroutine of the new one without waiting.
-/

namespace WeftAgent.ExecSession

open WeftAgent.Go WeftAgent.Effect WeftAgent.Fs

/-- The goroutine of an instance. -/
structure Worker where
  request : ExecRequest
  system : System
  /-- The messages its subscription has not called back on, each with its number. -/
  queue : List (Nat × GoString) := []
  /-- The deferred `Close` has been executed. -/
  closed : Bool := false

/-- What can be seen of the instances, with their session ID. -/
inductive Happening where
  /-- `pty.Start` succeeded. -/
  | started (i : Instance) (id : GoString)
  | published (i : Instance) (id subject data : GoString)
  /-- The in callback was invoked on the message with this number. -/
  | handled (i : Instance) (id : GoString) (msg : Nat)
  deriving DecidableEq

structure Agent where
  sessions : Sessions := {}
  /-- The workers of all instances ever opened, by instance. -/
  workers : List Worker := []
  /-- How many messages on in subjects have arrived. -/
  arrived : Nat := 0
  history : List Happening := []

inductive AgentEvent where
  /-- A message on the open subject, with the outcome of `json.Unmarshal` and the files that
  `buildCommand` finds. -/
  | message (unmarshalled : Except GoError ExecRequest) (tree : Tree)
  /-- A step of the goroutines or the child of this instance. -/
  | session (i : Instance) (e : SessionEvent)
  /-- A message arrives on an in subject. -/
  | arrival (subject data : GoString)
  /-- The subscription of this instance calls back on the first message of its queue. -/
  | callback (i : Instance)
  | deferredClose (i : Instance)
  /-- The stop function: `CloseAll`. -/
  | stop

/-- The steps of a session that do not come from the rest of the agent. -/
def SessionEvent.own : SessionEvent → Bool
  | .cancel | .inFrame _ => false
  | .main _ | .childWrite _ | .childExit _ | .waitReturns | .readerRead _ | .readerPublish _ =>
    true

/-- `Run` has returned. -/
def System.returned (s : System) : Bool :=
  match s.main with
  | .ret _ => true
  | .call _ _ => false

/-- The next call of `Run` is `pty.Start`. -/
def System.startsPty (s : System) : Bool :=
  match s.main with
  | .call (.inr (.ptyStart _)) _ => true
  | _ => false

/-- The goroutines of the session have returned: that of `Run` and the reader, if there is one. -/
def System.Finished (s : System) : Prop :=
  s.returned = true ∧ (s.reader = .absent ∨ s.reader = .returned)

instance (s : System) : Decidable s.Finished := by
  unfold System.Finished
  infer_instance

/-- What a step from `s` to `s'` adds to the history. -/
def observed (i : Instance) (id : GoString) (s s' : System) : List Happening :=
  (if s.child = .absent ∧ s'.child ≠ .absent then [.started i id] else []) ++
    (s'.published.drop s.published.length).map fun m => .published i id m.1 m.2

namespace Agent

/-- A step of one instance. -/
def advance (a : Agent) (i : Instance) (e : SessionEvent) : Agent :=
  match a.workers[i]? with
  | none => a
  | some w =>
    { a with
      workers := a.workers.set i { w with system := w.system.step e }
      history := a.history ++ observed i w.request.id w.system (w.system.step e) }

/-- The cancel functions of these instances are invoked. -/
def cancelAll (a : Agent) (is : List Instance) : Agent :=
  is.foldl (fun a i => a.advance i .cancel) a

/-- The message is queued if the subscription of the instance is live and matches. -/
def enqueue (vmID : GoString) (msg : Nat) (subject data : GoString) (w : Worker) : Worker :=
  if w.system.subscription = .live ∧ (PumpConfig.mk vmID w.request).receives subject then
    { w with queue := w.queue ++ [(msg, data)] }
  else w

/-- The in callback of an instance is invoked on a message. -/
def callback (a : Agent) (i : Instance) (w : Worker) (msg : Nat) (data : GoString)
    (queue : List (Nat × GoString)) : Agent :=
  { a with
    workers := a.workers.set i { w with queue := queue }
    history := a.history ++ [Happening.handled i w.request.id msg] }.advance i (.inFrame data)

/-- One step; an event that is not enabled changes nothing. -/
def step (vmID : GoString) (a : Agent) : AgentEvent → Agent
  | .message unmarshalled tree =>
    match decodeRequest unmarshalled with
    | .error _ => a
    | .ok req =>
      let (sessions, cancelled) := a.sessions.open' req.id a.workers.length
      let worker : Worker := { request := req, system := (PumpConfig.mk vmID req).system tree }
      { a with sessions := sessions, workers := a.workers ++ [worker] }.cancelAll cancelled
  | .session i e => if e.own then a.advance i e else a
  | .arrival subject data =>
    { a with
      workers := a.workers.map (enqueue vmID a.arrived subject data)
      arrived := a.arrived + 1 }
  | .callback i =>
    match a.workers[i]? with
    | none => a
    | some w =>
      match w.queue with
      | [] => a
      | (msg, data) :: queue =>
        if w.system.subscription = .live then a.callback i w msg data queue else a
  | .deferredClose i =>
    match a.workers[i]? with
    | none => a
    | some w =>
      if w.system.returned ∧ w.closed = false then
        let (sessions, cancelled) := a.sessions.close w.request.id
        { a with
          sessions := sessions
          workers := a.workers.set i { w with closed := true } }.cancelAll cancelled
      else a
  | .stop =>
    let (sessions, cancelled) := a.sessions.closeAll
    { a with sessions := sessions }.cancelAll cancelled

/-- The agent after a sequence of events, from the subscriber that `NewSubscriber` builds. -/
def after (vmID : GoString) (evs : List AgentEvent) : Agent := evs.foldl (step vmID) {}

/-- No instance newer than `j` has been started for this session ID, and every older one that has
been is finished. -/
def ClearFor (a : Agent) (j : Instance) (id : GoString) : Prop :=
  ∀ p ∈ a.workers.zipIdx, p.1.request.id = id → p.1.system.child ≠ .absent →
    p.2 ≤ j ∧ (p.2 < j → p.1.system.Finished)

instance (a : Agent) (j : Instance) (id : GoString) : Decidable (a.ClearFor j id) := by
  unfold ClearFor
  infer_instance

/-- The step is not a `pty.Start` while another instance of the session is in the way. -/
def StartsAlone (a : Agent) (ev : AgentEvent) : Prop :=
  match ev with
  | .session j (.main _) =>
    match a.workers[j]? with
    | some w => w.system.startsPty = true → a.ClearFor j w.request.id
    | none => True
  | _ => True

instance (a : Agent) (ev : AgentEvent) : Decidable (a.StartsAlone ev) := by
  unfold StartsAlone
  split
  · split <;> infer_instance
  · infer_instance

end Agent

/-- The second happening is not a frame of an older instance than the one the first one starts. -/
def InOrder : Happening → Happening → Prop
  | .started j id, .published i id' _ _ => ¬(i < j ∧ id' = id)
  | _, _ => True

/-- Once an instance has been started, no older one of the same session publishes. -/
def NoStaleFrame (history : List Happening) : Prop := history.Pairwise InOrder

/-- No message is handled by two instances of a session. -/
def OneHandler (history : List Happening) : Prop :=
  ∀ i j id msg, .handled i id msg ∈ history → .handled j id msg ∈ history → i = j

end WeftAgent.ExecSession
