import WeftAgent.Go.Basic

/-!
# Exec sessions: requests, the registry and the open subscriber

`pkg/execsession/execsession.go` and the message handler of `subscriber_linux.go`. A session
instance is one registered cancel function; instances are numbered in the order of their `Open`.
The pump goroutine of an instance runs until `Run` returns and then, as a separate step, executes
its deferred `Sessions.Close(req.ID)`.
-/

namespace WeftAgent.ExecSession

open Go

/-! ## Requests -/

def subjectOpen (vmID : GoString) : GoString := lit "weft.exec." ++ vmID ++ lit ".open"

def subjectIn (vmID sid : GoString) : GoString :=
  lit "weft.exec." ++ vmID ++ lit "." ++ sid ++ lit ".in"

def subjectOut (vmID sid : GoString) : GoString :=
  lit "weft.exec." ++ vmID ++ lit "." ++ sid ++ lit ".out"

structure ExecTarget where
  kind : GoString
  container : GoString := []
  command : List GoString := []
  args : List GoString := []
  env : GoMap GoString GoString := ∅
  workDir : GoString := []

structure ExecRequest where
  id : GoString
  target : ExecTarget
  initialCols : UInt16 := 0
  initialRows : UInt16 := 0

def ExecRequest.validate (r : ExecRequest) : Option GoError :=
  if r.id = [] then
    some (.errorf "exec: ID required" [])
  else if r.target.kind = lit "shell" then
    none
  else if r.target.kind = lit "exec" then
    if r.target.container = [] then
      some (.errorf "exec: container required when kind=exec" [])
    else if r.target.command.length = 0 then
      some (.errorf "exec: command required when kind=exec" [])
    else
      none
  else
    some (.errorf "exec: invalid kind %q (shell|exec)" [.str r.target.kind])

/-- `DecodeRequest`, from the outcome of `json.Unmarshal` on the message. -/
def decodeRequest (unmarshalled : Except GoError ExecRequest) : Except GoError ExecRequest :=
  match unmarshalled with
  | .error e => .error (.wrap "decode exec request: %w" [] e)
  | .ok r =>
    match r.validate with
    | some e => .error e
    | none => .ok r

/-! ## The registry -/

/-- A session instance, named by the position of its `Open` among all opens. -/
abbrev Instance := Nat

/-- `Sessions`: the live instance of each session ID. -/
structure Sessions where
  live : GoMap GoString Instance := ∅

namespace Sessions

/-- `Sessions.Open`: the new registry and the cancel functions invoked. -/
def open' (s : Sessions) (id : GoString) (cancel : Instance) : Sessions × List Instance :=
  match s.live.lookup id with
  | some existing => (⟨s.live.insert id cancel⟩, [existing])
  | none => (⟨s.live.insert id cancel⟩, [])

def close (s : Sessions) (id : GoString) : Sessions × List Instance :=
  match s.live.lookup id with
  | some existing => (⟨s.live.erase id⟩, [existing])
  | none => (s, [])

def closeAll (s : Sessions) : Sessions × List Instance :=
  (⟨∅⟩, s.live.entries.map Sigma.snd)

/-- The instance is the live one of some ID. -/
def Registered (s : Sessions) (i : Instance) : Prop := ∃ id, s.live.lookup id = some i

end Sessions

/-! ## The subscriber -/

/-- How far the goroutine of an instance has come. -/
inductive Phase where
  | running
  /-- `Run` has returned, the deferred `Close` has not been executed. -/
  | returned
  | closed
  deriving DecidableEq, Repr

/-- The goroutine of one instance. -/
structure Pump where
  id : GoString
  phase : Phase := .running
  deriving DecidableEq, Repr

/-- Why a cancel function was invoked. -/
inductive Cause where
  /-- `Open` of this later instance found the ID taken. -/
  | superseded (by_ : Instance)
  /-- The deferred `Close` at the end of this instance's goroutine. -/
  | pumpFinished (of : Instance)
  | closeAll
  deriving DecidableEq, Repr

/-- The subscriber: the registry, the goroutines of all instances ever opened, and the history of
cancel invocations. -/
structure Subscriber where
  sessions : Sessions := {}
  pumps : List Pump := []
  cancels : List (Instance × Cause) := []

/-- What can happen next. -/
inductive Event where
  /-- A message on the open subject, with the outcome of `json.Unmarshal`. -/
  | message (unmarshalled : Except GoError ExecRequest)
  /-- `Run` of this instance returns. -/
  | pumpReturns (i : Instance)
  /-- The deferred `Close` of this instance is executed. -/
  | deferredClose (i : Instance)
  /-- The stop function: unsubscribe, then `CloseAll`. -/
  | stop

/-- One step; an event that is not enabled changes nothing. -/
def step (s : Subscriber) : Event → Subscriber
  | .message unmarshalled =>
    match decodeRequest unmarshalled with
    | .error _ => s
    | .ok req =>
      let new := s.pumps.length
      let (sessions, cancelled) := s.sessions.open' req.id new
      { sessions := sessions
        pumps := s.pumps ++ [{ id := req.id }]
        cancels := s.cancels ++ cancelled.map (·, .superseded new) }
  | .pumpReturns i =>
    match s.pumps[i]? with
    | some ⟨id, .running⟩ => { s with pumps := s.pumps.set i ⟨id, .returned⟩ }
    | _ => s
  | .deferredClose i =>
    match s.pumps[i]? with
    | some ⟨id, .returned⟩ =>
      let (sessions, cancelled) := s.sessions.close id
      { sessions := sessions
        pumps := s.pumps.set i ⟨id, .closed⟩
        cancels := s.cancels ++ cancelled.map (·, .pumpFinished i) }
    | _ => s
  | .stop =>
    let (sessions, cancelled) := s.sessions.closeAll
    { s with sessions := sessions, cancels := s.cancels ++ cancelled.map (·, .closeAll) }

/-- The state after a sequence of events, from the subscriber that `NewSubscriber` builds. -/
def runEvents (evs : List Event) : Subscriber := evs.foldl step {}

end WeftAgent.ExecSession
