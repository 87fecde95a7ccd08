import WeftAgent.SshKeys.Subscriber
import WeftAgent.Sshd.Server
import WeftAgent.Sshd.Userauth

/-!
# The connections of the embedded SSH server

`Serve` and `handleConn` of `pkg/sshd/server.go` beside the key subscriber whose store they ask. A
connection is in its handshake, then serves channels, then is closed; each of its calls, each
channel, each channel request and each step of the subscriber is an event of its own, so that a
history is any interleaving of them. No panic is recovered: one in a session ends the agent, and so
does one in the parts of a handshake that are not modelled.
-/

namespace WeftAgent.Sshd

open WeftAgent.Go WeftAgent.Effect WeftAgent.Fs WeftAgent.SshKeys

variable {S : Type}

/-- The request loop of a session channel. -/
inductive SessionState where
  | running (st : Session)
  | ended

inductive Phase where
  | handshake (prog : Prog authSig AuthResult)
  | serving (perms : Permissions) (sessions : List SessionState)
  | closed

structure Conn where
  /-- The session identifier that the key exchange gave. -/
  sessionID : GoString
  phase : Phase

/-- What the server does on a connection that is served. -/
inductive ConnEffect where
  | reject (channelType : GoString) (message : String)
  | session (e : Effect)

structure AgentConfig where
  lib : AuthLib
  /-- `json.Unmarshal` into a `KeySet`. -/
  unmarshal : GoString → Except GoError KeySet
  authorizedKeysPath : GoString
  host : Host

/-- The part that the key subscriber is set up with. -/
def AgentConfig.keys (cfg : AgentConfig) : SshKeys.Config :=
  ⟨cfg.lib.toSshLib, cfg.unmarshal, cfg.authorizedKeysPath⟩

structure Agent (S : Type) where
  subscriber : Subscriber S
  listening : Bool := true
  conns : List Conn := []
  /-- What was done on which connection, oldest first. -/
  log : List (Nat × ConnEffect) := []
  crashed : Bool := false

/-- The store that the server asks; it is the one that the subscriber replaces. -/
def Agent.store (a : Agent S) : AuthStore := a.subscriber.authStore.getD {}

/-- The network's part of the answer to a call. -/
structure NetAnswer where
  read : Except ReadError GoString := .error .eof
  write : Option GoError := none

inductive AgentEvent where
  | subscriber (e : SshKeys.Event)
  /-- `Accept` returns a connection, whose keys have been exchanged, or an error. -/
  | accept (result : Except GoError GoString)
  /-- The next call of a handshake. -/
  | handshake (i : Nat) (net : NetAnswer)
  /-- The client opens a channel; `acceptErr` is the answer of `Accept`. -/
  | channel (i : Nat) (channelType : GoString) (acceptErr : Option GoError)
  /-- A request on the `j`-th session channel of a connection. -/
  | request (i j : Nat) (req : Request)
  /-- The connection is gone. -/
  | drop (i : Nat)
  /-- A panic in the `ssh` package, while the keys of a connection are exchanged or later. -/
  | libraryPanics

/-- The answer to a call of a handshake. -/
def answer (lib : SshLib) (store : AuthStore) (net : NetAnswer) : (op : AuthOp) → op.Ans
  | .readPacket => net.read
  | .writePacket _ => net.write
  | .publicKeyCallback key => publicKeyCallback lib store key

/-- The connection once `NewServerConn` has come to the given point. -/
def Phase.of : Prog authSig AuthResult → Phase
  | .ret (.ok perms) => .serving perms []
  | .ret (.error _) => .closed
  | prog => .handshake prog

def sessionChannel : GoString := lit "session"

/-- One round of the loop of `handleConn` over the channels: the sessions afterwards, and what was
done. -/
def handleChannel (sessions : List SessionState) (channelType : GoString)
    (acceptErr : Option GoError) : List SessionState × List ConnEffect :=
  if channelType ≠ sessionChannel then
    (sessions, [.reject channelType "weft-microvm-agent only supports session channels"])
  else
    match acceptErr with
    | some _ => (sessions, [])
    | none => (sessions ++ [.running {}], [])

def Agent.setPhase (a : Agent S) (i : Nat) (phase : Phase) : Agent S :=
  { a with conns := a.conns.modify i ({ · with phase := phase }) }

def Agent.note (a : Agent S) (i : Nat) (effects : List ConnEffect) : Agent S :=
  { a with log := a.log ++ effects.map (i, ·) }

/-- The call that a connection in its handshake is about to make. -/
def Agent.pendingCall (a : Agent S) (i : Nat) :
    Option (Σ op : AuthOp, op.Ans → Prog authSig AuthResult) :=
  match a.conns[i]? with
  | some ⟨_, .handshake (.call op k)⟩ => some ⟨op, k⟩
  | _ => none

/-- The permissions and the sessions of a connection that is served. -/
def Agent.served (a : Agent S) (i : Nat) : Option (Permissions × List SessionState) :=
  match a.conns[i]? with
  | some ⟨_, .serving perms sessions⟩ => some (perms, sessions)
  | _ => none

/-- A round of the loop of `Serve`. -/
def Agent.accept (lib : AuthLib) (a : Agent S) (result : Except GoError GoString) : Agent S :=
  if a.listening then
    match result with
    | .error _ => { a with listening := false }
    | .ok sessionID =>
      let handshake := serverHandshake config lib sessionID
      { a with conns := a.conns ++ [⟨sessionID, .handshake handshake⟩] }
  else a

def Agent.advance (lib : AuthLib) (a : Agent S) (i : Nat) (net : NetAnswer) : Agent S :=
  match a.pendingCall i with
  | some ⟨op, k⟩ => a.setPhase i (.of (k (answer lib.toSshLib a.store net op)))
  | none => a

def Agent.openChannel (a : Agent S) (i : Nat) (channelType : GoString)
    (acceptErr : Option GoError) : Agent S :=
  match a.served i with
  | some (perms, sessions) =>
    let (sessions, effects) := handleChannel sessions channelType acceptErr
    (a.setPhase i (.serving perms sessions)).note i effects
  | none => a

/-- A request that arrives on the session `j` of a connection. -/
def Agent.request (host : Host) (a : Agent S) (i j : Nat) (req : Request) : Agent S :=
  match a.served i with
  | some (perms, sessions) =>
    match sessions[j]? with
    | some (.running st) =>
      match handleRequest host st req with
      | .panicked => { a with crashed := true }
      | .done (st', effects, next) =>
        let session := match next with
          | .loop => SessionState.running st'
          | .stop => .ended
        (a.setPhase i (.serving perms (sessions.set j session))).note i (effects.map .session)
    | _ => a
  | none => a

def Agent.perform (cfg : AgentConfig) (F : FaultyFs S) (a : Agent S) : AgentEvent → Agent S
  | .subscriber e => { a with subscriber := a.subscriber.step cfg.keys F e }
  | .accept result => a.accept cfg.lib result
  | .handshake i net => a.advance cfg.lib i net
  | .channel i channelType acceptErr => a.openChannel i channelType acceptErr
  | .request i j req => a.request cfg.host i j req
  | .drop i => a.setPhase i .closed
  | .libraryPanics => { a with crashed := true }

/-- One step; nothing happens in an agent that is gone. -/
def Agent.step (cfg : AgentConfig) (F : FaultyFs S) (a : Agent S) (e : AgentEvent) : Agent S :=
  if a.crashed then a else a.perform cfg F e

/-- The agent after a history, from its start on. -/
def Agent.after (cfg : AgentConfig) (F : FaultyFs S) (fs₀ : S) (evs : List AgentEvent) : Agent S :=
  evs.foldl (Agent.step cfg F) { subscriber := .initial fs₀ }

end WeftAgent.Sshd
