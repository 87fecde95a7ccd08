import WeftAgent.Effect.Prog
import WeftAgent.ExecSession.Sessions
import WeftAgent.Fs.Calls
import WeftAgent.Nats.Subject

/-!
# The pty pump of an exec session

`pkg/execsession/pty_linux.go`. `PumpConfig.run` is `Run`: a program over the file system calls of
`buildCommand` and the pump's own calls; of the errors that the source drops, that of `Publish` is
kept, since it decides what the peer gets to see. `System` is what goes on while it runs: the child
on the slave side of the pty, the reader goroutine that turns what it reads into out frames, the
goroutine that waits for the child, and the in subscription. `written` is what the child's side of
the pty has put into it; what the line discipline makes of the bytes is part of that.
-/

namespace WeftAgent.ExecSession

open WeftAgent.Go WeftAgent.Effect WeftAgent.Fs

/-! ## The command -/

/-- The `exec.Cmd` that `buildCommand` builds. -/
structure Cmd where
  path : GoString
  args : List GoString
  env : List GoString
  dir : GoString
  deriving DecidableEq, Repr

/-- `mergeEnv`: the defaults, then the variables of the request as the map is visited. -/
def mergeEnv (extra : GoMap GoString GoString) : List GoString :=
  [lit "PATH=/usr/local/sbin:/usr/local/bin:/usr/sbin:/usr/bin:/sbin:/bin",
    lit "TERM=xterm-256color", lit "COLORTERM=truecolor", lit "HOME=/root", lit "LANG=C.UTF-8"] ++
    extra.entries.map fun e => e.1 ++ lit "=" ++ e.2

/-- The loop of `workDir`: the first candidate that is a directory. -/
def firstDir : List GoString → Prog fsSig GoString
  | [] => pure (lit "/")
  | candidate :: rest =>
    if candidate = [] then firstDir rest
    else do
      match ← osStat candidate with
      | .ok .dir => pure candidate
      | _ => firstDir rest

def workDir (d : GoString) : Prog fsSig GoString :=
  firstDir [d, lit "/workspace", lit "/tmp", lit "/"]

/-- The loop of `pickShell`: the first candidate that exists. -/
def firstShell : List GoString → Prog fsSig GoString
  | [] => pure (lit "/bin/sh")
  | candidate :: rest => do
    match ← osStat candidate with
    | .ok _ => pure candidate
    | .error _ => firstShell rest

/-- `pickShell`: an explicit command wins. -/
def pickShell (command : List GoString) : Prog fsSig GoString :=
  match command with
  | shell :: _ => pure shell
  | [] => firstShell [lit "/bin/bash", lit "/bin/ash", lit "/bin/sh"]

def buildCommand (t : ExecTarget) : Prog fsSig (Except GoError Cmd) := do
  if t.kind = lit "shell" then
    let shell ← pickShell t.command
    let args := if t.command.length > 1 then t.command.drop 1 ++ t.args else t.args
    let dir ← workDir t.workDir
    pure (.ok { path := shell, args := args, env := mergeEnv t.env, dir := dir })
  else if t.kind = lit "exec" then
    let argv := [lit "exec", t.container] ++ t.command ++ t.args
    let dir ← workDir t.workDir
    pure (.ok { path := lit "crun", args := argv, env := mergeEnv t.env, dir := dir })
  else
    pure (.error (.errorf "buildCommand: unknown kind %q" [.str t.kind]))

/-! ## Frames -/

def outFrame (chunk : GoString) : GoString := 'o'.toUInt8 :: chunk

/-- The frame of an exit code, big-endian. -/
def exitFrame (code : UInt32) : GoString :=
  ['e'.toUInt8, (code >>> 24).toUInt8, (code >>> 16).toUInt8, (code >>> 8).toUInt8, code.toUInt8]

/-- `binary.BigEndian.Uint16`. -/
def beUint16 (b0 b1 : UInt8) : UInt16 := b0.toUInt16 <<< 8 ||| b1.toUInt16

/-! ## `Run` -/

/-- Which case of the `select` in `Run` is taken. -/
inductive Selected where
  | ctxDone
  | childDone
  deriving DecidableEq, Repr

/-- The calls of `Run` on the pty, the child, the bus and its own goroutines. -/
inductive PumpOp where
  | ptyStart (cmd : Cmd)
  | setsize (cols rows : UInt16)
  /-- `go func() { ... }()` with the loop that reads the pty and publishes on the subject. -/
  | goReader (subject : GoString)
  /-- `NC.Subscribe(subject, ...)` with `onInFrame` as its callback. -/
  | subscribe (subject : GoString)
  | ptyWrite (data : GoString)
  | kill
  | closePty
  | unsubscribe
  /-- `go func() { done <- cmd.Wait() }()`. -/
  | goWait
  | select
  /-- `<-done` in the first case of the `select`. -/
  | recvDone
  /-- `cmd.ProcessState.ExitCode()`, if there is a process state. -/
  | exitCode
  | publish (subject data : GoString)
  deriving DecidableEq, Repr

abbrev PumpOp.Ans : PumpOp → Type
  | .ptyStart _ | .subscribe _ | .publish _ _ => Option GoError
  | .select => Selected
  | .exitCode => Option Int
  | .setsize _ _ | .goReader _ | .ptyWrite _ | .kill | .closePty | .unsubscribe | .goWait
  | .recvDone => Unit

abbrev pumpSig : Sig := fsSig.sum ⟨PumpOp, PumpOp.Ans⟩

def pump (op : PumpOp) : Prog pumpSig op.Ans := .call (.inr op) .ret

/-- What a session is run with, besides the connection. -/
structure PumpConfig where
  vmID : GoString
  request : ExecRequest

namespace PumpConfig

def outSub (cfg : PumpConfig) : GoString := subjectOut cfg.vmID cfg.request.id

def inSub (cfg : PumpConfig) : GoString := subjectIn cfg.vmID cfg.request.id

/-- A frame on the subject is delivered to the in subscription of the session. -/
def receives (cfg : PumpConfig) (subject : GoString) : Bool := Nats.delivers cfg.inSub subject

end PumpConfig

/-- `uint32(cmd.ProcessState.ExitCode())`, and 0 without a process state. -/
def wireCode : Option Int → UInt32
  | none => 0
  | some code => UInt32.ofInt code

/-- The end of `Run`: the exit frame, the pty, the deferred `Unsubscribe`. -/
def PumpConfig.finish (cfg : PumpConfig) : Prog pumpSig (Option GoError) := do
  let state ← pump .exitCode
  let _ ← pump (.publish cfg.outSub (exitFrame (wireCode state)))
  pump .closePty
  pump .unsubscribe
  pure none

/-- `Run` once the in subscription is there. -/
def PumpConfig.awaitExit (cfg : PumpConfig) : Prog pumpSig (Option GoError) := do
  pump .goWait
  match ← pump .select with
  | .ctxDone =>
    pump .kill
    pump .recvDone
    cfg.finish
  | .childDone => cfg.finish

/-- `Run` from the start of the reader goroutine on. -/
def PumpConfig.bridge (cfg : PumpConfig) : Prog pumpSig (Option GoError) := do
  pump (.goReader cfg.outSub)
  match ← pump (.subscribe cfg.inSub) with
  | some e =>
    pump .kill
    pump .closePty
    pure (some (.wrap "subscribe in: %w" [] e))
  | none => cfg.awaitExit

/-- `Run` once the command is built. -/
def PumpConfig.launch (cfg : PumpConfig) (cmd : Cmd) : Prog pumpSig (Option GoError) := do
  match ← pump (.ptyStart cmd) with
  | some e => pure (some (.wrap "pty start: %w" [] e))
  | none =>
    if cfg.request.initialCols > 0 ∧ cfg.request.initialRows > 0 then
      pump (.setsize cfg.request.initialCols cfg.request.initialRows)
      cfg.bridge
    else
      cfg.bridge

/-- `Run`: the error it returns, `none` for nil. -/
def PumpConfig.run (cfg : PumpConfig) : Prog pumpSig (Option GoError) := do
  match ← (buildCommand cfg.request.target).left with
  | .error e => pure (some e)
  | .ok cmd => cfg.launch cmd

/-- The call publishes an exit frame on the out subject of the session, without an error. -/
def PumpConfig.publishesExit (cfg : PumpConfig) : (Σ op : pumpSig.Op, pumpSig.Ans op) → Bool
  | ⟨.inr (.publish subject (tag :: _)), err⟩ =>
    subject = cfg.outSub ∧ tag = 'e'.toUInt8 ∧ Option.isNone err
  | _ => false

/-- The number of exit frames that a sequence of calls publishes. -/
def PumpConfig.exitFrames (cfg : PumpConfig) (calls : List (Σ op : pumpSig.Op, pumpSig.Ans op)) :
    Nat :=
  calls.countP cfg.publishesExit

/-- The call is not a failed `pty.Start`, `Subscribe` or `Publish`. -/
def succeeds : (Σ op : pumpSig.Op, pumpSig.Ans op) → Bool
  | ⟨.inr (.ptyStart _), err⟩ => Option.isNone err
  | ⟨.inr (.subscribe _), err⟩ => Option.isNone err
  | ⟨.inr (.publish _ _), err⟩ => Option.isNone err
  | _ => true

/-- The callback of the in subscription. -/
def onInFrame (data : GoString) : Prog pumpSig Unit :=
  match data with
  | [] => pure ()
  | tag :: rest =>
    if tag = 'i'.toUInt8 then pump (.ptyWrite rest)
    else if tag = 'r'.toUInt8 then
      match rest with
      | c0 :: c1 :: r0 :: r1 :: _ => pump (.setsize (beUint16 c0 c1) (beUint16 r0 r1))
      | _ => pure ()
    else if tag = 'x'.toUInt8 then pump .kill
    else pure ()

/-! ## The running session -/

/-- The process on the slave side. -/
inductive Child where
  | absent
  | running
  | exited (code : Int)
  deriving DecidableEq, Repr

/-- The reader goroutine, with the subject it publishes on. -/
inductive Reader where
  | absent
  /-- In `ptmx.Read`. -/
  | reading (subject : GoString)
  /-- Between a read of the chunk and its publication. -/
  | holding (subject chunk : GoString)
  | returned
  deriving DecidableEq, Repr

/-- What has been read and not yet published. -/
def Reader.inHand : Reader → GoString
  | .holding _ chunk => chunk
  | _ => []

inductive Subscription where
  | none
  /-- `Subscribe` answered with an error. -/
  | refused
  | live
  | ended
  deriving DecidableEq, Repr

/-- A session while `Run` is under way. -/
structure System where
  tree : Tree
  /-- What is left of `Run`. -/
  main : Prog pumpSig (Option GoError)
  child : Child := .absent
  killed : Bool := false
  /-- The master side is open. -/
  ptyOpen : Bool := false
  /-- What has been put into the pty for the master side and not been read. -/
  buffer : GoString := []
  written : GoString := []
  reader : Reader := .absent
  subscription : Subscription := .none
  /-- The goroutine in `cmd.Wait()` has been started. -/
  waiting : Bool := false
  /-- The channel `done` holds a value. -/
  done : Bool := false
  cancelled : Bool := false
  /-- Subject and data of all frames that were given to `Publish`, in order. -/
  sent : List (GoString × GoString) := []
  /-- Those of them for which `Publish` answered without an error. -/
  published : List (GoString × GoString) := []

/-- The answers that `Run` does not get from the state of the session. -/
structure Choice where
  /-- The error of `pty.Start`, of `Subscribe` or of `Publish`. -/
  err : Option GoError := none
  /-- The case of the `select` that is taken, if it is ready. -/
  selected : Selected := .childDone

inductive SessionEvent where
  | main (choice : Choice)
  | childWrite (data : GoString)
  | childExit (code : Int)
  | cancel
  | waitReturns
  /-- The read of the reader goroutine returns, with up to `n` bytes if there are any. -/
  | readerRead (n : Nat)
  /-- The `Publish` of the reader goroutine, whose error is ignored. -/
  | readerPublish (err : Option GoError)
  /-- A message is delivered to the in subscription. -/
  | inFrame (data : GoString)

namespace System

/-- `Publish`, with its error. -/
def publish (s : System) (subject data : GoString) : Option GoError → System
  | none => { s with
      sent := s.sent ++ [(subject, data)]
      published := s.published ++ [(subject, data)] }
  | some _ => { s with sent := s.sent ++ [(subject, data)] }

/-- A call of `Run` or of the callback: its answer and the new state; `none` while it blocks. -/
def perform (c : Choice) : (op : pumpSig.Op) → System → Option (pumpSig.Ans op × System)
  | .inl op, s => some ((handle op s.tree).1, { s with tree := (handle op s.tree).2 })
  | .inr (.ptyStart _), s =>
    match c.err with
    | some e => some (some e, s)
    | none => some (none, { s with child := .running, ptyOpen := true })
  | .inr (.setsize _ _), s => some ((), s)
  | .inr (.goReader subject), s => some ((), { s with reader := .reading subject })
  | .inr (.subscribe _), s =>
    match c.err with
    | some e => some (some e, { s with subscription := .refused })
    | none => some (none, { s with subscription := .live })
  | .inr (.ptyWrite _), s => some ((), s)
  | .inr .kill, s => some ((), { s with killed := true })
  | .inr .closePty, s => some ((), { s with ptyOpen := false })
  | .inr .unsubscribe, s => some ((), { s with subscription := .ended })
  | .inr .goWait, s => some ((), { s with waiting := true })
  | .inr .select, s =>
    match c.selected with
    | .ctxDone => if s.cancelled then some (.ctxDone, s) else none
    | .childDone => if s.done then some (.childDone, { s with done := false }) else none
  | .inr .recvDone, s => if s.done then some ((), { s with done := false }) else none
  | .inr .exitCode, s =>
    match s.child with
    | .exited code => some (some code, s)
    | _ => some (none, s)
  | .inr (.publish subject data), s => some (c.err, s.publish subject data c.err)

def stepMain (c : Choice) (s : System) : System :=
  match s.main with
  | .ret _ => s
  | .call op k =>
    match perform c op s with
    | some (x, s') => { s' with main := k x }
    | none => s

/-- The calls of a callback, one after the other. -/
def callback : Prog pumpSig Unit → System → System
  | .ret _, s => s
  | .call op k, s =>
    match perform {} op s with
    | some (x, s') => callback (k x) s'
    | none => s

/-- One round of the reader's loop up to its publication. Output that is left in the pty is read
before the end of the child's side is seen. -/
def stepRead (n : Nat) (s : System) : System :=
  match s.reader with
  | .reading subject =>
    if s.ptyOpen = false then { s with reader := .returned }
    else if s.buffer ≠ [] then
      let size := max 1 (min n 4096)
      { s with reader := .holding subject (s.buffer.take size), buffer := s.buffer.drop size }
    else
      match s.child with
      | .exited _ => { s with reader := .returned }
      | _ => s
  | _ => s

/-- One step; an event that is not enabled changes nothing. -/
def step (s : System) : SessionEvent → System
  | .main c => stepMain c s
  | .childWrite data =>
    if s.child = .running ∧ s.ptyOpen then
      { s with buffer := s.buffer ++ data, written := s.written ++ data }
    else s
  | .childExit code => if s.child = .running then { s with child := .exited code } else s
  | .cancel => { s with cancelled := true }
  | .waitReturns =>
    match s.child with
    | .exited _ => if s.waiting then { s with waiting := false, done := true } else s
    | _ => s
  | .readerRead n => stepRead n s
  | .readerPublish err =>
    match s.reader with
    | .holding subject chunk =>
      { s.publish subject (outFrame chunk) err with reader := .reading subject }
    | _ => s
  | .inFrame data => if s.subscription = .live then callback (onInFrame data) s else s

end System

def PumpConfig.outMsg (cfg : PumpConfig) (chunk : GoString) : GoString × GoString :=
  (cfg.outSub, outFrame chunk)

def PumpConfig.exitMsg (cfg : PumpConfig) (code : Int) : GoString × GoString :=
  (cfg.outSub, exitFrame (wireCode (some code)))

/-- The frames are what the child wrote, chunk by chunk, then its exit code, and nothing else. -/
def PumpConfig.Complete (cfg : PumpConfig) (s : System) (frames : List (GoString × GoString)) :
    Prop :=
  ∃ (chunks : List GoString) (code : Int), s.child = .exited code ∧
    frames = chunks.map cfg.outMsg ++ [cfg.exitMsg code] ∧ chunks.flatten = s.written

/-- What is published is the output of the child and its exit code. -/
def PumpConfig.Delivered (cfg : PumpConfig) (s : System) : Prop := cfg.Complete s s.published

/-- The next call of `Run` does not publish while output waits in the pty or in the hands of the
reader, and is not a `Subscribe` or a `Publish` that fails. -/
def System.OrderlyCall (s : System) (c : Choice) : pumpSig.Op → Prop
  | .inr (.publish _ _) => s.buffer = [] ∧ s.reader.inHand = [] ∧ c.err = none
  | .inr (.subscribe _) => c.err = none
  | _ => True

instance (s : System) (c : Choice) : DecidablePred (s.OrderlyCall c) := fun op => by
  unfold System.OrderlyCall
  split <;> infer_instance

/-- The step is not a call of `Run` that is out of order, and no output of which the `Publish`
fails. -/
def System.Orderly (s : System) (e : SessionEvent) : Prop :=
  match e, s.main with
  | .main c, .call op _ => s.OrderlyCall c op
  | .readerPublish (some _), _ => s.reader.inHand = []
  | _, _ => True

instance (s : System) (e : SessionEvent) : Decidable (s.Orderly e) := by
  unfold System.Orderly
  split <;> infer_instance

def PumpConfig.system (cfg : PumpConfig) (tree : Tree) : System := { tree := tree, main := cfg.run }

def PumpConfig.after (cfg : PumpConfig) (tree : Tree) (evs : List SessionEvent) : System :=
  evs.foldl System.step (cfg.system tree)

end WeftAgent.ExecSession
