import WeftAgent.Go.Basic

/-!
# The embedded SSH server: the goroutines of a shell

The end of `startShell` in `pkg/sshd/server.go`: the goroutine that copies the channel to the pty
master, the one that copies the pty master to the channel, and the one that waits for both, closes
the pty in between, and reports the exit status. A copy is in one of its two blocking calls or has
returned; the value it then puts into `done` is counted in `tokens`. A read takes what is there, up
to the 32 KiB of the buffer of `io.Copy`.

The slave side belongs to the child: when it has exited, the master side reads what is left and then
fails, and writes to it fail. Closing the master ends a read or a write of it that is under way, and
no call on the channel.
-/

namespace WeftAgent.Sshd

open Go

inductive ShellChild where
  | running
  | exited (code : Int)
  deriving DecidableEq, Repr

/-- A goroutine in `io.Copy`. -/
inductive Copy where
  /-- In a read of the source. -/
  | reading
  /-- In the write of what was read. -/
  | writing (chunk : GoString)
  | returned
  deriving DecidableEq, Repr

/-- What has been read and not yet written. -/
def Copy.inHand : Copy → GoString
  | .writing chunk => chunk
  | _ => []

/-- The goroutine that ends the session, by its next call. -/
inductive Teardown where
  /-- `<-done`. -/
  | awaitFirst
  /-- `f.Close()`. -/
  | closePty
  /-- The second `<-done`. -/
  | awaitSecond
  /-- `cmd.Process.Wait()`. -/
  | wait
  /-- `ch.SendRequest("exit-status", false, payload)`. -/
  | sendStatus (payload : GoString)
  /-- `ch.Close()`. -/
  | closeChannel
  | returned
  deriving DecidableEq, Repr

inductive ChannelCall where
  | data (chunk : GoString)
  | exitStatus (payload : GoString)
  | close
  deriving DecidableEq, Repr

/-- The payload of an `exit-status` request, big-endian. -/
def exitStatusPayload (code : Int) : GoString :=
  let exit := UInt32.ofInt code
  [(exit >>> 24).toUInt8, (exit >>> 16).toUInt8, (exit >>> 8).toUInt8, exit.toUInt8]

/-- A session from the start of the goroutines on. -/
structure Shell where
  child : ShellChild := .running
  masterOpen : Bool := true
  /-- What the child has put into the pty and nobody has read. -/
  buffer : GoString := []
  written : GoString := []
  /-- What the client has sent and nobody has read. -/
  received : GoString := []
  /-- The client will send nothing more. -/
  clientEOF : Bool := false
  /-- The client has closed the channel; writes to it fail. -/
  clientClosed : Bool := false
  /-- `io.Copy(f, ch)`. -/
  inCopy : Copy := .reading
  /-- `io.Copy(ch, f)`. -/
  outCopy : Copy := .reading
  tokens : Nat := 0
  teardown : Teardown := .awaitFirst
  sent : List ChannelCall := []
  deriving DecidableEq, Repr

inductive ShellEvent where
  | childWrite (data : GoString)
  | childExit (code : Int)
  | clientData (data : GoString)
  | clientEOF
  | clientClose
  /-- The read of the channel returns, with up to `n` bytes if there are any. -/
  | inRead (n : Nat)
  | inWrite
  /-- The read of the pty returns, with up to `n` bytes if there are any. -/
  | outRead (n : Nat)
  | outWrite
  /-- The next call of the goroutine that ends the session returns. -/
  | teardown
  deriving DecidableEq, Repr

/-- A step of the server's goroutines, rather than of the child or of the client. -/
def ShellEvent.ofServer : ShellEvent → Bool
  | .inRead _ | .inWrite | .outRead _ | .outWrite | .teardown => true
  | _ => false

namespace Shell

def chunkSize (n : Nat) : Nat := max 1 (min n 32768)

def stepInRead (n : Nat) (s : Shell) : Shell :=
  match s.inCopy with
  | .reading =>
    if s.received ≠ [] then
      { s with
        inCopy := .writing (s.received.take (chunkSize n))
        received := s.received.drop (chunkSize n) }
    else if s.clientEOF then { s with inCopy := .returned, tokens := s.tokens + 1 }
    else s
  | _ => s

def stepInWrite (s : Shell) : Shell :=
  match s.inCopy with
  | .writing _ =>
    if s.masterOpen ∧ s.child = .running then { s with inCopy := .reading }
    else { s with inCopy := .returned, tokens := s.tokens + 1 }
  | _ => s

def stepOutRead (n : Nat) (s : Shell) : Shell :=
  match s.outCopy with
  | .reading =>
    if s.masterOpen = false then { s with outCopy := .returned, tokens := s.tokens + 1 }
    else if s.buffer ≠ [] then
      { s with
        outCopy := .writing (s.buffer.take (chunkSize n))
        buffer := s.buffer.drop (chunkSize n) }
    else if s.child = .running then s
    else { s with outCopy := .returned, tokens := s.tokens + 1 }
  | _ => s

def stepOutWrite (s : Shell) : Shell :=
  match s.outCopy with
  | .writing chunk =>
    if s.clientClosed then { s with outCopy := .returned, tokens := s.tokens + 1 }
    else { s with outCopy := .reading, sent := s.sent ++ [.data chunk] }
  | _ => s

def stepTeardown (s : Shell) : Shell :=
  match s.teardown with
  | .awaitFirst =>
    if s.tokens = 0 then s else { s with tokens := s.tokens - 1, teardown := .closePty }
  | .closePty => { s with masterOpen := false, teardown := .awaitSecond }
  | .awaitSecond =>
    if s.tokens = 0 then s else { s with tokens := s.tokens - 1, teardown := .wait }
  | .wait =>
    match s.child with
    | .running => s
    | .exited code => { s with teardown := .sendStatus (exitStatusPayload code) }
  | .sendStatus payload =>
    { s with sent := s.sent ++ [.exitStatus payload], teardown := .closeChannel }
  | .closeChannel => { s with sent := s.sent ++ [.close], teardown := .returned }
  | .returned => s

/-- One step; an event that is not enabled changes nothing. -/
def step (s : Shell) : ShellEvent → Shell
  | .childWrite data =>
    if s.child = .running ∧ s.masterOpen then
      { s with buffer := s.buffer ++ data, written := s.written ++ data }
    else s
  | .childExit code => if s.child = .running then { s with child := .exited code } else s
  | .clientData data =>
    if s.clientEOF then s else { s with received := s.received ++ data }
  | .clientEOF => { s with clientEOF := true }
  | .clientClose => { s with clientEOF := true, clientClosed := true }
  | .inRead n => stepInRead n s
  | .inWrite => stepInWrite s
  | .outRead n => stepOutRead n s
  | .outWrite => stepOutWrite s
  | .teardown => stepTeardown s

def after (evs : List ShellEvent) : Shell := evs.foldl step {}

/-- The bytes that the calls write to the channel. -/
def payload (calls : List ChannelCall) : GoString :=
  calls.flatMap fun
    | .data chunk => chunk
    | _ => []

/-- Whatever has been written is on the channel before the exit status. -/
def OutputBeforeStatus (s : Shell) : Prop :=
  ∀ before status after, s.sent = before ++ .exitStatus status :: after →
    payload before = s.written

/-- The exit status has been sent and the channel closed. -/
def Finished (s : Shell) : Prop :=
  ∃ before status, s.sent = before ++ [.exitStatus status, .close]

/-- The step loses no output: the pty is not closed while output that nobody has read is in it, and
no output is written to a channel that the client has closed. -/
def LosesNothing (s : Shell) : ShellEvent → Prop
  | .teardown => s.teardown = .closePty → s.buffer = []
  | .outWrite => s.outCopy.inHand ≠ [] → s.clientClosed = false
  | _ => True

instance (s : Shell) : (e : ShellEvent) → Decidable (s.LosesNothing e)
  | .teardown => inferInstanceAs (Decidable (_ → _))
  | .outWrite => inferInstanceAs (Decidable (_ → _))
  | .childWrite _ | .childExit _ | .clientData _ | .clientEOF | .clientClose | .inRead _ |
    .inWrite | .outRead _ => .isTrue trivial

/-- The input copy waits for the client: it is in a read of the channel and there is nothing to
read. -/
def WaitsForClient (s : Shell) : Prop :=
  s.inCopy = .reading ∧ s.received = [] ∧ s.clientEOF = false

instance (s : Shell) : Decidable s.WaitsForClient := by
  unfold WaitsForClient
  infer_instance

end Shell

end WeftAgent.Sshd
