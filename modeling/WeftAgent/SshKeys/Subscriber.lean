import WeftAgent.Fs.Faults
import WeftAgent.Sshd.AuthStore

/-!
# The key subscriber

`HandleMessage` of `pkg/sshkeys/sshkeys.go` with the function that `startSSHKeys` of
`cmd/weft-microvm-agent/main.go` composes for it: the store of the embedded server is replaced, then
the `authorized_keys` file is written. The messages of a subscription are handled one after the
other; the file system calls of a message are steps of their own.
-/

namespace WeftAgent.SshKeys

open WeftAgent.Go WeftAgent.Effect WeftAgent.Fs WeftAgent.Sshd

/-- What the subscriber is set up with. -/
structure Config where
  lib : SshLib
  /-- `json.Unmarshal` into a `KeySet`. -/
  unmarshal : GoString → Except GoError KeySet
  authorizedKeysPath : GoString

/-- `HandleMessage`: the error for which the message is dropped, or what `apply` does. -/
def handleMessage {β : Type} (unmarshal : GoString → Except GoError KeySet) (data : GoString)
    (apply : KeySet → β) : Except GoError β :=
  match unmarshal data with
  | .error e => .error (.wrap "decode sshkeys update: %w" [] e)
  | .ok ks =>
    match ks.validate with
    | some e => .error (.wrap "invalid sshkeys update: %w" [] e)
    | none => .ok (apply ks)

/-- The function `composed` of `startSSHKeys`: the store afterwards, if there is one, and the calls
that write the file. -/
def composed (cfg : Config) (authStore : Option AuthStore) (ks : KeySet) :
    Option AuthStore × Prog fsSig (Option GoError) :=
  (authStore.map fun _ => (AuthStore.replace cfg.lib ks).1,
    sshKeysApplyer cfg.authorizedKeysPath ks)

variable {S : Type}

/-- The subscriber with its file system. -/
structure Subscriber (S : Type) where
  authStore : Option AuthStore
  fs : S
  /-- What is left of the message being handled. -/
  writer : Prog fsSig (Option GoError) := .ret none
  /-- The last set that was decoded and found valid. -/
  accepted : Option KeySet := none
  /-- The last accepted set whose rename succeeded. -/
  renamed : Option KeySet := none

inductive Event where
  | message (data : GoString)
  /-- The next file system call of the message being handled. -/
  | call

/-- The call is a rename to the path, and was answered with nil. -/
def renamesTo (path : GoString) : (op : FsOp) → op.Ans → Bool
  | .rename _ new, err => new = path ∧ Option.isNone err
  | _, _ => false

/-- One step; a message waits while another one is being handled. -/
def Subscriber.step (cfg : Config) (F : FaultyFs S) (s : Subscriber S) : Event → Subscriber S
  | .message data =>
    match s.writer with
    | .call _ _ => s
    | .ret _ =>
      match handleMessage cfg.unmarshal data fun ks => (ks, composed cfg s.authStore ks) with
      | .error _ => s
      | .ok (ks, authStore, writer) =>
        { s with authStore := authStore, writer := writer, accepted := some ks }
  | .call =>
    match s.writer with
    | .ret _ => s
    | .call op k =>
      let (x, fs) := F.handler op s.fs
      { s with
        fs := fs
        writer := k x
        renamed := if renamesTo cfg.authorizedKeysPath op x then s.accepted else s.renamed }

/-- The content of the `authorized_keys` file. -/
def Subscriber.file (cfg : Config) (F : FaultyFs S) (s : Subscriber S) : Option GoString :=
  (F.tree s.fs).fileAt (resolve cfg.authorizedKeysPath)

/-- The subscriber that `startSSHKeys` starts, with a new store. -/
def Subscriber.initial (fs : S) : Subscriber S := { authStore := some {}, fs := fs }

end WeftAgent.SshKeys
