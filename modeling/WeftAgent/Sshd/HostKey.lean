import WeftAgent.Effect.Restart
import WeftAgent.Fs.Faults

/-!
# The host key of the SSH server

`LoadOrCreateHostKey` of `pkg/sshd/hostkey.go`, and the processes that call it one after the other.
The formats are those of the standard library (`encoding/pem`, `crypto/x509`,
`golang.org/x/crypto/ssh`); of them it is only known that reading inverts writing.
-/

namespace WeftAgent.Sshd

open WeftAgent.Go WeftAgent.Go.Filepath WeftAgent.Effect WeftAgent.Fs

/-- The library functions that turn a private key into the text of a file and back. -/
structure KeyFormat (Key Signer : Type) where
  /-- `x509.MarshalPKCS8PrivateKey`. -/
  marshalPKCS8PrivateKey : Key → Except GoError GoString
  /-- `pem.EncodeToMemory` of a block of type `PRIVATE KEY`. -/
  encodeToMemory : GoString → GoString
  /-- `pem.Decode`: the bytes of the first block. -/
  decode : GoString → Option GoString
  parsePKCS8PrivateKey : GoString → Except GoError Key
  /-- `ssh.NewSignerFromKey`. -/
  newSignerFromKey : Key → Except GoError Signer
  decode_encode : ∀ blob, decode (encodeToMemory blob) = some blob
  parse_marshal : ∀ key blob, marshalPKCS8PrivateKey key = .ok blob →
    parsePKCS8PrivateKey blob = .ok key

variable {Key Signer : Type}

/-- The text is the complete file of the key. -/
def KeyFormat.FileOf (format : KeyFormat Key Signer) (key : Key) (content : GoString) : Prop :=
  ∃ blob, format.marshalPKCS8PrivateKey key = .ok blob ∧ content = format.encodeToMemory blob

def parseHostKey (format : KeyFormat Key Signer) (pemBytes : GoString) : Except GoError Signer :=
  match format.decode pemBytes with
  | none => .error (.errorf "no PEM block" [])
  | some block =>
    match format.parsePKCS8PrivateKey block with
    | .error err => .error err
    | .ok key => format.newSignerFromKey key

/-- `ed25519.GenerateKey(rand.Reader)`. -/
abbrev keySig (Key : Type) : Sig := ⟨Unit, fun _ => Except GoError Key⟩

abbrev hostSig (Key : Type) : Sig := fsSig.sum (keySig Key)

def generateKey : Prog (hostSig Key) (Except GoError Key) := .call (.inr ()) .ret

/-- The part of `LoadOrCreateHostKey` for the first boot: generate and persist. -/
def createHostKey (format : KeyFormat Key Signer) (path : GoString) :
    Prog (hostSig Key) (Except GoError Signer) := do
  match ← (osMkdirAll (dir path)).left with
  | some e => pure (.error (.wrap "mkdir %s: %w" [.str (dir path)] (.errno e)))
  | none =>
    match ← generateKey with
    | .error err => pure (.error (.wrap "generate ed25519: %w" [] err))
    | .ok priv =>
      match format.marshalPKCS8PrivateKey priv with
      | .error err => pure (.error (.wrap "marshal ed25519: %w" [] err))
      | .ok blob =>
        let pemBytes := format.encodeToMemory blob
        let tmp := path ++ lit ".tmp"
        match ← (osWriteFile tmp pemBytes).left with
        | some e => pure (.error (.wrap "write tmp %s: %w" [.str tmp] (.errno e)))
        | none =>
          match ← (osRename tmp path).left with
          | some e => do
            let _ ← (osRemove tmp).left
            pure (.error (.wrap "commit %s: %w" [.str path] (.errno e)))
          | none => pure (parseHostKey format pemBytes)

def loadOrCreateHostKey (format : KeyFormat Key Signer) (path : GoString) :
    Prog (hostSig Key) (Except GoError Signer) :=
  if path = [] then pure (.error (.errorf "hostkey path is empty" []))
  else do
    match ← (osReadFile path).left with
    | .ok b =>
      match parseHostKey format b with
      | .error perr => pure (.error (.wrap "parse host key %s: %w" [.str path] perr))
      | .ok signer => pure (.ok signer)
    | .error e =>
      if isNotExist e then createHostKey format path
      else pure (.error (.wrap "read host key %s: %w" [.str path] (.errno e)))

/-! ## Boot after boot -/

inductive KeyEvent (Key Signer : Type) where
  | generated (key : Key)
  | returned (result : Except GoError Signer)

/-- The disk, and what the processes have done so far. -/
structure KeyHost (Key Signer : Type) where
  tree : Tree
  log : List (KeyEvent Key Signer) := []

/-- Reading a file can fail, too; but a file that is there is not reported missing. -/
def ReadFails : (op : FsOp) → op.Ans → Prop
  | .readFile _, .error e => isNotExist e = false
  | _, _ => False

/-- What can come of a call. The file system may fail in any of its calls, which then change nothing
but at the paths they are about; a call that a crash cuts short has done what a failed one does, so
that a temporary file can be left with anything in it. -/
def hostEnv : Environment (hostSig Key) (KeyHost Key Signer)
  | host, .inl op, x, host' =>
    (MayAnswer host.tree op x host'.tree ∧
          (∀ q, ¬ Touches [] op q → host'.tree.get q = host.tree.get q) ∨
        ReadFails op x ∧ host'.tree = host.tree) ∧
      host'.log = host.log
  | host, .inr (), .ok key, host' => host' = { host with log := host.log ++ [.generated key] }
  | host, .inr (), .error _, host' => host' = host

/-- The result of a call is noted. -/
def KeyHost.note (result : Except GoError Signer) (host : KeyHost Key Signer) :
    KeyHost Key Signer :=
  { host with log := host.log ++ [.returned result] }

/-- The states of a host with the disk `disk` on which nothing but calls of `LoadOrCreateHostKey`
touches the files, by processes that crash at any point. -/
def Boots (format : KeyFormat Key Signer) (path : GoString) (disk : Tree) :
    Machine (hostSig Key) (Except GoError Signer) (KeyHost Key Signer) → Prop :=
  Machine.Reaches hostEnv (loadOrCreateHostKey format path) KeyHost.note { tree := disk }

/-- The path is absent or holds one complete key that was generated. Only a path that ends in a
slash, in `.` or in `..` can be a directory: `MkdirAll` of its parent makes it one, and no call
returns a key. -/
def AbsentOrComplete (format : KeyFormat Key Signer) (path : GoString)
    (host : KeyHost Key Signer) : Prop :=
  match host.tree.get (resolve path) with
  | none => True
  | some (.file content) => ∃ key, .generated key ∈ host.log ∧ format.FileOf key content
  | some .dir => ¬ IsName (path.rtakeWhile (· ≠ slash))

/-- Every signer returned is that of a key generated before; after it no key is generated, and no
other signer is returned. -/
def Stable (format : KeyFormat Key Signer) (log : List (KeyEvent Key Signer)) : Prop :=
  ∀ before signer later, log = before ++ .returned (.ok signer) :: later →
    (∃ key, .generated key ∈ before ∧ format.newSignerFromKey key = .ok signer) ∧
      (∀ key, .generated key ∉ later) ∧
      ∀ signer', .returned (.ok signer') ∈ later → signer' = signer

end WeftAgent.Sshd
