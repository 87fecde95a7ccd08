import WeftAgent.Fs.Calls
import WeftAgent.SshKeys.AuthorizedKey

/-!
# Pushed SSH keys

The validation of a published key set (`pkg/sshkeys/sshkeys.go`) and the function that writes it to
the `authorized_keys` file (`cmd/weft-microvm-agent/sshkeys_linux.go`).
-/

namespace WeftAgent.SshKeys

open WeftAgent.Go WeftAgent.Go.Filepath WeftAgent.Effect WeftAgent.Fs

/-- `Key`: one authorized-key entry. -/
structure Key where
  publicKey : GoString
  deriving DecidableEq, Repr

/-- `KeySet`: the desired keys. -/
structure KeySet where
  keys : List Key
  deriving DecidableEq, Repr

def knownAlgorithms : List GoString :=
  [lit "ssh-rsa", lit "ssh-ed25519", lit "ssh-dss", lit "ecdsa-sha2-nistp256",
    lit "ecdsa-sha2-nistp384", lit "ecdsa-sha2-nistp521"]

/-- The checks that `Validate` makes on the entry at an index. -/
def checkKey (i : Nat) (k : Key) : Option GoError :=
  match fields k.publicKey with
  | algorithm :: _ :: _ =>
    if algorithm ∈ knownAlgorithms then none
    else some (.errorf "key %d: unsupported algorithm %q" [.int i, .str algorithm])
  | _ =>
    some (.errorf "key %d: expected '<type> <base64> [comment]', got %q" [.int i, .str k.publicKey])

/-- `KeySet.Validate`: the error of the first bad entry, `none` for nil. -/
def KeySet.validate (ks : KeySet) : Option GoError :=
  ks.keys.zipIdx.findSome? fun (k, i) => checkKey i k

def header : GoString := lit "# Managed by weft-microvm-agent. Edits are overwritten on next push."

/-- The text of the `authorized_keys` file: the header, and each entry followed by a newline. -/
def renderKeys (ks : KeySet) : GoString :=
  ks.keys.foldl (fun buf k => buf ++ k.publicKey ++ [newline]) (header ++ [newline])

/-- The function `sshKeysApplyer(path)` returns. Ownership is not part of the file system model: the
`Chown` calls, whose errors are ignored, are left out. -/
def sshKeysApplyer (authorizedKeysPath : GoString) (ks : KeySet) : Prog fsSig (Option GoError) := do
  let parent := dir authorizedKeysPath
  match ← osMkdirAll parent with
  | some e => pure (some (.wrap "mkdir %s: %w" [.str parent] (.errno e)))
  | none =>
    let tmp := authorizedKeysPath ++ lit ".tmp"
    match ← osWriteFile tmp (renderKeys ks) with
    | some e => pure (some (.wrap "write tmp %s: %w" [.str tmp] (.errno e)))
    | none =>
      match ← osRename tmp authorizedKeysPath with
      | some e => do
        let _ ← osRemove tmp
        pure (some (.wrap "rename %s -> %s: %w" [.str tmp, .str authorizedKeysPath] (.errno e)))
      | none => pure none

end WeftAgent.SshKeys
