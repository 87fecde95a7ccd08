import WeftAgent.SshKeys.SshKeys

/-!
# The keys of the embedded SSH server

`pkg/sshd/authstore.go`: the store that the key subscriber replaces on every push and that the
server asks on every connection.
-/

namespace WeftAgent.Sshd

open WeftAgent.Go WeftAgent.SshKeys

structure AuthStore where
  byFingerprint : GoMap GoString PublicKey := ∅
  /-- The comments, by fingerprint. -/
  names : GoMap GoString GoString := ∅

variable (lib : SshLib)

/-- One round of the loop of `Replace`: the fresh store and the entries accepted and rejected so
far. -/
def replaceStep (acc : AuthStore × Nat × Nat) (k : Key) : AuthStore × Nat × Nat :=
  match parseAuthorizedKey lib k.publicKey with
  | .error _ => (acc.1, acc.2.1, acc.2.2 + 1)
  | .ok (parsed, _) =>
    let fp := fingerprintSHA256 lib parsed.key
    (⟨acc.1.byFingerprint.insert fp parsed.key, acc.1.names.insert fp parsed.comment⟩,
      acc.2.1 + 1, acc.2.2)

/-- `AuthStore.Replace`: the new content of the store, the counts of accepted and rejected
entries. -/
def AuthStore.replace (ks : KeySet) : AuthStore × Nat × Nat :=
  ks.keys.foldl (replaceStep lib) ({}, 0, 0)

/-- `AuthStore.Authorize`: the name, and whether the key is in the set. -/
def AuthStore.authorize (s : AuthStore) (key : PublicKey) : GoString × Bool :=
  let fp := fingerprintSHA256 lib key
  match s.byFingerprint.lookup fp with
  | none => ([], false)
  | some pub => if pub.wire = key.wire then (s.names.index fp, true) else ([], false)

def AuthStore.size (s : AuthStore) : Nat := s.byFingerprint.keys.length

/-! ## Histories -/

inductive StoreOp where
  | replace (ks : KeySet)
  | authorize (key : PublicKey)
  | size

def AuthStore.perform (s : AuthStore) : StoreOp → AuthStore
  | .replace ks => (AuthStore.replace lib ks).1
  | .authorize _ | .size => s

/-- What the store stands for: the set it was given last. -/
def latest (ks : KeySet) : StoreOp → KeySet
  | .replace ks' => ks'
  | .authorize _ | .size => ks

/-- What `ssh.ParseAuthorizedKey` makes of the entries of a set, as far as they parse. -/
def parsedEntries (ks : KeySet) : List ParsedKey :=
  ks.keys.filterMap fun k => (parseAuthorizedKey lib k.publicKey).toOption.map Prod.fst

end WeftAgent.Sshd
