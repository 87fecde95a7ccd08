import WeftAgent.Boot.Runner

/-!
# The production hooks

`gitClone`, `ociPull` and `bootRunner` of `cmd/weft-microvm-agent/boot.go`, over the calls they make
of go-git and oras-go, and what is assumed of these calls: a clone fails where a repository already
is, and a clone that fails leaves nothing behind.
-/

namespace WeftAgent.Boot

open WeftAgent.Go WeftAgent.Go.Filepath WeftAgent.Effect WeftAgent.Fs

/-- Calls of go-git, of oras-go and of the shell interpreter. A repository is named by the directory
that it was cloned into. -/
inductive ProdOp where
  /-- `git.PlainCloneContext(ctx, dst, false, &git.CloneOptions{URL: url})`. -/
  | plainClone (url dst : GoString)
  | resolveRevision (dst ref : GoString)
  | worktree (dst : GoString)
  | checkout (dst hash : GoString)
  | fileNew (dst : GoString)
  | newRepository (url : GoString)
  /-- `oras.Copy(ctx, repo, ref, store, ref, oras.DefaultCopyOptions)`. -/
  | orasCopy (url ref dst : GoString)
  | runScript (body cwd : GoString)
  deriving DecidableEq, Repr

abbrev ProdOp.Ans : ProdOp → Type
  | .resolveRevision _ _ => Except GoError GoString
  | _ => Option GoError

abbrev prodSig : Sig := fsSig.sum ⟨ProdOp, ProdOp.Ans⟩

def plainClone (url dst : GoString) : Prog prodSig (Option GoError) :=
  .call (.inr (.plainClone url dst)) .ret

def resolveRevision (dst ref : GoString) : Prog prodSig (Except GoError GoString) :=
  .call (.inr (.resolveRevision dst ref)) .ret

def worktree (dst : GoString) : Prog prodSig (Option GoError) :=
  .call (.inr (.worktree dst)) .ret

def checkout (dst hash : GoString) : Prog prodSig (Option GoError) :=
  .call (.inr (.checkout dst hash)) .ret

def fileNew (dst : GoString) : Prog prodSig (Option GoError) := .call (.inr (.fileNew dst)) .ret

def newRepository (url : GoString) : Prog prodSig (Option GoError) :=
  .call (.inr (.newRepository url)) .ret

def orasCopy (url ref dst : GoString) : Prog prodSig (Option GoError) :=
  .call (.inr (.orasCopy url ref dst)) .ret

/-- `gitClone` from the resolution of the reference on. -/
def gitCheckout (ref dst : GoString) : Prog prodSig (Option GoError) := do
  match ← resolveRevision dst ref with
  | .error e => pure (some (.wrap "resolve %q: %w" [.str ref] e))
  | .ok hash =>
    match ← worktree dst with
    | some e => pure (some e)
    | none =>
      match ← checkout dst hash with
      | some e => pure (some (.wrap "checkout %q (%s): %w" [.str ref, .str hash] e))
      | none => pure none

def gitClone (url ref dst : GoString) : Prog prodSig (Option GoError) := do
  match ← plainClone url dst with
  | some e => pure (some (.wrap "clone %s: %w" [.str url] e))
  | none => if ref = [] then pure none else gitCheckout ref dst

/-- `strings.TrimPrefix`. -/
def trimPrefix (s p : GoString) : GoString := if p.isPrefixOf s then s.drop p.length else s

/-- The repository that `ociPull` asks for: the URL without its scheme. -/
def ociRepository (url : GoString) : GoString :=
  trimPrefix (trimPrefix (trimPrefix url (lit "oci://")) (lit "https://")) (lit "http://")

def ociPull (url ref dst : GoString) : Prog prodSig (Option GoError) := do
  let ref := if ref = [] then lit "latest" else ref
  let url := ociRepository url
  match ← (osMkdirAll dst).left with
  | some e => pure (some (.wrap "mkdir %s: %w" [.str dst] (.errno e)))
  | none =>
    match ← fileNew dst with
    | some e => pure (some (.wrap "file store %s: %w" [.str dst] e))
    | none =>
      match ← newRepository url with
      | some e => pure (some (.wrap "repo %s: %w" [.str url] e))
      | none =>
        match ← orasCopy url ref dst with
        | some e => pure (some (.wrap "oras copy %s@%s: %w" [.str url, .str ref] e))
        | none => pure none

/-- `bootRunner`: both hooks are wired. -/
def bootRunner (workDir sentinelPath : GoString) : Runner where
  workDir := workDir
  sentinelPath := sentinelPath

variable {S : Type}

/-- The calls of `Run` with the hooks that `bootRunner` wires. -/
def wired (g : Handler prodSig S) : Handler hookSig S
  | .inl op, s => g (.inl op) s
  | .inr (.clone url ref dst), s => run g (gitClone url ref dst) s
  | .inr (.pull url ref dst), s => run g (ociPull url ref dst) s
  | .inr (.script body cwd), s => g (.inr (.runScript body cwd)) s

/-! ## The payload directory -/

def Keeps (P : S → Prop) (step : S → S) : Prop := ∀ s, P s → P (step s)

/-- What is assumed of the working directory, where `empty` says that there is nothing in it and
`repo` that its payload directory holds a repository. The calls that `Run` makes itself change
neither. A clone into an empty directory makes a repository or, if it fails, leaves nothing; a clone
over a repository fails and leaves it. Looking at a repository or checking it out does not remove
it. -/
structure Payload (r : Runner) (g : Handler prodSig S) (empty repo : S → Prop) : Prop where
  own : ∀ op, r.Own op →
    Keeps empty (fun s => (g (.inl op) s).2) ∧ Keeps repo (fun s => (g (.inl op) s).2)
  clone_ok : ∀ url s, empty s → (g (.inr (.plainClone url r.payloadDir)) s).1 = none →
    repo (g (.inr (.plainClone url r.payloadDir)) s).2
  clone_fails : ∀ url s, empty s → (g (.inr (.plainClone url r.payloadDir)) s).1 ≠ none →
    empty (g (.inr (.plainClone url r.payloadDir)) s).2
  clone_exists : ∀ url s, repo s → (g (.inr (.plainClone url r.payloadDir)) s).1 ≠ none ∧
    repo (g (.inr (.plainClone url r.payloadDir)) s).2
  resolve : ∀ ref, Keeps repo fun s => (g (.inr (.resolveRevision r.payloadDir ref)) s).2
  worktree : Keeps repo fun s => (g (.inr (.worktree r.payloadDir)) s).2
  checkout : ∀ hash, Keeps repo fun s => (g (.inr (.checkout r.payloadDir hash)) s).2

/-- The script and the OCI pull of the configuration, if they run, leave an empty working directory
empty and a repository in place. -/
structure LeavesWorkDir (r : Runner) (g : Handler prodSig S) (empty repo : S → Prop)
    (cfg : Config) : Prop where
  pull : cfg.sourceKind = lit "oci" →
    Keeps empty (fun s => (run g (ociPull cfg.sourceURL cfg.sourceRef r.payloadDir) s).2) ∧
      Keeps repo (fun s => (run g (ociPull cfg.sourceURL cfg.sourceRef r.payloadDir) s).2)
  script : ∀ cwd, Keeps empty (fun s => (g (.inr (.runScript cfg.script cwd)) s).2) ∧
    Keeps repo (fun s => (g (.inr (.runScript cfg.script cwd)) s).2)

/-- The configuration asks for a clone, and from an empty working directory every step of `Run` with
it succeeds. -/
def Good (r : Runner) (g : Handler prodSig S) (empty present : S → Prop) (cfg : Config) : Prop :=
  cfg.sourceKind = lit "git" ∧
    ∀ s, empty s → ¬ present s → ∀ c ∈ log (wired g) (r.run cfg) s, succeeded c = true

end WeftAgent.Boot
