import WeftAgent.Boot.Boot

/-!
# The provisioning runner

`Runner.Run` of `pkg/boot/boot.go`, over the file system calls it makes and its hooks: the Cloner,
the Puller and the script. What is written to `LogOut` is left out. `cloner` and `puller` say
whether the hook is wired.
-/

namespace WeftAgent.Boot

open WeftAgent.Go WeftAgent.Go.Filepath WeftAgent.Effect WeftAgent.Fs

/-- The hooks of the runner, and its script. -/
inductive HookOp where
  | clone (url ref dst : GoString)
  | pull (url ref dst : GoString)
  /-- `RunScript(ctx, body, cwd, LogOut)`. -/
  | script (body cwd : GoString)
  deriving DecidableEq, Repr

abbrev hookSig : Sig := fsSig.sum ⟨HookOp, fun _ => Option GoError⟩

def hook (op : HookOp) : Prog hookSig (Option GoError) := .call (.inr op) .ret

structure Runner where
  workDir : GoString
  sentinelPath : GoString
  cloner : Bool := true
  puller : Bool := true
  deriving DecidableEq, Repr

namespace Runner

def payloadDir (r : Runner) : GoString := join [r.workDir, lit "payload"]

def touchSentinel (r : Runner) : Prog fsSig (Option GoError) := do
  match ← osMkdirAll (dir r.sentinelPath) with
  | some e => pure (some (.errno e))
  | none =>
    match ← osWriteFile r.sentinelPath (lit "ok\n") with
    | some e => pure (some (.errno e))
    | none => pure none

/-- The pull step of `Run`. -/
def pull (r : Runner) (cfg : Config) : Prog hookSig (Option GoError) :=
  if cfg.sourceKind = [] ∨ cfg.sourceKind = lit "none" then pure none
  else if cfg.sourceKind = lit "git" then
    if r.cloner = false then pure (some (.errorf "git pull requested but no Cloner wired" []))
    else do
      match ← hook (.clone cfg.sourceURL cfg.sourceRef r.payloadDir) with
      | some e => pure (some (.wrap "git clone: %w" [] e))
      | none => pure none
  else if cfg.sourceKind = lit "oci" then
    if r.puller = false then pure (some (.errorf "oci pull requested but no Puller wired" []))
    else do
      match ← hook (.pull cfg.sourceURL cfg.sourceRef r.payloadDir) with
      | some e => pure (some (.wrap "oci pull: %w" [] e))
      | none => pure none
  else pure (some (.errorf "unknown source kind %q" [.str cfg.sourceKind]))

/-- The script step of `Run`: in the payload directory if there is one. -/
def script (r : Runner) (cfg : Config) : Prog hookSig (Option GoError) :=
  if trimSpace cfg.script ≠ [] then do
    let found ← (osStat r.payloadDir).left
    let cwd := match found with
      | .ok _ => r.payloadDir
      | .error _ => r.workDir
    match ← hook (.script cfg.script cwd) with
    | some e => pure (some (.wrap "script: %w" [] e))
    | none => pure none
  else pure none

/-- `Run` from the pull step on. -/
def provision (r : Runner) (cfg : Config) : Prog hookSig (Option GoError) := do
  match ← r.pull cfg with
  | some e => pure (some e)
  | none =>
    match ← r.script cfg with
    | some e => pure (some e)
    | none => r.touchSentinel.left

/-- `Run`: the error it returns, `none` for nil. -/
def run (r : Runner) (cfg : Config) : Prog hookSig (Option GoError) :=
  if r.sentinelPath = [] then pure (some (.errorf "SentinelPath is required" []))
  else do
    match ← (osStat r.sentinelPath).left with
    | .ok _ => pure none
    | .error _ =>
      if cfg.isEmpty then r.touchSentinel.left
      else
        match ← (osMkdirAll r.workDir).left with
        | some e => pure (some (.wrap "mkdir workdir: %w" [] (.errno e)))
        | none => r.provision cfg

end Runner

/-! ## Effects -/

/-- The effects that a call of `Run` is made for. -/
inductive Effect where
  | clone (url ref dst : GoString)
  | pull (url ref dst : GoString)
  | script (body : GoString)
  | sentinel
  /-- A pull that nothing is wired for. -/
  | unsupported (kind : GoString)
  deriving DecidableEq, Repr

abbrev HookCall := Σ op : hookSig.Op, hookSig.Ans op

/-- The call did not fail. Asking whether a file is there does not count as a failure. -/
def succeeded : HookCall → Bool
  | ⟨.inl (.mkdirAll _), err⟩ => Option.isNone err
  | ⟨.inl (.createTrunc _), err⟩ => Option.isNone err
  | ⟨.inl (.write _ _), err⟩ => Option.isNone err
  | ⟨.inr _, err⟩ => Option.isNone err
  | _ => true

namespace Runner

/-- The effect that a call has, if it has one. -/
def effectOf (r : Runner) : hookSig.Op → Option Effect
  | .inr (.clone url ref dst) => some (.clone url ref dst)
  | .inr (.pull url ref dst) => some (.pull url ref dst)
  | .inr (.script body _) => some (.script body)
  | .inl (.createTrunc path) => if path = r.sentinelPath then some .sentinel else none
  | _ => none

def effects (r : Runner) (calls : List HookCall) : List Effect :=
  calls.filterMap fun c => r.effectOf c.1

/-- The pull that a configuration asks for. -/
def pullEffects (r : Runner) (cfg : Config) : List Effect :=
  if cfg.sourceKind = [] ∨ cfg.sourceKind = lit "none" then []
  else if cfg.sourceKind = lit "git" ∧ r.cloner then
    [.clone cfg.sourceURL cfg.sourceRef r.payloadDir]
  else if cfg.sourceKind = lit "oci" ∧ r.puller then
    [.pull cfg.sourceURL cfg.sourceRef r.payloadDir]
  else [.unsupported cfg.sourceKind]

def scriptEffects (cfg : Config) : List Effect :=
  if trimSpace cfg.script ≠ [] then [.script cfg.script] else []

/-- All that a configuration asks for, in order. -/
def required (r : Runner) (cfg : Config) : List Effect :=
  r.pullEffects cfg ++ scriptEffects cfg ++ [.sentinel]

/-- The calls have all the effects that the configuration asks for, and none of them failed. -/
def Completed (r : Runner) (cfg : Config) (calls : List HookCall) : Prop :=
  r.effects calls = r.required cfg ∧ ∀ c ∈ calls, succeeded c = true

/-- Nothing failed before any of the effects. -/
def Ordered (r : Runner) (calls : List HookCall) : Prop :=
  ∀ before c after, calls = before ++ c :: after → r.effectOf c.1 ≠ none →
    ∀ c' ∈ before, succeeded c' = true

/-- The file system calls of `Run`. -/
def Own (r : Runner) : FsOp → Prop
  | .stat path => path = r.sentinelPath ∨ path = r.payloadDir
  | .mkdirAll path => path = r.workDir ∨ path = dir r.sentinelPath
  | .createTrunc path => path = r.sentinelPath
  | .write path data => path = r.sentinelPath ∧ data = lit "ok\n"
  | _ => False

variable {S : Type}

def writeSentinel (r : Runner) : Prog hookSig (Option Errno) :=
  (osWriteFile r.sentinelPath (lit "ok\n")).left

/-- What is assumed of the sentinel, where `present` says whether it exists: `os.Stat` finds it
exactly then and does not remove it, no other call before the write creates it, and the write
creates it unless it fails. -/
structure Sentinel (r : Runner) (h : Handler hookSig S) (present : S → Prop) : Prop where
  named : r.sentinelPath = [] → ∀ s, ¬ present s
  stat : ∀ s, (∃ k, (h (.inl (.stat r.sentinelPath)) s).1 = .ok k) ↔ present s
  stat_keeps : ∀ s, present s → present (h (.inl (.stat r.sentinelPath)) s).2
  stat_creates : ∀ path s, r.Own (.stat path) → present (h (.inl (.stat path)) s).2 → present s
  mkdirAll_creates : ∀ path s, r.Own (.mkdirAll path) →
    present (h (.inl (.mkdirAll path)) s).2 → present s
  hook_creates : ∀ op s, present (h (.inr op) s).2 → present s
  write : ∀ s, ¬ present s →
    (present (Effect.run h r.writeSentinel s).2 ↔ (Effect.run h r.writeSentinel s).1 = none)

/-- The file system calls on a tree; what the hooks do to it is given. -/
def onTree (hooks : HookOp → Tree → Option GoError × Tree) : Handler hookSig Tree
  | .inl op, t => handle op t
  | .inr op, t => hooks op t

/-! ## Histories -/

/-- One call of `Run`, with the state before and after it. -/
structure Call (S : Type) where
  cfg : Config
  before : S
  log : List HookCall
  result : Option GoError
  after : S

def callIn (r : Runner) (h : Handler hookSig S) (cfg : Config) (s : S) : Call S where
  cfg := cfg
  before := s
  log := Effect.log h (r.run cfg) s
  result := (Effect.run h (r.run cfg) s).1
  after := (Effect.run h (r.run cfg) s).2

/-- A sequence of calls of `Run`. Before each of them the state may change, as it does when the VM
is booted again. -/
def calls (r : Runner) (h : Handler hookSig S) : S → List ((S → S) × Config) → List (Call S)
  | _, [] => []
  | s, (change, cfg) :: rest =>
    r.callIn h cfg (change s) :: r.calls h (r.callIn h cfg (change s)).after rest

def afterCalls (r : Runner) (h : Handler hookSig S) (s : S) (hist : List ((S → S) × Config)) : S :=
  hist.foldl (fun s p => (r.callIn h p.2 (p.1 s)).after) s

end Runner

end WeftAgent.Boot
