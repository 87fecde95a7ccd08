import WeftAgent.Go.Spaces
import WeftAgent.Properties.Properties

/-!
# First-boot provisioning

The boot request that the watcher reads from the property tree (`pkg/boot/boot.go`), one poll of the
watcher (`watchAndRunBoot` in `cmd/weft-microvm-agent/main.go`), and the guest in which the property
subscriber and the watcher run side by side on one file system.
-/

namespace WeftAgent.Boot

open WeftAgent.Go WeftAgent.Go.Filepath WeftAgent.Effect WeftAgent.Fs WeftAgent.Properties

/-- `Config`: what to pull and what to run. -/
structure Config where
  sourceKind : GoString := []
  sourceURL : GoString := []
  sourceRef : GoString := []
  script : GoString := []
  deriving DecidableEq, Repr

/-- `Config.IsEmpty`: no kind and no script. -/
def Config.isEmpty (c : Config) : Bool := c.sourceKind = [] ∧ trimSpace c.script = []

def kindKey : GoString := lit "weft.boot/source.kind"

def urlKey : GoString := lit "weft.boot/source.url"

def refKey : GoString := lit "weft.boot/source.ref"

def scriptKey : GoString := lit "weft.boot/script"

/-- `readOptionalFile`: a file that does not exist reads as empty. -/
def readOptionalFile (path : GoString) : Prog fsSig (Except Errno GoString) := do
  match ← osReadFile path with
  | .ok b => pure (.ok b)
  | .error e => if isNotExist e then pure (.ok []) else pure (.error e)

/-- One round of the loop of `ReadFromPropertiesDir`: the trimmed content of the file of a key. -/
def readKey (root key : GoString) : Prog fsSig (Except Errno GoString) := do
  match ← readOptionalFile (join [root, key]) with
  | .ok v => pure (.ok (trimNewlines v))
  | .error e => pure (.error e)

/-- `ReadFromPropertiesDir`: the four files are read one after the other. -/
def readFromPropertiesDir (root : GoString) : Prog fsSig (Except Errno Config) := do
  match ← readKey root kindKey with
  | .error e => pure (.error e)
  | .ok kind =>
    match ← readKey root urlKey with
    | .error e => pure (.error e)
    | .ok url =>
      match ← readKey root refKey with
      | .error e => pure (.error e)
      | .ok ref =>
        match ← readKey root scriptKey with
        | .error e => pure (.error e)
        | .ok script => pure (.ok ⟨kind, url, ref, script⟩)

/-! ## The watcher -/

/-- What the watcher does besides reading files. -/
inductive WatchOp where
  /-- `shutdownCtx.Err() != nil`. -/
  | shuttingDown
  /-- `os.Stat(runner.SentinelPath)` finds the sentinel. -/
  | sentinelPresent
  /-- `time.Now().After(deadline)`. -/
  | pastDeadline
  /-- The `select` between polls; the answer is whether shutdown ended it. -/
  | waitPoll
  /-- `runner.Run(ctx, cfg)`; the answer is whether it returned nil. -/
  | runBoot (cfg : Config)
  deriving DecidableEq, Repr

/-- File system calls, and the watcher's own. -/
abbrev watchSig : Sig := fsSig.sum ⟨WatchOp, fun _ => Bool⟩

/-- One of the watcher's own calls. -/
def watch (op : WatchOp) : Prog watchSig Bool := .call (.inr op) .ret

/-- What the watcher does after one round of its loop. -/
inductive Next where
  | again
  | done
  deriving DecidableEq, Repr

/-- One round of the loop of `watchAndRunBoot`. -/
def poll (propsDir : GoString) : Prog watchSig Next := do
  if ← watch .shuttingDown then pure .done
  else if ← watch .sentinelPresent then pure .done
  else
    match ← (readFromPropertiesDir propsDir).left with
    | .error _ => if ← watch .waitPoll then pure .done else pure .again
    | .ok cfg =>
      if cfg.isEmpty = false then do
        let _ ← watch (.runBoot cfg)
        pure .done
      else if ← watch .pastDeadline then do
        let _ ← watch (.runBoot {})
        pure .done
      else if ← watch .waitPoll then pure .done
      else pure .again

/-! ## The guest -/

/-- The property subscriber and the boot watcher, sharing the file system. -/
structure Guest where
  tree : Tree
  /-- Sets that passed validation and wait for the subscriber. -/
  inbox : List PropertySet := []
  /-- The set that was taken from the inbox last. -/
  current : PropertySet := .empty
  /-- What is left of its apply. -/
  writer : Prog fsSig Outcome := .ret (.returned none)
  /-- What is left of the watcher's current round. -/
  watcher : Prog watchSig Next := .ret .again
  /-- All sets that were published so far. -/
  published : List PropertySet := []
  /-- The configurations that were handed to `Runner.Run` so far. -/
  handed : List Config := []

/-- What can happen next in the guest. -/
inductive Event where
  /-- A message with the set arrives. -/
  | publish (ps : PropertySet)
  /-- The subscriber, being idle, starts to apply the next set (with a bound on the depth of the
  directories it will prune). -/
  | beginApply (fuel : Nat)
  /-- The subscriber makes its next file system call. -/
  | write
  /-- The watcher makes its next call; if it is one of its own, this is the answer. -/
  | read (answer : Bool)

/-- The watcher's next call. -/
def stepWatcher (propsDir : GoString) (g : Guest) (answer : Bool) : Guest :=
  match g.watcher with
  | .ret .again => { g with watcher := poll propsDir }
  | .ret .done => g
  | .call (.inl op) k => { g with watcher := k (handle op g.tree).1, tree := (handle op g.tree).2 }
  | .call (.inr (.runBoot cfg)) k =>
    { g with watcher := k answer, handed := g.handed ++ [cfg] }
  | .call (.inr _) k => { g with watcher := k answer }

/-- One step of the guest. A message that fails validation is dropped by `HandleMessage`; the
subscriber handles one message at a time. -/
def step (propsDir : GoString) (g : Guest) : Event → Guest
  | .publish ps =>
    if ps.validate = none then
      { g with inbox := g.inbox ++ [ps], published := g.published ++ [ps] }
    else g
  | .beginApply fuel =>
    match g.writer, g.inbox with
    | .ret _, ps :: rest =>
      { g with inbox := rest, current := ps, writer := propertiesApplyer fuel propsDir ps }
    | _, _ => g
  | .write =>
    { g with writer := (advance handle g.writer g.tree).1,
             tree := (advance handle g.writer g.tree).2 }
  | .read answer => stepWatcher propsDir g answer

/-- The guest after a run. -/
def runEvents (propsDir : GoString) (g : Guest) (evs : List Event) : Guest :=
  evs.foldl (step propsDir) g

/-- The value that a set has for the file of a key: that of the last key, in the order of the
writes, with this file; a set without such a key has none. -/
def entryOf (root : GoString) (ps : PropertySet) (key : GoString) : Option GoString :=
  (ps.sortedKeys.filter fun k => keyPath root k = keyPath root key).getLast?.map ps.value

/-- The configuration that a set asks for. -/
def configOf (root : GoString) (ps : PropertySet) : Config where
  sourceKind := trimNewlines ((entryOf root ps kindKey).getD [])
  sourceURL := trimNewlines ((entryOf root ps urlKey).getD [])
  sourceRef := trimNewlines ((entryOf root ps refKey).getD [])
  script := trimNewlines ((entryOf root ps scriptKey).getD [])

end WeftAgent.Boot
