import WeftAgent.Fs.Calls

/-!
# VM properties

The guest side of `weft.properties.<vmID>`: the validation of a published property set
(`pkg/properties/properties.go`) and the function that mirrors it to a directory tree, one file a
key (`cmd/weft-microvm-agent/properties_linux.go`).
-/

namespace WeftAgent.Properties

open WeftAgent.Go WeftAgent.Go.Filepath WeftAgent.Effect WeftAgent.Fs

/-- The desired properties: names and values. -/
structure PropertySet where
  properties : GoMap GoString GoString

namespace PropertySet

def empty : PropertySet := ⟨∅⟩

def singleton (k v : GoString) : PropertySet := ⟨AList.singleton k v⟩

/-- The set with one more property, or another value for it. -/
def insert (k v : GoString) (s : PropertySet) : PropertySet := ⟨s.properties.insert k v⟩

/-- The keys, in the order one `range` over the map visits them. -/
def keys (s : PropertySet) : List GoString := s.properties.keys

def value (s : PropertySet) (k : GoString) : GoString := s.properties.index k

/-- The checks that `Validate` makes on one key. -/
def checkKey (k : GoString) : Option GoError :=
  if k = [] then some (.errorf "empty property key" [])
  else if [slash] <+: k then some (.errorf "property key %q starts with '/'" [.str k])
  else if dotdot <:+: k then some (.errorf "property key %q contains '..'" [.str k])
  else if 0 ∈ k then some (.errorf "property key contains NUL" [])
  else none

/-- `PropertySet.Validate`: the error of the first bad key, `none` for nil. -/
def validate (s : PropertySet) : Option GoError := s.keys.findSome? checkKey

/-- The keys after `sort.Strings(keys)`. -/
def sortedKeys (s : PropertySet) : List GoString := s.keys.insertionSort (· ≤ ·)

end PropertySet

def tmpSuffix : GoString := lit ".tmp"

/-- The file of a key. -/
def keyPath (root k : GoString) : GoString := join [root, k]

/-- The temporary file that is renamed to the file of a key. -/
def tmpPath (root k : GoString) : GoString := keyPath root k ++ tmpSuffix

/-- The map `want`: the desired set indexed by file. -/
def wantMap (root : GoString) (ps : PropertySet) : GoMap GoString GoString :=
  ps.properties.entries.foldl (fun want e => want.insert (keyPath root e.1) e.2) ∅

/-- What `collectFiles` makes of one visited entry. -/
def collected (e : GoString × Kind) : Option GoString :=
  if e.2 = .dir then none
  else if e.2 ≠ .regular then none
  else if ext e.1 = tmpSuffix then none
  else some e.1

/-- `collectFiles`: the regular files under root, temporary files left out. -/
def collectFiles (root : GoString) : Prog fsSig (Except Errno (List GoString)) := do
  match ← walkDir root with
  | .error e => pure (.error e)
  | .ok entries => pure (.ok (entries.filterMap collected))

/-- The garbage collection: files that are not wanted are removed; one that is gone already is no
error. -/
def removeStale (want : GoMap GoString GoString) : List GoString → Prog fsSig (Option GoError)
  | [] => pure none
  | p :: ps =>
    if p ∈ want then removeStale want ps
    else do
      match ← osRemove p with
      | none => removeStale want ps
      | some e =>
        if isNotExist e then removeStale want ps
        else pure (some (.wrap "remove stale %s: %w" [.str p] (.errno e)))

/-- One entry is written: parent directory, temporary file, rename. -/
def writeKey (root : GoString) (ps : PropertySet) (k : GoString) :
    Prog fsSig (Option GoError) := do
  let path := keyPath root k
  match ← osMkdirAll (dir path) with
  | some e => pure (some (.wrap "mkdir parent of %s: %w" [.str path] (.errno e)))
  | none =>
    let tmp := tmpPath root k
    match ← osWriteFile tmp (ps.value k) with
    | some e => pure (some (.wrap "write tmp %s: %w" [.str tmp] (.errno e)))
    | none =>
      match ← osRename tmp path with
      | some e => do
        let _ ← osRemove tmp
        pure (some (.wrap "rename %s -> %s: %w" [.str tmp, .str path] (.errno e)))
      | none => pure none

/-- The entries are written in order, up to the first failure. -/
def writeKeys (root : GoString) (ps : PropertySet) : List GoString → Prog fsSig (Option GoError)
  | [] => pure none
  | k :: ks => do
    match ← writeKey root ps k with
    | some err => pure (some err)
    | none => writeKeys root ps ks

/-- The loop of `pruneEmptyDirs` over the entries of a directory: `visit` is called for each
subdirectory, as long as it returns. -/
def pruneEntries (visit : GoString → Prog fsSig Bool) :
    List (GoString × Kind) → Prog fsSig Bool
  | [] => pure true
  | e :: es =>
    if e.2 = .dir then do
      if ← visit e.1 then pruneEntries visit es else pure false
    else pruneEntries visit es

/-- `pruneEmptyDirs(root, dir)`, with a bound on the depth of the recursion: `false` means that the
bound was reached before the function returned. -/
def pruneEmptyDirs (fuel : Nat) (root dir : GoString) : Prog fsSig Bool :=
  match fuel with
  | 0 => pure false
  | fuel + 1 => do
    match ← osReadDir dir with
    | (_, some _) => pure true
    | (entries, none) =>
      if ← pruneEntries (fun name => pruneEmptyDirs fuel root (join [dir, name])) entries then
        if dir = root then pure true
        else
          match ← osReadDir dir with
          | ([], _) => do
            let _ ← osRemove dir
            pure true
          | (_ :: _, _) => pure true
      else pure false

/-- How a call of the apply function ends, for a given bound on the recursion depth. -/
inductive Outcome where
  | returned (err : Option GoError)
  | unfinished
  deriving DecidableEq, Repr

/-- The part of the apply function up to the pruning of directories. -/
def syncFiles (root : GoString) (ps : PropertySet) : Prog fsSig (Option GoError) := do
  match ← osMkdirAll root with
  | some e => pure (some (.wrap "mkdir %s: %w" [.str root] (.errno e)))
  | none =>
    match ← collectFiles root with
    | .error e => pure (some (.wrap "walk %s: %w" [.str root] (.errno e)))
    | .ok existing =>
      match ← removeStale (wantMap root ps) existing with
      | some err => pure (some err)
      | none => writeKeys root ps ps.sortedKeys

/-- The function `propertiesApplyer(root)` returns. -/
def propertiesApplyer (fuel : Nat) (root : GoString) (ps : PropertySet) : Prog fsSig Outcome := do
  match ← syncFiles root ps with
  | some err => pure (.returned (some err))
  | none => if ← pruneEmptyDirs fuel root root then pure (.returned none) else pure .unfinished

/-! ## Applying sets to a tree -/

/-- A recursion depth that suffices to prune the tree the files were synced to. -/
def pruneFuel (root : GoString) (ps : PropertySet) (t : Tree) : Nat :=
  (run handle (syncFiles root ps) t).2.height + 1

/-- The outcome of one apply on a tree, and the tree after it. -/
def apply (root : GoString) (ps : PropertySet) (t : Tree) : Outcome × Tree :=
  run handle (propertiesApplyer (pruneFuel root ps t) root ps) t

/-- The tree after the sets of a list were applied one after the other, whether or not the applies
returned nil. -/
def applyAll (root : GoString) (sets : List PropertySet) (t : Tree) : Tree :=
  sets.foldl (fun t ps => (apply root ps t).2) t

end WeftAgent.Properties
