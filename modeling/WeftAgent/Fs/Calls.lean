import WeftAgent.Effect.Prog
import WeftAgent.Fs.Tree

/-!
# File system calls

The calls of `os` and `filepath` that the agent makes, as the signature `fsSig`, and what they do to
a `Tree` (`handle`). Only the errors that the shape of the tree forces are answered: an entry that
is missing, a directory where a file is needed, a file where a directory is needed.

`os.WriteFile` is two calls, since other processes can see the file between them: it is opened and
truncated, then written.
-/

namespace WeftAgent.Fs

open WeftAgent.Go WeftAgent.Go.Filepath WeftAgent.Effect

/-- The calls, with the path arguments as the strings the program passes. -/
inductive FsOp where
  | mkdirAll (path : GoString)
  | remove (path : GoString)
  | removeAll (path : GoString)
  /-- The first half of `os.WriteFile`: open for writing, created or truncated. -/
  | createTrunc (path : GoString)
  /-- The second half of `os.WriteFile`: write to the file opened at `path`. -/
  | write (path : GoString) (data : GoString)
  | rename (old new : GoString)
  | readFile (path : GoString)
  | stat (path : GoString)
  | readDir (path : GoString)
  /-- The entries `filepath.WalkDir(path, fn)` visits. -/
  | walkDir (path : GoString)
  deriving DecidableEq, Repr

/-- The type of the answers: the error (`none` for nil), or the value asked for. -/
abbrev FsOp.Ans : FsOp → Type
  | .mkdirAll _ | .remove _ | .removeAll _ | .createTrunc _ | .write _ _ | .rename _ _ =>
    Option Errno
  | .readFile _ => Except Errno GoString
  | .stat _ => Except Errno Kind
  | .readDir _ => List (GoString × Kind) × Option Errno
  | .walkDir _ => Except Errno (List (GoString × Kind))

abbrev fsSig : Sig := ⟨FsOp, FsOp.Ans⟩

/-- The path that a call's argument denotes. Relative paths are taken from the root directory. -/
def resolve (path : GoString) : Path := (path.splitOn slash).foldl (push true) []

theorem names_resolve (path : GoString) : Names (resolve path) :=
  names_foldl_push_rooted (fun _ he => slash_not_mem_of_mem_splitOn he) names_nil

def StrictlyBelow (root p : GoString) : Prop :=
  resolve root <+: resolve p ∧ resolve root ≠ resolve p

instance (root p : GoString) : Decidable (StrictlyBelow root p) := by
  unfold StrictlyBelow
  infer_instance

namespace Tree

/-- The error of looking up a path at which nothing stands. -/
def missing (t : Tree) (p : Path) : Errno :=
  if p.inits.any (fun q => q ≠ p ∧ (t.fileAt q).isSome) then .ENOTDIR else .ENOENT

/-- `os.MkdirAll`: it fails if the path or an ancestor is a file. -/
def mkdirAll (t : Tree) (p : Path) (hp : Names p) : Option Errno × Tree :=
  if p.inits.any (fun q => (t.fileAt q).isSome) then (some .ENOTDIR, t) else (none, t.mkdirs p hp)

/-- `os.Remove`: files and empty directories. -/
def remove (t : Tree) (p : Path) : Option Errno × Tree :=
  if t.get p = none then (some (t.missing p), t)
  else if hne : p = [] then (some .EBUSY, t)
  else if hp : t.childNames p = [] then (none, t.delete p hne hp)
  else (some .ENOTEMPTY, t)

/-- `os.RemoveAll`: a path that does not exist is no error. -/
def removeAll (t : Tree) (p : Path) : Option Errno × Tree :=
  if t.get p = none then (if t.missing p = .ENOENT then none else some (t.missing p), t)
  else (if p = [] then some .EBUSY else none, t.prune p)

/-- Opening a file for writing creates it or empties it. -/
def createTrunc (t : Tree) (p : Path) : Option Errno × Tree :=
  if t.get p = some .dir then (some .EISDIR, t)
  else if hp : t.Writable p then (none, t.putFile p [] hp)
  else (some (t.missing p), t)

/-- Writing to an open file. What is written to a file that has lost its path is not seen. -/
def write (t : Tree) (p : Path) (data : GoString) : Option Errno × Tree :=
  if hp : (t.fileAt p).isSome ∧ t.Writable p then (none, t.putFile p data hp.2) else (none, t)

/-- `os.Rename` of a regular file: it replaces a file, never a directory. The agent renames no
directories; such a call is refused here. -/
def rename (t : Tree) (p q : Path) : Option Errno × Tree :=
  match hp : t.get p with
  | none => (some (t.missing p), t)
  | some .dir => (some .EINVAL, t)
  | some (.file c) =>
    if t.get q = some .dir then (some .EEXIST, t)
    else if p = q then (none, t)
    else if hq : t.Writable q then (none, t.move p q c hp hq)
    else (some (t.missing q), t)

def readFile (t : Tree) (p : Path) : Except Errno GoString :=
  match t.get p with
  | none => .error (t.missing p)
  | some .dir => .error .EISDIR
  | some (.file c) => .ok c

def stat (t : Tree) (p : Path) : Except Errno Kind :=
  match t.get p with
  | none => .error (t.missing p)
  | some node => .ok node.kind

def kindAt (t : Tree) (p : Path) : Kind := ((t.get p).map Node.kind).getD .other

/-- `os.ReadDir`: the entries, sorted by name, and the error that cut the reading short. -/
def readDir (t : Tree) (p : Path) : List (GoString × Kind) × Option Errno :=
  match t.get p with
  | none => ([], some (t.missing p))
  | some (.file _) => ([], some .ENOTDIR)
  | some .dir => ((t.childNames p).map fun n => (n, t.kindAt (p ++ [n])), none)

/-- `filepath.WalkDir(path, fn)`: `path` itself as it was passed, then everything below it. -/
def walkDir (t : Tree) (path : GoString) : Except Errno (List (GoString × Kind)) :=
  let p := resolve path
  if t.get p = none then .error (t.missing p)
  else .ok ((path, t.kindAt p) ::
    ((t.below p).filter (· ≠ p)).map fun q => (absPath q, t.kindAt q))

end Tree

/-- What each call does to the tree. -/
def handle : Handler fsSig Tree
  | .mkdirAll path, t => t.mkdirAll (resolve path) (names_resolve path)
  | .remove path, t => t.remove (resolve path)
  | .removeAll path, t => t.removeAll (resolve path)
  | .createTrunc path, t => t.createTrunc (resolve path)
  | .write path data, t => t.write (resolve path) data
  | .rename old new, t => t.rename (resolve old) (resolve new)
  | .readFile path, t => (t.readFile (resolve path), t)
  | .stat path, t => (t.stat (resolve path), t)
  | .readDir path, t => (t.readDir (resolve path), t)
  | .walkDir path, t => (t.walkDir path, t)

/-- The part of a path that exists as a directory. -/
def Tree.existing (t : Tree) (p : Path) : Path :=
  p.take (Nat.findGreatest (fun n => t.get (p.take n) = some .dir) p.length)

/-- The paths at which a call can create, change or remove something on a system where the directory
`base` exists. `MkdirAll` also makes the missing directories on the way. -/
def Touches (base : Path) : FsOp → Path → Prop
  | .mkdirAll path, q => q <+: resolve path ∧ ¬ q <+: base
  | .remove path, q | .createTrunc path, q | .write path _, q => q = resolve path
  | .removeAll path, q => resolve path <+: q
  | .rename old new, q => q = resolve old ∨ q = resolve new
  | .readFile _, _ | .stat _, _ | .readDir _, _ | .walkDir _, _ => False

/-! ## The calls as programs -/

def osMkdirAll (path : GoString) : Prog fsSig (Option Errno) := .call (.mkdirAll path) .ret

def osRemove (path : GoString) : Prog fsSig (Option Errno) := .call (.remove path) .ret

def osRemoveAll (path : GoString) : Prog fsSig (Option Errno) := .call (.removeAll path) .ret

def osWriteFile (path data : GoString) : Prog fsSig (Option Errno) :=
  .call (.createTrunc path) fun
    | some e => .ret (some e)
    | none => .call (.write path data) .ret

def osRename (old new : GoString) : Prog fsSig (Option Errno) := .call (.rename old new) .ret

def osReadFile (path : GoString) : Prog fsSig (Except Errno GoString) := .call (.readFile path) .ret

def osStat (path : GoString) : Prog fsSig (Except Errno Kind) := .call (.stat path) .ret

def osReadDir (path : GoString) : Prog fsSig (List (GoString × Kind) × Option Errno) :=
  .call (.readDir path) .ret

/-- `filepath.WalkDir`, as the list of what it visits. -/
def walkDir (path : GoString) : Prog fsSig (Except Errno (List (GoString × Kind))) :=
  .call (.walkDir path) .ret

end WeftAgent.Fs
