import WeftAgent.Fs.Calls

/-!
# A file system whose calls can fail

What a call may answer, and leave behind, when the device is full, read-only or broken: it does what
`handle` says, or it fails with any error. A failed `MkdirAll` may have made some directories, a
failed open or write may leave anything in its file; a rename takes place as a whole or not at all.
-/

namespace WeftAgent.Fs

open WeftAgent.Go WeftAgent.Effect

/-- The answer and the tree that a call can lead to. -/
inductive MayAnswer (t : Tree) : (op : FsOp) → op.Ans → Tree → Prop where
  | done (op : FsOp) : MayAnswer t op (handle op t).1 (handle op t).2
  | mkdirAllFails {path : GoString} {e : Errno} {t' : Tree}
      (hfiles : ∀ q, t'.fileAt q = t.fileAt q) : MayAnswer t (.mkdirAll path) (some e) t'
  | createTruncFails {path : GoString} {e : Errno} {t' : Tree}
      (hothers : ∀ q, q ≠ resolve path → t'.get q = t.get q) :
      MayAnswer t (.createTrunc path) (some e) t'
  | writeFails {path data : GoString} {e : Errno} {t' : Tree}
      (hothers : ∀ q, q ≠ resolve path → t'.get q = t.get q) :
      MayAnswer t (.write path data) (some e) t'
  | renameFails {old new : GoString} {e : Errno} : MayAnswer t (.rename old new) (some e) t
  | removeFails {path : GoString} {e : Errno} : MayAnswer t (.remove path) (some e) t

/-- A file system on states of any kind, each of which holds a tree. -/
structure FaultyFs (S : Type) where
  handler : Handler fsSig S
  tree : S → Tree
  /-- Every call is answered in a way that is possible. -/
  mayAnswer : ∀ op s, MayAnswer (tree s) op (handler op s).1 (tree (handler op s).2)

/-- The file system on which no call fails. -/
def FaultyFs.reliable : FaultyFs Tree := ⟨handle, id, fun op _ => .done op⟩

end WeftAgent.Fs
