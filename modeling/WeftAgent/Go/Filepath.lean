import WeftAgent.Go.Basic
import Mathlib.Data.List.DropRight

/-!
# `path/filepath` on Unix

`Clean`, `Join`, `Dir` and `Ext` as their documentation describes them: a path is split at the
slashes; empty elements and `.` elements are dropped; `..` removes the element before it, stays at
the front of a relative path and is dropped at the front of a rooted one.
-/

namespace WeftAgent.Go.Filepath

def slash : UInt8 := 47

def dot : UInt8 := 46

def dotdot : GoString := [dot, dot]

def isAbs (p : GoString) : Bool := p.head? = some slash

/-- One element of the path being cleaned is read; the elements kept so far are `kept`. -/
def push (rooted : Bool) (kept : List GoString) (e : GoString) : List GoString :=
  if e = [] ∨ e = [dot] then kept
  else if e = dotdot then
    if kept = [] then (if rooted then [] else [dotdot])
    else if kept.getLast? = some dotdot then kept ++ [dotdot]
    else kept.dropLast
  else kept ++ [e]

/-- The elements of the cleaned path. -/
def elements (p : GoString) : List GoString :=
  (p.splitOn slash).foldl (push (isAbs p)) []

/-- The path with the given elements. -/
def render (rooted : Bool) (els : List GoString) : GoString :=
  if rooted then slash :: [slash].intercalate els
  else if els = [] then [dot]
  else [slash].intercalate els

def clean (p : GoString) : GoString := render (isAbs p) (elements p)

/-- `filepath.Join`: leading empty arguments are ignored. -/
def join (elem : List GoString) : GoString :=
  match elem.dropWhile (· = []) with
  | [] => []
  | es => clean ([slash].intercalate es)

/-- `filepath.Dir`: everything up to the last slash, cleaned. -/
def dir (p : GoString) : GoString := clean (p.rdropWhile (· ≠ slash))

/-- `filepath.Ext`: the last element from its last dot on, or nothing. -/
def ext (p : GoString) : GoString :=
  let base := p.rtakeWhile (· ≠ slash)
  if dot ∈ base then dot :: base.rtakeWhile (· ≠ dot) else []

end WeftAgent.Go.Filepath
