import WeftAgent.Sshd.Server
import Mathlib.Logic.Function.Basic

/-!
# The window of a session

The window sizes of the ptys that the request loop of `pkg/sshd/server.go` starts and resizes, and
the size requests of the client. `pty.StartWithSize` opens a pty of the given size; `pty.Setsize` is
taken to succeed on a pty that is open.
-/

namespace WeftAgent.Sshd

open Go

/-- The size of each pty, by its master. -/
abbrev Windows := PtyFile → Option Winsize

def Windows.after (h : Host) (w : Windows) : Effect → Windows
  | .startShell ptyReq envVars execLine =>
    match startShell h ptyReq envVars execLine with
    | .ok f => Function.update w f (some (initialWinsize ptyReq))
    | .error _ => w
  | .setsize f size => Function.update w f (some size)
  | .reply _ => w

/-- The sizes after the effects of a session. -/
def windows (h : Host) (effects : List Effect) : Windows :=
  effects.foldl (Windows.after h) fun _ => none

/-- The rows and columns of a well-formed `pty-req` or `window-change` request. -/
def sizeOf (req : Request) : Option (UInt32 × UInt32) :=
  match req.type with
  | .ptyReq =>
    match parsePtyReq req.payload with
    | .done (p, none) => some (p.rows, p.cols)
    | _ => none
  | .windowChange =>
    match parseWinChReq req.payload with
    | .done (w, none) => some (w.rows, w.cols)
    | _ => none
  | _ => none

/-- The size requests of a client that counts the `pty-req` before the start and every
`window-change`: the size of a request taken up in a state, if it counts. -/
def sizeAsked (pass : Session × Request) : Option (UInt32 × UInt32) :=
  if pass.2.type = .ptyReq ∧ pass.1.ptyMaster ≠ none then none else sizeOf pass.2

/-- The size requests that take effect: a `pty-req` before the start, a `window-change` after it. -/
def sizeHonoured (pass : Session × Request) : Option (UInt32 × UInt32) :=
  if pass.2.type = .ptyReq ↔ pass.1.ptyMaster = none then sizeOf pass.2 else none

end WeftAgent.Sshd
