import WeftAgent.Go.Slice

/-!
# The embedded SSH server: one session channel

The payload parsers and the request loop of `pkg/sshd/server.go`. Payload bytes are chosen by the
peer, so the parsers live in `Go.Run`: every slice and index expression of the source is evaluated
with its bounds checked. Lengths and dimensions are `uint32` in the source and `UInt32` here, so
`4 + n` wraps as it does there.

`startShell` ends in `pty.StartWithSize`, which is outside the repository; it is the field
`startWithSize` of `Host`. The copy goroutines started after it and the log lines are not part of
this module.
-/

namespace WeftAgent.Sshd

open Go

/-! ## Request payload parsers -/

/-- The expression `uint32(b0)<<24 | uint32(b1)<<16 | uint32(b2)<<8 | uint32(b3)`. -/
def beWord (b0 b1 b2 b3 : UInt8) : UInt32 :=
  b0.toUInt32 <<< 24 ||| b1.toUInt32 <<< 16 ||| b2.toUInt32 <<< 8 ||| b3.toUInt32

/-- `beUint32`: the first four bytes as a big-endian word. -/
def beUint32 (b : GoString) : Run UInt32 := do
  let b0 ← index b 0
  let b1 ← index b 1
  let b2 ← index b 2
  let b3 ← index b 3
  return beWord b0 b1 b2 b3

/-- `unmarshalString`: the length-prefixed string at the head of `b`, the bytes behind it, and
whether there was one. -/
def unmarshalString (b : GoString) : Run (GoString × GoString × Bool) := do
  if b.length < 4 then
    return ([], b, false)
  let n ← beUint32 (← slice b 0 4)
  if UInt32.ofNat b.length < 4 + n then
    return ([], b, false)
  let s ← slice b 4 (4 + n).toNat
  let rest ← sliceFrom b (4 + n).toNat
  return (s, rest, true)

structure PtyReqPayload where
  term : GoString := []
  cols : UInt32 := 0
  rows : UInt32 := 0
  xPx : UInt32 := 0
  yPx : UInt32 := 0
  deriving DecidableEq, Repr

/-- `parsePtyReq`: the payload (zero or partly filled on error) and the error. -/
def parsePtyReq (p : GoString) : Run (PtyReqPayload × Option GoError) := do
  let r : PtyReqPayload := {}
  let (term, rest, ok) ← unmarshalString p
  if !ok then
    return (r, some (.errorf "pty-req: missing TERM" []))
  let r := { r with term := term }
  if rest.length < 16 then
    return (r, some (.errorf "pty-req: short" []))
  let cols ← beUint32 (← slice rest 0 4)
  let rows ← beUint32 (← slice rest 4 8)
  let xPx ← beUint32 (← slice rest 8 12)
  let yPx ← beUint32 (← slice rest 12 16)
  return ({ r with cols := cols, rows := rows, xPx := xPx, yPx := yPx }, none)

/-- `parseEnvReq`: key, value and error. -/
def parseEnvReq (p : GoString) : Run (GoString × GoString × Option GoError) := do
  let (k, rest, ok) ← unmarshalString p
  if !ok then
    return ([], [], some (.errorf "env: missing key" []))
  let (v, _, ok) ← unmarshalString rest
  if !ok then
    return ([], [], some (.errorf "env: missing value" []))
  return (k, v, none)

/-- `parseExecReq`: the command line and the error. -/
def parseExecReq (p : GoString) : Run (GoString × Option GoError) := do
  let (line, _, ok) ← unmarshalString p
  if !ok then
    return ([], some (.errorf "exec: missing command" []))
  return (line, none)

structure WinChPayload where
  cols : UInt32 := 0
  rows : UInt32 := 0
  xPx : UInt32 := 0
  yPx : UInt32 := 0
  deriving DecidableEq, Repr

def parseWinChReq (p : GoString) : Run (WinChPayload × Option GoError) := do
  if p.length < 16 then
    return ({}, some (.errorf "window-change: short" []))
  let cols ← beUint32 (← slice p 0 4)
  let rows ← beUint32 (← slice p 4 8)
  let xPx ← beUint32 (← slice p 8 12)
  let yPx ← beUint32 (← slice p 12 16)
  return ({ cols := cols, rows := rows, xPx := xPx, yPx := yPx }, none)

/-! ## Starting the shell -/

structure Winsize where
  rows : UInt16 := 0
  cols : UInt16 := 0
  x : UInt16 := 0
  y : UInt16 := 0
  deriving DecidableEq, Repr

/-- The `exec.Cmd` that `startShell` builds; `SysProcAttr` always has `Setsid` and `Setctty`. -/
structure Cmd where
  path : GoString
  args : List GoString
  env : List GoString
  deriving DecidableEq, Repr

/-- A pty master (`*os.File`), named by its descriptor. -/
abbrev PtyFile := Nat

/-- What a session uses of the server and of the operating system. -/
structure Host where
  shell : GoString
  environ : List GoString
  /-- `pty.StartWithSize(cmd, winsize)`: the pty master of the started process, or the error. -/
  startWithSize : Cmd → Winsize → Except GoError PtyFile

/-- The command of `startShell`: `Shell`, or `Shell -c execLine`. -/
def shellCmd (h : Host) (ptyReq : Option PtyReqPayload) (envVars : List GoString)
    (execLine : GoString) : Cmd :=
  let args := if execLine ≠ [] then [lit "-c", execLine] else []
  let env := h.environ ++ envVars
  let env := match ptyReq with
    | some r => if r.term ≠ [] then env ++ [lit "TERM=" ++ r.term] else env
    | none => env
  { path := h.shell, args := args, env := env }

def initialWinsize (ptyReq : Option PtyReqPayload) : Winsize :=
  match ptyReq with
  | some r => { rows := r.rows.toUInt16, cols := r.cols.toUInt16 }
  | none => { rows := 24, cols := 80 }

/-- `Server.startShell` up to the start of the copy goroutines. -/
def startShell (h : Host) (ptyReq : Option PtyReqPayload) (envVars : List GoString)
    (execLine : GoString) : Except GoError PtyFile :=
  h.startWithSize (shellCmd h ptyReq envVars execLine) (initialWinsize ptyReq)

/-! ## The request loop -/

/-- The channel request types that the loop tells apart. -/
inductive RequestType where
  | ptyReq
  | env
  | shell
  | exec
  | windowChange
  | other
  deriving DecidableEq, Repr

structure Request where
  type : RequestType
  wantReply : Bool
  payload : GoString
  deriving DecidableEq, Repr

/-- The variables of `handleSession`. -/
structure Session where
  ptyReq : Option PtyReqPayload := none
  envVars : List GoString := []
  execLine : GoString := []
  ptyMaster : Option PtyFile := none
  started : Bool := false
  deriving DecidableEq, Repr

/-- What the loop does to the outside. -/
inductive Effect where
  | reply (ok : Bool)
  | startShell (ptyReq : Option PtyReqPayload) (envVars : List GoString) (execLine : GoString)
  | setsize (master : PtyFile) (size : Winsize)
  deriving DecidableEq, Repr

/-- How one pass through the loop body ends. -/
inductive Next where
  | loop
  | stop
  deriving DecidableEq, Repr

/-- The part shared by the `shell` and `exec` branches from the call of `startShell` on. -/
def start (h : Host) (st : Session) (execLine : GoString) : Session × List Effect × Next :=
  let call := Effect.startShell st.ptyReq st.envVars execLine
  match startShell h st.ptyReq st.envVars execLine with
  | .error _ => (st, [call, .reply false], .stop)
  | .ok f => ({ st with ptyMaster := some f }, [call, .reply true], .loop)

/-- The body of the loop over `reqs`. -/
def handleRequest (h : Host) (st : Session) (req : Request) :
    Run (Session × List Effect × Next) := do
  match req.type with
  | .ptyReq =>
    let (p, err) ← parsePtyReq req.payload
    if err.isSome then
      return (st, [.reply false], .loop)
    return ({ st with ptyReq := some p }, [.reply true], .loop)
  | .env =>
    let (k, v, err) ← parseEnvReq req.payload
    let st := if err.isNone then { st with envVars := st.envVars ++ [k ++ lit "=" ++ v] } else st
    return (st, [.reply true], .loop)
  | .shell =>
    if st.started then
      return (st, [.reply false], .loop)
    return start h { st with started := true } []
  | .exec =>
    if st.started then
      return (st, [.reply false], .loop)
    let st := { st with started := true }
    let (line, err) ← parseExecReq req.payload
    if err.isSome then
      return (st, [.reply false], .loop)
    return start h { st with execLine := line } line
  | .windowChange =>
    match st.ptyMaster with
    | none => return (st, [], .loop)
    | some f =>
      let (w, err) ← parseWinChReq req.payload
      if err.isSome then
        return (st, [], .loop)
      return (st, [.setsize f { rows := w.rows.toUInt16, cols := w.cols.toUInt16,
                                x := w.xPx.toUInt16, y := w.yPx.toUInt16 }], .loop)
  | .other =>
    return (st, if req.wantReply then [.reply false] else [], .loop)

/-- The loop of `handleSession` from the state `st` on. -/
def requestLoop (h : Host) (st : Session) : List Request → Run (Session × List Effect)
  | [] => return (st, [])
  | req :: reqs => do
    let (st', effects, next) ← handleRequest h st req
    match next with
    | .stop => return (st', effects)
    | .loop =>
      let (st'', more) ← requestLoop h st' reqs
      return (st'', effects ++ more)

/-- `Server.handleSession` on the requests that arrive on the channel. -/
def handleSession (h : Host) (reqs : List Request) : Run (Session × List Effect) :=
  requestLoop h {} reqs

end WeftAgent.Sshd
