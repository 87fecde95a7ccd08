import WeftAgent.Sshd.Server
import WeftAgent.Sshd.Shell

/-!
# The payloads of channel requests as a client sends them

The wire format that the payload parsers of `pkg/sshd/server.go` read: strings carry their length as
a big-endian word in front. What follows the mandatory fields of a request is up to the client.
-/

namespace WeftAgent.Sshd

open Go

/-- A word in big-endian order. -/
def word (w : UInt32) : GoString :=
  [(w >>> 24).toUInt8, (w >>> 16).toUInt8, (w >>> 8).toUInt8, w.toUInt8]

/-- A string with its length in front. -/
def str (s : GoString) : GoString := word (UInt32.ofNat s.length) ++ s

/-- Columns, rows, width and height in pixels. -/
def dimensions (cols rows xPx yPx : UInt32) : GoString :=
  word cols ++ (word rows ++ (word xPx ++ word yPx))

def ptyReqBytes (r : PtyReqPayload) : GoString :=
  str r.term ++ dimensions r.cols r.rows r.xPx r.yPx

def envReqBytes (k v : GoString) : GoString := str k ++ str v

def execReqBytes (line : GoString) : GoString := str line

def winChReqBytes (w : WinChPayload) : GoString := dimensions w.cols w.rows w.xPx w.yPx

/-- The beginning of a payload that is not all of it. -/
def Truncated (p whole : GoString) : Prop := p <+: whole ∧ p ≠ whole

end WeftAgent.Sshd
