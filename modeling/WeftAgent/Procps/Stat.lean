import WeftAgent.Go.Slice
import WeftAgent.Go.Spaces
import WeftAgent.Go.Strconv
import WeftAgent.Go.Strings

/-!
# The process table: `/proc/<pid>/stat`

`parseStat` reads one line of the kernel. The second field of the line is the command name, which
the process chooses: it stands in parentheses and is not escaped in any way. The parser takes what
is between the first `(` and the last `)` for the name and splits the rest at white space.

`KernelStat` says which lines the kernel writes.
-/

namespace WeftAgent.Procps

open WeftAgent.Go

/-- `statFields`: the values of the line that are used. -/
structure StatFields where
  comm : GoString
  state : GoString
  ppid : Int32
  utime : UInt64
  stime : UInt64
  starttime : UInt64
  deriving DecidableEq, Repr

/-- `parseUint`: the error of `strconv.ParseUint` is dropped. -/
def parseUint (s : GoString) : UInt64 := .ofNat (Strconv.parseUint 64 s).1

/-- The index expression `rest[k]`. -/
def fieldAt (rest : List GoString) (k : Nat) : Run GoString :=
  match rest[k]? with
  | some f => .done f
  | none => .panicked

/-- The second half of `parseStat`: `rest[k]` is field `k + 3` of the line. A parent that is no
32-bit number is left at 0. -/
def parseFields (comm : GoString) (rest : List GoString) : Run (Option StatFields) :=
  if rest.length < 20 then pure none
  else do
    let state ← fieldAt rest 0
    let (v, err) := Strconv.parseInt 32 (← fieldAt rest 1)
    let ppid := if err = none then Int32.ofInt v else 0
    let utime := parseUint (← fieldAt rest 11)
    let stime := parseUint (← fieldAt rest 12)
    let starttime := parseUint (← fieldAt rest 19)
    pure (some { comm, state, ppid, utime, stime, starttime })

/-- `parseStat`, with `none` for `false`. -/
def parseStat (s : GoString) : Run (Option StatFields) :=
  match indexByte s 40, lastIndexByte s 41 with
  | some openIdx, some closeIdx =>
    if closeIdx < openIdx then pure none
    else do
      let comm ← slice s (openIdx + 1) closeIdx
      let rest ← sliceFrom s (closeIdx + 1)
      parseFields comm (fields rest)
  | _, _ => pure none

/-! ## The lines of the kernel -/

/-- What stands between two blanks behind the command name. -/
structure IsToken (t : GoString) : Prop where
  ne_nil : t ≠ []
  spaceless : Spaceless t
  no_close : 41 ∉ t

structure Token where
  text : GoString
  isToken : IsToken text

/-- The content of a line: nothing is asked of the command name, and of the fields nobody reads only
that they are there. -/
structure KernelStat where
  pid : Int
  comm : GoString
  state : Token
  ppid : Int32
  f5to13 : List Token
  utime : UInt64
  stime : UInt64
  f16to21 : List Token
  starttime : UInt64
  rest : List Token
  newline : Bool
  length_f5to13 : f5to13.length = 9
  length_f16to21 : f16to21.length = 6

namespace KernelStat

variable (k : KernelStat)

/-- The fields behind the command name. -/
def tokens : List GoString :=
  [k.state.text, Strconv.formatInt k.ppid.toInt] ++ k.f5to13.map Token.text
    ++ [Strconv.formatUint k.utime.toNat, Strconv.formatUint k.stime.toNat]
    ++ k.f16to21.map Token.text
    ++ [Strconv.formatUint k.starttime.toNat] ++ k.rest.map Token.text

/-- What stands behind the command name. -/
def tail : GoString := k.tokens.flatMap (32 :: ·) ++ (if k.newline then [10] else [])

/-- The line as the kernel writes it: `pid (comm) state ppid ...`. -/
def line : GoString := Strconv.formatInt k.pid ++ [32, 40] ++ k.comm ++ [41] ++ k.tail

/-- What the line says. -/
def fields : StatFields :=
  { comm := k.comm
    state := k.state.text
    ppid := k.ppid
    utime := k.utime
    stime := k.stime
    starttime := k.starttime }

end KernelStat

end WeftAgent.Procps
