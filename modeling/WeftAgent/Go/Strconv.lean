import WeftAgent.Go.Basic
import Mathlib.Algebra.Group.Nat.Defs

/-!
# Decimal numbers

`ParseUint`, `ParseInt`, `FormatUint` and `FormatInt` of `strconv` in base 10. The parsers return a
value beside an error, as they do in Go: 0 for a text that is no number, and the nearest number for
one that is out of range.
-/

namespace WeftAgent.Go.Strconv

/-- `ErrSyntax` and `ErrRange`. -/
inductive NumError where
  | errSyntax
  | errRange
  deriving DecidableEq, Repr

/-- The loop of `ParseUint`: `n` is the number read so far. A sum that overflows `uint64` is above
`maxVal` here. -/
def parseDigits (maxVal : Nat) : Nat → GoString → Nat × Option NumError
  | n, [] => (n, none)
  | n, c :: s =>
    if 48 ≤ c ∧ c ≤ 57 then
      if n ≥ (2 ^ 64 - 1) / 10 + 1 then (maxVal, some .errRange)
      else
        let n₁ := n * 10 + (c.toNat - 48)
        if n₁ > maxVal then (maxVal, some .errRange) else parseDigits maxVal n₁ s
    else (0, some .errSyntax)

/-- `strconv.ParseUint(s, 10, bitSize)`. -/
def parseUint (bitSize : Nat) (s : GoString) : Nat × Option NumError :=
  if s = [] then (0, some .errSyntax) else parseDigits (2 ^ bitSize - 1) 0 s

/-- The sign and the digits of a number. -/
def splitSign : GoString → Bool × GoString
  | 43 :: s => (false, s)
  | 45 :: s => (true, s)
  | s => (false, s)

/-- `strconv.ParseInt(s, 10, bitSize)`. -/
def parseInt (bitSize : Nat) (s : GoString) : Int × Option NumError :=
  if s = [] then (0, some .errSyntax)
  else
    let (neg, digits) := splitSign s
    let (un, err) := parseUint bitSize digits
    let cutoff := 2 ^ (bitSize - 1)
    if err = some .errSyntax then (0, some .errSyntax)
    else if ¬ neg ∧ un ≥ cutoff then (cutoff - 1, some .errRange)
    else if neg ∧ un > cutoff then (-cutoff, some .errRange)
    else (if neg then -un else un, none)

/-- `strconv.FormatUint(n, 10)`. -/
def formatUint (n : Nat) : GoString := (Nat.toDigits 10 n).map Char.toUInt8

/-- `strconv.FormatInt(i, 10)`. -/
def formatInt (i : Int) : GoString :=
  if i < 0 then 45 :: formatUint i.natAbs else formatUint i.natAbs

end WeftAgent.Go.Strconv
