import Mathlib.Algebra.Group.Nat.Defs
import Mathlib.Tactic.SplitIfs

/-!
# Conversion of integers to `float64`

A `float64` has a significand of 53 bits. An integer beyond that is rounded to the nearest integer
that has one, and to the one with the even significand if two are equally near. All floats here
stand for natural numbers and are written as such.
-/

namespace WeftAgent.Go

/-- The significand bits that do not fit, for an integer from `2 ^ 53` on. -/
def excessBits (n : Nat) : Nat := n.log2 - 52

/-- `float64(n)`. -/
def float64 (n : Nat) : Nat :=
  if n < 2 ^ 53 then n
  else
    let unit := 2 ^ excessBits n
    let q := n / unit
    let r := n % unit
    if 2 * r > unit ∨ 2 * r = unit ∧ q % 2 = 1 then (q + 1) * unit else q * unit

/-- Integers up to `2 ^ 53` are converted exactly. -/
theorem float64_of_le {n : Nat} (h : n ≤ 2 ^ 53) : float64 n = n := by
  unfold float64
  split_ifs with hlt
  · rfl
  · obtain rfl : n = 2 ^ 53 := by omega
    decide

example : float64 (2 ^ 53 + 1) = 2 ^ 53 := by decide
example : float64 (2 ^ 53 + 3) = 2 ^ 53 + 4 := by decide

end WeftAgent.Go
