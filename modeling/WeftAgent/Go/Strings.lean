import WeftAgent.Go.Basic

/-!
# Searching bytes in strings

`strings.IndexByte` and `strings.LastIndexByte`, with `none` for -1.
-/

namespace WeftAgent.Go

def indexByte (s : GoString) (c : UInt8) : Option Nat := s.findIdx? (· = c)

def lastIndexByte (s : GoString) (c : UInt8) : Option Nat :=
  (s.reverse.findIdx? (· = c)).map fun i => s.length - 1 - i

theorem indexByte_eq_none {s : GoString} {c : UInt8} (h : c ∉ s) : indexByte s c = none := by
  rw [indexByte, List.findIdx?_eq_none_iff]
  intro x hx
  have hne : x ≠ c := fun heq => h (heq ▸ hx)
  simpa using hne

theorem lastIndexByte_eq_none {s : GoString} {c : UInt8} (h : c ∉ s) :
    lastIndexByte s c = none := by
  have hnone := indexByte_eq_none (s := s.reverse) (List.mem_reverse.not.mpr h)
  rw [indexByte] at hnone
  rw [lastIndexByte, hnone, Option.map_none]

/-- The first occurrence of a byte. -/
theorem indexByte_append_cons {a : GoString} {c : UInt8} (h : c ∉ a) (b : GoString) :
    indexByte (a ++ c :: b) c = some a.length := by
  have hnone := indexByte_eq_none h
  rw [indexByte] at hnone ⊢
  rw [List.findIdx?_append, hnone]
  simp [List.findIdx?_cons]

/-- The last occurrence of a byte. -/
theorem lastIndexByte_append_cons {b : GoString} {c : UInt8} (h : c ∉ b) (a : GoString) :
    lastIndexByte (a ++ c :: b) c = some a.length := by
  have hfirst := indexByte_append_cons (a := b.reverse) (by simpa using h) a.reverse
  have hreverse : (a ++ c :: b).reverse = b.reverse ++ c :: a.reverse := by simp
  rw [indexByte, ← hreverse] at hfirst
  rw [lastIndexByte, hfirst]
  simp

end WeftAgent.Go
