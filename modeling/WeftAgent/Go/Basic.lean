import Mathlib.Data.List.AList

/-!
# Go values

The vocabulary shared by all models of Go code: strings as byte sequences, maps, errors built by
`fmt.Errorf`, and the errno values file system calls answer with.
-/

namespace WeftAgent.Go

/-- A Go `string` (or `[]byte`): an arbitrary byte sequence, not necessarily UTF-8. -/
abbrev GoString := List UInt8

/-- The bytes of a Go string literal. -/
def lit (s : String) : GoString := s.toList.flatMap String.utf8EncodeChar

-- stated once, so that all membership tests on strings are decided by the same term
instance : LawfulBEq GoString := inferInstance

/-- The parts of a string that is split at a separator do not contain it. -/
theorem not_mem_of_mem_splitOn {sep : UInt8} {s e : GoString} (h : e ∈ s.splitOn sep) :
    sep ∉ e := by
  induction s generalizing e with
  | nil =>
    simp only [List.splitOn_nil, List.mem_singleton] at h
    simp [h]
  | cons x xs ih =>
    rw [List.splitOn_cons_eq_if_modifyHead] at h
    split_ifs at h with hx
    · rcases List.mem_cons.mp h with rfl | h
      · simp
      · exact ih h
    · cases hs : xs.splitOn sep with
      | nil => exact absurd hs (List.splitOn_ne_nil _ _)
      | cons e' es =>
        rw [hs, List.modifyHead_cons] at h
        rcases List.mem_cons.mp h with rfl | h
        · have hx' : sep ≠ x := fun heq => hx (by simp [heq])
          have he' : sep ∉ e' := ih (by rw [hs]; simp)
          simp [hx', he']
        · exact ih (by rw [hs]; exact List.mem_cons_of_mem _ h)

/-- A Go `map[κ]ν`. The order of the entries is the order one `range` over the map visits them in;
Go leaves that order open, so statements about code that ranges over a map hold for every order. -/
abbrev GoMap (κ ν : Type) := AList (fun _ : κ => ν)

/-- `m[k]` for a string-valued map: a missing key reads as the empty string. -/
def GoMap.index {κ : Type} [DecidableEq κ] (m : GoMap κ GoString) (k : κ) : GoString :=
  (AList.lookup k m).getD []

theorem GoMap.mem_iff_lookup {κ ν : Type} [DecidableEq κ] {m : GoMap κ ν} {k : κ} :
    k ∈ m ↔ ∃ v, m.lookup k = some v := by
  rw [← AList.lookup_isSome, Option.isSome_iff_exists]

/-- A choice of the order in which a `range` visits the keys of a map, for code whose calls depend
on it. -/
structure RangeOrder (κ : Type) where
  visit : List κ → List κ
  /-- Every key is visited once. -/
  perm : ∀ keys, (visit keys).Perm keys

/-- The keys as they are listed. -/
def RangeOrder.listed {κ : Type} : RangeOrder κ := ⟨id, fun _ => .rfl⟩

/-- The errno values that the file system calls of the agent can run into. -/
inductive Errno where
  | ENOENT
  | ENOTDIR
  | EISDIR
  | EEXIST
  | ENOTEMPTY
  | EINVAL
  | EIO
  | EBUSY
  deriving DecidableEq, Repr

/-- An operand of a `fmt.Errorf` format. -/
inductive FmtArg where
  | str (s : GoString)
  | int (i : Int)
  deriving DecidableEq, Repr

/-- A non-nil Go `error`. Formatted errors keep their format string and operands unrendered. -/
inductive GoError where
  | errno (e : Errno)
  /-- `errors.New(format)` or `fmt.Errorf(format, args...)`. -/
  | errorf (format : String) (args : List FmtArg)
  /-- `fmt.Errorf(format, args..., inner)` where the format ends in `%w`. -/
  | wrap (format : String) (args : List FmtArg) (inner : GoError)
  deriving DecidableEq, Repr

/-- `os.IsNotExist(err)` on the error of a system call. -/
def isNotExist (e : Errno) : Bool := e = .ENOENT

end WeftAgent.Go
