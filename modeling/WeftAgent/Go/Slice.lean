import WeftAgent.Go.Basic

/-!
# Run-time panics and slice expressions

Go code that can panic is modelled in the monad `Run`: it ends with a value or it panics. A slice
expression panics when its bounds are out of range. Go compares the upper bound with the capacity;
here it is compared with the length, which is the stricter test.
-/

namespace WeftAgent.Go

/-- The outcome of a Go computation: a value, or a run-time panic. -/
inductive Run (α : Type) where
  | done (a : α)
  | panicked
  deriving DecidableEq, Repr

namespace Run

/-- Sequencing: a panic aborts the rest. -/
def bind {α β : Type} (x : Run α) (f : α → Run β) : Run β :=
  match x with
  | done a => f a
  | panicked => panicked

instance : Monad Run where
  pure := done
  bind := bind

@[simp] theorem pure_eq {α : Type} (a : α) : (pure a : Run α) = done a := rfl

@[simp] theorem done_bind {α β : Type} (a : α) (f : α → Run β) : (done a >>= f) = f a := rfl

@[simp] theorem panicked_bind {α β : Type} (f : α → Run β) : (panicked >>= f) = panicked := rfl

/-- A sequence panics exactly when its first part does, or the second part does on its value. -/
theorem bind_eq_panicked {α β : Type} {x : Run α} {f : α → Run β} :
    (x >>= f) = panicked ↔ x = panicked ∨ ∃ a, x = done a ∧ f a = panicked := by
  cases x with
  | done a => simp
  | panicked => simp

theorem bind_eq_panicked_of_ne {α β : Type} {x : Run α} {f : α → Run β}
    (hf : ∀ a, f a ≠ panicked) : (x >>= f) = panicked ↔ x = panicked := by
  rw [bind_eq_panicked]
  exact or_iff_left fun ⟨a, _, ha⟩ => hf a ha

/-- From a sequence that ends with a value, the value of its first part. -/
theorem bind_eq_done {α β : Type} {x : Run α} {f : α → Run β} {b : β} :
    (x >>= f) = done b ↔ ∃ a, x = done a ∧ f a = done b := by
  cases x with
  | done a => simp
  | panicked => simp

end Run

/-- The slice expression `b[lo:hi]`. -/
def slice (b : GoString) (lo hi : Nat) : Run GoString :=
  if lo ≤ hi ∧ hi ≤ b.length then .done ((b.take hi).drop lo) else .panicked

def sliceFrom (b : GoString) (lo : Nat) : Run GoString := slice b lo b.length

/-- The index expression `b[i]`. -/
def index (b : GoString) (i : Nat) : Run UInt8 :=
  match b[i]? with
  | some x => .done x
  | none => .panicked

theorem slice_of_le {b : GoString} {lo hi : Nat} (h₁ : lo ≤ hi) (h₂ : hi ≤ b.length) :
    slice b lo hi = .done ((b.take hi).drop lo) := by
  simp [slice, h₁, h₂]

/-- A slice expression panics exactly when its bounds are out of range. -/
theorem slice_eq_panicked {b : GoString} {lo hi : Nat} :
    slice b lo hi = .panicked ↔ hi < lo ∨ b.length < hi := by
  unfold slice
  split_ifs with h
  · simp
    omega
  · simp
    omega

end WeftAgent.Go
