import WeftAgent.Effect.Prog

/-!
# Loops

A loop over a list that carries a value from round to round, and its calls grouped by the rounds
that issue them.
-/

namespace WeftAgent.Effect

variable {σ : Sig} {α β S : Type}

/-- `for x in xs { b = body(x, b) }`. -/
def loop (body : α → β → Prog σ β) : List α → β → Prog σ β
  | [], b => .ret b
  | x :: xs, b => body x b >>= loop body xs

/-- The calls of a loop with their answers, round by round. -/
def rounds (h : Handler σ S) (body : α → β → Prog σ β) :
    List α → β → S → List (α × List (Σ op : σ.Op, σ.Ans op))
  | [], _, _ => []
  | x :: xs, b, s =>
    (x, log h (body x b) s) :: rounds h body xs (run h (body x b) s).1 (run h (body x b) s).2

variable {h : Handler σ S} {body : α → β → Prog σ β}

theorem log_loop (xs : List α) (b : β) (s : S) :
    log h (loop body xs b) s = (rounds h body xs b s).flatMap Prod.snd := by
  induction xs generalizing b s with
  | nil => rfl
  | cons x xs ih => rw [loop, log_bind, ih, rounds, List.flatMap_cons]

end WeftAgent.Effect
