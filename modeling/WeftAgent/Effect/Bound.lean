import WeftAgent.Effect.Prog

/-!
# How many calls a program makes

`AtMost P n p`: whatever the answers are, at most `n` of the calls of `p` satisfy `P`.
-/

namespace WeftAgent.Effect

variable {σ : Sig} {α β S : Type} {P : σ.Op → Bool}

def AtMost (P : σ.Op → Bool) (n : Nat) : Prog σ α → Prop
  | .ret _ => True
  | .call op k => if P op then 0 < n ∧ ∀ x, AtMost P (n - 1) (k x) else ∀ x, AtMost P n (k x)

theorem AtMost.mono {n m : Nat} {p : Prog σ α} (h : AtMost P n p) (hnm : n ≤ m) :
    AtMost P m p := by
  induction p generalizing n m with
  | ret a => exact trivial
  | call op k ih =>
    rw [AtMost] at h ⊢
    split_ifs at h ⊢ with hop
    · exact ⟨by omega, fun x => ih x (h.2 x) (by omega)⟩
    · exact fun x => ih x (h x) hnm

/-- A call that counts, or does not. -/
theorem AtMost.call {n : Nat} {op : σ.Op} {k : σ.Ans op → Prog σ α}
    (hk : ∀ x, AtMost P n (k x)) : AtMost P (n + 1) (.call op k) := by
  rw [AtMost]
  split_ifs with hop
  · exact ⟨Nat.succ_pos n, hk⟩
  · exact fun x => (hk x).mono (Nat.le_succ n)

theorem AtMost.call_of_not {n : Nat} {op : σ.Op} {k : σ.Ans op → Prog σ α} (hop : P op = false)
    (hk : ∀ x, AtMost P n (k x)) : AtMost P n (.call op k) := by
  rw [AtMost, if_neg (by simp [hop])]
  exact hk

/-- In front of a program, a part none of whose calls counts. -/
theorem AtMost.bind_of_none {n : Nat} {Q : α → Prop} {p : Prog σ α} {f : α → Prog σ β}
    (hp : Issues (fun _ _ => True) (fun op => P op = false) Q p)
    (hf : ∀ a, Q a → AtMost P n (f a)) : AtMost P n (p >>= f) := by
  induction p with
  | ret a => exact hf a hp
  | call op k ih => exact .call_of_not hp.1 fun x => ih x (hp.2 x trivial)

theorem AtMost.trace {h : Handler σ S} {n : Nat} {p : Prog σ α} (hp : AtMost P n p) (s : S) :
    (trace h p s).countP P ≤ n := by
  induction p generalizing n s with
  | ret a => exact Nat.zero_le n
  | call op k ih =>
    rw [AtMost] at hp
    rw [Effect.trace, List.countP_cons]
    split_ifs at hp ⊢ with hop
    · have hrest := ih _ (hp.2 (h op s).1) (h op s).2
      omega
    · exact ih _ (hp (h op s).1) (h op s).2

end WeftAgent.Effect
