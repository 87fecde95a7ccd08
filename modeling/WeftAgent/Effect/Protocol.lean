import WeftAgent.Effect.Prog

/-!
# Protocols for effectful programs

A protocol says which calls are allowed at which stage, and to which stage a call and its answer
lead. `Follows` says that a program keeps to a protocol whatever the answers are. What the rules of
the protocol keep then holds at the end of every run (`Follows.run`), and of a run that is
interleaved with other activities, call by call.
-/

namespace WeftAgent.Effect

variable {σ τ : Sig} {α β S M : Type}

/-- Whatever the answers are, the calls of the program are allowed from stage `m` on, and it returns
at a stage, and with a value, that satisfy `Q`. -/
def Follows (rule : M → (op : σ.Op) → σ.Ans op → M → Prop) (Q : M → α → Prop) : Prog σ α → M → Prop
  | .ret a, m => Q m a
  | .call op k, m => ∀ x, ∃ m', rule m op x m' ∧ Follows rule Q (k x) m'

variable {rule : M → (op : σ.Op) → σ.Ans op → M → Prop} {Q : M → α → Prop} {R : M → β → Prop}
  {m : M}

theorem Follows.bind {p : Prog σ α} {f : α → Prog σ β} (hp : Follows rule Q p m)
    (hf : ∀ m a, Q m a → Follows rule R (f a) m) : Follows rule R (p >>= f) m := by
  induction p generalizing m with
  | ret a => exact hf m a hp
  | call op k ih =>
    intro x
    obtain ⟨m', hrule, hk⟩ := hp x
    exact ⟨m', hrule, ih x hk⟩

/-- A part of the program that uses the first signature only keeps to the rules for its calls. -/
theorem Follows.inl {rule : M → (op : (σ.sum τ).Op) → (σ.sum τ).Ans op → M → Prop}
    {p : Prog σ α} (hp : Follows (fun m op x m' => rule m (.inl op) x m') Q p m) :
    Follows rule Q (p.left : Prog (σ.sum τ) α) m := by
  induction p generalizing m with
  | ret a => exact hp
  | call op k ih =>
    intro x
    obtain ⟨m', hrule, hk⟩ := hp x
    exact ⟨m', hrule, ih x hk⟩

/-- A part of the program that uses the first signature only, at a stage that all calls of this
signature keep. -/
theorem Follows.left {rule : M → (op : (σ.sum τ).Op) → (σ.sum τ).Ans op → M → Prop}
    {P : α → Prop} {p : Prog σ α} (hstay : ∀ op x, rule m (.inl op) x m)
    (hp : Issues (fun _ _ => True) (fun _ => True) P p) :
    Follows rule (fun m' a => m' = m ∧ P a) (p.left : Prog (σ.sum τ) α) m := by
  induction p with
  | ret a => exact ⟨rfl, hp⟩
  | call op k ih =>
    intro x
    exact ⟨m, hstay op x, ih x (hp.2 x trivial)⟩

/-- What the rules keep, as a relation between the stage, the state and the calls so far, holds at
the end of every run. -/
theorem Follows.run {h : Handler σ S} {I : M → S → List (Σ op : σ.Op, σ.Ans op) → Prop}
    (hrule : ∀ m op m' s l, I m s l → rule m op (h op s).1 m' →
      I m' (h op s).2 (l ++ [⟨op, (h op s).1⟩]))
    {p : Prog σ α} {s : S} {l : List (Σ op : σ.Op, σ.Ans op)} (hp : Follows rule Q p m)
    (hI : I m s l) : ∃ m', Q m' (run h p s).1 ∧ I m' (run h p s).2 (l ++ log h p s) := by
  induction p generalizing m s l with
  | ret a => exact ⟨m, hp, by simpa only [run_ret, log, List.append_nil] using hI⟩
  | call op k ih =>
    obtain ⟨m', hm', hk⟩ := hp (h op s).1
    obtain ⟨m'', hQ, hI'⟩ := ih (h op s).1 hk (hrule m op m' s l hI hm')
    refine ⟨m'', hQ, ?_⟩
    simpa only [run_call, log, List.append_assoc, List.singleton_append] using hI'

/-- What the rules keep, as a relation between the stage and the calls so far, holds of the calls of
every run. -/
theorem Follows.log {h : Handler σ S} {I : M → List (Σ op : σ.Op, σ.Ans op) → Prop}
    (hrule : ∀ m op x m' l, I m l → rule m op x m' → I m' (l ++ [⟨op, x⟩])) {p : Prog σ α} {s : S}
    {l : List (Σ op : σ.Op, σ.Ans op)} (hp : Follows rule Q p m) (hI : I m l) :
    ∃ m', Q m' (Effect.run h p s).1 ∧ I m' (l ++ Effect.log h p s) :=
  Follows.run (I := fun m _ l => I m l) (fun m op m' s l => hrule m op (h op s).1 m' l) hp hI

end WeftAgent.Effect
