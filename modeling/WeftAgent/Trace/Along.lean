import Mathlib.Data.List.Basic

/-!
# Runs of a deterministic transition system

A run folds a step function over a list of events. `Along step P s es` says that every step of the
run of `es` from `s` is taken in a state and with an event that satisfy `P`; it is how a condition
on the steps of a run, or a guarantee of each of its steps, is stated.
-/

namespace WeftAgent.Trace

variable {σ ε : Type}

/-- Every step of the run of `es` from `s` satisfies `P` (state before the step, event). -/
def Along (step : σ → ε → σ) (P : σ → ε → Prop) : σ → List ε → Prop
  | _, [] => True
  | s, e :: es => P s e ∧ Along step P (step s e) es

variable {step : σ → ε → σ} {P Q : σ → ε → Prop} {s : σ}

@[simp] theorem along_nil : Along step P s [] := trivial

@[simp] theorem along_cons {e : ε} {es : List ε} :
    Along step P s (e :: es) ↔ P s e ∧ Along step P (step s e) es := Iff.rfl

instance decidableAlong [∀ s e, Decidable (P s e)] : ∀ (es : List ε) (s : σ),
    Decidable (Along step P s es)
  | [], _ => .isTrue trivial
  | e :: es, s => @instDecidableAnd _ _ _ (decidableAlong es (step s e))

/-- A run whose steps satisfy `P` reaches a state with the invariant `I`, if each such step keeps
it. -/
theorem Along.invariant {I : σ → Prop} (hstep : ∀ s e, I s → P s e → I (step s e)) {es : List ε}
    (hI : I s) (h : Along step P s es) : I (es.foldl step s) := by
  induction es generalizing s with
  | nil => exact hI
  | cons e es ih => exact ih (hstep s e hI h.1) h.2

/-- Steps that satisfy `P` and keep the invariant `I` satisfy what follows from both. -/
theorem Along.imp {I : σ → Prop} (hstep : ∀ s e, I s → P s e → Q s e ∧ I (step s e)) {es : List ε}
    (hI : I s) (h : Along step P s es) : Along step Q s es := by
  induction es generalizing s with
  | nil => exact along_nil
  | cons e es ih => exact ⟨(hstep s e hI h.1).1, ih (hstep s e hI h.1).2 h.2⟩

/-- Two conditions that agree wherever the invariant `I` holds agree along a run, if steps that meet
the first keep the invariant. -/
theorem along_congr {I : σ → Prop} (hiff : ∀ s e, I s → (P s e ↔ Q s e))
    (hstep : ∀ s e, I s → P s e → I (step s e)) {es : List ε} (hI : I s) :
    Along step P s es ↔ Along step Q s es := by
  induction es generalizing s with
  | nil => exact Iff.rfl
  | cons e es ih =>
    rw [along_cons, along_cons, ← hiff s e hI]
    exact and_congr_right fun he => ih (hstep s e hI he)

/-- A condition on a part of the state that runs on its own may be stated along the run of that
part. -/
theorem along_map {τ : Type} {step' : τ → ε → τ} (f : τ → σ)
    (hf : ∀ s e, f (step' s e) = step (f s) e) {es : List ε} {s : τ} :
    Along step' (fun s e => P (f s) e) s es ↔ Along step P (f s) es := by
  induction es generalizing s with
  | nil => exact Iff.rfl
  | cons e es ih => rw [along_cons, along_cons, ih, hf]

/-- If, wherever the invariant `I` holds, a step keeps `G` exactly when it satisfies `P`, then `G`
holds after a run exactly when `P` holds along it. -/
theorem foldl_iff_along {I G : σ → Prop} (hI : ∀ s e, I s → I (step s e))
    (hG : ∀ s e, I s → (G (step s e) ↔ G s ∧ P s e)) {es : List ε} (hs : I s) :
    G (es.foldl step s) ↔ G s ∧ Along step P s es := by
  induction es generalizing s with
  | nil => simp
  | cons e es ih => rw [List.foldl_cons, ih (hI s e hs), hG s e hs, along_cons, and_assoc]

/-- The steps of a run one by one: `P` holds along it exactly when it holds of each event in the
state its prefix leads to. -/
theorem along_iff_split {es : List ε} :
    Along step P s es ↔ ∀ pre e post, es = pre ++ e :: post → P (pre.foldl step s) e := by
  induction es generalizing s with
  | nil => simp
  | cons e es ih =>
    rw [along_cons, ih]
    constructor
    · rintro ⟨h₀, h⟩ pre e' post heq
      cases pre with
      | nil =>
        obtain ⟨rfl, -⟩ := List.cons.inj heq
        exact h₀
      | cons a pre =>
        obtain ⟨rfl, hes⟩ := List.cons.inj heq
        exact h pre e' post hes
    · intro h
      exact ⟨h [] e es rfl, fun pre e' post heq => h (e :: pre) e' post (by rw [heq]; rfl)⟩

end WeftAgent.Trace
