import Mathlib.Order.Basic

/-!
# Effectful programs as trees of calls

A program over a signature of operations either returns a value or issues a call and goes on with
the answer. What the calls do is left to an interpretation: a deterministic handler on a state
(`run`, and `advance` for one call at a time), or any environment whose answers are only known to be
admissible (`Issues`).
-/

namespace WeftAgent.Effect

/-- A signature: the operations, and the type of the answers to each of them. -/
structure Sig where
  Op : Type
  Ans : Op → Type

/-- A program that issues calls of the signature and returns an `α`. -/
inductive Prog (σ : Sig) (α : Type) : Type where
  | ret (a : α)
  /-- Issue a call and continue with its answer. -/
  | call (op : σ.Op) (k : σ.Ans op → Prog σ α)

variable {σ : Sig} {α β : Type} {S : Type}

def Prog.bind (p : Prog σ α) (f : α → Prog σ β) : Prog σ β :=
  match p with
  | .ret a => f a
  | .call op k => .call op (fun x => (k x).bind f)

instance : Monad (Prog σ) where
  pure := .ret
  bind := Prog.bind

@[simp] theorem pure_eq (a : α) : (pure a : Prog σ α) = .ret a := rfl

@[simp] theorem ret_bind (a : α) (f : α → Prog σ β) : (Prog.ret a >>= f) = f a := rfl

@[simp] theorem call_bind (op : σ.Op) (k : σ.Ans op → Prog σ α) (f : α → Prog σ β) :
    (Prog.call op k >>= f) = .call op (fun x => k x >>= f) := rfl

theorem Prog.bind_assoc {γ : Type} (p : Prog σ α) (f : α → Prog σ β) (g : β → Prog σ γ) :
    (p >>= f) >>= g = p >>= fun a => f a >>= g := by
  induction p with
  | ret a => rfl
  | call op k ih =>
    simp only [call_bind, ih]

/-! ## Signatures side by side -/

/-- The operations of two signatures. -/
def Sig.sum (σ τ : Sig) : Sig := ⟨σ.Op ⊕ τ.Op, Sum.elim σ.Ans τ.Ans⟩

/-- A program that uses the first signature only. -/
def Prog.left {τ : Sig} : Prog σ α → Prog (σ.sum τ) α
  | .ret a => .ret a
  | .call op k => .call (.inl op) fun x => (k x).left

/-- The program with every call replaced by a program over another signature. -/
def Prog.subst {τ : Sig} (f : (op : σ.Op) → Prog τ (σ.Ans op)) : Prog σ α → Prog τ α
  | .ret a => .ret a
  | .call op k => f op >>= fun x => (k x).subst f

/-! ## Deterministic handlers -/

/-- A handler answers each operation and updates a state. -/
abbrev Handler (σ : Sig) (S : Type) := (op : σ.Op) → S → σ.Ans op × S

/-- Two handlers side by side. -/
def Handler.sum {τ : Sig} {T : Type} (h : Handler σ S) (g : Handler τ T) :
    Handler (σ.sum τ) (S × T)
  | .inl op, (s, t) => ((h op s).1, (h op s).2, t)
  | .inr op, (s, t) => ((g op t).1, s, (g op t).2)

/-- The first half of a handler of both signatures. -/
def Handler.left {τ : Sig} (h : Handler (σ.sum τ) S) : Handler σ S := fun op s => h (.inl op) s

/-- The returned value and the final state of a program under a handler. -/
def run (h : Handler σ S) : Prog σ α → S → α × S
  | .ret a, s => (a, s)
  | .call op k, s => run h (k (h op s).1) (h op s).2

variable {h : Handler σ S}

@[simp] theorem run_ret (a : α) (s : S) : run h (.ret a : Prog σ α) s = (a, s) := rfl

@[simp] theorem run_call (op : σ.Op) (k : σ.Ans op → Prog σ α) (s : S) :
    run h (.call op k) s = run h (k (h op s).1) (h op s).2 := rfl

theorem run_bind (p : Prog σ α) (f : α → Prog σ β) (s : S) :
    run h (p >>= f) s = run h (f (run h p s).1) (run h p s).2 := by
  induction p generalizing s with
  | ret a => rfl
  | call op k ih =>
    rw [call_bind, run_call, ih, run_call]

theorem run_left {τ : Sig} {g : Handler (σ.sum τ) S} (p : Prog σ α) (s : S) :
    run g (p.left : Prog (σ.sum τ) α) s = run g.left p s := by
  induction p generalizing s with
  | ret a => rfl
  | call op k ih => exact ih _ _

/-- The calls of the run, in order. -/
def trace (h : Handler σ S) : Prog σ α → S → List σ.Op
  | .ret _, _ => []
  | .call op k, s => op :: trace h (k (h op s).1) (h op s).2

/-- The calls of the run with their answers, in order. -/
def log (h : Handler σ S) : Prog σ α → S → List (Σ op : σ.Op, σ.Ans op)
  | .ret _, _ => []
  | .call op k, s => ⟨op, (h op s).1⟩ :: log h (k (h op s).1) (h op s).2

theorem log_bind (p : Prog σ α) (f : α → Prog σ β) (s : S) :
    log h (p >>= f) s = log h p s ++ log h (f (run h p s).1) (run h p s).2 := by
  induction p generalizing s with
  | ret a => rfl
  | call op k ih => exact congrArg (_ :: ·) (ih _ _)

theorem map_log (p : Prog σ α) (s : S) : (log h p s).map Sigma.fst = trace h p s := by
  induction p generalizing s with
  | ret a => rfl
  | call op k ih => exact congrArg (op :: ·) (ih _ _)

theorem trace_bind (p : Prog σ α) (f : α → Prog σ β) (s : S) :
    trace h (p >>= f) s = trace h p s ++ trace h (f (run h p s).1) (run h p s).2 := by
  simp only [← map_log, log_bind, List.map_append]

/-- Calls answered from states with an invariant that they keep. -/
theorem log_forall (I : S → Prop) (ok : (Σ op : σ.Op, σ.Ans op) → Prop)
    (hstep : ∀ op s, I s → ok ⟨op, (h op s).1⟩ ∧ I (h op s).2) {p : Prog σ α} {s : S} (hs : I s) :
    ∀ c ∈ log h p s, ok c := by
  induction p generalizing s with
  | ret a => exact fun c hc => absurd hc List.not_mem_nil
  | call op k ih =>
    intro c hc
    rcases List.mem_cons.mp hc with rfl | hc
    · exact (hstep op s hs).1
    · exact ih (h op s).1 (hstep op s hs).2 c hc

/-- If another handler answers the calls of a run in the same way, from a related state, it returns
the same value, in a related state. -/
theorem run_simulates {T : Type} {g : Handler σ T} (R : S → T → Prop)
    (ok : (Σ op : σ.Op, σ.Ans op) → Prop)
    (hstep : ∀ op s t, R s t → ok ⟨op, (h op s).1⟩ →
      (g op t).1 = (h op s).1 ∧ R (h op s).2 (g op t).2)
    {p : Prog σ α} {s : S} {t : T} (hR : R s t) (hok : ∀ c ∈ log h p s, ok c) :
    (run g p t).1 = (run h p s).1 ∧ R (run h p s).2 (run g p t).2 := by
  induction p generalizing s t with
  | ret a => exact ⟨rfl, hR⟩
  | call op k ih =>
    obtain ⟨hans, hnext⟩ := hstep op s t hR (hok _ List.mem_cons_self)
    have hrest := ih (h op s).1 hnext fun c hc => hok c (List.mem_cons_of_mem _ hc)
    rw [run_call, run_call, hans]
    exact hrest

/-- The invariant `I` holds before and after every call of the run. -/
def Always (h : Handler σ S) (I : S → Prop) : Prog σ α → S → Prop
  | .ret _, s => I s
  | .call op k, s => I s ∧ Always h I (k (h op s).1) (h op s).2

variable {I : S → Prop}

@[simp] theorem always_ret {a : α} {s : S} : Always h I (.ret a : Prog σ α) s ↔ I s := Iff.rfl

@[simp] theorem always_call {op : σ.Op} {k : σ.Ans op → Prog σ α} {s : S} :
    Always h I (.call op k) s ↔ I s ∧ Always h I (k (h op s).1) (h op s).2 := Iff.rfl

instance decidableAlways [DecidablePred I] : ∀ (p : Prog σ α) (s : S), Decidable (Always h I p s)
  | .ret _, s => inferInstanceAs (Decidable (I s))
  | .call op k, s => @instDecidableAnd _ _ _ (decidableAlways (k (h op s).1) (h op s).2)

theorem Always.now {p : Prog σ α} {s : S} (hp : Always h I p s) : I s := by
  cases p with
  | ret a => exact hp
  | call op k => exact hp.1

theorem Always.final {p : Prog σ α} {s : S} (hp : Always h I p s) : I (run h p s).2 := by
  induction p generalizing s with
  | ret a => exact hp
  | call op k ih => exact ih (h op s).1 hp.2

theorem Always.imp {J : S → Prop} {p : Prog σ α} {s : S} (hp : Always h I p s)
    (hIJ : ∀ s, I s → J s) : Always h J p s := by
  induction p generalizing s with
  | ret a => exact hIJ s hp
  | call op k ih => exact ⟨hIJ s hp.1, ih _ hp.2⟩

/-- The invariant holds throughout a sequence if it does throughout both parts. -/
theorem Always.bind {p : Prog σ α} {f : α → Prog σ β} {s : S} (hp : Always h I p s)
    (hf : Always h I (f (run h p s).1) (run h p s).2) : Always h I (p >>= f) s := by
  induction p generalizing s with
  | ret a => exact hf
  | call op k ih => exact ⟨hp.1, ih (h op s).1 hp.2 hf⟩

theorem always_bind_iff {p : Prog σ α} {f : α → Prog σ β} {s : S} :
    Always h I (p >>= f) s ↔
      Always h I p s ∧ Always h I (f (run h p s).1) (run h p s).2 := by
  refine ⟨fun hpf => ?_, fun hboth => hboth.1.bind hboth.2⟩
  induction p generalizing s with
  | ret a => exact ⟨hpf.now, hpf⟩
  | call op k ih =>
    obtain ⟨hk, hf⟩ := ih (h op s).1 hpf.2
    exact ⟨⟨hpf.1, hk⟩, hf⟩

/-- Several invariants hold throughout a run exactly when their conjunction does. -/
theorem always_forall {ι : Type} {P : ι → Prop} {J : ι → S → Prop} {p : Prog σ α} {s : S} :
    Always h (fun s => ∀ i, P i → J i s) p s ↔ ∀ i, P i → Always h (J i) p s := by
  induction p generalizing s with
  | ret a => exact Iff.rfl
  | call op k ih =>
    simp only [always_call, ih]
    exact ⟨fun hp i hi => ⟨hp.1 i hi, hp.2 i hi⟩,
      fun hp => ⟨fun i hi => (hp i hi).1, fun i hi => (hp i hi).2⟩⟩

/-- One call of a program: what is left of it, and the state after the call. A program that has
returned stays as it is. -/
def advance (h : Handler σ S) : Prog σ α → S → Prog σ α × S
  | .ret a, s => (.ret a, s)
  | .call op k, s => (k (h op s).1, (h op s).2)

theorem Always.advance {p : Prog σ α} {s : S} (hp : Always h I p s) :
    Always h I (advance h p s).1 (advance h p s).2 := by
  cases p with
  | ret a => exact hp
  | call op k => exact hp.2

theorem run_advance (p : Prog σ α) (s : S) :
    run h (advance h p s).1 (advance h p s).2 = run h p s := by
  cases p with
  | ret a => rfl
  | call op k => rfl

/-! ## Arbitrary environments -/

/-- Whatever admissible answers the environment gives, every call the program issues satisfies `P`
and the returned value satisfies `Q`. -/
def Issues (adm : (op : σ.Op) → σ.Ans op → Prop) (P : σ.Op → Prop) (Q : α → Prop) :
    Prog σ α → Prop
  | .ret a => Q a
  | .call op k => P op ∧ ∀ x, adm op x → Issues adm P Q (k x)

section Issues

variable {adm : (op : σ.Op) → σ.Ans op → Prop} {P : σ.Op → Prop} {Q : α → Prop} {R : β → Prop}

@[simp] theorem issues_ret {a : α} : Issues adm P Q (.ret a) ↔ Q a := Iff.rfl

@[simp] theorem issues_call {op : σ.Op} {k : σ.Ans op → Prog σ α} :
    Issues adm P Q (.call op k) ↔ P op ∧ ∀ x, adm op x → Issues adm P Q (k x) := Iff.rfl

theorem Issues.bind {p : Prog σ α} {f : α → Prog σ β} (hp : Issues adm P Q p)
    (hf : ∀ a, Q a → Issues adm P R (f a)) : Issues adm P R (p >>= f) := by
  induction p with
  | ret a => exact hf a hp
  | call op k ih => exact ⟨hp.1, fun x hx => ih x (hp.2 x hx)⟩

/-- Every program issues some calls and returns something. -/
theorem issues_true (p : Prog σ α) : Issues adm (fun _ => True) (fun _ => True) p := by
  induction p with
  | ret a => exact trivial
  | call op k ih => exact ⟨trivial, fun x _ => ih x⟩

theorem Issues.left {τ : Sig} {adm : (op : (σ.sum τ).Op) → (σ.sum τ).Ans op → Prop}
    {P : (σ.sum τ).Op → Prop} {p : Prog σ α}
    (hp : Issues (fun op x => adm (.inl op) x) (fun op => P (.inl op)) Q p) :
    Issues adm P Q (p.left : Prog (σ.sum τ) α) := by
  induction p with
  | ret a => exact hp
  | call op k ih => exact ⟨hp.1, fun x hx => ih x (hp.2 x hx)⟩

theorem Issues.subst {τ : Sig} {adm' : (op : τ.Op) → τ.Ans op → Prop} {P' : τ.Op → Prop}
    {f : (op : σ.Op) → Prog τ (σ.Ans op)} {p : Prog σ α} (hp : Issues adm P Q p)
    (hf : ∀ op, P op → Issues adm' P' (adm op) (f op)) : Issues adm' P' Q (p.subst f) := by
  induction p with
  | ret a => exact hp
  | call op k ih => exact (hf op hp.1).bind fun x hx => ih x (hp.2 x hx)

theorem Issues.imp {P' : σ.Op → Prop} {Q' : α → Prop} {p : Prog σ α} (hp : Issues adm P Q p)
    (hP : ∀ op, P op → P' op) (hQ : ∀ a, Q a → Q' a) : Issues adm P' Q' p := by
  induction p with
  | ret a => exact hQ a hp
  | call op k ih => exact ⟨hP op hp.1, fun x hx => ih x (hp.2 x hx)⟩

/-- Under a handler whose answers are admissible, an invariant that the issued calls keep holds
throughout the run, and the result is as announced. -/
theorem Issues.run {p : Prog σ α} {s : S} (hp : Issues adm P Q p)
    (hadm : ∀ op s, I s → P op → adm op (h op s).1) (hstep : ∀ op s, I s → P op → I (h op s).2)
    (hs : I s) : Always h I p s ∧ Q (run h p s).1 := by
  induction p generalizing s with
  | ret a => exact ⟨hs, hp⟩
  | call op k ih =>
    obtain ⟨hrest, hq⟩ := ih (h op s).1 (hp.2 _ (hadm op s hs hp.1)) (hstep op s hs hp.1)
    exact ⟨⟨hs, hrest⟩, hq⟩

theorem Issues.log {p : Prog σ α} {s : S} (hp : Issues (fun _ _ => True) P Q p) :
    ∀ c ∈ log h p s, P c.1 := by
  induction p generalizing s with
  | ret a => exact fun c hc => absurd hc List.not_mem_nil
  | call op k ih =>
    intro c hc
    rcases List.mem_cons.mp hc with rfl | hc
    · exact hp.1
    · exact ih (h op s).1 (hp.2 _ trivial) c hc

theorem Issues.trace {p : Prog σ α} {s : S} (hp : Issues (fun _ _ => True) P Q p) :
    ∀ op ∈ trace h p s, P op := by
  intro op hop
  rw [← map_log] at hop
  obtain ⟨c, hc, rfl⟩ := List.mem_map.mp hop
  exact hp.log c hc

end Issues

end WeftAgent.Effect
