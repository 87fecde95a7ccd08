import WeftAgent.Effect.Prog
import Mathlib.Data.List.Induction
import Mathlib.Logic.Relation

/-!
# Programs that crash and are started again

One process at a time runs a program in an environment that is only known by what it may answer to a
call and make of the world. The process can crash before any of its calls, and is started again;
what it knew is lost, the world stays. A property that the program keeps at every point
(`Secure`) holds in every state that such runs reach.
-/

namespace WeftAgent.Effect

variable {σ : Sig} {α β W : Type}

/-- What may be answered to a call, and the world after it. -/
abbrev Environment (σ : Sig) (W : Type) := W → (op : σ.Op) → σ.Ans op → W → Prop

/-- Whatever the environment does, the invariant `I` holds before and after every call of the
program, and `Q` of the value and the world it returns in. -/
def Secure (env : Environment σ W) (I : W → Prop) (Q : α → W → Prop) : Prog σ α → W → Prop
  | .ret a, w => I w ∧ Q a w
  | .call op k, w => I w ∧ ∀ x w', env w op x w' → Secure env I Q (k x) w'

/-- The world, and what the process that is running has left to do. -/
structure Machine (σ : Sig) (α W : Type) where
  world : W
  process : Option (Prog σ α)

/-- One step of the machine. A return is noted in the world. -/
inductive Machine.Step (env : Environment σ W) (prog : Prog σ α) (note : α → W → W) :
    Machine σ α W → Machine σ α W → Prop where
  | start {w : W} : Step env prog note ⟨w, none⟩ ⟨w, some prog⟩
  | call {w w' : W} {op : σ.Op} {k : σ.Ans op → Prog σ α} {x : σ.Ans op} (h : env w op x w') :
      Step env prog note ⟨w, some (.call op k)⟩ ⟨w', some (k x)⟩
  | finish {w : W} {a : α} : Step env prog note ⟨w, some (.ret a)⟩ ⟨note a w, none⟩
  | crash {w : W} {p : Prog σ α} : Step env prog note ⟨w, some p⟩ ⟨w, none⟩

/-- The states that a machine without a process can get to from a world. -/
def Machine.Reaches (env : Environment σ W) (prog : Prog σ α) (note : α → W → W) (w : W)
    (m : Machine σ α W) : Prop :=
  Relation.ReflTransGen (Machine.Step env prog note) ⟨w, none⟩ m

variable {env : Environment σ W} {I : W → Prop} {Q : α → W → Prop}

theorem Secure.now {p : Prog σ α} {w : W} (h : Secure env I Q p w) : I w := by
  cases p with
  | ret a => exact h.1
  | call op k => exact h.1

theorem Secure.bind {R : β → W → Prop} {p : Prog σ α} {f : α → Prog σ β} {w : W}
    (hp : Secure env I Q p w) (hf : ∀ a w', I w' → Q a w' → Secure env I R (f a) w') :
    Secure env I R (p >>= f) w := by
  induction p generalizing w with
  | ret a => exact hf a w hp.1 hp.2
  | call op k ih => exact ⟨hp.1, fun x w' h => ih x (hp.2 x w' h)⟩

/-- An invariant that the program keeps at every point, and that a return it announces keeps, holds
in every state. -/
theorem Machine.Reaches.invariant {prog : Prog σ α} {note : α → W → W}
    (hprog : ∀ w, I w → Secure env I Q prog w) (hnote : ∀ a w, I w → Q a w → I (note a w)) {w : W}
    (hw : I w) {m : Machine σ α W} (h : Machine.Reaches env prog note w m) : I m.world := by
  have hall : I m.world ∧ ∀ p, m.process = some p → Secure env I Q p m.world := by
    induction h with
    | refl => exact ⟨hw, by simp⟩
    | tail _ hstep ih =>
      obtain ⟨hI, hrest⟩ := ih
      cases hstep with
      | start => exact ⟨hI, by rintro _ ⟨⟩; exact hprog _ hI⟩
      | call henv =>
        have hnext := (hrest _ rfl).2 _ _ henv
        exact ⟨hnext.now, by rintro _ ⟨⟩; exact hnext⟩
      | finish => exact ⟨hnote _ _ (hrest _ rfl).1 (hrest _ rfl).2, by simp⟩
      | crash => exact ⟨hI, by simp⟩
  exact hall.1

/-! ## Planned runs -/

/-- The world after a program has made some calls and crashed. -/
def crashAfter (h : Handler σ W) : Nat → Prog σ α → W → W
  | 0, _, w => w
  | _ + 1, .ret _, w => w
  | n + 1, .call op k, w => crashAfter h n (k (h op w).1) (h op w).2

/-- The world after the program was started once for each entry of a plan: it crashes after the
given number of calls, or returns. -/
def startAll (h : Handler σ W) (prog : Prog σ α) (note : α → W → W) (plan : List (Option Nat))
    (w : W) : W :=
  plan.foldl (fun w crash =>
    match crash with
    | some n => crashAfter h n prog w
    | none => note (run h prog w).1 (run h prog w).2) w

variable {h : Handler σ W} {prog : Prog σ α} {note : α → W → W}

theorem steps_run (hok : ∀ op w, env w op (h op w).1 (h op w).2) (p : Prog σ α) (w : W) :
    Relation.ReflTransGen (Machine.Step env prog note) ⟨w, some p⟩
      ⟨note (run h p w).1 (run h p w).2, none⟩ := by
  induction p generalizing w with
  | ret a => exact .single .finish
  | call op k ih => exact .head (.call (hok op w)) (ih _ _)

theorem steps_crashAfter (hok : ∀ op w, env w op (h op w).1 (h op w).2) (n : Nat) (p : Prog σ α)
    (w : W) :
    Relation.ReflTransGen (Machine.Step env prog note) ⟨w, some p⟩ ⟨crashAfter h n p w, none⟩ := by
  induction n generalizing p w with
  | zero => exact .single .crash
  | succ n ih =>
    cases p with
    | ret a => exact .single .crash
    | call op k => exact .head (.call (hok op w)) (ih _ _)

/-- With a handler that answers as the environment may, planned runs are runs of the machine. -/
theorem reaches_startAll (hok : ∀ op w, env w op (h op w).1 (h op w).2) (plan : List (Option Nat))
    (w : W) : Machine.Reaches env prog note w ⟨startAll h prog note plan w, none⟩ := by
  induction plan using List.reverseRecOn with
  | nil => exact .refl
  | append_singleton plan crash ih =>
    rw [startAll, List.foldl_append, List.foldl_cons, List.foldl_nil]
    refine (Relation.ReflTransGen.tail ih .start).trans ?_
    cases crash with
    | none => exact steps_run hok prog _
    | some n => exact steps_crashAfter hok n prog _

end WeftAgent.Effect
