import WeftAgent.Containers.Proofs.ReconcilerProofs

/-!
# Publishing a set again

A set that lists the same containers as the one applied last, in any order and with any restart
policies and annotations, makes an apply issue no call: the specs are compared without these fields,
and the recorded map has no order.
-/

namespace WeftAgent.Containers

open WeftAgent.Go WeftAgent.Effect WeftAgent.Pod

/-- The two specs differ in their restart policy and annotations at most. Their environments are the
same map, whatever order it is ranged over in. -/
structure SameSpec (a b : WorkloadContainer) : Prop where
  name : a.name = b.name
  fields : SameButEnv a b
  env : ∀ k, a.env.lookup k = b.env.lookup k

/-- The second set is a permutation of the first, with other restart policies and annotations. -/
def Republished (s s' : ContainerSet) : Prop :=
  ∃ cs, List.Forall₂ SameSpec s.containers cs ∧ cs.Perm s'.containers

theorem SameSpec.containerEqual {a b : WorkloadContainer} (h : SameSpec a b) :
    containerEqual a b = true := by
  have hperm : a.env.entries.Perm b.env.entries :=
    List.lookup_ext a.env.nodupKeys b.env.nodupKeys fun k v => by
      change v ∈ a.env.lookup k ↔ v ∈ b.env.lookup k
      rw [h.env k]
  refine containerEqual_iff.mpr ⟨h.fields, hperm.length_eq, fun k v hk => ?_⟩
  rw [GoMap.index, ← h.env k, hk]
  rfl

variable {s s' : ContainerSet}

theorem Republished.of_mem (h : Republished s s') {c : WorkloadContainer}
    (hc : c ∈ s.containers) : ∃ c' ∈ s'.containers, SameSpec c c' := by
  obtain ⟨cs, hsame, hperm⟩ := h
  obtain ⟨i, hi, rfl⟩ := List.getElem_of_mem hc
  have hlen := hsame.length_eq
  exact ⟨cs[i], hperm.mem_iff.mp (List.getElem_mem _), hsame.get hi (by omega)⟩

theorem Republished.mem_of (h : Republished s s') {c' : WorkloadContainer}
    (hc' : c' ∈ s'.containers) : ∃ c ∈ s.containers, SameSpec c c' := by
  obtain ⟨cs, hsame, hperm⟩ := h
  obtain ⟨i, hi, rfl⟩ := List.getElem_of_mem (hperm.mem_iff.mpr hc')
  have hlen := hsame.length_eq
  exact ⟨s.containers[i], List.getElem_mem _, hsame.get (by omega) hi⟩

/-! ## Loops that find nothing to do -/

theorem stopDropped_of_listed {next : GoMap GoString WorkloadContainer} {names : List GoString}
    (hnames : ∀ n ∈ names, n ∈ next) (firstErr : Option GoError) :
    stopDropped next names firstErr = .ret firstErr := by
  induction names with
  | nil => rfl
  | cons name names ih =>
    rw [stopDropped, if_pos (hnames name List.mem_cons_self)]
    exact ih fun n hn => hnames n (List.mem_cons_of_mem _ hn)

theorem settleAll_of_unchanged {desired next : GoMap GoString WorkloadContainer}
    (hsame : ∀ n c, next.lookup n = some c →
      ∃ p, desired.lookup n = some p ∧ containerEqual p c = true)
    (names : List GoString) (firstErr : Option GoError) :
    settleAll desired next names firstErr = .ret firstErr := by
  induction names with
  | nil => rfl
  | cons name names ih =>
    rw [settleAll]
    cases hwant : next.lookup name with
    | none => exact ih
    | some want =>
      obtain ⟨p, hp, heq⟩ := hsame name want hwant
      simp only [hp, settle, heq, if_true, pure_eq, ret_bind]
      exact ih

/-- An apply of a set that was applied already is a return. -/
theorem apply_of_republished (hs : s.validate = none) (hs' : s'.validate = none)
    (h : Republished s s') (order : RangeOrder GoString) :
    (⟨nextMap s⟩ : Reconciler).apply order s' = .ret (none, ⟨nextMap s'⟩) := by
  have hlisted : ∀ n ∈ order.visit (nextMap s).keys, n ∈ nextMap s' := by
    intro n hn
    obtain ⟨c, hc, rfl⟩ := (mem_nextMap hs).mp ((order.perm _).mem_iff.mp hn)
    obtain ⟨c', hc', hsame⟩ := h.of_mem hc
    exact (mem_nextMap hs').mpr ⟨c', hc', hsame.name.symm⟩
  have hunchanged : ∀ n c', (nextMap s').lookup n = some c' →
      ∃ p, (nextMap s).lookup n = some p ∧ containerEqual p c' = true := by
    intro n c' hc'
    obtain ⟨hmem, rfl⟩ := (lookup_nextMap hs').mp hc'
    obtain ⟨c, hc, hsame⟩ := h.mem_of hmem
    exact ⟨c, (lookup_nextMap hs).mpr ⟨hc, hsame.name⟩, hsame.containerEqual⟩
  simp only [Reconciler.apply, hs', stopDropped_of_listed hlisted, ret_bind,
    settleAll_of_unchanged hunchanged, pure_eq]

/-- Over any runtime and from any reconciler, whatever the calls of the first apply answered: the
apply of the set published again issues no call and returns nil, and the new set is recorded. -/
theorem republish_is_silent {S : Type} (h : Handler runtimeSig S) (r : Reconciler)
    (hs : s.validate = none) (hs' : s'.validate = none) (hrep : Republished s s')
    (order order' : RangeOrder GoString) (st : S) :
    let first := run h (r.apply order s) st
    let again := run h (first.1.2.apply order' s') first.2
    log h (first.1.2.apply order' s') first.2 = [] ∧ again.2 = first.2 ∧ again.1.1 = none ∧
      ∀ n c, again.1.2.desired.lookup n = some c ↔ c ∈ s'.containers ∧ c.name = n := by
  intro first again
  have hret : first.1.2.apply order' s' = .ret (none, ⟨nextMap s'⟩) := by
    rw [run_apply_desired h hs]
    exact apply_of_republished hs hs' hrep order'
  simp only [again, hret, run_ret, log]
  exact ⟨trivial, trivial, trivial, fun n c => lookup_nextMap hs'⟩

/-- Two containers, listed in the other order with one restart policy changed, over a runtime whose
calls all fail. -/
theorem republish_swapped_is_silent :
    let web : WorkloadContainer := { name := lit "web", image := lit "nginx" }
    let db : WorkloadContainer := { name := lit "db", image := lit "redis" }
    let failing : Handler runtimeSig Unit := fun _ _ => (some (.errorf "down" []), ())
    let s : ContainerSet := { containers := [web, db] }
    let s' : ContainerSet := { containers := [db, { web with restart := lit "always" }] }
    let first := run failing ((⟨∅⟩ : Reconciler).apply .listed s) ()
    first.1.1 ≠ none ∧ log failing (first.1.2.apply .listed s') first.2 = [] := by
  intro web db failing s s' first
  refine ⟨by decide, ?_⟩
  have hsame : ∀ c : WorkloadContainer, SameSpec c c := fun c =>
    ⟨rfl, ⟨rfl, rfl, rfl, rfl, rfl, rfl⟩, fun _ => rfl⟩
  have hrep : Republished s s' :=
    ⟨[{ web with restart := lit "always" }, db],
      .cons ⟨rfl, ⟨rfl, rfl, rfl, rfl, rfl, rfl⟩, fun _ => rfl⟩ (.cons (hsame db) .nil),
      .swap _ _ _⟩
  exact (republish_is_silent failing ⟨∅⟩ (by decide) (by decide) hrep .listed .listed ()).1

end WeftAgent.Containers
