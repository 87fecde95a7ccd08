import WeftAgent.Containers.Proofs.ReconcilerProofs
import WeftAgent.Trace.Along

/-!
# Convergence of the container reconciler

What runs after each publish of a run: without failures, the specs published last; after failures,
what the comparison of the published with the recorded set lets the reconciler repair.
-/

namespace WeftAgent.Containers

open WeftAgent.Go WeftAgent.Effect WeftAgent.Pod WeftAgent.Trace

/-! ## One publish -/

/-- A publish without failures is one over the runtime whose calls always succeed. -/
theorem publish_of_faultFree {m : Machine} {p : Publish} (h : m.FaultFree p) :
    (m.publish p).runtime =
      (run StubRuntime.serve (m.reconciler.apply p.order p.set) m.runtime).2 := by
  have hstep : ∀ op (s : StubRuntime × List Outcome) rt, s.1 = rt → (faulty op s).1 = none →
      (StubRuntime.serve op rt).1 = (faulty op s).1 ∧
        (faulty op s).2.1 = (StubRuntime.serve op rt).2 := by
    rintro op ⟨rt, _ | ⟨_ | _, _⟩⟩ _ rfl hok
    · exact ⟨rfl, rfl⟩
    · exact ⟨rfl, rfl⟩
    · cases hok
  exact (run_simulates (h := faulty) (fun s rt => s.1 = rt) (fun call => call.2 = none)
    hstep rfl h).2

theorem lookup_publish {m : Machine} {p : Publish} (hv : p.set.validate = none)
    (h : m.FaultFree p) (n : GoString) :
    (m.publish p).runtime.started.lookup n =
      afterApply (m.reconciler.desired.lookup n) ((nextMap p.set).lookup n)
        (m.runtime.started.lookup n) := by
  rw [publish_of_faultFree h, run_apply hv]

theorem desired_publish {m : Machine} {p : Publish} (hv : p.set.validate = none) :
    (m.publish p).reconciler.desired = nextMap p.set := by
  rw [Machine.publish, run_apply_desired faulty hv]

theorem publish_of_invalid {m : Machine} {p : Publish} {e : GoError}
    (hv : p.set.validate = some e) : m.publish p = m := by
  rw [Machine.publish, apply_of_invalid hv]
  rfl

theorem faultFree_of_no_outcomes {m : Machine} {p : Publish} (h : p.outcomes = []) :
    m.FaultFree p := by
  have hstep : ∀ op (s : StubRuntime × List Outcome), s.2 = [] →
      (faulty op s).1 = none ∧ (faulty op s).2.2 = [] := by
    rintro op ⟨rt, _⟩ rfl
    cases op <;> exact ⟨rfl, rfl⟩
  exact log_forall (h := faulty) (fun s => s.2 = []) (fun call => call.2 = none) hstep h

/-! ## Runs without failures -/

/-- The specs agree on all that `containerEqual` is to compare, the environments as maps. -/
def SpecAgrees (a b : WorkloadContainer) : Prop :=
  SameButEnv a b ∧ ∀ k, a.env.lookup k = b.env.lookup k

/-- The containers that run are those of the set, each with the published spec. -/
def Converged (rt : StubRuntime) (s : ContainerSet) : Prop :=
  (∀ n, n ∈ rt.started ↔ ∃ c ∈ s.containers, c.name = n) ∧
    ∀ c ∈ s.containers, ∃ spec, rt.started.lookup c.name = some spec ∧ SpecAgrees spec c

/-- A change of the environment that the comparison does not see: a variable with the empty value is
dropped, and another one added. -/
def HiddenEnvChange (a b : WorkloadContainer) : Prop :=
  SameButEnv a b ∧ EnvCovered a.env b.env ∧ ∃ k ∈ a.env, k ∉ b.env

/-- What runs agrees with the recorded set. -/
def Faithful (m : Machine) : Prop :=
  ∀ n, Option.Rel SpecAgrees (m.runtime.started.lookup n) (m.reconciler.desired.lookup n)

theorem converged_iff {rt : StubRuntime} {s : ContainerSet} (hv : s.validate = none) :
    Converged rt s ↔ ∀ n, Option.Rel SpecAgrees (rt.started.lookup n) ((nextMap s).lookup n) := by
  constructor
  · rintro ⟨hnames, hspecs⟩ n
    cases hn : (nextMap s).lookup n with
    | some c =>
      obtain ⟨hc, rfl⟩ := (lookup_nextMap hv).mp hn
      obtain ⟨spec, hspec, hagrees⟩ := hspecs c hc
      rw [hspec]
      exact .some hagrees
    | none =>
      have hnot : n ∉ rt.started := by
        rw [hnames, ← mem_nextMap hv]
        exact AList.lookup_eq_none.mp hn
      rw [AList.lookup_eq_none.mpr hnot]
      exact .none
  · intro h
    refine ⟨fun n => ?_, fun c hc => ?_⟩
    · rw [← mem_nextMap hv, ← AList.lookup_isSome, ← AList.lookup_isSome]
      have hn := h n
      generalize rt.started.lookup n = running, (nextMap s).lookup n = want at hn ⊢
      cases hn <;> simp
    · have hc' := h c.name
      rw [(lookup_nextMap hv).mpr ⟨hc, rfl⟩] at hc'
      cases hspec : rt.started.lookup c.name with
      | none =>
        rw [hspec] at hc'
        cases hc'
      | some spec =>
        rw [hspec] at hc'
        cases hc' with
        | some hagrees => exact ⟨spec, rfl, hagrees⟩

theorem SpecAgrees.refl (c : WorkloadContainer) : SpecAgrees c c :=
  ⟨⟨rfl, rfl, rfl, rfl, rfl, rfl⟩, fun _ => rfl⟩

/-- A running spec that agrees with the recorded one agrees with a published one that counts as
equal to it, unless a change is hidden. -/
theorem specAgrees_iff {q p c : WorkloadContainer} (hqp : SpecAgrees q p)
    (heq : containerEqual p c = true) : SpecAgrees q c ↔ ¬ HiddenEnvChange p c := by
  obtain ⟨hsame, hcov⟩ := containerEqual_iff.mp heq
  have hfields : SameButEnv q c := by
    obtain ⟨h₁, h₂, h₃, h₄, h₅, h₆⟩ := hqp.1
    obtain ⟨g₁, g₂, g₃, g₄, g₅, g₆⟩ := hsame
    exact ⟨h₁.trans g₁, h₂.trans g₂, h₃.trans g₃, h₄.trans g₄, h₅.trans g₅, h₆.trans g₆⟩
  calc SpecAgrees q c
    _ ↔ ∀ k, q.env.lookup k = c.env.lookup k := and_iff_right hfields
    _ ↔ ∀ k, p.env.lookup k = c.env.lookup k := forall_congr' fun k => by rw [hqp.2 k]
    _ ↔ ∀ k ∈ p.env, k ∈ c.env := hcov.lookup_eq_iff
    _ ↔ ¬ HiddenEnvChange p c := by simp [HiddenEnvChange, hsame, hcov]

/-- An apply brings the container under a name to its published spec, unless the change of the spec
is hidden. -/
theorem rel_afterApply_iff {prev want running : Option WorkloadContainer}
    (h : Option.Rel SpecAgrees running prev) :
    Option.Rel SpecAgrees (afterApply prev want running) want ↔
      ∀ p ∈ prev, ∀ c ∈ want, ¬ HiddenEnvChange p c := by
  cases want with
  | none => cases h <;> simp [afterApply]
  | some c =>
    cases h with
    | none => simpa [afterApply] using SpecAgrees.refl c
    | @some q p hqp =>
      simp only [afterApply, Option.mem_some, forall_eq']
      split_ifs with heq
      · rw [Option.rel_some_some, specAgrees_iff hqp heq]
      · simp only [Option.rel_some_some, SpecAgrees.refl, true_iff]
        exact fun hidden => heq (containerEqual_iff.mpr ⟨hidden.1, hidden.2.1⟩)

/-- The publish of a set over a runtime whose calls succeed. -/
def publishNext (m : Machine) (e : ContainerSet × RangeOrder GoString) : Machine :=
  m.publish { set := e.1, order := e.2 }

/-- The published specs run after every apply of a run without failures exactly if no accepted set
of the run hides a change of an environment. -/
theorem converged_along_iff (es : List (ContainerSet × RangeOrder GoString)) :
    Along publishNext
        (fun m e => e.1.validate = none → Converged (publishNext m e).runtime e.1) {} es ↔
      Along publishNext
        (fun m e => e.1.validate = none → ∀ c ∈ e.1.containers, ∀ prev,
          m.reconciler.desired.lookup c.name = some prev → ¬ HiddenEnvChange prev c) {} es := by
  -- up to the first hidden change what runs is what is recorded, so the two conditions agree there
  refine along_congr (I := Faithful) (fun m e hm => forall_congr' fun hv => ?_) ?_
    fun n => by exact .none
  · have hname : ∀ n, Option.Rel SpecAgrees ((publishNext m e).runtime.started.lookup n)
        ((nextMap e.1).lookup n) ↔ ∀ p ∈ m.reconciler.desired.lookup n,
          ∀ c ∈ (nextMap e.1).lookup n, ¬ HiddenEnvChange p c := fun n => by
      rw [publishNext, lookup_publish hv (faultFree_of_no_outcomes rfl), rel_afterApply_iff (hm n)]
    simp only [converged_iff hv, hname]
    constructor
    · intro h c hc prev hprev
      exact h c.name prev hprev c ((lookup_nextMap hv).mpr ⟨hc, rfl⟩)
    · intro h n prev hprev c hwant
      obtain ⟨hc, rfl⟩ := (lookup_nextMap hv).mp hwant
      exact h c hc prev hprev
  · intro m e hm h
    cases hv : e.1.validate with
    | some err => rwa [publishNext, publish_of_invalid hv]
    | none =>
      intro n
      rw [publishNext, desired_publish hv]
      exact (converged_iff hv).mp (h hv) n

/-- A container whose only environment variable is set as given. -/
def withEnv (k v : GoString) : ContainerSet :=
  { containers := [{ name := lit "a", image := lit "img", env := AList.singleton k v }] }

/-- The empty variable `A` is replaced by `B`: both sets are valid, and the container still runs
without `B`. -/
theorem replaced_empty_variable_is_kept :
    (withEnv (lit "A") []).validate = none ∧ (withEnv (lit "B") (lit "x")).validate = none ∧
      ((([(withEnv (lit "A") [], .listed), (withEnv (lit "B") (lit "x"), .listed)].foldl
        publishNext {}).runtime.started.lookup (lit "a")).map
          fun spec => (spec.env.lookup (lit "A"), spec.env.lookup (lit "B"))) =
        some (some [], none) := by
  decide

/-! ## Runs with failures -/

/-- The names that run are those of the set. -/
def NamesMatch (rt : StubRuntime) (s : ContainerSet) : Prop :=
  ∀ n, n ∈ rt.started ↔ ∃ c ∈ s.containers, c.name = n

/-- The published spec counts as equal to the recorded one. -/
def Unchanged (prev c : WorkloadContainer) : Prop := SameButEnv prev c ∧ EnvCovered prev.env c.env

/-- What an apply of the set cannot repair is as it should be: a container with an unchanged spec
runs, and nothing runs that is neither listed nor recorded. -/
def Repairable (m : Machine) (s : ContainerSet) : Prop :=
  (∀ c ∈ s.containers, ∀ prev, m.reconciler.desired.lookup c.name = some prev →
    Unchanged prev c → c.name ∈ m.runtime.started) ∧
  ∀ n ∈ m.runtime.started, (∃ c ∈ s.containers, c.name = n) ∨ n ∈ m.reconciler.desired

/-- Whether something runs under a name after an apply. -/
theorem isSome_afterApply_iff {prev want running : Option WorkloadContainer} :
    ((afterApply prev want running).isSome ↔ want.isSome) ↔
      (∀ c ∈ want, ∀ p ∈ prev, Unchanged p c → running.isSome) ∧
        (running.isSome → want.isSome ∨ prev.isSome) := by
  cases want with
  | none => cases prev <;> simp [afterApply]
  | some c =>
    cases prev with
    | none => simp [afterApply]
    | some p =>
      have hequal : containerEqual p c = true ↔ Unchanged p c := containerEqual_iff
      by_cases heq : Unchanged p c
      · simp [afterApply, hequal.mpr heq, heq]
      · simp [afterApply, hequal, heq]

/-- A publish without failures of a valid set. -/
theorem namesMatch_publish_iff {m : Machine} {p : Publish} (hv : p.set.validate = none)
    (h : m.FaultFree p) : NamesMatch (m.publish p).runtime p.set ↔ Repairable m p.set := by
  have hname : ∀ n, (n ∈ (m.publish p).runtime.started ↔ ∃ c ∈ p.set.containers, c.name = n) ↔
      (∀ c ∈ (nextMap p.set).lookup n, ∀ prev ∈ m.reconciler.desired.lookup n,
        Unchanged prev c → n ∈ m.runtime.started) ∧
        (n ∈ m.runtime.started →
          (∃ c ∈ p.set.containers, c.name = n) ∨ n ∈ m.reconciler.desired) := fun n => by
    simp only [← mem_nextMap hv, ← AList.lookup_isSome]
    rw [lookup_publish hv h, isSome_afterApply_iff]
  simp only [NamesMatch, hname, forall_and]
  refine and_congr ?_ Iff.rfl
  constructor
  · intro hn c hc prev hprev
    exact hn c.name c ((lookup_nextMap hv).mpr ⟨hc, rfl⟩) prev hprev
  · intro hc n c hwant prev hprev
    obtain ⟨hmem, rfl⟩ := (lookup_nextMap hv).mp hwant
    exact hc c hmem prev hprev

/-- In a run with any failures, every apply whose calls all succeed leaves exactly the names of its
set running, if and only if what each such apply cannot repair was as it should be before it. -/
theorem heals_along_iff (m : Machine) (ps : List Publish) :
    Along Machine.publish
        (fun m p => p.set.validate = none → m.FaultFree p →
          NamesMatch (m.publish p).runtime p.set) m ps ↔
      Along Machine.publish
        (fun m p => p.set.validate = none → m.FaultFree p → Repairable m p.set) m ps := by
  refine along_congr (I := fun _ => True) (fun m p _ => ?_) (fun _ _ _ _ => trivial) trivial
  exact forall_congr' fun hv => forall_congr' fun h => namesMatch_publish_iff hv h

/-- A run from the start without failures is always repairable: after each apply exactly the names
of its set are running. -/
theorem namesMatch_along_of_faultFree {ps : List Publish}
    (h : Along Machine.publish Machine.FaultFree {} ps) :
    Along Machine.publish
      (fun m p => p.set.validate = none → NamesMatch (m.publish p).runtime p.set) {} ps := by
  -- what runs is what is recorded
  refine h.imp (I := fun m => ∀ n, n ∈ m.runtime.started ↔ n ∈ m.reconciler.desired)
    (fun m p hm hp => ?_) (fun n => Iff.rfl)
  cases hv : p.set.validate with
  | some e =>
    rw [publish_of_invalid hv]
    exact ⟨fun hnone => absurd hnone (by simp), hm⟩
  | none =>
    have hmatch : NamesMatch (m.publish p).runtime p.set := by
      refine (namesMatch_publish_iff hv hp).mpr ⟨fun c _ prev hprev _ => ?_, fun n hn => ?_⟩
      · exact (hm c.name).mpr (GoMap.mem_iff_lookup.mpr ⟨prev, hprev⟩)
      · exact .inr ((hm n).mp hn)
    refine ⟨fun _ => hmatch, fun n => ?_⟩
    rw [hmatch n, desired_publish hv, mem_nextMap hv]

def oneContainer : ContainerSet := { containers := [{ name := lit "a", image := lit "img" }] }

def failedStart : Publish :=
  { set := oneContainer
    outcomes := [.ok, .fail (.errorf "crun run a: exit status 1" []) [lit "a"]] }

/-- Publishing a set again after a failed start: the set is valid, no call fails, and the container
still does not run. -/
theorem failed_start_is_not_retried :
    oneContainer.validate = none ∧
      (Machine.publish {} failedStart).FaultFree { set := oneContainer } ∧
      lit "a" ∉
        ((Machine.publish {} failedStart).publish { set := oneContainer }).runtime.started := by
  decide

end WeftAgent.Containers
