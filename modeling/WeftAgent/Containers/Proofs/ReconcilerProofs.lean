import WeftAgent.Containers.Runtime
import Mathlib.Tactic

/-!
# What a publish does to each container

When two specs count as equal, and what an apply without failures makes of the container under a
name: it depends only on the recorded spec, the published one and the one that runs.
-/

namespace WeftAgent.Containers

open WeftAgent.Go WeftAgent.Effect WeftAgent.Pod

/-! ## Equal specs -/

theorem sliceEq_iff {α : Type} [DecidableEq α] {a b : List α} : sliceEq a b = true ↔ a = b := by
  unfold sliceEq
  induction a generalizing b with
  | nil => cases b <;> simp
  | cons x a ih =>
    cases b with
    | nil => simp
    | cons y b =>
      have hab := ih (b := b)
      by_cases hlen : a.length = b.length
      · simp only [hlen, ne_eq, not_true_eq_false, if_false] at hab
        simp [hlen, hab]
      · have hne : a ≠ b := fun heq => hlen (congrArg List.length heq)
        simp [hlen, hne]

/-- The specs agree on everything that is compared, except the environment. -/
def SameButEnv (a b : WorkloadContainer) : Prop :=
  a.image = b.image ∧ a.command = b.command ∧ a.args = b.args ∧ a.mounts = b.mounts ∧
    a.workingDir = b.workingDir ∧ a.net = b.net

/-- The environments have the same size; a variable of the first has the same value in the second,
or is empty and missing there. -/
def EnvCovered (a b : GoMap GoString GoString) : Prop :=
  a.entries.length = b.entries.length ∧ ∀ k v, a.lookup k = some v → b.index k = v

theorem containerEqual_iff {a b : WorkloadContainer} :
    containerEqual a b = true ↔ SameButEnv a b ∧ EnvCovered a.env b.env := by
  have hany : (a.env.entries.any fun e => b.env.index e.1 ≠ e.2) = true ↔
      ¬ ∀ k v, a.env.lookup k = some v → b.env.index k = v := by
    simp only [List.any_eq_true, decide_eq_true_eq, not_forall]
    constructor
    · rintro ⟨⟨k, v⟩, he, hne⟩
      exact ⟨k, v, AList.mem_lookup_iff.mpr he, hne⟩
    · rintro ⟨k, v, he, hne⟩
      exact ⟨⟨k, v⟩, AList.mem_lookup_iff.mp he, hne⟩
  unfold containerEqual SameButEnv EnvCovered stringSliceEq
  split_ifs with h₁ h₂ h₃ h₄
  · simp only [false_iff]
    tauto
  · simp only [Bool.or_eq_true, Bool.not_eq_true', ← Bool.not_eq_true, sliceEq_iff] at h₂
    simp only [false_iff]
    tauto
  · simp only [false_iff]
    tauto
  · rw [hany] at h₄
    simp only [false_iff]
    tauto
  · rw [hany, not_not] at h₄
    simp only [Bool.or_eq_true, Bool.not_eq_true', ← Bool.not_eq_true, sliceEq_iff] at h₂
    rw [sliceEq_iff]
    push Not at h₁ h₂ h₃
    tauto

/-- Covered environments are the same map exactly if no variable of the first is missing in the
second. -/
theorem EnvCovered.lookup_eq_iff {a b : GoMap GoString GoString} (h : EnvCovered a b) :
    (∀ k, a.lookup k = b.lookup k) ↔ ∀ k ∈ a, k ∈ b := by
  constructor
  · intro heq k hk
    rwa [← AList.lookup_isSome, ← heq k, AList.lookup_isSome]
  · intro hsub k
    -- the sizes agree, so with all of the first's variables the second has no others
    have hkeys : a.keys.Perm b.keys := by
      refine List.Subperm.perm_of_length_le (a.keys_nodup.subperm fun k hk => hsub k hk) ?_
      simp [AList.keys, List.keys, h.1]
    cases hk : a.lookup k with
    | none =>
      rw [AList.lookup_eq_none, AList.mem_keys, hkeys.mem_iff, ← AList.mem_keys,
        ← AList.lookup_eq_none] at hk
      exact hk.symm
    | some v =>
      obtain ⟨w, hw⟩ := GoMap.mem_iff_lookup.mp (hsub k (GoMap.mem_iff_lookup.mpr ⟨v, hk⟩))
      have hindex := h.2 k v hk
      rw [GoMap.index, hw] at hindex
      rw [hw, ← hindex]
      rfl

/-! ## The map of a set -/

theorem lookup_foldl_insert (cs : List WorkloadContainer) (m : GoMap GoString WorkloadContainer)
    (n : GoString) (hnodup : (cs.map WorkloadContainer.name).Nodup) :
    (cs.foldl (fun next c => next.insert c.name c) m).lookup n =
      ((cs.find? fun c => c.name = n).or (m.lookup n)) := by
  induction cs generalizing m with
  | nil => rfl
  | cons c cs ih =>
    rw [List.map_cons, List.nodup_cons] at hnodup
    rw [List.foldl_cons, ih _ hnodup.2, List.find?_cons]
    by_cases hc : c.name = n
    · have hrest : cs.find? (fun d => d.name = n) = none := by
        rw [List.find?_eq_none]
        intro d hd hdn
        exact hnodup.1 (List.mem_map.mpr ⟨d, hd, (of_decide_eq_true hdn).trans hc.symm⟩)
      simp [hrest, hc]
    · simp [hc, AList.lookup_insert_ne (Ne.symm hc)]

/-- `next[n]` for a valid set. -/
theorem lookup_nextMap {s : ContainerSet} (hv : s.validate = none) {n : GoString}
    {c : WorkloadContainer} :
    (nextMap s).lookup n = some c ↔ c ∈ s.containers ∧ c.name = n := by
  have hnodup := (ContainerSet.names_of_validate hv).2
  rw [nextMap, lookup_foldl_insert _ _ _ hnodup, AList.lookup_empty, Option.or_none]
  constructor
  · intro h
    exact ⟨List.mem_of_find?_eq_some h, by simpa using List.find?_some h⟩
  · rintro ⟨hc, hname⟩
    cases hf : s.containers.find? fun c => c.name = n with
    | none =>
      rw [List.find?_eq_none] at hf
      exact absurd hname (by simpa using hf c hc)
    | some d =>
      have hdn : d.name = n := by simpa using List.find?_some hf
      rw [List.inj_on_of_nodup_map hnodup (List.mem_of_find?_eq_some hf) hc (hdn.trans hname.symm)]

theorem mem_nextMap {s : ContainerSet} (hv : s.validate = none) {n : GoString} :
    n ∈ nextMap s ↔ ∃ c ∈ s.containers, c.name = n := by
  simp only [GoMap.mem_iff_lookup, lookup_nextMap hv]

/-! ## The calls of an apply -/

section Calls

variable {P : RuntimeOp → Prop}

theorem issues_stopDropped {next : GoMap GoString WorkloadContainer} {names : List GoString}
    (hstop : ∀ n ∈ names, n ∉ next → P (.stop n)) (firstErr : Option GoError) :
    Issues (fun _ _ => True) P (fun _ => True) (stopDropped next names firstErr) := by
  induction names generalizing firstErr with
  | nil => trivial
  | cons name names ih =>
    have ih' := fun firstErr => ih (fun n hn => hstop n (List.mem_cons_of_mem _ hn)) firstErr
    rw [stopDropped]
    split_ifs with hname
    · exact ih' firstErr
    · exact ⟨hstop name List.mem_cons_self hname, fun err _ => ih' (record firstErr err)⟩

theorem issues_pullAndStart {want : WorkloadContainer} (hpull : ∀ image, P (.pull image))
    (hstart : P (.start want)) (firstErr : Option GoError) :
    Issues (fun _ _ => True) P (fun _ => True) (pullAndStart want firstErr) := by
  refine ⟨hpull want.image, fun err _ => ?_⟩
  cases err with
  | some e => trivial
  | none => exact ⟨hstart, fun _ _ => trivial⟩

theorem issues_settle {prev : Option WorkloadContainer} {name : GoString}
    {want : WorkloadContainer} (hpull : ∀ image, P (.pull image)) (hstart : P (.start want))
    (hstop : prev.isSome → P (.stop name)) (firstErr : Option GoError) :
    Issues (fun _ _ => True) P (fun _ => True) (settle prev name want firstErr) := by
  cases prev with
  | none => exact issues_pullAndStart hpull hstart firstErr
  | some p =>
    rw [settle]
    split_ifs
    · trivial
    · exact ⟨hstop rfl, fun err _ => issues_pullAndStart hpull hstart (record firstErr err)⟩

theorem issues_settleAll {desired next : GoMap GoString WorkloadContainer}
    (hpull : ∀ image, P (.pull image)) (hstart : ∀ n c, next.lookup n = some c → P (.start c))
    (hstop : ∀ n ∈ desired, n ∈ next → P (.stop n)) (names : List GoString)
    (firstErr : Option GoError) :
    Issues (fun _ _ => True) P (fun _ => True) (settleAll desired next names firstErr) := by
  induction names generalizing firstErr with
  | nil => trivial
  | cons name names ih =>
    cases hwant : next.lookup name with
    | none =>
      simp only [settleAll, hwant]
      exact ih firstErr
    | some want =>
      simp only [settleAll, hwant]
      have hname : (desired.lookup name).isSome → P (.stop name) := fun h =>
        hstop name (AList.lookup_isSome.mp h) (GoMap.mem_iff_lookup.mpr ⟨want, hwant⟩)
      exact (issues_settle hpull (hstart name want hwant) hname firstErr).bind fun err _ => ih err

/-- Whatever the runtime answers, an apply stops only recorded containers and starts only published
ones. -/
theorem issues_apply {r : Reconciler} {s : ContainerSet} (hv : s.validate = none)
    (order : RangeOrder GoString) (hpull : ∀ image, P (.pull image))
    (hstart : ∀ c ∈ s.containers, P (.start c)) (hstop : ∀ n ∈ r.desired, P (.stop n)) :
    Issues (fun _ _ => True) P (fun _ => True) (r.apply order s) := by
  simp only [Reconciler.apply, hv]
  have hnext : ∀ n c, (nextMap s).lookup n = some c → P (.start c) := fun n c h =>
    hstart c ((lookup_nextMap hv).mp h).1
  have hdropped : ∀ n ∈ order.visit r.desired.keys, n ∉ nextMap s → P (.stop n) := fun n hn _ =>
    hstop n ((order.perm _).mem_iff.mp hn)
  refine (issues_stopDropped hdropped none).bind fun firstErr _ => ?_
  exact (issues_settleAll hpull hnext (fun n hn _ => hstop n hn) _ firstErr).bind
    fun _ _ => trivial

end Calls

/-! ## An apply without failures -/

/-- What an apply makes of the container under a name, given the recorded, the published and the
running spec. -/
def afterApply (prev want running : Option WorkloadContainer) : Option WorkloadContainer :=
  match prev, want with
  | none, none => running
  | some _, none => none
  | none, some c => some c
  | some p, some c => if containerEqual p c then running else some c

theorem run_stopDropped (next : GoMap GoString WorkloadContainer) (names : List GoString)
    (firstErr : Option GoError) (rt : StubRuntime) (n : GoString) :
    (run StubRuntime.serve (stopDropped next names firstErr) rt).2.started.lookup n =
      if n ∈ names ∧ n ∉ next then none else rt.started.lookup n := by
  induction names generalizing firstErr rt with
  | nil => simp [stopDropped]
  | cons name names ih =>
    rw [stopDropped]
    by_cases hnext : name ∈ next
    · rw [if_pos hnext, ih]
      by_cases hn : n = name
      · simp [hn, hnext]
      · simp [hn]
    · rw [if_neg hnext]
      change (run StubRuntime.serve (stopDropped next names _)
        { rt with started := rt.started.erase name }).2.started.lookup n = _
      rw [ih]
      by_cases hn : n = name
      · subst hn
        simp [hnext]
      · simp [hn, AList.lookup_erase_ne hn]

theorem run_pullAndStart (want : WorkloadContainer) (firstErr : Option GoError) (rt : StubRuntime)
    (n : GoString) :
    (run StubRuntime.serve (pullAndStart want firstErr) rt).2.started.lookup n =
      if n = want.name then some want else rt.started.lookup n := by
  change (rt.started.insert want.name want).lookup n = _
  split_ifs with hn
  · rw [hn, AList.lookup_insert]
  · rw [AList.lookup_insert_ne hn]

theorem run_settle (prev : Option WorkloadContainer) (want : WorkloadContainer)
    (firstErr : Option GoError) (rt : StubRuntime) (n : GoString) :
    (run StubRuntime.serve (settle prev want.name want firstErr) rt).2.started.lookup n =
      if n = want.name then afterApply prev (some want) (rt.started.lookup n)
      else rt.started.lookup n := by
  cases prev with
  | none => exact run_pullAndStart want firstErr rt n
  | some p =>
    rw [settle]
    split_ifs with heq hn hn
    · simp [afterApply, heq]
    · rfl
    all_goals
      change (run StubRuntime.serve (pullAndStart want _)
        { rt with started := rt.started.erase want.name }).2.started.lookup n = _
      rw [run_pullAndStart]
    · simp [hn, afterApply, heq]
    · simp [hn, AList.lookup_erase_ne hn]

theorem run_settleAll (desired next : GoMap GoString WorkloadContainer)
    (hnext : ∀ n c, next.lookup n = some c → c.name = n) {names : List GoString}
    (hnodup : names.Nodup) (hnames : ∀ n ∈ names, n ∈ next) (firstErr : Option GoError)
    (rt : StubRuntime) (n : GoString) :
    (run StubRuntime.serve (settleAll desired next names firstErr) rt).2.started.lookup n =
      if n ∈ names then afterApply (desired.lookup n) (next.lookup n) (rt.started.lookup n)
      else rt.started.lookup n := by
  induction names generalizing firstErr rt with
  | nil => simp [settleAll]
  | cons name names ih =>
    obtain ⟨hname, hrest⟩ := List.nodup_cons.mp hnodup
    obtain ⟨want, hwant⟩ := GoMap.mem_iff_lookup.mp (hnames name List.mem_cons_self)
    obtain rfl := hnext name want hwant
    simp only [settleAll, hwant]
    rw [run_bind, ih hrest fun x hx => hnames x (List.mem_cons_of_mem _ hx), run_settle]
    -- each name is settled once, and the other rounds leave its container alone
    by_cases hn : n = want.name
    · rw [hn, if_neg hname, if_pos rfl, if_pos List.mem_cons_self, hwant]
    · simp [hn]

/-- The runtime after an apply of a valid set, name by name. -/
theorem run_apply {s : ContainerSet} (hv : s.validate = none) (order : RangeOrder GoString)
    (r : Reconciler) (rt : StubRuntime) (n : GoString) :
    (run StubRuntime.serve (r.apply order s) rt).2.started.lookup n =
      afterApply (r.desired.lookup n) ((nextMap s).lookup n) (rt.started.lookup n) := by
  have hnext : ∀ n c, (nextMap s).lookup n = some c → c.name = n := fun n c h =>
    ((lookup_nextMap hv).mp h).2
  have hsorted := (nextMap s).keys.perm_insertionSort (· ≤ ·)
  simp only [Reconciler.apply, hv]
  rw [run_bind, run_bind]
  change (run StubRuntime.serve (settleAll _ _ _ _) _).2.started.lookup n = _
  rw [run_settleAll _ _ hnext (hsorted.nodup_iff.mpr (nextMap s).keys_nodup)
    (fun x hx => hsorted.mem_iff.mp hx), run_stopDropped]
  simp only [hsorted.mem_iff, (order.perm _).mem_iff, ← AList.mem_keys]
  by_cases hn : n ∈ nextMap s
  · simp [hn]
  · rw [if_neg hn, AList.lookup_eq_none.mpr hn]
    by_cases hd : n ∈ r.desired
    · obtain ⟨p, hp⟩ := GoMap.mem_iff_lookup.mp hd
      simp [hd, hn, hp, afterApply]
    · simp [hd, AList.lookup_eq_none.mpr hd, afterApply]

theorem apply_of_invalid {s : ContainerSet} {e : GoError} (hv : s.validate = some e)
    (order : RangeOrder GoString) (r : Reconciler) :
    r.apply order s = .ret (some (.wrap "containers: invalid set: %w" [] e), r) := by
  simp only [Reconciler.apply, hv]
  rfl

/-- The calls of an apply of a valid set are those of its two loops. -/
theorem log_apply_loops {S : Type} (h : Handler runtimeSig S) {s : ContainerSet}
    (hv : s.validate = none) (order : RangeOrder GoString) (r : Reconciler) (st : S) :
    let stopped := run h (stopDropped (nextMap s) (order.visit r.desired.keys) none) st
    log h (r.apply order s) st =
      log h (stopDropped (nextMap s) (order.visit r.desired.keys) none) st ++
        log h (settleAll r.desired (nextMap s) ((nextMap s).keys.insertionSort (· ≤ ·)) stopped.1)
          stopped.2 := by
  intro stopped
  simp only [Reconciler.apply, hv]
  rw [log_bind, log_bind]
  simp [log, stopped]

/-- The set is recorded, whatever the calls answer. -/
theorem run_apply_desired {S : Type} (h : Handler runtimeSig S) {s : ContainerSet}
    (hv : s.validate = none) (order : RangeOrder GoString) (r : Reconciler) (st : S) :
    (run h (r.apply order s) st).1.2 = ⟨nextMap s⟩ := by
  simp only [Reconciler.apply, hv]
  rw [run_bind, run_bind]
  rfl

end WeftAgent.Containers
