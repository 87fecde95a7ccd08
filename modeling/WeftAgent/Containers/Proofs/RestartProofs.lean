import WeftAgent.Containers.Proofs.ConvergenceProofs
import WeftAgent.Containers.Proofs.IsolationProofs

/-!
# The first apply after a restart

A new reconciler has nothing recorded. What a previous agent left running is neither stopped nor
taken into account, so the first apply converges exactly if nothing was left running.
-/

namespace WeftAgent.Containers

open WeftAgent.Go WeftAgent.Effect WeftAgent.Pod

theorem mem_log_of_mem_callsFor {rounds : List (GoString × List Call)} {n : GoString} {c : Call}
    (h : c ∈ callsFor n rounds) : c ∈ rounds.flatMap Prod.snd := by
  obtain ⟨round, hround, hc⟩ := List.mem_flatMap.mp h
  exact List.mem_flatMap.mpr ⟨round, (List.mem_filter.mp hround).1, hc⟩

/-- No call to the stub runtime fails. -/
theorem succeeds_serve {p : Prog runtimeSig (Option GoError × Reconciler)} {rt : StubRuntime} :
    ∀ c ∈ log StubRuntime.serve p rt, c.2 = none := by
  refine log_forall (h := StubRuntime.serve) (fun _ => True) (fun c => c.2 = none)
    (fun op rt _ => ⟨?_, trivial⟩) trivial
  cases op <;> rfl

/-- A published container that is not recorded is started. -/
theorem start_mem_log {r : Reconciler} {s : ContainerSet} (hv : s.validate = none)
    (order : RangeOrder GoString) (rt : StubRuntime) {c : WorkloadContainer}
    (hc : c ∈ s.containers) (hnew : r.desired.lookup c.name = none) :
    ∃ err, ⟨.start c, err⟩ ∈ log StubRuntime.serve (r.apply order s) rt := by
  let calls := callsFor c.name (r.rounds StubRuntime.serve order s rt)
  have hlog : ∀ call ∈ calls, call ∈ log StubRuntime.serve (r.apply order s) rt := by
    intro call hcall
    rw [log_apply hv]
    exact mem_log_of_mem_callsFor hcall
  have hops : calls.map Sigma.fst = pullThenStart c (pullAnswer calls) := by
    have hwant : (nextMap s).lookup c.name = some c := (lookup_nextMap hv).mpr ⟨hc, rfl⟩
    have hcalls := ops_callsFor (h := StubRuntime.serve) (s := s) order r rt c.name
    rwa [hnew, hwant] at hcalls
  by_cases hpulled : pullAnswer calls = some none
  · rw [pullThenStart, if_pos hpulled] at hops
    have hstart : RuntimeOp.start c ∈ calls.map Sigma.fst := by simp [hops]
    obtain ⟨⟨op, err⟩, hcall, rfl⟩ := List.mem_map.mp hstart
    exact ⟨err, hlog _ hcall⟩
  · -- the only call would be a pull that failed
    rw [pullThenStart, if_neg hpulled] at hops
    obtain ⟨⟨op, err⟩, hcalls⟩ : ∃ call, calls = [call] := by
      rw [← List.length_eq_one_iff, ← List.length_map (f := Sigma.fst), hops]
      rfl
    have hop : op = .pull c.image := by simpa [hcalls] using hops
    have herr : err = none := succeeds_serve ⟨op, err⟩ (hlog _ (by simp [hcalls]))
    exact absurd (by simp [hcalls, hop, herr, pullAnswer]) hpulled

/-- After the first apply of a new reconciler, whose calls all succeed, exactly the published names
run, and none was started while it was running and not stopped, if and only if nothing was running
before. -/
theorem restart_converges_iff (rt : StubRuntime) {s : ContainerSet} (hv : s.validate = none)
    (order : RangeOrder GoString) :
    let calls := log StubRuntime.serve (Reconciler.apply order {} s) rt
    (NamesMatch (run StubRuntime.serve (Reconciler.apply order {} s) rt).2 s ∧
      ∀ l c err r, calls = l ++ ⟨.start c, err⟩ :: r → c.name ∈ rt.started →
        ∃ err', ⟨.stop c.name, err'⟩ ∈ l) ↔ ∀ n, n ∉ rt.started := by
  intro calls
  have hafter : ∀ n, (run StubRuntime.serve (Reconciler.apply order {} s) rt).2.started.lookup n =
      afterApply none ((nextMap s).lookup n) (rt.started.lookup n) := fun n =>
    run_apply hv order {} rt n
  constructor
  · rintro ⟨hmatch, hstops⟩ n hn
    obtain ⟨running, hrunning⟩ := GoMap.mem_iff_lookup.mp hn
    cases hwant : (nextMap s).lookup n with
    | none =>
      -- nothing stops it
      have hstill : n ∈ (run StubRuntime.serve (Reconciler.apply order {} s) rt).2.started := by
        rw [GoMap.mem_iff_lookup]
        exact ⟨running, by rw [hafter, hwant, hrunning]; rfl⟩
      have hnext : n ∈ nextMap s := (mem_nextMap hv).mpr ((hmatch n).mp hstill)
      exact AList.lookup_eq_none.mp hwant hnext
    | some c =>
      -- it is started again, and a new reconciler makes no stop
      obtain ⟨hc, rfl⟩ := (lookup_nextMap hv).mp hwant
      obtain ⟨err, hstart⟩ := start_mem_log (r := {}) hv order rt hc (AList.lookup_empty _)
      obtain ⟨l, r, hsplit⟩ := List.append_of_mem hstart
      obtain ⟨err', hstop⟩ := hstops l c err r hsplit hn
      have hmem : ⟨.stop c.name, err'⟩ ∈ calls := by
        simp only [calls, hsplit]
        exact List.mem_append_left _ hstop
      refine (issues_apply (P := fun op => ∀ n, op ≠ .stop n) hv order (fun _ _ => nofun)
        (fun _ _ _ => nofun) (fun m hm => ?_)).log _ hmem c.name rfl
      exact absurd hm (AList.notMem_empty m)
  · intro hnone
    refine ⟨fun n => ?_, fun l c err r _ hrunning => absurd hrunning (hnone c.name)⟩
    rw [← mem_nextMap hv, ← AList.lookup_isSome, ← AList.lookup_isSome, hafter,
      AList.lookup_eq_none.mpr (hnone n)]
    cases (nextMap s).lookup n <;> rfl

/-- A runtime in which a previous agent left two containers running. -/
def leftovers : StubRuntime :=
  { started := AList.insert (lit "old") { name := lit "old", image := lit "img" }
      (AList.singleton (lit "a") { name := lit "a", image := lit "img" }) }

theorem restart_converges_from_nothing :
    oneContainer.validate = none ∧ NamesMatch
      (run StubRuntime.serve (Reconciler.apply .listed {} oneContainer) {}).2 oneContainer := by
  have hv : oneContainer.validate = none := by decide
  exact ⟨hv, ((restart_converges_iff {} hv .listed).mpr AList.notMem_empty).1⟩

/-- The container that the replayed set does not list is still running after the apply; the one
that it lists is started again without a stop. -/
theorem leftovers_are_not_converged :
    oneContainer.validate = none ∧ lit "old" ∈ leftovers.started ∧ lit "a" ∈ leftovers.started ∧
      lit "old" ∈
        (run StubRuntime.serve (Reconciler.apply .listed {} oneContainer) leftovers).2.started ∧
      trace StubRuntime.serve (Reconciler.apply .listed {} oneContainer) leftovers =
        [.pull (lit "img"), .start { name := lit "a", image := lit "img" }] :=
  ⟨by decide, by decide, by decide, by decide, rfl⟩

end WeftAgent.Containers
