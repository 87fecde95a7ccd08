import WeftAgent.Containers.Proofs.ReconcilerProofs
import WeftAgent.Containers.Runs

/-!
# The order of the runtime calls

In every run of applies, with any failures: containers are started only right after their image was
pulled, never twice without a stop in between, and stopped only if they were in the set that was
accepted last.
-/

namespace WeftAgent.Containers

open WeftAgent.Go WeftAgent.Effect WeftAgent.Pod

/-! ## Orderly calls -/

/-- Calls that start a container only right after a successful pull of its image, and only if it has
not been started since its last stop. The names started and not stopped since are `R` before the
calls and `R'` after them. -/
inductive Orderly : Set GoString → List Call → Set GoString → Prop where
  | nil {R : Set GoString} : Orderly R [] R
  | stop {R R' : Set GoString} {n : GoString} {err : Option GoError} {l : List Call}
      (hl : Orderly (R \ {n}) l R') : Orderly R (⟨.stop n, err⟩ :: l) R'
  | pullFails {R R' : Set GoString} {image : GoString} {e : GoError} {l : List Call}
      (hl : Orderly R l R') : Orderly R (⟨.pull image, some e⟩ :: l) R'
  | start {R R' : Set GoString} {c : WorkloadContainer} {err : Option GoError} {l : List Call}
      (hc : c.name ∉ R) (hl : Orderly (insert c.name R) l R') :
      Orderly R (⟨.pull c.image, none⟩ :: ⟨.start c, err⟩ :: l) R'

/-- Where a start can stand in calls that begin with another call. -/
theorem split_of_ne_start {x : Call} {l pre post : List Call} {c : WorkloadContainer}
    {err : Option GoError} (hx : x.1 ≠ .start c)
    (hsplit : x :: l = pre ++ ⟨.start c, err⟩ :: post) :
    ∃ pre', pre = x :: pre' ∧ l = pre' ++ ⟨.start c, err⟩ :: post := by
  cases pre with
  | nil =>
    rw [List.nil_append, List.cons.injEq] at hsplit
    exact absurd (congrArg Sigma.fst hsplit.1) hx
  | cons first pre =>
    rw [List.cons_append, List.cons.injEq] at hsplit
    exact ⟨pre, by rw [hsplit.1], hsplit.2⟩

/-- Where a start can stand in calls that begin with a pull and a start. -/
theorem split_of_start {image : GoString} {c' c : WorkloadContainer} {err' err : Option GoError}
    {l pre post : List Call}
    (hsplit : ⟨.pull image, none⟩ :: ⟨.start c', err'⟩ :: l = pre ++ ⟨.start c, err⟩ :: post) :
    (pre = [⟨.pull image, none⟩] ∧ c' = c ∧ l = post) ∨
      ∃ pre', pre = ⟨.pull image, none⟩ :: ⟨.start c', err'⟩ :: pre' ∧
        l = pre' ++ ⟨.start c, err⟩ :: post := by
  obtain ⟨pre₁, rfl, hrest⟩ := split_of_ne_start (by simp) hsplit
  cases pre₁ with
  | nil =>
    rw [List.nil_append, List.cons.injEq, Sigma.mk.injEq, RuntimeOp.start.injEq] at hrest
    exact .inl ⟨rfl, hrest.1.1, hrest.2⟩
  | cons second pre₂ =>
    rw [List.cons_append, List.cons.injEq] at hrest
    exact .inr ⟨pre₂, by rw [hrest.1], hrest.2⟩

namespace Orderly

variable {R R' R'' : Set GoString} {l l' pre post : List Call} {c : WorkloadContainer}
  {err : Option GoError} {n : GoString}

theorem append (h : Orderly R l R') (h' : Orderly R' l' R'') : Orderly R (l ++ l') R'' := by
  induction h with
  | nil => exact h'
  | stop hl ih => exact .stop (ih h')
  | pullFails hl ih => exact .pullFails (ih h')
  | start hc hl ih => exact .start hc (ih h')

/-- The call before a start. -/
theorem pull_before_start (h : Orderly R l R') (hsplit : l = pre ++ ⟨.start c, err⟩ :: post) :
    ∃ pre', pre = pre' ++ [⟨.pull c.image, none⟩] := by
  induction h generalizing pre with
  | nil => simp at hsplit
  | stop hl ih | pullFails hl ih =>
    obtain ⟨pre₁, rfl, hrest⟩ := split_of_ne_start (by simp) hsplit
    obtain ⟨pre', rfl⟩ := ih hrest
    exact ⟨_ :: pre', rfl⟩
  | start hc hl ih =>
    rcases split_of_start hsplit with ⟨rfl, rfl, -⟩ | ⟨pre₁, rfl, hrest⟩
    · exact ⟨[], rfl⟩
    · obtain ⟨pre', rfl⟩ := ih hrest
      exact ⟨_ :: _ :: pre', rfl⟩

/-- After a start, the name counts as started. -/
theorem after_start (h : Orderly R l R') (hsplit : l = pre ++ ⟨.start c, err⟩ :: post) :
    ∃ R₁, c.name ∈ R₁ ∧ Orderly R₁ post R' := by
  induction h generalizing pre with
  | nil => simp at hsplit
  | stop hl ih | pullFails hl ih =>
    obtain ⟨pre₁, -, hrest⟩ := split_of_ne_start (by simp) hsplit
    exact ih hrest
  | start hc hl ih =>
    rcases split_of_start hsplit with ⟨-, rfl, rfl⟩ | ⟨pre₁, -, hrest⟩
    · exact ⟨_, Set.mem_insert _ _, hl⟩
    · exact ih hrest

/-- A name that counts as started is stopped before it is started again. -/
theorem stop_before_start (h : Orderly R l R') (hn : n ∈ R)
    (hsplit : l = pre ++ ⟨.start c, err⟩ :: post) (hc : c.name = n) :
    ∃ err', ⟨.stop n, err'⟩ ∈ pre := by
  induction h generalizing pre with
  | nil => simp at hsplit
  | @stop R R' m err' l hl ih =>
    obtain ⟨pre₁, rfl, hrest⟩ := split_of_ne_start (by simp) hsplit
    by_cases hm : n = m
    · rw [hm]
      exact ⟨err', List.mem_cons_self⟩
    · obtain ⟨err'', hmem⟩ := ih ⟨hn, hm⟩ hrest
      exact ⟨err'', List.mem_cons_of_mem _ hmem⟩
  | pullFails hl ih =>
    obtain ⟨pre₁, rfl, hrest⟩ := split_of_ne_start (by simp) hsplit
    obtain ⟨err', hmem⟩ := ih hn hrest
    exact ⟨err', List.mem_cons_of_mem _ hmem⟩
  | start hnew hl ih =>
    rcases split_of_start hsplit with ⟨-, rfl, -⟩ | ⟨pre₁, rfl, hrest⟩
    · exact absurd (hc ▸ hn) hnew
    · obtain ⟨err', hmem⟩ := ih (Set.mem_insert_of_mem _ hn) hrest
      exact ⟨err', List.mem_cons_of_mem _ (List.mem_cons_of_mem _ hmem)⟩

end Orderly

/-! ## The calls of an apply are orderly -/

variable {S : Type} {h : Handler runtimeSig S}

theorem orderly_stopDropped (next : GoMap GoString WorkloadContainer) (names : List GoString)
    (firstErr : Option GoError) (st : S) (R : Set GoString) :
    ∃ R', Orderly R (log h (stopDropped next names firstErr) st) R' ∧ R' ⊆ R ∧
      ∀ n ∈ names, n ∉ next → n ∉ R' := by
  induction names generalizing firstErr st R with
  | nil => exact ⟨R, .nil, subset_rfl, by simp⟩
  | cons name names ih =>
    rw [stopDropped]
    split_ifs with hname
    · obtain ⟨R', hlog, hsub, hdropped⟩ := ih firstErr st R
      refine ⟨R', hlog, hsub, fun n hn hnext => ?_⟩
      rcases List.mem_cons.mp hn with rfl | hn
      · exact absurd hname hnext
      · exact hdropped n hn hnext
    · obtain ⟨R', hlog, hsub, hdropped⟩ :=
        ih (record firstErr (h (.stop name) st).1) (h (.stop name) st).2 (R \ {name})
      refine ⟨R', .stop hlog, hsub.trans Set.sdiff_subset, fun n hn hnext => ?_⟩
      rcases List.mem_cons.mp hn with rfl | hn
      · exact fun hmem => (hsub hmem).2 rfl
      · exact hdropped n hn hnext

theorem orderly_pullAndStart {want : WorkloadContainer} (firstErr : Option GoError) (st : S)
    {R : Set GoString} (hnew : want.name ∉ R) :
    ∃ R', Orderly R (log h (pullAndStart want firstErr) st) R' ∧ R' ⊆ insert want.name R := by
  cases herr : (h (.pull want.image) st).1 with
  | some e =>
    refine ⟨R, ?_, Set.subset_insert _ _⟩
    simp only [pullAndStart, pull, call_bind, ret_bind, log, herr]
    exact .pullFails .nil
  | none =>
    refine ⟨insert want.name R, ?_, subset_rfl⟩
    simp only [pullAndStart, pull, call_bind, ret_bind, log, herr]
    exact .start hnew .nil

theorem orderly_settle {prev : Option WorkloadContainer} {want : WorkloadContainer}
    (firstErr : Option GoError) (st : S) {R : Set GoString} (hnew : prev = none → want.name ∉ R) :
    ∃ R', Orderly R (log h (settle prev want.name want firstErr) st) R' ∧
      R' ⊆ insert want.name R := by
  cases prev with
  | none => exact orderly_pullAndStart firstErr st (hnew rfl)
  | some p =>
    rw [settle]
    split_ifs
    · exact ⟨R, .nil, Set.subset_insert _ _⟩
    · -- the stop makes room for the start
      have hstopped : want.name ∉ R \ {want.name} := fun hmem => hmem.2 rfl
      obtain ⟨R', hlog, hsub⟩ := orderly_pullAndStart (h := h)
        (record firstErr (h (.stop want.name) st).1) (h (.stop want.name) st).2 hstopped
      exact ⟨R', .stop hlog, hsub.trans (Set.insert_subset_insert Set.sdiff_subset)⟩

theorem orderly_settleAll {desired next : GoMap GoString WorkloadContainer}
    (hnext : ∀ n c, next.lookup n = some c → c.name = n) {names : List GoString}
    (hnodup : names.Nodup) (firstErr : Option GoError) (st : S) {R : Set GoString}
    (hR : ∀ n ∈ R, n ∈ desired ∨ n ∉ names) :
    ∃ R', Orderly R (log h (settleAll desired next names firstErr) st) R' ∧
      ∀ n ∈ R', n ∈ R ∨ n ∈ next := by
  induction names generalizing firstErr st R with
  | nil => exact ⟨R, .nil, fun n hn => .inl hn⟩
  | cons name names ih =>
    obtain ⟨hname, hrest⟩ := List.nodup_cons.mp hnodup
    have hlater : ∀ n ∈ R, n ∈ desired ∨ n ∉ names := fun n hn =>
      (hR n hn).imp_right fun hnot hmem => hnot (List.mem_cons_of_mem _ hmem)
    cases hwant : next.lookup name with
    | none =>
      simp only [settleAll, hwant]
      exact ih hrest firstErr st hlater
    | some want =>
      obtain rfl := hnext name want hwant
      simp only [settleAll, hwant]
      have hnew : desired.lookup want.name = none → want.name ∉ R := fun hnone hmem =>
        (hR _ hmem).elim (AList.lookup_eq_none.mp hnone) fun hnot => hnot List.mem_cons_self
      obtain ⟨R₁, hlog, hsub⟩ := orderly_settle (h := h) firstErr st hnew
      have hR₁ : ∀ n ∈ R₁, n ∈ desired ∨ n ∉ names := by
        intro n hn
        rcases hsub hn with rfl | hn
        · exact .inr hname
        · exact hlater n hn
      obtain ⟨R', hlog', hsub'⟩ := ih hrest
        (run h (settle (desired.lookup want.name) want.name want firstErr) st).1
        (run h (settle (desired.lookup want.name) want.name want firstErr) st).2 hR₁
      refine ⟨R', ?_, fun n hn => ?_⟩
      · rw [log_bind]
        exact hlog.append hlog'
      · rcases hsub' n hn with hn | hn
        · rcases hsub hn with rfl | hn
          · exact .inr (GoMap.mem_iff_lookup.mpr ⟨want, hwant⟩)
          · exact .inl hn
        · exact .inr hn

theorem orderly_apply {r : Reconciler} {s : ContainerSet} (order : RangeOrder GoString) (st : S)
    {R : Set GoString} (hR : ∀ n ∈ R, n ∈ r.desired) :
    ∃ R', Orderly R (log h (r.apply order s) st) R' ∧
      ∀ n ∈ R', n ∈ (run h (r.apply order s) st).1.2.desired := by
  cases hv : s.validate with
  | some e =>
    rw [apply_of_invalid hv]
    exact ⟨R, .nil, hR⟩
  | none =>
    have hnext : ∀ n c, (nextMap s).lookup n = some c → c.name = n := fun n c hn =>
      ((lookup_nextMap hv).mp hn).2
    have hsorted := (nextMap s).keys.perm_insertionSort (· ≤ ·)
    let stopped := run h (stopDropped (nextMap s) (order.visit r.desired.keys) none) st
    obtain ⟨R₁, hlog₁, hsub₁, hdropped⟩ := orderly_stopDropped (h := h) (nextMap s)
      (order.visit r.desired.keys) none st R
    obtain ⟨R₂, hlog₂, hsub₂⟩ := orderly_settleAll (h := h) hnext
      (hsorted.nodup_iff.mpr (nextMap s).keys_nodup) stopped.1 stopped.2
      (fun n hn => Or.inl (hR n (hsub₁ hn)))
    refine ⟨R₂, ?_, fun n hn => ?_⟩
    · rw [log_apply_loops h hv]
      exact hlog₁.append hlog₂
    · rw [run_apply_desired h hv]
      rcases hsub₂ n hn with hn | hn
      · -- what is still started was recorded, and not dropped
        by_contra hnot
        have hvisit : n ∈ order.visit r.desired.keys :=
          (order.perm _).mem_iff.mpr (AList.mem_keys.mp (hR n (hsub₁ hn)))
        exact hdropped n hvisit hnot hn
      · exact hn

theorem orderly_applyAll (es : List (ContainerSet × RangeOrder GoString)) {r : Reconciler} (st : S)
    {R : Set GoString} (hR : ∀ n ∈ R, n ∈ r.desired) :
    ∃ R', Orderly R (log h (applyAll es r) st) R' := by
  induction es generalizing r st R with
  | nil => exact ⟨R, .nil⟩
  | cons e es ih =>
    obtain ⟨R₁, hlog₁, hR₁⟩ := orderly_apply (h := h) e.2 st hR
    obtain ⟨R₂, hlog₂⟩ := ih (run h (r.apply e.2 e.1) st).2 hR₁
    refine ⟨R₂, ?_⟩
    have hlog : log h (applyAll (e :: es) r) st =
        log h (r.apply e.2 e.1) st ++
          log h (applyAll es (run h (r.apply e.2 e.1) st).1.2) (run h (r.apply e.2 e.1) st).2 := by
      rw [applyAll, loop, log_bind, log_bind, run_bind]
      simp [log]
    rw [hlog]
    exact hlog₁.append hlog₂

/-! ## What is recorded -/

/-- The last valid set of a run. -/
def lastAccepted (es : List (ContainerSet × RangeOrder GoString)) : Option ContainerSet :=
  ((es.map Prod.fst).filter fun s => s.validate.isNone).getLast?

theorem validate_of_lastAccepted {es : List (ContainerSet × RangeOrder GoString)}
    {s : ContainerSet} (hs : lastAccepted es = some s) : s.validate = none := by
  have hmem := List.mem_of_getLast? hs
  simpa using (List.mem_filter.mp hmem).2

theorem run_applyAll (es : List (ContainerSet × RangeOrder GoString)) (r : Reconciler) (st : S) :
    (run h (applyAll es r) st).1 =
      match lastAccepted es with
      | none => r
      | some s => ⟨nextMap s⟩ := by
  induction es generalizing r st with
  | nil => rfl
  | cons e es ih =>
    have hstep : run h (applyAll (e :: es) r) st =
        run h (applyAll es (run h (r.apply e.2 e.1) st).1.2) (run h (r.apply e.2 e.1) st).2 := by
      rw [applyAll, loop, run_bind, run_bind]
      rfl
    rw [hstep, ih]
    cases hv : e.1.validate with
    | some err =>
      have hlast : lastAccepted (e :: es) = lastAccepted es := by simp [lastAccepted, hv]
      rw [hlast, apply_of_invalid hv]
      rfl
    | none =>
      have hlast : lastAccepted (e :: es) = (lastAccepted es).or (some e.1) := by
        simp only [lastAccepted, List.map_cons, hv, Option.isNone_none, List.filter_cons_of_pos]
        rw [List.getLast?_cons]
        cases ((es.map Prod.fst).filter fun s => s.validate.isNone).getLast? <;> rfl
      rw [hlast, run_apply_desired h hv]
      cases lastAccepted es <;> rfl

/-- An apply stops only recorded containers. -/
theorem mem_desired_of_stop {r : Reconciler} {s : ContainerSet} {order : RangeOrder GoString}
    {st : S} {n : GoString} {err : Option GoError}
    (hmem : ⟨.stop n, err⟩ ∈ log h (r.apply order s) st) : n ∈ r.desired := by
  cases hv : s.validate with
  | some e =>
    rw [apply_of_invalid hv] at hmem
    exact absurd hmem List.not_mem_nil
  | none =>
    refine (issues_apply (P := fun op => ∀ n, op = .stop n → n ∈ r.desired) hv order ?_ ?_ ?_).log _
      hmem n rfl
    · exact fun image n heq => nomatch heq
    · exact fun c _ n heq => nomatch heq
    · intro m hm n heq
      cases heq
      exact hm

/-- What is recorded after a run is the set that was accepted last. -/
theorem mem_lastAccepted {es : List (ContainerSet × RangeOrder GoString)} {st : S} {n : GoString}
    (hn : n ∈ (run h (applyAll es {}) st).1.desired) :
    ∃ s, lastAccepted es = some s ∧ ∃ c ∈ s.containers, c.name = n := by
  rw [run_applyAll] at hn
  cases hlast : lastAccepted es with
  | none =>
    rw [hlast] at hn
    exact absurd hn (AList.notMem_empty n)
  | some s =>
    rw [hlast] at hn
    exact ⟨s, rfl, (mem_nextMap (validate_of_lastAccepted hlast)).mp hn⟩

/-- Before an apply stops a dropped container it only makes stops. -/
theorem stops_before_dropped {r : Reconciler} {s : ContainerSet} {order : RangeOrder GoString}
    {st : S} {l post : List Call} {n : GoString} {err : Option GoError}
    (hsplit : log h (r.apply order s) st = l ++ ⟨.stop n, err⟩ :: post)
    (hdropped : ∀ c ∈ s.containers, c.name ≠ n) : ∀ call ∈ l, ∃ m, call.1 = .stop m := by
  cases hv : s.validate with
  | some e =>
    rw [apply_of_invalid hv] at hsplit
    simp [log] at hsplit
  | none =>
    have hn : n ∉ nextMap s := by
      rw [mem_nextMap hv]
      rintro ⟨c, hc, hname⟩
      exact hdropped c hc hname
    let stopped := run h (stopDropped (nextMap s) (order.visit r.desired.keys) none) st
    have hstops := (issues_stopDropped (P := fun op => ∃ m, op = .stop m)
      (fun m (_ : m ∈ order.visit r.desired.keys) (_ : m ∉ nextMap s) => ⟨m, rfl⟩) none).log
        (h := h) (s := st)
    have hkept := (issues_settleAll (P := fun op => ∀ m, op = .stop m → m ∈ nextMap s)
      (by simp) (by simp) (fun m (_ : m ∈ r.desired) hm _ heq => RuntimeOp.stop.inj heq ▸ hm)
      ((nextMap s).keys.insertionSort (· ≤ ·)) stopped.1).log (h := h) (s := stopped.2)
    rw [log_apply_loops h hv] at hsplit
    -- the stop is one of the first loop, and so are all calls before it
    rcases List.append_eq_append_iff.mp hsplit with ⟨mid, rfl, hrest⟩ | ⟨mid, hmid, hrest⟩
    · refine absurd (hkept ⟨.stop n, err⟩ ?_ n rfl) hn
      rw [hrest]
      exact List.mem_append_right _ List.mem_cons_self
    · exact fun call hcall => hstops call (by rw [hmid]; exact List.mem_append_left _ hcall)

/-- The trace of any run of applies from a new reconciler, over any runtime. Every start comes right
after a successful pull of its image; between two starts of a name there is a stop. An apply stops
only names of the set that was accepted last, those of dropped containers before it pulls or starts
anything; for a rejected set it makes no call and records nothing. -/
theorem trace_is_orderly (h : Handler runtimeSig S) (st : S)
    (es : List (ContainerSet × RangeOrder GoString)) :
    let trace := log h (applyAll es {}) st
    (∀ l c err r, trace = l ++ ⟨.start c, err⟩ :: r → ∃ l', l = l' ++ [⟨.pull c.image, none⟩]) ∧
    (∀ l c err m c' err' r, trace = l ++ ⟨.start c, err⟩ :: (m ++ ⟨.start c', err'⟩ :: r) →
      c'.name = c.name → ∃ err'', ⟨.stop c.name, err''⟩ ∈ m) ∧
    ∀ pre s order post, es = pre ++ (s, order) :: post →
      let before := run h (applyAll pre {}) st
      let calls := log h (before.1.apply order s) before.2
      (∀ n err, ⟨.stop n, err⟩ ∈ calls →
        ∃ s', lastAccepted pre = some s' ∧ ∃ c ∈ s'.containers, c.name = n) ∧
      (∀ l n err r, calls = l ++ ⟨.stop n, err⟩ :: r → (∀ c ∈ s.containers, c.name ≠ n) →
        ∀ call ∈ l, ∃ m, call.1 = .stop m) ∧
      (s.validate ≠ none →
        calls = [] ∧ (run h (before.1.apply order s) before.2).1.2 = before.1) := by
  intro trace
  obtain ⟨R, horderly⟩ : ∃ R, Orderly ∅ trace R := orderly_applyAll es st (by simp)
  refine ⟨fun l c err r hsplit => horderly.pull_before_start hsplit, ?_, ?_⟩
  · intro l c err m c' err' r hsplit hname
    obtain ⟨R₁, hc, hrest⟩ := horderly.after_start hsplit
    exact hrest.stop_before_start hc rfl hname
  · intro pre s order post _ before calls
    refine ⟨fun n err hmem => mem_lastAccepted (mem_desired_of_stop hmem),
      fun l n err r hsplit hdropped => stops_before_dropped hsplit hdropped, fun hinvalid => ?_⟩
    obtain ⟨e, he⟩ := Option.ne_none_iff_exists'.mp hinvalid
    simp only [calls, apply_of_invalid he]
    exact ⟨rfl, rfl⟩

end WeftAgent.Containers
