import WeftAgent.Containers.Proofs.ReconcilerProofs
import WeftAgent.Containers.Runs

/-!
# Fault isolation in the reconciler

The calls of an apply for one name are a function of its recorded spec, its published spec and the
answer to its own pull. The returned error is that of the first call that fails.
-/

namespace WeftAgent.Containers

open WeftAgent.Go WeftAgent.Effect WeftAgent.Pod

variable {S : Type} {h : Handler runtimeSig S}

/-! ## The two loops -/

theorem stopDropped_eq_loop (next : GoMap GoString WorkloadContainer) (names : List GoString)
    (firstErr : Option GoError) :
    stopDropped next names firstErr = loop (stopRound next) names firstErr := by
  induction names generalizing firstErr with
  | nil => rfl
  | cons name names ih =>
    rw [stopDropped, loop, stopRound]
    split_ifs
    · exact ih firstErr
    · exact congrArg (Prog.call _) (funext fun err => ih (record firstErr err))

theorem settleAll_eq_loop (desired next : GoMap GoString WorkloadContainer) (names : List GoString)
    (firstErr : Option GoError) :
    settleAll desired next names firstErr = loop (settleRound desired next) names firstErr := by
  induction names generalizing firstErr with
  | nil => rfl
  | cons name names ih =>
    rw [settleAll, loop, settleRound]
    cases next.lookup name with
    | none => exact ih firstErr
    | some want =>
      exact congrArg (settle (desired.lookup name) name want firstErr >>= ·) (funext ih)

/-- The calls of an apply are those of its rounds. -/
theorem log_apply {s : ContainerSet} (hv : s.validate = none) (order : RangeOrder GoString)
    (r : Reconciler) (st : S) :
    log h (r.apply order s) st = (r.rounds h order s st).flatMap Prod.snd := by
  rw [log_apply_loops h hv, Reconciler.rounds, List.flatMap_append, stopDropped_eq_loop, log_loop,
    settleAll_eq_loop, log_loop]

/-- In a loop over different names, the calls for a name are those of its one round. -/
theorem callsFor_rounds (body : GoString → Option GoError → Prog runtimeSig (Option GoError))
    {names : List GoString} (hnodup : names.Nodup) (n : GoString) (b : Option GoError) (st : S) :
    (n ∈ names → ∃ b' st', callsFor n (rounds h body names b st) = log h (body n b') st') ∧
      (n ∉ names → callsFor n (rounds h body names b st) = []) := by
  induction names generalizing b st with
  | nil => exact ⟨fun hn => absurd hn List.not_mem_nil, fun _ => rfl⟩
  | cons name names ih =>
    obtain ⟨hname, hrest⟩ := List.nodup_cons.mp hnodup
    let first := run h (body name b) st
    obtain ⟨hin, hout⟩ := ih hrest first.1 first.2
    by_cases hn : name = n
    · subst hn
      refine ⟨fun _ => ⟨b, st, ?_⟩, fun hnot => absurd List.mem_cons_self hnot⟩
      have hcalls : callsFor name (rounds h body (name :: names) b st) =
          log h (body name b) st ++ callsFor name (rounds h body names first.1 first.2) := by
        simp [callsFor, rounds, first]
      rw [hcalls, hout hname, List.append_nil]
    · have hcalls : callsFor n (rounds h body (name :: names) b st) =
          callsFor n (rounds h body names first.1 first.2) := by
        simp [callsFor, rounds, hn, first]
      rw [hcalls]
      refine ⟨fun hmem => hin ?_, fun hnot => hout fun hmem => hnot (List.mem_cons_of_mem _ hmem)⟩
      exact (List.mem_cons.mp hmem).resolve_left (Ne.symm hn)

/-! ## The calls for one name -/

/-- The image is pulled, and the container started if that succeeds. -/
def pullThenStart (want : WorkloadContainer) (pulled : Option (Option GoError)) :
    List RuntimeOp :=
  if pulled = some none then [.pull want.image, .start want] else [.pull want.image]

/-- The calls for a name, given its recorded spec, its published spec and the answer to its pull. -/
def expectedCalls (n : GoString) (prev want : Option WorkloadContainer)
    (pulled : Option (Option GoError)) : List RuntimeOp :=
  match prev, want with
  | none, none => []
  | some _, none => [.stop n]
  | none, some c => pullThenStart c pulled
  | some p, some c => if containerEqual p c then [] else .stop n :: pullThenStart c pulled

theorem ops_pullAndStart (want : WorkloadContainer) (firstErr : Option GoError) (st : S) :
    (log h (pullAndStart want firstErr) st).map Sigma.fst =
      pullThenStart want (pullAnswer (log h (pullAndStart want firstErr) st)) := by
  cases herr : (h (.pull want.image) st).1 with
  | none =>
    have hlog : log h (pullAndStart want firstErr) st =
        [⟨.pull want.image, none⟩,
          ⟨.start want, (h (.start want) (h (.pull want.image) st).2).1⟩] := by
      simp [pullAndStart, pull, start, log, herr]
    rw [hlog]
    rfl
  | some e =>
    have hlog : log h (pullAndStart want firstErr) st = [⟨.pull want.image, some e⟩] := by
      simp [pullAndStart, pull, log, herr]
    rw [hlog]
    rfl

theorem ops_settle (prev : Option WorkloadContainer) (n : GoString) (want : WorkloadContainer)
    (firstErr : Option GoError) (st : S) :
    (log h (settle prev n want firstErr) st).map Sigma.fst =
      expectedCalls n prev (some want) (pullAnswer (log h (settle prev n want firstErr) st)) := by
  cases prev with
  | none => exact ops_pullAndStart want firstErr st
  | some p =>
    by_cases heq : containerEqual p want = true
    · have hlog : log h (settle (some p) n want firstErr) st = [] := by simp [settle, heq, log]
      simp [hlog, expectedCalls, heq]
    · have hlog : log h (settle (some p) n want firstErr) st =
          ⟨.stop n, (h (.stop n) st).1⟩ ::
            log h (pullAndStart want (record firstErr (h (.stop n) st).1)) (h (.stop n) st).2 := by
        simp [settle, heq, stop, log]
      rw [hlog, List.map_cons, ops_pullAndStart]
      simp [expectedCalls, heq, pullAnswer]

/-- The calls of an apply for a name depend on nothing but its own specs and its own pull. -/
theorem ops_callsFor {s : ContainerSet} (order : RangeOrder GoString) (r : Reconciler) (st : S)
    (n : GoString) :
    (callsFor n (r.rounds h order s st)).map Sigma.fst =
      expectedCalls n (r.desired.lookup n) ((nextMap s).lookup n)
        (pullAnswer (callsFor n (r.rounds h order s st))) := by
  have hvisit := order.perm r.desired.keys
  have hsorted := (nextMap s).keys.perm_insertionSort (· ≤ ·)
  let stopped := run h (stopDropped (nextMap s) (order.visit r.desired.keys) none) st
  obtain ⟨hstop, hkeep⟩ := callsFor_rounds (h := h) (stopRound (nextMap s))
    (hvisit.nodup_iff.mpr r.desired.keys_nodup) n none st
  obtain ⟨hsettle, hskip⟩ := callsFor_rounds (h := h) (settleRound r.desired (nextMap s))
    (hsorted.nodup_iff.mpr (nextMap s).keys_nodup) n stopped.1 stopped.2
  rw [hvisit.mem_iff, ← AList.mem_keys] at hstop hkeep
  rw [hsorted.mem_iff, ← AList.mem_keys] at hsettle hskip
  have hcalls : callsFor n (r.rounds h order s st) =
      callsFor n (rounds h (stopRound (nextMap s)) (order.visit r.desired.keys) none st) ++
        callsFor n (rounds h (settleRound r.desired (nextMap s))
          ((nextMap s).keys.insertionSort (· ≤ ·)) stopped.1 stopped.2) := by
    simp [callsFor, Reconciler.rounds, stopped]
  rw [hcalls]
  cases hwant : (nextMap s).lookup n with
  | none =>
    have hn : n ∉ nextMap s := AList.lookup_eq_none.mp hwant
    rw [hskip hn, List.append_nil]
    cases hprev : r.desired.lookup n with
    | none =>
      rw [hkeep (AList.lookup_eq_none.mp hprev)]
      rfl
    | some p =>
      obtain ⟨b, st', hlog⟩ := hstop (GoMap.mem_iff_lookup.mpr ⟨p, hprev⟩)
      rw [hlog]
      simp [hn, expectedCalls, stopRound, stop, log]
  | some want =>
    have hn : n ∈ nextMap s := GoMap.mem_iff_lookup.mpr ⟨want, hwant⟩
    obtain ⟨b, st', hlog⟩ := hsettle hn
    -- a name that is still published is passed over by the first loop
    have hnone : callsFor n
        (rounds h (stopRound (nextMap s)) (order.visit r.desired.keys) none st) = [] := by
      by_cases hd : n ∈ r.desired
      · obtain ⟨b, st', hlog⟩ := hstop hd
        simp [hlog, stopRound, hn, log]
      · exact hkeep hd
    simp only [hnone, List.nil_append, hlog, settleRound, hwant]
    exact ops_settle (r.desired.lookup n) n want b st'

/-! ## The returned error -/

/-- The error of the first call that fails, as it is reported. -/
def firstReported (calls : List Call) : Option GoError :=
  calls.findSome? fun c => c.2.map (reported c.1)

theorem record_assoc (a b c : Option GoError) : record (record a b) c = record a (record b c) := by
  cases a <;> rfl

theorem firstReported_append (a b : List Call) :
    firstReported (a ++ b) = record (firstReported a) (firstReported b) := by
  unfold firstReported
  rw [List.findSome?_append]
  cases List.findSome? (fun c => c.2.map (reported c.1)) a <;> rfl

/-- What a part of the reconciler does to the first error it was given. -/
def Reports (h : Handler runtimeSig S) (p : Option GoError → Prog runtimeSig (Option GoError)) :
    Prop :=
  ∀ firstErr st, (run h (p firstErr) st).1 = record firstErr (firstReported (log h (p firstErr) st))

theorem Reports.bind {p q : Option GoError → Prog runtimeSig (Option GoError)} (hp : Reports h p)
    (hq : Reports h q) : Reports h fun firstErr => p firstErr >>= q := by
  intro firstErr st
  rw [run_bind, log_bind, hq, hp, firstReported_append, record_assoc]

theorem reports_pure : Reports h pure := by
  intro firstErr st
  cases firstErr <;> rfl

theorem reports_stop (n : GoString) :
    Reports h fun firstErr => stop n >>= fun err => pure (record firstErr err) := by
  intro firstErr st
  cases herr : (h (.stop n) st).1 <;> simp [stop, log, firstReported, herr, reported]

theorem reports_pullAndStart (want : WorkloadContainer) : Reports h (pullAndStart want) := by
  intro firstErr st
  cases herr : (h (.pull want.image) st).1 with
  | some e => simp [pullAndStart, pull, log, firstReported, herr, reported]
  | none =>
    cases herr' : (h (.start want) (h (.pull want.image) st).2).1 <;>
      simp [pullAndStart, pull, start, log, firstReported, herr, herr', reported]

theorem reports_settle (prev : Option WorkloadContainer) (n : GoString)
    (want : WorkloadContainer) : Reports h (settle prev n want) := by
  cases prev with
  | none => exact reports_pullAndStart want
  | some p =>
    intro firstErr st
    rw [settle]
    split_ifs
    · exact reports_pure firstErr st
    · exact (reports_stop n).bind (reports_pullAndStart want) firstErr st

theorem reports_loop {body : GoString → Option GoError → Prog runtimeSig (Option GoError)}
    (hbody : ∀ n, Reports h (body n)) (names : List GoString) : Reports h (loop body names) := by
  induction names with
  | nil => exact reports_pure
  | cons name names ih => exact (hbody name).bind ih

theorem reports_stopRound (next : GoMap GoString WorkloadContainer) (n : GoString) :
    Reports h (stopRound next n) := by
  intro firstErr st
  unfold stopRound
  split_ifs
  · exact reports_pure firstErr st
  · exact reports_stop n firstErr st

theorem reports_settleRound (desired next : GoMap GoString WorkloadContainer) (n : GoString) :
    Reports h (settleRound desired next n) := by
  unfold settleRound
  cases next.lookup n with
  | none => exact reports_pure
  | some want => exact reports_settle _ n want

/-- An apply of a valid set returns the error of the first of its calls that fails. -/
theorem run_apply_error {s : ContainerSet} (hv : s.validate = none) (order : RangeOrder GoString)
    (r : Reconciler) (st : S) :
    (run h (r.apply order s) st).1.1 = firstReported (log h (r.apply order s) st) := by
  have hboth := (reports_loop (h := h) (reports_stopRound (nextMap s))
    (order.visit r.desired.keys)).bind
      (reports_loop (reports_settleRound r.desired (nextMap s))
        ((nextMap s).keys.insertionSort (· ≤ ·))) none st
  simp only [Reconciler.apply, hv]
  rw [run_bind, run_bind, log_bind, log_bind, stopDropped_eq_loop, settleAll_eq_loop]
  rw [run_bind, log_bind] at hboth
  simpa [log, record] using hboth

theorem firstReported_eq_none {calls : List Call} :
    firstReported calls = none ↔ ∀ c ∈ calls, c.2 = none := by
  simp [firstReported, List.findSome?_eq_none_iff]

theorem firstReported_of_split {pre post : List Call} {c : Call} {e : GoError}
    (hpre : ∀ c' ∈ pre, c'.2 = none) (hc : c.2 = some e) :
    firstReported (pre ++ c :: post) = some (reported c.1 e) := by
  rw [firstReported_append, firstReported_eq_none.mpr hpre]
  simp [record, firstReported, hc]

/-- An apply of a valid set over any runtime, with any failures, in any order of the recorded map.
Its calls are those made for the single names, and those for a name are given by its recorded spec,
its published spec and the answer to its pull. The set is recorded. The error is nil exactly if
every call succeeded, and otherwise that of the first call that failed. -/
theorem apply_isolates_faults (h : Handler runtimeSig S) (order : RangeOrder GoString)
    (r : Reconciler) {s : ContainerSet} (hv : s.validate = none) (st : S) :
    let calls := log h (r.apply order s) st
    let result := (run h (r.apply order s) st).1
    calls = (r.rounds h order s st).flatMap Prod.snd ∧
    (∀ n, (callsFor n (r.rounds h order s st)).map Sigma.fst =
      expectedCalls n (r.desired.lookup n) ((nextMap s).lookup n)
        (pullAnswer (callsFor n (r.rounds h order s st)))) ∧
    result.2 = ⟨nextMap s⟩ ∧
    (result.1 = none ↔ ∀ c ∈ calls, c.2 = none) ∧
    ∀ pre c post e, calls = pre ++ c :: post → (∀ c' ∈ pre, c'.2 = none) → c.2 = some e →
      result.1 = some (reported c.1 e) := by
  intro calls result
  have herror : result.1 = firstReported calls := run_apply_error hv order r st
  refine ⟨log_apply hv order r st, ops_callsFor order r st, run_apply_desired h hv order r st,
    ?_, ?_⟩
  · rw [herror, firstReported_eq_none]
  · intro pre c post e hsplit hpre hc
    rw [herror, hsplit, firstReported_of_split hpre hc]

/-- Two containers that share an image. -/
def sharedImage : ContainerSet :=
  { containers :=
      [{ name := lit "a", image := lit "img" }, { name := lit "b", image := lit "img" }] }

/-- The pull for the first container fails; that for the second one is made all the same. -/
theorem sharedImage_isolates_faults :
    let failing : StubRuntime × List Outcome := ({}, [.fail (.errorf "exit status 1" []) []])
    let calls := callsFor (lit "b") (Reconciler.rounds faulty .listed {} sharedImage failing)
    sharedImage.validate = none ∧
      calls.map Sigma.fst = expectedCalls (lit "b") none
        ((nextMap sharedImage).lookup (lit "b")) (pullAnswer calls) := by
  intro failing calls
  have hv : sharedImage.validate = none := by decide
  exact ⟨hv, (apply_isolates_faults faulty .listed {} hv failing).2.1 (lit "b")⟩

end WeftAgent.Containers
