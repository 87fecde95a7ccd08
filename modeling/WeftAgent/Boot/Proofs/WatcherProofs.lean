import WeftAgent.Boot.Watcher
import WeftAgent.Boot.Proofs.RunnerProofs

/-!
# When the boot watcher returns

The watcher returns when it finds the sentinel, after its first call of `Run`, or when the agent
shuts down. In which of these ways it returned decides whether the sentinel is there.
-/

namespace WeftAgent.Boot

open WeftAgent.Go WeftAgent.Go.Filepath WeftAgent.Effect WeftAgent.Fs

variable {S : Type} {r : Runner} {h : Handler hookSig S} {present : S → Prop}
  {clock : WatchOp → S → Bool × S}

/-- What the watcher knows of its run so far. -/
inductive Watch where
  | watching
  | found
  | ran (ok : Bool)
  | shutdown
  deriving DecidableEq

/-- The stage that a call made while watching leads to. -/
def Watch.after : WatchCall → Watch
  | ⟨.inr .sentinelPresent, true⟩ => .found
  | ⟨.inr (.runBoot _), ok⟩ => .ran ok
  | ⟨.inr .shuttingDown, true⟩ => .shutdown
  | ⟨.inr .waitPoll, true⟩ => .shutdown
  | _ => .watching

/-- The watcher makes calls only while it watches. -/
def WatchRule (m : Watch) (op : watchSig.Op) (x : watchSig.Ans op) (m' : Watch) : Prop :=
  m = .watching ∧ m' = Watch.after ⟨op, x⟩

/-- The watcher goes on exactly while it watches. -/
def Watched (m : Watch) (next : Next) : Prop := m = .watching ↔ next = .again

/-! ## The protocol -/

theorem watched_done {m : Watch} (hm : m ≠ .watching) : Watched m .done :=
  iff_of_false hm (nomatch ·)

theorem watched_again : Watched .watching .again := iff_of_true rfl rfl

theorem waitPoll_follows :
    Follows WatchRule Watched (do if ← watch .waitPoll then pure .done else pure .again)
      .watching := by
  rintro (_ | _)
  · exact ⟨_, ⟨rfl, rfl⟩, watched_again⟩
  · exact ⟨_, ⟨rfl, rfl⟩, watched_done (nomatch ·)⟩

theorem runBoot_follows (cfg : Config) :
    Follows WatchRule Watched (do let _ ← watch (.runBoot cfg); pure .done) .watching := by
  intro ok
  exact ⟨_, ⟨rfl, rfl⟩, watched_done (nomatch ·)⟩

theorem poll_follows (propsDir : GoString) :
    Follows WatchRule Watched (poll propsDir) .watching := by
  rintro (_ | _)
  · refine ⟨_, ⟨rfl, rfl⟩, ?_⟩
    rintro (_ | _)
    · refine ⟨_, ⟨rfl, rfl⟩, ?_⟩
      refine (Follows.left (fun op x => ⟨rfl, rfl⟩) (issues_true _)).bind ?_
      rintro m (e | cfg) ⟨rfl, -⟩
      · exact waitPoll_follows
      · dsimp only
        split
        · exact runBoot_follows cfg
        · rintro (_ | _)
          · exact ⟨_, ⟨rfl, rfl⟩, waitPoll_follows⟩
          · exact ⟨_, ⟨rfl, rfl⟩, runBoot_follows {}⟩
    · exact ⟨_, ⟨rfl, rfl⟩, watched_done (nomatch ·)⟩
  · exact ⟨_, ⟨rfl, rfl⟩, watched_done (nomatch ·)⟩

theorem watchAndRunBoot_follows (propsDir : GoString) (rounds : Nat) :
    Follows WatchRule Watched (watchAndRunBoot propsDir rounds) .watching := by
  induction rounds with
  | zero => exact iff_of_true rfl rfl
  | succ rounds ih =>
    refine (poll_follows propsDir).bind ?_
    rintro m (_ | _) hwatched
    · rw [hwatched.mpr rfl]
      exact ih
    · exact hwatched

/-! ## Runs -/

/-- What holds at each stage of the state and of the calls so far. -/
def AtWatch (present : S → Prop) : Watch → S → List WatchCall → Prop
  | .watching, _, l => ∀ c ∈ l, reportsFailure c = false
  | .found, s, l => present s ∧ ∀ c ∈ l, reportsFailure c = false
  | .ran ok, s, l => (present s ↔ ok = true) ∧ ((∀ c ∈ l, reportsFailure c = false) ↔ ok = true)
  | .shutdown, _, l => ∃ c ∈ l, reportsShutdown c = true

theorem AtWatch.goesOn {s : S} {l : List WatchCall} {c : WatchCall}
    (hat : AtWatch present .watching s l) (hc : reportsFailure c = false) :
    ∀ c' ∈ l ++ [c], reportsFailure c' = false :=
  List.forall_mem_append.mpr ⟨hat, List.forall_mem_singleton.mpr hc⟩

theorem AtWatch.asked {s s' : S} {l : List WatchCall} {op : WatchOp}
    (hat : AtWatch present .watching s l) (hop : op = .shuttingDown ∨ op = .waitPoll)
    (down : Bool) :
    AtWatch present (Watch.after ⟨.inr op, down⟩) s' (l ++ [⟨.inr op, down⟩]) := by
  rcases hop with rfl | rfl <;> cases down
  · exact hat.goesOn rfl
  · exact ⟨_, List.mem_append_right l List.mem_cons_self, rfl⟩
  · exact hat.goesOn rfl
  · exact ⟨_, List.mem_append_right l List.mem_cons_self, rfl⟩

/-- When the watcher finds the sentinel, it is there. -/
theorem present_of_found (env : r.Sentinel h present) {s : S}
    (hfound : (r.serve h clock (.inr .sentinelPresent) s).1 = true) :
    present (r.serve h clock (.inr .sentinelPresent) s).2 := by
  have hok : Except.toBool (h (.inl (.stat r.sentinelPath)) s).1 = true := hfound
  refine env.stat_keeps s ((env.stat s).mp ?_)
  cases hstat : (h (.inl (.stat r.sentinelPath)) s).1 with
  | error e => exact absurd hok (by rw [hstat]; exact Bool.false_ne_true)
  | ok k => exact ⟨k, rfl⟩

theorem AtWatch.step (env : r.Sentinel h present) {m m' : Watch} {op : watchSig.Op} {s : S}
    {l : List WatchCall} (hat : AtWatch present m s l)
    (hrule : WatchRule m op (r.serve h clock op s).1 m') :
    AtWatch present m' (r.serve h clock op s).2 (l ++ [⟨op, (r.serve h clock op s).1⟩]) := by
  obtain ⟨rfl, rfl⟩ := hrule
  match op with
  | .inl op => exact hat.goesOn rfl
  | .inr .pastDeadline => exact hat.goesOn rfl
  | .inr .sentinelPresent =>
    have hpresent : (r.serve h clock (.inr .sentinelPresent) s).1 = true →
        present (r.serve h clock (.inr .sentinelPresent) s).2 := present_of_found env
    generalize (r.serve h clock (.inr .sentinelPresent) s).1 = found at hpresent
    obtain _ | _ := found
    · exact hat.goesOn rfl
    · exact ⟨hpresent rfl, hat.goesOn rfl⟩
  | .inr (.runBoot cfg) =>
    have hstamps := (run_outcome env cfg s).stamps
    refine ⟨hstamps.trans Option.isNone_iff_eq_none.symm, ?_⟩
    have hall : ∀ c ∈ l, reportsFailure c = false := hat
    rw [List.forall_mem_append, List.forall_mem_singleton, and_iff_right hall]
    exact Bool.not_eq_eq_eq_not
  | .inr .shuttingDown => exact hat.asked (.inl rfl) _
  | .inr .waitPoll => exact hat.asked (.inr rfl) _

/-- For every run of the watcher, whatever is published, read and answered: if it has returned and
not because of a shutdown, the sentinel exists if and only if no call of `Run` returned an error. -/
theorem provisioned_iff_no_failure (env : r.Sentinel h present) (propsDir : GoString) (rounds : Nat)
    (s : S)
    (hreturned : (run (r.serve h clock) (watchAndRunBoot propsDir rounds) s).1 = .done)
    (hshutdown : ∀ c ∈ log (r.serve h clock) (watchAndRunBoot propsDir rounds) s,
      reportsShutdown c = false) :
    present (run (r.serve h clock) (watchAndRunBoot propsDir rounds) s).2 ↔
      ∀ c ∈ log (r.serve h clock) (watchAndRunBoot propsDir rounds) s,
        reportsFailure c = false := by
  obtain ⟨m, hwatched, hat⟩ := (watchAndRunBoot_follows propsDir rounds).run
    (h := r.serve h clock) (s := s) (l := []) (I := AtWatch present)
    (fun _ _ _ _ _ hat hrule => hat.step env hrule) (List.forall_mem_nil _)
  rw [List.nil_append] at hat
  rw [hreturned] at hwatched
  cases m with
  | watching => exact absurd (hwatched.mp rfl) (nomatch ·)
  | found => exact iff_of_true hat.1 hat.2
  | ran ok => exact hat.1.trans hat.2.symm
  | shutdown =>
    obtain ⟨c, hc, hdown⟩ := hat
    exact absurd hdown (by rw [hshutdown c hc]; exact Bool.false_ne_true)

/-- A tree with a boot script among the properties. -/
def scriptTree (body : GoString) : Tree :=
  (run handle (do
    let _ ← osMkdirAll (lit "/p/weft.boot")
    osWriteFile (lit "/p/weft.boot/script") body) .empty).2

/-- Time does not pass and nobody shuts the agent down. -/
def quietClock : WatchOp → Tree → Bool × Tree := fun _ t => (false, t)

theorem provisioned_by_script :
    defaultRunner.InTree (run (defaultRunner.serve (Runner.onTree mildHooks) quietClock)
      (watchAndRunBoot (lit "/p") 1) (scriptTree (lit "true"))).2 :=
  (provisioned_iff_no_failure sentinel_mildHooks (lit "/p") 1 (scriptTree (lit "true"))
    (by decide) (by decide)).mpr (by decide)

/-- The script fails: the watcher has returned, and there is no sentinel. -/
theorem returned_unprovisioned :
    defaultRunner.Sentinel (Runner.onTree mildHooks) defaultRunner.InTree ∧
      (run (defaultRunner.serve (Runner.onTree mildHooks) quietClock)
        (watchAndRunBoot (lit "/p") 1) (scriptTree (lit "false"))).1 = .done ∧
      (∀ c ∈ log (defaultRunner.serve (Runner.onTree mildHooks) quietClock)
        (watchAndRunBoot (lit "/p") 1) (scriptTree (lit "false")), reportsShutdown c = false) ∧
      ¬ defaultRunner.InTree (run (defaultRunner.serve (Runner.onTree mildHooks) quietClock)
        (watchAndRunBoot (lit "/p") 1) (scriptTree (lit "false"))).2 :=
  ⟨sentinel_mildHooks, by decide, by decide, by unfold Runner.InTree; decide⟩

end WeftAgent.Boot
