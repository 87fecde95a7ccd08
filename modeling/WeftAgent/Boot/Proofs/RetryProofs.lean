import WeftAgent.Boot.Git
import WeftAgent.Boot.Proofs.RunnerProofs

/-!
# Retrying a failed provisioning

After failed calls of `Run` the working directory is empty or, if one of them got past its clone,
its payload directory holds a repository. In the first case a configuration that works from scratch
still works, in the second no clone succeeds any more.
-/

namespace WeftAgent.Boot

open WeftAgent.Go WeftAgent.Effect WeftAgent.Fs

variable {S : Type} {r : Runner} {cfg : Config} {g : Handler prodSig S}
  {empty repo present : S → Prop}

/-! ## Effects of a configuration -/

/-- The effects that a configuration can ask for. -/
theorem mem_required {e : Effect} (he : e ∈ r.required cfg) :
    e = .clone cfg.sourceURL cfg.sourceRef r.payloadDir ∨
      e = .pull cfg.sourceURL cfg.sourceRef r.payloadDir ∧ cfg.sourceKind = lit "oci" ∨
      e = .script cfg.script ∨ e = .sentinel ∨ e = .unsupported cfg.sourceKind := by
  simp only [Runner.required, List.mem_append, List.mem_singleton] at he
  rcases he with (hpull | hscript) | rfl
  · unfold Runner.pullEffects at hpull
    split_ifs at hpull with hnone hgit hoci
    · exact absurd hpull List.not_mem_nil
    · exact .inl (List.mem_singleton.mp hpull)
    · exact .inr (.inl ⟨List.mem_singleton.mp hpull, hoci.1⟩)
    · exact .inr (.inr (.inr (.inr (List.mem_singleton.mp hpull))))
  · unfold Runner.scriptEffects at hscript
    split_ifs at hscript
    · exact .inr (.inr (.inl (List.mem_singleton.mp hscript)))
    · exact absurd hscript List.not_mem_nil
  · exact .inr (.inr (.inr (.inl rfl)))

theorem required_of_git (hgit : cfg.sourceKind = lit "git") (hcloner : r.cloner = true) :
    r.required cfg = .clone cfg.sourceURL cfg.sourceRef r.payloadDir ::
      (Runner.scriptEffects cfg ++ [.sentinel]) := by
  have hkind : ¬ (cfg.sourceKind = [] ∨ cfg.sourceKind = lit "none") := by
    rw [hgit]
    decide
  rw [Runner.required, Runner.pullEffects, if_neg hkind, if_pos ⟨hgit, hcloner⟩]
  rfl

theorem supported_of_git (hgit : cfg.sourceKind = lit "git") (hcloner : r.cloner = true)
    (kind : GoString) : .unsupported kind ∉ r.required cfg := by
  rw [required_of_git hgit hcloner, Runner.scriptEffects]
  split <;> simp

/-! ## The clone -/

/-- The calls on a repository that has been cloned. -/
inductive OnRepository (dst : GoString) : prodSig.Op → Prop where
  | resolve (ref : GoString) : OnRepository dst (.inr (.resolveRevision dst ref))
  | worktree : OnRepository dst (.inr (.worktree dst))
  | checkout (hash : GoString) : OnRepository dst (.inr (.checkout dst hash))

theorem gitCheckout_issues (ref dst : GoString) :
    Issues (fun _ _ => True) (OnRepository dst) (fun _ => True) (gitCheckout ref dst) := by
  refine ⟨.resolve ref, ?_⟩
  rintro (e | hash) -
  · exact trivial
  refine ⟨.worktree, ?_⟩
  rintro (_ | e) -
  · refine ⟨.checkout hash, ?_⟩
    rintro (_ | e) - <;> exact trivial
  · exact trivial

theorem gitCheckout_keeps (hpayload : Payload r g empty repo) (ref : GoString) :
    Keeps repo fun s => (run g (gitCheckout ref r.payloadDir) s).2 := by
  intro s hs
  refine ((gitCheckout_issues ref r.payloadDir).run (I := repo) (fun _ _ _ _ => trivial)
    ?_ hs).1.final
  intro op s hs hop
  cases hop with
  | resolve ref => exact hpayload.resolve ref s hs
  | worktree => exact hpayload.worktree s hs
  | checkout hash => exact hpayload.checkout hash s hs

theorem run_gitClone_of_error {url ref dst : GoString} {s : S} {e : GoError}
    (hclone : (g (.inr (.plainClone url dst)) s).1 = some e) :
    run g (gitClone url ref dst) s =
      (some (.wrap "clone %s: %w" [.str url] e), (g (.inr (.plainClone url dst)) s).2) := by
  have hrun : run g (plainClone url dst) s = (some e, (g (.inr (.plainClone url dst)) s).2) :=
    Prod.ext hclone rfl
  rw [gitClone, run_bind, hrun]
  rfl

theorem run_gitClone_of_ok {url ref dst : GoString} {s : S}
    (hclone : (g (.inr (.plainClone url dst)) s).1 = none) :
    run g (gitClone url ref dst) s =
      run g (if ref = [] then pure none else gitCheckout ref dst)
        (g (.inr (.plainClone url dst)) s).2 := by
  have hrun : run g (plainClone url dst) s = (none, (g (.inr (.plainClone url dst)) s).2) :=
    Prod.ext hclone rfl
  rw [gitClone, run_bind, hrun]

theorem gitClone_of_repo (hpayload : Payload r g empty repo) (url ref : GoString) {s : S}
    (hs : repo s) :
    (run g (gitClone url ref r.payloadDir) s).1 ≠ none ∧
      repo (run g (gitClone url ref r.payloadDir) s).2 := by
  obtain ⟨hfails, hrepo⟩ := hpayload.clone_exists url s hs
  obtain ⟨e, he⟩ := Option.ne_none_iff_exists'.mp hfails
  rw [run_gitClone_of_error he]
  exact ⟨Option.some_ne_none _, hrepo⟩

theorem gitClone_of_empty (hpayload : Payload r g empty repo) (url ref : GoString) {s : S}
    (hs : empty s) :
    empty (run g (gitClone url ref r.payloadDir) s).2 ∨
      repo (run g (gitClone url ref r.payloadDir) s).2 := by
  cases hclone : (g (.inr (.plainClone url r.payloadDir)) s).1 with
  | some e =>
    rw [run_gitClone_of_error hclone]
    exact .inl (hpayload.clone_fails url s hs (hclone ▸ Option.some_ne_none e))
  | none =>
    have hrepo := hpayload.clone_ok url s hs hclone
    rw [run_gitClone_of_ok hclone]
    split
    · exact .inr hrepo
    · exact .inr (gitCheckout_keeps hpayload ref _ hrepo)

/-! ## Failed calls -/

/-- The working directory is empty, or its payload directory holds a repository. -/
def EmptyOrRepo (empty repo : S → Prop) (s : S) : Prop := empty s ∨ repo s

theorem Keeps.emptyOrRepo {step : S → S} (h : Keeps empty step ∧ Keeps repo step) :
    Keeps (EmptyOrRepo empty repo) step :=
  fun s hs => hs.imp (h.1 s) (h.2 s)

theorem hook_keeps_emptyOrRepo (hpayload : Payload r g empty repo)
    (hleaves : LeavesWorkDir r g empty repo cfg) {op : HookOp} {e : Effect}
    (heffect : r.effectOf (.inr op) = some e) (he : e ∈ r.required cfg) :
    Keeps (EmptyOrRepo empty repo) fun s => (wired g (.inr op) s).2 := by
  have hcases := mem_required he
  cases op with
  | clone url ref dst =>
    cases heffect
    obtain ⟨rfl, rfl, rfl⟩ : url = cfg.sourceURL ∧ ref = cfg.sourceRef ∧ dst = r.payloadDir := by
      simpa using hcases
    rintro s (hs | hs)
    · exact gitClone_of_empty hpayload _ _ hs
    · exact .inr (gitClone_of_repo hpayload _ _ hs).2
  | pull url ref dst =>
    cases heffect
    obtain ⟨⟨rfl, rfl, rfl⟩, hoci⟩ :
        (url = cfg.sourceURL ∧ ref = cfg.sourceRef ∧ dst = r.payloadDir) ∧
          cfg.sourceKind = lit "oci" := by
      simpa using hcases
    exact Keeps.emptyOrRepo (hleaves.pull hoci)
  | script body cwd =>
    cases heffect
    obtain rfl : body = cfg.script := by simpa using hcases
    exact Keeps.emptyOrRepo (hleaves.script cwd)

/-- A call of `Run` whose script and OCI pull change nothing leaves the working directory empty or
with a repository. -/
theorem run_keeps_emptyOrRepo (env : r.Sentinel (wired g) present)
    (hpayload : Payload r g empty repo) (hleaves : LeavesWorkDir r g empty repo cfg) :
    Keeps (EmptyOrRepo empty repo) fun s => (r.callIn (wired g) cfg s).after := by
  intro s hs
  have hrun := (run_follows r cfg).run (h := wired g) (s := s) (l := [])
    (I := fun m s' l => AtStage r cfg (wired g) present s m s' l ∧ EmptyOrRepo empty repo s')
  refine (hrun ?_ ⟨⟨rfl, rfl⟩, hs⟩).elim fun _ hend => hend.2.2
  -- the stage is kept in the invariant because it says which effects are still asked for
  rintro m op m' s' l ⟨hat, hstate⟩ hrule
  refine ⟨hat.step env hrule, ?_⟩
  have hown : ∀ op, r.Own op → EmptyOrRepo empty repo (wired g (.inl op) s').2 :=
    fun op hop => Keeps.emptyOrRepo (hpayload.own op hop) s' hstate
  generalize (wired g op s').1 = x at hrule
  cases hrule with
  | found k | absent e => exact hown _ (.inl rfl)
  | looks todo x => exact hown _ (.inr rfl)
  | makes todo path own | makeFails todo path own e => exact hown _ own
  | opens | openFails e => exact hown _ rfl
  | stamps | stampFails e => exact hown _ ⟨rfl, rfl⟩
  | hooked op e todo effect | hookFails op e todo effect err =>
    have hmem : e ∈ r.required cfg := by
      rw [← hat.2.2.1]
      simp
    exact hook_keeps_emptyOrRepo hpayload hleaves effect hmem s' hstate

/-! ## Over a repository -/

/-- The clone is still to be made, or the call has failed. -/
def Blocked (r : Runner) (cfg : Config) (m : Stage) : Prop :=
  m = .start ∨ m = .failed ∨
    ∃ todo, m = .working (.clone cfg.sourceURL cfg.sourceRef r.payloadDir :: todo)

theorem Blocked.returns {m : Stage} {res : Option GoError} (hblocked : Blocked r cfg m)
    (hreturns : Returns r m res) : res ≠ none := by
  rcases hblocked with rfl | rfl | ⟨todo, rfl⟩ <;> cases hreturns <;> exact Option.some_ne_none _

theorem eq_clone_of_effectOf {op : HookOp} {url ref dst : GoString}
    (heffect : r.effectOf (.inr op) = some (.clone url ref dst)) : op = .clone url ref dst := by
  cases op <;> cases heffect
  rfl

/-- Where a repository already is, a call of `Run` that has to clone does not get further. -/
theorem Blocked.step (hpayload : Payload r g empty repo) (hgit : cfg.sourceKind = lit "git")
    (hcloner : r.cloner = true) {m m' : Stage} {op : hookSig.Op} {s : S}
    (hblocked : Blocked r cfg m) (hs : repo s) (hrule : Rule r cfg m op (wired g op s).1 m') :
    repo (wired g op s).2 ∧ (m' = .skipped ∨ Blocked r cfg m') := by
  have hown : ∀ op, r.Own op → repo (wired g (.inl op) s).2 :=
    fun op hop => (hpayload.own op hop).2 s hs
  generalize hx : (wired g op s).1 = x at hrule
  cases hrule with
  | found k => exact ⟨hown _ (.inl rfl), .inl rfl⟩
  | absent e =>
    exact ⟨hown _ (.inl rfl), .inr (.inr (.inr ⟨_, congrArg _ (required_of_git hgit hcloner)⟩))⟩
  | looks todo x => exact ⟨hown _ (.inr rfl), .inr hblocked⟩
  | makes todo path own => exact ⟨hown _ own, .inr hblocked⟩
  | makeFails todo path own e => exact ⟨hown _ own, .inr (.inr (.inl rfl))⟩
  | hooked op e todo effect =>
    -- the first effect is the clone, and over a repository it does not succeed
    obtain h | h | ⟨todo', h⟩ := hblocked <;> cases h
    obtain rfl := eq_clone_of_effectOf effect
    exact absurd hx (gitClone_of_repo hpayload _ _ hs).1
  | hookFails op e todo effect err =>
    obtain h | h | ⟨todo', h⟩ := hblocked <;> cases h
    obtain rfl := eq_clone_of_effectOf effect
    exact ⟨(gitClone_of_repo hpayload _ _ hs).2, .inr (.inr (.inl rfl))⟩
  | opens | openFails e | stamps | stampFails e =>
    obtain h | h | ⟨todo', h⟩ := hblocked <;> cases h

/-- Over a repository, a call of `Run` that finds no sentinel and has to clone returns an error. -/
theorem result_of_repo (env : r.Sentinel (wired g) present) (hpayload : Payload r g empty repo)
    (hgit : cfg.sourceKind = lit "git") (hcloner : r.cloner = true) {s : S} (hs : repo s)
    (habsent : ¬ present s) : (r.callIn (wired g) cfg s).result ≠ none := by
  have hrun := (run_follows r cfg).run (h := wired g) (s := s) (l := [])
    (I := fun m s' l => AtStage r cfg (wired g) present s m s' l ∧ repo s' ∧ Blocked r cfg m)
  refine (hrun ?_ ⟨⟨rfl, rfl⟩, hs, .inl rfl⟩).elim fun m hend => hend.2.2.2.returns hend.1
  rintro m op m' s' l ⟨hat, hrepo, hblocked⟩ hrule
  have hat' := hat.step env hrule
  obtain ⟨hrepo', rfl | hblocked'⟩ := hblocked.step hpayload hgit hcloner hrepo hrule
  · exact absurd hat'.1 habsent
  · exact ⟨hat', hrepo', hblocked'⟩

/-! ## Retries -/

theorem absent_afterCalls {h : Handler hookSig S} (env : r.Sentinel h present) {s : S}
    (hs : ¬ present s) {hist : List ((S → S) × Config)}
    (hkeep : ∀ p ∈ hist, ∀ s, ¬ present s → ¬ present (p.1 s))
    (hfailed : ∀ c ∈ r.calls h s hist, c.result ≠ none) : ¬ present (r.afterCalls h s hist) := by
  induction hist generalizing s with
  | nil => exact hs
  | cons p hist ih =>
    have hstamps := (run_outcome env p.2 (p.1 s)).stamps
    refine ih (mt hstamps.mp (hfailed _ List.mem_cons_self)) ?_ ?_
    · exact fun q hq => hkeep q (List.mem_cons_of_mem _ hq)
    · exact fun c hc => hfailed c (List.mem_cons_of_mem _ hc)

theorem emptyOrRepo_afterCalls (env : r.Sentinel (wired g) present)
    (hpayload : Payload r g empty repo) {s : S} (hs : EmptyOrRepo empty repo s)
    {hist : List ((S → S) × Config)}
    (hkeep : ∀ p ∈ hist, Keeps empty p.1 ∧ Keeps repo p.1)
    (hleaves : ∀ p ∈ hist, LeavesWorkDir r g empty repo p.2) :
    EmptyOrRepo empty repo (r.afterCalls (wired g) s hist) := by
  refine List.foldlRecOn hist _ hs fun s hs p hp => ?_
  exact run_keeps_emptyOrRepo env hpayload (hleaves p hp) _ (Keeps.emptyOrRepo (hkeep p hp) s hs)

section Main

variable {workDir sentinelPath : GoString}

/-- After every sequence of failed calls of `Run` with the production hooks, started with an empty
working directory, and for every configuration that asks for a clone and works from scratch: if the
working directory is empty, `Run` succeeds and stamps the sentinel; if the payload directory holds a
repository, it fails; and if no script and no OCI pull of the failed calls has changed the working
directory, it succeeds if and only if the payload directory holds no repository. -/
theorem retry_iff_no_repository (hnamed : sentinelPath ≠ [])
    (env : (bootRunner workDir sentinelPath).Sentinel (wired g) present)
    (hpayload : Payload (bootRunner workDir sentinelPath) g empty repo) {s : S} (hempty : empty s)
    (habsent : ¬ present s) (hist : List ((S → S) × Config))
    (hkeep : ∀ p ∈ hist, Keeps (fun s => ¬ present s) p.1 ∧ Keeps empty p.1 ∧ Keeps repo p.1)
    (hfailed : ∀ c ∈ (bootRunner workDir sentinelPath).calls (wired g) s hist, c.result ≠ none)
    (hgood : Good (bootRunner workDir sentinelPath) g empty present cfg) :
    let left := (bootRunner workDir sentinelPath).afterCalls (wired g) s hist
    let retry := (bootRunner workDir sentinelPath).callIn (wired g) cfg left
    (empty left → retry.result = none ∧ present retry.after) ∧
      (repo left → retry.result ≠ none ∧ ¬ present retry.after) ∧
      ((∀ p ∈ hist, LeavesWorkDir (bootRunner workDir sentinelPath) g empty repo p.2) →
        (retry.result = none ∧ present retry.after ↔ ¬ repo left)) := by
  intro left retry
  have hleft : ¬ present left :=
    absent_afterCalls env habsent (fun p hp => (hkeep p hp).1) hfailed
  have hstamps : present retry.after ↔ retry.result = none := (run_outcome env cfg left).stamps
  have hok : empty left → retry.result = none := fun h =>
    result_of_succeeded env hnamed (supported_of_git hgood.1 rfl) (hgood.2 left h hleft)
  have hfails : repo left → retry.result ≠ none := fun h =>
    result_of_repo env hpayload hgood.1 rfl h hleft
  refine ⟨fun h => ⟨hok h, hstamps.mpr (hok h)⟩, fun h => ⟨hfails h, mt hstamps.mp (hfails h)⟩, ?_⟩
  intro hleaves
  have hstate : EmptyOrRepo empty repo left :=
    emptyOrRepo_afterCalls env hpayload (.inl hempty) (fun p hp => (hkeep p hp).2) hleaves
  constructor
  · exact fun h hrepo => hfails hrepo h.1
  · intro hrepo
    have hnil := hok (hstate.resolve_right hrepo)
    exact ⟨hnil, hstamps.mpr hnil⟩

end Main

/-- A host of which only the payload directory and the sentinel matter. -/
structure Disk where
  cloned : Bool := false
  stamped : Bool := false
  deriving DecidableEq, Repr

/-- Every repository has the branch `main` and nothing else, and every script succeeds. -/
def diskHost : Handler prodSig Disk
  | .inl (.stat path), d =>
    (if path = defaultRunner.sentinelPath ∧ d.stamped ∨
        path = defaultRunner.payloadDir ∧ d.cloned then .ok .dir else .error .ENOENT, d)
  | .inl (.createTrunc path), d =>
    (none, { d with stamped := d.stamped || path = defaultRunner.sentinelPath })
  | .inl (.mkdirAll _), d | .inl (.write _ _), d | .inl (.remove _), d | .inl (.removeAll _), d
  | .inl (.rename _ _), d => (none, d)
  | .inl (.readFile _), d => (.error .ENOENT, d)
  | .inl (.readDir _), d => (([], none), d)
  | .inl (.walkDir _), d => (.error .ENOENT, d)
  | .inr (.plainClone _ _), d =>
    if d.cloned then (some (.errorf "repository already exists" []), d)
    else (none, { d with cloned := true })
  | .inr (.resolveRevision _ ref), d =>
    (if ref = lit "main" then .ok (lit "c0ffee") else .error (.errorf "reference not found" []), d)
  | .inr (.worktree _), d | .inr (.checkout _ _), d | .inr (.fileNew _), d
  | .inr (.newRepository _), d | .inr (.orasCopy _ _ _), d | .inr (.runScript _ _), d => (none, d)

theorem payload_diskHost :
    Payload defaultRunner diskHost (fun d => d.cloned = false) (fun d => d.cloned = true) where
  own op hop := by
    cases op <;> first | exact hop.elim | exact ⟨fun d hd => hd, fun d hd => hd⟩
  clone_ok url d hd _ := by simp [diskHost, hd]
  clone_fails url d hd hfails := absurd (by simp [diskHost, hd]; rfl) hfails
  clone_exists url d hd := by
    have hclone : diskHost (.inr (.plainClone url defaultRunner.payloadDir)) d =
        (some (.errorf "repository already exists" []), d) := if_pos hd
    rw [hclone]
    exact ⟨Option.some_ne_none _, hd⟩
  resolve ref d hd := hd
  worktree d hd := hd
  checkout hash d hd := hd

theorem stamped_gitCheckout (ref dst : GoString) (d : Disk) :
    (run diskHost (gitCheckout ref dst) d).2.stamped = d.stamped := by
  refine ((gitCheckout_issues ref dst).run (I := fun d' : Disk => d'.stamped = d.stamped)
    (fun _ _ _ _ => trivial) ?_ rfl).1.final
  intro op d' hd' hop
  cases hop <;> exact hd'

theorem stamped_hook (op : HookOp) (d : Disk) :
    (wired diskHost (.inr op) d).2.stamped = d.stamped := by
  cases op with
  | clone url ref dst =>
    obtain ⟨_ | _, stamped⟩ := d
    · have hclone : (wired diskHost (.inr (.clone url ref dst)) ⟨false, stamped⟩) =
          run diskHost (if ref = [] then pure none else gitCheckout ref dst) ⟨true, stamped⟩ :=
        run_gitClone_of_ok rfl
      rw [hclone]
      split
      · rfl
      · exact stamped_gitCheckout ref dst ⟨true, stamped⟩
    · rfl
  | pull url ref dst => rfl
  | script body cwd => rfl

theorem sentinel_diskHost : defaultRunner.Sentinel (wired diskHost) fun d => d.stamped = true where
  named hempty := absurd hempty (by decide)
  stat d := by
    cases hd : d.stamped with
    | true => exact iff_of_true ⟨.dir, if_pos (.inl ⟨rfl, hd⟩)⟩ rfl
    | false =>
      refine iff_of_false ?_ Bool.false_ne_true
      rintro ⟨k, hk⟩
      have hstat : (wired diskHost (.inl (.stat defaultRunner.sentinelPath)) d).1 =
          .error .ENOENT := by
        refine if_neg ?_
        rintro (⟨-, h⟩ | ⟨h, -⟩)
        · exact absurd (hd.symm.trans h) Bool.false_ne_true
        · exact absurd h (by decide)
      cases hstat.symm.trans hk
  stat_keeps d hd := hd
  stat_creates path d _ hd := hd
  mkdirAll_creates path d _ hd := hd
  hook_creates op d hd := by
    rwa [stamped_hook op d] at hd
  write d _ := by
    obtain ⟨cloned, _ | _⟩ := d <;> exact iff_of_true rfl rfl

def mainBranch : Config where
  sourceKind := lit "git"
  sourceURL := lit "u"
  sourceRef := lit "main"

theorem good_mainBranch :
    Good defaultRunner diskHost (fun d => d.cloned = false) (fun d => d.stamped = true)
      mainBranch := by
  refine ⟨rfl, ?_⟩
  rintro ⟨cloned, stamped⟩ rfl hstamped
  obtain rfl : stamped = false := by simpa using hstamped
  decide

def unsupportedKind : Config := { sourceKind := lit "svn" }

theorem leavesWorkDir_unsupportedKind :
    LeavesWorkDir defaultRunner diskHost (fun d => d.cloned = false) (fun d => d.cloned = true)
      unsupportedKind where
  pull hoci := absurd hoci (by decide)
  script cwd := ⟨fun _ hd => hd, fun _ hd => hd⟩

/-- A call that fails before its clone does not stand in the way of the next one. -/
theorem retry_after_unsupportedKind :
    (defaultRunner.callIn (wired diskHost) unsupportedKind {}).result ≠ none ∧
      (defaultRunner.callIn (wired diskHost) mainBranch
        (defaultRunner.callIn (wired diskHost) unsupportedKind {}).after).result = none := by
  have hretry := retry_iff_no_repository (by decide) sentinel_diskHost payload_diskHost
    (s := {}) rfl (by decide) [(id, unsupportedKind)]
    (fun p hp => List.mem_singleton.mp hp ▸ ⟨fun _ h => h, fun _ h => h, fun _ h => h⟩)
    (by decide) good_mainBranch
  have hleaves : ∀ p ∈ [((id : Disk → Disk), unsupportedKind)],
      LeavesWorkDir defaultRunner diskHost (fun d => d.cloned = false) (fun d => d.cloned = true)
        p.2 :=
    fun p hp => List.mem_singleton.mp hp ▸ leavesWorkDir_unsupportedKind
  exact ⟨by decide, ((hretry.2.2 hleaves).mpr (by decide)).1⟩

/-- The clone succeeds and the reference cannot be resolved; from then on a reference that can be
resolved does not help, though it does with an empty working directory. -/
theorem retry_over_repository_fails :
    (defaultRunner.Sentinel (wired diskHost) fun d => d.stamped = true) ∧
      Payload defaultRunner diskHost (fun d => d.cloned = false) (fun d => d.cloned = true) ∧
      (defaultRunner.callIn (wired diskHost)
        { mainBranch with sourceRef := lit "v2" } {}).result ≠ none ∧
      Good defaultRunner diskHost (fun d => d.cloned = false) (fun d => d.stamped = true)
        mainBranch ∧
      (defaultRunner.callIn (wired diskHost) mainBranch
        (defaultRunner.callIn (wired diskHost) { mainBranch with sourceRef := lit "v2" } {}).after
          ).result ≠ none :=
  ⟨sentinel_diskHost, payload_diskHost, by decide, good_mainBranch, by decide⟩

end WeftAgent.Boot
