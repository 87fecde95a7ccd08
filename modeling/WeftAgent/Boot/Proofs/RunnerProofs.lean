import WeftAgent.Boot.Runner
import WeftAgent.Effect.Protocol
import WeftAgent.Fs.Proofs.CallsProofs

/-!
# One-shot provisioning

`Runner.Run` keeps to a protocol (`Rule`): the sentinel is looked up, the effects that the
configuration asks for are had one after the other, and the first failure ends the call. What a call
has done when it returns follows from the stage at which it returns (`run_outcome`), and what a
sequence of calls does from that.
-/

namespace WeftAgent.Boot

open WeftAgent.Go WeftAgent.Go.Filepath WeftAgent.Effect WeftAgent.Fs

variable {S : Type} {r : Runner} {cfg : Config}

/-- How far a call of `Run` has got. -/
inductive Stage where
  | start
  | skipped
  /-- Nothing has failed, and these effects are left. -/
  | working (todo : List Effect)
  /-- The sentinel is open for writing. -/
  | opened
  | failed
  | stamped

/-- The calls that `Run` makes at each stage, and where they lead. -/
inductive Rule (r : Runner) (cfg : Config) :
    Stage → (op : hookSig.Op) → hookSig.Ans op → Stage → Prop where
  | found (k : Kind) : Rule r cfg .start (.inl (.stat r.sentinelPath)) (.ok k) .skipped
  | absent (e : Errno) :
      Rule r cfg .start (.inl (.stat r.sentinelPath)) (.error e) (.working (r.required cfg))
  | looks (todo : List Effect) (x : Except Errno Kind) :
      Rule r cfg (.working todo) (.inl (.stat r.payloadDir)) x (.working todo)
  | makes (todo : List Effect) (path : GoString) (own : r.Own (.mkdirAll path)) :
      Rule r cfg (.working todo) (.inl (.mkdirAll path)) none (.working todo)
  | makeFails (todo : List Effect) (path : GoString) (own : r.Own (.mkdirAll path)) (e : Errno) :
      Rule r cfg (.working todo) (.inl (.mkdirAll path)) (some e) .failed
  | hooked (op : HookOp) (e : Effect) (todo : List Effect)
      (effect : r.effectOf (.inr op) = some e) :
      Rule r cfg (.working (e :: todo)) (.inr op) none (.working todo)
  | hookFails (op : HookOp) (e : Effect) (todo : List Effect)
      (effect : r.effectOf (.inr op) = some e) (err : GoError) :
      Rule r cfg (.working (e :: todo)) (.inr op) (some err) .failed
  | opens : Rule r cfg (.working [.sentinel]) (.inl (.createTrunc r.sentinelPath)) none .opened
  | openFails (e : Errno) :
      Rule r cfg (.working [.sentinel]) (.inl (.createTrunc r.sentinelPath)) (some e) .failed
  | stamps : Rule r cfg .opened (.inl (.write r.sentinelPath (lit "ok\n"))) none .stamped
  | stampFails (e : Errno) :
      Rule r cfg .opened (.inl (.write r.sentinelPath (lit "ok\n"))) (some e) .failed

/-- What `Run` returns, and at which stage. -/
inductive Returns (r : Runner) : Stage → Option GoError → Prop where
  | unnamed (e : GoError) (empty : r.sentinelPath = []) : Returns r .start (some e)
  | skipped : Returns r .skipped none
  | unsupported (kind : GoString) (todo : List Effect) (e : GoError) :
      Returns r (.working (.unsupported kind :: todo)) (some e)
  | failed (e : GoError) : Returns r .failed (some e)
  | stamped : Returns r .stamped none

/-- How a part of `Run` ends: with nothing but `todo` left, or with the error that `Run` returns. -/
def Leaves (r : Runner) (todo : List Effect) (m : Stage) : Option GoError → Prop
  | none => m = .working todo
  | some e => Returns r m (some e)

/-! ## The protocol -/

theorem touchSentinel_follows :
    Follows (Rule r cfg) (Returns r) (r.touchSentinel.left : Prog hookSig _)
      (.working [.sentinel]) := by
  rintro (_ | e)
  · refine ⟨_, .makes _ _ (.inr rfl), ?_⟩
    rintro (_ | e)
    · refine ⟨_, .opens, ?_⟩
      rintro (_ | e)
      · exact ⟨_, .stamps, .stamped⟩
      · exact ⟨_, .stampFails e, .failed _⟩
    · exact ⟨_, .openFails e, .failed _⟩
  · exact ⟨_, .makeFails _ _ (.inr rfl) e, .failed _⟩

/-- A hook that is called for its effect. -/
theorem hook_follows {op : HookOp} {e : Effect} {todo : List Effect}
    (heffect : r.effectOf (.inr op) = some e) (wrapped : GoError → GoError) :
    Follows (Rule r cfg) (Leaves r todo)
      (do match ← hook op with
        | some err => pure (some (wrapped err))
        | none => pure none) (.working (e :: todo)) := by
  rintro (_ | err)
  · exact ⟨_, .hooked op e todo heffect, rfl⟩
  · exact ⟨_, .hookFails op e todo heffect err, .failed _⟩

theorem script_follows (todo : List Effect) :
    Follows (Rule r cfg) (Leaves r todo) (r.script cfg)
      (.working (Runner.scriptEffects cfg ++ todo)) := by
  unfold Runner.script Runner.scriptEffects
  split
  · intro found
    exact ⟨_, .looks _ found, hook_follows rfl _⟩
  · exact rfl

theorem pull_follows (todo : List Effect) :
    Follows (Rule r cfg) (Leaves r todo) (r.pull cfg) (.working (r.pullEffects cfg ++ todo)) := by
  unfold Runner.pull Runner.pullEffects
  by_cases hnone : cfg.sourceKind = [] ∨ cfg.sourceKind = lit "none"
  · rw [if_pos hnone, if_pos hnone]
    exact rfl
  rw [if_neg hnone, if_neg hnone]
  by_cases hgit : cfg.sourceKind = lit "git"
  · rw [if_pos hgit]
    cases hcloner : r.cloner
    · -- no Cloner is wired
      simp only [hgit, Bool.false_eq_true, and_false, if_false]
      exact .unsupported _ _ _
    · rw [if_neg Bool.noConfusion, if_pos ⟨hgit, rfl⟩]
      exact hook_follows rfl _
  have hclone : ¬ (cfg.sourceKind = lit "git" ∧ r.cloner = true) := fun h => hgit h.1
  rw [if_neg hgit, if_neg hclone]
  by_cases hoci : cfg.sourceKind = lit "oci"
  · rw [if_pos hoci]
    cases hpuller : r.puller
    · simp only [Bool.false_eq_true, and_false, if_true, if_false]
      exact .unsupported _ _ _
    · rw [if_neg Bool.noConfusion, if_pos ⟨hoci, rfl⟩]
      exact hook_follows rfl _
  · simp only [hoci, false_and, if_false]
    exact .unsupported _ _ _

theorem provision_follows :
    Follows (Rule r cfg) (Returns r) (r.provision cfg) (.working (r.required cfg)) := by
  unfold Runner.required
  rw [List.append_assoc]
  refine (pull_follows _).bind ?_
  rintro m (_ | e) hpull
  · cases hpull
    refine (script_follows _).bind ?_
    rintro m (_ | e) hscript
    · cases hscript
      exact touchSentinel_follows
    · exact hscript
  · exact hpull

theorem required_of_isEmpty (hempty : cfg.isEmpty = true) : r.required cfg = [.sentinel] := by
  obtain ⟨hkind, hscript⟩ : cfg.sourceKind = [] ∧ trimSpace cfg.script = [] := by
    simpa [Config.isEmpty] using hempty
  simp [Runner.required, Runner.pullEffects, Runner.scriptEffects, hkind, hscript]

theorem run_follows (r : Runner) (cfg : Config) :
    Follows (Rule r cfg) (Returns r) (r.run cfg) .start := by
  unfold Runner.run
  split
  · exact .unnamed _ ‹_›
  · rintro (e | k)
    · refine ⟨_, .absent e, ?_⟩
      split
      · rw [required_of_isEmpty ‹_›]
        exact touchSentinel_follows
      · rintro (_ | e)
        · exact ⟨_, .makes _ _ (.inl rfl), provision_follows⟩
        · exact ⟨_, .makeFails _ _ (.inl rfl) e, .failed _⟩
    · exact ⟨_, .found k, .skipped⟩

/-! ## One call -/

theorem Runner.effects_concat (l : List HookCall) (c : HookCall) :
    r.effects (l ++ [c]) = r.effects l ++ (r.effectOf c.1).toList := by
  unfold Runner.effects
  rw [List.filterMap_append]
  cases hc : r.effectOf c.1 <;> simp [hc]

theorem ordered_of_dropLast {l : List HookCall} (h : ∀ c ∈ l.dropLast, succeeded c = true) :
    r.Ordered l := by
  rintro before c after rfl - c' hc'
  refine h c' ?_
  rw [List.dropLast_append_of_ne_nil (List.cons_ne_nil c after)]
  exact List.mem_append_left _ hc'

/-- What has happened since a call of `Run` began in the state `s₀`, by its stage. -/
def AtStage (r : Runner) (cfg : Config) (h : Handler hookSig S) (present : S → Prop) (s₀ : S) :
    Stage → S → List HookCall → Prop
  | .start, s, l => s = s₀ ∧ l = []
  | .skipped, s, l => present s₀ ∧ present s ∧ r.effects l = [] ∧ r.Ordered l
  | .working todo, s, l =>
    ¬ present s₀ ∧ ¬ present s ∧ r.effects l ++ todo = r.required cfg ∧
      ∀ c ∈ l, succeeded c = true
  | .opened, s, l =>
    ¬ present s₀ ∧ r.effects l = r.required cfg ∧ (∀ c ∈ l, succeeded c = true) ∧
      ∃ s', ¬ present s' ∧ h (.inl (.createTrunc r.sentinelPath)) s' = (none, s)
  | .failed, s, l =>
    ¬ present s₀ ∧ ¬ present s ∧ r.effects l <+: r.required cfg ∧
      (∀ c ∈ l.dropLast, succeeded c = true) ∧ ¬ ∀ c ∈ l, succeeded c = true
  | .stamped, s, l => ¬ present s₀ ∧ present s ∧ r.Completed cfg l

variable {h : Handler hookSig S} {present : S → Prop}

/-- A failing call ends the work where it stands. -/
theorem AtStage.fails {s₀ s s' : S} {todo : List Effect} {l : List HookCall} {c : HookCall}
    (hat : AtStage r cfg h present s₀ (.working todo) s l) (hc : succeeded c = false)
    (heffect : (r.effectOf c.1).toList <+: todo) (habsent : ¬ present s') :
    AtStage r cfg h present s₀ .failed s' (l ++ [c]) := by
  obtain ⟨habsent₀, -, hrequired, hall⟩ := hat
  refine ⟨habsent₀, habsent, ?_, by simpa using hall, fun h => ?_⟩
  · rw [Runner.effects_concat, ← hrequired]
    exact (List.prefix_append_right_inj _).mpr heffect
  · exact absurd (h c (by simp)) (by simp [hc])

/-- A call that succeeds leaves less to do. -/
theorem AtStage.proceeds {s₀ s s' : S} {todo todo' : List Effect} {l : List HookCall} {c : HookCall}
    (hat : AtStage r cfg h present s₀ (.working todo) s l) (hc : succeeded c = true)
    (heffect : todo = (r.effectOf c.1).toList ++ todo') (habsent : ¬ present s') :
    AtStage r cfg h present s₀ (.working todo') s' (l ++ [c]) := by
  obtain ⟨habsent₀, -, hrequired, hall⟩ := hat
  refine ⟨habsent₀, habsent, ?_, ?_⟩
  · rw [Runner.effects_concat, ← hrequired, heffect, List.append_assoc]
  · simpa [or_imp, forall_and, hc] using hall

theorem run_writeSentinel_of_error {s : S} {e : Errno}
    (hopen : (h (.inl (.createTrunc r.sentinelPath)) s).1 = some e) :
    run h r.writeSentinel s = (some e, (h (.inl (.createTrunc r.sentinelPath)) s).2) := by
  have hopen' : (Handler.left h (.createTrunc r.sentinelPath) s).1 = some e := hopen
  rw [Runner.writeSentinel, run_left, osWriteFile, run_call, hopen']
  rfl

theorem run_writeSentinel_of_open {s s' : S}
    (hopen : h (.inl (.createTrunc r.sentinelPath)) s = (none, s')) :
    run h r.writeSentinel s = h (.inl (.write r.sentinelPath (lit "ok\n"))) s' := by
  have hopen' : Handler.left h (.createTrunc r.sentinelPath) s = (none, s') := hopen
  rw [Runner.writeSentinel, run_left, osWriteFile, run_call, hopen']
  rfl

theorem AtStage.step (env : r.Sentinel h present) {s₀ s : S} {m m' : Stage} {op : hookSig.Op}
    {l : List HookCall} (hat : AtStage r cfg h present s₀ m s l)
    (hrule : Rule r cfg m op (h op s).1 m') :
    AtStage r cfg h present s₀ m' (h op s).2 (l ++ [⟨op, (h op s).1⟩]) := by
  generalize hx : (h op s).1 = x at hrule
  cases hrule with
  | found k =>
    obtain ⟨rfl, rfl⟩ := hat
    have hpresent := (env.stat s).mp ⟨k, hx⟩
    exact ⟨hpresent, env.stat_keeps s hpresent, rfl, ordered_of_dropLast (by simp)⟩
  | absent e =>
    obtain ⟨rfl, rfl⟩ := hat
    have habsent : ¬ present s := by
      rw [← env.stat s, hx]
      rintro ⟨k, hk⟩
      cases hk
    exact ⟨habsent, mt (env.stat_creates _ s (.inl rfl)) habsent, rfl, by simp [succeeded]⟩
  | looks todo x =>
    exact hat.proceeds rfl rfl (mt (env.stat_creates _ s (.inr rfl)) hat.2.1)
  | makes todo path own =>
    exact hat.proceeds rfl rfl (mt (env.mkdirAll_creates _ s own) hat.2.1)
  | makeFails todo path own e =>
    exact hat.fails rfl List.nil_prefix (mt (env.mkdirAll_creates _ s own) hat.2.1)
  | hooked op e todo effect =>
    exact hat.proceeds rfl (by rw [effect]; rfl) (mt (env.hook_creates op s) hat.2.1)
  | hookFails op e todo effect err =>
    refine hat.fails rfl ?_ (mt (env.hook_creates op s) hat.2.1)
    rw [effect]
    exact List.prefix_append [e] todo
  | opens =>
    have hnext : AtStage r cfg h present s₀ (.working []) s (l ++ [_]) :=
      hat.proceeds (c := ⟨.inl (.createTrunc r.sentinelPath), none⟩) rfl
        (by simp [Runner.effectOf]) hat.2.1
    obtain ⟨habsent₀, habsent, hrequired, hall⟩ := hnext
    rw [List.append_nil] at hrequired
    exact ⟨habsent₀, hrequired, hall, s, habsent, Prod.ext hx rfl⟩
  | openFails e =>
    -- `os.WriteFile` is two calls; the assumption is on both together
    refine hat.fails rfl (by simp [Runner.effectOf]) ?_
    have hwrite := env.write s hat.2.1
    rw [run_writeSentinel_of_error hx] at hwrite
    exact fun hpresent => nomatch hwrite.mp hpresent
  | stamps =>
    obtain ⟨habsent₀, hrequired, hall, s', habsent', hopen⟩ := hat
    have hwrite := env.write s' habsent'
    rw [run_writeSentinel_of_open hopen] at hwrite
    refine ⟨habsent₀, hwrite.mpr hx, ?_, ?_⟩
    · rw [Runner.effects_concat, hrequired]
      exact List.append_nil _
    · simpa [or_imp, forall_and, succeeded] using hall
  | stampFails e =>
    obtain ⟨habsent₀, hrequired, hall, s', habsent', hopen⟩ := hat
    have hwrite := env.write s' habsent'
    rw [run_writeSentinel_of_open hopen] at hwrite
    refine ⟨habsent₀, fun hpresent => ?_, ?_, by simpa using hall, fun h => ?_⟩
    · exact nomatch hx.symm.trans (hwrite.mp hpresent)
    · rw [Runner.effects_concat, hrequired]
      exact (List.append_nil _).symm ▸ List.prefix_rfl
    · have hlast := h ⟨.inl (.write r.sentinelPath (lit "ok\n")), some e⟩ (by simp)
      exact absurd hlast Bool.noConfusion

/-- What one call of `Run` does: it has the effects that the configuration asks for, in order and up
to the first failure, and the sentinel is there afterwards exactly if the call returned nil. -/
structure Runner.Outcome (r : Runner) (present : S → Prop) (c : Runner.Call S) : Prop where
  effects_prefix : r.effects c.log <+: r.required c.cfg
  ordered : r.Ordered c.log
  skips : present c.before → c.result = none ∧ r.effects c.log = []
  completes : ¬ present c.before → (c.result = none ↔ r.Completed c.cfg c.log)
  stamps : present c.after ↔ c.result = none

/-- A call that returned an error, having found no sentinel. -/
theorem outcome_of_error {s s' : S} {l : List HookCall} {e : GoError} (hbefore : ¬ present s)
    (hafter : ¬ present s') (hinitial : r.effects l <+: r.required cfg)
    (hdone : ∀ c ∈ l.dropLast, succeeded c = true) (hincomplete : ¬ r.Completed cfg l) :
    r.Outcome present ⟨cfg, s, l, some e, s'⟩ where
  effects_prefix := hinitial
  ordered := ordered_of_dropLast hdone
  skips hpresent := absurd hpresent hbefore
  completes _ := iff_of_false (Option.some_ne_none e) hincomplete
  stamps := iff_of_false hafter (Option.some_ne_none e)

theorem AtStage.outcome (env : r.Sentinel h present) {s s' : S} {m : Stage} {l : List HookCall}
    {res : Option GoError} (hat : AtStage r cfg h present s m s' l) (hreturns : Returns r m res) :
    r.Outcome present ⟨cfg, s, l, res, s'⟩ := by
  cases hreturns with
  | unnamed e empty =>
    obtain ⟨rfl, rfl⟩ := hat
    have habsent := env.named empty s'
    refine outcome_of_error habsent habsent List.nil_prefix (by simp) ?_
    intro hcompleted
    simpa [Runner.effects, Runner.required] using hcompleted.1
  | skipped =>
    obtain ⟨hbefore, hafter, heffects, hordered⟩ := hat
    exact ⟨heffects ▸ List.nil_prefix, hordered, fun _ => ⟨rfl, heffects⟩,
      fun habsent => absurd hbefore habsent, iff_of_true hafter rfl⟩
  | unsupported kind todo e =>
    obtain ⟨hbefore, hafter, heffects, hall⟩ := hat
    refine outcome_of_error hbefore hafter ⟨_, heffects⟩
      (fun c hc => hall c (List.mem_of_mem_dropLast hc)) fun hcompleted => ?_
    rw [← hcompleted.1] at heffects
    simp at heffects
  | failed e =>
    obtain ⟨hbefore, hafter, heffects, hdone, hfailed⟩ := hat
    exact outcome_of_error hbefore hafter heffects hdone fun hcompleted => hfailed hcompleted.2
  | stamped =>
    obtain ⟨hbefore, hafter, hcompleted⟩ := hat
    refine ⟨hcompleted.1 ▸ List.prefix_rfl, ?_, fun hpresent => absurd hpresent hbefore,
      fun _ => iff_of_true rfl hcompleted, iff_of_true hafter rfl⟩
    exact ordered_of_dropLast fun c hc => hcompleted.2 c (List.mem_of_mem_dropLast hc)

/-- Where a call of `Run` has got when it returns. -/
theorem run_atStage (env : r.Sentinel h present) (cfg : Config) (s : S) :
    ∃ m, Returns r m (r.callIn h cfg s).result ∧
      AtStage r cfg h present s m (r.callIn h cfg s).after (r.callIn h cfg s).log :=
  (run_follows r cfg).run (h := h) (s := s) (l := []) (I := AtStage r cfg h present s)
    (fun _ _ _ _ _ hat hrule => hat.step env hrule) ⟨rfl, rfl⟩

theorem run_outcome (env : r.Sentinel h present) (cfg : Config) (s : S) :
    r.Outcome present (r.callIn h cfg s) := by
  obtain ⟨m, hreturns, hat⟩ := run_atStage env cfg s
  exact hat.outcome env hreturns

/-- A call that is supported and in which nothing fails returns nil. -/
theorem result_of_succeeded (env : r.Sentinel h present) (hnamed : r.sentinelPath ≠ [])
    (hsupported : ∀ kind, .unsupported kind ∉ r.required cfg) {s : S}
    (hall : ∀ c ∈ (r.callIn h cfg s).log, succeeded c = true) :
    (r.callIn h cfg s).result = none := by
  obtain ⟨m, hreturns, hat⟩ := run_atStage env cfg s
  generalize (r.callIn h cfg s).result = res at hreturns
  cases hreturns with
  | unnamed e empty => exact absurd empty hnamed
  | skipped => rfl
  | unsupported kind todo e =>
    obtain ⟨-, -, hrequired, -⟩ := hat
    exact absurd (hrequired ▸ by simp) (hsupported kind)
  | failed e =>
    obtain ⟨-, -, -, -, hfailed⟩ := hat
    exact absurd hall hfailed
  | stamped => rfl

/-! ## On a tree -/

def Runner.InTree (r : Runner) (t : Tree) : Prop := t.get (resolve r.sentinelPath) ≠ none

/-- A directory that is not below the sentinel is made without making the sentinel. -/
theorem get_mkdirAll_of_not_above {t : Tree} {p q : Path} (hp : Names p) (hq : ¬ q <+: p) :
    (t.mkdirAll p hp).2.get q = t.get q := by
  rcases t.mkdirAll_cases hp with ⟨-, heq⟩ | ⟨-, heq⟩
  · rw [heq, Tree.get_mkdirs, if_neg hq]
  · rw [heq]

/-- The assumptions on the sentinel hold on a tree, if the working directory is not below the
sentinel and the hooks do not make one. -/
theorem sentinel_onTree {hooks : HookOp → Tree → Option GoError × Tree}
    (hnamed : r.sentinelPath ≠ []) (hwork : ¬ resolve r.sentinelPath <+: resolve r.workDir)
    (hparent : ¬ resolve r.sentinelPath <+: resolve (dir r.sentinelPath))
    (hhooks : ∀ op t, r.InTree (hooks op t).2 → r.InTree t) :
    r.Sentinel (Runner.onTree hooks) r.InTree where
  named hempty := absurd hempty hnamed
  stat t := by
    have hstat : (Runner.onTree hooks (.inl (.stat r.sentinelPath)) t).1 =
      t.stat (resolve r.sentinelPath) := rfl
    rw [hstat, Tree.stat, Runner.InTree]
    cases t.get (resolve r.sentinelPath) with
    | none => simp
    | some node => exact iff_of_true ⟨node.kind, rfl⟩ (Option.some_ne_none node)
  stat_keeps t ht := ht
  stat_creates path t _ ht := ht
  mkdirAll_creates path t own := by
    have hnot : ¬ resolve r.sentinelPath <+: resolve path := by
      rcases own with rfl | rfl
      · exact hwork
      · exact hparent
    unfold Runner.InTree
    exact (get_mkdirAll_of_not_above (names_resolve path) hnot).symm ▸ id
  hook_creates := hhooks
  write t ht := by
    have hleft : Handler.left (Runner.onTree hooks) = handle := rfl
    rw [Runner.writeSentinel, run_left, hleft]
    rcases run_osWriteFile_cases r.sentinelPath (lit "ok\n") t with ⟨-, hnil, hget⟩ | ⟨-, e, heq⟩
    · exact iff_of_true (by simp [Runner.InTree, hget]) hnil
    · rw [heq]
      exact iff_of_false ht (Option.some_ne_none e)

/-! ## Sequences of calls -/

theorem outcome_of_mem_calls (env : r.Sentinel h present) {s : S} {hist : List ((S → S) × Config)}
    {c : Runner.Call S} (hc : c ∈ r.calls h s hist) : r.Outcome present c := by
  induction hist generalizing s with
  | nil => exact absurd hc List.not_mem_nil
  | cons p hist ih =>
    rcases List.mem_cons.mp hc with rfl | hc
    · exact run_outcome env p.2 (p.1 s)
    · exact ih hc

/-- Once the sentinel is there, every call finds it. -/
theorem present_of_mem_calls (env : r.Sentinel h present) {s : S} {hist : List ((S → S) × Config)}
    (hkeep : ∀ p ∈ hist, ∀ s, present s → present (p.1 s)) (hs : present s) {c : Runner.Call S}
    (hc : c ∈ r.calls h s hist) : present c.before := by
  induction hist generalizing s with
  | nil => exact absurd hc List.not_mem_nil
  | cons p hist ih =>
    have hbefore : present (p.1 s) := hkeep p List.mem_cons_self s hs
    rcases List.mem_cons.mp hc with rfl | hc
    · exact hbefore
    · have hcall := run_outcome env p.2 (p.1 s)
      have hafter := hcall.stamps.mpr (hcall.skips hbefore).1
      exact ih (fun q hq => hkeep q (List.mem_cons_of_mem _ hq)) hafter hc

/-- For every sequence of calls of `Run`, with any configurations, any failures and anything that
keeps the sentinel happening in between: in each call the effects that the configuration asks for
occur in order, each only after nothing has failed; the sentinel exists after the call if and only
if it did before or the call has completed, and a call that found none returns nil exactly then; and
after a call that returned nil no later one has any effect, and all of them return nil. -/
theorem provisions_once (env : r.Sentinel h present) (s : S) (hist : List ((S → S) × Config))
    (hkeep : ∀ p ∈ hist, ∀ s, present s → present (p.1 s)) :
    (∀ c ∈ r.calls h s hist,
      r.effects c.log <+: r.required c.cfg ∧ r.Ordered c.log ∧
      (present c.after ↔ present c.before ∨ r.Completed c.cfg c.log) ∧
      (¬ present c.before → (c.result = none ↔ r.Completed c.cfg c.log))) ∧
    (r.calls h s hist).Pairwise fun c later =>
      c.result = none → r.effects later.log = [] ∧ later.result = none := by
  constructor
  · intro c hc
    have hcall := outcome_of_mem_calls env hc
    refine ⟨hcall.effects_prefix, hcall.ordered, ?_, hcall.completes⟩
    rw [hcall.stamps]
    by_cases hbefore : present c.before
    · exact iff_of_true (hcall.skips hbefore).1 (.inl hbefore)
    · rw [hcall.completes hbefore, or_iff_right hbefore]
  · induction hist generalizing s with
    | nil => exact List.Pairwise.nil
    | cons p hist ih =>
      have hkeep' : ∀ q ∈ hist, ∀ s, present s → present (q.1 s) :=
        fun q hq => hkeep q (List.mem_cons_of_mem _ hq)
      refine List.Pairwise.cons (fun later hlater hnil => ?_) (ih _ hkeep')
      have hafter := (run_outcome env p.2 (p.1 s)).stamps.mpr hnil
      have hbefore := present_of_mem_calls env hkeep' hafter hlater
      exact ((outcome_of_mem_calls env hlater).skips hbefore).symm

/-- The runner with the paths that the agent has by default. -/
def defaultRunner : Runner where
  workDir := lit "/var/lib/weft/boot"
  sentinelPath := lit "/var/lib/weft/provisioned"

/-- Hooks that succeed and leave the tree alone, except that the script `false` fails. -/
def mildHooks : HookOp → Tree → Option GoError × Tree
  | .script body _, t => (if body = lit "false" then some (.errorf "exit status 1" []) else none, t)
  | _, t => (none, t)

theorem sentinel_mildHooks :
    defaultRunner.Sentinel (Runner.onTree mildHooks) defaultRunner.InTree := by
  refine sentinel_onTree (by decide) (by decide) (by decide) fun op t ht => ?_
  cases op <;> exact ht

/-- A script that fails, a boot with a script that does not, and one more boot. -/
def retriedBoots : List ((Tree → Tree) × Config) :=
  [(id, { script := lit "false" }), (id, { script := lit "true" }),
    (id, { sourceKind := lit "git" })]

theorem provisions_once_retried :
    let calls := defaultRunner.calls (Runner.onTree mildHooks) .empty retriedBoots
    defaultRunner.Sentinel (Runner.onTree mildHooks) defaultRunner.InTree ∧
      (∀ p ∈ retriedBoots, ∀ t, defaultRunner.InTree t → defaultRunner.InTree (p.1 t)) ∧
      calls.map (fun c => c.result.isNone) = [false, true, true] ∧
      (∀ c ∈ calls, ¬ defaultRunner.InTree c.before →
        (c.result = none ↔ defaultRunner.Completed c.cfg c.log)) ∧
      calls.Pairwise fun c later =>
        c.result = none → defaultRunner.effects later.log = [] ∧ later.result = none := by
  intro calls
  have hkeep : ∀ p ∈ retriedBoots, ∀ t, defaultRunner.InTree t → defaultRunner.InTree (p.1 t) := by
    intro p hp t ht
    fin_cases hp <;> exact ht
  have honce := provisions_once sentinel_mildHooks .empty retriedBoots hkeep
  exact ⟨sentinel_mildHooks, hkeep, by decide +kernel, fun c hc => (honce.1 c hc).2.2.2, honce.2⟩

end WeftAgent.Boot
