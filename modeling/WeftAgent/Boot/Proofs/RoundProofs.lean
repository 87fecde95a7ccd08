import WeftAgent.Boot.Proofs.BootProofs
import WeftAgent.Effect.Protocol
import WeftAgent.Trace.Along

/-!
# When the configuration that is handed over is that of one set

A round of the watcher reads four files one after the other, while the subscriber may be changing
them. What it hands over is the configuration of one published set exactly when the files, each in
the tree in which it was read, held the entries of one such set.
-/

namespace WeftAgent.Boot

open WeftAgent.Go WeftAgent.Go.Filepath WeftAgent.Effect WeftAgent.Fs WeftAgent.Properties
open WeftAgent.Trace

/-! ## The reads of a round -/

/-- A file that the watcher has read, and the tree in which it has. -/
abbrev FileRead := GoString × Tree

/-- A step of the guest, with the reads of the watcher's current round. -/
def noteRead (root : GoString) (st : Guest × List FileRead) (ev : Event) : Guest × List FileRead :=
  (step root st.1 ev,
    match ev, st.1.watcher with
    | .read _, .ret .again => []
    | .read _, .call (.inl (.readFile path)) _ => st.2 ++ [(path, st.1.tree)]
    | _, _ => st.2)

/-- The boot files held the entries of the set, up to trailing newlines, each at the time when it
was read. -/
def ReadsEntries (root : GoString) (ps : PropertySet) (reads : List FileRead) : Prop :=
  List.Forall₂ (fun key (r : FileRead) => r.1 = keyPath root key ∧
    trimNewlines ((r.2.fileAt (keyAt root key)).getD []) =
      trimNewlines ((entryOf root ps key).getD [])) bootKeys reads

/-- The configuration that the watcher's next call hands over, if it hands over one. -/
def Guest.handing (g : Guest) : Option Config :=
  match g.watcher with
  | .call (.inr (.runBoot cfg)) _ => some cfg
  | _ => none

/-- If the step hands over a configuration with something to do, the reads of the round found the
entries of one set published so far. -/
def OneSetRead (root : GoString) (st : Guest × List FileRead) : Event → Prop
  | .read _ => ∀ cfg, st.1.handing = some cfg → cfg.isEmpty = false →
      ∃ ps ∈ st.1.published, ReadsEntries root ps st.2
  | _ => True

/-- Every configuration with something to do that was handed over is that of one set published so
far. -/
def OneSetHanded (root : GoString) (g : Guest) : Prop :=
  ∀ cfg ∈ g.handed, cfg.isEmpty = false → ∃ ps ∈ g.published, cfg = configOf root ps

/-! ## The watcher keeps to its reads -/

/-- What an answer to a read counts as. -/
def content : Except Errno GoString → GoString
  | .ok c => c
  | .error _ => []

/-- The configuration is the one read, by the four reads of a round. -/
def ReadAs (root : GoString) (reads : List (GoString × Except Errno GoString)) (cfg : Config) :
    Prop :=
  ∃ a b c d, reads = [(keyPath root kindKey, a), (keyPath root urlKey, b),
      (keyPath root refKey, c), (keyPath root scriptKey, d)] ∧
    cfg = ⟨trimNewlines (content a), trimNewlines (content b), trimNewlines (content c),
      trimNewlines (content d)⟩

/-- The calls of a round, with the reads made before. -/
inductive PollRule (root : GoString) : List (GoString × Except Errno GoString) →
    (op : watchSig.Op) → watchSig.Ans op → List (GoString × Except Errno GoString) → Prop where
  | read (reads : List (GoString × Except Errno GoString)) (path : GoString)
      (ans : Except Errno GoString) :
      PollRule root reads (.inl (.readFile path)) ans (reads ++ [(path, ans)])
  | ask (reads : List (GoString × Except Errno GoString)) (op : WatchOp) (answer : Bool)
      (hop : ∀ cfg, op ≠ .runBoot cfg) : PollRule root reads (.inr op) answer reads
  | run (reads : List (GoString × Except Errno GoString)) (cfg : Config) (answer : Bool)
      (hread : cfg.isEmpty = false → ReadAs root reads cfg) :
      PollRule root reads (.inr (.runBoot cfg)) answer reads

section Poll

variable {root : GoString} {reads : List (GoString × Except Errno GoString)}

theorem follows_readKey (key : GoString) :
    Follows (fun m op x m' => PollRule root m (.inl op) x m')
      (fun m r => ∃ a, m = reads ++ [(keyPath root key, a)] ∧
        ∀ v, r = .ok v → v = trimNewlines (content a)) (readKey root key) reads := by
  intro ans
  refine ⟨_, .read reads (keyPath root key) ans, ?_⟩
  cases ans with
  | ok c => exact ⟨.ok c, rfl, fun v hv => (Except.ok.inj hv).symm⟩
  | error e =>
    change Follows _ _ ((if isNotExist e then Prog.ret (Except.ok []) else .ret (.error e)) >>= _) _
    split_ifs
    · exact ⟨.error e, rfl, fun v hv => (Except.ok.inj hv).symm⟩
    · exact ⟨.error e, rfl, fun v hv => by cases hv⟩

theorem follows_readFromPropertiesDir :
    Follows (fun m op x m' => PollRule root m (.inl op) x m')
      (fun m r => ∀ cfg, r = .ok cfg → ReadAs root m cfg) (readFromPropertiesDir root) [] := by
  refine (follows_readKey kindKey).bind fun m r hkind => ?_
  cases r with
  | error e => exact fun _ h => by cases h
  | ok kind =>
    refine (follows_readKey urlKey).bind fun m r hurl => ?_
    cases r with
    | error e => exact fun _ h => by cases h
    | ok url =>
      refine (follows_readKey refKey).bind fun m r href => ?_
      cases r with
      | error e => exact fun _ h => by cases h
      | ok ref =>
        refine (follows_readKey scriptKey).bind fun m r hscript => ?_
        cases r with
        | error e => exact fun _ h => by cases h
        | ok script =>
          obtain ⟨a, rfl, ha⟩ := hkind
          obtain ⟨b, rfl, hb⟩ := hurl
          obtain ⟨c, rfl, hc⟩ := href
          obtain ⟨d, rfl, hd⟩ := hscript
          rintro cfg hcfg
          obtain rfl := Except.ok.inj hcfg
          exact ⟨a, b, c, d, rfl, by rw [ha kind rfl, hb url rfl, hc ref rfl, hd script rfl]⟩

theorem follows_waitPoll :
    Follows (PollRule root) (fun _ _ => True)
      (do if ← watch .waitPoll then pure Next.done else pure Next.again) reads := by
  intro ended
  refine ⟨reads, .ask reads .waitPoll ended (fun _ => WatchOp.noConfusion), ?_⟩
  cases ended <;> trivial

/-- In a round that hands over a configuration with something to do, it is the one read. -/
theorem follows_poll : Follows (PollRule root) (fun _ _ => True) (poll root) [] := by
  intro down
  refine ⟨[], .ask [] .shuttingDown down (fun _ => WatchOp.noConfusion), ?_⟩
  cases down with
  | true => trivial
  | false =>
    intro present
    refine ⟨[], .ask [] .sentinelPresent present (fun _ => WatchOp.noConfusion), ?_⟩
    cases present with
    | true => trivial
    | false =>
      change Follows _ _ ((readFromPropertiesDir root).left >>= _) _
      refine Follows.bind (Follows.inl follows_readFromPropertiesDir) fun m r hr => ?_
      cases r with
      | error e => exact follows_waitPoll
      | ok cfg =>
        simp only
        split_ifs with hempty
        · exact fun ok => ⟨m, .run m cfg ok fun _ => hr cfg rfl, trivial⟩
        · intro past
          refine ⟨m, .ask m .pastDeadline past (fun _ => WatchOp.noConfusion), ?_⟩
          cases past with
          | true => exact fun ok => ⟨m, .run m {} ok (fun h => absurd h (by decide)), trivial⟩
          | false => exact follows_waitPoll

end Poll

/-! ## Runs -/

/-- The answer that the watcher got. -/
def FileRead.answer (r : FileRead) : GoString × Except Errno GoString :=
  (r.1, r.2.readFile (resolve r.1))

/-- The rest of the watcher's round goes with the reads that it has made. -/
def RoundInv (root : GoString) (st : Guest × List FileRead) : Prop :=
  Follows (PollRule root) (fun _ _ => True) st.1.watcher (st.2.map FileRead.answer)

theorem content_readFile (t : Tree) (q : Path) : content (t.readFile q) = (t.fileAt q).getD [] := by
  unfold Tree.readFile Tree.fileAt
  cases t.get q with
  | none => rfl
  | some node => cases node <;> rfl

section Runs

variable {root : GoString} {g : Guest} {reads : List FileRead}

theorem RoundInv.read (h : RoundInv root (g, reads)) (answer : Bool) :
    RoundInv root (noteRead root (g, reads) (.read answer)) := by
  unfold RoundInv at h ⊢
  simp only [noteRead, step, stepWatcher]
  cases hw : g.watcher with
  | ret next =>
    cases next with
    | again => exact follows_poll
    | done =>
      simp only [hw]
      trivial
  | call op k =>
    simp only [hw] at h
    cases op with
    | inl op =>
      obtain ⟨m', hrule, hk⟩ := h (handle op g.tree).1
      cases hrule with
      | read _ path =>
        rw [List.map_append]
        exact hk
    | inr op =>
      obtain ⟨m', hrule, hk⟩ := h answer
      cases hrule with
      | ask _ _ hop =>
        cases op with
        | runBoot cfg => exact absurd rfl (hop cfg)
        | shuttingDown | sentinelPresent | pastDeadline | waitPoll => exact hk
      | run _ cfg => exact hk

theorem RoundInv.step {st : Guest × List FileRead} (h : RoundInv root st) (ev : Event) :
    RoundInv root (noteRead root st ev) := by
  cases ev with
  | read answer => exact h.read answer
  | publish ps =>
    simp only [RoundInv, noteRead, Boot.step]
    split_ifs <;> exact h
  | beginApply fuel =>
    simp only [RoundInv, noteRead, Boot.step]
    split <;> exact h
  | write => exact h

/-- The configuration read is that of a set exactly if the reads found the entries of the set. -/
theorem eq_configOf_iff {cfg : Config} (h : ReadAs root (reads.map FileRead.answer) cfg)
    (ps : PropertySet) : cfg = configOf root ps ↔ ReadsEntries root ps reads := by
  obtain ⟨a, b, c, d, hreads, rfl⟩ := h
  obtain ⟨r₁, l₁, rfl, h₁, hl₁⟩ := List.map_eq_cons_iff.mp hreads
  obtain ⟨r₂, l₂, rfl, h₂, hl₂⟩ := List.map_eq_cons_iff.mp hl₁
  obtain ⟨r₃, l₃, rfl, h₃, hl₃⟩ := List.map_eq_cons_iff.mp hl₂
  obtain ⟨r₄, l₄, rfl, h₄, hl₄⟩ := List.map_eq_cons_iff.mp hl₃
  obtain rfl := List.map_eq_nil_iff.mp hl₄
  have hanswer : ∀ {r : FileRead} {key : GoString} {x : Except Errno GoString},
      r.answer = (keyPath root key, x) →
        r.1 = keyPath root key ∧ content x = (r.2.fileAt (keyAt root key)).getD [] := by
    intro r key x hr
    obtain ⟨hpath, rfl⟩ := Prod.mk.inj hr
    refine ⟨hpath, ?_⟩
    rw [content_readFile, hpath]
    rfl
  obtain ⟨p₁, c₁⟩ := hanswer h₁
  obtain ⟨p₂, c₂⟩ := hanswer h₂
  obtain ⟨p₃, c₃⟩ := hanswer h₃
  obtain ⟨p₄, c₄⟩ := hanswer h₄
  simp only [ReadsEntries, bootKeys, List.forall₂_cons, List.forall₂_nil_left_iff, configOf,
    Config.mk.injEq, c₁, c₂, c₃, c₄, p₁, p₂, p₃, p₄, true_and, and_true]

theorem OneSetHanded.publish (h : OneSetHanded root g) (ps : PropertySet) :
    OneSetHanded root (step root g (.publish ps)) := by
  simp only [step]
  split_ifs
  · intro cfg hcfg hne
    obtain ⟨s, hs, heq⟩ := h cfg hcfg hne
    exact ⟨s, List.mem_append_left _ hs, heq⟩
  · exact h

theorem oneSetHanded_runBoot_iff (hround : RoundInv root (g, reads)) (h : OneSetHanded root g)
    {cfg : Config} {k : Bool → Prog watchSig Next}
    (hw : g.watcher = .call (.inr (.runBoot cfg)) k) (answer : Bool) :
    OneSetHanded root { g with watcher := k answer, handed := g.handed ++ [cfg] } ↔
      OneSetRead root (g, reads) (.read answer) := by
  have hread : cfg.isEmpty = false → ReadAs root (reads.map FileRead.answer) cfg := by
    unfold RoundInv at hround
    simp only [hw] at hround
    obtain ⟨m', hrule, -⟩ := hround answer
    cases hrule with
    | ask _ _ hop => exact absurd rfl (hop cfg)
    | run _ _ hread => exact hread
  constructor
  · intro hnext cfg' hhanding hne
    obtain rfl : cfg = cfg' := by simpa [Guest.handing, hw] using hhanding
    obtain ⟨ps, hps, hcfg⟩ := hnext cfg (List.mem_append_right _ List.mem_cons_self) hne
    exact ⟨ps, hps, (eq_configOf_iff (hread hne) ps).mp hcfg⟩
  · intro hreads c hc hne
    rcases List.mem_append.mp hc with hold | hnew
    · exact h c hold hne
    · obtain rfl := List.mem_singleton.mp hnew
      obtain ⟨ps, hps, hentries⟩ := hreads c (by simp [Guest.handing, hw]) hne
      exact ⟨ps, hps, (eq_configOf_iff (hread hne) ps).mpr hentries⟩

/-- A step keeps the property exactly if it hands over nothing, or what one set asks for. -/
theorem oneSetHanded_step_iff (hround : RoundInv root (g, reads)) (h : OneSetHanded root g)
    (ev : Event) : OneSetHanded root (step root g ev) ↔ OneSetRead root (g, reads) ev := by
  cases ev with
  | publish ps => exact iff_of_true (h.publish ps) trivial
  | write => exact iff_of_true h trivial
  | beginApply fuel =>
    refine iff_of_true ?_ trivial
    simp only [step]
    split <;> exact h
  | read answer =>
    have hnothing : g.handing = none → OneSetRead root (g, reads) (.read answer) :=
      fun hnone cfg hsome => absurd (hnone.symm.trans hsome) (by simp)
    simp only [step, stepWatcher]
    cases hw : g.watcher with
    | ret next => cases next <;> exact iff_of_true h (hnothing (by simp [Guest.handing, hw]))
    | call op k =>
      cases op with
      | inl op => exact iff_of_true h (hnothing (by simp [Guest.handing, hw]))
      | inr op =>
        cases op with
        | shuttingDown | sentinelPresent | pastDeadline | waitPoll =>
          exact iff_of_true h (hnothing (by simp [Guest.handing, hw]))
        | runBoot cfg => exact oneSetHanded_runBoot_iff hround h hw answer

end Runs

end WeftAgent.Boot
