import WeftAgent.Boot.Boot
import WeftAgent.Properties.Proofs.ProvenanceProofs

/-!
# What the boot watcher hands over

Whatever the order in which the subscriber and the watcher make their calls, each field of the
configuration is empty or the whole value that some published set has for it; and a round of the
watcher into which no call of the subscriber falls yields the configuration of one set.
-/

namespace WeftAgent.Boot

open WeftAgent.Go WeftAgent.Go.Filepath WeftAgent.Effect WeftAgent.Fs WeftAgent.Properties

def bootKeys : List GoString := [kindKey, urlKey, refKey, scriptKey]

/-! ## One round of the watcher -/

section Poll

variable (root : GoString) (F : GoString → GoString → Prop)

/-- The content read for a boot key, empty if the file does not exist, satisfies `F`. -/
def ReadsOk : (op : watchSig.Op) → watchSig.Ans op → Prop
  | .inl (.readFile path), ans => ∀ key ∈ bootKeys, path = keyPath root key →
      (∀ c, ans = .ok c → F key c) ∧ ∀ e, ans = .error e → isNotExist e = true → F key []
  | _, _ => True

/-- The configuration has the trimmed contents of four files that satisfy `F`. -/
def FieldsOk (cfg : Config) : Prop :=
  ∃ kind url ref script, F kindKey kind ∧ F urlKey url ∧ F refKey ref ∧ F scriptKey script ∧
    cfg = ⟨trimNewlines kind, trimNewlines url, trimNewlines ref, trimNewlines script⟩

/-- The watcher only reads files, and a configuration that it runs and that is not empty has such
fields. -/
def HandsOk : watchSig.Op → Prop
  | .inl (.readFile _) => True
  | .inl _ => False
  | .inr (.runBoot cfg) => cfg.isEmpty = false → FieldsOk F cfg
  | .inr _ => True

variable {root F}

theorem issues_readOptionalFile {key : GoString} (hkey : key ∈ bootKeys) :
    Issues (fun op x => ReadsOk root F (.inl op) x) (fun op => HandsOk F (.inl op))
      (fun r => ∀ c, r = .ok c → F key c) (readOptionalFile (keyPath root key)) := by
  refine ⟨trivial, fun ans hans => ?_⟩
  obtain ⟨hok, herr⟩ := hans key hkey rfl
  cases ans with
  | ok c =>
    rintro v hv
    obtain rfl : c = v := by simpa using hv
    exact hok c rfl
  | error e =>
    change Issues _ _ _ (if isNotExist e then Prog.ret (Except.ok []) else .ret (.error e))
    split_ifs with he
    · rintro v hv
      obtain rfl : [] = v := by simpa using hv
      exact herr e rfl he
    · rintro v hv
      cases hv

theorem issues_readKey {key : GoString} (hkey : key ∈ bootKeys) :
    Issues (fun op x => ReadsOk root F (.inl op) x) (fun op => HandsOk F (.inl op))
      (fun r => ∀ v, r = .ok v → ∃ c, F key c ∧ v = trimNewlines c) (readKey root key) := by
  refine (issues_readOptionalFile hkey).bind fun r hr => ?_
  cases r with
  | error e => exact fun _ h => by cases h
  | ok c => exact fun v hv => ⟨c, hr c rfl, by simpa using hv.symm⟩

theorem issues_readFromPropertiesDir :
    Issues (fun op x => ReadsOk root F (.inl op) x) (fun op => HandsOk F (.inl op))
      (fun r => ∀ cfg, r = .ok cfg → FieldsOk F cfg) (readFromPropertiesDir root) := by
  refine (issues_readKey (by simp [bootKeys])).bind fun r hkind => ?_
  cases r with
  | error e => exact fun _ h => by cases h
  | ok kind =>
    refine (issues_readKey (by simp [bootKeys])).bind fun r hurl => ?_
    cases r with
    | error e => exact fun _ h => by cases h
    | ok url =>
      refine (issues_readKey (by simp [bootKeys])).bind fun r href => ?_
      cases r with
      | error e => exact fun _ h => by cases h
      | ok ref =>
        refine (issues_readKey (by simp [bootKeys])).bind fun r hscript => ?_
        cases r with
        | error e => exact fun _ h => by cases h
        | ok script =>
          obtain ⟨a, ha, rfl⟩ := hkind kind rfl
          obtain ⟨b, hb, rfl⟩ := hurl url rfl
          obtain ⟨c, hc, rfl⟩ := href ref rfl
          obtain ⟨d, hd, rfl⟩ := hscript script rfl
          rintro cfg hcfg
          exact ⟨a, b, c, d, ha, hb, hc, hd, by simpa using hcfg.symm⟩

theorem issues_poll : Issues (ReadsOk root F) (HandsOk F) (fun _ => True) (poll root) := by
  refine ⟨trivial, fun down _ => ?_⟩
  cases down with
  | true => trivial
  | false =>
    refine ⟨trivial, fun present _ => ?_⟩
    cases present with
    | true => trivial
    | false =>
      change Issues _ _ _ ((readFromPropertiesDir root).left >>= _)
      refine Issues.bind (Issues.left issues_readFromPropertiesDir) fun r hr => ?_
      cases r with
      | error e =>
        refine ⟨trivial, fun ended _ => ?_⟩
        cases ended <;> trivial
      | ok cfg =>
        simp only
        split_ifs with hempty
        · exact ⟨fun _ => hr cfg rfl, fun _ _ => trivial⟩
        · refine ⟨trivial, fun past _ => ?_⟩
          cases past with
          -- past the deadline it is the empty configuration that is run
          | true => exact ⟨fun h => absurd h (by decide), fun _ _ => trivial⟩
          | false =>
            refine ⟨trivial, fun ended _ => ?_⟩
            cases ended <;> trivial

end Poll

/-! ## The files of the boot keys -/

/-- The paths of the boot files. -/
def BootPath (root : GoString) (q : Path) : Prop := ∃ key ∈ bootKeys, q = keyAt root key

section Paths

variable {root : GoString}

/-- The boot files lie below the root and are no temporary files. -/
theorem bootPath_spec {q : Path} (h : BootPath root q) :
    resolve root <+: q ∧ q ≠ resolve root ∧ ext (absPath q) ≠ tmpSuffix := by
  have hkeys : ∀ key ∈ bootKeys, dotdot ∉ key.splitOn slash ∧ keyNames key ≠ [] ∧
      slash ∉ (keyNames key).getLastD [] ∧ ¬ lit ".tmp" <:+ (keyNames key).getLastD [] := by
    decide
  obtain ⟨key, hkey, rfl⟩ := h
  obtain ⟨hdd, hne, hslash, htmp⟩ := hkeys key hkey
  obtain ⟨d, n, hdn⟩ := (List.eq_nil_or_concat' (keyNames key)).resolve_left hne
  have hlast : (keyNames key).getLastD [] = n := by simp [hdn]
  rw [hlast] at hslash htmp
  rw [keyAt_of_no_dotdot root hdd, hdn]
  refine ⟨List.prefix_append _ _, fun heq => ?_, fun hext => htmp ?_⟩
  · simpa using congrArg List.length heq
  · rw [← List.append_assoc] at hext
    exact (ext_eq_tmp_iff hslash).mp hext

/-- After an apply that returned nil the boot files hold the entries of the set. -/
theorem fileAt_boot_of_nil (hroot : isAbs root = true) {ps : PropertySet} {t : Tree} {fuel : Nat}
    (hnil : (run handle (propertiesApplyer fuel root ps) t).1 = .returned none) {key : GoString}
    (hkey : key ∈ bootKeys) :
    (run handle (propertiesApplyer fuel root ps) t).2.fileAt (keyAt root key) =
      entryOf root ps key := by
  obtain ⟨hpre, hne, hext⟩ := bootPath_spec ⟨key, hkey, rfl⟩
  rw [fileAt_of_nil_not_tmp hroot hnil hpre hne hext, entryOf]
  simp only [keyAt_inj_iff hroot]

end Paths

/-! ## Runs of the guest -/

/-- The content is empty, or the value of a key with the file of `key` in one of the sets. -/
def Published (root : GoString) (sets : List PropertySet) (key c : GoString) : Prop :=
  c = [] ∨ ∃ s ∈ sets, ∃ k ∈ s.keys, keyPath root k = keyPath root key ∧ s.value k = c

/-- The content is the value of a key with the file `q` in one of the sets. -/
def Source (root : GoString) (sets : List PropertySet) (q : Path) (c : GoString) : Prop :=
  ∃ s ∈ sets, ∃ k ∈ s.keys, keyAt root k = q ∧ s.value k = c

theorem FieldsOk.imp {F G : GoString → GoString → Prop} (hFG : ∀ key c, F key c → G key c)
    {cfg : Config} (h : FieldsOk F cfg) : FieldsOk G cfg := by
  obtain ⟨a, b, c, d, ha, hb, hc, hd, rfl⟩ := h
  exact ⟨a, b, c, d, hFG _ _ ha, hFG _ _ hb, hFG _ _ hc, hFG _ _ hd, rfl⟩

theorem Published.mono {root key c : GoString} {sets sets' : List PropertySet}
    (hsub : sets ⊆ sets') (h : Published root sets key c) : Published root sets' key c := by
  rcases h with h | ⟨s, hs, hk⟩
  · exact .inl h
  · exact .inr ⟨s, hsub hs, hk⟩

/-- What holds in every state of the guest. -/
structure Inv (root : GoString) (g : Guest) : Prop where
  inbox : ∀ ps ∈ g.inbox, ps ∈ g.published
  current : g.current = .empty ∨ g.current ∈ g.published
  /-- At every moment until the writer is done, the boot files stem from published sets. -/
  stems : Always handle (Stems (BootPath root) (Source root g.published)) g.writer g.tree
  /-- If the writer will return nil, the boot files are then those of its set. -/
  settles : ∀ t', run handle g.writer g.tree = (.returned none, t') →
    ∀ key ∈ bootKeys, t'.fileAt (keyAt root key) = entryOf root g.current key
  /-- Whatever else is published, the watcher hands over only published contents. -/
  watcher : ∀ sets, g.published ⊆ sets →
    Issues (ReadsOk root (Published root sets)) (HandsOk (Published root sets)) (fun _ => True)
      g.watcher
  handed : ∀ cfg ∈ g.handed, cfg.isEmpty = false → FieldsOk (Published root g.published) cfg

theorem readFile_spec {root : GoString} {t : Tree} {key : GoString} :
    (∀ c, t.readFile (resolve (keyPath root key)) = .ok c →
      t.fileAt (keyAt root key) = some c) ∧
    ∀ e, t.readFile (resolve (keyPath root key)) = .error e → isNotExist e = true →
      t.fileAt (keyAt root key) = none := by
  unfold Tree.readFile Tree.fileAt keyAt
  cases t.get (resolve (keyPath root key)) with
  | none => simp
  | some node => cases node <;> simp [isNotExist]

theorem inv_init {root : GoString} {t₀ : Tree}
    (hfresh : ∀ key ∈ bootKeys, t₀.fileAt (keyAt root key) = none) : Inv root { tree := t₀ } where
  inbox := by simp
  current := .inl rfl
  stems := by
    rintro q ⟨key, hkey, rfl⟩ c hc
    rw [hfresh key hkey] at hc
    cases hc
  settles := by
    intro t' hrun key hkey
    obtain rfl : t₀ = t' := (Prod.mk.inj hrun).2
    rw [hfresh key hkey]
    rfl
  watcher := fun _ _ => trivial
  handed := by simp

theorem inv_publish {root : GoString} {g : Guest} (h : Inv root g) (ps : PropertySet) :
    Inv root (step root g (.publish ps)) := by
  simp only [step]
  split_ifs with hv
  · have hsub : g.published ⊆ g.published ++ [ps] := List.subset_append_left _ _
    refine ⟨?_, h.current.imp_right (fun hc => hsub hc), ?_, h.settles, ?_, ?_⟩
    · intro s hs
      rcases List.mem_append.mp hs with hs | hs
      · exact hsub (h.inbox s hs)
      · exact List.mem_append_right _ hs
    · exact h.stems.imp fun t ht q hq c hc => by
        obtain ⟨s, hs, hk⟩ := ht q hq c hc
        exact ⟨s, hsub hs, hk⟩
    · exact fun sets hsets => h.watcher sets (List.Subset.trans hsub hsets)
    · exact fun cfg hcfg hne => (h.handed cfg hcfg hne).imp fun _ _ => Published.mono hsub
  · exact h

theorem inv_beginApply {root : GoString} (hroot : isAbs root = true) {g : Guest} (h : Inv root g)
    (fuel : Nat) : Inv root (step root g (.beginApply fuel)) := by
  simp only [step]
  split
  · rename_i ps rest hw hin
    have hps : ps ∈ g.published := h.inbox ps (by simp [hin])
    refine ⟨fun s hs => h.inbox s (by simp [hin, hs]), .inr hps, ?_, ?_, h.watcher, h.handed⟩
    · refine always_propertiesApplyer hroot (fun q hq => (bootPath_spec hq).2.2) ?_ fuel
        h.stems.now
      exact fun k hk _ => ⟨ps, hps, k, hk, rfl, rfl⟩
    · intro t' hrun key hkey
      have hnil : (run handle (propertiesApplyer fuel root ps) g.tree).1 = .returned none := by
        rw [hrun]
      have hfile := fileAt_boot_of_nil hroot hnil hkey
      rwa [hrun] at hfile
  · exact h

theorem inv_write {root : GoString} {g : Guest} (h : Inv root g) :
    Inv root (step root g .write) := by
  refine ⟨h.inbox, h.current, h.stems.advance, ?_, h.watcher, h.handed⟩
  intro t' hrun
  refine h.settles t' ?_
  rw [← hrun]
  exact (run_advance g.writer g.tree).symm

/-- The tree answers a read of a boot file with published content. -/
theorem readsOk_published {root : GoString} {sets : List PropertySet} {t : Tree}
    (hroot : isAbs root = true) (h : Stems (BootPath root) (Source root sets) t)
    (path : GoString) :
    ReadsOk root (Published root sets) (.inl (.readFile path)) (t.readFile (resolve path)) := by
  rintro key hkey rfl
  refine ⟨fun c hc => ?_, fun e he hn => .inl rfl⟩
  obtain ⟨s, hs, k, hk, heq, hval⟩ := h _ ⟨key, hkey, rfl⟩ c (readFile_spec.1 c hc)
  exact .inr ⟨s, hs, k, hk, (keyAt_inj_iff hroot).mpr heq, hval⟩

/-- A call of the watcher, which reads a file or hands over a configuration, leaves all but the
watcher as it was; what it hands over satisfies `F` if its reads do. -/
theorem step_read_spec {root : GoString} {F : GoString → GoString → Prop} {g : Guest}
    (hw : Issues (ReadsOk root F) (HandsOk F) (fun _ => True) g.watcher)
    (hreads : ∀ path, ReadsOk root F (.inl (.readFile path)) (g.tree.readFile (resolve path)))
    (answer : Bool) :
    step root g (.read answer) =
        { g with watcher := (step root g (.read answer)).watcher
                 handed := (step root g (.read answer)).handed } ∧
      Issues (ReadsOk root F) (HandsOk F) (fun _ => True) (step root g (.read answer)).watcher ∧
      ∀ cfg ∈ (step root g (.read answer)).handed,
        cfg ∈ g.handed ∨ (cfg.isEmpty = false → FieldsOk F cfg) := by
  simp only [step, stepWatcher]
  cases hprog : g.watcher with
  | ret next =>
    cases next with
    | again => exact ⟨rfl, issues_poll, fun _ => .inl⟩
    | done => exact ⟨rfl, by rw [hprog]; trivial, fun _ => .inl⟩
  | call op k =>
    rw [hprog] at hw
    cases op with
    | inl op =>
      cases op with
      | readFile path => exact ⟨rfl, hw.2 _ (hreads path), fun _ => .inl⟩
      | mkdirAll _ | remove _ | removeAll _ | createTrunc _ | write _ _ | rename _ _ | stat _
        | readDir _ | walkDir _ => exact absurd hw.1 id
    | inr op =>
      cases op with
      | runBoot cfg =>
        refine ⟨rfl, hw.2 answer trivial, fun c hc => ?_⟩
        rcases List.mem_append.mp hc with hc | hc
        · exact .inl hc
        · obtain rfl : c = cfg := by simpa using hc
          exact .inr hw.1
      | shuttingDown | sentinelPresent | pastDeadline | waitPoll =>
        exact ⟨rfl, hw.2 answer trivial, fun _ => .inl⟩

theorem inv_read {root : GoString} (hroot : isAbs root = true) {g : Guest} (h : Inv root g)
    (answer : Bool) : Inv root (step root g (.read answer)) := by
  have hspec := fun sets (hsets : g.published ⊆ sets) =>
    step_read_spec (h.watcher sets hsets)
      (readsOk_published hroot fun q hq c hc => by
        obtain ⟨s, hs, hk⟩ := h.stems.now q hq c hc
        exact ⟨s, hsets hs, hk⟩)
      answer
  obtain ⟨hframe, -, hhanded⟩ := hspec g.published (List.Subset.refl _)
  rw [hframe]
  refine ⟨h.inbox, h.current, h.stems, h.settles, fun sets hsets => (hspec sets hsets).2.1, ?_⟩
  intro cfg hcfg hne
  rcases hhanded cfg hcfg with hold | hnew
  · exact h.handed cfg hold hne
  · exact hnew hne

theorem inv_runEvents {root : GoString} (hroot : isAbs root = true) {g : Guest} (h : Inv root g)
    (evs : List Event) : Inv root (runEvents root g evs) := by
  induction evs generalizing g with
  | nil => exact h
  | cons ev evs ih =>
    refine ih ?_
    cases ev with
    | publish ps => exact inv_publish h ps
    | beginApply fuel => exact inv_beginApply hroot h fuel
    | write => exact inv_write h
    | read answer => exact inv_read hroot h answer

/-! ## Rounds without a call of the subscriber -/

/-- The event is no step of the subscriber. -/
def Quiet : Event → Prop
  | .publish _ | .read _ => True
  | .beginApply _ | .write => False

instance : DecidablePred Quiet
  | .publish _ | .read _ => .isTrue trivial
  | .beginApply _ | .write => .isFalse id

/-- The last apply returned nil, and no other has begun. -/
def Settled (g : Guest) : Bool :=
  match g.writer with
  | .ret (.returned none) => true
  | _ => false

/-- The watcher is about to begin a round. -/
def BetweenRounds (g : Guest) : Bool :=
  match g.watcher with
  | .ret .again => true
  | _ => false

/-- The content is that of the set for the file of `key`. -/
def Entry (root : GoString) (ps : PropertySet) (key c : GoString) : Prop :=
  (entryOf root ps key).getD [] = c

theorem FieldsOk.eq_configOf {root : GoString} {ps : PropertySet} {cfg : Config}
    (h : FieldsOk (Entry root ps) cfg) : cfg = configOf root ps := by
  obtain ⟨a, b, c, d, rfl, rfl, rfl, rfl, rfl⟩ := h
  rfl

/-- What holds in every state since the subscriber became quiet: the boot files are the entries of
`ps`, and what was not in `old` was handed over from them. -/
structure QuietInv (root : GoString) (ps : PropertySet) (old : List Config) (g : Guest) : Prop where
  files : ∀ key ∈ bootKeys, g.tree.fileAt (keyAt root key) = entryOf root ps key
  watcher :
    Issues (ReadsOk root (Entry root ps)) (HandsOk (Entry root ps)) (fun _ => True) g.watcher
  handed : ∀ cfg ∈ g.handed, cfg ∈ old ∨ (cfg.isEmpty = false → cfg = configOf root ps)

/-- The tree answers a read of a boot file with the entry of the set. -/
theorem readsOk_entry {root : GoString} {ps : PropertySet} {t : Tree}
    (h : ∀ key ∈ bootKeys, t.fileAt (keyAt root key) = entryOf root ps key) (path : GoString) :
    ReadsOk root (Entry root ps) (.inl (.readFile path)) (t.readFile (resolve path)) := by
  rintro key hkey rfl
  refine ⟨fun c hc => ?_, fun e he hn => ?_⟩
  · have hfile := readFile_spec.1 c hc
    rw [h key hkey] at hfile
    simp [Entry, hfile]
  · have hfile := readFile_spec.2 e he hn
    rw [h key hkey] at hfile
    simp [Entry, hfile]

theorem quietInv_read {root : GoString} {ps : PropertySet} {old : List Config} {g : Guest}
    (h : QuietInv root ps old g) (answer : Bool) :
    QuietInv root ps old (step root g (.read answer)) := by
  obtain ⟨hframe, hwatcher, hhanded⟩ := step_read_spec h.watcher (readsOk_entry h.files) answer
  rw [hframe]
  refine ⟨h.files, hwatcher, fun cfg hcfg => ?_⟩
  rcases hhanded cfg hcfg with hold | hnew
  · exact h.handed cfg hold
  · exact .inr fun hne => (hnew hne).eq_configOf

theorem quietInv_runEvents {root : GoString} {ps : PropertySet} {old : List Config} {g : Guest}
    (h : QuietInv root ps old g) {evs : List Event} (hquiet : ∀ ev ∈ evs, Quiet ev) :
    QuietInv root ps old (runEvents root g evs) := by
  induction evs generalizing g with
  | nil => exact h
  | cons ev evs ih =>
    refine ih ?_ fun e he => hquiet e (List.mem_cons_of_mem _ he)
    have hev := hquiet ev List.mem_cons_self
    cases ev with
    | publish ps' =>
      simp only [step]
      split_ifs
      · exact ⟨h.files, h.watcher, h.handed⟩
      · exact h
    | beginApply fuel => exact absurd hev id
    | write => exact absurd hev id
    | read answer => exact quietInv_read h answer

/-- In every interleaving of the subscriber and the watcher, from a tree without boot files, each
field of a configuration that is handed over and is not empty is empty or the whole value of one of
the published sets; and if the subscriber takes no step during the round, its last apply having
returned nil, the configuration is that of the set applied last. -/
theorem handed_from_published {root : GoString} (hroot : isAbs root = true) {t₀ : Tree}
    (hfresh : ∀ key ∈ bootKeys, t₀.fileAt (keyAt root key) = none) (evs : List Event) :
    (∀ cfg ∈ (runEvents root { tree := t₀ } evs).handed, cfg.isEmpty = false →
      FieldsOk (Published root (runEvents root { tree := t₀ } evs).published) cfg) ∧
    ∀ quiet : List Event, (∀ ev ∈ quiet, Quiet ev) →
      Settled (runEvents root { tree := t₀ } evs) = true →
      BetweenRounds (runEvents root { tree := t₀ } evs) = true →
      ∀ cfg ∈ (runEvents root { tree := t₀ } (evs ++ quiet)).handed,
        cfg ∈ (runEvents root { tree := t₀ } evs).handed ∨
          (cfg.isEmpty = false →
            (runEvents root { tree := t₀ } evs).current ∈
              (runEvents root { tree := t₀ } evs).published ∧
            cfg = configOf root (runEvents root { tree := t₀ } evs).current) := by
  have hinv := inv_runEvents hroot (inv_init hfresh) evs
  refine ⟨hinv.handed, fun quiet hquiet hsettled hround cfg hcfg => ?_⟩
  rw [runEvents, List.foldl_append] at hcfg
  change cfg ∈ (runEvents root (runEvents root { tree := t₀ } evs) quiet).handed at hcfg
  generalize runEvents root { tree := t₀ } evs = g at hinv hsettled hround hcfg ⊢
  have hwriter : g.writer = .ret (.returned none) := by
    unfold Settled at hsettled
    split at hsettled
    · assumption
    · cases hsettled
  have hwatcher : g.watcher = .ret .again := by
    unfold BetweenRounds at hround
    split at hround
    · assumption
    · cases hround
  -- a writer that has returned has settled: the boot files are those of its set
  have hstart : QuietInv root g.current g.handed g := by
    refine ⟨hinv.settles g.tree (by rw [hwriter]; rfl), by rw [hwatcher]; trivial,
      fun c hc => .inl hc⟩
  rcases (quietInv_runEvents hstart hquiet).handed cfg hcfg with hold | hnew
  · exact .inl hold
  · refine .inr fun hne => ⟨hinv.current.resolve_left fun hcur => ?_, hnew hne⟩
    -- before the first message the watcher can only have read an empty configuration
    have hempty : (configOf root PropertySet.empty).isEmpty = true := rfl
    rw [hnew hne, hcur, hempty] at hne
    cases hne

def gitRequest : PropertySet :=
  (((PropertySet.singleton kindKey (lit "git")).insert urlKey (lit "u")).insert refKey
    (lit "main")).insert scriptKey (lit "make")

/-- The set is published and its apply begins, and the subscriber makes `n` calls. -/
def applying (n : Nat) : List Event :=
  [.publish gitRequest, .beginApply 5] ++ List.replicate n .write

/-- A round of the watcher after the apply has returned reads the whole request. -/
example :
    (runEvents (lit "/p") { tree := Tree.empty }
      (applying 40 ++ List.replicate 8 (.read false))).handed =
        [⟨lit "git", lit "u", lit "main", lit "make"⟩] := by
  decide

end WeftAgent.Boot
