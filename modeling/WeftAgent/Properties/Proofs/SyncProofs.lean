import WeftAgent.Properties.Proofs.KeyProofs
import WeftAgent.Properties.Proofs.LoopProofs
import WeftAgent.Properties.Proofs.PruneProofs

/-!
# The phases of an apply

What the garbage collection, the write of one key and the writes of all keys do to the tree.
-/

namespace WeftAgent.Properties

open WeftAgent.Go WeftAgent.Go.Filepath WeftAgent.Effect WeftAgent.Fs

/-! ## Garbage collection -/

theorem mem_wantMap {root p : GoString} {ps : PropertySet} :
    p ∈ wantMap root ps ↔ ∃ k ∈ ps.keys, keyPath root k = p := by
  have hfold : ∀ (es : List (Sigma fun _ : GoString => GoString)) (want : GoMap GoString GoString),
      p ∈ es.foldl (fun want e => want.insert (keyPath root e.1) e.2) want ↔
        p ∈ want ∨ ∃ e ∈ es, keyPath root e.1 = p := by
    intro es
    induction es with
    | nil => simp
    | cons e es ih =>
      intro want
      rw [List.foldl_cons, ih, AList.mem_insert]
      simp only [List.mem_cons, exists_eq_or_imp]
      tauto
  rw [wantMap, hfold]
  simp only [AList.notMem_empty, false_or, PropertySet.keys, AList.keys, List.keys, List.mem_map,
    exists_exists_and_eq_and]

/-- A file that `collectFiles` returns: regular, below the root, and not a temporary file. -/
def Collected (root : GoString) (t : Tree) (q : Path) : Prop :=
  resolve root <+: q ∧ t.fileAt q ≠ none ∧ ext (absPath q) ≠ tmpSuffix

theorem collected_walk {t : Tree} {q : Path} :
    collected (absPath q, t.kindAt q) =
      if t.fileAt q ≠ none ∧ ext (absPath q) ≠ tmpSuffix then some (absPath q) else none := by
  unfold collected Tree.kindAt Tree.fileAt
  cases h : t.get q with
  | none => simp
  | some node =>
    cases node with
    | dir => simp [Node.kind]
    | file c => by_cases hext : ext (absPath q) = tmpSuffix <;> simp [Node.kind, hext]

/-- Walking the root directory collects its files, each once. -/
theorem run_collectFiles {root : GoString} {t : Tree} (hdir : t.get (resolve root) = some .dir) :
    ∃ qs : List Path, run handle (collectFiles root) t = (.ok (qs.map absPath), t) ∧ qs.Nodup ∧
      ∀ q, q ∈ qs ↔ Collected root t q := by
  have hroot : collected (root, t.kindAt (resolve root)) = none := by
    simp [collected, Tree.kindAt, hdir, Node.kind]
  have hfile : t.fileAt (resolve root) = none := Tree.fileAt_eq_none.mpr (.inr hdir)
  have hmap : ∀ l : List Path, (l.map fun q => (absPath q, t.kindAt q)).filterMap collected =
      (l.filter fun q => t.fileAt q ≠ none ∧ ext (absPath q) ≠ tmpSuffix).map absPath := by
    intro l
    induction l with
    | nil => rfl
    | cons q l ih =>
      rw [List.map_cons, List.filterMap_cons, collected_walk, ih, List.filter_cons]
      split_ifs <;> simp_all
  refine ⟨((t.below (resolve root)).filter (· ≠ resolve root)).filter
    fun q => t.fileAt q ≠ none ∧ ext (absPath q) ≠ tmpSuffix, ?_, ?_, ?_⟩
  · simp only [collectFiles, walkDir, call_bind, ret_bind, run_call, handle, Tree.walkDir, hdir,
      reduceCtorEq, ↓reduceIte, pure_eq, run_ret, List.filterMap_cons, hroot, hmap]
  · exact (Tree.nodup_below.filter _).filter _
  · intro q
    simp only [List.mem_filter, Tree.mem_below, decide_eq_true_eq, Collected]
    constructor
    · rintro ⟨⟨⟨hpre, -⟩, -⟩, hq⟩
      exact ⟨hpre, hq⟩
    · rintro ⟨hpre, hq⟩
      refine ⟨⟨⟨hpre, ?_⟩, ?_⟩, hq⟩
      · obtain ⟨c, hc⟩ := Option.ne_none_iff_exists'.mp hq.1
        exact Tree.get_ne_none_of_fileAt hc
      · rintro rfl
        exact hq.1 hfile

/-- The garbage collection removes the listed files that are not wanted, and nothing else. -/
theorem run_removeStale (want : GoMap GoString GoString) {qs : List Path} {t : Tree}
    (hnodup : qs.Nodup) (hfiles : ∀ q ∈ qs, t.fileAt q ≠ none) :
    (run handle (removeStale want (qs.map absPath)) t).1 = none ∧
      ∀ x, (run handle (removeStale want (qs.map absPath)) t).2.get x =
        if x ∈ qs ∧ absPath x ∉ want then none else t.get x := by
  induction qs generalizing t with
  | nil => simp [removeStale]
  | cons q qs ih =>
    obtain ⟨hq, hnodup'⟩ := List.nodup_cons.mp hnodup
    have hfiles' : ∀ x ∈ qs, t.fileAt x ≠ none := fun x hx => hfiles x (List.mem_cons_of_mem _ hx)
    rw [List.map_cons, removeStale]
    split_ifs with hw
    · obtain ⟨hnil, hget⟩ := ih hnodup' hfiles'
      refine ⟨hnil, fun x => ?_⟩
      rw [hget x]
      rcases eq_or_ne x q with rfl | hx
      · simp [hq, hw]
      · simp [hx]
    · -- `q` is removed; the files still listed are other ones and stay
      obtain ⟨c, hc⟩ := Option.ne_none_iff_exists'.mp (hfiles q List.mem_cons_self)
      have hres : resolve (absPath q) = q :=
        resolve_absPath (t.names q (Tree.get_ne_none_of_fileAt hc))
      obtain ⟨hok, hgone⟩ := Tree.remove_of_file hc
      have hstill : ∀ x ∈ qs, (t.remove q).2.fileAt x ≠ none := by
        intro x hx
        have hne : x ≠ q := fun heq => hq (heq ▸ hx)
        rw [Tree.fileAt_congr (Tree.get_remove_of_ne hne)]
        exact hfiles' x hx
      obtain ⟨hnil, hget⟩ := ih hnodup' hstill
      simp only [osRemove, call_bind, ret_bind, run_call, handle, hres, hok]
      refine ⟨hnil, fun x => ?_⟩
      rw [hget x, hgone x]
      rcases eq_or_ne x q with rfl | hx
      · simp [hw]
      · simp [hx]

/-! ## Writing one key -/

/-- A file can be written to the path by way of its temporary file: no directory stands at either,
and no file above them. -/
def Ready (t : Tree) (p : Path) : Prop :=
  (∀ q, q <+: p.dropLast → t.fileAt q = none) ∧ t.get (tmpOf p) ≠ some .dir ∧ t.get p ≠ some .dir

theorem tmpOf_not_prefix_dropLast (p : Path) : ¬ tmpOf p <+: p.dropLast := by
  have h := not_prefix_dropLast (tmpOf_ne_nil p)
  rwa [dropLast_tmpOf] at h

/-- The directory of a path can be made and its temporary file written; then the file itself can be
renamed into place exactly when no directory stands there. -/
theorem writable_after_mkdirs {t t₁ : Tree} {p : Path} (hp : Names p)
    (hget : ∀ x, t₁.get x = if x <+: p.dropLast then some .dir else t.get x) :
    (t₁.Writable (tmpOf p) ↔ t.get (tmpOf p) ≠ some .dir) ∧
      (t₁.Writable p ↔ t.get p ≠ some .dir) := by
  have hparent : t₁.get p.dropLast = some .dir := by rw [hget, if_pos List.prefix_rfl]
  constructor
  · rw [Tree.Writable, dropLast_tmpOf, hparent, hget, if_neg (tmpOf_not_prefix_dropLast p)]
    exact ⟨fun h => h.2.2.1, fun h => ⟨tmpOf_ne_nil p, rfl, h, names_tmpOf hp⟩⟩
  · rcases eq_or_ne p [] with rfl | hne
    · simp [Tree.Writable, t.root_dir]
    · rw [Tree.Writable, hparent, hget, if_neg (not_prefix_dropLast hne)]
      exact ⟨fun h => h.2.2.1, fun h => ⟨hne, rfl, h, hp⟩⟩

/-- The node at each path after a file was written to `p` by way of its temporary file. -/
def nodeAfterWrite (t : Tree) (p : Path) (v : GoString) (x : Path) : Option Node :=
  if x = p then some (.file v) else if x = tmpOf p then none
  else if x <+: p.dropLast then some .dir else t.get x

/-- Renaming the temporary file into place. -/
theorem rename_tmp_cases {t t₁ t₂ : Tree} {p : Path} {v : GoString} (hp : Names p)
    (h₁ : ∀ x, t₁.get x = if x <+: p.dropLast then some .dir else t.get x)
    (h₂ : ∀ x, t₂.get x = if x = tmpOf p then some (.file v) else t₁.get x) :
    (t.get p ≠ some .dir ∧ (t₂.rename (tmpOf p) p).1 = none ∧
        ∀ x, (t₂.rename (tmpOf p) p).2.get x = nodeAfterWrite t p v x) ∨
      (t.get p = some .dir ∧ ∃ e, t₂.rename (tmpOf p) p = (some e, t₂)) := by
  have hne : p ≠ tmpOf p := (tmpOf_ne p).symm
  have hfile : t₂.fileAt (tmpOf p) = some v := by rw [Tree.fileAt_eq_some, h₂, if_pos rfl]
  have hparent : p.dropLast ≠ tmpOf p := fun heq =>
    tmpOf_not_prefix_dropLast p (heq ▸ List.prefix_rfl)
  have hw : t₂.Writable p ↔ t.get p ≠ some .dir := by
    rw [← (writable_after_mkdirs hp h₁).2, Tree.Writable, Tree.Writable, h₂, h₂, if_neg hparent,
      if_neg hne]
  rcases Tree.rename_of_file hfile (tmpOf_ne p) with ⟨hq, heq⟩ | ⟨hq, e, heq⟩
  · left
    refine ⟨hw.mp hq, by rw [heq], fun x => ?_⟩
    rw [heq, Tree.get_move, h₂, h₁, nodeAfterWrite]
    split_ifs <;> rfl
  · right
    exact ⟨by_contra fun h => hq (hw.mpr h), e, heq⟩

/-- Writing a key succeeds exactly when its path is ready, and then changes the file, the temporary
file and the directories above them only. -/
theorem run_writeKey_cases {root : GoString} (hroot : isAbs root = true) (ps : PropertySet)
    (k : GoString) (t : Tree) :
    (Ready t (keyAt root k) ∧ (run handle (writeKey root ps k) t).1 = none ∧
        ∀ x, (run handle (writeKey root ps k) t).2.get x =
          nodeAfterWrite t (keyAt root k) (ps.value k) x) ∨
      (¬ Ready t (keyAt root k) ∧ (run handle (writeKey root ps k) t).1 ≠ none) := by
  have hp := names_keyAt root k
  have htmp : resolve (tmpPath root k) = tmpOf (keyAt root k) := tmpAt_eq hroot k
  have hkey : resolve (keyPath root k) = keyAt root k := rfl
  have hparent := resolve_dir_keyPath hroot k
  rw [writeKey, run_bind, run_osMkdirAll]
  rcases t.mkdirAll_cases (names_resolve (dir (keyPath root k))) with
    ⟨hno, heq⟩ | ⟨⟨q, hq, hf⟩, heq⟩
  · have hget : ∀ x, (t.mkdirs _ (names_resolve (dir (keyPath root k)))).get x =
        if x <+: (keyAt root k).dropLast then some .dir else t.get x := by
      intro x
      rw [Tree.get_mkdirs, hparent]
    rw [hparent] at hno
    have hwt := (writable_after_mkdirs hp hget).1
    rw [heq]
    generalize t.mkdirs _ (names_resolve (dir (keyPath root k))) = t₁ at hget hwt ⊢
    -- the directory is there; next the temporary file, then the rename
    rw [run_bind]
    rcases run_osWriteFile_cases (tmpPath root k) (ps.value k) t₁ with
      ⟨hw, hok, hget₂⟩ | ⟨hw, e, heq₂⟩
    · rw [hok]
      generalize (run handle (osWriteFile (tmpPath root k) (ps.value k)) t₁).2 = t₂ at hget₂ ⊢
      rw [htmp] at hw hget₂
      rw [run_bind, run_osRename, htmp, hkey]
      rcases rename_tmp_cases hp hget hget₂ with ⟨hnd, hok₃, hget₃⟩ | ⟨hdir, e, heq₃⟩
      · left
        rw [hok₃]
        exact ⟨⟨hno, hwt.mp hw, hnd⟩, rfl, hget₃⟩
      · right
        rw [heq₃]
        exact ⟨fun h => h.2.2 hdir, by simp [run_bind]⟩
    · right
      rw [heq₂]
      rw [htmp] at hw
      exact ⟨fun h => hw (hwt.mpr h.2.1), by simp⟩
  · -- a file stands where a directory has to go
    right
    rw [heq]
    rw [hparent] at hq
    exact ⟨fun h => hf (h.1 q hq), by simp⟩

section AfterWrite

variable {t t' : Tree} {p₀ q : Path} {v : GoString} (hready : Ready t p₀)
  (hget : ∀ x, t'.get x = nodeAfterWrite t p₀ v x)
include hready hget

/-- The write of a file makes the directories above it. -/
theorem dir_after_write_iff :
    t'.get q = some .dir ↔ q <+: p₀.dropLast ∨ t.get q = some .dir := by
  have hne : p₀ ≠ [] := fun hnil => hready.2.2 (hnil ▸ t.root_dir)
  rw [hget, nodeAfterWrite]
  split_ifs with hfile htmp hdir
  · subst hfile
    simp [not_prefix_dropLast hne, hready.2.2]
  · subst htmp
    simp [tmpOf_not_prefix_dropLast, hready.2.1]
  · simp [hdir]
  · simp [hdir]

/-- The file is there, its temporary file is not, and the other files are as before. -/
theorem file_after_write_iff :
    t'.fileAt q ≠ none ↔ q = p₀ ∨ q ≠ tmpOf p₀ ∧ t.fileAt q ≠ none := by
  rcases eq_or_ne q p₀ with rfl | hfile
  · have hvalue : t'.fileAt q = some v := by
      rw [Tree.fileAt_eq_some, hget, nodeAfterWrite, if_pos rfl]
    simp [hvalue]
  · have hnode := hget q
    rw [nodeAfterWrite, if_neg hfile] at hnode
    by_cases htmp : q = tmpOf p₀
    · rw [if_pos htmp] at hnode
      have hnone : t'.fileAt q = none := Tree.fileAt_eq_none.mpr (.inl hnode)
      exact iff_of_false (fun h => h hnone) (fun h => (h.resolve_left hfile).1 htmp)
    · rw [if_neg htmp] at hnode
      by_cases hdir : q <+: p₀.dropLast
      · rw [if_pos hdir] at hnode
        simp [Tree.fileAt_eq_none.mpr (.inr hnode), hfile, hready.1 q hdir]
      · rw [if_neg hdir] at hnode
        simp [Tree.fileAt_congr hnode, hfile, htmp]

end AfterWrite

/-! ## Writing all keys -/

/-- After a successful write of the first key the others are written; otherwise its error is
returned. -/
theorem run_writeKeys_cons (root : GoString) (ps : PropertySet) (k : GoString)
    (ks : List GoString) (t : Tree) :
    run handle (writeKeys root ps (k :: ks)) t =
      if (run handle (writeKey root ps k) t).1 = none then
        run handle (writeKeys root ps ks) (run handle (writeKey root ps k) t).2
      else run handle (writeKey root ps k) t := by
  rw [writeKeys, run_bind]
  rcases run handle (writeKey root ps k) t with ⟨err, t'⟩
  cases err with
  | none => simp
  | some e => simp

/-! ## Syncing the files -/

/-- The tree in which the keys are written: the root is a directory and the stale files are gone. -/
def nodeAfterGc (root : GoString) (ps : PropertySet) (t : Tree) (x : Path) : Option Node :=
  if x <+: resolve root then some .dir
  else if resolve root <+: x ∧ t.fileAt x ≠ none ∧ ext (absPath x) ≠ tmpSuffix ∧
    absPath x ∉ wantMap root ps then none
  else t.get x

/-- The call writes to no file. -/
def NoWrite (op : FsOp) : Prop := ∀ path data, op ≠ .write path data

theorem noWrite_collectFiles (root : GoString) :
    Issues (fun _ _ => True) NoWrite (fun _ => True) (collectFiles root) := by
  refine ⟨fun _ _ => FsOp.noConfusion, fun r _ => ?_⟩
  cases r <;> trivial

theorem noWrite_removeStale (want : GoMap GoString GoString) (files : List GoString) :
    Issues (fun _ _ => True) NoWrite (fun _ => True) (removeStale want files) :=
  issues_removeStale want fun _ _ _ _ => FsOp.noConfusion

/-- Unless a file is in the way of the root directory, the keys are written to the tree after the
garbage collection, and nothing is written before. -/
theorem run_syncFiles {root : GoString} {t : Tree} (ps : PropertySet)
    (hready : ∀ q, q <+: resolve root → t.fileAt q = none) :
    ∃ t', (∀ x, t'.get x = nodeAfterGc root ps t x) ∧
      run handle (syncFiles root ps) t = run handle (writeKeys root ps ps.sortedKeys) t' ∧
      ∀ path data, .write path data ∈ trace handle (syncFiles root ps) t ↔
        .write path data ∈ trace handle (writeKeys root ps ps.sortedKeys) t' := by
  rw [syncFiles, run_bind, trace_bind, run_osMkdirAll]
  rcases t.mkdirAll_cases (names_resolve root) with ⟨-, heq⟩ | ⟨⟨q, hq, hf⟩, -⟩
  · have hget₁ : ∀ x, (t.mkdirs _ (names_resolve root)).get x =
        if x <+: resolve root then some .dir else t.get x := fun x => rfl
    have hfile₁ : ∀ x, (t.mkdirs _ (names_resolve root)).fileAt x = t.fileAt x := fun x => by
      have h := Tree.fileAt_mkdirAll (t := t) (names_resolve root) x
      rwa [heq] at h
    rw [heq]
    generalize t.mkdirs _ (names_resolve root) = t₁ at hget₁ hfile₁ ⊢
    have hdir : t₁.get (resolve root) = some .dir := by simp [hget₁]
    obtain ⟨qs, hrun, hnodup, hqs⟩ := run_collectFiles hdir
    obtain ⟨hnil, hget₂⟩ := run_removeStale (wantMap root ps) hnodup
      (fun q hq => ((hqs q).mp hq).2.1)
    have hstale : ∀ path data, .write path data ∉
        trace handle (removeStale (wantMap root ps) (qs.map absPath)) t₁ := fun path data hmem =>
      (noWrite_removeStale _ _).trace _ hmem path data rfl
    have hcollect : ∀ path data, .write path data ∉ trace handle (collectFiles root) t₁ :=
      fun path data hmem => (noWrite_collectFiles root).trace _ hmem path data rfl
    refine ⟨(run handle (removeStale (wantMap root ps) (qs.map absPath)) t₁).2, fun x => ?_, ?_, ?_⟩
    · rw [hget₂, hget₁, nodeAfterGc]
      simp only [hqs, Collected, hfile₁, and_assoc]
      by_cases hx : x <+: resolve root
      · simp [hx, hready x hx]
      · simp [hx]
    · simp only [run_bind, hrun, hnil]
    · intro path data
      simp [trace_bind, hrun, hnil, hstale, hcollect, osMkdirAll, trace]
  · exact absurd (hready q hq) hf

/-- If a file is in the way of the root directory, the apply fails. -/
theorem syncFiles_ne_nil_of_file {root : GoString} {t : Tree} (ps : PropertySet) {q : Path}
    (hq : q <+: resolve root) (hf : t.fileAt q ≠ none) :
    (run handle (syncFiles root ps) t).1 ≠ none := by
  rw [syncFiles, run_bind, run_osMkdirAll]
  rcases t.mkdirAll_cases (names_resolve root) with ⟨hno, -⟩ | ⟨-, heq⟩
  · exact absurd (hno q hq) hf
  · rw [heq]
    simp

/-! ## A whole apply -/

/-- With a recursion bound above the height of the synced tree an apply returns what the sync of the
files returned: errors of the pruning are ignored. -/
theorem run_propertiesApplyer (root : GoString) (ps : PropertySet) (t : Tree) {fuel : Nat}
    (hfuel : (run handle (syncFiles root ps) t).2.height < fuel) :
    (run handle (propertiesApplyer fuel root ps) t).1 =
      .returned (run handle (syncFiles root ps) t).1 := by
  rw [propertiesApplyer, run_bind]
  generalize run handle (syncFiles root ps) t = r at hfuel ⊢
  obtain ⟨err, t'⟩ := r
  cases err with
  | some e => rfl
  | none =>
    have hdone := (run_pruneEmptyDirs root hfuel).1
    simp only [run_bind, hdone]
    rfl

/-- Whatever the recursion bound, an apply that returned nil synced the files and kept them. -/
theorem syncFiles_of_nil {root : GoString} {ps : PropertySet} {t : Tree} {fuel : Nat}
    (hnil : (run handle (propertiesApplyer fuel root ps) t).1 = .returned none) :
    (run handle (syncFiles root ps) t).1 = none ∧
      Shrinks (run handle (syncFiles root ps) t).2
        (run handle (propertiesApplyer fuel root ps) t).2 := by
  rw [propertiesApplyer, run_bind] at hnil ⊢
  generalize run handle (syncFiles root ps) t = r at hnil ⊢
  obtain ⟨err, t'⟩ := r
  cases err with
  | some e => simp at hnil
  | none =>
    have hprune := (always_pruneEmptyDirs root fuel root (Shrinks.refl t')).final
    refine ⟨rfl, ?_⟩
    simp only [run_bind]
    cases (run handle (pruneEmptyDirs fuel root root) t').1 <;> exact hprune

theorem apply_nil_iff {root : GoString} {ps : PropertySet} {t : Tree} :
    (apply root ps t).1 = .returned none ↔ (run handle (syncFiles root ps) t).1 = none := by
  have h := run_propertiesApplyer root ps t (Nat.lt_succ_self _)
  rw [apply, pruneFuel, h, Outcome.returned.injEq]

end WeftAgent.Properties
