import WeftAgent.Properties.Proofs.ConvergenceProofs
import WeftAgent.Properties.Proofs.ProvenanceProofs

/-!
# Which keys an apply gets to

The keys are written in their order, up to the first one that fails. Where files and directories are
when the turn of a key comes follows from where they were before and from the keys before it. The
value of a key is written exactly when its turn comes and nothing is in the way of its temporary
file (`Reached`).
-/

namespace WeftAgent.Properties

open WeftAgent.Go WeftAgent.Go.Filepath WeftAgent.Effect WeftAgent.Fs

/-! ## The turn of a key -/

/-- A directory is at `q` when the turn of `k` comes: it was there before the first key (`D`), or a
key before `k` has made it. -/
def DirBefore (root : GoString) (ks : List GoString) (D : Path → Prop) (k : GoString) (q : Path) :
    Prop :=
  D q ∨ ∃ k' ∈ ks, k' < k ∧ q <+: (keyAt root k').dropLast

/-- A file is at `q` when the turn of `k` comes: it was there before the first key (`F`), or it is
the file of a key before `k`; and no key since has used it up as its temporary file. -/
def FileBefore (root : GoString) (ks : List GoString) (F : Path → Prop) (k : GoString) (q : Path) :
    Prop :=
  (F q ∧ ∀ k' ∈ ks, k' < k → q ≠ tmpAt root k') ∨
    ∃ k' ∈ ks, k' < k ∧ q = keyAt root k' ∧ ∀ l ∈ ks, k' < l → l < k → q ≠ tmpAt root l

/-- The temporary file of the key can be written when its turn comes. -/
def Stageable (root : GoString) (ks : List GoString) (D F : Path → Prop) (k : GoString) : Prop :=
  (∀ q, q <+: (keyAt root k).dropLast → ¬ FileBefore root ks F k q) ∧
    ¬ DirBefore root ks D k (tmpAt root k)

/-- The turn of the key comes, and its temporary file can be written: nothing is in the way of the
keys before it. -/
def ReachedIn (root : GoString) (ks : List GoString) (D F : Path → Prop) (k : GoString) : Prop :=
  (∀ k' ∈ ks, k' < k → Stageable root ks D F k' ∧ ¬ DirBefore root ks D k' (keyAt root k')) ∧
    Stageable root ks D F k

section Congruence

variable {root : GoString} {ks ks' : List GoString} {D D' F F' : Path → Prop} {k : GoString}

theorem dirBefore_congr (hks : ∀ k, k ∈ ks ↔ k ∈ ks') (hD : ∀ q, D q ↔ D' q) (q : Path) :
    DirBefore root ks D k q ↔ DirBefore root ks' D' k q := by
  simp only [DirBefore, hks, hD]

theorem fileBefore_congr (hks : ∀ k, k ∈ ks ↔ k ∈ ks') (hF : ∀ q, F q ↔ F' q) (q : Path) :
    FileBefore root ks F k q ↔ FileBefore root ks' F' k q := by
  simp only [FileBefore, hks, hF]

theorem reachedIn_congr (hks : ∀ k, k ∈ ks ↔ k ∈ ks') (hD : ∀ q, D q ↔ D' q)
    (hF : ∀ q, F q ↔ F' q) : ReachedIn root ks D F k ↔ ReachedIn root ks' D' F' k := by
  simp only [ReachedIn, Stageable, dirBefore_congr hks hD, fileBefore_congr hks hF, hks]

end Congruence

/-! ## The first key and the others -/

section Cons

variable {root : GoString} {ps : PropertySet} {k₀ : GoString} {ks : List GoString}
  (hsorted : (k₀ :: ks).Pairwise (· < ·))
include hsorted

/-- No key comes before the first. -/
theorem not_lt_first {k : GoString} (hk : k ∈ k₀ :: ks) : ¬ k < k₀ := by
  intro hlt
  rcases List.mem_cons.mp hk with rfl | hk
  · exact List.lt_irrefl _ hlt
  · exact List.lt_irrefl _ (List.lt_trans hlt ((List.pairwise_cons.mp hsorted).1 k hk))

/-- At the turn of the first key the tree is as it was. -/
theorem reachedIn_first_iff {D F : Path → Prop} :
    ReachedIn root (k₀ :: ks) D F k₀ ↔
      (∀ q, q <+: (keyAt root k₀).dropLast → ¬ F q) ∧ ¬ D (tmpAt root k₀) := by
  have hnone : ∀ {P : GoString → Prop}, ¬ ∃ k' ∈ k₀ :: ks, k' < k₀ ∧ P k' := by
    rintro P ⟨k', hk', hlt, -⟩
    exact not_lt_first hsorted hk' hlt
  have hall : ∀ {P : GoString → Prop}, ∀ k' ∈ k₀ :: ks, k' < k₀ → P k' :=
    fun k' hk' hlt => absurd hlt (not_lt_first hsorted hk')
  simp only [ReachedIn, Stageable, DirBefore, FileBefore, hnone, or_false]
  constructor
  · rintro ⟨-, hfile, hdir⟩
    exact ⟨fun q hq hF => hfile q hq ⟨hF, hall⟩, hdir⟩
  · rintro ⟨hfile, hdir⟩
    exact ⟨hall, fun q hq hF => hfile q hq hF.1, hdir⟩

variable (hroot : isAbs root = true)
include hroot

/-- The first key passes exactly when its path is ready. -/
theorem first_passes_iff {t : Tree} :
    Stageable root (k₀ :: ks) (t.get · = some .dir) (t.fileAt · ≠ none) k₀ ∧
        ¬ DirBefore root (k₀ :: ks) (t.get · = some .dir) k₀ (keyAt root k₀) ↔
      Ready t (keyAt root k₀) := by
  have hstage : ReachedIn root (k₀ :: ks) (t.get · = some .dir) (t.fileAt · ≠ none) k₀ ↔ _ :=
    reachedIn_first_iff hsorted
  have hall : ∀ {P : GoString → Prop}, ∀ k' ∈ k₀ :: ks, k' < k₀ → P k' :=
    fun k' hk' hlt => absurd hlt (not_lt_first hsorted hk')
  rw [ReachedIn, and_iff_right hall, tmpAt_eq hroot] at hstage
  have hdir : DirBefore root (k₀ :: ks) (t.get · = some .dir) k₀ (keyAt root k₀) ↔
      t.get (keyAt root k₀) = some .dir := by
    refine ⟨fun h => h.resolve_right ?_, .inl⟩
    rintro ⟨k', hk', hlt, -⟩
    exact not_lt_first hsorted hk' hlt
  rw [hstage, hdir, Ready]
  simp only [ne_eq, not_not, and_assoc]

variable {t t' : Tree} {v : GoString} (hready : Ready t (keyAt root k₀))
  (hget : ∀ x, t'.get x = nodeAfterWrite t (keyAt root k₀) v x) {k : GoString} (hk : k ∈ ks)
include hready hget hk

omit hroot in
/-- At the turn of a later key the directories of the first one are there. -/
theorem dirBefore_cons_iff (q : Path) :
    DirBefore root (k₀ :: ks) (t.get · = some .dir) k q ↔
      DirBefore root ks (t'.get · = some .dir) k q := by
  have hlt := (List.pairwise_cons.mp hsorted).1 k hk
  rw [DirBefore, DirBefore, List.exists_mem_cons_iff, dir_after_write_iff hready hget]
  constructor
  · rintro (hold | ⟨-, hfirst⟩ | hlater)
    · exact .inl (.inr hold)
    · exact .inl (.inl hfirst)
    · exact .inr hlater
  · rintro ((hfirst | hold) | hlater)
    · exact .inr (.inl ⟨hlt, hfirst⟩)
    · exact .inl hold
    · exact .inr (.inr hlater)

/-- At the turn of a later key the file of the first one is there, and its temporary file is not,
unless the keys in between have made it otherwise. -/
theorem fileBefore_cons_iff (q : Path) :
    FileBefore root (k₀ :: ks) (t.fileAt · ≠ none) k q ↔
      FileBefore root ks (t'.fileAt · ≠ none) k q := by
  have hmin := (List.pairwise_cons.mp hsorted).1
  have hlt := hmin k hk
  -- between a later key and `k` the first one does not come
  have hbetween : (∃ k' ∈ ks, k' < k ∧ q = keyAt root k' ∧
        ∀ l ∈ k₀ :: ks, k' < l → l < k → q ≠ tmpAt root l) ↔
      ∃ k' ∈ ks, k' < k ∧ q = keyAt root k' ∧ ∀ l ∈ ks, k' < l → l < k → q ≠ tmpAt root l := by
    refine exists_congr fun k' => and_congr_right fun hk' => ?_
    have hfirst : ¬ k' < k₀ := not_lt_first hsorted (List.mem_cons_of_mem _ hk')
    rw [List.forall_mem_cons]
    simp only [hfirst, false_imp_iff, true_and]
  -- all keys before `k` other than the first come after it
  have hafter : (∀ l ∈ k₀ :: ks, k₀ < l → l < k → q ≠ tmpAt root l) ↔
      ∀ l ∈ ks, l < k → q ≠ tmpAt root l := by
    rw [List.forall_mem_cons]
    constructor
    · exact fun h l hl => h.2 l hl (hmin l hl)
    · exact fun h => ⟨fun hself => absurd hself (List.lt_irrefl _), fun l hl _ => h l hl⟩
  rw [FileBefore, FileBefore, List.exists_mem_cons_iff, hbetween, hafter, List.forall_mem_cons,
    file_after_write_iff hready hget, tmpAt_eq hroot]
  constructor
  · rintro (⟨hold, hfirst, hrest⟩ | ⟨-, hkey, hrest⟩ | hlater)
    · exact .inl ⟨.inr ⟨hfirst hlt, hold⟩, hrest⟩
    · exact .inl ⟨.inl hkey, hrest⟩
    · exact .inr hlater
  · rintro (⟨hkey | ⟨hfirst, hold⟩, hrest⟩ | hlater)
    · exact .inr (.inl ⟨hlt, hkey, hrest⟩)
    · exact .inl ⟨hold, fun _ => hfirst, hrest⟩
    · exact .inr (.inr hlater)

end Cons

section Cons

variable {root : GoString} {k₀ : GoString} {ks : List GoString}

/-- After a successful write of the first key, the turn of another one comes in the tree that the
write has left. -/
theorem reachedIn_cons_iff (hsorted : (k₀ :: ks).Pairwise (· < ·)) (hroot : isAbs root = true)
    {t t' : Tree} {v : GoString} (hready : Ready t (keyAt root k₀))
    (hget : ∀ x, t'.get x = nodeAfterWrite t (keyAt root k₀) v x) {k : GoString} (hk : k ∈ ks) :
    ReachedIn root (k₀ :: ks) (t.get · = some .dir) (t.fileAt · ≠ none) k ↔
      ReachedIn root ks (t'.get · = some .dir) (t'.fileAt · ≠ none) k := by
  have hlt := (List.pairwise_cons.mp hsorted).1 k hk
  have hstage : ∀ l ∈ ks,
      (Stageable root (k₀ :: ks) (t.get · = some .dir) (t.fileAt · ≠ none) l ↔
        Stageable root ks (t'.get · = some .dir) (t'.fileAt · ≠ none) l) := by
    intro l hl
    simp only [Stageable, fileBefore_cons_iff hsorted hroot hready hget hl,
      dirBefore_cons_iff hsorted hready hget hl]
  have hfirst := (first_passes_iff hsorted hroot).mpr hready
  rw [ReachedIn, ReachedIn, List.forall_mem_cons, and_iff_right fun _ => hfirst, hstage k hk]
  refine and_congr_left fun _ => forall₃_congr fun l hl _ => ?_
  rw [hstage l hl, dirBefore_cons_iff hsorted hready hget hl]

end Cons

/-! ## The writes of the keys -/

section Writes

variable {root : GoString} {ps : PropertySet}

theorem trace_writeKeys_cons (k : GoString) (ks : List GoString) (t : Tree) :
    trace handle (writeKeys root ps (k :: ks)) t =
      trace handle (writeKey root ps k) t ++
        if (run handle (writeKey root ps k) t).1 = none then
          trace handle (writeKeys root ps ks) (run handle (writeKey root ps k) t).2
        else [] := by
  rw [writeKeys, trace_bind]
  rcases run handle (writeKey root ps k) t with ⟨err, t'⟩
  cases err with
  | none => simp
  | some e => simp [trace]

variable (hroot : isAbs root = true)
include hroot

/-- Keys write to their own temporary files only. -/
theorem not_write_of_ne {k l : GoString} (hne : keyAt root k ≠ keyAt root l) :
    Issues (fun _ _ => True) (fun op : FsOp => ∀ data, op ≠ .write (tmpPath root k) data)
      (fun _ => True) (writeKey root ps l) := by
  have hwrite : ∀ data,
      FsOp.write (tmpPath root l) (ps.value l) ≠ .write (tmpPath root k) data := by
    intro data heq
    have hpath : keyPath root l = keyPath root k :=
      List.append_cancel_right (FsOp.write.inj heq).1
    exact hne ((keyAt_inj_iff hroot).mp hpath).symm
  refine issues_writeKey ?_ ?_ hwrite ?_ ?_ <;> simp

/-- The value of a key is written if its directory can be made and its temporary file opened. -/
theorem write_mem_writeKey_iff (k : GoString) (t : Tree) :
    .write (tmpPath root k) (ps.value k) ∈ trace handle (writeKey root ps k) t ↔
      (∀ q, q <+: (keyAt root k).dropLast → t.fileAt q = none) ∧
        t.get (tmpOf (keyAt root k)) ≠ some .dir := by
  have htmp : resolve (tmpPath root k) = tmpOf (keyAt root k) := tmpAt_eq hroot k
  have hparent := resolve_dir_keyPath hroot k
  rw [writeKey, trace_bind, run_osMkdirAll]
  rcases t.mkdirAll_cases (names_resolve (dir (keyPath root k))) with
    ⟨hno, heq⟩ | ⟨⟨q, hq, hf⟩, heq⟩
  · have hget : ∀ x, (t.mkdirs _ (names_resolve (dir (keyPath root k)))).get x =
        if x <+: (keyAt root k).dropLast then some .dir else t.get x := by
      intro x
      rw [Tree.get_mkdirs, hparent]
    have hwt := (writable_after_mkdirs (names_keyAt root k) hget).1
    rw [hparent] at hno
    rw [heq]
    generalize t.mkdirs _ (names_resolve (dir (keyPath root k))) = t₁ at hwt ⊢
    rw [← hwt, and_iff_right hno, ← htmp]
    -- the open succeeds exactly on a writable path; the write follows it at once
    rcases t₁.createTrunc_cases (resolve (tmpPath root k)) with ⟨hw, hopen⟩ | ⟨hw, e, hopen⟩
    · simp [osMkdirAll, osWriteFile, trace, handle, hopen, hw]
    · simp [osMkdirAll, osWriteFile, trace, handle, hopen, hw]
  · rw [hparent] at hq
    rw [heq]
    refine iff_of_false ?_ (fun h => hf (h.1 q hq))
    simp [osMkdirAll, trace]

/-- The value of a key is written exactly when the apply gets to it. -/
theorem write_mem_writeKeys_iff {ks : List GoString} (hsorted : ks.Pairwise (· < ·))
    (hinj : ∀ k₁ ∈ ks, ∀ k₂ ∈ ks, keyAt root k₁ = keyAt root k₂ → k₁ = k₂) {k : GoString}
    (hk : k ∈ ks) (t : Tree) :
    .write (tmpPath root k) (ps.value k) ∈ trace handle (writeKeys root ps ks) t ↔
      ReachedIn root ks (t.get · = some .dir) (t.fileAt · ≠ none) k := by
  induction ks generalizing t with
  | nil => exact absurd hk List.not_mem_nil
  | cons k₀ ks ih =>
    obtain ⟨hmin, hsorted'⟩ := List.pairwise_cons.mp hsorted
    have hinj' : ∀ k₁ ∈ ks, ∀ k₂ ∈ ks, keyAt root k₁ = keyAt root k₂ → k₁ = k₂ :=
      fun a ha b hb => hinj a (List.mem_cons_of_mem _ ha) b (List.mem_cons_of_mem _ hb)
    rw [trace_writeKeys_cons, List.mem_append]
    rcases List.mem_cons.mp hk with rfl | hk'
    · -- its own write; the later keys write elsewhere
      have hrest : ∀ t', .write (tmpPath root k) (ps.value k) ∉
          trace handle (writeKeys root ps ks) t' := by
        intro t' hmem
        refine (issues_writeKeys fun l hl => not_write_of_ne hroot ?_).trace _ hmem _ rfl
        intro heq
        have hkl := hinj k List.mem_cons_self l (List.mem_cons_of_mem _ hl) heq
        exact List.lt_irrefl k (hkl ▸ hmin l hl)
      rw [write_mem_writeKey_iff hroot, reachedIn_first_iff hsorted, tmpAt_eq hroot]
      split_ifs <;> simp [hrest]
    · have hne : keyAt root k ≠ keyAt root k₀ := fun heq =>
        List.lt_irrefl k₀ ((hinj k hk k₀ List.mem_cons_self heq) ▸ hmin k hk')
      rw [or_iff_right fun hmem => (not_write_of_ne hroot hne).trace _ hmem _ rfl]
      rcases run_writeKey_cases hroot ps k₀ t with ⟨hready, hok, hget⟩ | ⟨hnot, herr⟩
      · rw [if_pos hok, ih hsorted' hinj' hk', reachedIn_cons_iff hsorted hroot hready hget hk']
      · rw [if_neg herr]
        refine iff_of_false List.not_mem_nil fun h => hnot ?_
        exact (first_passes_iff hsorted hroot).mp (h.1 k₀ List.mem_cons_self (hmin k hk'))

end Writes

/-! ## A whole apply -/

/-- A file that the garbage collection keeps. -/
def Kept (root : GoString) (ps : PropertySet) (t : Tree) (q : Path) : Prop :=
  t.fileAt q ≠ none ∧
    (resolve root <+: q → ext (absPath q) = tmpSuffix ∨ ∃ k ∈ ps.keys, keyAt root k = q)

/-- An apply to the tree `t` gets to the key: the root is a directory or can be made one, nothing is
in the way of the keys before it, and nothing in the way of its own temporary file. -/
def Reached (root : GoString) (ps : PropertySet) (t : Tree) (k : GoString) : Prop :=
  RootReady root t ∧
    ReachedIn root ps.keys (fun q => q <+: resolve root ∨ t.get q = some .dir) (Kept root ps t) k

section Apply

variable {root : GoString} {ps : PropertySet} {t : Tree}

theorem dir_after_gc {t' : Tree} (hget : ∀ x, t'.get x = nodeAfterGc root ps t x) (q : Path) :
    t'.get q = some .dir ↔ q <+: resolve root ∨ t.get q = some .dir := by
  by_cases hq : q <+: resolve root
  · rw [hget, nodeAfterGc, if_pos hq]
    simp [hq]
  · rw [dir_after_gc_iff hget hq, or_iff_right hq]

/-- The pruning writes nothing. -/
theorem write_mem_syncFiles {fuel : Nat} {path data : GoString} :
    .write path data ∈ trace handle (propertiesApplyer fuel root ps) t ↔
      .write path data ∈ trace handle (syncFiles root ps) t := by
  rw [propertiesApplyer, trace_bind, List.mem_append]
  refine or_iff_left ?_
  cases (run handle (syncFiles root ps) t).1 with
  | some err => exact List.not_mem_nil
  | none =>
    intro hmem
    rw [trace_bind, List.mem_append] at hmem
    rcases hmem with hprune | hret
    · exact (quiet_pruneEmptyDirs fuel root root).trace _ hprune
    · split at hret <;> exact absurd hret List.not_mem_nil

/-- An apply that cannot make the root writes nothing. -/
theorem not_write_of_not_ready (hready : ¬ RootReady root t) {path data : GoString} :
    .write path data ∉ trace handle (syncFiles root ps) t := by
  rw [syncFiles, trace_bind, run_osMkdirAll]
  rcases t.mkdirAll_cases (names_resolve root) with ⟨hno, -⟩ | ⟨-, heq⟩
  · exact absurd hno hready
  · rw [heq]
    simp [osMkdirAll, trace]

variable (hroot : isAbs root = true)
include hroot

theorem file_after_gc {t' : Tree} (hready : RootReady root t)
    (hget : ∀ x, t'.get x = nodeAfterGc root ps t x) (q : Path) :
    t'.fileAt q ≠ none ↔ Kept root ps t q := by
  by_cases hup : q <+: resolve root
  · have hdir : t'.fileAt q = none :=
      Tree.fileAt_eq_none.mpr (.inr ((dir_after_gc hget q).mpr (.inl hup)))
    exact iff_of_false (fun h => h hdir) (fun h => h.1 (hready q hup))
  · by_cases hdown : resolve root <+: q
    · have hne : q ≠ resolve root := fun heq => hup (heq ▸ List.prefix_rfl)
      rw [fileAt_after_gc hroot hget hdown hne, Kept]
      split_ifs with hkeep
      · simp [hkeep]
      · simp [hkeep, hdown]
    · have hsame : t'.get q = t.get q := by
        rw [hget, nodeAfterGc, if_neg hup, if_neg fun h => hdown h.1]
      rw [Tree.fileAt_congr hsame, Kept]
      simp [hdown]

/-- The writes of an apply are those of the keys that it gets to. -/
theorem write_mem_apply_iff (fuel : Nat)
    (hinj : ∀ k₁ ∈ ps.sortedKeys, ∀ k₂ ∈ ps.sortedKeys, keyAt root k₁ = keyAt root k₂ → k₁ = k₂)
    {k : GoString} (hk : k ∈ ps.keys) :
    .write (tmpPath root k) (ps.value k) ∈ trace handle (propertiesApplyer fuel root ps) t ↔
      Reached root ps t k := by
  rw [write_mem_syncFiles]
  by_cases hready : RootReady root t
  · obtain ⟨t', hget, -, htrace⟩ := run_syncFiles ps hready
    rw [htrace, write_mem_writeKeys_iff hroot (sortedKeys_sorted ps) hinj (mem_sortedKeys.mpr hk),
      Reached, and_iff_right hready]
    exact reachedIn_congr (fun _ => mem_sortedKeys) (dir_after_gc hget)
      (file_after_gc hroot hready hget)
  · exact iff_of_false (not_write_of_not_ready hready) (fun h => hready h.1)

end Apply

end WeftAgent.Properties
