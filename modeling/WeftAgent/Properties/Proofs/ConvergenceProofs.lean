import WeftAgent.Properties.Proofs.ContainmentProofs
import WeftAgent.Properties.Proofs.MirrorProofs

/-!
# When an apply succeeds

An apply returns nil exactly when no directory stands where a file has to go, or its temporary file,
and no file that the garbage collection keeps stands where a directory has to go.
-/

namespace WeftAgent.Properties

open WeftAgent.Go WeftAgent.Go.Filepath WeftAgent.Effect WeftAgent.Fs

/-! ## The root directory -/

/-- The root is a directory or can be made one. -/
def RootReady (root : GoString) (t : Tree) : Prop :=
  ∀ q, q <+: resolve root → t.fileAt q = none

section Root

variable {root : GoString} {ps : PropertySet} {t : Tree}

/-- As long as the root is a directory, the tree answers as an operating system does. -/
theorem osAnswers_handle (hdir : t.get (resolve root) = some .dir) {op : FsOp}
    (h : ApplyCall root ps op) : OsAnswers op (handle op t).1 := by
  cases h with
  | readDir d => exact fun e he => (mem_readDir he).2
  | walk =>
    simp only [handle, Tree.walkDir, hdir, reduceCtorEq, ↓reduceIte]
    intro e he hkind
    rcases List.mem_cons.mp he with rfl | he
    · simp [Tree.kindAt, hdir, Node.kind] at hkind
    · obtain ⟨q, hq, rfl⟩ := List.mem_map.mp he
      simp only [List.mem_filter, Tree.mem_below, decide_eq_true_eq] at hq
      rw [StrictlyBelow, resolve_absPath (t.names q hq.1.2)]
      exact ⟨hq.1.1, hq.2.symm⟩
  | mkdirRoot | remove _ | mkdirParent _ | create _ | write _ | rename _ | removeTmp _ => trivial

variable (hroot : isAbs root = true)
include hroot

theorem dir_of_applyCall (hv : ps.validate = none) (hdir : t.get (resolve root) = some .dir)
    {op : FsOp} (h : ApplyCall root ps op) : (handle op t).2.get (resolve root) = some .dir := by
  refine dir_handle hdir (fun path heq => ?_) (fun path heq => ?_)
  · subst heq
    cases h with
    | remove h => exact h.2.symm
    | removeTmp hk => exact tmpAt_ne_root hv hk (tmpAt_eq hroot _)
  · subst heq
    cases h

/-- An apply of a validated set leaves the root a directory. -/
theorem apply_dir (hv : ps.validate = none) (hready : RootReady root t) :
    (apply root ps t).2.get (resolve root) = some .dir := by
  -- the first call makes the root; from then on every call keeps it
  obtain ⟨k, hk⟩ : ∃ k, propertiesApplyer (pruneFuel root ps t) root ps =
      .call (.mkdirAll root) k := ⟨_, rfl⟩
  have hissues : Issues OsAnswers (ApplyCall root ps) (fun _ => True)
      (propertiesApplyer (pruneFuel root ps t) root ps) := issues_propertiesApplyer _
  rw [apply]
  rw [hk] at hissues ⊢
  have hmkdir : handle (.mkdirAll root) t = (none, t.mkdirs _ (names_resolve root)) := by
    rcases t.mkdirAll_cases (names_resolve root) with ⟨-, heq⟩ | ⟨⟨q, hq, hf⟩, -⟩
    · exact heq
    · exact absurd (hready q hq) hf
  rw [run_call, hmkdir]
  refine ((hissues.2 none trivial).run (I := fun t => t.get (resolve root) = some .dir)
    (fun op s hs hop => osAnswers_handle hs hop)
    (fun op s hs hop => dir_of_applyCall hroot hv hs hop) ?_).1.final
  simp

theorem applyAll_ready {sets : List PropertySet} (hsets : ∀ s ∈ sets, s.validate = none)
    (hready : RootReady root t) : RootReady root (applyAll root sets t) := by
  induction sets generalizing t with
  | nil => exact hready
  | cons s sets ih =>
    refine ih (fun x hx => hsets x (List.mem_cons_of_mem _ hx)) (fun q hq => ?_)
    have hdir := apply_dir hroot (hsets s List.mem_cons_self) hready
    exact Tree.fileAt_eq_none.mpr (.inr (Tree.dir_of_prefix_dir hq hdir))

end Root

/-! ## Writing all keys -/

/-- Nothing is in the way of writing the keys in their order: neither in the tree, nor by what the
earlier keys leave there. -/
def Clear (root : GoString) (ks : List GoString) (t : Tree) : Prop :=
  ∀ k ∈ ks,
    t.get (keyAt root k) ≠ some .dir ∧
    t.get (tmpOf (keyAt root k)) ≠ some .dir ∧
    (∀ k' ∈ ks, k' < k → ¬ tmpOf (keyAt root k) <+: (keyAt root k').dropLast) ∧
    ∀ q, q <+: (keyAt root k).dropLast → t.fileAt q ≠ none →
      ∃ k' ∈ ks, k' < k ∧ q = tmpOf (keyAt root k')

section Writes

variable {root : GoString} {ps : PropertySet}

/-- After a successful write of the first key, the others meet the same obstacles as before, its
directories, and no longer its temporary file. -/
theorem clear_cons_iff {k₀ : GoString} {ks : List GoString} (hsorted : (k₀ :: ks).Pairwise (· < ·))
    (hfree : ∀ k₁ ∈ k₀ :: ks, ∀ k₂ ∈ k₀ :: ks, keyAt root k₁ <+: keyAt root k₂ → k₁ = k₂)
    {t t' : Tree} {v : GoString} (hready : Ready t (keyAt root k₀))
    (hget : ∀ x, t'.get x = nodeAfterWrite t (keyAt root k₀) v x) :
    Clear root ks t' ↔ Clear root (k₀ :: ks) t := by
  have hmin := (List.pairwise_cons.mp hsorted).1
  have hfirst : ∀ k' ∈ k₀ :: ks, ¬ k' < k₀ := by
    intro k' hk' hlt
    rcases List.mem_cons.mp hk' with rfl | hk'
    · exact List.lt_irrefl _ hlt
    · exact List.lt_irrefl _ (List.lt_trans hlt (hmin k' hk'))
  have hnp : ∀ k ∈ ks, ¬ keyAt root k₀ <+: keyAt root k ∧ ¬ keyAt root k <+: keyAt root k₀ := by
    intro k hk
    have hne : k₀ ≠ k := fun heq => List.lt_irrefl k (heq ▸ hmin k hk)
    exact ⟨fun h => hne (hfree k₀ List.mem_cons_self k (List.mem_cons_of_mem _ hk) h),
      fun h => hne (hfree k (List.mem_cons_of_mem _ hk) k₀ List.mem_cons_self h).symm⟩
  have hhead : (∀ k' ∈ k₀ :: ks, k' < k₀ → ¬ tmpOf (keyAt root k₀) <+: (keyAt root k').dropLast) ∧
      ∀ q, q <+: (keyAt root k₀).dropLast → t.fileAt q ≠ none →
        ∃ k' ∈ k₀ :: ks, k' < k₀ ∧ q = tmpOf (keyAt root k') :=
    ⟨fun k' hk' hlt => absurd hlt (hfirst k' hk'),
      fun q hq hf => absurd (hready.1 q hq) hf⟩
  -- the first key itself is ready; for the others the conditions agree one by one
  rw [Clear, Clear, List.forall_mem_cons]
  refine Iff.trans ?_ (and_iff_right ⟨hready.2.2, hready.2.1, hhead⟩).symm
  refine forall₂_congr fun k hk => ?_
  obtain ⟨h₁, h₂⟩ := hnp k hk
  have hlt := hmin k hk
  have hdir : ¬ keyAt root k <+: (keyAt root k₀).dropLast :=
    fun h => h₂ (h.trans (List.dropLast_prefix _))
  rw [ne_eq, dir_after_write_iff hready hget, or_iff_right hdir, ne_eq,
    dir_after_write_iff hready hget, List.forall_mem_cons]
  refine and_congr_right fun _ => ?_
  have hfiles : (∀ q, q <+: (keyAt root k).dropLast → t'.fileAt q ≠ none →
      ∃ k' ∈ ks, k' < k ∧ q = tmpOf (keyAt root k')) ↔
      ∀ q, q <+: (keyAt root k).dropLast → t.fileAt q ≠ none →
        ∃ k' ∈ k₀ :: ks, k' < k ∧ q = tmpOf (keyAt root k') := by
    refine forall₂_congr fun q hq => ?_
    have hne : q ≠ keyAt root k₀ := fun h => h₁ (h ▸ hq.trans (List.dropLast_prefix _))
    rw [file_after_write_iff hready hget, or_iff_right hne, List.exists_mem_cons_iff]
    constructor
    · intro h hf
      by_cases htmp : q = tmpOf (keyAt root k₀)
      · exact .inl ⟨hlt, htmp⟩
      · exact .inr (h ⟨htmp, hf⟩)
    · rintro h ⟨htmp, hf⟩
      exact (h hf).resolve_left fun h' => htmp h'.2
  rw [hfiles]
  tauto

theorem writeKeys_nil_iff (hroot : isAbs root = true) {ks : List GoString}
    (hsorted : ks.Pairwise (· < ·))
    (hfree : ∀ k₁ ∈ ks, ∀ k₂ ∈ ks, keyAt root k₁ <+: keyAt root k₂ → k₁ = k₂) (t : Tree) :
    (run handle (writeKeys root ps ks) t).1 = none ↔ Clear root ks t := by
  induction ks generalizing t with
  | nil => simp [writeKeys, Clear]
  | cons k₀ ks ih =>
    obtain ⟨hmin, hsorted'⟩ := List.pairwise_cons.mp hsorted
    have ih' := ih hsorted'
      (fun a ha b hb => hfree a (List.mem_cons_of_mem _ ha) b (List.mem_cons_of_mem _ hb))
    rw [run_writeKeys_cons]
    rcases run_writeKey_cases hroot ps k₀ t with ⟨hready, hok, hget⟩ | ⟨hnot, herr⟩
    · rw [if_pos hok, ih', clear_cons_iff hsorted hfree hready hget]
    · rw [if_neg herr]
      refine iff_of_false herr (fun hclear => hnot ?_)
      obtain ⟨hk, ht, -, hfile⟩ := hclear k₀ List.mem_cons_self
      refine ⟨fun q hq => ?_, ht, hk⟩
      -- a file above the first key could only be excused by a key before it
      by_contra hf
      obtain ⟨k', hk', hlt, -⟩ := hfile q hq hf
      rcases List.mem_cons.mp hk' with rfl | hk'
      · exact List.lt_irrefl _ hlt
      · exact List.lt_irrefl _ (List.lt_trans hlt (hmin k' hk'))

end Writes

/-! ## A whole apply -/

/-- Nothing in the tree is in the way of the set: for every key no directory stands at its file or
its temporary file, nor does an earlier key make one there, and no file with the extension of
temporary files stands above it in the property tree, unless an earlier key uses that file up. -/
def Unblocked (root : GoString) (ps : PropertySet) (t : Tree) : Prop :=
  ∀ k ∈ ps.keys,
    t.get (keyAt root k) ≠ some .dir ∧
    t.get (tmpAt root k) ≠ some .dir ∧
    (∀ k' ∈ ps.keys, k' < k → ¬ tmpAt root k <+: (keyAt root k').dropLast) ∧
    ∀ q, resolve root <+: q → q <+: (keyAt root k).dropLast → t.fileAt q ≠ none →
      ext (absPath q) = tmpSuffix → ∃ k' ∈ ps.keys, k' < k ∧ q = tmpAt root k'

section Apply

variable {root : GoString} (hroot : isAbs root = true) {ps : PropertySet} {t : Tree}

/-- The garbage collection removes no directory below the root. -/
theorem dir_after_gc_iff {t' : Tree} (hget : ∀ x, t'.get x = nodeAfterGc root ps t x) {x : Path}
    (hx : ¬ x <+: resolve root) : t'.get x = some .dir ↔ t.get x = some .dir := by
  rw [hget, nodeAfterGc, if_neg hx]
  split_ifs with h
  · refine iff_of_false (by simp) (fun hdir => h.2.1 ?_)
    exact Tree.fileAt_eq_none.mpr (.inr hdir)
  · rfl

include hroot

/-- A file above the file of a key survives the garbage collection exactly when it is below the root
and has the extension of temporary files. -/
theorem file_above_after_gc_iff {t' : Tree} (hready : RootReady root t)
    (hget : ∀ x, t'.get x = nodeAfterGc root ps t x)
    (hfree : ∀ k₁ ∈ ps.keys, ∀ k₂ ∈ ps.keys, keyAt root k₁ <+: keyAt root k₂ → k₁ = k₂)
    {k : GoString} (hk : k ∈ ps.keys) (hbelow : resolve root <+: keyAt root k)
    (hne : keyAt root k ≠ []) {q : Path} (hq : q <+: (keyAt root k).dropLast) :
    t'.fileAt q ≠ none ↔
      resolve root <+: q ∧ t.fileAt q ≠ none ∧ ext (absPath q) = tmpSuffix := by
  by_cases hup : q <+: resolve root
  · -- at or above the root there are directories only
    have hdir : t'.get q = some .dir := by rw [hget, nodeAfterGc, if_pos hup]
    exact iff_of_false (fun h => h (Tree.fileAt_eq_none.mpr (.inr hdir)))
      (fun h => h.2.1 (hready q hup))
  · have hpre : resolve root <+: q :=
      (List.prefix_or_prefix_of_prefix (hq.trans (List.dropLast_prefix _)) hbelow).resolve_left hup
    have hqne : q ≠ resolve root := fun heq => hup (heq ▸ List.prefix_rfl)
    have hnokey : ¬ ∃ k' ∈ ps.keys, keyAt root k' = q := by
      rintro ⟨k', hk', rfl⟩
      have hkk := hfree k' hk' k hk (hq.trans (List.dropLast_prefix _))
      rw [hkk] at hq
      exact not_prefix_dropLast hne hq
    rw [fileAt_after_gc hroot hget hpre hqne]
    by_cases hext : ext (absPath q) = tmpSuffix
    · simp [hext, hpre]
    · simp [hext, hnokey]

theorem clear_after_gc_iff {t' : Tree} (hready : RootReady root t)
    (hget : ∀ x, t'.get x = nodeAfterGc root ps t x)
    (hfree : ∀ k₁ ∈ ps.keys, ∀ k₂ ∈ ps.keys, keyAt root k₁ <+: keyAt root k₂ → k₁ = k₂)
    (hbelow : ∀ k ∈ ps.keys, resolve root <+: keyAt root k ∧ keyAt root k ≠ resolve root) :
    Clear root ps.sortedKeys t' ↔ Unblocked root ps t := by
  simp only [Clear, Unblocked, mem_sortedKeys, tmpAt_eq hroot]
  refine forall₂_congr fun k hk => ?_
  obtain ⟨hpre, hne⟩ := hbelow k hk
  have hlen : (resolve root).length < (keyAt root k).length :=
    lt_of_le_of_ne hpre.length_le fun h => hne (hpre.eq_of_length h).symm
  have hnonempty : keyAt root k ≠ [] := List.length_pos_iff.mp (by omega)
  have hk' : ¬ keyAt root k <+: resolve root := fun h => by
    have := h.length_le
    omega
  have ht' : ¬ tmpOf (keyAt root k) <+: resolve root := fun h => by
    have := h.length_le
    rw [length_tmpOf hnonempty] at this
    omega
  refine and_congr (not_congr (dir_after_gc_iff hget hk'))
    (and_congr (not_congr (dir_after_gc_iff hget ht')) (and_congr_right fun _ => ?_))
  have hfile := fun {q : Path} (hq : q <+: (keyAt root k).dropLast) =>
    file_above_after_gc_iff hroot hready hget hfree hk hpre hnonempty hq
  constructor
  · intro h q hroot' hq hf hext
    exact h q hq ((hfile hq).mpr ⟨hroot', hf, hext⟩)
  · intro h q hq hf
    obtain ⟨hroot', hf', hext⟩ := (hfile hq).mp hf
    exact h q hroot' hq hf' hext

/-- In every run of applies of validated sets from a tree with room for the root directory, the
apply of a validated set whose keys clean to different paths below the root, none above another,
returns nil exactly when nothing in the tree is in its way. -/
theorem apply_returns_nil_iff {t₀ : Tree} (hready : RootReady root t₀) (sets : List PropertySet)
    (hsets : ∀ s ∈ sets, s.validate = none) (hv : ps.validate = none)
    (hfree : ∀ k₁ ∈ ps.keys, ∀ k₂ ∈ ps.keys, elements k₁ <+: elements k₂ → k₁ = k₂)
    (hnonroot : ∀ k ∈ ps.keys, clean k ≠ lit ".") :
    (apply root ps (applyAll root sets t₀)).1 = .returned none ↔
      Unblocked root ps (applyAll root sets t₀) := by
  have hready' := applyAll_ready hroot hsets hready
  have hkey : ∀ k ∈ ps.keys, keyAt root k = resolve root ++ elements k := fun k hk => by
    rw [(clean_of_validate hv hk).1]
    exact keyAt_of_no_dotdot root (no_dotdot_of_validate hv hk)
  have hfree' : ∀ k₁ ∈ ps.keys, ∀ k₂ ∈ ps.keys, keyAt root k₁ <+: keyAt root k₂ → k₁ = k₂ := by
    intro k₁ hk₁ k₂ hk₂ h
    rw [hkey k₁ hk₁, hkey k₂ hk₂, List.prefix_append_right_inj] at h
    exact hfree k₁ hk₁ k₂ hk₂ h
  have hbelow : ∀ k ∈ ps.keys, resolve root <+: keyAt root k ∧ keyAt root k ≠ resolve root := by
    intro k hk
    rw [hkey k hk]
    refine ⟨List.prefix_append _ _, fun heq => hnonroot k hk ?_⟩
    have hnames : keyNames k = [] := by
      rw [← (clean_of_validate hv hk).1]
      simpa using heq
    exact (clean_eq_dot_iff hv hk).mpr hnames
  obtain ⟨t', hget, hrun, -⟩ := run_syncFiles ps hready'
  rw [apply_nil_iff, hrun, writeKeys_nil_iff hroot (sortedKeys_sorted ps)
    (fun k₁ hk₁ k₂ hk₂ => hfree' k₁ (mem_sortedKeys.mp hk₁) k₂ (mem_sortedKeys.mp hk₂)),
    clear_after_gc_iff hroot hready' hget hfree' hbelow]

end Apply

/-- The root directory can be made in the empty tree. -/
theorem rootReady_empty (root : GoString) : RootReady root Tree.empty := by
  intro q _
  rw [Tree.fileAt_eq_none]
  by_cases hq : q = []
  · exact .inr (by simp [Tree.empty, hq])
  · exact .inl (by simp [Tree.empty, hq])

/-- A key beside a directory that an earlier set left behind is written. -/
theorem sibling_key_converges :
    (apply propertiesDir (.singleton (lit "c") (lit "y"))
      (applyAll propertiesDir [.singleton (lit "a/b") (lit "x")] Tree.empty)).1 =
        .returned none := by
  have hinits : ∀ q ∈ (keyAt propertiesDir (lit "c")).dropLast.inits,
      (applyAll propertiesDir [.singleton (lit "a/b") (lit "x")] Tree.empty).fileAt q = none := by
    decide
  refine (apply_returns_nil_iff (by decide) (rootReady_empty _) _ (by decide) (by decide)
    (by decide) (by decide)).mpr ?_
  intro k hk
  obtain rfl : k = lit "c" := by simpa [PropertySet.keys, PropertySet.singleton] using hk
  exact ⟨by decide, by decide, by decide, fun q _ hq hf =>
    absurd (hinits q ((List.mem_inits _ _).mpr hq)) hf⟩

/-- The directory that a nested key leaves behind blocks the key of its own name: the apply fails,
and so does its repetition. -/
theorem leftover_dir_blocks :
    (PropertySet.singleton (lit "a/b") (lit "x")).validate = none ∧
    (PropertySet.singleton (lit "a") (lit "y")).validate = none ∧
    (apply propertiesDir (.singleton (lit "a") (lit "y"))
      (applyAll propertiesDir [.singleton (lit "a/b") (lit "x")] Tree.empty)).1 ≠
        .returned none ∧
    (apply propertiesDir (.singleton (lit "a") (lit "y"))
      (applyAll propertiesDir [.singleton (lit "a/b") (lit "x"), .singleton (lit "a") (lit "y")]
        Tree.empty)).1 ≠ .returned none := by
  decide

end WeftAgent.Properties
