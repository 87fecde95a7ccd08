import WeftAgent.Properties.Proofs.SyncProofs

/-!
# When the tree mirrors the set

After an apply that returned nil, the regular files below the root are exactly those of the set,
unless temporary names are in play: a file left over with the extension of temporary files is never
collected, and the temporary file of one key can be the file of another.
-/

namespace WeftAgent.Properties

open WeftAgent.Go WeftAgent.Go.Filepath WeftAgent.Effect WeftAgent.Fs

/-- The regular files below the root are those of the keys, with their values. -/
def Mirrors (root : GoString) (ps : PropertySet) (t : Tree) : Prop :=
  ∀ q, resolve root <+: q → q ≠ resolve root → ∀ c,
    t.fileAt q = some c ↔ ∃ k ∈ ps.keys, keyAt root k = q ∧ ps.value k = c

/-- Every file in the tree with the extension of temporary files is the file or the temporary file
of a key, and a key whose file is the temporary file of another key is written after it. -/
def TmpClean (root : GoString) (ps : PropertySet) (t : Tree) : Prop :=
  (∀ q, resolve root <+: q → q ≠ resolve root → t.fileAt q ≠ none → ext (absPath q) = tmpSuffix →
    ∃ k ∈ ps.keys, absPath q = keyPath root k ∨ absPath q = tmpPath root k) ∧
  (∀ k₁ ∈ ps.keys, ∀ k₂ ∈ ps.keys, keyPath root k₂ = tmpPath root k₁ → k₁ < k₂)

/-! ## The files after the writes -/

/-- The view of the files after one more key was written. -/
def written (root : GoString) (ps : PropertySet) (f : Path → Option GoString) (k : GoString) :
    Path → Option GoString := fun x =>
  if x = keyAt root k then some (ps.value k) else if x = tmpOf (keyAt root k) then none else f x

section Writes

variable {root : GoString} {ps : PropertySet}

/-- If all writes succeed, each of them sets its file and removes its temporary file. -/
theorem fileAt_run_writeKeys (hroot : isAbs root = true) {ks : List GoString} {t : Tree}
    (hnil : (run handle (writeKeys root ps ks) t).1 = none) (x : Path) :
    (run handle (writeKeys root ps ks) t).2.fileAt x =
      ks.foldl (written root ps) t.fileAt x := by
  induction ks generalizing t with
  | nil => rfl
  | cons k ks ih =>
    rw [run_writeKeys_cons] at hnil ⊢
    rcases run_writeKey_cases hroot ps k t with ⟨hready, hok, hget⟩ | ⟨-, herr⟩
    · have hview : (run handle (writeKey root ps k) t).2.fileAt = written root ps t.fileAt k := by
        funext y
        rw [written, Tree.fileAt, hget, nodeAfterWrite]
        split_ifs with h₁ h₂ h₃
        · rfl
        · rfl
        · exact (hready.1 y h₃).symm
        · rfl
      rw [if_pos hok] at hnil ⊢
      rw [ih hnil, List.foldl_cons, hview]
    · rw [if_neg herr] at hnil
      exact absurd hnil herr

variable {ks : List GoString} {f : Path → Option GoString} {x : Path}

theorem foldl_written_concat (l : GoString) :
    (ks ++ [l]).foldl (written root ps) f x =
      if x = keyAt root l then some (ps.value l) else if x = tmpOf (keyAt root l) then none
      else ks.foldl (written root ps) f x := by
  rw [List.foldl_append]
  rfl

/-- The file of a key keeps the key's value, if it is the temporary file of earlier keys at most. -/
theorem foldl_written_of_key (hsorted : ks.Pairwise (· < ·))
    (hdist : ∀ k₁ ∈ ks, ∀ k₂ ∈ ks, keyAt root k₁ = keyAt root k₂ → k₁ = k₂) {k : GoString}
    (hk : k ∈ ks) (htmp : ∀ k' ∈ ks, keyAt root k = tmpOf (keyAt root k') → k' < k) :
    ks.foldl (written root ps) f (keyAt root k) = some (ps.value k) := by
  -- from the last key on, since the last write to a path decides
  induction ks using List.reverseRecOn with
  | nil => simp at hk
  | append_singleton ks l ih =>
    rw [foldl_written_concat]
    by_cases hl : keyAt root k = keyAt root l
    · rw [if_pos hl, hdist k hk l (by simp) hl]
    · have hkl : k ≠ l := fun heq => hl (by rw [heq])
      have hk' : k ∈ ks := by simpa [hkl] using hk
      have hlt : k < l := (List.pairwise_append.mp hsorted).2.2 k hk' l (by simp)
      have hnt : keyAt root k ≠ tmpOf (keyAt root l) := fun heq =>
        List.lt_irrefl k (List.lt_trans hlt (htmp l (by simp) heq))
      rw [if_neg hl, if_neg hnt]
      exact ih (List.pairwise_append.mp hsorted).1
        (fun a ha b hb => hdist a (List.mem_append_left _ ha) b (List.mem_append_left _ hb)) hk'
        (fun k' hk' => htmp k' (List.mem_append_left _ hk'))

/-- A temporary file of a key is gone, unless it is the file of a key that is written later. -/
theorem foldl_written_of_tmp (hsorted : ks.Pairwise (· < ·))
    (hkey : ∀ k ∈ ks, x = keyAt root k → ∃ k' ∈ ks, k < k' ∧ x = tmpOf (keyAt root k'))
    (htmp : ∃ k ∈ ks, x = tmpOf (keyAt root k)) :
    ks.foldl (written root ps) f x = none := by
  induction ks using List.reverseRecOn with
  | nil => simp at htmp
  | append_singleton ks l ih =>
    obtain ⟨hsorted', -, hl⟩ := List.pairwise_append.mp hsorted
    rw [foldl_written_concat]
    have hnk : x ≠ keyAt root l := by
      intro heq
      obtain ⟨k', hk', hlt, -⟩ := hkey l (by simp) heq
      rcases List.mem_append.mp hk' with hk' | hk'
      · exact List.lt_irrefl l (List.lt_trans hlt (hl k' hk' l (by simp)))
      · obtain rfl : k' = l := by simpa using hk'
        exact List.lt_irrefl k' hlt
    rw [if_neg hnk]
    split_ifs with ht
    · rfl
    · have hback : ∀ k ∈ ks ++ [l], x = tmpOf (keyAt root k) → k ∈ ks := by
        intro k hk heq
        rcases List.mem_append.mp hk with hk | hk
        · exact hk
        · obtain rfl : k = l := by simpa using hk
          exact absurd heq ht
      refine ih hsorted' (fun k hk heq => ?_) ?_
      · obtain ⟨k', hk', hlt, heq'⟩ := hkey k (List.mem_append_left _ hk) heq
        exact ⟨k', hback k' hk' heq', hlt, heq'⟩
      · obtain ⟨k, hk, heq⟩ := htmp
        exact ⟨k, hback k hk heq, heq⟩

theorem foldl_written_of_other (hkey : ∀ k ∈ ks, x ≠ keyAt root k)
    (htmp : ∀ k ∈ ks, x ≠ tmpOf (keyAt root k)) : ks.foldl (written root ps) f x = f x := by
  induction ks using List.reverseRecOn with
  | nil => rfl
  | append_singleton ks l ih =>
    rw [foldl_written_concat, if_neg (hkey l (by simp)), if_neg (htmp l (by simp))]
    exact ih (fun k hk => hkey k (List.mem_append_left _ hk))
      (fun k hk => htmp k (List.mem_append_left _ hk))

/-- The last key of a file decides its content, if no temporary file is in play. -/
theorem foldl_written_of_not_tmp (htmp : ∀ k ∈ ks, x ≠ tmpOf (keyAt root k)) :
    ks.foldl (written root ps) f x =
      ((ks.filter fun k => keyAt root k = x).getLast?.map ps.value).or (f x) := by
  induction ks using List.reverseRecOn with
  | nil => rfl
  | append_singleton ks l ih =>
    have ih' := ih fun k hk => htmp k (List.mem_append_left _ hk)
    rw [foldl_written_concat, if_neg (htmp l (by simp)), List.filter_append, ih']
    by_cases hl : keyAt root l = x
    · simp [hl]
    · simp [hl, Ne.symm hl]

end Writes

/-! ## The files after an apply -/

section Apply

variable {root : GoString} (hroot : isAbs root = true) {ps : PropertySet} {t : Tree}
include hroot

/-- The files below the root after the garbage collection: those that are wanted, and those with the
extension of temporary files. -/
theorem fileAt_after_gc {t' : Tree} (h : ∀ x, t'.get x = nodeAfterGc root ps t x) {q : Path}
    (hq : resolve root <+: q) (hne : q ≠ resolve root) :
    t'.fileAt q = if ext (absPath q) = tmpSuffix ∨ ∃ k ∈ ps.keys, keyAt root k = q then t.fileAt q
      else none := by
  have hnot : ¬ q <+: resolve root := fun hpre => hne (hpre.eq_of_length_le hq.length_le)
  have hwant : Names q → (absPath q ∈ wantMap root ps ↔ ∃ k ∈ ps.keys, keyAt root k = q) := by
    intro hn
    rw [mem_wantMap]
    refine exists_congr fun k => and_congr_right fun _ => ?_
    rw [keyPath_eq hroot]
    exact ⟨absPath_inj (names_keyAt root k) hn, fun heq => by rw [heq]⟩
  have hnames : t.fileAt q ≠ none → Names q := fun hf => by
    obtain ⟨c, hc⟩ := Option.ne_none_iff_exists'.mp hf
    exact t.names q (Tree.get_ne_none_of_fileAt hc)
  have hget : t'.get q = if resolve root <+: q ∧ t.fileAt q ≠ none ∧
      ext (absPath q) ≠ tmpSuffix ∧ absPath q ∉ wantMap root ps then none else t.get q := by
    rw [h, nodeAfterGc, if_neg hnot]
  by_cases hkeep : ext (absPath q) = tmpSuffix ∨ ∃ k ∈ ps.keys, keyAt root k = q
  · rw [if_pos hkeep]
    refine Tree.fileAt_congr (hget.trans (if_neg ?_))
    rintro ⟨-, hf, hext, hw⟩
    exact hw ((hwant (hnames hf)).mpr (hkeep.resolve_left hext))
  · rw [if_neg hkeep]
    rw [not_or] at hkeep
    by_cases hf : t.fileAt q = none
    · rw [← hf]
      exact Tree.fileAt_congr (hget.trans (if_neg fun hc => hc.2.1 hf))
    · rw [Tree.fileAt_eq_none]
      exact .inl (hget.trans (if_pos ⟨hq, hf, hkeep.1, fun hw =>
        hkeep.2 ((hwant (hnames hf)).mp hw)⟩))

theorem fileAt_of_nil {fuel : Nat}
    (hnil : (run handle (propertiesApplyer fuel root ps) t).1 = .returned none) :
    ∃ f : Path → Option GoString,
      (∀ x, (run handle (propertiesApplyer fuel root ps) t).2.fileAt x =
        ps.sortedKeys.foldl (written root ps) f x) ∧
      ∀ q, resolve root <+: q → q ≠ resolve root →
        f q = if ext (absPath q) = tmpSuffix ∨ ∃ k ∈ ps.keys, keyAt root k = q then t.fileAt q
          else none := by
  obtain ⟨hsync, hfiles⟩ := syncFiles_of_nil hnil
  have hready : ∀ q, q <+: resolve root → t.fileAt q = none := by
    intro q hq
    by_contra hf
    exact syncFiles_ne_nil_of_file ps hq hf hsync
  obtain ⟨t', hget, hrun, -⟩ := run_syncFiles ps hready
  refine ⟨t'.fileAt, fun x => ?_, fun q hq hne => fileAt_after_gc hroot hget hq hne⟩
  rw [hfiles.files, hrun]
  rw [hrun] at hsync
  exact fileAt_run_writeKeys hroot hsync x

theorem mirrors_of_tmpClean (hv : ps.validate = none)
    (hdist : ∀ k₁ ∈ ps.keys, ∀ k₂ ∈ ps.keys, clean k₁ = clean k₂ → k₁ = k₂)
    (hnil : (apply root ps t).1 = .returned none) (hclean : TmpClean root ps t) :
    Mirrors root ps (apply root ps t).2 := by
  obtain ⟨f, hfiles, hgc⟩ := fileAt_of_nil hroot hnil
  have hinj := keyAt_inj_of_clean root hv hdist
  have hsorted := sortedKeys_sorted ps
  intro q hq hne c
  rw [apply, hfiles]
  by_cases hkey : ∃ k ∈ ps.keys, keyAt root k = q
  · obtain ⟨k, hk, rfl⟩ := hkey
    rw [foldl_written_of_key hsorted hinj (mem_sortedKeys.mpr hk) (fun k' hk' heq =>
      hclean.2 k' (mem_sortedKeys.mp hk') k hk ((keyPath_eq_tmpPath_iff hroot).mpr heq))]
    constructor
    · intro hc
      exact ⟨k, hk, rfl, by simpa using hc⟩
    · rintro ⟨k', hk', heq, rfl⟩
      rw [hinj k' (mem_sortedKeys.mpr hk') k (mem_sortedKeys.mpr hk) heq]
  · -- not the file of a key: the writes have used it up, or it was there and has been collected
    have hnone : ps.sortedKeys.foldl (written root ps) f q = none := by
      by_cases htmp : ∃ k ∈ ps.sortedKeys, q = tmpOf (keyAt root k)
      · refine foldl_written_of_tmp hsorted (fun k hk heq => ?_) htmp
        exact absurd ⟨k, mem_sortedKeys.mp hk, heq.symm⟩ hkey
      · rw [foldl_written_of_other (fun k hk heq => hkey ⟨k, mem_sortedKeys.mp hk, heq.symm⟩)
          (fun k hk heq => htmp ⟨k, hk, heq⟩), hgc q hq hne]
        split_ifs with hkeep
        · -- the collection spares temporary files, but the set accounts for each of them
          by_contra hf
          have hext := hkeep.resolve_right hkey
          obtain ⟨c', hc'⟩ := Option.ne_none_iff_exists'.mp hf
          have hn := t.names q (Tree.get_ne_none_of_fileAt hc')
          obtain ⟨k, hk, heq | heq⟩ := hclean.1 q hq hne hf hext
          · rw [keyPath_eq hroot] at heq
            exact hkey ⟨k, hk, (absPath_inj hn (names_keyAt root k) heq).symm⟩
          · rw [tmpPath_eq hroot] at heq
            exact htmp ⟨k, mem_sortedKeys.mpr hk,
              absPath_inj hn (names_tmpOf (names_keyAt root k)) heq⟩
        · rfl
    rw [hnone]
    simp only [reduceCtorEq, false_iff]
    rintro ⟨k, hk, heq, -⟩
    exact hkey ⟨k, hk, heq⟩

theorem tmpClean_of_mirrors (hv : ps.validate = none)
    (hdist : ∀ k₁ ∈ ps.keys, ∀ k₂ ∈ ps.keys, clean k₁ = clean k₂ → k₁ = k₂)
    (hnil : (apply root ps t).1 = .returned none) (hmirror : Mirrors root ps (apply root ps t).2) :
    TmpClean root ps t := by
  obtain ⟨f, hfiles, hgc⟩ := fileAt_of_nil hroot hnil
  have hinj := keyAt_inj_of_clean root hv hdist
  refine ⟨fun q hq hne hf hext => ?_, fun k₁ hk₁ k₂ hk₂ heq => ?_⟩
  · -- a stray temporary file is spared by the collection and touched by no write
    by_contra hno
    push Not at hno
    obtain ⟨c, hc⟩ := Option.ne_none_iff_exists'.mp hf
    have hkeep : (apply root ps t).2.fileAt q = some c := by
      rw [apply, hfiles, foldl_written_of_other, hgc q hq hne, if_pos (.inl hext), hc]
      · intro k hk heq
        refine (hno k (mem_sortedKeys.mp hk)).1 ?_
        rw [heq, keyPath_eq hroot]
      · intro k hk heq
        refine (hno k (mem_sortedKeys.mp hk)).2 ?_
        rw [heq, tmpPath_eq hroot]
    obtain ⟨k, hk, rfl, -⟩ := (hmirror q hq hne c).mp hkeep
    exact (hno k hk).1 (keyPath_eq hroot k).symm
  · -- written before `k₁`, the file of `k₂` would be renamed away with `k₁`
    rw [keyPath_eq_tmpPath_iff hroot] at heq
    by_contra hlt
    have hne : k₁ ≠ k₂ := fun h => tmpOf_ne _ (h ▸ heq.symm)
    have hlt' : k₂ < k₁ := by
      by_contra hge
      exact hne (List.le_antisymm (List.not_lt.mp hge) (List.not_lt.mp hlt))
    have hgone : (apply root ps t).2.fileAt (keyAt root k₂) = none := by
      rw [apply, hfiles]
      refine foldl_written_of_tmp (sortedKeys_sorted ps) (fun k hk hkeq => ?_)
        ⟨k₁, mem_sortedKeys.mpr hk₁, heq⟩
      rw [← hinj k₂ (mem_sortedKeys.mpr hk₂) k hk hkeq]
      exact ⟨k₁, mem_sortedKeys.mpr hk₁, hlt', heq⟩
    have hbelow := keyAt_of_no_dotdot root (no_dotdot_of_validate hv hk₂)
    have hstrict : keyAt root k₂ ≠ resolve root := tmpAt_ne_root hv hk₁ heq
    have hpre : resolve root <+: keyAt root k₂ := ⟨keyNames k₂, hbelow.symm⟩
    have hsome := (hmirror _ hpre hstrict (ps.value k₂)).mpr ⟨k₂, hk₂, rfl, rfl⟩
    rw [hgone] at hsome
    cases hsome

/-- After every apply that returned nil, whatever was applied before, the regular files below the
root are exactly those of the set, if and only if the tree before it and the set have no stray
temporary names. -/
theorem apply_mirrors_iff (t₀ : Tree) (sets : List PropertySet) (hv : ps.validate = none)
    (hdist : ∀ k₁ ∈ ps.keys, ∀ k₂ ∈ ps.keys, clean k₁ = clean k₂ → k₁ = k₂)
    (hnil : (apply root ps (applyAll root sets t₀)).1 = .returned none) :
    Mirrors root ps (apply root ps (applyAll root sets t₀)).2 ↔
      TmpClean root ps (applyAll root sets t₀) :=
  ⟨tmpClean_of_mirrors hroot hv hdist hnil, mirrors_of_tmpClean hroot hv hdist hnil⟩

end Apply

/-- The directory the tree is mirrored to. -/
def propertiesDir : GoString := lit "/run/weft/properties"

/-- A key may be the temporary file of another if it comes later: both values arrive. -/
theorem tmp_key_after_its_key_mirrors :
    Mirrors propertiesDir
      ((PropertySet.singleton (lit "a") (lit "x")).insert (lit "a.tmp") (lit "y"))
      (apply propertiesDir
        ((PropertySet.singleton (lit "a") (lit "x")).insert (lit "a.tmp") (lit "y"))
        (applyAll propertiesDir [.singleton (lit "b/c") (lit "z")] Tree.empty)).2 := by
  have hdom : ∀ q ∈ (applyAll propertiesDir [.singleton (lit "b/c") (lit "z")] Tree.empty).dom,
      (applyAll propertiesDir [.singleton (lit "b/c") (lit "z")] Tree.empty).fileAt q ≠ none →
        ext (absPath q) ≠ tmpSuffix := by decide
  refine (apply_mirrors_iff (by decide) Tree.empty _ (by decide) (by decide) (by decide)).mpr
    ⟨fun q _ _ hf hext => absurd hext (hdom q ?_ hf), by decide⟩
  obtain ⟨c, hc⟩ := Option.ne_none_iff_exists'.mp hf
  exact Tree.mem_dom _ q (Tree.get_ne_none_of_fileAt hc)

/-- A key with the extension of temporary files is never collected again: after the empty set was
applied the file is still there. -/
theorem tmp_key_survives_clear :
    (PropertySet.singleton (lit "a.tmp") (lit "x")).validate = none ∧
    (apply propertiesDir .empty
      (applyAll propertiesDir [.singleton (lit "a.tmp") (lit "x")] Tree.empty)).1 =
        .returned none ∧
    ¬ Mirrors propertiesDir .empty (apply propertiesDir .empty
      (applyAll propertiesDir [.singleton (lit "a.tmp") (lit "x")] Tree.empty)).2 := by
  refine ⟨by decide, by decide, fun h => ?_⟩
  obtain ⟨k, hk, -⟩ := (h (resolve propertiesDir ++ [lit "a.tmp"]) (by decide) (by decide)
    (lit "x")).mp (by decide)
  exact absurd hk (by simp [PropertySet.keys, PropertySet.empty])

end WeftAgent.Properties
