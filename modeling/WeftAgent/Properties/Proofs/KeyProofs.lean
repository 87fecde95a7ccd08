import WeftAgent.Fs.Proofs.CallsProofs
import WeftAgent.Properties.Properties

/-!
# Keys and their files

Where the file of a validated key and its temporary file are, relative to the root of the property
tree.
-/

namespace WeftAgent.Properties

open WeftAgent.Go WeftAgent.Go.Filepath WeftAgent.Fs

/-! ## Validated keys -/

theorem checkKey_eq_none_iff {k : GoString} :
    PropertySet.checkKey k = none ↔ k ≠ [] ∧ ¬ [slash] <+: k ∧ ¬ dotdot <:+: k ∧ 0 ∉ k := by
  unfold PropertySet.checkKey
  split_ifs with h₁ h₂ h₃ h₄ <;> simp_all

theorem validate_eq_none_iff {ps : PropertySet} :
    ps.validate = none ↔ ∀ k ∈ ps.keys, PropertySet.checkKey k = none :=
  List.findSome?_eq_none_iff

theorem no_dotdot_of_validate {ps : PropertySet} (hv : ps.validate = none) {k : GoString}
    (hk : k ∈ ps.keys) : dotdot ∉ k.splitOn slash := fun hdd =>
  (checkKey_eq_none_iff.mp (validate_eq_none_iff.mp hv k hk)).2.2.1 (infix_of_mem_splitOn hdd)

theorem mem_sortedKeys {ps : PropertySet} {k : GoString} : k ∈ ps.sortedKeys ↔ k ∈ ps.keys :=
  List.mem_insertionSort _

theorem nodup_keys (ps : PropertySet) : ps.keys.Nodup := ps.properties.nodupKeys

theorem sortedKeys_sorted (ps : PropertySet) : ps.sortedKeys.Pairwise (· < ·) := by
  have hle : ps.sortedKeys.Pairwise (· ≤ ·) := List.pairwise_insertionSort _ _
  have hne : ps.sortedKeys.Nodup := (List.perm_insertionSort _ _).nodup_iff.mpr (nodup_keys ps)
  refine (hle.and hne).imp (fun {a b} h => ?_)
  by_contra hlt
  exact h.2 (List.le_antisymm h.1 (List.not_lt.mp hlt))

/-! ## Temporary paths -/

/-- The path whose last name has the suffix of temporary files appended. -/
def tmpOf (p : Path) : Path := p.dropLast ++ [p.getLastD [] ++ tmpSuffix]

theorem tmpOf_concat (q : Path) (n : GoString) : tmpOf (q ++ [n]) = q ++ [n ++ tmpSuffix] := by
  simp [tmpOf]

@[simp] theorem dropLast_tmpOf (p : Path) : (tmpOf p).dropLast = p.dropLast := by
  simp [tmpOf]

theorem tmpOf_ne_nil (p : Path) : tmpOf p ≠ [] := by simp [tmpOf]

theorem tmpOf_ne (p : Path) : tmpOf p ≠ p := by
  rcases List.eq_nil_or_concat' p with rfl | ⟨q, n, rfl⟩
  · exact tmpOf_ne_nil []
  · rw [tmpOf_concat]
    intro h
    have hlast := List.append_cancel_left h
    simp [tmpSuffix, lit] at hlast

theorem length_tmpOf {p : Path} (h : p ≠ []) : (tmpOf p).length = p.length := by
  obtain ⟨q, n, rfl⟩ := (List.eq_nil_or_concat' p).resolve_left h
  simp [tmpOf_concat]

theorem not_prefix_dropLast {p : Path} (h : p ≠ []) : ¬ p <+: p.dropLast := by
  intro hpre
  have hlen := hpre.length_le
  rw [List.length_dropLast] at hlen
  have := List.length_pos_iff.mpr h
  omega

theorem isName_append_tmpSuffix {n : GoString} (h : slash ∉ n) : IsName (n ++ tmpSuffix) := by
  have hlen : (n ++ tmpSuffix).length = n.length + 4 := by
    rw [List.length_append]
    rfl
  refine ⟨fun heq => ?_, fun heq => ?_, fun heq => ?_, ?_⟩
  · rw [heq] at hlen
    simp at hlen
  · rw [heq] at hlen
    simp at hlen
  · rw [heq] at hlen
    simp [dotdot] at hlen
  · rw [List.mem_append, not_or]
    exact ⟨h, by decide⟩

theorem names_tmpOf {p : Path} (h : Names p) : Names (tmpOf p) := by
  rcases List.eq_nil_or_concat' p with rfl | ⟨q, n, rfl⟩
  · exact names_singleton (isName_append_tmpSuffix (n := []) (by simp))
  · rw [tmpOf_concat]
    exact h.left.append (names_singleton (isName_append_tmpSuffix h.last.2.2.2))

/-- Temporary files have the extension by which they are recognised. -/
theorem ext_tmpOf {p : Path} (h : Names p) : ext (absPath (tmpOf p)) = tmpSuffix := by
  have hn : slash ∉ p.getLastD [] ++ tmpSuffix := (names_tmpOf h).last.2.2.2
  exact (ext_eq_tmp_iff (q := p.dropLast) hn).mpr (List.suffix_append _ _)

theorem absPath_append_tmpSuffix (p : Path) : absPath p ++ tmpSuffix = absPath (tmpOf p) := by
  rcases List.eq_nil_or_concat' p with rfl | ⟨q, n, rfl⟩
  · decide
  · rw [tmpOf_concat, absPath_concat_append]

/-! ## The paths of a key -/

def keyAt (root k : GoString) : Path := resolve (keyPath root k)

def tmpAt (root k : GoString) : Path := resolve (tmpPath root k)

theorem names_keyAt (root k : GoString) : Names (keyAt root k) := names_resolve _

/-- The file of a validated key is at or below the root. -/
theorem keyAt_of_no_dotdot (root : GoString) {k : GoString} (hk : dotdot ∉ k.splitOn slash) :
    keyAt root k = resolve root ++ keyNames k := by
  rw [keyAt, keyPath, resolve_join, within_of_no_dotdot hk]

section Root

variable {root : GoString} (hroot : isAbs root = true)
include hroot

theorem keyPath_eq (k : GoString) : keyPath root k = absPath (keyAt root k) := by
  have hjoin := join_abs hroot k
  have hn := names_within (names_elements hroot) k
  rw [keyAt, keyPath, hjoin, resolve_absPath hn]

theorem keyAt_inj_iff {k₁ k₂ : GoString} :
    keyPath root k₁ = keyPath root k₂ ↔ keyAt root k₁ = keyAt root k₂ := by
  rw [keyPath_eq hroot, keyPath_eq hroot]
  exact ⟨absPath_inj (names_keyAt _ _) (names_keyAt _ _), fun h => by rw [h]⟩

theorem tmpPath_eq (k : GoString) : tmpPath root k = absPath (tmpOf (keyAt root k)) := by
  rw [tmpPath, keyPath_eq hroot, absPath_append_tmpSuffix]

theorem tmpAt_eq (k : GoString) : tmpAt root k = tmpOf (keyAt root k) := by
  rw [tmpAt, tmpPath_eq hroot, resolve_absPath (names_tmpOf (names_keyAt root k))]

theorem keyPath_eq_tmpPath_iff {k₁ k₂ : GoString} :
    keyPath root k₂ = tmpPath root k₁ ↔ keyAt root k₂ = tmpOf (keyAt root k₁) := by
  rw [keyPath_eq hroot, tmpPath_eq hroot]
  exact ⟨absPath_inj (names_keyAt _ _) (names_tmpOf (names_keyAt _ _)), fun h => by rw [h]⟩

theorem resolve_dir_keyPath (k : GoString) :
    resolve (dir (keyPath root k)) = (keyAt root k).dropLast := by
  have hn := names_keyAt root k
  rw [keyPath_eq hroot]
  rcases List.eq_nil_or_concat' (keyAt root k) with h | ⟨q, n, h⟩
  · rw [h]
    decide
  · rw [h] at hn ⊢
    rw [dir_absPath_concat hn, resolve_absPath hn.left, List.dropLast_concat]

end Root

/-- A validated key is a relative path. -/
theorem relative_of_validate {ps : PropertySet} (hv : ps.validate = none) {k : GoString}
    (hk : k ∈ ps.keys) : k ≠ [] ∧ isAbs k = false := by
  obtain ⟨hne, hslash, -, -⟩ := checkKey_eq_none_iff.mp (validate_eq_none_iff.mp hv k hk)
  obtain ⟨x, r, rfl⟩ := List.exists_cons_of_ne_nil hne
  have hx : x ≠ slash := by
    rintro rfl
    exact hslash ⟨r, rfl⟩
  exact ⟨hne, by simpa [isAbs] using hx⟩

/-- What a validated key cleans to: the relative path with its names. -/
theorem clean_of_validate {ps : PropertySet} (hv : ps.validate = none) {k : GoString}
    (hk : k ∈ ps.keys) : elements k = keyNames k ∧ clean k = render false (keyNames k) := by
  have hdd := no_dotdot_of_validate hv hk
  have hel : elements k = keyNames k := by
    rw [elements, foldl_push_of_no_dotdot hdd (fun _ he => slash_not_mem_of_mem_splitOn he)]
    rfl
  exact ⟨hel, by rw [clean, (relative_of_validate hv hk).2, hel]⟩

/-- A validated key cleans to `.` exactly when nothing of it is left. -/
theorem clean_eq_dot_iff {ps : PropertySet} (hv : ps.validate = none) {k : GoString}
    (hk : k ∈ ps.keys) : clean k = [dot] ↔ keyNames k = [] := by
  have hn := names_keyNames (no_dotdot_of_validate hv hk)
  rw [(clean_of_validate hv hk).2]
  constructor
  · exact fun h => render_inj (b := []) hn.parts names_nil.parts h
  · intro h
    rw [h]
    rfl

/-- Validated keys with the same file clean to the same relative path. -/
theorem clean_eq_of_keyPath_eq {root : GoString} {ps : PropertySet} (hv : ps.validate = none)
    {k₁ k₂ : GoString} (hk₁ : k₁ ∈ ps.keys) (hk₂ : k₂ ∈ ps.keys)
    (h : keyAt root k₁ = keyAt root k₂) : clean k₁ = clean k₂ := by
  rw [keyAt_of_no_dotdot root (no_dotdot_of_validate hv hk₁),
    keyAt_of_no_dotdot root (no_dotdot_of_validate hv hk₂)] at h
  rw [(clean_of_validate hv hk₁).2, (clean_of_validate hv hk₂).2, List.append_cancel_left h]

/-- A set whose keys clean to different relative paths has a file of its own for each key. -/
theorem keyAt_inj_of_clean (root : GoString) {ps : PropertySet} (hv : ps.validate = none)
    (hdist : ∀ k₁ ∈ ps.keys, ∀ k₂ ∈ ps.keys, clean k₁ = clean k₂ → k₁ = k₂) :
    ∀ k₁ ∈ ps.sortedKeys, ∀ k₂ ∈ ps.sortedKeys, keyAt root k₁ = keyAt root k₂ → k₁ = k₂ := by
  intro k₁ hk₁ k₂ hk₂ heq
  rw [mem_sortedKeys] at hk₁ hk₂
  exact hdist k₁ hk₁ k₂ hk₂ (clean_eq_of_keyPath_eq hv hk₁ hk₂ heq)

/-- The temporary file of a validated key is not the root. -/
theorem tmpAt_ne_root {root : GoString} {ps : PropertySet} (hv : ps.validate = none) {k : GoString}
    (hk : k ∈ ps.keys) {q : Path} (hq : q = tmpOf (keyAt root k)) : q ≠ resolve root := by
  rw [hq, keyAt_of_no_dotdot root (no_dotdot_of_validate hv hk)]
  rcases eq_or_ne (keyNames k) [] with hn | hn
  · rw [hn, List.append_nil]
    exact tmpOf_ne _
  · intro heq
    have hlen := congrArg List.length heq
    rw [length_tmpOf (by simp [hn]), List.length_append] at hlen
    have := List.length_pos_iff.mpr hn
    omega

/-! ## One file per key -/

/-- Validated keys have the same file, under any root, exactly when they differ only in empty and
`.` elements. -/
theorem keyPath_eq_iff (root : GoString) {ps : PropertySet} (hv : ps.validate = none)
    {k₁ k₂ : GoString} (hk₁ : k₁ ∈ ps.keys) (hk₂ : k₂ ∈ ps.keys) :
    keyPath root k₁ = keyPath root k₂ ↔ keyNames k₁ = keyNames k₂ := by
  have hpath : ∀ {k}, k ∈ ps.keys →
      keyPath root k = render (isAbs root) (elements root ++ keyNames k) := by
    intro k hk
    obtain ⟨hne, hrel⟩ := relative_of_validate hv hk
    exact join_of_no_dotdot root hne hrel (no_dotdot_of_validate hv hk)
  have hparts : ∀ {k}, k ∈ ps.keys → Parts (elements root ++ keyNames k) := fun hk =>
    (parts_elements root).append (names_keyNames (no_dotdot_of_validate hv hk)).parts
  rw [hpath hk₁, hpath hk₂]
  constructor
  · exact fun h => List.append_cancel_left (render_inj (hparts hk₁) (hparts hk₂) h)
  · intro h
    rw [h]

/-- Different keys of a validated set have different files exactly when no two of them have the
same elements, the empty ones and `.` left out. -/
theorem keyPaths_differ_iff (root : GoString) {ps : PropertySet} (hv : ps.validate = none) :
    (∀ k₁ ∈ ps.keys, ∀ k₂ ∈ ps.keys, k₁ ≠ k₂ → keyPath root k₁ ≠ keyPath root k₂) ↔
      ∀ k₁ ∈ ps.keys, ∀ k₂ ∈ ps.keys, k₁ ≠ k₂ → keyNames k₁ ≠ keyNames k₂ := by
  constructor
  · intro h k₁ hk₁ k₂ hk₂ hne heq
    exact h k₁ hk₁ k₂ hk₂ hne ((keyPath_eq_iff root hv hk₁ hk₂).mpr heq)
  · intro h k₁ hk₁ k₂ hk₂ hne heq
    exact h k₁ hk₁ k₂ hk₂ hne ((keyPath_eq_iff root hv hk₁ hk₂).mp heq)

/-- Two properties in one directory. -/
def ownerAndTier : PropertySet :=
  (PropertySet.singleton (lit "team/owner") (lit "ana")).insert (lit "team/tier") (lit "gold")

theorem ownerAndTier_paths_differ :
    ownerAndTier.validate = none ∧
      ∀ k₁ ∈ ownerAndTier.keys, ∀ k₂ ∈ ownerAndTier.keys, k₁ ≠ k₂ →
        keyPath (lit "/run/weft/properties") k₁ ≠ keyPath (lit "/run/weft/properties") k₂ :=
  ⟨by decide, (keyPaths_differ_iff (lit "/run/weft/properties") (by decide)).mpr (by decide)⟩

/-- The same name with and without a `.` element in front. -/
def ownerTwice : PropertySet :=
  (PropertySet.singleton (lit "owner") (lit "ana")).insert (lit "./owner") (lit "bo")

/-- Both spellings are accepted and name one file: the apply reports success, and the value that was
written first (of `./owner`) is overwritten. -/
theorem ownerTwice_shares_file :
    ownerTwice.validate = none ∧ lit "owner" ∈ ownerTwice.keys ∧ lit "./owner" ∈ ownerTwice.keys ∧
      keyPath (lit "/r") (lit "owner") = keyPath (lit "/r") (lit "./owner") ∧
      (apply (lit "/r") ownerTwice Tree.empty).1 = .returned none ∧
      (apply (lit "/r") ownerTwice Tree.empty).2.fileAt (keyAt (lit "/r") (lit "./owner")) =
        some (lit "ana") := by
  decide

end WeftAgent.Properties
