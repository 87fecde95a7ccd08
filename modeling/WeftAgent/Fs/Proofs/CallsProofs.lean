import WeftAgent.Fs.Calls

/-!
# What the file system calls do

For each call: when it succeeds, and what is at each path afterwards. `fileAt` is the view of the
regular files alone; making directories and removing empty ones does not change it.
-/

namespace WeftAgent.Fs

open WeftAgent.Go WeftAgent.Go.Filepath WeftAgent.Effect

/-! ## Resolved paths -/

theorem resolve_eq_elements {p : GoString} (h : isAbs p = true) : resolve p = elements p := by
  rw [elements, h]
  rfl

@[simp] theorem resolve_absPath {p : Path} (h : Names p) : resolve (absPath p) = p := by
  rw [resolve_eq_elements (isAbs_absPath p), elements_absPath h]

theorem foldl_push_rooted_climb (u : Nat) :
    (List.replicate u dotdot).foldl (push true) [] = [] := by
  induction u with
  | zero => rfl
  | succ u ih =>
    rw [List.replicate_succ, List.foldl_cons, push_rooted_dotdot names_nil]
    exact ih

/-- Cleaning a path does not change where it leads. -/
theorem resolve_clean (p : GoString) : resolve (clean p) = resolve p := by
  have hslash : ∀ e ∈ p.splitOn slash, slash ∉ e := fun _ he => slash_not_mem_of_mem_splitOn he
  cases habs : isAbs p with
  | true =>
    rw [clean, habs, resolve_eq_elements habs]
    exact resolve_absPath (names_elements habs)
  | false =>
    obtain ⟨u, d, hd, hrel, hrooted⟩ := foldl_push_climb names_nil hslash
    have hel : elements p = List.replicate u dotdot ++ d := by rw [elements, habs, hrel]
    have hparts : Parts (elements p) := parts_elements p
    rw [clean, habs, resolve, resolve, hrooted, List.take_nil, List.nil_append]
    by_cases hne : elements p = []
    · have hnil : d = [] := (List.append_eq_nil_iff.mp (hel ▸ hne)).2
      rw [hne, hnil]
      decide
    · have hsplit : (render false (elements p)).splitOn slash = elements p := by
        rw [render, if_neg (by decide), if_neg hne,
          List.splitOn_intercalate slash (fun e he => (hparts e he).2.2) hne]
      rw [hsplit, hel, List.foldl_append, foldl_push_rooted_climb, foldl_push_names hd,
        List.nil_append]

/-- Joining leads on from where the first path leads. -/
theorem resolve_join (root k : GoString) : resolve (join [root, k]) = within (resolve root) k := by
  by_cases hroot : root = []
  · subst hroot
    by_cases hk : k = []
    · subst hk
      decide
    · rw [join_nil_left hk, resolve_clean]
      rfl
  · rw [join_eq_clean hroot, resolve_clean, resolve, List.splitOn_append_cons_self,
      List.foldl_append]
    rfl

/-- Joining the name of an entry to the path of its directory. -/
theorem resolve_join_name (d : GoString) {n : GoString} (hn : IsName n) :
    resolve (join [d, n]) = resolve d ++ [n] := by
  rw [resolve_join, within_name hn]

/-- An entry of a directory at or below the root lies below the root. -/
theorem strictlyBelow_join {root d n : GoString} (hbelow : resolve root <+: resolve d)
    (hn : IsName n) : StrictlyBelow root (join [d, n]) := by
  rw [StrictlyBelow, resolve_join_name d hn]
  refine ⟨hbelow.trans (List.prefix_append _ _), fun heq => ?_⟩
  have hlen := hbelow.length_le
  rw [heq] at hlen
  simp at hlen

namespace Tree

variable {t : Tree} {p q : Path} {c : GoString}

/-! ## Views -/

theorem fileAt_eq_some : t.fileAt p = some c ↔ t.get p = some (.file c) := by
  unfold fileAt
  cases h : t.get p with
  | none => simp
  | some node => cases node <;> simp

theorem fileAt_eq_none : t.fileAt p = none ↔ t.get p = none ∨ t.get p = some .dir := by
  unfold fileAt
  cases h : t.get p with
  | none => simp
  | some node => cases node <;> simp

theorem get_ne_none_of_fileAt (h : t.fileAt p = some c) : t.get p ≠ none := by
  rw [fileAt_eq_some.mp h]
  simp

theorem fileAt_congr {t' : Tree} (h : t'.get p = t.get p) : t'.fileAt p = t.fileAt p := by
  unfold fileAt
  rw [h]

theorem dir_of_strict_prefix {rest : Path} (hrest : rest ≠ []) (h : t.get (p ++ rest) ≠ none) :
    t.get p = some .dir := by
  induction rest using List.reverseRecOn with
  | nil => exact absurd rfl hrest
  | append_singleton rest n ih =>
    rw [← List.append_assoc] at h
    have hdir := t.parent_dir _ _ h
    rcases eq_or_ne rest [] with rfl | hne
    · rwa [List.append_nil] at hdir
    · exact ih hne (by rw [hdir]; simp)

theorem dir_of_prefix (hpq : p <+: q) (hne : p ≠ q) (h : t.get q ≠ none) : t.get p = some .dir := by
  obtain ⟨rest, rfl⟩ := hpq
  exact dir_of_strict_prefix (fun hr => hne (by simp [hr])) h

/-- Whatever is at or above a directory is a directory. -/
theorem dir_of_prefix_dir (hpq : p <+: q) (h : t.get q = some .dir) : t.get p = some .dir := by
  rcases eq_or_ne p q with rfl | hne
  · exact h
  · exact dir_of_prefix hpq hne (by rw [h]; simp)

theorem childNames_of_file (h : t.fileAt p = some c) : t.childNames p = [] := by
  refine List.eq_nil_iff_forall_not_mem.mpr (fun n hn => ?_)
  have hdir := t.parent_dir p n (mem_childNames.mp hn)
  rw [fileAt_eq_some.mp h] at hdir
  cases hdir

theorem writable_of_file (h : t.fileAt p = some c) : t.Writable p := by
  have hget := fileAt_eq_some.mp h
  have hne : p ≠ [] := by
    rintro rfl
    rw [t.root_dir] at hget
    cases hget
  refine ⟨hne, ?_, by rw [hget]; simp, t.names p (get_ne_none_of_fileAt h)⟩
  refine dir_of_prefix (q := p) (List.dropLast_prefix p) (fun heq => ?_) (get_ne_none_of_fileAt h)
  have hlen := congrArg List.length heq
  rw [List.length_dropLast] at hlen
  have := List.length_pos_iff.mpr hne
  omega

theorem mem_below : q ∈ t.below p ↔ p <+: q ∧ t.get q ≠ none := by
  simp only [below, List.mem_insertionSort, List.mem_dedup, List.mem_filter, decide_eq_true_eq]
  exact ⟨fun h => h.2, fun h => ⟨t.mem_dom q h.2, h⟩⟩

theorem nodup_below : (t.below p).Nodup :=
  (List.perm_insertionSort _ _).nodup_iff.mpr (List.nodup_dedup _)

theorem length_le_height (h : t.get p ≠ none) : p.length ≤ t.height := by
  have hmem : p.length ∈ t.dom.map List.length := List.mem_map_of_mem (t.mem_dom p h)
  have hmax : ∀ (ns : List Nat) (n : Nat), n ∈ ns → n ≤ ns.foldr max 0 := by
    intro ns
    induction ns with
    | nil => simp
    | cons m ns ih =>
      intro n hn
      rcases List.mem_cons.mp hn with rfl | hn
      · exact le_max_left _ _
      · exact (ih n hn).trans (le_max_right _ _)
  exact hmax _ _ hmem

/-! ## Updates -/

@[simp] theorem get_mkdirs (hp : Names p) (x : Path) :
    (t.mkdirs p hp).get x = if x <+: p then some .dir else t.get x := rfl

@[simp] theorem get_putFile (hp : t.Writable p) (x : Path) :
    (t.putFile p c hp).get x = if x = p then some (.file c) else t.get x := rfl

@[simp] theorem get_delete (hne : p ≠ []) (hp : t.childNames p = []) (x : Path) :
    (t.delete p hne hp).get x = if x = p then none else t.get x := rfl

@[simp] theorem get_move (hp : t.get p = some (.file c)) (hq : t.Writable q) (x : Path) :
    (t.move p q c hp hq).get x =
      if x = q then some (.file c) else if x = p then none else t.get x := rfl

/-! ## Making directories -/

/-- `MkdirAll` either meets a file and changes nothing, or makes the path and its ancestors
directories. -/
theorem mkdirAll_cases (t : Tree) {p : Path} (hp : Names p) :
    ((∀ q, q <+: p → t.fileAt q = none) ∧ t.mkdirAll p hp = (none, t.mkdirs p hp)) ∨
      ((∃ q, q <+: p ∧ t.fileAt q ≠ none) ∧ t.mkdirAll p hp = (some .ENOTDIR, t)) := by
  unfold mkdirAll
  split_ifs with h
  · right
    obtain ⟨q, hq, hfile⟩ := List.any_eq_true.mp h
    exact ⟨⟨q, (List.mem_inits q p).mp hq, by simpa [Option.isSome_iff_ne_none] using hfile⟩, rfl⟩
  · left
    refine ⟨fun q hq => ?_, rfl⟩
    by_contra hne
    refine h (List.any_eq_true.mpr ⟨q, (List.mem_inits q p).mpr hq, ?_⟩)
    simpa [Option.isSome_iff_ne_none] using hne

theorem fileAt_mkdirAll (hp : Names p) (x : Path) :
    (t.mkdirAll p hp).2.fileAt x = t.fileAt x := by
  rcases t.mkdirAll_cases hp with ⟨hno, heq⟩ | ⟨-, heq⟩
  · rw [heq]
    by_cases hx : x <+: p
    · rw [hno x hx, fileAt_eq_none]
      simp [hx]
    · exact fileAt_congr (by simp [hx])
  · rw [heq]

theorem get_mkdirAll_of_ne_none (hp : Names p) {x : Path} (hx : t.get x ≠ none) :
    (t.mkdirAll p hp).2.get x = t.get x := by
  rcases t.mkdirAll_cases hp with ⟨hno, heq⟩ | ⟨-, heq⟩
  · rw [heq, get_mkdirs]
    split_ifs with hpre
    · rcases fileAt_eq_none.mp (hno x hpre) with h | h
      · exact absurd h hx
      · exact h.symm
    · rfl
  · rw [heq]

/-! ## Removing -/

/-- `Remove` either deletes a node without entries, or answers an error and changes nothing. -/
theorem remove_cases (t : Tree) (p : Path) :
    (∃ (hne : p ≠ []) (hp : t.childNames p = []), t.get p ≠ none ∧
        t.remove p = (none, t.delete p hne hp)) ∨
      ∃ e, t.remove p = (some e, t) ∧ (e = .ENOENT → t.get p = none) := by
  unfold remove
  split_ifs with h₁ h₂ h₃
  · exact .inr ⟨_, rfl, fun _ => h₁⟩
  · exact .inr ⟨_, rfl, fun h => by cases h⟩
  · exact .inl ⟨h₂, h₃, h₁, rfl⟩
  · exact .inr ⟨_, rfl, fun h => by cases h⟩

theorem remove_of_file (h : t.fileAt p = some c) :
    (t.remove p).1 = none ∧ ∀ x, (t.remove p).2.get x = if x = p then none else t.get x := by
  have hget := get_ne_none_of_fileAt h
  have hne := (writable_of_file h).1
  have hp := childNames_of_file h
  have heq : t.remove p = (none, t.delete p hne hp) := by simp [remove, hget, hne, hp]
  rw [heq]
  exact ⟨rfl, fun x => rfl⟩

theorem get_remove_of_ne {x : Path} (hx : x ≠ p) : (t.remove p).2.get x = t.get x := by
  rcases t.remove_cases p with ⟨hne, hp, -, heq⟩ | ⟨e, heq, -⟩
  · rw [heq, get_delete, if_neg hx]
  · rw [heq]

/-- Removing a path that is no regular file keeps every file. -/
theorem fileAt_remove_of_not_file (h : t.fileAt p = none) (x : Path) :
    (t.remove p).2.fileAt x = t.fileAt x := by
  rcases eq_or_ne x p with rfl | hx
  · rcases t.remove_cases x with ⟨hne, hp, -, heq⟩ | ⟨e, heq, -⟩
    · rw [heq, h, fileAt_eq_none]
      exact .inl (by simp)
    · rw [heq]
  · exact fileAt_congr (get_remove_of_ne hx)

/-- What is a file after a removal was the same file before it. -/
theorem fileAt_of_fileAt_remove {x : Path} (h : (t.remove p).2.fileAt x = some c) :
    t.fileAt x = some c := by
  rcases t.remove_cases p with ⟨hne, hp, -, heq⟩ | ⟨e, heq, -⟩
  · rw [heq, fileAt_eq_some, get_delete] at h
    split_ifs at h with hx
    exact fileAt_eq_some.mpr h
  · rwa [heq] at h

/-! ## Writing and renaming -/

theorem createTrunc_of_writable (hp : t.Writable p) :
    t.createTrunc p = (none, t.putFile p [] hp) := by
  simp [createTrunc, hp.2.2.1, hp]

/-- Opening a file for writing succeeds exactly when a file can stand there. -/
theorem createTrunc_cases (t : Tree) (p : Path) :
    (∃ hp : t.Writable p, t.createTrunc p = (none, t.putFile p [] hp)) ∨
      ¬ t.Writable p ∧ ∃ e, t.createTrunc p = (some e, t) := by
  by_cases hp : t.Writable p
  · exact .inl ⟨hp, createTrunc_of_writable hp⟩
  · refine .inr ⟨hp, ?_⟩
    unfold createTrunc
    split_ifs
    · exact ⟨_, rfl⟩
    · exact ⟨_, rfl⟩

/-- Writing to a file that is there replaces its content. -/
theorem write_of_file {d : GoString} (h : t.fileAt p = some c) :
    t.write p d = (none, t.putFile p d (writable_of_file h)) := by
  have hcond : (t.fileAt p).isSome ∧ t.Writable p := ⟨by rw [h]; rfl, writable_of_file h⟩
  simp [write, hcond]

/-- A rename moves a regular file or changes nothing. -/
theorem rename_cases (t : Tree) (p q : Path) :
    (t.rename p q).2 = t ∨ ∃ c hp hq, t.rename p q = (none, t.move p q c hp hq) := by
  unfold rename
  split
  · exact .inl rfl
  · exact .inl rfl
  · rename_i c hp
    split_ifs with h₁ h₂ hq
    · exact .inl rfl
    · exact .inl rfl
    · exact .inr ⟨c, hp, hq, rfl⟩
    · exact .inl rfl

/-- Renaming a file: onto a directory it fails, onto anything else with a directory as parent it
succeeds. -/
theorem rename_of_file (h : t.fileAt p = some c) (hpq : p ≠ q) :
    (∃ hq : t.Writable q, t.rename p q = (none, t.move p q c (fileAt_eq_some.mp h) hq)) ∨
      ¬ t.Writable q ∧ ∃ e, t.rename p q = (some e, t) := by
  have hget := fileAt_eq_some.mp h
  unfold rename
  split
  · rename_i hnone
    rw [hget] at hnone
    cases hnone
  · rename_i hdir
    rw [hget] at hdir
    cases hdir
  · rename_i c' hc'
    obtain rfl : c' = c := by
      rw [hget] at hc'
      simpa using hc'.symm
    by_cases hq : t.Writable q
    · left
      exact ⟨hq, by simp [hq.2.2.1, hpq, hq]⟩
    · right
      refine ⟨hq, ?_⟩
      split_ifs
      · exact ⟨_, rfl⟩
      · exact ⟨_, rfl⟩

/-- A rename that succeeds brings the content along, also when both paths are the same. -/
theorem fileAt_rename_of_nil (h : t.fileAt p = some c) (hnil : (t.rename p q).1 = none) :
    (t.rename p q).2.fileAt q = some c := by
  rcases eq_or_ne p q with rfl | hne
  · rcases t.rename_cases p p with heq | ⟨c', hp, hq, heq⟩
    · rw [heq, h]
    · rw [heq, fileAt_eq_some, get_move, if_pos rfl, ← hp]
      exact fileAt_eq_some.mp h
  · rcases rename_of_file h hne with ⟨hq, heq⟩ | ⟨-, e, heq⟩
    · rw [heq, fileAt_eq_some, get_move, if_pos rfl]
    · rw [heq] at hnil
      cases hnil

end Tree

/-! ## The calls as programs -/

theorem run_osMkdirAll (path : GoString) (t : Tree) :
    run handle (osMkdirAll path) t = t.mkdirAll (resolve path) (names_resolve path) := rfl

theorem run_osRename (old new : GoString) (t : Tree) :
    run handle (osRename old new) t = t.rename (resolve old) (resolve new) := rfl

/-- `os.WriteFile` puts the file there, exactly when a file can stand there. -/
theorem run_osWriteFile_cases (path data : GoString) (t : Tree) :
    (t.Writable (resolve path) ∧ (run handle (osWriteFile path data) t).1 = none ∧
        ∀ x, (run handle (osWriteFile path data) t).2.get x =
          if x = resolve path then some (.file data) else t.get x) ∨
      (¬ t.Writable (resolve path) ∧ ∃ e, run handle (osWriteFile path data) t = (some e, t)) := by
  simp only [osWriteFile, run_call, handle]
  rcases t.createTrunc_cases (resolve path) with ⟨hw, heq⟩ | ⟨hw, e, heq⟩
  · left
    have hfile : (t.putFile (resolve path) [] hw).fileAt (resolve path) = some [] := by
      simp [Tree.fileAt_eq_some]
    rw [heq]
    simp only [run_call, handle, Tree.write_of_file hfile, run_ret]
    refine ⟨hw, trivial, fun x => ?_⟩
    rw [Tree.get_putFile, Tree.get_putFile]
    split_ifs <;> rfl
  · right
    rw [heq]
    exact ⟨hw, e, rfl⟩

/-! ## Directories stay -/

/-- A directory stays a directory under every call that does not remove it. -/
theorem dir_handle {op : FsOp} {t : Tree} {p : Path} (h : t.get p = some .dir)
    (hremove : ∀ path, op = .remove path → resolve path ≠ p)
    (hremoveAll : ∀ path, op ≠ .removeAll path) : (handle op t).2.get p = some .dir := by
  have hne : ∀ {q}, t.Writable q → p ≠ q := by
    rintro q hq rfl
    exact hq.2.2.1 h
  have hput : ∀ {q c} (hq : t.Writable q), (t.putFile q c hq).get p = some .dir := by
    intro q c hq
    rw [Tree.get_putFile, if_neg (hne hq), h]
  cases op with
  | mkdirAll path =>
    exact (Tree.get_mkdirAll_of_ne_none (names_resolve path) (by rw [h]; simp)).trans h
  | remove path => exact (Tree.get_remove_of_ne (hremove path rfl).symm).trans h
  | removeAll path => exact absurd rfl (hremoveAll path)
  | createTrunc path =>
    rcases t.createTrunc_cases (resolve path) with ⟨hq, heq⟩ | ⟨-, e, heq⟩
    · simp only [handle, heq]
      exact hput hq
    · simpa only [handle, heq] using h
  | write path data =>
    simp only [handle, Tree.write]
    split_ifs with hq
    · exact hput hq.2
    · exact h
  | rename old new =>
    simp only [handle]
    rcases t.rename_cases (resolve old) (resolve new) with heq | ⟨c, hp, hq, heq⟩
    · rw [heq, h]
    · have hold : p ≠ resolve old := by
        rintro rfl
        rw [h] at hp
        cases hp
      rw [heq, Tree.get_move, if_neg (hne hq), if_neg hold, h]
  | readFile path => exact h
  | stat path => exact h
  | readDir path => exact h
  | walkDir path => exact h

/-! ## What a call leaves alone -/

/-- On the way down to a path, the directories are those of its existing part. -/
theorem Tree.prefix_existing_iff {t : Tree} {p q : Path} (hq : q <+: p) :
    q <+: t.existing p ↔ t.get q = some .dir := by
  have hdir : t.get (t.existing p) = some .dir :=
    Nat.findGreatest_spec (P := fun n => t.get (p.take n) = some .dir) (Nat.zero_le _) t.root_dir
  constructor
  · intro h
    exact Tree.dir_of_prefix_dir h hdir
  · intro h
    have htake : p.take q.length = q := (List.prefix_iff_eq_take.mp hq).symm
    have hle : q.length ≤ Nat.findGreatest (fun n => t.get (p.take n) = some .dir) p.length :=
      Nat.le_findGreatest hq.length_le (by rw [htake]; exact h)
    rw [← htake]
    exact List.take_prefix_take_left hle

/-- Nothing changes at a path that the call does not touch. -/
theorem get_handle_of_not_touches {op : FsOp} {t : Tree} {base q : Path}
    (hbase : t.get base = some .dir) (hq : ¬ Touches base op q) :
    (handle op t).2.get q = t.get q := by
  cases op with
  | mkdirAll path =>
    rcases t.mkdirAll_cases (names_resolve path) with ⟨-, heq⟩ | ⟨-, heq⟩
    · simp only [handle, heq, Tree.get_mkdirs]
      split_ifs with hpre
      · -- a directory on the way that is not touched is above `base`, and was there
        have hup : q <+: base := not_not.mp fun h => hq ⟨hpre, h⟩
        exact (Tree.dir_of_prefix_dir hup hbase).symm
      · rfl
    · simp only [handle, heq]
  | remove path => exact Tree.get_remove_of_ne hq
  | removeAll path =>
    have hq' : ¬ resolve path <+: q := hq
    simp only [handle, Tree.removeAll]
    split_ifs <;> simp [Tree.prune, hq']
  | createTrunc path =>
    have hq' : q ≠ resolve path := hq
    rcases t.createTrunc_cases (resolve path) with ⟨hw, heq⟩ | ⟨-, e, heq⟩
    · simp [handle, heq, hq']
    · simp [handle, heq]
  | write path data =>
    have hq' : q ≠ resolve path := hq
    simp only [handle, Tree.write]
    split_ifs <;> simp [hq']
  | rename old new =>
    obtain ⟨hold, hnew⟩ := not_or.mp hq
    simp only [handle]
    rcases t.rename_cases (resolve old) (resolve new) with heq | ⟨c, hp, hw, heq⟩
    · rw [heq]
    · rw [heq, Tree.get_move, if_neg hnew, if_neg hold]
  | readFile path => rfl
  | stat path => rfl
  | readDir path => rfl
  | walkDir path => rfl

end WeftAgent.Fs
