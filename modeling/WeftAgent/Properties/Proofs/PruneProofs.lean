import WeftAgent.Fs.Proofs.CallsProofs
import WeftAgent.Properties.Properties

/-!
# Pruning empty directories

`pruneEmptyDirs` removes directories only: at every moment of it the regular files are those there
were before. With a recursion bound above the height of the tree it returns, and of the directories
below the root exactly those without a file below them are gone.
-/

namespace WeftAgent.Properties

open WeftAgent.Go WeftAgent.Go.Filepath WeftAgent.Effect WeftAgent.Fs

/-- The tree has the same files as before and no new nodes. -/
structure Shrinks (t t' : Tree) : Prop where
  files : ∀ x, t'.fileAt x = t.fileAt x
  nodes : ∀ x, t'.get x ≠ none → t.get x ≠ none

theorem Shrinks.refl (t : Tree) : Shrinks t t := ⟨fun _ => rfl, fun _ h => h⟩

theorem Shrinks.trans {t₀ t₁ t₂ : Tree} (h₀ : Shrinks t₀ t₁) (h₁ : Shrinks t₁ t₂) :
    Shrinks t₀ t₂ :=
  ⟨fun x => (h₁.files x).trans (h₀.files x), fun x h => h₀.nodes x (h₁.nodes x h)⟩

theorem shrinks_remove {t : Tree} {p : Path} (h : t.fileAt p = none) :
    Shrinks t (t.remove p).2 := by
  refine ⟨Tree.fileAt_remove_of_not_file h, fun x hx => ?_⟩
  rcases eq_or_ne x p with rfl | hne
  · rcases t.remove_cases x with ⟨hne, hp, hget, -⟩ | ⟨e, heq, -⟩
    · exact hget
    · rwa [heq] at hx
  · rwa [Tree.get_remove_of_ne hne] at hx

/-- Reading a directory succeeds exactly on directories. -/
theorem readDir_snd_eq_none_iff {t : Tree} {p : Path} :
    (t.readDir p).2 = none ↔ t.get p = some .dir := by
  unfold Tree.readDir
  cases h : t.get p with
  | none => simp
  | some node => cases node <;> simp

theorem mem_readDir {t : Tree} {p : Path} {e : GoString × Kind} (h : e ∈ (t.readDir p).1) :
    t.get (p ++ [e.1]) ≠ none ∧ IsName e.1 := by
  unfold Tree.readDir at h
  split at h
  · simp at h
  · simp at h
  · obtain ⟨n, hn, rfl⟩ := List.mem_map.mp h
    have hget := Tree.mem_childNames.mp hn
    exact ⟨hget, (t.names _ hget).last⟩

/-- The loop over the entries keeps the files if each call of `visit` does. -/
theorem always_pruneEntries {t₀ : Tree} {visit : GoString → Prog fsSig Bool}
    (hvisit : ∀ n t, Shrinks t₀ t → Always handle (Shrinks t₀) (visit n) t)
    (es : List (GoString × Kind)) {t : Tree} (h : Shrinks t₀ t) :
    Always handle (Shrinks t₀) (pruneEntries visit es) t := by
  induction es generalizing t with
  | nil => exact h
  | cons e es ih =>
    unfold pruneEntries
    split_ifs with hd
    · have hv := hvisit e.1 t h
      refine hv.bind ?_
      cases hr : (run handle (visit e.1) t).1 with
      | true => exact ih hv.final
      | false => exact hv.final
    · exact ih h

/-- At every moment of the pruning the files are the same and there are no new nodes. -/
theorem always_pruneEmptyDirs (root : GoString) (fuel : Nat) (d : GoString) {t₀ t : Tree}
    (h : Shrinks t₀ t) : Always handle (Shrinks t₀) (pruneEmptyDirs fuel root d) t := by
  induction fuel generalizing d t with
  | zero => exact h
  | succ fuel ih =>
    simp only [pruneEmptyDirs, osReadDir, osRemove, call_bind, ret_bind, always_call, handle]
    refine ⟨h, ?_⟩
    have hdir : (t.readDir (resolve d)).2 = none → t₀.fileAt (resolve d) = none := fun hr => by
      rw [← h.files, Tree.fileAt_eq_none]
      exact .inr (readDir_snd_eq_none_iff.mp hr)
    rcases hr : t.readDir (resolve d) with ⟨entries, err⟩
    cases err with
    | some e => exact h
    | none =>
      have hloop := always_pruneEntries (fun n t' ht' => ih (join [d, n]) ht') entries h
      refine hloop.bind ?_
      have hend := hloop.final
      cases hok : (run handle (pruneEntries _ entries) t).1 with
      | false => exact hend
      | true =>
        simp only [↓reduceIte]
        split_ifs with hroot
        · exact hend
        · refine ⟨hend, ?_⟩
          simp only [handle]
          split
          · -- `d` was read as a directory, so no file goes with it
            refine ⟨hend, hend.trans (shrinks_remove ?_)⟩
            rw [hend.files]
            exact hdir (by rw [hr])
          · exact hend

/-! ## What is left of the directories -/

/-- A directory below which there is no file. -/
def Barren (t : Tree) (x : Path) : Prop :=
  t.get x = some .dir ∧ ∀ y, x <+: y → t.fileAt y = none

/-- Of the paths in `P`, the barren directories are gone; nothing else has changed. -/
structure Pruned (P : Path → Prop) (t t' : Tree) : Prop where
  gone : ∀ x, P x → Barren t x → t'.get x = none
  kept : ∀ x, (P x → ¬ Barren t x) → t'.get x = t.get x

section Pruned

variable {P Q : Path → Prop} {t t₁ t₂ : Tree} {x : Path}

theorem Pruned.refl (h : ∀ x, P x → ¬ Barren t x) : Pruned P t t :=
  ⟨fun x hx hbarren => absurd hbarren (h x hx), fun _ _ => rfl⟩

theorem Pruned.congr (h : Pruned P t t₁) (hPQ : ∀ x, Barren t x → (P x ↔ Q x)) :
    Pruned Q t t₁ :=
  ⟨fun x hx hbarren => h.gone x ((hPQ x hbarren).mpr hx) hbarren,
    fun x hx => h.kept x fun hP hbarren => hx ((hPQ x hbarren).mp hP) hbarren⟩

theorem Pruned.get_cases (h : Pruned P t t₁) (x : Path) :
    t₁.get x = t.get x ∨ P x ∧ Barren t x ∧ t₁.get x = none := by
  by_cases hx : P x ∧ Barren t x
  · exact .inr ⟨hx.1, hx.2, h.gone x hx.1 hx.2⟩
  · exact .inl (h.kept x fun hP hbarren => hx ⟨hP, hbarren⟩)

theorem Pruned.files (h : Pruned P t t₁) (x : Path) : t₁.fileAt x = t.fileAt x := by
  rcases h.get_cases x with heq | ⟨-, hbarren, hnone⟩
  · exact Tree.fileAt_congr heq
  · rw [Tree.fileAt_eq_none.mpr (.inl hnone), hbarren.2 x List.prefix_rfl]

theorem Pruned.shrinks (h : Pruned P t t₁) : Shrinks t t₁ := by
  refine ⟨h.files, fun x hx => ?_⟩
  rcases h.get_cases x with heq | ⟨-, -, hnone⟩
  · rwa [← heq]
  · exact absurd hnone hx

/-- What is barren after a pruning was barren before it, and is still there. -/
theorem Pruned.barren_iff (h : Pruned P t t₁) : Barren t₁ x ↔ Barren t x ∧ ¬ P x := by
  have hfiles : (∀ y, x <+: y → t₁.fileAt y = none) ↔ ∀ y, x <+: y → t.fileAt y = none := by
    simp only [h.files]
  constructor
  · rintro ⟨hdir, hno⟩
    rcases h.get_cases x with heq | ⟨-, -, hnone⟩
    · have hbarren : Barren t x := ⟨heq ▸ hdir, hfiles.mp hno⟩
      refine ⟨hbarren, fun hP => ?_⟩
      rw [h.gone x hP hbarren] at hdir
      cases hdir
    · rw [hnone] at hdir
      cases hdir
  · rintro ⟨hbarren, hP⟩
    exact ⟨(h.kept x fun hx => absurd hx hP).trans hbarren.1, hfiles.mpr hbarren.2⟩

/-- One pruning after another. -/
theorem Pruned.trans (h₁ : Pruned P t t₁) (h₂ : Pruned Q t₁ t₂) :
    Pruned (fun x => P x ∨ Q x) t t₂ := by
  constructor
  · intro x hx hbarren
    by_cases hP : P x
    · rw [h₂.kept x fun _ hb => (h₁.barren_iff.mp hb).2 hP, h₁.gone x hP hbarren]
    · exact h₂.gone x (hx.resolve_left hP) (h₁.barren_iff.mpr ⟨hbarren, hP⟩)
  · intro x hx
    have hQ : Q x → ¬ Barren t₁ x := fun hQ hb => hx (.inr hQ) (h₁.barren_iff.mp hb).1
    rw [h₂.kept x hQ, h₁.kept x fun hP => hx (.inl hP)]

end Pruned

section Children

variable {t : Tree} {p x : Path}

/-- On the way from a directory down to a node there is an entry of the directory. -/
theorem exists_child (hpx : p <+: x) (hne : x ≠ p) (hx : t.get x ≠ none) :
    ∃ n, n ∈ t.childNames p ∧ p ++ [n] <+: x := by
  obtain ⟨rest, rfl⟩ := hpx
  cases rest with
  | nil => exact absurd (List.append_nil p) hne
  | cons n rest =>
    have hpre : p ++ [n] <+: p ++ n :: rest := ⟨rest, by simp⟩
    refine ⟨n, Tree.mem_childNames.mpr fun hnone => ?_, hpre⟩
    rcases eq_or_ne (p ++ [n]) (p ++ n :: rest) with heq | hne'
    · rw [← heq] at hx
      exact hx hnone
    · rw [Tree.dir_of_prefix hpre hne' hx] at hnone
      cases hnone

/-- The directories among the entries that a directory is read to have. -/
theorem mem_readDir_dir_iff (hp : t.get p = some .dir) {n : GoString} :
    (n, Kind.dir) ∈ (t.readDir p).1 ↔ t.get (p ++ [n]) = some .dir := by
  simp only [Tree.readDir, hp, List.mem_map, Prod.mk.injEq, Tree.mem_childNames]
  constructor
  · rintro ⟨m, hm, rfl, hkind⟩
    cases hget : t.get (p ++ [m]) with
    | none => exact absurd hget hm
    | some node => cases node <;> simp [Tree.kindAt, hget, Node.kind] at hkind ⊢
  · intro hdir
    exact ⟨n, by simp [hdir], rfl, by simp [Tree.kindAt, hdir, Node.kind]⟩

/-- Below a directory that is read, a barren directory is the subdirectory of an entry that is read
as a directory. -/
theorem Barren.below_entry_iff (hbarren : Barren t x) (hp : t.get p = some .dir) :
    (p <+: x ∧ x ≠ p) ↔ ∃ e ∈ (t.readDir p).1, e.2 = .dir ∧ p ++ [e.1] <+: x := by
  constructor
  · rintro ⟨hpx, hne⟩
    have hget : t.get x ≠ none := by simp [hbarren.1]
    obtain ⟨n, -, hn⟩ := exists_child hpx hne hget
    exact ⟨(n, .dir), (mem_readDir_dir_iff hp).mpr (Tree.dir_of_prefix_dir hn hbarren.1), rfl, hn⟩
  · rintro ⟨e, -, -, hx⟩
    refine ⟨(List.prefix_append _ _).trans hx, ?_⟩
    rintro rfl
    have hlen := hx.length_le
    simp at hlen

/-- Without entries, a directory is barren. -/
theorem barren_of_childNames_nil (hp : t.get p = some .dir) (hnil : t.childNames p = []) :
    Barren t p := by
  refine ⟨hp, fun y hy => ?_⟩
  rcases eq_or_ne y p with rfl | hne
  · exact Tree.fileAt_eq_none.mpr (.inr hp)
  · by_contra hfile
    obtain ⟨n, hn, -⟩ := exists_child hy hne fun hnone =>
      hfile (Tree.fileAt_eq_none.mpr (.inl hnone))
    rw [hnil] at hn
    cases hn

/-- Removing a directory without entries. -/
theorem pruned_remove (hne : p ≠ []) (hp : t.get p = some .dir) (hnil : t.childNames p = []) :
    Pruned (fun x => x = p) t (t.remove p).2 := by
  have hget : ∀ x, (t.remove p).2.get x = if x = p then none else t.get x := by
    intro x
    simp [Tree.remove, hp, hne, hnil]
  refine ⟨fun x hx _ => by rw [hget, if_pos hx], fun x hx => ?_⟩
  rw [hget, if_neg]
  rintro rfl
  exact hx rfl (barren_of_childNames_nil hp hnil)

/-- Once the barren directories below it are gone, a barren directory has no entries. -/
theorem Pruned.childNames_eq_nil_iff {t₁ : Tree} (h : Pruned (fun x => p <+: x ∧ x ≠ p) t t₁)
    (hp : t.get p = some .dir) : t₁.childNames p = [] ↔ Barren t p := by
  have hp₁ : t₁.get p = some .dir := (h.kept p fun hx => absurd rfl hx.2).trans hp
  constructor
  · intro hnil
    exact (h.barren_iff.mp (barren_of_childNames_nil hp₁ hnil)).1
  · intro hbarren
    refine List.eq_nil_iff_forall_not_mem.mpr fun n hn => ?_
    have hget := Tree.mem_childNames.mp hn
    have hpre : p <+: p ++ [n] := List.prefix_append _ _
    -- the entry has no file at or below it, so it is a barren directory itself
    have hdir : t.get (p ++ [n]) = some .dir :=
      (Tree.fileAt_eq_none.mp (hbarren.2 _ hpre)).resolve_left (h.shrinks.nodes _ hget)
    have hchild : Barren t (p ++ [n]) := ⟨hdir, fun y hy => hbarren.2 y (hpre.trans hy)⟩
    exact hget (h.gone _ ⟨hpre, by simp⟩ hchild)

/-- The second look at a directory: it goes with the barren directories below it, if it is empty
by then. -/
theorem Pruned.close {t₁ : Tree} (h : Pruned (fun x => p <+: x ∧ x ≠ p) t t₁)
    (hp : t.get p = some .dir) (hne : p ≠ []) :
    Pruned (fun x => p <+: x) t (if t₁.childNames p = [] then (t₁.remove p).2 else t₁) := by
  have hp₁ : t₁.get p = some .dir := (h.kept p fun hx => absurd rfl hx.2).trans hp
  have hlast : Pruned (fun x => x = p) t₁
      (if t₁.childNames p = [] then (t₁.remove p).2 else t₁) := by
    split_ifs with hnil
    · exact pruned_remove hne hp₁ hnil
    · refine .refl fun x hx hbarren => hnil ((h.childNames_eq_nil_iff hp).mpr ?_)
      rw [hx] at hbarren
      exact (h.barren_iff.mp hbarren).1
  refine (h.trans hlast).congr fun x _ => ?_
  by_cases hx : x = p
  · simp [hx]
  · simp [hx]

end Children

/-- The loop over the entries prunes what each call of `visit` prunes. -/
theorem run_pruneEntries {t₀ : Tree} (visit : GoString → Prog fsSig Bool) {D : Path}
    {es : List (GoString × Kind)}
    (hvisit : ∀ e ∈ es, ∀ t, Shrinks t₀ t → (run handle (visit e.1) t).1 = true ∧
      Pruned (fun x => D ++ [e.1] <+: x) t (run handle (visit e.1) t).2)
    {t : Tree} (h : Shrinks t₀ t) :
    (run handle (pruneEntries visit es) t).1 = true ∧
      Pruned (fun x => ∃ e ∈ es, e.2 = .dir ∧ D ++ [e.1] <+: x) t
        (run handle (pruneEntries visit es) t).2 := by
  induction es generalizing t with
  | nil => exact ⟨rfl, .refl fun x ⟨e, he, _⟩ => absurd he List.not_mem_nil⟩
  | cons e es ih =>
    have ih' := @ih fun x hx => hvisit x (List.mem_cons_of_mem _ hx)
    unfold pruneEntries
    split_ifs with hd
    · obtain ⟨htrue, hpruned⟩ := hvisit e List.mem_cons_self t h
      obtain ⟨hrest, hpruned'⟩ := ih' (h.trans hpruned.shrinks)
      rw [run_bind, htrue]
      refine ⟨hrest, (hpruned.trans hpruned').congr fun x _ => ?_⟩
      simp [hd]
    · obtain ⟨hrest, hpruned'⟩ := ih' h
      refine ⟨hrest, hpruned'.congr fun x _ => ?_⟩
      simp [hd]

/-- With a bound above the height of the tree below the directory, the pruning returns, and the
barren directories below the directory are gone. The directory itself goes with them unless it is
the root. -/
theorem run_pruneEmptyDirs_below {root d : GoString} (hbelow : d = root ∨ StrictlyBelow root d)
    {fuel : Nat} (hfuel : 0 < fuel) {t : Tree}
    (h : ∀ x, resolve d <+: x → t.get x ≠ none → x.length < (resolve d).length + fuel) :
    (run handle (pruneEmptyDirs fuel root d) t).1 = true ∧
      Pruned (fun x => resolve d <+: x ∧ (d = root → x ≠ resolve d)) t
        (run handle (pruneEmptyDirs fuel root d) t).2 := by
  induction fuel generalizing d t with
  | zero => exact absurd hfuel (lt_irrefl 0)
  | succ fuel ih =>
    simp only [pruneEmptyDirs, osReadDir, osRemove, call_bind, ret_bind, run_call, handle]
    have hread := @readDir_snd_eq_none_iff t (resolve d)
    rcases hr : t.readDir (resolve d) with ⟨entries, err⟩
    rw [hr] at hread
    cases err with
    | some e =>
      -- there is no directory, and nothing below it
      refine ⟨rfl, .refl fun x hx hbarren => ?_⟩
      cases hread.mpr (Tree.dir_of_prefix_dir hx.1 hbarren.1)
    | none =>
      have hdir := hread.mp rfl
      have hpre : resolve root <+: resolve d := by
        rcases hbelow with rfl | hbelow
        · exact List.prefix_rfl
        · exact hbelow.1
      have hvisit : ∀ e ∈ entries, ∀ t', Shrinks t t' →
          (run handle (pruneEmptyDirs fuel root (join [d, e.1])) t').1 = true ∧
            Pruned (fun x => resolve d ++ [e.1] <+: x) t'
              (run handle (pruneEmptyDirs fuel root (join [d, e.1])) t').2 := by
        intro e he t' ht'
        obtain ⟨hget, hn⟩ := mem_readDir (t := t) (p := resolve d) (by rw [hr]; exact he)
        have hstrict := strictlyBelow_join hpre hn
        have hne : join [d, e.1] ≠ root := fun heq => hstrict.2 (by rw [heq])
        -- one level further down, the remaining tree is lower by one
        have hlower : ∀ x, resolve d ++ [e.1] <+: x → t'.get x ≠ none →
            x.length < (resolve d ++ [e.1]).length + fuel := by
          intro x hx hgetx
          have hlen := h x ((List.prefix_append _ _).trans hx) (ht'.nodes x hgetx)
          simp only [List.length_append, List.length_singleton]
          omega
        have hchild := h _ (List.prefix_append _ _) hget
        simp only [List.length_append, List.length_singleton] at hchild
        rw [← resolve_join_name d hn] at hlower ⊢
        obtain ⟨htrue, hpruned⟩ := ih (.inr hstrict) (by omega) hlower
        exact ⟨htrue, hpruned.congr fun x _ => by simp [hne]⟩
      obtain ⟨htrue, hloop⟩ :=
        run_pruneEntries (fun n => pruneEmptyDirs fuel root (join [d, n])) hvisit (Shrinks.refl t)
      rw [run_bind, htrue]
      generalize (run handle (pruneEntries _ entries) t).2 = t₁ at hloop ⊢
      have hinner : Pruned (fun x => resolve d <+: x ∧ x ≠ resolve d) t t₁ :=
        hloop.congr fun x hbarren => by rw [hbarren.below_entry_iff hdir, hr]
      simp only [↓reduceIte]
      split_ifs with hroot
      · exact ⟨rfl, hinner.congr fun x _ => by simp [hroot]⟩
      · have hne : resolve d ≠ [] := by
          intro hnil
          rw [hnil, List.prefix_nil] at hpre
          exact (hbelow.resolve_left hroot).2 (hpre.trans hnil.symm)
        have hdir₁ : t₁.get (resolve d) = some .dir :=
          (hinner.kept _ fun hx => absurd rfl hx.2).trans hdir
        have hclosed := (hinner.close hdir hne).congr
          (Q := fun x => resolve d <+: x ∧ (d = root → x ≠ resolve d)) fun x _ => by simp [hroot]
        simp only [run_call, handle, Tree.readDir, hdir₁]
        cases hnames : t₁.childNames (resolve d) with
        | nil =>
          rw [if_pos hnames] at hclosed
          exact ⟨rfl, hclosed⟩
        | cons n ns =>
          rw [if_neg (by simp [hnames])] at hclosed
          exact ⟨rfl, hclosed⟩

/-- With a bound above the height of the tree, the pruning of the root returns, and the barren
directories below the root are gone. -/
theorem run_pruneEmptyDirs (root : GoString) {t : Tree} {fuel : Nat} (hfuel : t.height < fuel) :
    (run handle (pruneEmptyDirs fuel root root) t).1 = true ∧
      Pruned (fun x => resolve root <+: x ∧ x ≠ resolve root) t
        (run handle (pruneEmptyDirs fuel root root) t).2 := by
  have hbound : ∀ x, resolve root <+: x → t.get x ≠ none →
      x.length < (resolve root).length + fuel := by
    intro x _ hx
    have hlen : x.length ≤ t.height := Tree.length_le_height hx
    omega
  obtain ⟨htrue, hpruned⟩ := run_pruneEmptyDirs_below (.inl rfl) (by omega) hbound
  exact ⟨htrue, hpruned.congr fun x _ => by simp⟩

/-- With a bound above the height of the tree, the pruning returns. The root stays, no directory
below it is left empty, files and the directories on the way to them stay, and all that goes are
directories below the root. -/
theorem prune_removes_empty_dirs (root : GoString) (t : Tree) {fuel : Nat}
    (hfuel : t.height < fuel) :
    let r := run handle (pruneEmptyDirs fuel root root) t
    r.1 = true ∧ r.2.get (resolve root) = t.get (resolve root) ∧
      (∀ x, resolve root <+: x → x ≠ resolve root → r.2.get x = some .dir →
        r.2.childNames x ≠ []) ∧
      (∀ x c, t.get x = some (.file c) → r.2.get x = some (.file c)) ∧
      (∀ x y c, t.get x = some .dir → x <+: y → t.get y = some (.file c) →
        r.2.get x = some .dir) ∧
      ∀ x, r.2.get x = t.get x ∨
        resolve root <+: x ∧ x ≠ resolve root ∧ t.get x = some .dir ∧ r.2.get x = none := by
  obtain ⟨htrue, hpruned⟩ := run_pruneEmptyDirs root hfuel
  refine ⟨htrue, hpruned.kept _ fun hx => absurd rfl hx.2, ?_, ?_, ?_, ?_⟩
  · intro x hx hne hdir hnil
    exact (hpruned.barren_iff.mp (barren_of_childNames_nil hdir hnil)).2 ⟨hx, hne⟩
  · intro x c hfile
    rw [← Tree.fileAt_eq_some] at hfile ⊢
    rw [hpruned.files, hfile]
  · intro x y c hdir hxy hfile
    rw [← hdir]
    refine hpruned.kept x fun _ hbarren => ?_
    have hnone := hbarren.2 y hxy
    rw [Tree.fileAt_eq_some.mpr hfile] at hnone
    cases hnone
  · intro x
    rcases hpruned.get_cases x with heq | ⟨⟨hx, hne⟩, hbarren, hnone⟩
    · exact .inl heq
    · exact .inr ⟨hx, hne, hbarren.1, hnone⟩

/-- A chain of directories that ends in nothing, beside a directory with a file. -/
def chainAndFile : Tree :=
  [FsOp.mkdirAll (lit "/r/a/b"), .mkdirAll (lit "/r/c"), .createTrunc (lit "/r/c/f")].foldl
    (fun t op => (handle op t).2) Tree.empty

theorem chainAndFile_pruned :
    let r := run handle (pruneEmptyDirs 4 (lit "/r") (lit "/r")) chainAndFile
    r.1 = true ∧ r.2.get (resolve (lit "/r")) = some .dir ∧
      r.2.get (resolve (lit "/r/c")) = some .dir ∧ r.2.get (resolve (lit "/r/a")) = none := by
  obtain ⟨htrue, -, -, -, hkept, -⟩ :=
    prune_removes_empty_dirs (lit "/r") chainAndFile (by decide : chainAndFile.height < 4)
  have hfile : chainAndFile.get (resolve (lit "/r/c/f")) = some (.file []) := by decide
  exact ⟨htrue, hkept _ _ _ (by decide) (by decide) hfile,
    hkept _ _ _ (by decide) (by decide) hfile, by decide⟩

end WeftAgent.Properties
