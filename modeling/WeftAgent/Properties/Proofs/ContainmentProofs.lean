import WeftAgent.Properties.Proofs.KeyProofs
import WeftAgent.Properties.Proofs.LoopProofs

/-!
# The calls of an apply stay below the root

Which calls the apply function issues, whatever the operating system answers, and when all of them
stay in the property tree.
-/

namespace WeftAgent.Properties

open WeftAgent.Go WeftAgent.Go.Filepath WeftAgent.Effect WeftAgent.Fs

/-- What is known of the answers of the operating system: a directory lists names, and besides
directories a walk visits only what lies below the place where it starts. All calls may fail. -/
def OsAnswers : (op : FsOp) → op.Ans → Prop
  | .readDir _, (entries, _) => ∀ e ∈ entries, IsName e.1
  | .walkDir path, .ok entries => ∀ e ∈ entries, e.2 ≠ .dir → StrictlyBelow path e.1
  | _, _ => True

/-- The calls of an apply of `ps`. -/
inductive ApplyCall (root : GoString) (ps : PropertySet) : FsOp → Prop where
  | mkdirRoot : ApplyCall root ps (.mkdirAll root)
  | walk : ApplyCall root ps (.walkDir root)
  | readDir (d : GoString) : ApplyCall root ps (.readDir d)
  | remove {p : GoString} (h : StrictlyBelow root p) : ApplyCall root ps (.remove p)
  | mkdirParent {k : GoString} (hk : k ∈ ps.keys) :
      ApplyCall root ps (.mkdirAll (dir (keyPath root k)))
  | create {k : GoString} (hk : k ∈ ps.keys) : ApplyCall root ps (.createTrunc (tmpPath root k))
  | write {k : GoString} (hk : k ∈ ps.keys) :
      ApplyCall root ps (.write (tmpPath root k) (ps.value k))
  | rename {k : GoString} (hk : k ∈ ps.keys) :
      ApplyCall root ps (.rename (tmpPath root k) (keyPath root k))
  | removeTmp {k : GoString} (hk : k ∈ ps.keys) : ApplyCall root ps (.remove (tmpPath root k))

section Issued

variable {root : GoString} {ps : PropertySet}

theorem issues_collectFiles :
    Issues OsAnswers (ApplyCall root ps)
      (fun r => ∀ files, r = .ok files → ∀ p ∈ files, StrictlyBelow root p)
      (collectFiles root) := by
  refine ⟨.walk, fun r hr => ?_⟩
  cases r with
  | error e =>
    intro files h
    cases h
  | ok entries =>
    intro files h p hp
    obtain rfl : entries.filterMap collected = files := by simpa using h
    obtain ⟨e, he, hcol⟩ := List.mem_filterMap.mp hp
    unfold collected at hcol
    split_ifs at hcol with hdir
    obtain rfl : e.1 = p := by simpa using hcol
    exact hr e he hdir

/-- The pruning visits directories in the property tree only. -/
theorem prune_stays_below (fuel : Nat) :
    Issues OsAnswers (ApplyCall root ps) (fun _ => True) (pruneEmptyDirs fuel root root) := by
  refine issues_pruneEmptyDirs (B := fun d => d = root ∨ StrictlyBelow root d)
    (fun d _ => .readDir d) (fun d hd hne => .remove (hd.resolve_left hne)) ?_ fuel (.inl rfl)
  intro d r hd hr e he
  have hpre : resolve root <+: resolve d := by
    rcases hd with rfl | h
    · exact List.prefix_rfl
    · exact h.1
  have hn : IsName e.1 := hr e he
  exact .inr (strictlyBelow_join hpre hn)

/-- Whatever the operating system answers, an apply issues only the calls listed. -/
theorem issues_propertiesApplyer (fuel : Nat) :
    Issues OsAnswers (ApplyCall root ps) (fun _ => True) (propertiesApplyer fuel root ps) := by
  refine issues_of_parts .mkdirRoot issues_collectFiles (fun files h p hp => .remove (h p hp)) ?_
    (prune_stays_below fuel)
  intro k hk
  have hk' : k ∈ ps.keys := mem_sortedKeys.mp hk
  exact issues_writeKey (.mkdirParent hk') (.create hk') (.write hk') (.rename hk') (.removeTmp hk')

/-- If all calls succeed, every key of the set is written. -/
theorem rename_issued_of_writeKeys {P : FsOp → Prop} {α : Type} {Q : α → Prop}
    {f : Option GoError → Prog fsSig α} {ks : List GoString}
    (h : Issues OsAnswers P Q (writeKeys root ps ks >>= f)) :
    ∀ k ∈ ks, P (.rename (tmpPath root k) (keyPath root k)) := by
  induction ks with
  | nil => simp
  | cons k ks ih =>
    -- past the answers to `MkdirAll`, the open and the write
    have hrename := (((h.2 none trivial).2 none trivial).2 none trivial)
    intro k' hk'
    rcases List.mem_cons.mp hk' with rfl | hk'
    · exact hrename.1
    · exact ih (hrename.2 none trivial) k' hk'

theorem rename_issued {P : FsOp → Prop} {Q : Outcome → Prop} {fuel : Nat}
    (h : Issues OsAnswers P Q (propertiesApplyer fuel root ps)) :
    ∀ k ∈ ps.keys, P (.rename (tmpPath root k) (keyPath root k)) := by
  have hwalk : OsAnswers (.walkDir root) (.ok []) := fun e he => absurd he (by simp)
  have hwrites := (h.2 none trivial).2 (.ok []) hwalk
  exact fun k hk => rename_issued_of_writeKeys hwrites k (mem_sortedKeys.mpr hk)

end Issued

/-! ## Containment -/

/-- What the call can create, write, rename or remove, on a system that starts with the tree `t`, is
below the root; the root itself only as a directory that `MkdirAll` makes. -/
def Contained (t : Tree) (root : GoString) (op : FsOp) : Prop :=
  ∀ q, Touches (t.existing (resolve root)) op q →
    resolve root <+: q ∧ (q = resolve root → ∃ path, op = .mkdirAll path)

section Containment

variable {root : GoString} {ps : PropertySet} {t : Tree}

theorem contained_of_strictlyBelow {op : FsOp} (paths : List GoString)
    (htouches : ∀ base q, Touches base op q → ∃ p ∈ paths, q = resolve p)
    (hbelow : ∀ p ∈ paths, StrictlyBelow root p) : Contained t root op := by
  intro q hq
  obtain ⟨p, hp, rfl⟩ := htouches _ q hq
  exact ⟨(hbelow p hp).1, fun heq => absurd heq.symm (hbelow p hp).2⟩

/-- Below an existing parent of the root, `MkdirAll` makes the root and directories in it. -/
theorem contained_mkdirAll (hparent : t.get (resolve root).dropLast = some .dir) {path : GoString}
    (hpath : resolve root <+: resolve path) : Contained t root (.mkdirAll path) := by
  rintro q ⟨hq, hnew⟩
  refine ⟨?_, fun _ => ⟨path, rfl⟩⟩
  rcases List.prefix_or_prefix_of_prefix hq hpath with hup | hdown
  · by_contra hnot
    have hne : q ≠ resolve root := fun heq => hnot (heq ▸ List.prefix_rfl)
    -- a directory properly above the root is its parent or above it, and exists
    have hdrop : q <+: (resolve root).dropLast := by
      obtain ⟨r, hr⟩ := hup
      have hrne : r ≠ [] := fun hnil => hne (by rw [← hr, hnil, List.append_nil])
      rw [← hr, List.dropLast_append_of_ne_nil hrne]
      exact List.prefix_append _ _
    exact hnew ((Tree.prefix_existing_iff hup).mpr (Tree.dir_of_prefix_dir hdrop hparent))
  · exact hdown

/-- Only below an existing parent does `MkdirAll` make the root and nothing above it. -/
theorem parent_of_contained (h : Contained t root (.mkdirAll root)) :
    t.get (resolve root).dropLast = some .dir := by
  have hpre := List.dropLast_prefix (resolve root)
  by_contra hparent
  obtain ⟨hbelow, -⟩ := h _ ⟨hpre, fun hex => hparent ((Tree.prefix_existing_iff hpre).mp hex)⟩
  have hnil : resolve root = [] := by
    by_contra hne
    exact not_prefix_dropLast hne hbelow
  rw [hnil] at hparent
  exact hparent t.root_dir

variable (hroot : isAbs root = true)
include hroot

/-- The file of a key that does not clean to the root, its directory and its temporary file. -/
theorem key_below {k : GoString} (hdd : dotdot ∉ k.splitOn slash) (hk : keyNames k ≠ []) :
    resolve root <+: resolve (dir (keyPath root k)) ∧ StrictlyBelow root (tmpPath root k) ∧
      StrictlyBelow root (keyPath root k) := by
  obtain ⟨d, n, hdn⟩ := (List.eq_nil_or_concat' (keyNames k)).resolve_left hk
  have hkey : keyAt root k = resolve root ++ d ++ [n] := by
    rw [keyAt_of_no_dotdot root hdd, hdn, List.append_assoc]
  have htmp : tmpAt root k = resolve root ++ d ++ [n ++ tmpSuffix] := by
    rw [tmpAt_eq hroot, hkey, tmpOf_concat]
  have hstrict : ∀ m, resolve root <+: resolve root ++ d ++ [m] ∧
      resolve root ≠ resolve root ++ d ++ [m] := fun m =>
    ⟨⟨d ++ [m], by simp⟩, fun heq => by simpa using congrArg List.length heq⟩
  refine ⟨?_, ?_, ?_⟩
  · rw [resolve_dir_keyPath hroot, hkey, List.dropLast_concat]
    exact List.prefix_append _ _
  · have h := hstrict (n ++ tmpSuffix)
    rwa [← htmp] at h
  · have h := hstrict n
    rwa [← hkey] at h

theorem contained_of_applyCall (hv : ps.validate = none)
    (hparent : t.get (resolve root).dropLast = some .dir)
    (hkeys : ∀ k ∈ ps.keys, keyNames k ≠ []) {op : FsOp} (h : ApplyCall root ps op) :
    Contained t root op := by
  have hbelow := fun {k : GoString} (hk : k ∈ ps.keys) =>
    key_below hroot (no_dotdot_of_validate hv hk) (hkeys k hk)
  cases h with
  | mkdirRoot => exact contained_mkdirAll hparent List.prefix_rfl
  | mkdirParent hk => exact contained_mkdirAll hparent (hbelow hk).1
  | walk => exact fun q hq => hq.elim
  | readDir d => exact fun q hq => hq.elim
  | @remove p h =>
    refine contained_of_strictlyBelow [p] (fun _ q hq => ⟨p, by simp, hq⟩) ?_
    simpa using h
  | @create k hk | @write k hk | @removeTmp k hk =>
    refine contained_of_strictlyBelow [tmpPath root k]
      (fun _ q hq => ⟨_, by simp, hq⟩) ?_
    simpa using (hbelow hk).2.1
  | @rename k hk =>
    refine contained_of_strictlyBelow [tmpPath root k, keyPath root k]
      (fun _ q hq => ?_) ?_
    · rcases hq with hold | hnew
      · exact ⟨_, by simp, hold⟩
      · exact ⟨_, by simp, hnew⟩
    · simpa using (hbelow hk).2

/-- Whatever the operating system answers, nothing outside the property tree is created, written,
renamed or removed by the apply of a validated set, exactly when the parent directory of the root
exists and no key of the set cleans to `.`. -/
theorem apply_contained_iff (fuel : Nat) (hv : ps.validate = none) (t : Tree) :
    Issues OsAnswers (Contained t root) (fun _ => True) (propertiesApplyer fuel root ps) ↔
      t.get (resolve root).dropLast = some .dir ∧ ∀ k ∈ ps.keys, clean k ≠ lit "." := by
  have hdot : lit "." = [dot] := by decide
  constructor
  · intro h
    -- the first call makes the root
    have hmkdir : Contained t root (.mkdirAll root) := h.1
    refine ⟨parent_of_contained hmkdir, fun k hk heq => ?_⟩
    have hnames : keyNames k = [] := (clean_eq_dot_iff hv hk).mp (heq.trans hdot)
    have hkey := keyAt_of_no_dotdot root (no_dotdot_of_validate hv hk)
    rw [hnames, List.append_nil] at hkey
    -- the rename goes to the root itself
    obtain ⟨-, honly⟩ := rename_issued h k hk (keyAt root k) (.inr rfl)
    obtain ⟨path, hpath⟩ := honly hkey
    cases hpath
  · rintro ⟨hparent, hkeys⟩
    have hnames : ∀ k ∈ ps.keys, keyNames k ≠ [] := fun k hk hnil =>
      hkeys k hk (((clean_eq_dot_iff hv hk).mpr hnil).trans hdot.symm)
    exact (issues_propertiesApplyer fuel).imp
      (fun op hop => contained_of_applyCall hroot hv hparent hnames hop) (fun _ _ => trivial)

end Containment

/-- A file system on which the parent of the property tree exists. -/
def runWeft : Tree := (handle (.mkdirAll (lit "/run/weft")) Tree.empty).2

/-- The apply of an ordinary key stays below the root. -/
theorem owner_contained :
    Issues OsAnswers (Contained runWeft (lit "/run/weft/properties")) (fun _ => True)
      (propertiesApplyer 8 (lit "/run/weft/properties") (.singleton (lit "owner") (lit "x"))) :=
  (apply_contained_iff (by decide) 8 (by decide) runWeft).mpr ⟨by decide, by decide⟩

/-- The key `.` is accepted, and its temporary file is created beside the root. -/
theorem dot_key_escapes :
    (PropertySet.singleton (lit ".") (lit "x")).validate = none ∧
    runWeft.get (resolve (lit "/run/weft")) = some .dir ∧
    FsOp.createTrunc (lit "/run/weft/properties.tmp") ∈
      trace handle (propertiesApplyer 8 (lit "/run/weft/properties")
        (.singleton (lit ".") (lit "x"))) runWeft ∧
    ¬ Contained runWeft (lit "/run/weft/properties")
      (.createTrunc (lit "/run/weft/properties.tmp")) := by
  refine ⟨by decide, by decide, by decide, fun h => ?_⟩
  have hbelow := (h (resolve (lit "/run/weft/properties.tmp")) rfl).1
  exact absurd hbelow (by decide)

end WeftAgent.Properties
