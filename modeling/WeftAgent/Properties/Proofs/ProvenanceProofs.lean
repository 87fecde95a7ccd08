import WeftAgent.Fs.Proofs.FaultsProofs
import WeftAgent.Properties.Proofs.LoopProofs
import WeftAgent.Properties.Proofs.MirrorProofs

/-!
# Where the content of a file comes from

At every moment of an apply, a file that is no temporary file holds what it held before, or the
whole value of a key of the set: no reader ever sees a part of a value.
-/

namespace WeftAgent.Properties

open WeftAgent.Go WeftAgent.Go.Filepath WeftAgent.Effect WeftAgent.Fs

/-- Every file at one of the paths `W` has a content that `S` allows there. -/
def Stems (W : Path → Prop) (S : Path → GoString → Prop) (t : Tree) : Prop :=
  ∀ q, W q → ∀ c, t.fileAt q = some c → S q c

/-- The calls that read, make directories or remove one entry. -/
def Quiet : FsOp → Prop
  | .createTrunc _ | .write _ _ | .rename _ _ | .removeAll _ => False
  | _ => True

section Stems

variable {W : Path → Prop} {S : Path → GoString → Prop} {t t' : Tree}

theorem Stems.of_files (h : Stems W S t)
    (hle : ∀ q, W q → ∀ c, t'.fileAt q = some c → t.fileAt q = some c) : Stems W S t' :=
  fun q hq c hc => h q hq c (hle q hq c hc)

theorem Stems.quiet (h : Stems W S t) {op : FsOp} (hop : Quiet op) :
    Stems W S (handle op t).2 := by
  refine h.of_files fun q _ c hc => ?_
  cases op with
  | mkdirAll path => rwa [handle, Tree.fileAt_mkdirAll] at hc
  | remove path => exact Tree.fileAt_of_fileAt_remove hc
  | removeAll path => exact hop.elim
  | createTrunc path => exact hop.elim
  | write path data => exact hop.elim
  | rename old new => exact hop.elim
  | readFile path => exact hc
  | stat path => exact hc
  | readDir path => exact hc
  | walkDir path => exact hc

theorem stems_putFile_iff {p : Path} {c : GoString} (h : Stems W S t) (hw : t.Writable p) :
    Stems W S (t.putFile p c hw) ↔ (W p → S p c) := by
  constructor
  · intro hput hp
    exact hput p hp c (by rw [Tree.fileAt_eq_some, Tree.get_putFile, if_pos rfl])
  · intro hp q hq c' hc'
    rw [Tree.fileAt_eq_some, Tree.get_putFile] at hc'
    split_ifs at hc' with hqp
    · obtain rfl : c = c' := by simpa using hc'
      rw [hqp] at hq ⊢
      exact hp hq
    · exact h q hq c' (Tree.fileAt_eq_some.mpr hc')

theorem Stems.rename (h : Stems W S t) {p q : Path} {c : GoString} (hfile : t.fileAt p = some c)
    (hne : p ≠ q) (hq : W q → S q c) : Stems W S (t.rename p q).2 := by
  rcases Tree.rename_of_file hfile hne with ⟨hw, heq⟩ | ⟨-, e, heq⟩
  · rw [heq]
    intro x hx c' hc'
    rw [Tree.fileAt_eq_some, Tree.get_move] at hc'
    split_ifs at hc' with hxq hxp
    · obtain rfl : c = c' := by simpa using hc'
      rw [hxq] at hx ⊢
      exact hq hx
    · exact h x hx c' (Tree.fileAt_eq_some.mpr hc')
  · rw [heq]
    exact h

end Stems

/-! ## Calls that write to a watched file -/

/-- What is written to a watched file is allowed there, and so is the empty file that it is written
to. -/
def Benign (W : Path → Prop) (S : Path → GoString → Prop) (calls : List FsOp) : Prop :=
  ∀ path data, .write path data ∈ calls → W (resolve path) →
    S (resolve path) [] ∧ S (resolve path) data

/-- The watched files have allowed contents throughout the run exactly if its writes are benign. -/
def Watched (W : Path → Prop) (S : Path → GoString → Prop) {α : Type} (p : Prog fsSig α)
    (t : Tree) : Prop :=
  Always handle (Stems W S) p t ↔ Benign W S (trace handle p t)

section Watched

variable {W : Path → Prop} {S : Path → GoString → Prop} {t : Tree} {α β : Type}

theorem benign_append {a b : List FsOp} :
    Benign W S (a ++ b) ↔ Benign W S a ∧ Benign W S b := by
  constructor
  · exact fun h => ⟨fun path data hmem => h path data (List.mem_append_left _ hmem),
      fun path data hmem => h path data (List.mem_append_right _ hmem)⟩
  · rintro ⟨ha, hb⟩ path data hmem
    exact (List.mem_append.mp hmem).elim (ha path data) (hb path data)

theorem benign_of_quiet {calls : List FsOp} (h : ∀ op ∈ calls, Quiet op) : Benign W S calls :=
  fun _ _ hmem => absurd (h _ hmem) id

theorem Watched.bind {p : Prog fsSig α} {f : α → Prog fsSig β} (hp : Watched W S p t)
    (hf : Stems W S (run handle p t).2 → Watched W S (f (run handle p t).1) (run handle p t).2) :
    Watched W S (p >>= f) t := by
  unfold Watched at hp hf ⊢
  rw [always_bind_iff, trace_bind, benign_append, ← hp]
  exact and_congr_right fun halways => hf halways.final

theorem watched_ret (a : α) (h : Stems W S t) : Watched W S (.ret a : Prog fsSig α) t :=
  iff_of_true h fun _ _ hmem => absurd hmem List.not_mem_nil

theorem always_of_quiet {p : Prog fsSig α} {Q : α → Prop}
    (hp : Issues (fun _ _ => True) Quiet Q p) (h : Stems W S t) :
    Always handle (Stems W S) p t :=
  (hp.run (fun _ _ _ _ => trivial) (fun _ _ hs hop => hs.quiet hop) h).1

theorem watched_of_quiet {p : Prog fsSig α} {Q : α → Prop}
    (hp : Issues (fun _ _ => True) Quiet Q p) (h : Stems W S t) : Watched W S p t :=
  iff_of_true (always_of_quiet hp h) (benign_of_quiet hp.trace)

theorem watched_osWriteFile (path data : GoString) (h : Stems W S t) :
    Watched W S (osWriteFile path data) t := by
  simp only [Watched, osWriteFile, always_call, trace, handle]
  rcases t.createTrunc_cases (resolve path) with ⟨hw, heq⟩ | ⟨-, e, heq⟩
  · have hfile : (t.putFile (resolve path) [] hw).fileAt (resolve path) = some [] := by
      rw [Tree.fileAt_eq_some, Tree.get_putFile, if_pos rfl]
    rw [heq]
    simp only [always_call, always_ret, trace, handle, Tree.write_of_file hfile]
    constructor
    · rintro ⟨-, hempty, hfull⟩ path' data' hmem hwatched
      obtain ⟨rfl, rfl⟩ : path' = path ∧ data' = data := by simpa using hmem
      exact ⟨(stems_putFile_iff h hw).mp hempty hwatched,
        (stems_putFile_iff hempty _).mp hfull hwatched⟩
    · intro hbenign
      have hboth := hbenign path data (by simp)
      have hempty := (stems_putFile_iff h hw).mpr fun hwatched => (hboth hwatched).1
      exact ⟨h, hempty, (stems_putFile_iff hempty _).mpr fun hwatched => (hboth hwatched).2⟩
  · rw [heq]
    refine iff_of_true ⟨h, h⟩ fun path data hmem => ?_
    simp [trace] at hmem

end Watched

/-! ## The parts of an apply -/

section Quiet

theorem quiet_osMkdirAll (path : GoString) :
    Issues (fun _ _ => True) Quiet (fun _ => True) (osMkdirAll path) :=
  ⟨trivial, fun _ _ => trivial⟩

theorem quiet_collectFiles (root : GoString) :
    Issues (fun _ _ => True) Quiet (fun _ => True) (collectFiles root) := by
  refine ⟨trivial, fun r _ => ?_⟩
  cases r <;> trivial

theorem quiet_removeStale (want : GoMap GoString GoString) (files : List GoString) :
    Issues (fun _ _ => True) Quiet (fun _ => True) (removeStale want files) :=
  issues_removeStale want fun _ _ => trivial

theorem quiet_pruneEmptyDirs (fuel : Nat) (root d : GoString) :
    Issues (fun _ _ => True) Quiet (fun _ => True) (pruneEmptyDirs fuel root d) :=
  issues_pruneEmptyDirs (B := fun _ => True) (fun _ _ => trivial) (fun _ _ _ => trivial)
    (fun _ _ _ _ _ _ => trivial) fuel trivial

end Quiet

section Apply

variable {root : GoString} {ps : PropertySet} {W : Path → Prop} {S : Path → GoString → Prop}
  (hS : ∀ k ∈ ps.keys, W (keyAt root k) → S (keyAt root k) (ps.value k))
include hS

theorem watched_writeKey {k : GoString} (hk : k ∈ ps.keys) {t : Tree} (h : Stems W S t) :
    Watched W S (writeKey root ps k) t := by
  refine Watched.bind (watched_of_quiet (quiet_osMkdirAll _) h) fun h₁ => ?_
  generalize run handle (osMkdirAll (dir (keyPath root k))) t = r₁ at h₁ ⊢
  obtain ⟨err, t₁⟩ := r₁
  cases err with
  | some e => exact watched_ret _ h₁
  | none =>
    refine Watched.bind (watched_osWriteFile _ _ h₁) fun h₂ => ?_
    rcases run_osWriteFile_cases (tmpPath root k) (ps.value k) t₁ with
      ⟨-, hok, hget⟩ | ⟨-, e, heq⟩
    · rw [hok]
      generalize (run handle (osWriteFile (tmpPath root k) (ps.value k)) t₁).2 = t₂ at hget h₂ ⊢
      -- the content of the temporary file moves in one step
      have hfile : t₂.fileAt (tmpAt root k) = some (ps.value k) := by
        rw [Tree.fileAt_eq_some, hget]
        exact if_pos rfl
      have h₃ : Stems W S (t₂.rename (tmpAt root k) (keyAt root k)).2 :=
        h₂.rename hfile (resolve_tmp_ne _) (hS k hk)
      have hrename : Watched W S (osRename (tmpPath root k) (keyPath root k)) t₂ :=
        iff_of_true ⟨h₂, h₃⟩ fun path data hmem => by simp [osRename, trace] at hmem
      refine hrename.bind fun h₃ => ?_
      cases (run handle (osRename (tmpPath root k) (keyPath root k)) t₂).1 with
      | none => exact watched_ret _ h₃
      | some e =>
        have hquiet : Issues (fun _ _ => True) Quiet (fun _ => True) (osRemove (tmpPath root k)) :=
          ⟨trivial, fun _ _ => trivial⟩
        exact Watched.bind (watched_of_quiet hquiet h₃) fun h₄ => watched_ret _ h₄
    · rw [heq]
      exact watched_ret _ h₁

theorem watched_writeKeys {ks : List GoString} (hks : ∀ k ∈ ks, k ∈ ps.keys) {t : Tree}
    (h : Stems W S t) : Watched W S (writeKeys root ps ks) t := by
  induction ks generalizing t with
  | nil => exact watched_ret _ h
  | cons k ks ih =>
    refine (watched_writeKey hS (hks k List.mem_cons_self) h).bind fun h' => ?_
    cases (run handle (writeKey root ps k) t).1 with
    | some err => exact watched_ret _ h'
    | none => exact ih (fun x hx => hks x (List.mem_cons_of_mem _ hx)) h'

theorem watched_syncFiles {t : Tree} (h : Stems W S t) : Watched W S (syncFiles root ps) t := by
  refine Watched.bind (watched_of_quiet (quiet_osMkdirAll root) h) fun h₁ => ?_
  cases (run handle (osMkdirAll root) t).1 with
  | some e => exact watched_ret _ h₁
  | none =>
    refine Watched.bind (watched_of_quiet (quiet_collectFiles root) h₁) fun h₂ => ?_
    cases (run handle (collectFiles root) _).1 with
    | error e => exact watched_ret _ h₂
    | ok files =>
      refine Watched.bind (watched_of_quiet (quiet_removeStale _ files) h₂) fun h₃ => ?_
      cases (run handle (removeStale (wantMap root ps) files) _).1 with
      | some err => exact watched_ret _ h₃
      | none => exact watched_writeKeys hS (fun k hk => mem_sortedKeys.mp hk) h₃

/-- Throughout an apply every watched file has an allowed content, exactly if the writes of the
apply to watched files are benign. -/
theorem watched_propertiesApplyer (fuel : Nat) {t : Tree} (h : Stems W S t) :
    Watched W S (propertiesApplyer fuel root ps) t := by
  refine (watched_syncFiles hS h).bind fun h₁ => ?_
  cases (run handle (syncFiles root ps) t).1 with
  | some err => exact watched_ret _ h₁
  | none =>
    refine Watched.bind (watched_of_quiet (quiet_pruneEmptyDirs fuel root root) h₁) fun h₂ => ?_
    cases (run handle (pruneEmptyDirs fuel root root) _).1 with
    | true => exact watched_ret _ h₂
    | false => exact watched_ret _ h₂

end Apply

/-! ## The writes of an apply -/

/-- If the call is a write, the value of a key goes to its temporary file. -/
def ValueWrite (root : GoString) (ps : PropertySet) (op : FsOp) : Prop :=
  ∀ path data, op = .write path data → ∃ k ∈ ps.keys, path = tmpPath root k ∧ data = ps.value k

section Writes

variable {root : GoString} {ps : PropertySet}

theorem Quiet.valueWrite {op : FsOp} (h : Quiet op) : ValueWrite root ps op := by
  rintro path data rfl
  exact h.elim

/-- The other calls of `writeKey` are no writes. -/
theorem writes_writeKey {k : GoString} (hk : k ∈ ps.keys) :
    Issues (fun _ _ => True) (ValueWrite root ps) (fun _ => True) (writeKey root ps k) := by
  have hwrite : ValueWrite root ps (.write (tmpPath root k) (ps.value k)) := by
    intro path data heq
    obtain ⟨rfl, rfl⟩ := FsOp.write.inj heq
    exact ⟨k, hk, rfl, rfl⟩
  refine issues_writeKey ?_ ?_ hwrite ?_ ?_ <;> simp [ValueWrite]

theorem writes_propertiesApplyer (fuel : Nat) :
    Issues (fun _ _ => True) (ValueWrite root ps) (fun _ => True)
      (propertiesApplyer fuel root ps) := by
  have hquiet : ∀ op : FsOp, Quiet op → ValueWrite root ps op := fun op h => h.valueWrite
  have hcollect : Issues (fun _ _ => True) (ValueWrite root ps)
      (fun r => ∀ files, r = .ok files → True) (collectFiles root) :=
    (quiet_collectFiles root).imp hquiet fun _ _ _ _ => trivial
  exact issues_of_parts (hquiet _ trivial) hcollect (fun _ _ _ _ => hquiet _ trivial)
    (fun k hk => writes_writeKey (mem_sortedKeys.mp hk))
    ((quiet_pruneEmptyDirs fuel root root).imp hquiet fun _ h => h)

/-- Throughout an apply, watched files that have not the extension of temporary files have allowed
contents. -/
theorem always_propertiesApplyer (hroot : isAbs root = true) {W : Path → Prop}
    {S : Path → GoString → Prop} (hW : ∀ q, W q → ext (absPath q) ≠ tmpSuffix)
    (hS : ∀ k ∈ ps.keys, W (keyAt root k) → S (keyAt root k) (ps.value k)) (fuel : Nat) {t : Tree}
    (h : Stems W S t) : Always handle (Stems W S) (propertiesApplyer fuel root ps) t := by
  refine (watched_propertiesApplyer hS fuel h).mpr fun path data hmem hwatched => ?_
  obtain ⟨k, -, rfl, -⟩ := (writes_propertiesApplyer fuel).trace _ hmem path data rfl
  have htmp : resolve (tmpPath root k) = tmpOf (keyAt root k) := tmpAt_eq hroot k
  rw [htmp] at hwatched
  exact absurd (ext_tmpOf (names_keyAt root k)) (hW _ hwatched)

end Writes

/-- After an apply that returned nil, a path below the root that is no temporary file holds the
value of the last key with this file, and no file if there is none. -/
theorem fileAt_of_nil_not_tmp {root : GoString} (hroot : isAbs root = true) {ps : PropertySet}
    {t : Tree} {fuel : Nat}
    (hnil : (run handle (propertiesApplyer fuel root ps) t).1 = .returned none) {q : Path}
    (hq : resolve root <+: q) (hne : q ≠ resolve root) (hext : ext (absPath q) ≠ tmpSuffix) :
    (run handle (propertiesApplyer fuel root ps) t).2.fileAt q =
      (ps.sortedKeys.filter fun k => keyAt root k = q).getLast?.map ps.value := by
  obtain ⟨f, hfiles, hgc⟩ := fileAt_of_nil hroot hnil
  have htmp : ∀ k ∈ ps.sortedKeys, q ≠ tmpOf (keyAt root k) := fun k _ heq =>
    hext (heq ▸ ext_tmpOf (names_keyAt root k))
  rw [hfiles, foldl_written_of_not_tmp htmp, hgc q hq hne]
  cases hlast : (ps.sortedKeys.filter fun k => keyAt root k = q).getLast? with
  | some k => rfl
  | none =>
    have hnokey : ¬ (ext (absPath q) = tmpSuffix ∨ ∃ k ∈ ps.keys, keyAt root k = q) := by
      rintro (h | ⟨k, hk, heq⟩)
      · exact hext h
      · have hmem : k ∈ ps.sortedKeys.filter fun k => keyAt root k = q :=
          List.mem_filter.mpr ⟨mem_sortedKeys.mpr hk, by simpa using heq⟩
        rw [List.getLast?_eq_none_iff.mp hlast] at hmem
        simp at hmem
    rw [if_neg hnokey]
    rfl

end WeftAgent.Properties
