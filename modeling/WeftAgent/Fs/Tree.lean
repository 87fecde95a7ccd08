import WeftAgent.Go.Proofs.FilepathProofs

/-!
# A file system tree

Directories and regular files, addressed by the names on the way down from the root directory. A
`Tree` carries its own well-formedness: the root is a directory, only directories have entries,
every element of a path is a name, and the nodes can be enumerated. The operations answer as the
system calls do, with the errors that the shape of the tree forces.
-/

namespace WeftAgent.Fs

open WeftAgent.Go WeftAgent.Go.Filepath

/-- The names on the way down from the root directory. -/
abbrev Path := List GoString

/-- What stands at a path. -/
inductive Node where
  | dir
  | file (content : GoString)
  deriving DecidableEq, Repr

/-- The type bits of a directory entry. -/
inductive Kind where
  | dir
  | regular
  /-- A symbolic link, a device, a socket or a pipe. -/
  | other
  deriving DecidableEq, Repr

def Node.kind : Node → Kind
  | .dir => .dir
  | .file _ => .regular

/-- A file system. -/
structure Tree where
  /-- The node at a path, if there is one. -/
  get : Path → Option Node
  /-- Paths among which all nodes are found. -/
  dom : List Path
  root_dir : get [] = some .dir
  parent_dir : ∀ p n, get (p ++ [n]) ≠ none → get p = some .dir
  /-- The elements of the path of a node are names. -/
  names : ∀ p, get p ≠ none → Names p
  mem_dom : ∀ p, get p ≠ none → p ∈ dom

namespace Tree

def empty : Tree where
  get p := if p = [] then some .dir else none
  dom := [[]]
  root_dir := by simp
  parent_dir p n h := by simp at h
  names p h := by
    have hp : p = [] := by by_contra hne; simp [hne] at h
    exact hp ▸ names_nil
  mem_dom p h := by
    have hp : p = [] := by by_contra hne; simp [hne] at h
    simp [hp]

/-- The content of the regular file at a path, if one stands there. -/
def fileAt (t : Tree) (p : Path) : Option GoString :=
  match t.get p with
  | some (.file c) => some c
  | _ => none

/-- The names in a directory, sorted. -/
def childNames (t : Tree) (p : Path) : List GoString :=
  (t.dom.filterMap fun q =>
    if q ≠ [] ∧ q.dropLast = p ∧ t.get q ≠ none then q.getLast? else none).dedup.insertionSort
    (· ≤ ·)

/-- All nodes at or below a path, each directory before its entries and these in lexical order. -/
def below (t : Tree) (p : Path) : List Path :=
  (t.dom.filter fun q => p <+: q ∧ t.get q ≠ none).dedup.insertionSort (· ≤ ·)

/-- No path of the tree is longer. -/
def height (t : Tree) : Nat := (t.dom.map List.length).foldr max 0

theorem mem_childNames {t : Tree} {p : Path} {n : GoString} :
    n ∈ t.childNames p ↔ t.get (p ++ [n]) ≠ none := by
  simp only [childNames, List.mem_insertionSort, List.mem_dedup, List.mem_filterMap]
  constructor
  · rintro ⟨q, -, hq⟩
    split_ifs at hq with h
    obtain ⟨hne, rfl, hget⟩ := h
    have hlast : q.dropLast ++ [n] = q := by
      rw [List.getLast?_eq_some_getLast hne, Option.some.injEq] at hq
      rw [← hq, List.dropLast_append_getLast]
    rwa [hlast]
  · intro h
    exact ⟨p ++ [n], t.mem_dom _ h, by simp [h]⟩

/-! ## Updates -/

/-- A regular file can be put at the path: its parent is a directory and it is none itself. -/
def Writable (t : Tree) (p : Path) : Prop :=
  p ≠ [] ∧ t.get p.dropLast = some .dir ∧ t.get p ≠ some .dir ∧ Names p

instance (t : Tree) (p : Path) : Decidable (t.Writable p) := by unfold Writable; infer_instance

/-- Make the path and all its ancestors directories. -/
def mkdirs (t : Tree) (p : Path) (hp : Names p) : Tree where
  get q := if q <+: p then some .dir else t.get q
  dom := p.inits ++ t.dom
  root_dir := by simp
  parent_dir q n h := by
    by_cases hqn : q ++ [n] <+: p
    · simp [(List.prefix_append q [n]).trans hqn]
    · simp only [if_neg hqn] at h
      split_ifs
      · rfl
      · exact t.parent_dir q n h
  names q h := by
    split_ifs at h with hq
    · exact fun e he => hp e (hq.subset he)
    · exact t.names q h
  mem_dom q h := by
    split_ifs at h with hq
    · exact List.mem_append_left _ ((List.mem_inits q p).mpr hq)
    · exact List.mem_append_right _ (t.mem_dom q h)

def putFile (t : Tree) (p : Path) (c : GoString) (hp : t.Writable p) : Tree where
  get q := if q = p then some (.file c) else t.get q
  dom := p :: t.dom
  root_dir := by simp [hp.1.symm, t.root_dir]
  parent_dir q n h := by
    have hq : t.get q = some .dir := by
      by_cases hqn : q ++ [n] = p
      · have h' := hp.2.1
        rwa [← hqn, List.dropLast_concat] at h'
      · exact t.parent_dir q n (by simpa [hqn] using h)
    have hne : q ≠ p := fun heq => hp.2.2.1 (heq ▸ hq)
    simp [hne, hq]
  names q h := by
    split_ifs at h with hq
    · exact hq ▸ hp.2.2.2
    · exact t.names q h
  mem_dom q h := by
    split_ifs at h with hq
    · simp [hq]
    · exact List.mem_cons_of_mem _ (t.mem_dom q h)

def delete (t : Tree) (p : Path) (hne : p ≠ []) (hp : t.childNames p = []) : Tree where
  get q := if q = p then none else t.get q
  dom := t.dom
  root_dir := by simp [hne.symm, t.root_dir]
  parent_dir q n h := by
    have h' : t.get (q ++ [n]) ≠ none := fun hnone => h (by simp [hnone])
    have hq : q ≠ p := by
      rintro rfl
      have hmem := mem_childNames.mpr h'
      simp [hp] at hmem
    simp [hq, t.parent_dir q n h']
  names q h := t.names q (fun hnone => h (by simp [hnone]))
  mem_dom q h := t.mem_dom q (fun hnone => h (by simp [hnone]))

def move (t : Tree) (p q : Path) (c : GoString) (hp : t.get p = some (.file c))
    (hq : t.Writable q) : Tree where
  get x := if x = q then some (.file c) else if x = p then none else t.get x
  dom := q :: t.dom
  root_dir := by
    have hne : ([] : Path) ≠ p := by
      rintro rfl
      rw [t.root_dir] at hp
      cases hp
    simp [hq.1.symm, hne, t.root_dir]
  parent_dir x n h := by
    have hx : t.get x = some .dir := by
      by_cases hxn : x ++ [n] = q
      · have h' := hq.2.1
        rwa [← hxn, List.dropLast_concat] at h'
      · refine t.parent_dir x n (fun hnone => h ?_)
        simp [hxn, hnone]
    have h₁ : x ≠ q := fun heq => hq.2.2.1 (heq ▸ hx)
    have h₂ : x ≠ p := by
      rintro rfl
      rw [hp] at hx
      cases hx
    simp [h₁, h₂, hx]
  names x h := by
    split_ifs at h with h₁ h₂
    · exact h₁ ▸ hq.2.2.2
    · exact absurd rfl h
    · exact t.names x h
  mem_dom x h := by
    split_ifs at h with h₁ h₂
    · simp [h₁]
    · exact absurd rfl h
    · exact List.mem_cons_of_mem _ (t.mem_dom x h)

/-- Delete everything at and below a path; the root directory itself stays. -/
def prune (t : Tree) (p : Path) : Tree where
  get q := if p <+: q ∧ q ≠ [] then none else t.get q
  dom := t.dom
  root_dir := by simp [t.root_dir]
  parent_dir q n h := by
    have h' : ¬ p <+: q ++ [n] := fun hpre => h (by simp [hpre])
    have hq : ¬ p <+: q := fun hpre => h' (hpre.trans (List.prefix_append q [n]))
    simp only [hq, false_and, if_false]
    exact t.parent_dir q n (by simpa [h'] using h)
  names q h := t.names q (fun hnone => h (by simp [hnone]))
  mem_dom q h := t.mem_dom q (fun hnone => h (by simp [hnone]))

end Tree

end WeftAgent.Fs
