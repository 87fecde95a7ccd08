import WeftAgent.Go.Filepath
import Mathlib.Tactic

/-!
# Lexical path facts

Cleaned absolute paths and lists of names determine each other (`render`, `elements`); joining,
taking the parent directory, the extension, and appending a suffix are operations on the names.
-/

namespace WeftAgent.Go.Filepath

/-- An element that a cleaned absolute path can have. -/
def IsName (e : GoString) : Prop := e ≠ [] ∧ e ≠ [dot] ∧ e ≠ dotdot ∧ slash ∉ e

instance (e : GoString) : Decidable (IsName e) := by unfold IsName; infer_instance

def Names (els : List GoString) : Prop := ∀ e ∈ els, IsName e

instance (els : List GoString) : Decidable (Names els) := by unfold Names; infer_instance

theorem Names.append {a b : List GoString} (ha : Names a) (hb : Names b) : Names (a ++ b) :=
  fun e he => (List.mem_append.mp he).elim (ha e) (hb e)

theorem Names.left {a b : List GoString} (h : Names (a ++ b)) : Names a :=
  fun e he => h e (List.mem_append_left _ he)

theorem Names.last {q : List GoString} {n : GoString} (h : Names (q ++ [n])) : IsName n :=
  h n (by simp)

theorem names_nil : Names [] := fun _ h => absurd h (by simp)

theorem names_singleton {n : GoString} (h : IsName n) : Names [n] := by
  intro e he
  rw [List.mem_singleton] at he
  exact he ▸ h

/-! ## Splitting and pushing -/

theorem slash_not_mem_of_mem_splitOn {p e : GoString} (h : e ∈ p.splitOn slash) : slash ∉ e :=
  not_mem_of_mem_splitOn h

theorem push_of_skip {r : Bool} {kept : List GoString} {e : GoString} (h : e = [] ∨ e = [dot]) :
    push r kept e = kept := by
  simp [push, h]

theorem push_of_isName {r : Bool} {kept : List GoString} {e : GoString} (h : IsName e) :
    push r kept e = kept ++ [e] := by
  simp [push, h.1, h.2.1, h.2.2.1]

theorem foldl_push_names {r : Bool} {els : List GoString} (h : Names els) (kept : List GoString) :
    els.foldl (push r) kept = kept ++ els := by
  induction els generalizing kept with
  | nil => simp
  | cons e els ih =>
    rw [List.foldl_cons, push_of_isName (h e List.mem_cons_self),
      ih (fun x hx => h x (List.mem_cons_of_mem _ hx))]
    simp

theorem Names.getLast?_ne_dotdot {els : List GoString} (h : Names els) :
    els.getLast? ≠ some dotdot := fun hl =>
  (h dotdot (List.mem_of_getLast? hl)).2.2.1 rfl

/-- Below the root there is nothing to climb to: a `..` element removes the last name, if any. -/
theorem push_rooted_dotdot {kept : List GoString} (h : Names kept) :
    push true kept dotdot = kept.dropLast := by
  have h₁ : ¬ (dotdot = [] ∨ dotdot = [dot]) := by decide
  simp only [push, if_neg h₁, ↓reduceIte, if_neg h.getLast?_ne_dotdot]
  split_ifs with hk
  · simp [hk]
  · rfl

theorem names_push_rooted {kept : List GoString} {e : GoString} (h : Names kept) (he : slash ∉ e) :
    Names (push true kept e) := by
  by_cases hskip : e = [] ∨ e = [dot]
  · rw [push_of_skip hskip]
    exact h
  · by_cases hdd : e = dotdot
    · rw [hdd, push_rooted_dotdot h]
      exact fun x hx => h x (List.dropLast_subset _ hx)
    · rw [not_or] at hskip
      have hn : IsName e := ⟨hskip.1, hskip.2, hdd, he⟩
      rw [push_of_isName hn]
      exact h.append (names_singleton hn)

theorem names_foldl_push_rooted {es : List GoString} (hes : ∀ e ∈ es, slash ∉ e)
    {kept : List GoString} (h : Names kept) : Names (es.foldl (push true) kept) := by
  induction es generalizing kept with
  | nil => exact h
  | cons e es ih =>
    exact ih (fun x hx => hes x (List.mem_cons_of_mem _ hx))
      (names_push_rooted h (hes e List.mem_cons_self))

/-- The elements of a cleaned absolute path are names. -/
theorem names_elements {p : GoString} (h : isAbs p = true) : Names (elements p) := by
  unfold elements
  rw [h]
  exact names_foldl_push_rooted (fun e he => slash_not_mem_of_mem_splitOn he) names_nil

/-! ## Rendering -/

abbrev absPath (els : List GoString) : GoString := render true els

@[simp] theorem isAbs_absPath (els : List GoString) : isAbs (absPath els) = true := by
  simp [absPath, render, isAbs]

theorem splitOn_slash_cons (p : GoString) : (slash :: p).splitOn slash = [] :: p.splitOn slash := by
  simpa using List.splitOn_append_cons_self (a := slash) [] p

/-- The names of a cleaned absolute path are read back from it. -/
theorem elements_absPath {els : List GoString} (h : Names els) : elements (absPath els) = els := by
  unfold elements
  rw [isAbs_absPath]
  simp only [absPath, render, ↓reduceIte]
  rw [splitOn_slash_cons, List.foldl_cons, push_of_skip (Or.inl rfl)]
  by_cases hne : els = []
  · subst hne
    simp [push]
  · rw [List.splitOn_intercalate slash (fun e he => (h e he).2.2.2) hne, foldl_push_names h]
    simp

theorem absPath_inj {a b : List GoString} (ha : Names a) (hb : Names b)
    (h : absPath a = absPath b) : a = b := by
  rw [← elements_absPath ha, ← elements_absPath hb, h]

/-! ## Relative paths

A cleaned relative path may climb with `..` elements first. -/

/-- The elements that any cleaned path can have. -/
def Parts (els : List GoString) : Prop := ∀ e ∈ els, e ≠ [] ∧ e ≠ [dot] ∧ slash ∉ e

theorem Names.parts {els : List GoString} (h : Names els) : Parts els := fun e he =>
  ⟨(h e he).1, (h e he).2.1, (h e he).2.2.2⟩

theorem Parts.append {a b : List GoString} (ha : Parts a) (hb : Parts b) : Parts (a ++ b) :=
  fun e he => (List.mem_append.mp he).elim (ha e) (hb e)

theorem parts_push {r : Bool} {kept : List GoString} {e : GoString} (h : Parts kept)
    (he : slash ∉ e) : Parts (push r kept e) := by
  have hdd : Parts [dotdot] := by
    intro x hx
    rw [List.mem_singleton.mp hx]
    decide
  unfold push
  split_ifs with hskip hclimb hnil hr hlast
  · exact h
  · exact names_nil.parts
  · exact hdd
  · exact h.append hdd
  · exact fun x hx => h x (List.dropLast_subset _ hx)
  · refine h.append fun x hx => ?_
    rw [List.mem_singleton.mp hx]
    rw [not_or] at hskip
    exact ⟨hskip.1, hskip.2, he⟩

theorem parts_elements (p : GoString) : Parts (elements p) := by
  unfold elements
  have hslash : ∀ e ∈ p.splitOn slash, slash ∉ e := fun _ he => slash_not_mem_of_mem_splitOn he
  generalize p.splitOn slash = es at hslash
  induction es using List.reverseRecOn with
  | nil => exact names_nil.parts
  | append_singleton es e ih =>
    rw [List.foldl_concat]
    exact parts_push (ih fun x hx => hslash x (List.mem_append_left _ hx)) (hslash e (by simp))

/-- The text of one element is that of no other list of elements. -/
theorem mem_of_intercalate_eq {els : List GoString} (h : Parts els) (hne : els ≠ []) {e : GoString}
    (he : slash ∉ e) (heq : [slash].intercalate els = e) : e ∈ els := by
  have hsplit := List.splitOn_intercalate slash (fun e he => (h e he).2.2) hne
  rw [heq, List.splitOn_eq_singleton he] at hsplit
  rw [← hsplit]
  exact List.mem_singleton_self e

/-- A cleaned path determines its elements. -/
theorem render_inj {r : Bool} {a b : List GoString} (ha : Parts a) (hb : Parts b)
    (h : render r a = render r b) : a = b := by
  -- no elements are rendered as the empty element (behind the slash) or as `.`
  have hnil : ∀ {els : List GoString}, Parts els → render r els = render r [] → els = [] := by
    intro els hels heq
    by_contra hne
    cases r with
    | true =>
      have heq' : [slash].intercalate els = [] := by simpa [render] using heq
      exact (hels _ (mem_of_intercalate_eq hels hne (by simp) heq')).1 rfl
    | false =>
      have heq' : [slash].intercalate els = [dot] := by simpa [render, hne] using heq
      exact (hels _ (mem_of_intercalate_eq hels hne (by decide) heq')).2.1 rfl
  by_cases hne : a = []
  · rw [hne] at h ⊢
    exact (hnil hb h.symm).symm
  by_cases hne' : b = []
  · rw [hne'] at h ⊢
    exact hnil ha h
  have heq : [slash].intercalate a = [slash].intercalate b := by
    cases r with
    | true => simpa [render] using h
    | false => simpa [render, hne, hne'] using h
  rw [← List.splitOn_intercalate slash (fun e he => (ha e he).2.2) hne, heq,
    List.splitOn_intercalate slash (fun e he => (hb e he).2.2) hne']

/-- What stands before the last name in a path: a slash, or the path of the other names and a
slash. -/
def dirPrefix (q : List GoString) : GoString := if q = [] then [slash] else absPath q ++ [slash]

theorem intercalate_concat (sep n : GoString) :
    ∀ q : List GoString, q ≠ [] → sep.intercalate (q ++ [n]) = sep.intercalate q ++ sep ++ n
  | [], h => absurd rfl h
  | [a], _ => by simp
  | a :: b :: q, _ => by
    have ih := intercalate_concat sep n (b :: q) (by simp)
    simp only [List.cons_append, List.intercalate_cons_cons] at ih ⊢
    rw [ih]
    simp

theorem absPath_concat (q : List GoString) (n : GoString) :
    absPath (q ++ [n]) = dirPrefix q ++ n := by
  unfold dirPrefix
  split_ifs with hq
  · simp [hq, absPath, render]
  · simp [absPath, render, intercalate_concat [slash] n q hq]

theorem absPath_concat_append (q : List GoString) (n s : GoString) :
    absPath (q ++ [n]) ++ s = absPath (q ++ [n ++ s]) := by
  rw [absPath_concat, absPath_concat, List.append_assoc]

theorem dirPrefix_concat_slash (q : List GoString) : ∃ p, dirPrefix q = p ++ [slash] := by
  unfold dirPrefix
  split_ifs
  · exact ⟨[], rfl⟩
  · exact ⟨_, rfl⟩

theorem elements_dirPrefix {q : List GoString} (h : Names q) : elements (dirPrefix q) = q := by
  unfold dirPrefix
  split_ifs with hq
  · subst hq
    decide
  · have habs : isAbs (absPath q ++ [slash]) = true := by simp [absPath, render, isAbs]
    have hsplit : (absPath q ++ [slash]).splitOn slash = (absPath q).splitOn slash ++ [[]] := by
      simpa using List.splitOn_append_cons_self (a := slash) (absPath q) []
    have hq' := elements_absPath h
    unfold elements at hq' ⊢
    rw [isAbs_absPath] at hq'
    rw [habs, hsplit, List.foldl_append, hq', List.foldl_cons, push_of_skip (Or.inl rfl)]
    rfl

/-- Cutting a string behind the last occurrence of a byte. -/
theorem rdropWhile_last_occurrence {d : UInt8} {a b : GoString} (h : d ∉ b) :
    (a ++ d :: b).rdropWhile (· ≠ d) = a ++ [d] := by
  induction b using List.reverseRecOn with
  | nil => rw [List.rdropWhile_concat_neg]; simp
  | append_singleton b x ih =>
    rw [← List.cons_append, ← List.append_assoc, List.rdropWhile_concat_pos]
    · exact ih (fun hd => h (List.mem_append_left _ hd))
    · simp only [ne_eq, decide_eq_true_eq]
      rintro rfl
      exact h (by simp)

theorem rtakeWhile_last_occurrence {d : UInt8} {a b : GoString} (h : d ∉ b) :
    (a ++ d :: b).rtakeWhile (· ≠ d) = b := by
  have hsplit := List.rdropWhile_append_rtakeWhile (p := fun x => decide (x ≠ d))
    (l := a ++ d :: b)
  rw [rdropWhile_last_occurrence h] at hsplit
  exact List.append_cancel_left (hsplit.trans (by simp))

theorem dir_absPath_concat {q : List GoString} {n : GoString} (h : Names (q ++ [n])) :
    dir (absPath (q ++ [n])) = absPath q := by
  obtain ⟨p, hp⟩ := dirPrefix_concat_slash q
  have hdrop : (dirPrefix q ++ n).rdropWhile (· ≠ slash) = dirPrefix q := by
    rw [hp, List.append_assoc, List.singleton_append, rdropWhile_last_occurrence h.last.2.2.2]
  rw [dir, absPath_concat, hdrop, clean, elements_dirPrefix h.left]
  have habs : isAbs (dirPrefix q) = true := by
    unfold dirPrefix
    split_ifs <;> simp [isAbs, absPath, render]
  rw [habs]

/-- The extension of a path is `.tmp` exactly when its last name ends in `.tmp`. -/
theorem ext_eq_tmp_iff {q : List GoString} {n : GoString} (hn : slash ∉ n) :
    ext (absPath (q ++ [n])) = lit ".tmp" ↔ lit ".tmp" <:+ n := by
  have htmp : lit ".tmp" = dot :: lit "tmp" := by decide
  obtain ⟨p, hp⟩ := dirPrefix_concat_slash q
  have hbase : (dirPrefix q ++ n).rtakeWhile (· ≠ slash) = n := by
    rw [hp, List.append_assoc, List.singleton_append, rtakeWhile_last_occurrence hn]
  simp only [ext, absPath_concat, hbase, htmp]
  constructor
  · intro h
    split_ifs at h with hd
    · obtain ⟨b, a, hrev, hb⟩ := List.eq_append_cons_of_mem (List.mem_reverse.mpr hd)
      have hn' : n = a.reverse ++ dot :: b.reverse := by
        rw [← List.reverse_reverse n, hrev]
        simp
      rw [hn', rtakeWhile_last_occurrence (by simpa using hb)] at h
      exact ⟨a.reverse, by rw [hn', h]⟩
  · rintro ⟨m, rfl⟩
    rw [if_pos (by simp), rtakeWhile_last_occurrence (by decide)]

/-! ## Joining -/

/-- The names of `filepath.Join(base, k)` for an absolute base with the given names. -/
def within (base : List GoString) (k : GoString) : List GoString :=
  (k.splitOn slash).foldl (push true) base

theorem names_within {base : List GoString} (h : Names base) (k : GoString) :
    Names (within base k) :=
  names_foldl_push_rooted (fun _ he => slash_not_mem_of_mem_splitOn he) h

theorem join_eq_clean {root : GoString} (h : root ≠ []) (k : GoString) :
    join [root, k] = clean (root ++ slash :: k) := by
  have hdrop : [root, k].dropWhile (· = []) = [root, k] := by simp [h]
  have hcat : [slash].intercalate [root, k] = root ++ slash :: k := by simp
  simp only [join, hdrop, hcat]

/-- Joining onto a path reads the elements of the second one behind those of the first. -/
theorem join_of_ne_nil {root : GoString} (h : root ≠ []) (k : GoString) :
    join [root, k] =
      render (isAbs root) ((k.splitOn slash).foldl (push (isAbs root)) (elements root)) := by
  have habs : isAbs (root ++ slash :: k) = isAbs root := by
    obtain ⟨x, r, rfl⟩ := List.exists_cons_of_ne_nil h
    simp [isAbs]
  rw [join_eq_clean h, clean, habs, elements, habs, List.splitOn_append_cons_self,
    List.foldl_append]
  rfl

/-- A leading empty argument is ignored. -/
theorem join_nil_left {k : GoString} (h : k ≠ []) : join [[], k] = clean k := by
  have hdrop : [[], k].dropWhile (· = []) = [k] := by simp [h]
  have hcat : [slash].intercalate [k] = k := by simp
  simp only [join, hdrop, hcat]

/-- Joining two more elements is joining them with a slash between them. -/
theorem join_pair {e : GoString} (he : e ≠ []) (root f : GoString) :
    join [root, e, f] = join [root, e ++ slash :: f] := by
  by_cases hroot : root = []
  · have hdrop : [root, e, f].dropWhile (· = []) = [e, f] := by simp [hroot, he]
    have hdrop' : [root, e ++ slash :: f].dropWhile (· = []) = [e ++ slash :: f] := by
      simp [hroot]
    simp [join, hdrop, hdrop']
  · have hdrop : [root, e, f].dropWhile (· = []) = [root, e, f] := by simp [hroot]
    have hdrop' : [root, e ++ slash :: f].dropWhile (· = []) = [root, e ++ slash :: f] := by
      simp [hroot]
    simp [join, hdrop, hdrop']

theorem join_abs {root : GoString} (h : isAbs root = true) (k : GoString) :
    join [root, k] = absPath (within (elements root) k) := by
  have hne : root ≠ [] := by
    rintro rfl
    simp [isAbs] at h
  rw [join_of_ne_nil hne, h]
  rfl

theorem within_name {base : List GoString} {n : GoString} (h : IsName n) :
    within base n = base ++ [n] := by
  rw [within, List.splitOn_eq_singleton h.2.2.2, List.foldl_cons, push_of_isName h]
  rfl

/-- The elements of a key that survive cleaning when it has no `..` element. -/
def keyNames (k : GoString) : List GoString :=
  (k.splitOn slash).filter (fun e => e ≠ [] ∧ e ≠ [dot])

theorem foldl_push_of_no_dotdot {r : Bool} {es : List GoString} (hdd : dotdot ∉ es)
    (hs : ∀ e ∈ es, slash ∉ e) (base : List GoString) :
    es.foldl (push r) base = base ++ es.filter (fun e => e ≠ [] ∧ e ≠ [dot]) := by
  induction es generalizing base with
  | nil => simp
  | cons e es ih =>
    simp only [List.mem_cons, not_or] at hdd
    have ih' := ih hdd.2 (fun x hx => hs x (List.mem_cons_of_mem _ hx))
    by_cases hskip : e = [] ∨ e = [dot]
    · rw [List.foldl_cons, push_of_skip hskip, ih', List.filter_cons_of_neg]
      simp only [decide_eq_true_eq]
      tauto
    · rw [not_or] at hskip
      have hn : IsName e := ⟨hskip.1, hskip.2, fun h => hdd.1 h.symm, hs e List.mem_cons_self⟩
      rw [List.foldl_cons, push_of_isName hn, ih', List.filter_cons_of_pos]
      · simp
      · simpa using hskip

theorem within_of_no_dotdot {k : GoString} (h : dotdot ∉ k.splitOn slash) (base : List GoString) :
    within base k = base ++ keyNames k :=
  foldl_push_of_no_dotdot h (fun _ he => slash_not_mem_of_mem_splitOn he) base

theorem names_keyNames {k : GoString} (h : dotdot ∉ k.splitOn slash) : Names (keyNames k) := by
  intro e he
  simp only [keyNames, List.mem_filter, decide_eq_true_eq] at he
  exact ⟨he.2.1, he.2.2, fun hdd => h (hdd ▸ he.1), slash_not_mem_of_mem_splitOn he.1⟩

/-- Joining a relative path without `..` elements, onto any path. -/
theorem join_of_no_dotdot (root : GoString) {k : GoString} (hne : k ≠ []) (hrel : isAbs k = false)
    (hdd : dotdot ∉ k.splitOn slash) :
    join [root, k] = render (isAbs root) (elements root ++ keyNames k) := by
  have hread : ∀ r base, (k.splitOn slash).foldl (push r) base = base ++ keyNames k := fun _ base =>
    foldl_push_of_no_dotdot hdd (fun _ he => slash_not_mem_of_mem_splitOn he) base
  by_cases hroot : root = []
  · subst hroot
    have hnil : elements [] = [] := by decide
    rw [join_nil_left hne, clean, elements, hrel, hread, hnil]
    rfl
  · rw [join_of_ne_nil hroot, hread]

theorem infix_intercalate {e sep : GoString} :
    ∀ {ls : List GoString}, e ∈ ls → e <:+: sep.intercalate ls
  | [], h => absurd h (by simp)
  | [a], h => by
    obtain rfl : e = a := by simpa using h
    simp
  | a :: b :: ls, h => by
    rw [List.intercalate_cons_cons]
    rcases List.mem_cons.mp h with rfl | h
    · exact ⟨[], sep ++ sep.intercalate (b :: ls), by simp⟩
    · have htail : e <:+: sep.intercalate (b :: ls) := infix_intercalate h
      exact htail.trans ⟨a ++ sep, [], by simp⟩

theorem infix_of_mem_splitOn {e k : GoString} (h : e ∈ k.splitOn slash) : e <:+: k := by
  have hk : e <:+: [slash].intercalate (k.splitOn slash) := infix_intercalate h
  rwa [List.intercalate_splitOn] at hk

/-! ## Names that climb -/

/-- The elements of the relative path that `k` cleans to (its leading slashes are ignored). -/
def reduced (k : GoString) : List GoString := (k.splitOn slash).foldl (push false) []

theorem dropLast_take {B : List GoString} (u : Nat) :
    (B.take (B.length - u)).dropLast = B.take (B.length - (u + 1)) := by
  rw [List.dropLast_eq_take, List.take_take, List.length_take]
  congr 1
  omega

/-- In a relative path a `..` element after only `..` elements stays. -/
theorem push_relative_climb (u : Nat) :
    push false (List.replicate u dotdot) dotdot = List.replicate (u + 1) dotdot := by
  have h₁ : ¬ (dotdot = [] ∨ dotdot = [dot]) := by decide
  simp only [push, if_neg h₁, ↓reduceIte]
  cases u with
  | zero => simp
  | succ u =>
    have hne : List.replicate (u + 1) dotdot ≠ [] := by simp
    have hlast : (List.replicate (u + 1) dotdot).getLast? = some dotdot := by
      simp [List.getLast?_replicate]
    rw [if_neg hne, if_pos hlast, ← List.replicate_succ']

/-- In a relative path a `..` element removes the name before it. -/
theorem push_relative_dotdot {kept : List GoString} {x : GoString} (hx : IsName x) :
    push false (kept ++ [x]) dotdot = kept := by
  have h₁ : ¬ (dotdot = [] ∨ dotdot = [dot]) := by decide
  have hlast : (kept ++ [x]).getLast? ≠ some dotdot := by simpa using hx.2.2.1
  simp only [push, if_neg h₁, ↓reduceIte, if_neg hlast, List.dropLast_concat]
  simp

/-- Reading elements onto a base of names: the relative path they reduce to is some number of `..`
elements and then names, and the outcome is the base cut by that number, and these names. -/
theorem foldl_push_climb {B es : List GoString} (hB : Names B) (hs : ∀ e ∈ es, slash ∉ e) :
    ∃ (u : Nat) (d : List GoString), Names d ∧
      es.foldl (push false) [] = List.replicate u dotdot ++ d ∧
      es.foldl (push true) B = B.take (B.length - u) ++ d := by
  induction es using List.reverseRecOn with
  | nil => exact ⟨0, [], names_nil, by simp, by simp⟩
  | append_singleton es e ih =>
    obtain ⟨u, d, hd, hrel, habs⟩ := ih (fun x hx => hs x (List.mem_append_left _ hx))
    have hcut : Names (B.take (B.length - u)) := fun x hx => hB x (List.mem_of_mem_take hx)
    rw [List.foldl_concat, List.foldl_concat, hrel, habs]
    by_cases hskip : e = [] ∨ e = [dot]
    · exact ⟨u, d, hd, push_of_skip hskip, push_of_skip hskip⟩
    · by_cases hdd : e = dotdot
      · subst hdd
        rw [push_rooted_dotdot (hcut.append hd)]
        -- with no name left to remove, `..` stays in the relative path and climbs out of the base
        rcases List.eq_nil_or_concat' d with rfl | ⟨d', x, rfl⟩
        · refine ⟨u + 1, [], names_nil, ?_, ?_⟩
          · rw [List.append_nil, List.append_nil, push_relative_climb]
          · rw [List.append_nil, List.append_nil, dropLast_take]
        · refine ⟨u, d', hd.left, ?_, ?_⟩
          · rw [← List.append_assoc, push_relative_dotdot hd.last]
          · rw [← List.append_assoc, List.dropLast_concat]
      · rw [not_or] at hskip
        have hn : IsName e := ⟨hskip.1, hskip.2, hdd, hs e (by simp)⟩
        rw [push_of_isName hn, push_of_isName hn]
        exact ⟨u, d ++ [e], hd.append (names_singleton hn), by simp, by simp⟩

/-- The `..` elements in front of a reduced path and the names behind them are determined by it. -/
theorem climb_inj {u v : Nat} {d e : List GoString} (hd : Names d) (he : Names e)
    (h : List.replicate u dotdot ++ d = List.replicate v dotdot ++ e) : u = v ∧ d = e := by
  have hnot : ∀ {l : List GoString}, Names l → dotdot ∉ l := fun hl hmem => (hl _ hmem).2.2.1 rfl
  induction u generalizing v with
  | zero =>
    cases v with
    | zero => exact ⟨rfl, h⟩
    | succ v => exact absurd (by rw [show d = _ from h]; simp [List.replicate_succ]) (hnot hd)
  | succ u ih =>
    cases v with
    | zero => exact absurd (by rw [show e = _ from h.symm]; simp [List.replicate_succ]) (hnot he)
    | succ v =>
      obtain ⟨rfl, hde⟩ := ih (v := v) (by simpa [List.replicate_succ] using h)
      exact ⟨rfl, hde⟩

/-- When joining leads to an entry of the base directory: the path reduces to a name, possibly
behind a detour up from the base and down to it again. -/
theorem within_eq_concat_iff {B : List GoString} (hB : Names B) {k n : GoString} :
    within B k = B ++ [n] ↔
      IsName n ∧ ∃ u, reduced k = List.replicate u dotdot ++ (B.drop (B.length - u) ++ [n]) := by
  have hslash : ∀ e ∈ k.splitOn slash, slash ∉ e := fun _ he => slash_not_mem_of_mem_splitOn he
  obtain ⟨u, d, hd, hrel, habs⟩ := foldl_push_climb hB hslash
  rw [within, reduced, hrel, habs]
  have hsplit : ∀ v, B ++ [n] = B.take (B.length - v) ++ (B.drop (B.length - v) ++ [n]) :=
    fun v => by rw [← List.append_assoc, List.take_append_drop]
  constructor
  · intro h
    have hd' : d = B.drop (B.length - u) ++ [n] := List.append_cancel_left (h.trans (hsplit u))
    rw [hd'] at hd ⊢
    exact ⟨hd.last, u, rfl⟩
  · rintro ⟨hn, v, hv⟩
    have hdrop : Names (B.drop (B.length - v)) := fun e he => hB e (List.mem_of_mem_drop he)
    obtain ⟨rfl, rfl⟩ := climb_inj hd (hdrop.append (names_singleton hn)) hv
    exact (hsplit u).symm

end WeftAgent.Go.Filepath
