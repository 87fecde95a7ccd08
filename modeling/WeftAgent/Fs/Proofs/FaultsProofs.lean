import WeftAgent.Fs.Faults
import WeftAgent.Fs.Proofs.CallsProofs

/-!
# What a call that may fail leaves behind

For each call by which a file is replaced: which files it leaves alone, and what its success tells.
-/

namespace WeftAgent.Fs

open WeftAgent.Go WeftAgent.Go.Filepath WeftAgent.Effect

namespace MayAnswer

variable {t t' : Tree} {path data old new : GoString} {err : Option Errno} {q : Path}

theorem fileAt_mkdirAll (h : MayAnswer t (.mkdirAll path) err t') : t'.fileAt q = t.fileAt q := by
  cases h with
  | done => exact Tree.fileAt_mkdirAll (names_resolve path) q
  | mkdirAllFails hfiles => exact hfiles q

theorem get_createTrunc (h : MayAnswer t (.createTrunc path) err t') (hq : q ≠ resolve path) :
    t'.get q = t.get q := by
  cases h with
  | done =>
    change (t.createTrunc (resolve path)).2.get q = t.get q
    rcases t.createTrunc_cases (resolve path) with ⟨hp, heq⟩ | ⟨-, e, heq⟩
    · rw [heq, Tree.get_putFile, if_neg hq]
    · rw [heq]
  | createTruncFails hothers => exact hothers q hq

/-- A file that was opened is there, and empty. -/
theorem fileAt_createTrunc (h : MayAnswer t (.createTrunc path) none t') :
    t'.fileAt (resolve path) = some [] := by
  generalize herr : (none : FsOp.Ans (.createTrunc path)) = err at h
  cases h with
  | done =>
    change none = (t.createTrunc (resolve path)).1 at herr
    change (t.createTrunc (resolve path)).2.fileAt (resolve path) = some []
    rcases t.createTrunc_cases (resolve path) with ⟨hp, heq⟩ | ⟨-, e, heq⟩
    · rw [heq, Tree.fileAt_eq_some, Tree.get_putFile, if_pos rfl]
    · rw [heq] at herr
      cases herr
  | createTruncFails => cases herr

theorem get_write (h : MayAnswer t (.write path data) err t') (hq : q ≠ resolve path) :
    t'.get q = t.get q := by
  cases h with
  | done =>
    change (t.write (resolve path) data).2.get q = t.get q
    unfold Tree.write
    split_ifs
    · rw [Tree.get_putFile, if_neg hq]
    · rfl
  | writeFails hothers => exact hothers q hq

/-- A file that was written to holds what was written. -/
theorem fileAt_write {c : GoString} (h : MayAnswer t (.write path data) none t')
    (hfile : t.fileAt (resolve path) = some c) : t'.fileAt (resolve path) = some data := by
  generalize herr : (none : FsOp.Ans (.write path data)) = err at h
  cases h with
  | done =>
    change (t.write (resolve path) data).2.fileAt (resolve path) = some data
    rw [Tree.write_of_file hfile, Tree.fileAt_eq_some, Tree.get_putFile, if_pos rfl]
  | writeFails => cases herr

/-- A file that was renamed has its content under the new name. -/
theorem fileAt_rename {c : GoString} (h : MayAnswer t (.rename old new) none t')
    (hfile : t.fileAt (resolve old) = some c) : t'.fileAt (resolve new) = some c := by
  generalize herr : (none : FsOp.Ans (.rename old new)) = err at h
  cases h with
  | done => exact Tree.fileAt_rename_of_nil hfile herr.symm
  | renameFails => cases herr

/-- A rename of a file that fails changes nothing. -/
theorem eq_of_rename_fails {c : GoString} {e : Errno}
    (h : MayAnswer t (.rename old new) (some e) t') (hfile : t.fileAt (resolve old) = some c)
    (hne : resolve old ≠ resolve new) : t' = t := by
  generalize herr : (some e : FsOp.Ans (.rename old new)) = err at h
  cases h with
  | done =>
    change some e = (t.rename (resolve old) (resolve new)).1 at herr
    change (t.rename (resolve old) (resolve new)).2 = t
    rcases Tree.rename_of_file hfile hne with ⟨hq, heq⟩ | ⟨-, e', heq⟩
    · rw [heq] at herr
      cases herr
    · rw [heq]
  | renameFails => rfl

theorem get_remove (h : MayAnswer t (.remove path) err t') (hq : q ≠ resolve path) :
    t'.get q = t.get q := by
  cases h with
  | done => exact Tree.get_remove_of_ne hq
  | removeFails => rfl

end MayAnswer

/-! ## The temporary file -/

/-- Appending text without a slash to a path changes the last of its elements. -/
theorem splitOn_append {s : GoString} (hs : slash ∉ s) (p : GoString) :
    ∃ init c, p.splitOn slash = init ++ [c] ∧ (p ++ s).splitOn slash = init ++ [c ++ s] := by
  obtain ⟨init, c, hp⟩ : ∃ init c, p.splitOn slash = init ++ [c] :=
    ⟨_, _, (List.dropLast_append_getLast (List.splitOn_ne_nil slash p)).symm⟩
  refine ⟨init, c, hp, ?_⟩
  have hslash : ∀ e ∈ init ++ [c], slash ∉ e := fun e he =>
    slash_not_mem_of_mem_splitOn (hp ▸ he)
  have hread : [slash].intercalate (init ++ [c]) = p := by
    rw [← hp, List.intercalate_splitOn]
  have hjoin : p ++ s = [slash].intercalate (init ++ [c ++ s]) := by
    rw [← hread]
    by_cases hinit : init = []
    · simp [hinit]
    · rw [intercalate_concat _ _ _ hinit, intercalate_concat _ _ _ hinit, List.append_assoc]
  rw [hjoin]
  refine List.splitOn_intercalate slash (fun e he => ?_) (by simp)
  rcases List.mem_append.mp he with he | he
  · exact hslash e (List.mem_append_left _ he)
  · rw [List.mem_singleton] at he
    rw [he, List.mem_append, not_or]
    exact ⟨hslash c (by simp), hs⟩

/-- The temporary file is never the file itself, however the path is written. -/
theorem resolve_tmp_ne (path : GoString) : resolve (path ++ lit ".tmp") ≠ resolve path := by
  obtain ⟨init, c, hp, htmp⟩ := splitOn_append (s := lit ".tmp") (by decide) path
  have hc : slash ∉ c := slash_not_mem_of_mem_splitOn (p := path) (by rw [hp]; simp)
  have hlen : 4 ≤ (c ++ lit ".tmp").length := by
    rw [List.length_append]
    exact Nat.le_add_left _ _
  have hname : IsName (c ++ lit ".tmp") := by
    refine ⟨fun h => ?_, fun h => ?_, fun h => ?_, fun h => ?_⟩
    · simp [h] at hlen
    · simp [h] at hlen
    · simp [h, dotdot] at hlen
    · rcases List.mem_append.mp h with h | h
      · exact hc h
      · exact absurd h (by decide)
  have hkept : Names (init.foldl (push true) []) :=
    names_foldl_push_rooted (fun e he => slash_not_mem_of_mem_splitOn (p := path)
      (by rw [hp]; exact List.mem_append_left _ he)) names_nil
  simp only [resolve, hp, htmp, List.foldl_append, List.foldl_cons, List.foldl_nil,
    push_of_isName hname]
  generalize init.foldl (push true) [] = kept at hkept
  intro heq
  -- the last element of the path is dropped, or climbs, or is a name that lacks the suffix
  by_cases hskip : c = [] ∨ c = [dot]
  · rw [push_of_skip hskip] at heq
    simpa using congrArg List.length heq
  · by_cases hdd : c = dotdot
    · rw [hdd, push_rooted_dotdot hkept] at heq
      have hlength := congrArg List.length heq
      simp only [List.length_append, List.length_singleton, List.length_dropLast] at hlength
      omega
    · rw [not_or] at hskip
      rw [push_of_isName ⟨hskip.1, hskip.2, hdd, hc⟩] at heq
      have hlast := List.append_cancel_left heq
      simp [lit] at hlast

/-- What stands before the last element of a path ends in a slash, if anything does. -/
theorem splitOn_rdropWhile {p : GoString} {init : List GoString} {c : GoString}
    (h : (p.rdropWhile (· ≠ slash)).splitOn slash = init ++ [c]) : c = [] := by
  generalize hd : p.rdropWhile (· ≠ slash) = d at h
  rcases List.eq_nil_or_concat' d with rfl | ⟨d', x, rfl⟩
  · have hnil : init ++ [c] = [] ++ [[]] := h.symm
    exact List.singleton_inj.mp (List.append_inj' hnil rfl).2
  · have hx : x = slash := by
      have hlast := List.rdropWhile_last_not (fun x => decide (x ≠ slash)) p (by rw [hd]; simp)
      simp only [hd] at hlast
      simpa using hlast
    have hsplit : (d' ++ [slash]).splitOn slash = d'.splitOn slash ++ [[]] := by
      simpa using List.splitOn_append_cons_self (a := slash) d' []
    rw [hx, hsplit] at h
    exact (List.singleton_inj.mp (List.append_inj' h rfl).2).symm

/-- A path whose last element is a name leads to that entry of its directory. -/
theorem resolve_of_isName {p : GoString} (h : IsName (p.rtakeWhile (· ≠ slash))) :
    resolve p = resolve (dir p) ++ [p.rtakeWhile (· ≠ slash)] := by
  have hp := List.rdropWhile_append_rtakeWhile (p := fun x => decide (x ≠ slash)) (l := p)
  obtain ⟨init, c, hsplit, hsplit'⟩ := splitOn_append h.2.2.2 (p.rdropWhile (· ≠ slash))
  rw [splitOn_rdropWhile hsplit, List.nil_append, hp] at hsplit'
  rw [splitOn_rdropWhile hsplit] at hsplit
  rw [dir, resolve_clean, resolve, resolve, hsplit, hsplit', List.foldl_append, List.foldl_append,
    List.foldl_cons, List.foldl_cons, push_of_isName h, push_of_skip (.inl rfl)]
  rfl

end WeftAgent.Fs
