import WeftAgent.Fs.Proofs.CallsProofs
import WeftAgent.Properties.Properties

/-!
# The calls of an apply, part by part

What is to be known of the single calls of an apply for all of them to satisfy a predicate `P`, if
the answers are those that `adm` admits. The rules follow the loops and the early returns of the
code once; which calls are shown to be issued is a matter of `P`.
-/

namespace WeftAgent.Properties

open WeftAgent.Go WeftAgent.Go.Filepath WeftAgent.Effect WeftAgent.Fs

variable {adm : (op : fsSig.Op) → fsSig.Ans op → Prop} {P : fsSig.Op → Prop}
  {root : GoString} {ps : PropertySet}

theorem issues_removeStale (want : GoMap GoString GoString) {files : List GoString}
    (h : ∀ p ∈ files, P (.remove p)) :
    Issues adm P (fun _ => True) (removeStale want files) := by
  induction files with
  | nil => trivial
  | cons p files ih =>
    have ih' := ih (fun x hx => h x (List.mem_cons_of_mem _ hx))
    unfold removeStale
    split_ifs with hw
    · exact ih'
    · refine ⟨h p List.mem_cons_self, fun r _ => ?_⟩
      cases r with
      | none => exact ih'
      | some e =>
        change Issues _ _ _ (if isNotExist e then removeStale want files else .ret _)
        split_ifs
        · exact ih'
        · trivial

theorem issues_writeKey {k : GoString} (hmkdir : P (.mkdirAll (dir (keyPath root k))))
    (hcreate : P (.createTrunc (tmpPath root k)))
    (hwrite : P (.write (tmpPath root k) (ps.value k)))
    (hrename : P (.rename (tmpPath root k) (keyPath root k)))
    (hremove : P (.remove (tmpPath root k))) :
    Issues adm P (fun _ => True) (writeKey root ps k) := by
  refine ⟨hmkdir, fun r _ => ?_⟩
  cases r with
  | some e => trivial
  | none =>
    refine ⟨hcreate, fun r _ => ?_⟩
    cases r with
    | some e => trivial
    | none =>
      refine ⟨hwrite, fun r _ => ?_⟩
      cases r with
      | some e => trivial
      | none =>
        refine ⟨hrename, fun r _ => ?_⟩
        cases r with
        | none => trivial
        | some e => exact ⟨hremove, fun _ _ => trivial⟩

theorem issues_writeKeys {ks : List GoString}
    (h : ∀ k ∈ ks, Issues adm P (fun _ => True) (writeKey root ps k)) :
    Issues adm P (fun _ => True) (writeKeys root ps ks) := by
  induction ks with
  | nil => trivial
  | cons k ks ih =>
    refine (h k List.mem_cons_self).bind fun r _ => ?_
    cases r with
    | some err => trivial
    | none => exact ih (fun x hx => h x (List.mem_cons_of_mem _ hx))

theorem issues_pruneEntries {visit : GoString → Prog fsSig Bool} {es : List (GoString × Kind)}
    (h : ∀ e ∈ es, Issues adm P (fun _ => True) (visit e.1)) :
    Issues adm P (fun _ => True) (pruneEntries visit es) := by
  induction es with
  | nil => trivial
  | cons e es ih =>
    have ih' := ih (fun x hx => h x (List.mem_cons_of_mem _ hx))
    unfold pruneEntries
    split_ifs with hd
    · refine (h e List.mem_cons_self).bind fun r _ => ?_
      cases r with
      | true => exact ih'
      | false => trivial
    · exact ih'

/-- `B` is an invariant of the directories that are visited. -/
theorem issues_pruneEmptyDirs {B : GoString → Prop} (hread : ∀ d, B d → P (.readDir d))
    (hremove : ∀ d, B d → d ≠ root → P (.remove d))
    (hentry : ∀ d r, B d → adm (.readDir d) r → ∀ e ∈ r.1, B (join [d, e.1]))
    (fuel : Nat) {d : GoString} (hd : B d) :
    Issues adm P (fun _ => True) (pruneEmptyDirs fuel root d) := by
  induction fuel generalizing d with
  | zero => trivial
  | succ fuel ih =>
    refine ⟨hread d hd, fun r hr => ?_⟩
    have hbelow := hentry d r hd hr
    obtain ⟨entries, err⟩ := r
    cases err with
    | some e => trivial
    | none =>
      change Issues _ _ _ (pruneEntries _ entries >>= _)
      refine (issues_pruneEntries fun e he => ?_).bind fun ok _ => ?_
      · exact ih (hbelow e he)
      · cases ok with
        | false => trivial
        | true =>
          by_cases hroot : d = root
          · simp [hroot]
          · simp only [↓reduceIte, if_neg hroot]
            refine ⟨hread d hd, fun r _ => ?_⟩
            obtain ⟨es, err'⟩ := r
            cases es with
            | nil => exact ⟨hremove d hd hroot, fun _ _ => trivial⟩
            | cons e es => trivial

/-- `F` is what is known of the collected files. -/
theorem issues_of_parts {F : List GoString → Prop} (hmkdir : P (.mkdirAll root))
    (hcollect : Issues adm P (fun r => ∀ files, r = .ok files → F files) (collectFiles root))
    (hstale : ∀ files, F files → ∀ p ∈ files, P (.remove p))
    (hwrite : ∀ k ∈ ps.sortedKeys, Issues adm P (fun _ => True) (writeKey root ps k))
    {fuel : Nat} (hprune : Issues adm P (fun _ => True) (pruneEmptyDirs fuel root root)) :
    Issues adm P (fun _ => True) (propertiesApplyer fuel root ps) := by
  have hsync : Issues adm P (fun _ => True) (syncFiles root ps) := by
    refine ⟨hmkdir, fun r _ => ?_⟩
    cases r with
    | some e => trivial
    | none =>
      refine hcollect.bind fun r hr => ?_
      cases r with
      | error e => trivial
      | ok files =>
        refine (issues_removeStale _ (hstale files (hr files rfl))).bind fun r _ => ?_
        cases r with
        | some err => trivial
        | none => exact issues_writeKeys hwrite
  refine hsync.bind fun r _ => ?_
  cases r with
  | some err => trivial
  | none =>
    refine hprune.bind fun ok _ => ?_
    cases ok <;> trivial

end WeftAgent.Properties
