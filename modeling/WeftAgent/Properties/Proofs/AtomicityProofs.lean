import WeftAgent.Properties.Proofs.TurnProofs

/-!
# What a reader of a property sees during an apply

The temporary files are in the same directories as the properties, and the temporary file of one key
can be the file of another one. While the first is being written, a reader of the second sees an
empty file and then a value that is not its own.
-/

namespace WeftAgent.Properties

open WeftAgent.Go WeftAgent.Go.Filepath WeftAgent.Effect WeftAgent.Fs

variable {root : GoString} {ps : PropertySet} {t : Tree}

/-- The file of a key is absent, as it was in the tree `t`, or holds the value of the key. -/
def Untorn (root : GoString) (ps : PropertySet) (t : Tree) (k : GoString) (t' : Tree) : Prop :=
  t'.fileAt (keyAt root k) = none ∨ t'.fileAt (keyAt root k) = t.fileAt (keyAt root k) ∨
    t'.fileAt (keyAt root k) = some (ps.value k)

instance (k : GoString) : DecidablePred (Untorn root ps t k) := fun _ =>
  inferInstanceAs (Decidable (_ ∨ _ ∨ _))

/-- The content is the one that the file of the key had in the tree `t`, or the value of the key. -/
def OldOrNew (root : GoString) (ps : PropertySet) (t : Tree) (k c : GoString) : Prop :=
  t.fileAt (keyAt root k) = some c ∨ ps.value k = c

/-- The files of the keys, and what they may hold. -/
def KeyFile (root : GoString) (ps : PropertySet) (q : Path) : Prop :=
  ∃ k ∈ ps.keys, q = keyAt root k

def MayHold (root : GoString) (ps : PropertySet) (t : Tree) (q : Path) (c : GoString) : Prop :=
  ∃ k ∈ ps.keys, q = keyAt root k ∧ OldOrNew root ps t k c

theorem mayHold_iff
    (hinj : ∀ k₁ ∈ ps.keys, ∀ k₂ ∈ ps.keys, keyAt root k₁ = keyAt root k₂ → k₁ = k₂)
    {k : GoString} (hk : k ∈ ps.keys) {c : GoString} :
    MayHold root ps t (keyAt root k) c ↔ OldOrNew root ps t k c := by
  constructor
  · rintro ⟨k', hk', heq, h⟩
    rwa [hinj k hk k' hk' heq]
  · exact fun h => ⟨k, hk, rfl, h⟩

theorem untorn_iff_stems
    (hinj : ∀ k₁ ∈ ps.keys, ∀ k₂ ∈ ps.keys, keyAt root k₁ = keyAt root k₂ → k₁ = k₂) (t' : Tree) :
    (∀ k, k ∈ ps.keys → Untorn root ps t k t') ↔
      Stems (KeyFile root ps) (MayHold root ps t) t' := by
  constructor
  · rintro h q ⟨k, hk, rfl⟩ c hc
    refine (mayHold_iff hinj hk).mpr ?_
    rcases h k hk with hnone | hold | hnew
    · rw [hnone] at hc
      cases hc
    · exact .inl (hold ▸ hc)
    · rw [hnew] at hc
      exact .inr (Option.some.inj hc)
  · intro h k hk
    unfold Untorn
    cases hc : t'.fileAt (keyAt root k) with
    | none => exact .inl rfl
    | some c =>
      rcases (mayHold_iff hinj hk).mp (h _ ⟨k, hk, rfl⟩ c hc) with hold | hnew
      · exact .inr (.inl hold.symm)
      · exact .inr (.inr (by rw [hnew]))

/-- At every point between the calls of an apply the file of each key is absent, as before or holds
its value, exactly if for every key whose turn comes and whose temporary file is the file of another
key, the empty content and the value of the key are as that file was before or as it will be. -/
theorem apply_untorn_iff (fuel : Nat) (hroot : isAbs root = true) (hv : ps.validate = none)
    (hdist : ∀ k₁ ∈ ps.keys, ∀ k₂ ∈ ps.keys, clean k₁ = clean k₂ → k₁ = k₂) (t : Tree) :
    (∀ k, k ∈ ps.keys → Always handle (Untorn root ps t k) (propertiesApplyer fuel root ps) t) ↔
      ∀ k₁ ∈ ps.keys, ∀ k₂ ∈ ps.keys, keyAt root k₂ = tmpAt root k₁ → Reached root ps t k₁ →
        OldOrNew root ps t k₂ [] ∧ OldOrNew root ps t k₂ (ps.value k₁) := by
  have hsorted := keyAt_inj_of_clean root hv hdist
  have hinj : ∀ k₁ ∈ ps.keys, ∀ k₂ ∈ ps.keys, keyAt root k₁ = keyAt root k₂ → k₁ = k₂ :=
    fun k₁ hk₁ k₂ hk₂ => hsorted k₁ (mem_sortedKeys.mpr hk₁) k₂ (mem_sortedKeys.mpr hk₂)
  have hstart : Stems (KeyFile root ps) (MayHold root ps t) t :=
    (untorn_iff_stems hinj t).mp fun k _ => .inr (.inl rfl)
  have hvalue : ∀ k ∈ ps.keys, KeyFile root ps (keyAt root k) →
      MayHold root ps t (keyAt root k) (ps.value k) :=
    fun k hk _ => (mayHold_iff hinj hk).mpr (.inr rfl)
  have hstems : Always handle (fun t' => ∀ k, k ∈ ps.keys → Untorn root ps t k t')
        (propertiesApplyer fuel root ps) t ↔
      Always handle (Stems (KeyFile root ps) (MayHold root ps t))
        (propertiesApplyer fuel root ps) t :=
    ⟨fun h => h.imp fun t' => (untorn_iff_stems hinj t').mp,
      fun h => h.imp fun t' => (untorn_iff_stems hinj t').mpr⟩
  rw [← always_forall]
  refine hstems.trans (Iff.trans (watched_propertiesApplyer hvalue fuel hstart) ?_)
  constructor
  · intro h k₁ hk₁ k₂ hk₂ htmp hreached
    have hwrite := (write_mem_apply_iff hroot fuel hsorted hk₁).mpr hreached
    obtain ⟨hempty, hfull⟩ := h _ _ hwrite ⟨k₂, hk₂, htmp.symm⟩
    change MayHold root ps t (tmpAt root k₁) [] at hempty
    change MayHold root ps t (tmpAt root k₁) (ps.value k₁) at hfull
    rw [← htmp, mayHold_iff hinj hk₂] at hempty hfull
    exact ⟨hempty, hfull⟩
  · intro h path data hmem hwatched
    obtain ⟨k₁, hk₁, rfl, rfl⟩ := (writes_propertiesApplyer fuel).trace _ hmem path data rfl
    obtain ⟨k₂, hk₂, htmp⟩ := hwatched
    have hreached := (write_mem_apply_iff hroot fuel hsorted hk₁).mp hmem
    obtain ⟨hempty, hfull⟩ := h k₁ hk₁ k₂ hk₂ htmp.symm hreached
    rw [htmp, mayHold_iff hinj hk₂, mayHold_iff hinj hk₂]
    exact ⟨hempty, hfull⟩

/-- Keys that do not get in each other's way. -/
theorem ownerAndTier_untorn :
    ownerAndTier.validate = none ∧
      ∀ k, k ∈ ownerAndTier.keys → Always handle (Untorn (lit "/r") ownerAndTier Tree.empty k)
        (propertiesApplyer 3 (lit "/r") ownerAndTier) Tree.empty := by
  refine ⟨by decide, (apply_untorn_iff 3 (by decide) (by decide) (by decide) Tree.empty).mpr ?_⟩
  intro k₁ hk₁ k₂ hk₂ htmp
  have hnone : ∀ k₁ ∈ ownerAndTier.keys, ∀ k₂ ∈ ownerAndTier.keys,
      keyAt (lit "/r") k₂ ≠ tmpAt (lit "/r") k₁ := by
    decide
  exact absurd htmp (hnone k₁ hk₁ k₂ hk₂)

/-- A key and one whose file is its temporary file. -/
def keyAndTmpKey : PropertySet :=
  (PropertySet.singleton (lit "a") (lit "x")).insert (lit "a.tmp") (lit "y")

/-- While `a` is written, the file of `a.tmp` is empty and then holds the value of `a`. -/
theorem tmp_key_is_torn :
    keyAndTmpKey.validate = none ∧
      (∀ k₁ ∈ keyAndTmpKey.keys, ∀ k₂ ∈ keyAndTmpKey.keys, clean k₁ = clean k₂ → k₁ = k₂) ∧
      ¬ Always handle (Untorn (lit "/r") keyAndTmpKey Tree.empty (lit "a.tmp"))
        (propertiesApplyer 3 (lit "/r") keyAndTmpKey) Tree.empty := by
  decide

end WeftAgent.Properties
