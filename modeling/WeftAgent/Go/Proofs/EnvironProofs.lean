import WeftAgent.Go.Environ
import Mathlib.Data.List.TakeWhile

/-!
# Environments built from maps

The entry of a key without `=` is read back as the key and its value. So the entries of a map whose
keys are all like this give every key its value, in any order; a key with `=` is no variable.
-/

namespace WeftAgent.Go

variable {k v name : GoString}

theorem splitEntry_envEntry (h : equals ∉ k) : splitEntry (envEntry k v) = some ⟨k, v⟩ := by
  have hlit : lit "=" = [equals] := by decide
  have hentry : envEntry k v = k ++ equals :: v := by
    rw [envEntry, hlit, List.append_assoc, List.singleton_append]
  have hname : ∀ b ∈ k, decide (b ≠ equals) = true := by
    intro b hb
    have hne : b ≠ equals := fun heq => h (heq ▸ hb)
    simpa using hne
  have hmem : equals ∈ k ++ equals :: v := by simp
  rw [hentry, splitEntry, if_pos hmem, List.takeWhile_append_of_pos hname,
    List.dropWhile_append_of_pos hname]
  simp

/-- The names of variables have no `=`. -/
theorem equals_not_mem_of_getenv {environ : List GoString} (h : getenv environ name = some v) :
    equals ∉ name := by
  have hmem : ⟨name, v⟩ ∈ environ.filterMap splitEntry :=
    List.mem_reverse.mp (List.of_mem_dlookup h)
  obtain ⟨e, -, he⟩ := List.mem_filterMap.mp hmem
  unfold splitEntry at he
  split_ifs at he
  obtain ⟨rfl, -⟩ := Sigma.mk.inj (Option.some.inj he)
  intro hname
  simpa using List.mem_takeWhile_imp hname

theorem getenv_append (a b : List GoString) (name : GoString) :
    getenv (a ++ b) name = (getenv b name).or (getenv a name) := by
  rw [getenv, List.filterMap_append, List.reverse_append, List.dlookup_append]
  rfl

section Overlays

variable {m : GoMap GoString GoString} {base : List GoString}

/-- The entries of a map are read back as the map. -/
theorem getenv_entries (h : ∀ k ∈ m, equals ∉ k) (name : GoString) :
    getenv (m.entries.map fun e => envEntry e.1 e.2) name = m.lookup name := by
  have hread : (m.entries.map fun e => envEntry e.1 e.2).filterMap splitEntry = m.entries := by
    rw [List.filterMap_map]
    refine (List.filterMap_congr fun e he => ?_).trans List.filterMap_some
    exact splitEntry_envEntry (h e.1 (AList.mem_keys.mp (List.mem_keys_of_mem he)))
  rw [getenv, hread, List.perm_dlookup name _ (List.reverse_perm _)]
  · rfl
  · exact (List.perm_nodupKeys (List.reverse_perm _)).mpr m.nodupKeys

/-- The entries of a map behind some defaults lay the map over them exactly if no key has `=`. -/
theorem overlays_iff :
    Overlays (fun m => base ++ m.entries.map fun e => envEntry e.1 e.2) m ↔
      ∀ k ∈ m, equals ∉ k := by
  constructor
  · intro h k hk
    obtain ⟨v, hv⟩ := GoMap.mem_iff_lookup.mp hk
    exact equals_not_mem_of_getenv (h.overrides m (.refl _) k v hv)
  · intro h
    have hget : ∀ m₁ : GoMap GoString GoString, m₁.entries.Perm m.entries → ∀ name,
        getenv (base ++ m₁.entries.map fun e => envEntry e.1 e.2) name =
          (m.lookup name).or (getenv base name) := by
      intro m₁ hperm name
      have hkeys : ∀ k ∈ m₁, equals ∉ k := fun k hk => h k ((AList.mem_of_perm hperm).mp hk)
      rw [getenv_append, getenv_entries hkeys, AList.perm_lookup hperm]
    constructor
    · intro m₁ m₂ h₁ h₂ name
      rw [hget m₁ h₁, hget m₂ h₂]
    · intro m₁ h₁ k v hv
      rw [hget m₁ h₁, hv]
      rfl
    · intro m₁ h₁ name v hv hname
      have hbase : getenv base name = some v := by simpa using hv
      rw [hget m₁ h₁, AList.lookup_eq_none.mpr hname, Option.none_or, hbase]

end Overlays

end WeftAgent.Go
