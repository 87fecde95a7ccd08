import WeftAgent.SshKeys.Proofs.AuthorizedKeyProofs
import WeftAgent.Sshd.AuthStore

/-!
# One push, two consumers

A pushed key set is written to the `authorized_keys` file and given to the store of the embedded
server. The file authorises the key of every line of every entry, the store the first key of every
entry.
-/

namespace WeftAgent.Sshd

open WeftAgent.Go WeftAgent.SshKeys

variable (lib : SshLib)

/-- The keys that `Replace` reads, one for each entry that has a key. -/
def firstKeys (keys : List Key) : List PublicKey :=
  keys.filterMap fun k => (lineKeys lib k.publicKey).head?.map ParsedKey.key

/-- The keys that the `authorized_keys` file authorises, by their wire encodings. -/
def FileAuthorizes (ks : KeySet) (key : PublicKey) : Prop :=
  ∃ p ∈ keysIn lib (renderKeys ks), p.key.wire = key.wire

instance (ks : KeySet) (key : PublicKey) : Decidable (FileAuthorizes lib ks key) :=
  inferInstanceAs (Decidable (∃ p ∈ keysIn lib (renderKeys ks), p.key.wire = key.wire))

/-- The last of the parsed entries with a fingerprint. -/
def lastWith (fp : GoString) (entries : List ParsedKey) : Option ParsedKey :=
  (entries.filter fun p => fingerprintSHA256 lib p.key = fp).getLast?

/-- The maps of the store hold, under each fingerprint, the last entry that has it. -/
structure Holds (entries : List ParsedKey) (s : AuthStore) : Prop where
  key : ∀ fp, s.byFingerprint.lookup fp = (lastWith lib fp entries).map ParsedKey.key
  name : ∀ fp, s.names.lookup fp = (lastWith lib fp entries).map ParsedKey.comment

/-- What the loop of `Replace` has done: the entries that parsed are in the fresh maps and counted
as accepted, the others are counted as rejected. -/
structure Replaced (ks : KeySet) (acc : AuthStore × Nat × Nat) : Prop where
  holds : Holds lib (parsedEntries lib ks) acc.1
  accepted : acc.2.1 = (parsedEntries lib ks).length
  rejected : acc.2.2 =
    ks.keys.countP fun k => (parseAuthorizedKey lib k.publicKey).toOption.isNone

variable {lib}

/-! ## One `Replace` -/

theorem lastWith_append (fp : GoString) (entries : List ParsedKey) (p : ParsedKey) :
    lastWith lib fp (entries ++ [p]) =
      if fp = fingerprintSHA256 lib p.key then some p else lastWith lib fp entries := by
  unfold lastWith
  rw [List.filter_append]
  by_cases hfp : fp = fingerprintSHA256 lib p.key
  · simp [hfp]
  · have hp : ¬ fingerprintSHA256 lib p.key = fp := fun heq => hfp heq.symm
    simp [hfp, hp]

theorem lastWith_eq_some {fp : GoString} {entries : List ParsedKey} {p : ParsedKey}
    (h : lastWith lib fp entries = some p) : p ∈ entries ∧ fingerprintSHA256 lib p.key = fp := by
  have hmem := List.mem_of_getLast? h
  simpa using List.mem_filter.mp hmem

theorem lastWith_eq_none {fp : GoString} {entries : List ParsedKey} :
    lastWith lib fp entries = none ↔ ∀ p ∈ entries, fingerprintSHA256 lib p.key ≠ fp := by
  simp [lastWith]

theorem Holds.insert {entries : List ParsedKey} {s : AuthStore} (h : Holds lib entries s)
    (p : ParsedKey) :
    Holds lib (entries ++ [p])
      ⟨s.byFingerprint.insert (fingerprintSHA256 lib p.key) p.key,
        s.names.insert (fingerprintSHA256 lib p.key) p.comment⟩ := by
  constructor
  all_goals
    intro fp
    rw [lastWith_append]
    split_ifs with hfp
  · rw [hfp, AList.lookup_insert]
    rfl
  · rw [AList.lookup_insert_ne hfp]
    exact h.key fp
  · rw [hfp, AList.lookup_insert]
    rfl
  · rw [AList.lookup_insert_ne hfp]
    exact h.name fp

theorem Replaced.step {keys : List Key} {acc : AuthStore × Nat × Nat}
    (h : Replaced lib ⟨keys⟩ acc) (k : Key) :
    Replaced lib ⟨keys ++ [k]⟩ (replaceStep lib acc k) := by
  obtain ⟨hholds, hacc, hrej⟩ := h
  unfold replaceStep
  cases hp : parseAuthorizedKey lib k.publicKey with
  | error e =>
    have hentries : parsedEntries lib ⟨keys ++ [k]⟩ = parsedEntries lib ⟨keys⟩ := by
      simp [parsedEntries, hp, Except.toOption]
    refine ⟨?_, ?_, ?_⟩
    · rw [hentries]
      exact hholds
    · rw [hentries]
      exact hacc
    · simp [hrej, hp, Except.toOption]
  | ok found =>
    obtain ⟨p, rest⟩ := found
    have hentries : parsedEntries lib ⟨keys ++ [k]⟩ = parsedEntries lib ⟨keys⟩ ++ [p] := by
      simp [parsedEntries, hp, Except.toOption]
    refine ⟨?_, ?_, ?_⟩
    · rw [hentries]
      exact hholds.insert p
    · rw [hentries, List.length_append]
      exact congrArg (· + 1) hacc
    · simp [hrej, hp, Except.toOption]

theorem replaced_replace (ks : KeySet) : Replaced lib ks (AuthStore.replace lib ks) := by
  suffices h : ∀ (rest keys : List Key) acc, Replaced lib ⟨keys⟩ acc →
      Replaced lib ⟨keys ++ rest⟩ (rest.foldl (replaceStep lib) acc) by
    exact h ks.keys [] ({}, 0, 0) ⟨⟨fun _ => rfl, fun _ => rfl⟩, rfl, rfl⟩
  intro rest
  induction rest with
  | nil =>
    intro keys acc h
    simpa using h
  | cons k rest ih =>
    intro keys acc h
    have hnext := ih (keys ++ [k]) _ (h.step k)
    simpa using hnext

theorem Holds.found {entries : List ParsedKey} {s : AuthStore} (h : Holds lib entries s)
    {fp : GoString} {k : PublicKey} (hk : s.byFingerprint.lookup fp = some k) :
    k ∈ entries.map ParsedKey.key ∧ fingerprintSHA256 lib k = fp := by
  rw [h.key] at hk
  obtain ⟨p, hlast, rfl⟩ := Option.map_eq_some_iff.mp hk
  obtain ⟨hmem, hfp⟩ := lastWith_eq_some hlast
  exact ⟨List.mem_map_of_mem hmem, hfp⟩

theorem Holds.present {entries : List ParsedKey} {s : AuthStore} (h : Holds lib entries s)
    {k : PublicKey} (hk : k ∈ entries.map ParsedKey.key) :
    ∃ k', s.byFingerprint.lookup (fingerprintSHA256 lib k) = some k' := by
  obtain ⟨p, hp, rfl⟩ := List.mem_map.mp hk
  rw [h.key]
  cases hlast : lastWith lib (fingerprintSHA256 lib p.key) entries with
  | none => exact absurd rfl (lastWith_eq_none.mp hlast p hp)
  | some p' => exact ⟨p'.key, rfl⟩

/-! ## The two consumers -/

/-- `Replace` reads the first key of every entry. -/
theorem map_key_parsedEntries (ks : KeySet) :
    (parsedEntries lib ks).map ParsedKey.key = firstKeys lib ks.keys := by
  rw [parsedEntries, List.map_filterMap, firstKeys]
  refine List.filterMap_congr fun k _ => ?_
  have hfirst := parseAuthorizedKey_firstKey lib k.publicKey
  cases hp : parseAuthorizedKey lib k.publicKey with
  | error e =>
    rw [hp] at hfirst
    have hnone : lineKeys lib k.publicKey = [] := hfirst
    simp [Except.toOption, hnone]
  | ok found =>
    rw [hp] at hfirst
    simp [Except.toOption, hfirst.1]

theorem mem_firstKeys_of_lookup {ks : KeySet} {fp : GoString} {k : PublicKey}
    (h : (AuthStore.replace lib ks).1.byFingerprint.lookup fp = some k) :
    k ∈ firstKeys lib ks.keys ∧ fingerprintSHA256 lib k = fp := by
  rw [← map_key_parsedEntries]
  exact (replaced_replace ks).holds.found h

theorem lookup_of_mem_firstKeys {ks : KeySet} {k : PublicKey} (h : k ∈ firstKeys lib ks.keys) :
    ∃ k', (AuthStore.replace lib ks).1.byFingerprint.lookup (fingerprintSHA256 lib k) =
      some k' := by
  rw [← map_key_parsedEntries] at h
  exact (replaced_replace ks).holds.present h

theorem authorize_iff (s : AuthStore) (key : PublicKey) :
    (s.authorize lib key).2 = true ↔
      ∃ k, s.byFingerprint.lookup (fingerprintSHA256 lib key) = some k ∧ k.wire = key.wire := by
  rw [AuthStore.authorize]
  cases s.byFingerprint.lookup (fingerprintSHA256 lib key) with
  | none => simp
  | some k => by_cases hw : k.wire = key.wire <;> simp [hw]

theorem fileAuthorizes_iff (ks : KeySet) (key : PublicKey) :
    FileAuthorizes lib ks key ↔
      ∃ e ∈ ks.keys, ∃ p ∈ lineKeys lib e.publicKey, p.key.wire = key.wire := by
  rw [FileAuthorizes, keysIn_eq_lineKeys, lineKeys_renderKeys]
  simp only [List.mem_flatMap]
  constructor
  · rintro ⟨p, ⟨e, he, hp⟩, hw⟩
    exact ⟨e, he, p, hp, hw⟩
  · rintro ⟨e, he, p, hp, hw⟩
    exact ⟨p, ⟨e, he, hp⟩, hw⟩

/-- The file authorises every key that the store can hold. -/
theorem fileAuthorizes_of_firstKeys {ks : KeySet} {k : PublicKey} (h : k ∈ firstKeys lib ks.keys) :
    FileAuthorizes lib ks k := by
  obtain ⟨e, he, hk⟩ := List.mem_filterMap.mp h
  obtain ⟨p, hp, rfl⟩ := Option.map_eq_some_iff.mp hk
  exact (fileAuthorizes_iff ks p.key).mpr ⟨e, he, p, List.mem_of_head? hp, rfl⟩

/-- The file and the store authorise the same keys exactly if every key on a line of an entry is the
first key of some entry, and first keys with different encodings have different fingerprints. -/
theorem consumers_agree_iff (ks : KeySet) :
    (∀ key, FileAuthorizes lib ks key ↔
        ((AuthStore.replace lib ks).1.authorize lib key).2 = true) ↔
      (∀ e ∈ ks.keys, ∀ p ∈ lineKeys lib e.publicKey,
        ∃ k ∈ firstKeys lib ks.keys, k.wire = p.key.wire) ∧
      ∀ k ∈ firstKeys lib ks.keys, ∀ k' ∈ firstKeys lib ks.keys,
        fingerprintSHA256 lib k = fingerprintSHA256 lib k' → k.wire = k'.wire := by
  simp only [authorize_iff]
  constructor
  · intro hagree
    refine ⟨fun e he p hp => ?_, fun k hk k' hk' hfp => ?_⟩
    · obtain ⟨k, hk, hw⟩ :=
        (hagree p.key).mp ((fileAuthorizes_iff ks p.key).mpr ⟨e, he, p, hp, rfl⟩)
      exact ⟨k, (mem_firstKeys_of_lookup hk).1, hw⟩
    · -- both keys are authorised by the one entry under their fingerprint
      obtain ⟨j, hj, hw⟩ := (hagree k).mp (fileAuthorizes_of_firstKeys hk)
      obtain ⟨j', hj', hw'⟩ := (hagree k').mp (fileAuthorizes_of_firstKeys hk')
      rw [hfp, hj', Option.some_inj] at hj
      rw [← hw, ← hw', hj]
  · rintro ⟨hlines, hfps⟩ key
    constructor
    · intro hfile
      obtain ⟨e, he, p, hp, hw⟩ := (fileAuthorizes_iff ks key).mp hfile
      obtain ⟨k, hk, hkw⟩ := hlines e he p hp
      have hfp : fingerprintSHA256 lib k = fingerprintSHA256 lib key := by
        rw [fingerprintSHA256, fingerprintSHA256, hkw, hw]
      -- the entry under the fingerprint may be another key of the set, but not another encoding
      obtain ⟨j, hj⟩ := lookup_of_mem_firstKeys hk
      obtain ⟨hjmem, hjfp⟩ := mem_firstKeys_of_lookup hj
      refine ⟨j, by rw [← hfp, hj], ?_⟩
      rw [hfps j hjmem k hk hjfp, hkw, hw]
    · rintro ⟨k, hk, hw⟩
      obtain ⟨p, hp, hpw⟩ := fileAuthorizes_of_firstKeys (mem_firstKeys_of_lookup hk).1
      exact ⟨p, hp, hpw.trans hw⟩

/-! ## An entry of two lines -/

/-- The Ed25519 key whose 32 bytes are all `b`. -/
def ed25519Key (b : UInt8) : PublicKey :=
  ⟨lit "ssh-ed25519",
    [0, 0, 0, 11] ++ lit "ssh-ed25519" ++ [0, 0, 0, 32] ++ List.replicate 32 b⟩

/-- The base64 texts of the encodings of `ed25519Key 1` and `ed25519Key 2`. -/
def ed25519Text : List GoString :=
  [lit "AAAAC3NzaC1lZDI1NTE5AAAAIAEBAQEBAQEBAQEBAQEBAQEBAQEBAQEBAQEBAQEBAQEB",
    lit "AAAAC3NzaC1lZDI1NTE5AAAAIAICAgICAgICAgICAgICAgICAgICAgICAgICAgICAgIC"]

/-- The `ssh` package on these two keys. -/
def ed25519Lib : SshLib where
  decodeKey text :=
    if text = ed25519Text.get ⟨0, by decide⟩ then .ok (ed25519Key 1)
    else if text = ed25519Text.get ⟨1, by decide⟩ then .ok (ed25519Key 2)
    else .error (.errorf "ssh: short read" [])
  sha256 wire :=
    if wire = (ed25519Key 1).wire then lit "RXm/ruZ0eTzRXKwi1AQEDynB0VgHQ2ac9KPSFdf/YnA"
    else if wire = (ed25519Key 2).wire then lit "baqJQcVDEweKmw1OiZxGooCG2MGxYtwsQQzzOstxmiA"
    else []

/-- One entry that holds two lines, each with a key of its own. -/
def twoLineEntry : KeySet :=
  ⟨[⟨lit "ssh-ed25519 " ++ ed25519Text.get ⟨0, by decide⟩ ++ lit " alice\nssh-ed25519 " ++
    ed25519Text.get ⟨1, by decide⟩⟩]⟩

/-- The set is valid; the file authorises the key of its second line, the store does not. -/
theorem second_line_authorized_by_file_only :
    twoLineEntry.validate = none ∧ FileAuthorizes ed25519Lib twoLineEntry (ed25519Key 2) ∧
      ((AuthStore.replace ed25519Lib twoLineEntry).1.authorize ed25519Lib (ed25519Key 2)).2 =
        false := by
  decide +kernel

end WeftAgent.Sshd
