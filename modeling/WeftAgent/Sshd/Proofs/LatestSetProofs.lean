import WeftAgent.Sshd.Proofs.AuthStoreProofs
import Mathlib.Tactic

/-!
# The store as the latest set of keys

After any history of operations the store answers for the set it was given last and for no other:
who is authorised and under which name, how many keys there are, and how many entries of a set were
accepted and rejected.
-/

namespace WeftAgent.Sshd

open WeftAgent.Go WeftAgent.SshKeys

variable {lib : SshLib}

/-- An entry behind which the fingerprint does not occur is the last one with it. -/
theorem lastWith_of_split {l r : List ParsedKey} {p : ParsedKey}
    (hr : ∀ p' ∈ r, fingerprintSHA256 lib p'.key ≠ fingerprintSHA256 lib p.key) :
    lastWith lib (fingerprintSHA256 lib p.key) (l ++ p :: r) = some p := by
  have hnone : r.filter (fun p' => fingerprintSHA256 lib p'.key = fingerprintSHA256 lib p.key) =
      [] := List.filter_eq_nil_iff.mpr fun p' hp' => by simpa using hr p' hp'
  simp [lastWith, List.filter_append, hnone]

/-- Every entry is accepted or rejected. -/
theorem length_parsedEntries_add (ks : KeySet) :
    (parsedEntries lib ks).length +
      ks.keys.countP (fun k => (parseAuthorizedKey lib k.publicKey).toOption.isNone) =
        ks.keys.length := by
  obtain ⟨keys⟩ := ks
  induction keys with
  | nil => rfl
  | cons k keys ih =>
    cases hp : parseAuthorizedKey lib k.publicKey with
    | error e =>
      simp only [parsedEntries, List.filterMap_cons, hp, Except.toOption, List.countP_cons] at ih ⊢
      simp only [Option.map_none, Option.isNone_none, if_true, List.length_cons]
      omega
    | ok found =>
      simp only [parsedEntries, List.filterMap_cons, hp, Except.toOption, List.countP_cons] at ih ⊢
      simp only [Option.map_some, Option.isNone_some, List.length_cons, Bool.false_eq_true,
        if_false]
      omega

/-! ## Histories -/

theorem holds_foldl (ops : List StoreOp) :
    Holds lib (parsedEntries lib (ops.foldl latest ⟨[]⟩))
      (ops.foldl (AuthStore.perform lib) {}) := by
  suffices h : ∀ (ops : List StoreOp) ks s, Holds lib (parsedEntries lib ks) s →
      Holds lib (parsedEntries lib (ops.foldl latest ks)) (ops.foldl (AuthStore.perform lib) s) by
    exact h ops ⟨[]⟩ {} ⟨fun _ => rfl, fun _ => rfl⟩
  intro ops
  induction ops with
  | nil => exact fun ks s h => h
  | cons op ops ih =>
    intro ks s h
    refine ih _ _ ?_
    cases op with
    | replace ks' => exact (replaced_replace ks').holds
    | authorize key => exact h
    | size => exact h

section Injective

variable (hinj : ∀ k k' : PublicKey,
  fingerprintSHA256 lib k = fingerprintSHA256 lib k' → k.wire = k'.wire)

include hinj

theorem fingerprint_eq_iff {k k' : PublicKey} :
    fingerprintSHA256 lib k = fingerprintSHA256 lib k' ↔ k.wire = k'.wire := by
  refine ⟨hinj k k', fun hw => ?_⟩
  rw [fingerprintSHA256, fingerprintSHA256, hw]

/-- Who is authorised, and as whom. -/
theorem Holds.authorize_eq {entries : List ParsedKey} {s : AuthStore} (h : Holds lib entries s)
    (q : PublicKey) :
    s.authorize lib q = match lastWith lib (fingerprintSHA256 lib q) entries with
      | none => ([], false)
      | some p => (p.comment, true) := by
  rw [AuthStore.authorize, h.key, GoMap.index, h.name]
  cases hlast : lastWith lib (fingerprintSHA256 lib q) entries with
  | none => rfl
  | some p =>
    have hwire : p.key.wire = q.wire := hinj _ _ (lastWith_eq_some hlast).2
    simp [hwire]

theorem Holds.size_eq {entries : List ParsedKey} {s : AuthStore} (h : Holds lib entries s) :
    s.size = (entries.map fun p => p.key.wire).toFinset.card := by
  let print : GoString → GoString := fun wire => lit "SHA256:" ++ lib.sha256 wire
  have hkeys : s.byFingerprint.keys.toFinset =
      (entries.map fun p => p.key.wire).toFinset.image print := by
    ext fp
    rw [List.mem_toFinset, ← AList.mem_keys, ← AList.lookup_isSome, h.key, Option.isSome_map,
      Option.isSome_iff_ne_none, ne_eq, lastWith_eq_none]
    simp [print, fingerprintSHA256]
  have hinjective : Function.Injective print := fun w w' hw => hinj ⟨[], w⟩ ⟨[], w'⟩ hw
  calc s.size = s.byFingerprint.keys.toFinset.card :=
        (List.toFinset_card_of_nodup s.byFingerprint.keys_nodup).symm
    _ = (entries.map fun p => p.key.wire).toFinset.card := by
        rw [hkeys, Finset.card_image_of_injective _ hinjective]

/-- After any history the store answers for the set it was given last: a key is authorised exactly
if an entry of that set parses to a key with its wire encoding, under the comment of the last such
entry, and the size is the number of their wire encodings. Of every set that is given to it, the
entries that do not parse are rejected and the others accepted. -/
theorem answers_for_latest (ops : List StoreOp) :
    let s := ops.foldl (AuthStore.perform lib) {}
    let entries := parsedEntries lib (ops.foldl latest ⟨[]⟩)
    (∀ q, (s.authorize lib q).2 = true ↔ ∃ p ∈ entries, p.key.wire = q.wire) ∧
    (∀ q l p r, entries = l ++ p :: r → p.key.wire = q.wire →
      (∀ p' ∈ r, p'.key.wire ≠ q.wire) → (s.authorize lib q).1 = p.comment) ∧
    s.size = (entries.map fun p => p.key.wire).toFinset.card ∧
    ∀ ks, (AuthStore.replace lib ks).2.1 + (AuthStore.replace lib ks).2.2 = ks.keys.length ∧
      (AuthStore.replace lib ks).2.2 =
        ks.keys.countP fun k => (parseAuthorizedKey lib k.publicKey).toOption.isNone := by
  intro s entries
  have hholds : Holds lib entries s := holds_foldl ops
  refine ⟨fun q => ?_, fun q l p r hsplit hwire hrest => ?_, hholds.size_eq hinj, fun ks => ?_⟩
  · rw [hholds.authorize_eq hinj]
    cases hlast : lastWith lib (fingerprintSHA256 lib q) entries with
    | none =>
      have hnone := lastWith_eq_none.mp hlast
      simp only [ne_eq, fingerprint_eq_iff hinj] at hnone
      simpa using hnone
    | some p =>
      obtain ⟨hmem, hfp⟩ := lastWith_eq_some hlast
      simpa using ⟨p, hmem, hinj _ _ hfp⟩
  · have hfp : fingerprintSHA256 lib p.key = fingerprintSHA256 lib q :=
      (fingerprint_eq_iff hinj).mpr hwire
    have hlast : lastWith lib (fingerprintSHA256 lib q) entries = some p := by
      rw [hsplit, ← hfp]
      refine lastWith_of_split fun p' hp' heq => hrest p' hp' ?_
      rw [← hwire]
      exact hinj _ _ heq
    rw [hholds.authorize_eq hinj, hlast]
  · obtain ⟨-, hacc, hrej⟩ : Replaced lib ks _ := replaced_replace ks
    rw [hacc, hrej]
    exact ⟨length_parsedEntries_add ks, rfl⟩

end Injective

/-- The `ssh` package on the two example keys, with the encodings as their own digests. -/
def identityLib : SshLib := { ed25519Lib with sha256 := id }

/-- The set that names the first key twice, after one that held the second key. -/
def rotation : List StoreOp :=
  [.replace ⟨[⟨lit "ssh-ed25519 " ++ ed25519Text.getD 1 [] ++ lit " bob"⟩]⟩,
    .replace ⟨[⟨lit "ssh-ed25519 " ++ ed25519Text.getD 0 [] ++ lit " alice"⟩,
      ⟨lit "ssh-ed25519 " ++ ed25519Text.getD 0 [] ++ lit " carol"⟩,
      ⟨lit "ssh-ed25519 x"⟩]⟩]

theorem identityLib_injective (k k' : PublicKey)
    (h : fingerprintSHA256 identityLib k = fingerprintSHA256 identityLib k') : k.wire = k'.wire :=
  List.append_cancel_left h

theorem rotation_answers_for_latest :
    (∃ p ∈ parsedEntries identityLib (rotation.foldl latest ⟨[]⟩),
        p.key.wire = (ed25519Key 1).wire) ∧
      ((rotation.foldl (AuthStore.perform identityLib) {}).authorize identityLib
        (ed25519Key 1)).2 = true := by
  have hentry : ∃ p ∈ parsedEntries identityLib (rotation.foldl latest ⟨[]⟩),
      p.key.wire = (ed25519Key 1).wire := by decide +kernel
  exact ⟨hentry, ((answers_for_latest identityLib_injective rotation).1 (ed25519Key 1)).mpr hentry⟩

end WeftAgent.Sshd
