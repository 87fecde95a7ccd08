import WeftAgent.Effect.Protocol
import WeftAgent.Fs.Proofs.FaultsProofs
import WeftAgent.SshKeys.Subscriber

/-!
# What a pushed key set changes, and when

Whatever messages arrive and whichever file system calls fail: the store holds the last accepted
set, and at every step the `authorized_keys` file is complete. The writer follows a protocol in
which the file is replaced by a rename only, and renamed only when the temporary file is complete.
-/

namespace WeftAgent.SshKeys

open WeftAgent.Go WeftAgent.Effect WeftAgent.Fs WeftAgent.Sshd

/-! ## The protocol of the writer -/

/-- How far the temporary file has come. -/
inductive Stage where
  | unwritten
  | opened
  | complete

/-- The calls of the writer, and what each answer leads to. -/
inductive WriterRule (path : GoString) (ks : KeySet) :
    Stage → (op : FsOp) → op.Ans → Stage → Prop where
  | mkdirAll (parent : GoString) (err : Option Errno) :
      WriterRule path ks .unwritten (.mkdirAll parent) err .unwritten
  | openFails (e : Errno) :
      WriterRule path ks .unwritten (.createTrunc (path ++ lit ".tmp")) (some e) .unwritten
  | opens : WriterRule path ks .unwritten (.createTrunc (path ++ lit ".tmp")) none .opened
  | writeFails (e : Errno) :
      WriterRule path ks .opened (.write (path ++ lit ".tmp") (renderKeys ks)) (some e) .unwritten
  | writes : WriterRule path ks .opened (.write (path ++ lit ".tmp") (renderKeys ks)) none .complete
  | rename (err : Option Errno) :
      WriterRule path ks .complete (.rename (path ++ lit ".tmp") path) err .unwritten
  | remove (err : Option Errno) :
      WriterRule path ks .unwritten (.remove (path ++ lit ".tmp")) err .unwritten

theorem follows_sshKeysApplyer (path : GoString) (ks : KeySet) :
    Follows (WriterRule path ks) (fun _ _ => True) (sshKeysApplyer path ks) .unwritten := by
  intro err
  refine ⟨.unwritten, .mkdirAll _ err, ?_⟩
  cases err with
  | some e => exact trivial
  | none =>
    intro err
    cases err with
    | some e => exact ⟨.unwritten, .openFails e, trivial⟩
    | none =>
      refine ⟨.opened, .opens, fun err => ?_⟩
      cases err with
      | some e => exact ⟨.unwritten, .writeFails e, trivial⟩
      | none =>
        refine ⟨.complete, .writes, fun err => ⟨.unwritten, .rename err, ?_⟩⟩
        cases err with
        | some e => exact fun err => ⟨.unwritten, .remove err, trivial⟩
        | none => exact trivial

/-- What a stage says about the temporary file. -/
def TmpAt (path : GoString) (ks : KeySet) (t : Tree) : Stage → Prop
  | .unwritten => True
  | .opened => ∃ c, t.fileAt (resolve (path ++ lit ".tmp")) = some c
  | .complete => t.fileAt (resolve (path ++ lit ".tmp")) = some (renderKeys ks)

/-- A call of the writer: the file at the path changes only by a rename that succeeds, and then to
the complete text. -/
theorem writer_step {path : GoString} {ks : KeySet} {stage stage' : Stage} {op : FsOp}
    {x : op.Ans} {t t' : Tree} (hrule : WriterRule path ks stage op x stage')
    (htmp : TmpAt path ks t stage) (hans : MayAnswer t op x t') :
    TmpAt path ks t' stage' ∧
      t'.fileAt (resolve path) =
        if renamesTo path op x then some (renderKeys ks) else t.fileAt (resolve path) := by
  have hne := resolve_tmp_ne path
  cases hrule with
  | mkdirAll parent err => exact ⟨trivial, hans.fileAt_mkdirAll⟩
  | openFails e => exact ⟨trivial, Tree.fileAt_congr (hans.get_createTrunc hne.symm)⟩
  | opens =>
    exact ⟨⟨[], hans.fileAt_createTrunc⟩, Tree.fileAt_congr (hans.get_createTrunc hne.symm)⟩
  | writeFails e => exact ⟨trivial, Tree.fileAt_congr (hans.get_write hne.symm)⟩
  | writes =>
    obtain ⟨c, hc⟩ := htmp
    exact ⟨hans.fileAt_write hc, Tree.fileAt_congr (hans.get_write hne.symm)⟩
  | rename err =>
    refine ⟨trivial, ?_⟩
    cases err with
    | some e =>
      have hsame : t' = t := hans.eq_of_rename_fails htmp hne
      simp [renamesTo, hsame]
    | none =>
      have hmoved := hans.fileAt_rename htmp
      simpa [renamesTo] using hmoved
  | remove err => exact ⟨trivial, Tree.fileAt_congr (hans.get_remove hne.symm)⟩

/-! ## Messages -/

theorem handleMessage_eq_error {β : Type} {unmarshal : GoString → Except GoError KeySet}
    {data : GoString} {apply : KeySet → β}
    (h : ∀ ks, unmarshal data = .ok ks → ks.validate ≠ none) :
    ∃ e, handleMessage unmarshal data apply = .error e := by
  unfold handleMessage
  cases hks : unmarshal data with
  | error e => exact ⟨_, rfl⟩
  | ok ks =>
    cases hv : ks.validate with
    | none => exact absurd hv (h ks hks)
    | some e =>
      simp only [hv]
      exact ⟨_, rfl⟩

theorem handleMessage_eq_ok {β : Type} {unmarshal : GoString → Except GoError KeySet}
    {data : GoString} {apply : KeySet → β} {b : β}
    (h : handleMessage unmarshal data apply = .ok b) :
    ∃ ks, unmarshal data = .ok ks ∧ ks.validate = none ∧ b = apply ks := by
  unfold handleMessage at h
  cases hks : unmarshal data with
  | error e => simp [hks] at h
  | ok ks =>
    cases hv : ks.validate with
    | some e => simp [hks, hv] at h
    | none =>
      simp only [hks, hv, Except.ok.injEq] at h
      exact ⟨ks, rfl, hv, h.symm⟩

/-! ## Runs -/

variable {S : Type}

/-- What holds of the subscriber at every step. -/
structure Inv (cfg : Config) (F : FaultyFs S) (fs₀ : S) (s : Subscriber S) : Prop where
  store : s.authStore = some (match s.accepted with
    | none => {}
    | some ks => (AuthStore.replace cfg.lib ks).1)
  file : s.file cfg F = match s.renamed with
    | none => (F.tree fs₀).fileAt (resolve cfg.authorizedKeysPath)
    | some ks => some (renderKeys ks)
  /-- A message that is being handled was accepted, and its writer keeps to the protocol. -/
  writing : (∃ r, s.writer = .ret r) ∨ ∃ ks stage, s.accepted = some ks ∧
    TmpAt cfg.authorizedKeysPath ks (F.tree s.fs) stage ∧
    Follows (WriterRule cfg.authorizedKeysPath ks) (fun _ _ => True) s.writer stage

theorem Inv.message {cfg : Config} {F : FaultyFs S} {fs₀ : S} {s : Subscriber S}
    (h : Inv cfg F fs₀ s) (data : GoString) : Inv cfg F fs₀ (s.step cfg F (.message data)) := by
  cases hw : s.writer with
  | call op k =>
    simp only [Subscriber.step, hw]
    exact h
  | ret r =>
    cases hm : handleMessage cfg.unmarshal data fun ks => (ks, composed cfg s.authStore ks) with
    | error e =>
      simp only [Subscriber.step, hw, hm]
      exact h
    | ok b =>
      obtain ⟨ks, -, -, rfl⟩ := handleMessage_eq_ok hm
      simp only [Subscriber.step, hw, hm]
      refine ⟨?_, h.file, .inr ⟨ks, .unwritten, rfl, trivial, follows_sshKeysApplyer _ ks⟩⟩
      simp [composed, h.store]

theorem Inv.call {cfg : Config} {F : FaultyFs S} {fs₀ : S} {s : Subscriber S}
    (h : Inv cfg F fs₀ s) : Inv cfg F fs₀ (s.step cfg F .call) := by
  cases hw : s.writer with
  | ret r =>
    simp only [Subscriber.step, hw]
    exact h
  | call op k =>
    rcases h.writing with ⟨r, hr⟩ | ⟨ks, stage, hacc, htmp, hfollows⟩
    · rw [hw] at hr
      cases hr
    · rw [hw] at hfollows
      obtain ⟨stage', hrule, hrest⟩ := hfollows (F.handler op s.fs).1
      obtain ⟨htmp', hfile⟩ := writer_step hrule htmp (F.mayAnswer op s.fs)
      simp only [Subscriber.step, hw]
      refine ⟨h.store, ?_, .inr ⟨ks, stage', hacc, htmp', hrest⟩⟩
      have hbefore := h.file
      simp only [Subscriber.file] at hbefore ⊢
      rw [hfile]
      split_ifs
      · rw [hacc]
      · exact hbefore

theorem inv_run (cfg : Config) (F : FaultyFs S) (fs₀ : S) (evs : List Event) :
    Inv cfg F fs₀ (evs.foldl (Subscriber.step cfg F) (.initial fs₀)) := by
  have hinit : Inv cfg F fs₀ (.initial fs₀) := ⟨rfl, rfl, .inl ⟨none, rfl⟩⟩
  refine List.foldlRecOn evs (Subscriber.step cfg F) hinit fun s hs ev _ => ?_
  cases ev with
  | message data => exact hs.message data
  | call => exact hs.call

/-- The store, the writer and the last accepted set after a message that an idle subscriber
accepts. -/
theorem step_accepted {cfg : Config} {F : FaultyFs S} {s : Subscriber S} {data : GoString}
    {ks : KeySet} {r : Option GoError} (hidle : s.writer = .ret r)
    (hdecoded : cfg.unmarshal data = .ok ks) (hvalid : ks.validate = none) :
    s.step cfg F (.message data) =
      { s with
        authStore := (composed cfg s.authStore ks).1
        writer := sshKeysApplyer cfg.authorizedKeysPath ks
        accepted := some ks } := by
  simp only [Subscriber.step, hidle, handleMessage, hdecoded, hvalid]
  rfl

/-- After any messages and file system calls, with any pattern of failures: the store holds the last
accepted set, and the file holds its initial content or the complete text of the last accepted set
whose rename succeeded. A message that does not decode or validate changes nothing. One that does,
delivered when no other is being handled, is accepted: the store is replaced at once, and the file
will be written. -/
theorem pushes_are_atomic (cfg : Config) (F : FaultyFs S) (fs₀ : S) (evs : List Event) :
    let s := evs.foldl (Subscriber.step cfg F) (.initial fs₀)
    s.authStore = some (match s.accepted with
      | none => {}
      | some ks => (AuthStore.replace cfg.lib ks).1) ∧
    s.file cfg F = (match s.renamed with
      | none => (F.tree fs₀).fileAt (resolve cfg.authorizedKeysPath)
      | some ks => some (renderKeys ks)) ∧
    (∀ data, (∀ ks, cfg.unmarshal data = .ok ks → ks.validate ≠ none) →
      s.step cfg F (.message data) = s) ∧
    ∀ data ks r, s.writer = .ret r → cfg.unmarshal data = .ok ks → ks.validate = none →
      (s.step cfg F (.message data)).accepted = some ks ∧
      (s.step cfg F (.message data)).authStore = some (AuthStore.replace cfg.lib ks).1 ∧
      (s.step cfg F (.message data)).writer = sshKeysApplyer cfg.authorizedKeysPath ks := by
  intro s
  have hinv : Inv cfg F fs₀ s := inv_run cfg F fs₀ evs
  refine ⟨hinv.store, hinv.file, fun data hdata => ?_, fun data ks r hidle hdecoded hvalid => ?_⟩
  · obtain ⟨e, he⟩ : ∃ e, handleMessage cfg.unmarshal data
        (fun ks => (ks, composed cfg s.authStore ks)) = .error e := handleMessage_eq_error hdata
    cases hw : s.writer with
    | call op k => simp only [Subscriber.step, hw]
    | ret r => simp only [Subscriber.step, hw, he]
  · rw [step_accepted hidle hdecoded hvalid]
    exact ⟨rfl, by simp [composed, hinv.store], rfl⟩

/-- A subscriber to which every message revokes all keys. -/
def revoking : Config where
  lib := ⟨fun _ => .error (.errorf "ssh: short read" []), id⟩
  unmarshal _ := .ok ⟨[]⟩
  authorizedKeysPath := lit "/root/.ssh/authorized_keys"

/-- The set without keys is accepted like any other. -/
theorem revoking_push_accepted :
    ((Subscriber.initial Tree.empty).step revoking .reliable (.message [])).accepted = some ⟨[]⟩ ∧
      ((Subscriber.initial Tree.empty).step revoking .reliable (.message [])).authStore =
        some (AuthStore.replace revoking.lib ⟨[]⟩).1 := by
  have h := (pushes_are_atomic revoking .reliable Tree.empty []).2.2.2 [] ⟨[]⟩ none rfl rfl
    (by decide)
  exact ⟨h.1, h.2.1⟩

/-- Between the write and the rename the file is still missing. -/
example :
    let file := fun calls => Subscriber.file revoking .reliable
      ((Event.message [] :: List.replicate calls .call).foldl (Subscriber.step revoking .reliable)
        (.initial Tree.empty))
    file 3 = none ∧ file 4 = some (renderKeys ⟨[]⟩) := by
  decide +kernel

end WeftAgent.SshKeys
