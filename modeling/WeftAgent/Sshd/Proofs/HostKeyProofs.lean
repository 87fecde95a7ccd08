import WeftAgent.Fs.Proofs.FaultsProofs
import WeftAgent.Sshd.HostKey

/-!
# Stability of the host key

Whatever a process leaves behind when it crashes, the file of the host key is put in place by the
rename, complete or not at all; and it is never replaced, since a process that finds it does not
write. `Kept` is the invariant of the disk and of what has been returned.
-/

namespace WeftAgent.Sshd

open WeftAgent.Go WeftAgent.Go.Filepath WeftAgent.Effect WeftAgent.Fs

variable {Key Signer : Type} {format : KeyFormat Key Signer} {path : GoString}
  {host host' : KeyHost Key Signer}

/-- Reading a complete file gives the signer of its key. -/
theorem parseHostKey_of_fileOf {key : Key} {content : GoString} (h : format.FileOf key content) :
    parseHostKey format content = format.newSignerFromKey key := by
  obtain ⟨blob, hmarshal, rfl⟩ := h
  simp only [parseHostKey, format.decode_encode, format.parse_marshal key blob hmarshal]

/-! ## What has been returned -/

variable {log : List (KeyEvent Key Signer)}

theorem Stable.concat (h : Stable format log) {e : KeyEvent Key Signer}
    (hnew : ∀ signer, e = .returned (.ok signer) →
      ∃ key, .generated key ∈ log ∧ format.newSignerFromKey key = .ok signer)
    (hold : ∀ signer, .returned (.ok signer) ∈ log →
      (∀ key, e ≠ .generated key) ∧ ∀ signer', e = .returned (.ok signer') → signer' = signer) :
    Stable format (log ++ [e]) := by
  intro before signer later heq
  rcases List.eq_nil_or_concat' later with rfl | ⟨later, e', rfl⟩
  · obtain ⟨rfl, hlast⟩ := List.append_inj' heq rfl
    exact ⟨hnew signer (List.singleton_inj.mp hlast), by simp, by simp⟩
  · rw [← List.cons_append, ← List.append_assoc] at heq
    obtain ⟨hlog, hlast⟩ := List.append_inj' heq rfl
    obtain rfl := List.singleton_inj.mp hlast
    obtain ⟨hkey, hnone, hsame⟩ := h before signer later hlog
    obtain ⟨hnone', hsame'⟩ := hold signer (by rw [hlog]; simp)
    refine ⟨hkey, fun key hmem => ?_, fun signer' hmem => ?_⟩
    · rcases List.mem_append.mp hmem with hmem | hmem
      · exact hnone key hmem
      · exact hnone' key (List.mem_singleton.mp hmem).symm
    · rcases List.mem_append.mp hmem with hmem | hmem
      · exact hsame signer' hmem
      · exact hsame' signer' (List.mem_singleton.mp hmem).symm

/-- The signer that a result holds is that of the file. -/
def Serves (format : KeyFormat Key Signer) (path : GoString) (result : Except GoError Signer)
    (host : KeyHost Key Signer) : Prop :=
  ∀ signer, result = .ok signer →
    ∃ content, host.tree.fileAt (resolve path) = some content ∧
      parseHostKey format content = .ok signer

/-- The file is complete, and every signer that was returned is that of the file. -/
structure Kept (format : KeyFormat Key Signer) (path : GoString) (host : KeyHost Key Signer) :
    Prop where
  complete : ∀ content, host.tree.fileAt (resolve path) = some content →
    ∃ key, .generated key ∈ host.log ∧ format.FileOf key content
  named : IsName (path.rtakeWhile (· ≠ slash)) → host.tree.get (resolve path) ≠ some .dir
  served : ∀ result, .returned result ∈ host.log → Serves format path result host
  stable : Stable format host.log

theorem Kept.absentOrComplete (h : Kept format path host) : AbsentOrComplete format path host := by
  unfold AbsentOrComplete
  split
  · trivial
  next content hget => exact h.complete content (Tree.fileAt_eq_some.mpr hget)
  next hget => exact fun hname => h.named hname hget

/-! ## Steps that leave the file alone -/

theorem Kept.of_fileAt (h : Kept format path host)
    (hfile : host'.tree.fileAt (resolve path) = host.tree.fileAt (resolve path))
    (hnamed : IsName (path.rtakeWhile (· ≠ slash)) → host'.tree.get (resolve path) ≠ some .dir)
    (hlog : host'.log = host.log) : Kept format path host' := by
  refine ⟨?_, hnamed, ?_, ?_⟩
  · rw [hfile, hlog]
    exact h.complete
  · intro result hmem
    rw [hlog] at hmem
    unfold Serves
    rw [hfile]
    exact h.served result hmem
  · rw [hlog]
    exact h.stable

theorem Kept.of_get (h : Kept format path host)
    (hget : host'.tree.get (resolve path) = host.tree.get (resolve path))
    (hlog : host'.log = host.log) : Kept format path host' :=
  h.of_fileAt (Tree.fileAt_congr hget) (by rw [hget]; exact h.named) hlog

/-- As long as the file is absent no signer has been returned. -/
theorem Kept.not_returned (h : Kept format path host)
    (habsent : host.tree.fileAt (resolve path) = none) (signer : Signer) :
    .returned (.ok signer) ∉ host.log := by
  intro hmem
  obtain ⟨content, hfile, -⟩ := h.served _ hmem signer rfl
  rw [habsent] at hfile
  cases hfile

theorem Kept.generated (h : Kept format path host)
    (habsent : host.tree.fileAt (resolve path) = none) (key : Key) :
    Kept format path { host with log := host.log ++ [.generated key] } := by
  refine ⟨fun content hfile => ?_, h.named, fun result hmem => ?_, ?_⟩
  · rw [habsent] at hfile
    cases hfile
  · refine h.served result ?_
    simpa using hmem
  · exact h.stable.concat (fun _ heq => by cases heq) fun signer hmem =>
      absurd hmem (h.not_returned habsent signer)

theorem Kept.note (h : Kept format path host) {result : Except GoError Signer}
    (hserves : Serves format path result host) : Kept format path (host.note result) := by
  refine ⟨fun content hfile => ?_, h.named, fun result' hmem => ?_, h.stable.concat ?_ ?_⟩
  · obtain ⟨key, hkey, hof⟩ := h.complete content hfile
    exact ⟨key, List.mem_append_left _ hkey, hof⟩
  · rcases List.mem_append.mp hmem with hmem | hmem
    · exact h.served result' hmem
    · cases List.mem_singleton.mp hmem
      exact hserves
  · rintro signer ⟨⟩
    obtain ⟨content, hfile, hparse⟩ := hserves signer rfl
    obtain ⟨key, hkey, hof⟩ := h.complete content hfile
    exact ⟨key, hkey, by rw [← parseHostKey_of_fileOf hof, hparse]⟩
  · -- both signers are read from the one file
    intro signer hmem
    refine ⟨by simp, ?_⟩
    rintro signer' ⟨⟩
    obtain ⟨content, hfile, hparse⟩ := h.served _ hmem signer rfl
    obtain ⟨content', hfile', hparse'⟩ := hserves signer' rfl
    rw [hfile, Option.some.injEq] at hfile'
    rw [hfile', hparse', Except.ok.injEq] at hparse
    exact hparse

/-! ## The calls -/

theorem answered {op : FsOp} {x : op.Ans} (h : hostEnv host (.inl op) x host')
    (hop : ∀ p, op ≠ .readFile p) :
    MayAnswer host.tree op x host'.tree ∧
      (∀ q, ¬ Touches [] op q → host'.tree.get q = host.tree.get q) ∧ host'.log = host.log := by
  obtain ⟨⟨hans, hframe⟩ | ⟨hfails, -⟩, hlog⟩ := h
  · exact ⟨hans, hframe, hlog⟩
  · cases op with
    | readFile p => exact absurd rfl (hop p)
    | _ => exact hfails.elim

theorem secure_readFile (h : Kept format path host) :
    Secure hostEnv (Kept format path)
      (fun x host' => (∀ b, x = .ok b → host'.tree.fileAt (resolve path) = some b) ∧
        ∀ e, x = .error e → isNotExist e = true → host'.tree.fileAt (resolve path) = none)
      (osReadFile path).left host := by
  refine ⟨h, fun x host' henv => ?_⟩
  obtain ⟨⟨hans, -⟩ | ⟨hfails, htree⟩, hlog⟩ := henv
  · have htree : x = host.tree.readFile (resolve path) ∧ host'.tree = host.tree := by
      generalize host'.tree = t' at hans
      cases hans
      exact ⟨rfl, rfl⟩
    obtain ⟨rfl, htree⟩ := htree
    refine ⟨h.of_get (by rw [htree]) hlog, ?_⟩
    beta_reduce
    rw [htree]
    unfold Tree.readFile Tree.fileAt
    cases host.tree.get (resolve path) with
    | none => simp
    | some node => cases node <;> simp [isNotExist]
  · refine ⟨h.of_get (by rw [htree]) hlog, ?_⟩
    cases x with
    | ok b => exact hfails.elim
    | error e =>
      have hother : isNotExist e = false := hfails
      simp [hother]

/-- The directory of a file path is made on the way to it, not at it. -/
theorem not_touches_mkdirAll_dir (hname : IsName (path.rtakeWhile (· ≠ slash))) :
    ¬ Touches [] (.mkdirAll (dir path)) (resolve path) := by
  rintro ⟨hpre, -⟩
  rw [resolve_of_isName hname] at hpre
  have hlen := hpre.length_le
  rw [List.length_append, List.length_singleton] at hlen
  omega

theorem secure_mkdirAll (h : Kept format path host)
    (habsent : host.tree.fileAt (resolve path) = none) :
    Secure hostEnv (Kept format path) (fun _ host' => host'.tree.fileAt (resolve path) = none)
      (osMkdirAll (dir path)).left host := by
  refine ⟨h, fun x host' henv => ?_⟩
  obtain ⟨hans, hframe, hlog⟩ := answered henv (by simp)
  have hfile := hans.fileAt_mkdirAll (q := resolve path)
  refine ⟨h.of_fileAt hfile (fun hname => ?_) hlog, hfile.trans habsent⟩
  rw [hframe _ (not_touches_mkdirAll_dir hname)]
  exact h.named hname

theorem secure_generateKey (h : Kept format path host)
    (habsent : host.tree.fileAt (resolve path) = none) :
    Secure hostEnv (Kept format path)
      (fun x host' => host'.tree.fileAt (resolve path) = none ∧
        ∀ key, x = .ok key → .generated key ∈ host'.log)
      generateKey host := by
  refine ⟨h, fun x host' henv => ?_⟩
  cases x with
  | ok key =>
    obtain rfl : host' = { host with log := host.log ++ [.generated key] } := henv
    refine ⟨h.generated habsent key, habsent, ?_⟩
    rintro key' ⟨⟩
    simp
  | error err =>
    obtain rfl : host' = host := henv
    exact ⟨h, habsent, by simp⟩

theorem secure_writeFile (h : Kept format path host)
    (habsent : host.tree.fileAt (resolve path) = none) {key : Key}
    (hkey : .generated key ∈ host.log) (data : GoString) :
    Secure hostEnv (Kept format path)
      (fun x host' => .generated key ∈ host'.log ∧ host'.tree.fileAt (resolve path) = none ∧
        (x = none → host'.tree.fileAt (resolve (path ++ lit ".tmp")) = some data))
      (osWriteFile (path ++ lit ".tmp") data).left host := by
  have hne := (resolve_tmp_ne path).symm
  refine ⟨h, fun x host₁ henv => ?_⟩
  obtain ⟨hans, -, hlog⟩ := answered henv (by simp)
  have h₁ : Kept format path host₁ := h.of_get (hans.get_createTrunc hne) hlog
  rw [← hlog] at hkey
  rw [← Tree.fileAt_congr (hans.get_createTrunc hne)] at habsent
  cases x with
  | some e => exact ⟨h₁, hkey, habsent, by simp⟩
  | none =>
    have hopen := hans.fileAt_createTrunc
    refine ⟨h₁, fun x host₂ henv => ?_⟩
    obtain ⟨hans, -, hlog⟩ := answered henv (by simp)
    have hget := hans.get_write hne
    refine ⟨h₁.of_get hget hlog, hlog ▸ hkey, (Tree.fileAt_congr hget).trans habsent, ?_⟩
    rintro rfl
    exact hans.fileAt_write hopen

/-- The rename is the only call that changes the file. -/
theorem secure_rename (h : Kept format path host)
    (habsent : host.tree.fileAt (resolve path) = none) {key : Key}
    (hkey : .generated key ∈ host.log) {data : GoString} (hdata : format.FileOf key data)
    (htmp : host.tree.fileAt (resolve (path ++ lit ".tmp")) = some data) :
    Secure hostEnv (Kept format path)
      (fun x host' => x = none → host'.tree.fileAt (resolve path) = some data)
      (osRename (path ++ lit ".tmp") path).left host := by
  refine ⟨h, fun x host' henv => ?_⟩
  obtain ⟨hans, -, hlog⟩ := answered henv (by simp)
  cases x with
  | some e =>
    have htree := hans.eq_of_rename_fails htmp (resolve_tmp_ne path)
    exact ⟨h.of_get (by rw [htree]) hlog, by simp⟩
  | none =>
    have hfile := hans.fileAt_rename htmp
    refine ⟨⟨?_, fun _ => ?_, fun result hmem signer heq => ?_, ?_⟩, fun _ => hfile⟩
    · intro content hcontent
      rw [hfile, Option.some.injEq] at hcontent
      exact ⟨key, by rwa [hlog], hcontent ▸ hdata⟩
    · rw [Tree.fileAt_eq_some.mp hfile]
      simp
    · rw [hlog, heq] at hmem
      exact absurd hmem (h.not_returned habsent signer)
    · rw [hlog]
      exact h.stable

theorem secure_remove (h : Kept format path host) :
    Secure hostEnv (Kept format path) (fun _ _ => True) (osRemove (path ++ lit ".tmp")).left
      host := by
  refine ⟨h, fun x host' henv => ?_⟩
  obtain ⟨hans, -, hlog⟩ := answered henv (by simp)
  exact ⟨h.of_get (hans.get_remove (resolve_tmp_ne path).symm) hlog, trivial⟩

/-! ## The program -/

theorem serves_error (err : GoError) (host : KeyHost Key Signer) :
    Serves format path (.error err) host := by
  intro signer heq
  cases heq

theorem secure_createHostKey (h : Kept format path host)
    (habsent : host.tree.fileAt (resolve path) = none) :
    Secure hostEnv (Kept format path) (Serves format path) (createHostKey format path) host := by
  unfold createHostKey
  refine (secure_mkdirAll h habsent).bind fun err host₁ h₁ habsent₁ => ?_
  cases err with
  | some e => exact ⟨h₁, serves_error _ _⟩
  | none =>
  refine (secure_generateKey h₁ habsent₁).bind fun generated host₂ h₂ hgenerated => ?_
  obtain ⟨habsent₂, hkey⟩ := hgenerated
  cases generated with
  | error err => exact ⟨h₂, serves_error _ _⟩
  | ok priv =>
  dsimp only
  cases hmarshal : format.marshalPKCS8PrivateKey priv with
  | error err => exact ⟨h₂, serves_error _ _⟩
  | ok blob =>
  have hof : format.FileOf priv (format.encodeToMemory blob) := ⟨blob, hmarshal, rfl⟩
  refine (secure_writeFile h₂ habsent₂ (hkey priv rfl) _).bind fun err host₃ h₃ hwritten => ?_
  obtain ⟨hkey₃, habsent₃, htmp⟩ := hwritten
  cases err with
  | some e => exact ⟨h₃, serves_error _ _⟩
  | none =>
  refine (secure_rename h₃ habsent₃ hkey₃ hof (htmp rfl)).bind fun err host₄ h₄ hfile => ?_
  cases err with
  | some e => exact (secure_remove h₄).bind fun _ _ h₅ _ => ⟨h₅, serves_error _ _⟩
  | none => exact ⟨h₄, fun signer hsigner => ⟨_, hfile rfl, hsigner⟩⟩

theorem secure_loadOrCreateHostKey (h : Kept format path host) :
    Secure hostEnv (Kept format path) (Serves format path) (loadOrCreateHostKey format path)
      host := by
  unfold loadOrCreateHostKey
  split_ifs with hpath
  · exact ⟨h, serves_error _ _⟩
  refine (secure_readFile h).bind fun content host₁ h₁ hread => ?_
  obtain ⟨hfile, habsent⟩ := hread
  cases content with
  | ok b =>
    dsimp only
    cases hparse : parseHostKey format b with
    | error perr => exact ⟨h₁, serves_error _ _⟩
    | ok signer =>
      refine ⟨h₁, ?_⟩
      rintro signer' ⟨⟩
      exact ⟨b, hfile b rfl, hparse⟩
  | error e =>
    dsimp only
    split_ifs with hmissing
    · exact secure_createHostKey h₁ (habsent e rfl hmissing)
    · exact ⟨h₁, serves_error _ _⟩

/-- Over any sequence of calls by processes that crash at any point, on a disk where the host key is
absent at first: it is at every moment absent or one complete generated key, and once a signer has
been returned no key is generated and no other signer is returned. -/
theorem host_key_stable {disk : Tree} (habsent : disk.get (resolve path) = none)
    {m : Machine (hostSig Key) (Except GoError Signer) (KeyHost Key Signer)}
    (h : Boots format path disk m) :
    AbsentOrComplete format path m.world ∧ Stable format m.world.log := by
  have hfile : disk.fileAt (resolve path) = none := Tree.fileAt_eq_none.mpr (.inl habsent)
  have hstart : Kept format path { tree := disk } := by
    refine ⟨?_, ?_, ?_, ?_⟩
    · simp [hfile]
    · simp [habsent]
    · simp
    · simp [Stable]
  have hkept : Kept format path m.world :=
    h.invariant (fun _ hI => secure_loadOrCreateHostKey hI) (fun _ _ hI hQ => hI.note hQ) hstart
  exact ⟨hkept.absentOrComplete, hkept.stable⟩

/-- Keys that are their own text. -/
def plainFormat : KeyFormat GoString GoString where
  marshalPKCS8PrivateKey key := .ok key
  encodeToMemory blob := blob
  decode text := some text
  parsePKCS8PrivateKey blob := .ok blob
  newSignerFromKey key := .ok key
  decode_encode _ := rfl
  parse_marshal _ _ h := h.symm ▸ rfl

/-- No call fails, and each key is another one. -/
def reliableHost : Handler (hostSig GoString) (KeyHost GoString GoString)
  | .inl op, host => ((handle op host.tree).1, { host with tree := (handle op host.tree).2 })
  | .inr (), host =>
    let key := [UInt8.ofNat host.log.length]
    (.ok key, { host with log := host.log ++ [.generated key] })

theorem hostEnv_reliableHost (op : (hostSig GoString).Op) (host : KeyHost GoString GoString) :
    hostEnv host op (reliableHost op host).1 (reliableHost op host).2 := by
  cases op with
  | inl op =>
    have hframe : ∀ q, ¬ Touches [] op q → (handle op host.tree).2.get q = host.tree.get q :=
      fun _ hq => get_handle_of_not_touches host.tree.root_dir hq
    exact ⟨.inl ⟨.done op, hframe⟩, rfl⟩
  | inr op => rfl

/-- The first process crashes when it has opened the temporary file; the second one generates
another key, and the third one loads it. -/
def threeBoots : KeyHost GoString GoString :=
  startAll reliableHost (loadOrCreateHostKey plainFormat (lit "/host")) KeyHost.note
    [some 4, none, none] { tree := Tree.empty }

theorem threeBoots_stable :
    threeBoots.log = [.generated [0], .generated [1], .returned (.ok [1]), .returned (.ok [1])] ∧
      AbsentOrComplete plainFormat (lit "/host") threeBoots ∧
      Stable plainFormat threeBoots.log := by
  have hboots : Boots plainFormat (lit "/host") Tree.empty ⟨threeBoots, none⟩ :=
    reaches_startAll hostEnv_reliableHost _ _
  exact ⟨rfl, host_key_stable (by decide) hboots⟩

end WeftAgent.Sshd
