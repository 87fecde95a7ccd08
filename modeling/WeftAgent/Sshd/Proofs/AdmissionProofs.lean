import WeftAgent.Sshd.Proofs.LatestSetProofs
import WeftAgent.Sshd.Proofs.UserauthProofs

/-!
# A client with a key of the store gets in

Whatever it has sent before, as long as the server has not hung up: a request that is signed with a
key that is in the store, and was all the time, is accepted. The cache does not stand in the way,
because what it holds is what the store said at some moment of this handshake.
-/

namespace WeftAgent.Sshd

open WeftAgent.Go WeftAgent.Effect WeftAgent.SshKeys

variable {α β : Type}

/-- The handshake as far as it gets with the packets of a client, if no write fails. With each
packet comes the content of the store while the packet is dealt with. -/
def converse (lib : SshLib) :
    Prog authSig α → AuthStore → List (GoString × AuthStore) → Prog authSig α
  | .ret a, _, _ => .ret a
  | .call .readPacket k, _, [] => .call .readPacket k
  | .call .readPacket k, _, (packet, store) :: ps => converse lib (k (.ok packet)) store ps
  | .call (.writePacket _) k, store, ps => converse lib (k none) store ps
  | .call (.publicKeyCallback key) k, store, ps =>
    converse lib (k (publicKeyCallback lib store key)) store ps

section Converse

variable {lib : SshLib} {store : AuthStore} {ps : List (GoString × AuthStore)}

theorem converse_read (k : Except ReadError GoString → Prog authSig α) (packet : GoString)
    (store' : AuthStore) :
    converse lib (.call .readPacket k) store ((packet, store') :: ps) =
      converse lib (k (.ok packet)) store' ps := rfl

/-- A conversation that is continued. -/
theorem converse_append (p : Prog authSig α) (qs : List (GoString × AuthStore))
    (store' : AuthStore) :
    converse lib p store (ps ++ qs) = converse lib (converse lib p store ps) store' qs := by
  induction p generalizing store ps with
  | ret a => rfl
  | call op k ih =>
    cases op with
    | readPacket =>
      cases ps with
      | nil =>
        cases qs with
        | nil => rfl
        | cons q qs => rfl
      | cons q ps => exact ih _
    | writePacket m => exact ih _
    | publicKeyCallback key => exact ih _

end Converse

/-- The key may be used: the request carries a signature by it that the server takes. -/
def Acceptable (cfg : ServerConfig) (lib : AuthLib) (sessionID : GoString) (key : PublicKey)
    (req : UserAuthRequest) : Prop :=
  req.service = lit "ssh-connection" ∧ req.method = methodPublicKey ∧
    ∃ algo pubKeyData sig, signatureOf req.payload = some (algo, pubKeyData, sig) ∧
      underlyingAlgo algo ∈ cfg.publicKeyAuthAlgorithms ∧
      lib.parsePublicKey pubKeyData = .ok key ∧
      algo ∈ algorithmsForKeyFormat key.keyType ∧ sig.format ∈ cfg.publicKeyAuthAlgorithms ∧
      isAlgoCompatible algo sig.format = true ∧
      lib.verify (lib.certNoTouch key) key
        (buildDataSignedForAuth sessionID req algo pubKeyData) sig = none

/-- What the cache holds are answers for contents of the store that the handshake has met. -/
def CacheFrom (lib : AuthLib) (seen : List AuthStore) (cache : List CachedPubKey) : Prop :=
  ∀ c ∈ cache, ∀ key, lib.parsePublicKey c.pubKeyData = .ok key →
    ∃ store ∈ seen, c.result = publicKeyCallback lib.toSshLib store key

theorem publicKeyCallback_of_authorized {lib : SshLib} {store : AuthStore} {key : PublicKey}
    (h : (store.authorize lib key).2 = true) :
    ∃ perms, publicKeyCallback lib store key = .ok perms := by
  unfold publicKeyCallback
  split
  · next hauth => simp [hauth] at h
  · exact ⟨_, rfl⟩

section Loop

variable {cfg : ServerConfig} {lib : AuthLib} {sessionID : GoString} {seen : List AuthStore}
  {store : AuthStore} {ps : List (GoString × AuthStore)}

theorem CacheFrom.add {cache : List CachedPubKey} (h : CacheFrom lib seen cache)
    (hstore : store ∈ seen) {user pubKeyData : GoString} {key : PublicKey}
    (hkey : lib.parsePublicKey pubKeyData = .ok key) :
    CacheFrom lib seen
      (cacheAdd cache ⟨user, pubKeyData, publicKeyCallback lib.toSshLib store key⟩) := by
  intro c hc
  rcases List.mem_append.mp hc with hold | hnew
  · refine h c ?_
    split_ifs at hold
    · exact List.mem_of_mem_drop hold
    · exact hold
  · intro key' hkey'
    rw [List.mem_singleton.mp hnew] at hkey' ⊢
    rw [hkey, Except.ok.injEq] at hkey'
    exact ⟨store, hstore, by rw [hkey']⟩

/-- The case `publickey` returns after at most one look into the store. -/
theorem converse_publicKeyRequest (hstore : store ∈ seen) {req : UserAuthRequest}
    {cache : List CachedPubKey} (hcache : CacheFrom lib seen cache) :
    ∃ cache' round, CacheFrom lib seen cache' ∧
      ∀ f : List CachedPubKey × Round → Prog authSig β,
        converse lib.toSshLib (publicKeyRequest cfg lib sessionID req cache >>= f) store ps =
          converse lib.toSshLib (f (cache', round)) store ps := by
  unfold publicKeyRequest
  cases hpayload : req.payload with
  | nil => exact ⟨cache, _, hcache, fun f => rfl⟩
  | cons flag payload =>
    dsimp only
    cases halgo : parseString payload with
    | none => exact ⟨cache, _, hcache, fun f => rfl⟩
    | some p =>
      obtain ⟨algo, payload₁⟩ := p
      dsimp only
      by_cases halgos : underlyingAlgo algo ∉ cfg.publicKeyAuthAlgorithms
      · rw [if_pos halgos]
        exact ⟨cache, _, hcache, fun f => rfl⟩
      rw [if_neg halgos]
      cases hdata : parseString payload₁ with
      | none => exact ⟨cache, _, hcache, fun f => rfl⟩
      | some p =>
        obtain ⟨pubKeyData, payload₂⟩ := p
        dsimp only
        cases hkey : lib.parsePublicKey pubKeyData with
        | error e => exact ⟨cache, _, hcache, fun f => rfl⟩
        | ok pubKey =>
          dsimp only
          cases hget : cacheGet cache req.user pubKeyData with
          | some candidate => exact ⟨cache, _, hcache, fun f => rfl⟩
          | none => exact ⟨_, _, hcache.add hstore hkey, fun f => rfl⟩

theorem converse_authRequest (hstore : store ∈ seen) {req : UserAuthRequest} {st : AuthState}
    (hcache : CacheFrom lib seen st.cache) :
    ∃ st' round, CacheFrom lib seen st'.cache ∧ ∀ f : AuthState × Round → Prog authSig β,
      converse lib.toSshLib (authRequest cfg lib sessionID req st >>= f) store ps =
        converse lib.toSshLib (f (st', round)) store ps := by
  unfold authRequest
  by_cases hnone : req.method = methodNone
  · simp only [hnone, if_true]
    exact ⟨{ st with noneAuthCount := st.noneAuthCount + 1 }, _, hcache, fun f => rfl⟩
  simp only [hnone, if_false]
  split_ifs with hpassword hinteractive hpublickey hgssapi
  case pos => exact ⟨st, _, hcache, fun f => rfl⟩
  case pos => exact ⟨st, _, hcache, fun f => rfl⟩
  case pos =>
    obtain ⟨cache, round, hcache', hconverse⟩ := converse_publicKeyRequest hstore hcache
    refine ⟨{ st with cache := cache }, round, hcache', fun f => ?_⟩
    rw [Prog.bind_assoc]
    exact hconverse _
  case pos => exact ⟨st, _, hcache, fun f => rfl⟩
  case neg => exact ⟨st, _, hcache, fun f => rfl⟩

/-- A conversation with the loop ends, or the server waits for the next request. -/
theorem converse_userAuthLoop (attempts : Nat) {st : AuthState}
    (hcache : CacheFrom lib seen st.cache) (hps : ∀ p ∈ ps, p.2 ∈ seen) :
    (∃ r, converse lib.toSshLib (userAuthLoop cfg lib sessionID attempts st) store ps = .ret r) ∨
      ∃ attempts' st', converse lib.toSshLib (userAuthLoop cfg lib sessionID attempts st) store ps =
          userAuthLoop cfg lib sessionID (attempts' + 1) st' ∧
        tooManyFailures cfg st' = false ∧ CacheFrom lib seen st'.cache := by
  induction attempts generalizing st store ps with
  | zero =>
    rw [userAuthLoop]
    split_ifs
    · exact .inl ⟨_, rfl⟩
    · exact .inl ⟨_, rfl⟩
  | succ attempts ih =>
    cases hfew : tooManyFailures cfg st with
    | true =>
      rw [userAuthLoop, if_pos hfew]
      exact .inl ⟨_, rfl⟩
    | false =>
      cases ps with
      | nil =>
        refine .inr ⟨attempts, st, ?_, hfew, hcache⟩
        rw [userAuthLoop, if_neg (by simp [hfew])]
        rfl
      | cons p ps =>
        obtain ⟨packet, store'⟩ := p
        rw [List.forall_mem_cons] at hps
        rw [userAuthLoop, if_neg (by simp [hfew]), converse_read]
        dsimp only [afterRead]
        cases unmarshalUserAuthRequest packet with
        | error e => exact .inl ⟨_, rfl⟩
        | ok req =>
          dsimp only
          split_ifs with hservice
          · exact .inl ⟨_, rfl⟩
          obtain ⟨st', round, hcache', hconverse⟩ := converse_authRequest hps.1 hcache
          rw [hconverse]
          cases round with
          | fail e => exact .inl ⟨_, rfl⟩
          | query algo pubKeyData => exact ih hcache' hps.2
          | accept perms => exact .inl ⟨_, rfl⟩
          | refuse authErr =>
            dsimp only [settle]
            split_ifs
            · exact ih hcache' hps.2
            · exact ih hcache' hps.2

/-- The handshake once the first packet was dealt with. -/
theorem converse_serverHandshake (hps : ∀ p ∈ ps, p.2 ∈ seen) (hne : ps ≠ []) :
    (∃ r, converse lib.toSshLib (serverHandshake cfg lib sessionID) store ps = .ret r) ∨
      ∃ attempts st, converse lib.toSshLib (serverHandshake cfg lib sessionID) store ps =
          userAuthLoop cfg lib sessionID (attempts + 1) st ∧
        tooManyFailures cfg st = false ∧ CacheFrom lib seen st.cache := by
  cases ps with
  | nil => exact absurd rfl hne
  | cons p ps =>
    obtain ⟨packet, store'⟩ := p
    rw [List.forall_mem_cons] at hps
    rw [serverHandshake, converse_read]
    dsimp only [afterServiceRequest]
    cases unmarshalServiceRequest packet with
    | error e => exact .inl ⟨_, rfl⟩
    | ok service =>
      dsimp only
      split_ifs
      · exact .inl ⟨_, rfl⟩
      · exact converse_userAuthLoop _ (fun c hc => absurd hc List.not_mem_nil) hps.2

theorem signatureOf_eq_some {payload algo pubKeyData : GoString} {sig : Signature}
    (h : signatureOf payload = some (algo, pubKeyData, sig)) :
    ∃ flag p₀ p₁ p₂, payload = flag :: p₀ ∧ flag ≠ 0 ∧ parseString p₀ = some (algo, p₁) ∧
      parseString p₁ = some (pubKeyData, p₂) ∧ parseSignature p₂ = some (sig, []) := by
  cases payload with
  | nil => cases h
  | cons flag p₀ =>
    simp only [signatureOf, Option.bind_eq_bind, Option.bind_eq_some_iff, Prod.exists] at h
    obtain ⟨algo', p₁, halgo, data', p₂, hdata, sig', rest, hsig, hrest⟩ := h
    split_ifs at hrest with hflag
    rw [not_or, not_not] at hflag
    obtain ⟨rfl, rfl, rfl⟩ : algo' = algo ∧ data' = pubKeyData ∧ sig' = sig := by
      simpa using hrest
    exact ⟨flag, p₀, p₁, p₂, rfl, hflag.1, halgo, hdata, hflag.2 ▸ hsig⟩

/-- A request that is signed as it should be is accepted if the callback grants the key. -/
theorem judge_acceptable {req : UserAuthRequest} {algo pubKeyData payload : GoString}
    {key : PublicKey} {sig : Signature} {perms : Permissions}
    (hsig : parseSignature payload = some (sig, []))
    (halgo : algo ∈ algorithmsForKeyFormat key.keyType)
    (hformat : sig.format ∈ cfg.publicKeyAuthAlgorithms)
    (hcompatible : isAlgoCompatible algo sig.format = true)
    (hverify : lib.verify (noTouchAllowed lib key (some perms)) key
      (buildDataSignedForAuth sessionID req algo pubKeyData) sig = none) :
    judge cfg lib sessionID req false algo pubKeyData key payload (.ok perms) = .accept perms := by
  simp [judge, hsig, halgo, hformat, hcompatible, Except.toOption, hverify]

/-- The permissions are those that some content of the store met so far gives; the cache may hold an
older one than the store. -/
theorem converse_acceptable {key : PublicKey} {req : UserAuthRequest}
    (hreq : Acceptable cfg lib sessionID key req) {st : AuthState}
    (hcache : CacheFrom lib seen st.cache) (hstore : store ∈ seen)
    (hseen : ∀ s ∈ seen, (s.authorize lib.toSshLib key).2 = true) :
    ∃ s ∈ seen, ∃ perms st', publicKeyCallback lib.toSshLib s key = .ok perms ∧
      ∀ f : AuthState × Round → Prog authSig β,
        converse lib.toSshLib (authRequest cfg lib sessionID req st >>= f) store ps =
          converse lib.toSshLib (f (st', .accept perms)) store ps := by
  obtain ⟨-, hmethod, algo, pubKeyData, sig, hsignature, halgos, hkey, halgo, hformat, hcompatible,
    hverify⟩ := hreq
  obtain ⟨flag, p₀, p₁, p₂, hpayload, hflag, hp₁, hp₂, hsig⟩ := signatureOf_eq_some hsignature
  have haccept : ∀ s perms, publicKeyCallback lib.toSshLib s key = .ok perms →
      judge cfg lib sessionID req (flag = 0) algo pubKeyData key p₂
        (publicKeyCallback lib.toSshLib s key) = .accept perms := by
    intro s perms hperms
    have hverify' : lib.verify (noTouchAllowed lib key (some perms)) key
        (buildDataSignedForAuth sessionID req algo pubKeyData) sig = none := by
      rw [noTouchAllowed_publicKeyCallback hperms]
      exact hverify
    rw [hperms, decide_eq_false hflag]
    exact judge_acceptable hsig halgo hformat hcompatible hverify'
  have hne : methodPublicKey ≠ methodNone ∧ methodPublicKey ≠ lit "password" ∧
      methodPublicKey ≠ lit "keyboard-interactive" := by decide
  simp only [authRequest, hmethod, hne.1, hne.2.1, hne.2.2, if_false, if_true, Prog.bind_assoc]
  simp only [publicKeyRequest, hpayload, hp₁, hp₂, hkey, halgos, not_true_eq_false, if_false]
  cases hget : cacheGet st.cache req.user pubKeyData with
  | some candidate =>
    have hmem := List.mem_of_find?_eq_some hget
    have hsame := List.find?_some hget
    simp only [decide_eq_true_eq] at hsame
    obtain ⟨s, hs, hresult⟩ := hcache candidate hmem key (hsame.2 ▸ hkey)
    obtain ⟨perms, hperms⟩ := publicKeyCallback_of_authorized (hseen s hs)
    refine ⟨s, hs, perms, { st with cache := st.cache }, hperms, fun f => ?_⟩
    simp only [hresult, haccept s perms hperms]
    rfl
  | none =>
    obtain ⟨perms, hperms⟩ := publicKeyCallback_of_authorized (hseen store hstore)
    let candidate : CachedPubKey :=
      ⟨req.user, pubKeyData, publicKeyCallback lib.toSshLib store key⟩
    refine ⟨store, hstore, perms, { st with cache := cacheAdd st.cache candidate }, hperms,
      fun f => ?_⟩
    rw [← haccept store perms hperms]
    rfl

/-- Whenever the server still waits for a request, one that is signed with a key that has been in
the store during the whole handshake succeeds. -/
theorem signed_request_succeeds {key : PublicKey} {packet : GoString} {req : UserAuthRequest}
    (hne : ps ≠ [])
    (hwaits : ∃ k, converse lib.toSshLib (serverHandshake cfg lib sessionID) {} ps =
      .call .readPacket k)
    (hstores : ∀ s ∈ store :: ps.map Prod.snd, (s.authorize lib.toSshLib key).2 = true)
    (hpacket : unmarshalUserAuthRequest packet = .ok req)
    (hreq : Acceptable cfg lib sessionID key req) :
    ∃ s ∈ store :: ps.map Prod.snd, ∃ perms, publicKeyCallback lib.toSshLib s key = .ok perms ∧
      converse lib.toSshLib (serverHandshake cfg lib sessionID) {} (ps ++ [(packet, store)]) =
        .ret (.ok perms) := by
  have hps : ∀ p ∈ ps, p.2 ∈ store :: ps.map Prod.snd :=
    fun p hp => List.mem_cons_of_mem _ (List.mem_map_of_mem hp)
  obtain ⟨k, hk⟩ := hwaits
  rw [converse_append _ _ {}]
  rcases converse_serverHandshake hps hne with ⟨r, hr⟩ | ⟨attempts, st, hst, hfew, hcache⟩
  · rw [hk] at hr
    cases hr
  · obtain ⟨s, hs, perms, st', hperms, hconverse⟩ :=
      converse_acceptable hreq hcache List.mem_cons_self hstores
    refine ⟨s, hs, perms, hperms, ?_⟩
    rw [hst, userAuthLoop, if_neg (by simp [hfew]), converse_read]
    simp only [afterRead, hpacket, hreq.1, ne_eq, not_true_eq_false, if_false]
    rw [hconverse]
    rfl

end Loop

/-! ## Alice's key -/

/-- The `ssh` package on two keys; whoever can show the encoding of a key can sign with it. -/
def showingLib : AuthLib where
  toSshLib := identityLib
  parsePublicKey data :=
    if data = (ed25519Key 1).wire then .ok (ed25519Key 1)
    else if data = (ed25519Key 2).wire then .ok (ed25519Key 2)
    else .error (.errorf "ssh: short read" [])
  certNoTouch _ := false
  verify _ key _ sig :=
    if sig.blob = key.wire then none else some (.errorf "ssh: signature did not verify" [])

/-- The first key, under the name of Alice. -/
def aliceSet : KeySet := ⟨[⟨lit "ssh-ed25519 " ++ ed25519Text.getD 0 [] ++ lit " alice"⟩]⟩

def serviceRequest : GoString := [msgServiceRequest] ++ str (lit "ssh-userauth")

/-- What the holder of a key signs, behind the user, the service and the method. -/
def signedPayload (key : PublicKey) : GoString :=
  [1] ++ str (lit "ssh-ed25519") ++ str key.wire ++ str (str (lit "ssh-ed25519") ++ str key.wire)

def signedRequest (key : PublicKey) : GoString :=
  [msgUserAuthRequest] ++ str (lit "root") ++ str (lit "ssh-connection") ++ str methodPublicKey ++
    signedPayload key

theorem alice_succeeds :
    let store := (AuthStore.replace identityLib aliceSet).1
    ∃ perms, converse identityLib (serverHandshake config showingLib []) {}
      [(serviceRequest, store), (signedRequest (ed25519Key 1), store)] = .ret (.ok perms) := by
  intro store
  have hstores : ∀ s ∈ store :: [(serviceRequest, store)].map Prod.snd,
      (s.authorize identityLib (ed25519Key 1)).2 = true := by
    decide +kernel
  have hpacket : unmarshalUserAuthRequest (signedRequest (ed25519Key 1)) =
      .ok ⟨lit "root", lit "ssh-connection", methodPublicKey, signedPayload (ed25519Key 1)⟩ := by
    decide +kernel
  have hreq : Acceptable config showingLib [] (ed25519Key 1)
      ⟨lit "root", lit "ssh-connection", methodPublicKey, signedPayload (ed25519Key 1)⟩ := by
    refine ⟨rfl, rfl, lit "ssh-ed25519", (ed25519Key 1).wire,
      ⟨lit "ssh-ed25519", (ed25519Key 1).wire, []⟩, ?_⟩
    decide +kernel
  have hwaits : ∃ k, converse identityLib (serverHandshake config showingLib []) {}
      [(serviceRequest, store)] = .call .readPacket k := ⟨_, rfl⟩
  obtain ⟨s, hs, perms, hperms, hret⟩ :=
    signed_request_succeeds (List.cons_ne_nil _ _) hwaits hstores hpacket hreq
  exact ⟨perms, hret⟩

end WeftAgent.Sshd
