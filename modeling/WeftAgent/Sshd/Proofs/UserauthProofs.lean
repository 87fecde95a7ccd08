import WeftAgent.Effect.Bound
import WeftAgent.Effect.Protocol
import WeftAgent.Sshd.Userauth
import Mathlib.Tactic

/-!
# What an authentication rests on

Whatever the client sends and whatever the store answers meanwhile: a handshake that succeeds has
asked the store for a key, was told its permissions, and has read a request that is signed with this
key for this connection. What the callback said about a key is kept in a cache; the invariant of the
loop is that an entry of the cache is an answer of this handshake.
-/

namespace WeftAgent.Sshd

open WeftAgent.Go WeftAgent.Effect WeftAgent.SshKeys

/-- The calls of a handshake with their answers. -/
abbrev AuthLog := List (Σ op : AuthOp, op.Ans)

/-- The protocol without rules, whose stages are the calls made so far. -/
def Logged (l : AuthLog) (op : AuthOp) (x : op.Ans) (l' : AuthLog) : Prop := l' = l ++ [⟨op, x⟩]

/-- The algorithm, the key and the signature of a `publickey` request that is not a query. -/
def signatureOf (payload : GoString) : Option (GoString × GoString × Signature) :=
  match payload with
  | [] => none
  | flag :: payload => do
    let (algo, payload) ← parseString payload
    let (pubKeyData, payload) ← parseString payload
    let (sig, rest) ← parseSignature payload
    if flag = 0 ∨ rest ≠ [] then none else return (algo, pubKeyData, sig)

/-- The request is of the method `publickey` and carries a signature by the key for the connection,
in the name of the user. -/
def Signs (lib : AuthLib) (sessionID : GoString) (noTouch : Bool) (key : PublicKey)
    (req : UserAuthRequest) : Prop :=
  req.method = methodPublicKey ∧
  ∃ algo pubKeyData sig, signatureOf req.payload = some (algo, pubKeyData, sig) ∧
    lib.parsePublicKey pubKeyData = .ok key ∧
    lib.verify noTouch key (buildDataSignedForAuth sessionID req algo pubKeyData) sig = none

/-- The callback has answered with the permissions for a key. -/
def Granted (l : AuthLog) (key : PublicKey) (perms : Permissions) : Prop :=
  (⟨.publicKeyCallback key, .ok perms⟩ : Σ op : AuthOp, op.Ans) ∈ l

/-- A request was read that is signed with the key. -/
def ReadSigned (lib : AuthLib) (sessionID : GoString) (l : AuthLog) (key : PublicKey)
    (perms : Permissions) : Prop :=
  ∃ packet req, (⟨.readPacket, .ok packet⟩ : Σ op : AuthOp, op.Ans) ∈ l ∧
    unmarshalUserAuthRequest packet = .ok req ∧
    Signs lib sessionID (noTouchAllowed lib key (some perms)) key req

/-- The handshake fails, or the calls account for its success. -/
def Accounted (lib : AuthLib) (sessionID : GoString) (l : AuthLog) : AuthResult → Prop
  | .ok perms => ∃ key, Granted l key perms ∧ ReadSigned lib sessionID l key perms
  | .error _ => True

/-- What the cache holds are answers of the callback. -/
def CacheGranted (lib : AuthLib) (l : AuthLog) (cache : List CachedPubKey) : Prop :=
  ∀ c ∈ cache, ∀ perms, c.result = .ok perms →
    ∃ key, lib.parsePublicKey c.pubKeyData = .ok key ∧ Granted l key perms

section Accounts

variable {cfg : ServerConfig} {lib : AuthLib} {sessionID : GoString} {l : AuthLog}

theorem Granted.mono {l' : AuthLog} (hl : l ⊆ l') {key : PublicKey} {perms : Permissions}
    (h : Granted l key perms) : Granted l' key perms := hl h

theorem CacheGranted.mono {l' : AuthLog} (hl : l ⊆ l') {cache : List CachedPubKey}
    (h : CacheGranted lib l cache) : CacheGranted lib l' cache := by
  intro c hc perms hresult
  obtain ⟨key, hkey, hgranted⟩ := h c hc perms hresult
  exact ⟨key, hkey, hgranted.mono hl⟩

theorem CacheGranted.add {cache : List CachedPubKey} (h : CacheGranted lib l cache)
    {c : CachedPubKey} (hc : ∀ perms, c.result = .ok perms →
      ∃ key, lib.parsePublicKey c.pubKeyData = .ok key ∧ Granted l key perms) :
    CacheGranted lib l (cacheAdd cache c) := by
  intro c' hc'
  rcases List.mem_append.mp hc' with hold | hnew
  · refine h c' ?_
    split_ifs at hold
    · exact List.mem_of_mem_drop hold
    · exact hold
  · rw [List.mem_singleton.mp hnew]
    exact hc

/-- A request that is accepted is signed, and was granted. -/
theorem judge_eq_accept {req : UserAuthRequest} {isQuery : Bool} {algo pubKeyData : GoString}
    {pubKey : PublicKey} {payload : GoString} {result : Except GoError Permissions}
    {perms : Permissions}
    (h : judge cfg lib sessionID req isQuery algo pubKeyData pubKey payload result =
      .accept perms) :
    isQuery = false ∧ result = .ok perms ∧ ∃ sig, parseSignature payload = some (sig, []) ∧
      lib.verify (noTouchAllowed lib pubKey (some perms)) pubKey
        (buildDataSignedForAuth sessionID req algo pubKeyData) sig = none := by
  unfold judge at h
  cases isQuery with
  | true =>
    by_cases hpayload : payload ≠ []
    · simp [hpayload] at h
    · cases result <;> simp [hpayload] at h
  | false =>
    cases hsig : parseSignature payload with
    | none => simp [hsig] at h
    | some parsed =>
      obtain ⟨sig, rest⟩ := parsed
      simp only [Bool.false_eq_true, if_false, hsig] at h
      split_ifs at h with hrest halgo hformat hcompatible
      cases hverify : lib.verify (noTouchAllowed lib pubKey result.toOption) pubKey
          (buildDataSignedForAuth sessionID req algo pubKeyData) sig with
      | some e => simp [hverify] at h
      | none =>
        cases result with
        | error e => simp [hverify] at h
        | ok perms' =>
          simp only [hverify, Round.accept.injEq] at h
          subst h
          exact ⟨rfl, rfl, sig, by rw [not_not.mp hrest], hverify⟩

/-- What a round may come to: a cache of granted answers, and if the request is accepted, a key
that was granted and that has signed it. -/
def RoundAccounted (lib : AuthLib) (sessionID : GoString) (req : UserAuthRequest) (l : AuthLog)
    (cache : List CachedPubKey) (round : Round) : Prop :=
  CacheGranted lib l cache ∧ ∀ perms, round = .accept perms →
    ∃ key, Granted l key perms ∧ Signs lib sessionID (noTouchAllowed lib key (some perms)) key req

theorem follows_publicKeyRequest {req : UserAuthRequest} {cache : List CachedPubKey}
    (hmethod : req.method = methodPublicKey) (hcache : CacheGranted lib l cache) :
    Follows Logged (fun l' (r : List CachedPubKey × Round) =>
        l ⊆ l' ∧ RoundAccounted lib sessionID req l' r.1 r.2)
      (publicKeyRequest cfg lib sessionID req cache) l := by
  unfold publicKeyRequest
  cases hpayload : req.payload with
  | nil => exact ⟨List.Subset.refl l, hcache, by simp⟩
  | cons flag payload =>
    dsimp only
    cases halgo : parseString payload with
    | none => exact ⟨List.Subset.refl l, hcache, by simp⟩
    | some p =>
      obtain ⟨algo, payload₁⟩ := p
      dsimp only
      by_cases halgos : underlyingAlgo algo ∉ cfg.publicKeyAuthAlgorithms
      · rw [if_pos halgos]
        exact ⟨List.Subset.refl l, hcache, by simp⟩
      rw [if_neg halgos]
      cases hdata : parseString payload₁ with
      | none => exact ⟨List.Subset.refl l, hcache, by simp⟩
      | some p =>
        obtain ⟨pubKeyData, payload₂⟩ := p
        dsimp only
        cases hkey : lib.parsePublicKey pubKeyData with
        | error e => exact ⟨List.Subset.refl l, hcache, by simp⟩
        | ok pubKey =>
          dsimp only
          -- the signature, from the point on where the callback's answer is at hand
          have haccept : ∀ {l' : AuthLog} {result : Except GoError Permissions},
              (∀ perms, result = .ok perms → Granted l' pubKey perms) → ∀ perms,
              judge cfg lib sessionID req (flag = 0) algo pubKeyData pubKey payload₂ result =
                .accept perms →
              ∃ key, Granted l' key perms ∧
                Signs lib sessionID (noTouchAllowed lib key (some perms)) key req := by
            intro l' result hresult perms hjudge
            obtain ⟨hquery, hok, sig, hsig, hverify⟩ := judge_eq_accept hjudge
            refine ⟨pubKey, hresult perms hok, hmethod, algo, pubKeyData, sig, ?_, hkey, hverify⟩
            simpa [signatureOf, hpayload, halgo, hdata, hsig] using hquery
          cases hget : cacheGet cache req.user pubKeyData with
          | some candidate =>
            refine ⟨List.Subset.refl l, hcache, haccept fun perms hok => ?_⟩
            have hmem := List.mem_of_find?_eq_some hget
            have hsame := List.find?_some hget
            simp only [decide_eq_true_eq] at hsame
            obtain ⟨key, hkey', hgranted⟩ := hcache candidate hmem perms hok
            rw [hsame.2, hkey] at hkey'
            rwa [← Except.ok.inj hkey'] at hgranted
          | none =>
            intro result
            have hgranted : ∀ perms, result = .ok perms →
                Granted (l ++ [⟨.publicKeyCallback pubKey, result⟩]) pubKey perms := by
              rintro perms rfl
              exact List.mem_append_right _ List.mem_cons_self
            have hl : l ⊆ l ++ [⟨.publicKeyCallback pubKey, result⟩] := List.subset_append_left _ _
            refine ⟨_, rfl, hl, (hcache.mono hl).add fun perms hok => ?_, haccept hgranted⟩
            exact ⟨pubKey, hkey, hgranted perms hok⟩

theorem follows_authRequest {req : UserAuthRequest} {st : AuthState}
    (hcache : CacheGranted lib l st.cache) :
    Follows Logged (fun l' (r : AuthState × Round) =>
        l ⊆ l' ∧ RoundAccounted lib sessionID req l' r.1.cache r.2)
      (authRequest cfg lib sessionID req st) l := by
  unfold authRequest
  split_ifs with hnone hpassword hinteractive hpublickey hgssapi
  case pos => exact ⟨List.Subset.refl l, hcache, by simp⟩
  case pos => exact ⟨List.Subset.refl l, hcache, by simp⟩
  case pos => exact ⟨List.Subset.refl l, hcache, by simp⟩
  case pos => exact (follows_publicKeyRequest hpublickey hcache).bind fun l' r hr => hr
  case pos => exact ⟨List.Subset.refl l, hcache, by simp⟩
  case neg => exact ⟨List.Subset.refl l, hcache, by simp⟩

theorem follows_send {m : ServerMsg} {next : Prog authSig AuthResult}
    (hnext : Follows Logged (Accounted lib sessionID) next (l ++ [⟨.writePacket m, none⟩])) :
    Follows Logged (Accounted lib sessionID) (send m next) l := by
  intro x
  refine ⟨_, rfl, ?_⟩
  cases x with
  | some e => exact trivial
  | none => exact hnext

theorem follows_disconnect {message : String} {st : AuthState} :
    Follows Logged (Accounted lib sessionID) (disconnect message st) l :=
  follows_send trivial

theorem follows_settle {packet : GoString} {req : UserAuthRequest} {st : AuthState} {round : Round}
    {next : AuthState → Prog authSig AuthResult}
    (hread : (⟨.readPacket, .ok packet⟩ : Σ op : AuthOp, op.Ans) ∈ l)
    (hreq : unmarshalUserAuthRequest packet = .ok req)
    (hround : RoundAccounted lib sessionID req l st.cache round)
    (hnext : ∀ st' l', CacheGranted lib l' st'.cache →
      Follows Logged (Accounted lib sessionID) (next st') l') :
    Follows Logged (Accounted lib sessionID) (settle cfg req.method next (st, round)) l := by
  obtain ⟨hcache, haccept⟩ := hround
  have hsub : ∀ c : Σ op : AuthOp, op.Ans, l ⊆ l ++ [c] := fun c => List.subset_append_left _ _
  cases round with
  | fail e => exact trivial
  | query algo pubKeyData => exact follows_send (hnext st _ (hcache.mono (hsub _)))
  | accept perms =>
    obtain ⟨key, hgranted, hsigns⟩ := haccept perms rfl
    refine follows_send ⟨key, hgranted.mono (hsub _), packet, req, hsub _ hread, hreq, hsigns⟩
  | refuse authErr =>
    dsimp only [settle]
    split_ifs
    · exact hnext _ l hcache
    · exact follows_send (hnext _ _ (hcache.mono (hsub _)))

theorem follows_userAuthLoop (attempts : Nat) {st : AuthState}
    (hcache : CacheGranted lib l st.cache) :
    Follows Logged (Accounted lib sessionID) (userAuthLoop cfg lib sessionID attempts st) l := by
  induction attempts generalizing st l with
  | zero =>
    rw [userAuthLoop]
    split_ifs
    · exact follows_disconnect
    · exact follows_disconnect
  | succ attempts ih =>
    rw [userAuthLoop]
    split_ifs
    · exact follows_disconnect
    intro x
    refine ⟨_, rfl, ?_⟩
    rcases x with (_ | e) | packet
    · exact trivial
    · exact trivial
    dsimp only [afterRead]
    cases hreq : unmarshalUserAuthRequest packet with
    | error e => exact trivial
    | ok req =>
      dsimp only
      split_ifs
      · exact trivial
      have hread : (⟨.readPacket, .ok packet⟩ : Σ op : AuthOp, op.Ans) ∈
          l ++ [⟨.readPacket, .ok packet⟩] := List.mem_append_right _ List.mem_cons_self
      have hcache' := hcache.mono (List.subset_append_left l [⟨.readPacket, .ok packet⟩])
      refine (follows_authRequest hcache').bind fun l' r hr => ?_
      exact follows_settle (hr.1 hread) hreq hr.2 fun st' l' hst' => ih hst'

theorem follows_serverHandshake :
    Follows Logged (Accounted lib sessionID) (serverHandshake cfg lib sessionID) [] := by
  intro x
  refine ⟨_, rfl, ?_⟩
  rcases x with (_ | e) | packet
  · exact trivial
  · exact trivial
  dsimp only [afterServiceRequest]
  cases unmarshalServiceRequest packet with
  | error e => exact trivial
  | ok service =>
    dsimp only
    split_ifs
    · exact trivial
    · exact follows_send (follows_userAuthLoop _ fun c hc => absurd hc List.not_mem_nil)

end Accounts

theorem noTouchAllowed_publicKeyCallback {lib : AuthLib} {store : AuthStore} {key key' : PublicKey}
    {perms : Permissions} (h : publicKeyCallback lib.toSshLib store key' = .ok perms) :
    noTouchAllowed lib key (some perms) = lib.certNoTouch key := by
  have hname : lit "no-touch-required" ≠ keyNameExtension := by decide
  have hfingerprint : lit "no-touch-required" ≠ fingerprintExtension := by decide
  unfold publicKeyCallback at h
  split at h
  · cases h
  · obtain rfl := Except.ok.inj h
    have hnone : ∀ name, AList.lookup (lit "no-touch-required")
        ((∅ : GoMap GoString GoString).insert keyNameExtension name) = none := by
      intro name
      rw [AList.lookup_insert_ne hname, AList.lookup_empty]
    simp only [noTouchAllowed, AList.lookup_insert_ne hfingerprint, hnone, Option.isSome_none,
      Bool.false_or]

/-! ## How long a handshake lasts -/

def isRead : AuthOp → Bool
  | .readPacket => true
  | _ => false

/-- The call tells the client that a request was refused. -/
def isFailure : AuthOp → Bool
  | .writePacket (.userAuthFailure _ _) => true
  | _ => false

/-- What the variables that are counted have come to after the `switch`. -/
def Counted (req : UserAuthRequest) (st st' : AuthState) : Prop :=
  st'.authFailures = st.authFailures ∧ st'.noneAuthCount =
    if req.method = methodNone then st.noneAuthCount + 1 else st.noneAuthCount

section Bounds

variable {cfg : ServerConfig} {lib : AuthLib} {sessionID : GoString} {P : AuthOp → Bool}

/-- The `switch` calls nothing but the callback. -/
theorem issues_authRequest (hP : ∀ key, P (.publicKeyCallback key) = false)
    (req : UserAuthRequest) (st : AuthState) :
    Issues (fun _ _ => True) (fun op => P op = false) (fun r => Counted req st r.1)
      (authRequest cfg lib sessionID req st) := by
  have hpublickey : Issues (fun _ _ => True) (fun op => P op = false) (fun _ => True)
      (publicKeyRequest cfg lib sessionID req st.cache) := by
    unfold publicKeyRequest
    dsimp only
    split
    · exact trivial
    split
    · exact trivial
    split_ifs
    rotate_left
    · exact trivial
    split
    · exact trivial
    split
    · exact trivial
    split
    · exact trivial
    · exact ⟨hP _, fun _ _ => trivial⟩
  unfold authRequest Counted
  by_cases hnone : req.method = methodNone
  · simp [hnone]
  simp only [hnone, if_false]
  split_ifs
  case pos => exact ⟨rfl, rfl⟩
  case pos => exact ⟨rfl, rfl⟩
  case pos => exact hpublickey.bind fun r _ => ⟨rfl, rfl⟩
  case pos => exact ⟨rfl, rfl⟩
  case neg => exact ⟨rfl, rfl⟩

theorem atMost_send {n : Nat} {m : ServerMsg} {next : Prog authSig AuthResult}
    (hm : P (.writePacket m) = false) (hnext : AtMost P n next) : AtMost P n (send m next) := by
  refine .call_of_not hm fun x => ?_
  cases x with
  | some e => exact trivial
  | none => exact hnext

/-- A round of the loop, from its settlement. -/
theorem atMost_round (hP : ∀ key, P (.publicKeyCallback key) = false) {n attempts : Nat}
    {st : AuthState} (hfew : tooManyFailures cfg st = false)
    (hsettle : ∀ req r, Counted req st r.1 →
      AtMost P n (settle cfg req.method (userAuthLoop cfg lib sessionID attempts) r)) :
    ∃ k : Except ReadError GoString → Prog authSig AuthResult,
      userAuthLoop cfg lib sessionID (attempts + 1) st = .call .readPacket k ∧
        ∀ x, AtMost P n (k x) := by
  rw [userAuthLoop, if_neg (by simp [hfew])]
  refine ⟨_, rfl, fun x => ?_⟩
  rcases x with (_ | e) | packet
  · exact trivial
  · exact trivial
  dsimp only [afterRead]
  cases unmarshalUserAuthRequest packet with
  | error e => exact trivial
  | ok req =>
    dsimp only
    split_ifs
    · exact trivial
    · exact .bind_of_none (issues_authRequest hP req st) fun r hr => hsettle req r hr

/-- Each round reads one request. -/
theorem atMost_isRead (attempts : Nat) (st : AuthState) :
    AtMost isRead attempts (userAuthLoop cfg lib sessionID attempts st) := by
  induction attempts generalizing st with
  | zero =>
    rw [userAuthLoop]
    split_ifs
    · exact atMost_send rfl trivial
    · exact atMost_send rfl trivial
  | succ attempts ih =>
    cases hfew : tooManyFailures cfg st with
    | true =>
      rw [userAuthLoop, if_pos hfew]
      exact atMost_send rfl trivial
    | false =>
      have hsettle : ∀ req r, Counted req st r.1 → AtMost isRead attempts
          (settle cfg req.method (userAuthLoop cfg lib sessionID attempts) r) := by
        rintro req ⟨st', _ | _ | authErr | _⟩ -
        · exact trivial
        · exact atMost_send rfl (ih st')
        · dsimp only [settle]
          split_ifs
          · exact ih _
          · exact atMost_send rfl (ih _)
        · exact atMost_send rfl trivial
      obtain ⟨k, hk, hrest⟩ := atMost_round (fun _ => rfl) hfew hsettle
      rw [hk]
      exact .call hrest

/-- How many more refusals the client can be told about: the next to last of `maxAuthTries` ends
the connection without a word, and a first request of the method `none` is free. -/
def failuresLeft (cfg : ServerConfig) (st : AuthState) : Nat :=
  cfg.maxAuthTries.toNat - 1 - st.authFailures +
    if st.authFailures = 0 ∧ st.noneAuthCount = 0 then 1 else 0

theorem failuresLeft_le {req : UserAuthRequest} {st st' : AuthState} (h : Counted req st st') :
    failuresLeft cfg st' ≤ failuresLeft cfg st := by
  obtain ⟨hfailures, hnone⟩ := h
  have hcount : st.noneAuthCount ≤ st'.noneAuthCount := by
    rw [hnone]
    split_ifs <;> omega
  unfold failuresLeft
  rw [hfailures]
  split_ifs <;> omega

theorem failuresLeft_refused {req : UserAuthRequest} {st st' : AuthState} (h : Counted req st st')
    (authErr : GoError) (hfew : tooManyFailures cfg (st'.refused req.method authErr) = false)
    (hmax : 0 < cfg.maxAuthTries) :
    failuresLeft cfg (st'.refused req.method authErr) + 1 ≤ failuresLeft cfg st := by
  obtain ⟨hfailures, hnone⟩ := h
  obtain ⟨tries, htries⟩ := Int.eq_ofNat_of_zero_le hmax.le
  have hpos : 0 < tries := by omega
  have hlt : (st'.refused req.method authErr).authFailures < tries := by
    simpa [tooManyFailures, htries, hpos] using hfew
  have htoNat : cfg.maxAuthTries.toNat = tries := by rw [htries, Int.toNat_natCast]
  have hcount : (st'.refused req.method authErr).noneAuthCount = st'.noneAuthCount := rfl
  unfold failuresLeft
  rw [htoNat, hcount]
  by_cases hcounted : 0 < st'.authFailures ∨ req.method ≠ methodNone ∨ st'.noneAuthCount ≠ 1
  · have hfailures' : (st'.refused req.method authErr).authFailures = st'.authFailures + 1 :=
      if_pos hcounted
    have hlater : ¬ (st.authFailures + 1 = 0 ∧ st'.noneAuthCount = 0) := by omega
    rw [hfailures', hfailures] at hlt ⊢
    rw [if_neg hlater]
    split_ifs <;> omega
  · -- the first request, of the method `none`
    have hfailures' : (st'.refused req.method authErr).authFailures = st'.authFailures :=
      if_neg hcounted
    rw [not_or, not_or, not_not, not_not] at hcounted
    obtain ⟨hzero, hmethod, hone⟩ := hcounted
    rw [if_pos hmethod] at hnone
    rw [hfailures', hfailures] at hlt ⊢
    split_ifs <;> omega

/-- A refusal that the client is told about is one of those left. -/
theorem atMost_isFailure (hmax : 0 < cfg.maxAuthTries) (attempts : Nat) (st : AuthState) :
    AtMost isFailure (failuresLeft cfg st) (userAuthLoop cfg lib sessionID attempts st) := by
  induction attempts generalizing st with
  | zero =>
    rw [userAuthLoop]
    split_ifs
    · exact atMost_send rfl trivial
    · exact atMost_send rfl trivial
  | succ attempts ih =>
    cases hfew : tooManyFailures cfg st with
    | true =>
      rw [userAuthLoop, if_pos hfew]
      exact atMost_send rfl trivial
    | false =>
      have hsettle : ∀ req r, Counted req st r.1 → AtMost isFailure (failuresLeft cfg st)
          (settle cfg req.method (userAuthLoop cfg lib sessionID attempts) r) := by
        rintro req ⟨st', _ | _ | authErr | _⟩ hcounted
        · exact trivial
        · exact atMost_send rfl ((ih st').mono (failuresLeft_le hcounted))
        · dsimp only [settle]
          cases hfew' : tooManyFailures cfg (st'.refused req.method authErr) with
          | true =>
            -- the connection is ended without a word
            rw [if_pos rfl]
            cases attempts with
            | zero =>
              rw [userAuthLoop, if_pos hfew']
              exact atMost_send rfl trivial
            | succ attempts =>
              rw [userAuthLoop, if_pos hfew']
              exact atMost_send rfl trivial
          | false =>
            rw [if_neg (by simp)]
            have hleft := failuresLeft_refused hcounted authErr hfew' hmax
            refine (AtMost.call fun x => ?_).mono hleft
            cases x with
            | some e => exact trivial
            | none => exact ih _
        · exact atMost_send rfl trivial
      obtain ⟨k, hk, hrest⟩ := atMost_round (fun _ => rfl) hfew hsettle
      rw [hk]
      exact .call_of_not rfl hrest

/-- After the key exchange, a handshake with the configuration of the server asks its transport for
at most 129 packets, and tells the client at most six times that a request was refused. What the
transport reads without handing it on (ignored packets, further key exchanges) is not counted. -/
theorem handshake_bounded {S : Type} (h : Handler authSig S) (s : S) :
    (trace h (serverHandshake config lib sessionID) s).countP isRead ≤ 129 ∧
      (trace h (serverHandshake config lib sessionID) s).countP isFailure ≤ 6 := by
  have hmax : 0 < config.maxAuthTries := by decide
  -- what follows the first packet, for calls other than its answer
  have hrest : ∀ {P : AuthOp → Bool} {n : Nat} (x : Except ReadError GoString),
      (∀ service, P (.writePacket (.serviceAccept service)) = false) →
      AtMost P n (serverAuthenticate config lib sessionID) →
      AtMost P n (afterServiceRequest config lib sessionID x) := by
    intro P n x hP hauth
    rcases x with (_ | e) | packet
    · exact trivial
    · exact trivial
    dsimp only [afterServiceRequest]
    cases unmarshalServiceRequest packet with
    | error e => exact trivial
    | ok service =>
      dsimp only
      split_ifs
      · exact trivial
      · exact atMost_send (hP service) hauth
  constructor
  · have hreads : AtMost isRead 129 (serverHandshake config lib sessionID) :=
      .call fun x => hrest x (fun _ => rfl) (atMost_isRead _ _)
    exact hreads.trace s
  · have hauth : AtMost isFailure 6 (serverAuthenticate config lib sessionID) :=
      atMost_isFailure hmax maxAuthServerAttempts {}
    have hfailures : AtMost isFailure 6 (serverHandshake config lib sessionID) :=
      .call_of_not rfl fun x => hrest x (fun _ => rfl) hauth
    exact hfailures.trace s

end Bounds

end WeftAgent.Sshd
