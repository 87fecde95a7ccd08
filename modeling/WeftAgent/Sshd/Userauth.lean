import WeftAgent.Effect.Prog
import WeftAgent.Sshd.AuthStore
import WeftAgent.Sshd.Wire

/-!
# Who gets in: the user authentication of a connection

`serverHandshake` and `serverAuthenticate` of the vendored `golang.org/x/crypto/ssh`, from the end
of the key exchange on, with the configuration that `Server.config` of `pkg/sshd/server.go` builds:
`PublicKeyCallback` is the only callback, and the permissions it answers with have no critical
options. Packets are read and written, and the callback asks the store, by calls, so that the
content of the store can change between any two of them.

Key blobs are parsed and signatures verified by parameters (`AuthLib`).
-/

namespace WeftAgent.Sshd

open WeftAgent.Go WeftAgent.Effect WeftAgent.SshKeys

/-! ## Messages -/

/-- `parseString` of `messages.go`: a string with its length in front, and the rest. -/
def parseString : GoString → Option (GoString × GoString)
  | b0 :: b1 :: b2 :: b3 :: rest =>
    let length := beWord b0 b1 b2 b3
    if UInt32.ofNat rest.length < length then none
    else some (rest.take length.toNat, rest.drop length.toNat)
  | _ => none

def parseError (tag : Nat) : GoError := .errorf "ssh: parse error in message type %d" [.int tag]

/-- `Unmarshal`, up to the fields: what stands behind the message type. -/
def unmarshalType (tag : UInt8) : GoString → Except GoError GoString
  | [] => .error (parseError tag.toNat)
  | b :: data =>
    if b = tag then .ok data
    else .error (.errorf "ssh: unexpected message type %d (expected one of [%d])"
      [.int b.toNat, .int tag.toNat])

/-- `Unmarshal` on a field of type `string`. -/
def unmarshalField (field type : String) (data : GoString) :
    Except GoError (GoString × GoString) :=
  match parseString data with
  | some r => .ok r
  | none => .error (.errorf "ssh: unmarshal error for field %s of type %s"
      [.str (lit field), .str (lit type)])

def msgServiceRequest : UInt8 := 5

/-- `Unmarshal` of a `serviceRequestMsg`: the service. -/
def unmarshalServiceRequest (packet : GoString) : Except GoError GoString := do
  let data ← unmarshalType msgServiceRequest packet
  let (service, data) ← unmarshalField "Service" "serviceRequestMsg" data
  if data ≠ [] then .error (parseError msgServiceRequest.toNat) else .ok service

def msgUserAuthRequest : UInt8 := 50

structure UserAuthRequest where
  user : GoString
  service : GoString
  method : GoString
  payload : GoString
  deriving DecidableEq, Repr

/-- `Unmarshal` of a `userAuthRequestMsg`. -/
def unmarshalUserAuthRequest (packet : GoString) : Except GoError UserAuthRequest := do
  let data ← unmarshalType msgUserAuthRequest packet
  let (user, data) ← unmarshalField "User" "userAuthRequestMsg" data
  let (service, data) ← unmarshalField "Service" "userAuthRequestMsg" data
  let (method, data) ← unmarshalField "Method" "userAuthRequestMsg" data
  return ⟨user, service, method, data⟩

/-- The messages that the server sends during authentication. -/
inductive ServerMsg where
  | serviceAccept (service : GoString)
  | disconnect (reason : Nat) (message : String)
  | userAuthPubKeyOk (algo pubKey : GoString)
  | userAuthFailure (methods : List GoString) (partialSuccess : Bool)
  | userAuthSuccess
  deriving DecidableEq, Repr

/-! ## Keys and signatures -/

structure Signature where
  format : GoString
  blob : GoString
  rest : GoString := []
  deriving DecidableEq, Repr

def keyAlgoRSA : GoString := lit "ssh-rsa"

def certAlgoRSAv01 : GoString := lit "ssh-rsa-cert-v01@openssh.com"

/-- The formats of security keys, whose signatures carry more behind the blob. -/
def skFormats : List GoString :=
  [lit "sk-ecdsa-sha2-nistp256@openssh.com", lit "sk-ecdsa-sha2-nistp256-cert-v01@openssh.com",
    lit "sk-ssh-ed25519@openssh.com", lit "sk-ssh-ed25519-cert-v01@openssh.com"]

/-- `parseSignatureBody`: the signature and what is left. -/
def parseSignatureBody (b : GoString) : Option (Signature × GoString) := do
  let (format, b) ← parseString b
  let (blob, b) ← parseString b
  if format ∈ skFormats then return (⟨format, blob, b⟩, []) else return (⟨format, blob, []⟩, b)

/-- `parseSignature`. -/
def parseSignature (b : GoString) : Option (Signature × GoString) := do
  let (sigBytes, rest) ← parseString b
  let (sig, trailing) ← parseSignatureBody sigBytes
  if trailing ≠ [] then none else return (sig, rest)

/-- `certKeyAlgoNames`. -/
def certKeyAlgoNames : List (GoString × GoString) :=
  [(certAlgoRSAv01, keyAlgoRSA),
    (lit "rsa-sha2-256-cert-v01@openssh.com", lit "rsa-sha2-256"),
    (lit "rsa-sha2-512-cert-v01@openssh.com", lit "rsa-sha2-512"),
    (lit "ssh-dss-cert-v01@openssh.com", lit "ssh-dss"),
    (lit "ecdsa-sha2-nistp256-cert-v01@openssh.com", lit "ecdsa-sha2-nistp256"),
    (lit "ecdsa-sha2-nistp384-cert-v01@openssh.com", lit "ecdsa-sha2-nistp384"),
    (lit "ecdsa-sha2-nistp521-cert-v01@openssh.com", lit "ecdsa-sha2-nistp521"),
    (lit "sk-ecdsa-sha2-nistp256-cert-v01@openssh.com", lit "sk-ecdsa-sha2-nistp256@openssh.com"),
    (lit "ssh-ed25519-cert-v01@openssh.com", lit "ssh-ed25519"),
    (lit "sk-ssh-ed25519-cert-v01@openssh.com", lit "sk-ssh-ed25519@openssh.com")]

def underlyingAlgo (algo : GoString) : GoString := (certKeyAlgoNames.lookup algo).getD algo

def algorithmsForKeyFormat (keyFormat : GoString) : List GoString :=
  if keyFormat = keyAlgoRSA then [lit "rsa-sha2-256", lit "rsa-sha2-512", keyAlgoRSA]
  else if keyFormat = certAlgoRSAv01 then
    [lit "rsa-sha2-256-cert-v01@openssh.com", lit "rsa-sha2-512-cert-v01@openssh.com",
      certAlgoRSAv01]
  else [keyFormat]

def isRSA (algo : GoString) : Bool := underlyingAlgo algo ∈ algorithmsForKeyFormat keyAlgoRSA

def isAlgoCompatible (algo sigFormat : GoString) : Bool :=
  (isRSA algo && isRSA sigFormat) || underlyingAlgo algo = sigFormat

/-- The parts of the `ssh` package that are not modelled further. -/
structure AuthLib extends SshLib where
  /-- `ParsePublicKey`: the key of a wire encoding. -/
  parsePublicKey : GoString → Except GoError PublicKey
  /-- The key is a certificate with the extension `no-touch-required`. -/
  certNoTouch : PublicKey → Bool
  /-- `Verify` of the key, if `noTouch` of its copy that asks for no touch. -/
  verify : (noTouch : Bool) → PublicKey → (data : GoString) → Signature → Option GoError

/-- `ssh.Permissions`, as far as the callback fills it. -/
structure Permissions where
  extensions : GoMap GoString GoString

def noTouchAllowed (lib : AuthLib) (pubKey : PublicKey) (perms : Option Permissions) : Bool :=
  (match perms with
    | some perms => (perms.extensions.lookup (lit "no-touch-required")).isSome
    | none => false) || lib.certNoTouch pubKey

/-- `buildDataSignedForAuth`. -/
def buildDataSignedForAuth (sessionID : GoString) (req : UserAuthRequest) (algo pubKey : GoString) :
    GoString :=
  str sessionID ++ [msgUserAuthRequest] ++ str req.user ++ str req.service ++ str req.method ++
    [1] ++ str algo ++ str pubKey

/-! ## The configuration -/

structure ServerConfig where
  publicKeyAuthAlgorithms : List GoString := []
  maxAuthTries : Int := 0

/-- `defaultPubKeyAuthAlgos`. -/
def defaultPubKeyAuthAlgos : List GoString :=
  [lit "ssh-ed25519", lit "sk-ssh-ed25519@openssh.com", lit "sk-ecdsa-sha2-nistp256@openssh.com",
    lit "ecdsa-sha2-nistp256", lit "ecdsa-sha2-nistp384", lit "ecdsa-sha2-nistp521",
    lit "rsa-sha2-256", lit "rsa-sha2-512", keyAlgoRSA, lit "ssh-dss"]

/-- The configuration of `Server.config` with the defaults that `NewServerConn` fills in. -/
def config : ServerConfig where
  publicKeyAuthAlgorithms := defaultPubKeyAuthAlgos
  maxAuthTries := 6

def keyNameExtension : GoString := lit "weft-key-name"

def fingerprintExtension : GoString := lit "weft-key-fingerprint"

/-- The function `PublicKeyCallback` of `Server.config`, with the content of the store. -/
def publicKeyCallback (lib : SshLib) (store : AuthStore) (key : PublicKey) :
    Except GoError Permissions :=
  match store.authorize lib key with
  | (_, false) => .error (.errorf "ssh: key %s not in AuthStore" [.str (fingerprintSHA256 lib key)])
  | (name, true) => .ok ⟨((∅ : GoMap GoString GoString).insert keyNameExtension name).insert
      fingerprintExtension (fingerprintSHA256 lib key)⟩

/-! ## The loop -/

inductive ReadError where
  | eof
  | other (e : GoError)

inductive AuthOp where
  | readPacket
  | writePacket (m : ServerMsg)
  | publicKeyCallback (key : PublicKey)

/-- The answers; a write answers with its error. -/
def AuthOp.Ans : AuthOp → Type
  | .readPacket => Except ReadError GoString
  | .writePacket _ => Option GoError
  | .publicKeyCallback _ => Except GoError Permissions

abbrev authSig : Sig := ⟨AuthOp, AuthOp.Ans⟩

structure CachedPubKey where
  user : GoString
  pubKeyData : GoString
  result : Except GoError Permissions

/-- `pubKeyCache.get`. -/
def cacheGet (cache : List CachedPubKey) (user pubKeyData : GoString) : Option CachedPubKey :=
  cache.find? fun k => k.user = user ∧ k.pubKeyData = pubKeyData

def maxCachedPubKeys : Nat := 1

/-- `pubKeyCache.add`. -/
def cacheAdd (cache : List CachedPubKey) (candidate : CachedPubKey) : List CachedPubKey :=
  (if cache.length ≥ maxCachedPubKeys then cache.drop 1 else cache) ++ [candidate]

/-- What a request comes to. -/
inductive Round where
  /-- The connection ends with the error. -/
  | fail (e : GoError)
  /-- A signature by the key of this query would be accepted. -/
  | query (algo pubKeyData : GoString)
  | refuse (authErr : GoError)
  | accept (perms : Permissions)

/-- A `publickey` request from the point on where the callback has answered for its key; `payload`
is what follows the key. -/
def judge (cfg : ServerConfig) (lib : AuthLib) (sessionID : GoString) (req : UserAuthRequest)
    (isQuery : Bool) (algo pubKeyData : GoString) (pubKey : PublicKey) (payload : GoString)
    (result : Except GoError Permissions) : Round :=
  if isQuery then
    if payload ≠ [] then .fail (parseError msgUserAuthRequest.toNat)
    else
      match result with
      | .ok _ => .query algo pubKeyData
      | .error e => .refuse e
  else
    match parseSignature payload with
    | none => .fail (parseError msgUserAuthRequest.toNat)
    | some (sig, rest) =>
      if rest ≠ [] then .fail (parseError msgUserAuthRequest.toNat)
      else if algo ∉ algorithmsForKeyFormat pubKey.keyType then
        .refuse (.errorf "ssh: public key type %q not compatible with selected algorithm %q"
          [.str pubKey.keyType, .str algo])
      else if sig.format ∉ cfg.publicKeyAuthAlgorithms then
        .refuse (.errorf "ssh: algorithm %q not accepted" [.str sig.format])
      else if ¬ isAlgoCompatible algo sig.format then
        .refuse (.errorf "ssh: signature %q not compatible with selected algorithm %q"
          [.str sig.format, .str algo])
      else
        let signedData := buildDataSignedForAuth sessionID req algo pubKeyData
        match lib.verify (noTouchAllowed lib pubKey result.toOption) pubKey signedData sig with
        | some e => .fail e
        | none =>
          match result with
          | .ok perms => .accept perms
          | .error e => .refuse e

/-- The case `publickey`: the cache afterwards, and what the request comes to. The callback is asked
unless it has answered for this user and key last. -/
def publicKeyRequest (cfg : ServerConfig) (lib : AuthLib) (sessionID : GoString)
    (req : UserAuthRequest) (cache : List CachedPubKey) :
    Prog authSig (List CachedPubKey × Round) :=
  let malformed := (cache, Round.fail (parseError msgUserAuthRequest.toNat))
  match req.payload with
  | [] => .ret malformed
  | flag :: payload =>
    match parseString payload with
    | none => .ret malformed
    | some (algo, payload) =>
      if underlyingAlgo algo ∉ cfg.publicKeyAuthAlgorithms then
        .ret (cache, .refuse (.errorf "ssh: algorithm %q not accepted" [.str algo]))
      else
        match parseString payload with
        | none => .ret malformed
        | some (pubKeyData, payload) =>
          match lib.parsePublicKey pubKeyData with
          | .error e => .ret (cache, .refuse e)
          | .ok pubKey =>
            let judge := judge cfg lib sessionID req (flag = 0) algo pubKeyData pubKey payload
            match cacheGet cache req.user pubKeyData with
            | some candidate => .ret (cache, judge candidate.result)
            | none => .call (.publicKeyCallback pubKey) fun result =>
                .ret (cacheAdd cache ⟨req.user, pubKeyData, result⟩, judge result)

/-- The variables of `serverAuthenticate` that last from round to round. -/
structure AuthState where
  cache : List CachedPubKey := []
  authFailures : Nat := 0
  noneAuthCount : Nat := 0
  authErrs : List GoError := []

def methodNone : GoString := lit "none"

def methodPublicKey : GoString := lit "publickey"

/-- The `switch` over the method of a request. -/
def authRequest (cfg : ServerConfig) (lib : AuthLib) (sessionID : GoString)
    (req : UserAuthRequest) (st : AuthState) : Prog authSig (AuthState × Round) :=
  if req.method = methodNone then
    .ret ({ st with noneAuthCount := st.noneAuthCount + 1 },
      .refuse (.errorf "ssh: no auth passed yet" []))
  else if req.method = lit "password" then
    .ret (st, .refuse (.errorf "ssh: password auth not configured" []))
  else if req.method = lit "keyboard-interactive" then
    .ret (st, .refuse (.errorf "ssh: keyboard-interactive auth not configured" []))
  else if req.method = methodPublicKey then do
    let (cache, round) ← publicKeyRequest cfg lib sessionID req st.cache
    return ({ st with cache := cache }, round)
  else if req.method = lit "gssapi-with-mic" then
    .ret (st, .refuse (.errorf "ssh: gssapi-with-mic auth not configured" []))
  else .ret (st, .refuse (.errorf "ssh: unknown method %q" [.str req.method]))

/-- The error of a handshake: a `ServerAuthError`, or another one. -/
inductive HandshakeError where
  | serverAuth (errors : List GoError)
  | other (e : GoError)

abbrev AuthResult := Except HandshakeError Permissions

/-- Write a message, then go on. -/
def send (m : ServerMsg) (next : Prog authSig AuthResult) : Prog authSig AuthResult :=
  .call (.writePacket m) fun
    | some e => .ret (.error (.other e))
    | none => next

/-- The end of a handshake in which too much was tried. -/
def disconnect (message : String) (st : AuthState) : Prog authSig AuthResult :=
  send (.disconnect 2 message) (.ret (.error (.serverAuth (st.authErrs ++ [.errorf message []]))))

def tooManyFailures (cfg : ServerConfig) (st : AuthState) : Bool :=
  cfg.maxAuthTries ≤ st.authFailures ∧ 0 < cfg.maxAuthTries

/-- The variables after a request that was refused; a first request of the method `none` is not
counted. -/
def AuthState.refused (st : AuthState) (method : GoString) (authErr : GoError) : AuthState :=
  { st with
    authErrs := st.authErrs ++ [authErr]
    authFailures := if 0 < st.authFailures ∨ method ≠ methodNone ∨ st.noneAuthCount ≠ 1
      then st.authFailures + 1 else st.authFailures }

/-- The end of a round, from the outcome of its request on. -/
def settle (cfg : ServerConfig) (method : GoString) (next : AuthState → Prog authSig AuthResult)
    (outcome : AuthState × Round) : Prog authSig AuthResult :=
  match outcome with
  | (_, .fail e) => .ret (.error (.other e))
  | (st, .query algo pubKeyData) => send (.userAuthPubKeyOk algo pubKeyData) (next st)
  | (_, .accept perms) => send .userAuthSuccess (.ret (.ok perms))
  | (st, .refuse authErr) =>
    let st := st.refused method authErr
    if tooManyFailures cfg st then next st
    else send (.userAuthFailure [methodPublicKey] false) (next st)

/-- A round of the loop from the packet on that was read. -/
def afterRead (cfg : ServerConfig) (lib : AuthLib) (sessionID : GoString) (st : AuthState)
    (next : AuthState → Prog authSig AuthResult) :
    Except ReadError GoString → Prog authSig AuthResult
  | .error .eof => .ret (.error (.serverAuth st.authErrs))
  | .error (.other e) => .ret (.error (.other e))
  | .ok packet =>
    match unmarshalUserAuthRequest packet with
    | .error e => .ret (.error (.other e))
    | .ok req =>
      if req.service ≠ lit "ssh-connection" then
        .ret (.error (.other (.errorf
          "ssh: client attempted to negotiate for unknown service: %q" [.str req.service])))
      else authRequest cfg lib sessionID req st >>= settle cfg req.method next

/-- `userAuthLoop`; `attempts` is how many requests may still be made. -/
def userAuthLoop (cfg : ServerConfig) (lib : AuthLib) (sessionID : GoString) :
    (attempts : Nat) → AuthState → Prog authSig AuthResult
  | 0, st =>
    if tooManyFailures cfg st then disconnect "too many authentication failures" st
    else disconnect "too many authentication attempts" st
  | attempts + 1, st =>
    if tooManyFailures cfg st then disconnect "too many authentication failures" st
    else
      .call .readPacket
        (afterRead cfg lib sessionID st (userAuthLoop cfg lib sessionID attempts))

def maxAuthServerAttempts : Nat := 128

/-- `serverAuthenticate`. -/
def serverAuthenticate (cfg : ServerConfig) (lib : AuthLib) (sessionID : GoString) :
    Prog authSig AuthResult :=
  userAuthLoop cfg lib sessionID maxAuthServerAttempts {}

/-- `serverHandshake` from the first packet on. -/
def afterServiceRequest (cfg : ServerConfig) (lib : AuthLib) (sessionID : GoString) :
    Except ReadError GoString → Prog authSig AuthResult
  | .error .eof => .ret (.error (.other (.errorf "EOF" [])))
  | .error (.other e) => .ret (.error (.other e))
  | .ok packet =>
    match unmarshalServiceRequest packet with
    | .error e => .ret (.error (.other e))
    | .ok service =>
      if service ≠ lit "ssh-userauth" then
        .ret (.error (.other (.errorf "ssh: requested service '%s' before authenticating"
          [.str service])))
      else send (.serviceAccept service) (serverAuthenticate cfg lib sessionID)

/-- `serverHandshake`, once the keys have been exchanged. -/
def serverHandshake (cfg : ServerConfig) (lib : AuthLib) (sessionID : GoString) :
    Prog authSig AuthResult :=
  .call .readPacket (afterServiceRequest cfg lib sessionID)

end WeftAgent.Sshd
