import WeftAgent.SshKeys.Proofs.SubscriberProofs
import WeftAgent.Sshd.Connections
import WeftAgent.Sshd.Proofs.AdmissionProofs

/-!
# Whom the server serves

In every interleaving of pushed key sets, connections and requests, whatever is done on a connection
is done for somebody who has signed with a key of a set that was pushed, validated and in force at
some moment of the connection's own handshake. A key that is revoked and not pushed again gets no
later connection in.
-/

namespace WeftAgent.Sshd

open WeftAgent.Go WeftAgent.Effect WeftAgent.Fs WeftAgent.SshKeys

variable {S : Type} {cfg : AgentConfig} {F : FaultyFs S} {fs₀ : S}

/-! ## What a step can do -/

theorem pendingCall_eq_some {a : Agent S} {i : Nat} {op : AuthOp}
    {k : op.Ans → Prog authSig AuthResult} (h : a.pendingCall i = some ⟨op, k⟩) :
    ∃ sessionID, a.conns[i]? = some ⟨sessionID, .handshake (.call op k)⟩ := by
  unfold Agent.pendingCall at h
  split at h
  · next sessionID op' k' hc =>
    cases h
    exact ⟨sessionID, hc⟩
  · cases h

theorem served_eq_some {a : Agent S} {i : Nat} {perms : Permissions}
    {sessions : List SessionState} (h : a.served i = some (perms, sessions)) :
    ∃ sessionID, a.conns[i]? = some ⟨sessionID, .serving perms sessions⟩ := by
  unfold Agent.served at h
  split at h
  · next sessionID perms' sessions' hc =>
    cases h
    exact ⟨sessionID, hc⟩
  · cases h

/-- What a step can do. -/
inductive AgentStep (cfg : AgentConfig) (F : FaultyFs S) (a : Agent S) :
    AgentEvent → Agent S → Prop where
  | idle {e : AgentEvent} : AgentStep cfg F a e a
  | subscriber (e : SshKeys.Event) :
      AgentStep cfg F a (.subscriber e) { a with subscriber := a.subscriber.step cfg.keys F e }
  | deaf {e : AgentEvent} : AgentStep cfg F a e { a with listening := false }
  | accepted (sessionID : GoString) :
      AgentStep cfg F a (.accept (.ok sessionID)) { a with conns := a.conns ++
        [⟨sessionID, .handshake (serverHandshake config cfg.lib sessionID)⟩] }
  | handshake {i : Nat} (net : NetAnswer) {sessionID : GoString} {op : AuthOp}
      {k : op.Ans → Prog authSig AuthResult}
      (hrunning : a.crashed = false)
      (h : a.conns[i]? = some ⟨sessionID, .handshake (.call op k)⟩) :
      AgentStep cfg F a (.handshake i net)
        (a.setPhase i (.of (k (answer cfg.lib.toSshLib a.store net op))))
  /-- A channel or a request. -/
  | served {e : AgentEvent} {i : Nat} {sessionID : GoString} {perms : Permissions}
      {sessions : List SessionState} (sessions' : List SessionState) (effects : List ConnEffect)
      (h : a.conns[i]? = some ⟨sessionID, .serving perms sessions⟩) :
      AgentStep cfg F a e ((a.setPhase i (.serving perms sessions')).note i effects)
  | panicked {e : AgentEvent} : AgentStep cfg F a e { a with crashed := true }
  | dropped (i : Nat) : AgentStep cfg F a (.drop i) (a.setPhase i .closed)

theorem agentStep (a : Agent S) (e : AgentEvent) :
    AgentStep cfg F a e (a.step cfg F e) := by
  unfold Agent.step
  split_ifs with hcrashed
  · exact .idle
  cases e with
  | subscriber e => exact .subscriber e
  | accept result =>
    rw [Agent.perform]
    unfold Agent.accept
    split_ifs
    · cases result with
      | error e => exact .deaf
      | ok sessionID => exact .accepted sessionID
    · exact .idle
  | handshake i net =>
    rw [Agent.perform, Agent.advance]
    split
    · next op k hcall =>
      obtain ⟨sessionID, hc⟩ := pendingCall_eq_some hcall
      exact .handshake net (Bool.eq_false_iff.mpr hcrashed) hc
    · exact .idle
  | channel i channelType acceptErr =>
    rw [Agent.perform, Agent.openChannel]
    split
    · next perms sessions hserved =>
      obtain ⟨sessionID, hc⟩ := served_eq_some hserved
      exact .served _ _ hc
    · exact .idle
  | request i j req =>
    rw [Agent.perform, Agent.request]
    split
    · next perms sessions hserved =>
      obtain ⟨sessionID, hc⟩ := served_eq_some hserved
      split
      · split
        · exact .panicked
        · exact .served _ _ hc
      · exact .idle
    · exact .idle
  | drop i => exact .dropped i
  | libraryPanics => exact .panicked

/-! ## The connections -/

theorem conns_setPhase {a : Agent S} {i j : Nat} {phase : Phase} {c : Conn}
    (h : (a.setPhase i phase).conns[j]? = some c) :
    a.conns[j]? = some c ∨ i = j ∧ ∃ old, a.conns[i]? = some ⟨c.sessionID, old⟩ ∧
      c.phase = phase := by
  rw [Agent.setPhase, List.getElem?_modify] at h
  cases hc : a.conns[j]? with
  | none => simp [hc] at h
  | some old =>
    simp only [hc, Option.map_eq_map, Option.map_some, Option.some_inj] at h
    split_ifs at h with hij
    · exact .inr ⟨hij, old.phase, by rw [hij, hc, ← h], by rw [← h]⟩
    · exact .inl (by rw [← h])

/-- What becomes of a connection in one step. -/
inductive ConnStep (cfg : AgentConfig) (a : Agent S) (i : Nat) : AgentEvent → Conn → Prop where
  | unchanged {e : AgentEvent} {c : Conn} (h : a.conns[i]? = some c) : ConnStep cfg a i e c
  | accepted {sessionID : GoString} (h : i = a.conns.length) :
      ConnStep cfg a i (.accept (.ok sessionID))
        ⟨sessionID, .handshake (serverHandshake config cfg.lib sessionID)⟩
  | handshake {net : NetAnswer} {sessionID : GoString} {op : AuthOp}
      {k : op.Ans → Prog authSig AuthResult}
      (hrunning : a.crashed = false)
      (h : a.conns[i]? = some ⟨sessionID, .handshake (.call op k)⟩) :
      ConnStep cfg a i (.handshake i net)
        ⟨sessionID, .of (k (answer cfg.lib.toSshLib a.store net op))⟩
  | served {e : AgentEvent} {sessionID : GoString} {perms : Permissions}
      {sessions sessions' : List SessionState}
      (h : a.conns[i]? = some ⟨sessionID, .serving perms sessions⟩) :
      ConnStep cfg a i e ⟨sessionID, .serving perms sessions'⟩
  | closed {e : AgentEvent} {sessionID : GoString} : ConnStep cfg a i e ⟨sessionID, .closed⟩

theorem connStep {a : Agent S} {e : AgentEvent} {i : Nat} {c : Conn}
    (h : (a.step cfg F e).conns[i]? = some c) : ConnStep cfg a i e c := by
  have hstep : AgentStep cfg F a e (a.step cfg F e) := agentStep a e
  generalize a.step cfg F e = a' at h hstep
  obtain ⟨sessionID, phase⟩ := c
  cases hstep with
  | idle => exact .unchanged h
  | subscriber e => exact .unchanged h
  | deaf => exact .unchanged h
  | accepted sessionID' =>
    dsimp only at h
    rw [List.getElem?_append] at h
    split_ifs at h with hi
    · exact .unchanged h
    · rw [List.getElem?_singleton] at h
      split_ifs at h with hlast
      obtain ⟨rfl, rfl⟩ := Conn.mk.inj (Option.some_inj.mp h)
      exact .accepted (by omega)
  | handshake net hrunning hc =>
    rcases conns_setPhase h with h | ⟨rfl, old, hold, hphase⟩
    · exact .unchanged h
    · obtain ⟨rfl, -⟩ := Conn.mk.inj (Option.some_inj.mp (hc.symm.trans hold))
      subst hphase
      exact .handshake hrunning hc
  | served sessions' effects hc =>
    rcases conns_setPhase h with h | ⟨rfl, old, hold, hphase⟩
    · exact .unchanged h
    · obtain ⟨rfl, -⟩ := Conn.mk.inj (Option.some_inj.mp (hc.symm.trans hold))
      subst hphase
      exact .served hc
  | panicked => exact .unchanged h
  | dropped j =>
    rcases conns_setPhase h with h | ⟨rfl, old, hold, hphase⟩
    · exact .unchanged h
    · subst hphase
      exact .closed

theorem length_conns_step (a : Agent S) (e : AgentEvent) :
    a.conns.length ≤ (a.step cfg F e).conns.length := by
  have hstep : AgentStep cfg F a e (a.step cfg F e) := agentStep a e
  generalize a.step cfg F e = a' at hstep
  cases hstep <;> simp [Agent.setPhase, Agent.note]

/-! ## Histories -/

theorem after_concat (evs : List AgentEvent) (e : AgentEvent) :
    Agent.after cfg F fs₀ (evs ++ [e]) = (Agent.after cfg F fs₀ evs).step cfg F e := by
  rw [Agent.after, List.foldl_append]
  rfl

/-- After the history, the connection is in its handshake. -/
def HandshakeAfter (cfg : AgentConfig) (F : FaultyFs S) (fs₀ : S) (evs : List AgentEvent) (i : Nat)
    (sessionID : GoString) : Prop :=
  ∃ prog, (Agent.after cfg F fs₀ evs).conns[i]? = some ⟨sessionID, .handshake prog⟩

/-- In the history, the handshake of the connection reads the packet. -/
def HasRead (cfg : AgentConfig) (F : FaultyFs S) (fs₀ : S) (evs : List AgentEvent) (i : Nat)
    (packet : GoString) : Prop :=
  ∃ pre net post k, evs = pre ++ .handshake i net :: post ∧ net.read = .ok packet ∧
    (Agent.after cfg F fs₀ pre).crashed = false ∧
    (Agent.after cfg F fs₀ pre).pendingCall i = some ⟨.readPacket, k⟩

/-- The calls of a connection's handshake as a history has them: what the callback granted was in
the store at some moment of the handshake, and the packets were read. -/
structure Recorded (cfg : AgentConfig) (F : FaultyFs S) (fs₀ : S) (evs : List AgentEvent) (i : Nat)
    (sessionID : GoString) (l : AuthLog) : Prop where
  granted : ∀ key perms, Granted l key perms → ∃ pre post, evs = pre ++ post ∧
    HandshakeAfter cfg F fs₀ pre i sessionID ∧
    publicKeyCallback cfg.lib.toSshLib (Agent.after cfg F fs₀ pre).store key = .ok perms
  read : ∀ packet, (⟨.readPacket, .ok packet⟩ : Σ op : AuthOp, op.Ans) ∈ l →
    HasRead cfg F fs₀ evs i packet

/-- What holds of a connection after a history. -/
def ConnInv (cfg : AgentConfig) (F : FaultyFs S) (fs₀ : S) (evs : List AgentEvent) (i : Nat)
    (c : Conn) : Prop :=
  match c.phase with
  | .handshake prog => ∃ l, Recorded cfg F fs₀ evs i c.sessionID l ∧
      Follows Logged (Accounted cfg.lib c.sessionID) prog l
  | .serving perms _ => ∃ l, Recorded cfg F fs₀ evs i c.sessionID l ∧
      Accounted cfg.lib c.sessionID l (.ok perms)
  | .closed => True

section Recorded

variable {evs : List AgentEvent} {i : Nat} {sessionID : GoString} {l : AuthLog}

theorem HasRead.append {packet : GoString} (h : HasRead cfg F fs₀ evs i packet)
    (more : List AgentEvent) : HasRead cfg F fs₀ (evs ++ more) i packet := by
  obtain ⟨pre, net, post, k, rfl, hrest⟩ := h
  exact ⟨pre, net, post ++ more, k, List.append_assoc _ _ _, hrest⟩

theorem Recorded.nil : Recorded cfg F fs₀ evs i sessionID [] :=
  ⟨fun _ _ h => absurd h List.not_mem_nil, fun _ h => absurd h List.not_mem_nil⟩

theorem Recorded.concat (h : Recorded cfg F fs₀ evs i sessionID l) (e : AgentEvent) :
    Recorded cfg F fs₀ (evs ++ [e]) i sessionID l := by
  constructor
  · intro key perms hgranted
    obtain ⟨pre, post, rfl, hrest⟩ := h.granted key perms hgranted
    exact ⟨pre, post ++ [e], List.append_assoc _ _ _, hrest⟩
  · intro packet hread
    exact (h.read packet hread).append [e]

/-- One more call of the handshake. -/
theorem Recorded.answer (h : Recorded cfg F fs₀ evs i sessionID l) (net : NetAnswer) {op : AuthOp}
    {k : op.Ans → Prog authSig AuthResult}
    (hrunning : (Agent.after cfg F fs₀ evs).crashed = false)
    (hc : (Agent.after cfg F fs₀ evs).conns[i]? = some ⟨sessionID, .handshake (.call op k)⟩) :
    Recorded cfg F fs₀ (evs ++ [.handshake i net]) i sessionID
      (l ++ [⟨op, answer cfg.lib.toSshLib (Agent.after cfg F fs₀ evs).store net op⟩]) := by
  have hold := h.concat (.handshake i net)
  constructor
  · intro key perms hgranted
    rcases List.mem_append.mp hgranted with hl | hnew
    · exact hold.granted key perms hl
    · refine ⟨evs, [.handshake i net], rfl, ⟨_, hc⟩, ?_⟩
      obtain ⟨rfl, hanswer⟩ := Sigma.mk.inj (List.mem_singleton.mp hnew)
      exact (eq_of_heq hanswer).symm
  · intro packet hread
    rcases List.mem_append.mp hread with hl | hnew
    · exact hold.read packet hl
    · obtain ⟨rfl, hanswer⟩ := Sigma.mk.inj (List.mem_singleton.mp hnew)
      have hcall : (Agent.after cfg F fs₀ evs).pendingCall i = some ⟨.readPacket, k⟩ := by
        rw [Agent.pendingCall, hc]
      exact ⟨evs, net, [], k, rfl, (eq_of_heq hanswer).symm, hrunning, hcall⟩

theorem ConnInv.concat {c : Conn} (h : ConnInv cfg F fs₀ evs i c) (e : AgentEvent) :
    ConnInv cfg F fs₀ (evs ++ [e]) i c := by
  obtain ⟨sessionID, prog | ⟨perms, sessions⟩ | _⟩ := c
  · obtain ⟨l, hrecorded, hfollows⟩ := h
    exact ⟨l, hrecorded.concat e, hfollows⟩
  · obtain ⟨l, hrecorded, haccounted⟩ := h
    exact ⟨l, hrecorded.concat e, haccounted⟩
  · exact trivial

/-- The point that a handshake has come to, as the phase of its connection. -/
theorem connInv_of {prog : Prog authSig AuthResult}
    (hrecorded : Recorded cfg F fs₀ evs i sessionID l)
    (hfollows : Follows Logged (Accounted cfg.lib sessionID) prog l) :
    ConnInv cfg F fs₀ evs i ⟨sessionID, .of prog⟩ := by
  cases prog with
  | ret r =>
    cases r with
    | error e => exact trivial
    | ok perms => exact ⟨l, hrecorded, hfollows⟩
  | call op k => exact ⟨l, hrecorded, hfollows⟩

end Recorded

theorem connInv (evs : List AgentEvent) {i : Nat} {c : Conn}
    (h : (Agent.after cfg F fs₀ evs).conns[i]? = some c) : ConnInv cfg F fs₀ evs i c := by
  induction evs using List.reverseRecOn generalizing i c with
  | nil => exact absurd h (by simp [Agent.after])
  | append_singleton evs e ih =>
    rw [after_concat] at h
    cases connStep h with
    | unchanged hc => exact (ih hc).concat e
    | accepted hi => exact ⟨[], .nil, follows_serverHandshake⟩
    | @handshake net sessionID op k hrunning hc =>
      obtain ⟨l, hrecorded, hfollows⟩ := ih hc
      obtain ⟨l', rfl, hrest⟩ := hfollows (answer cfg.lib.toSshLib
        (Agent.after cfg F fs₀ evs).store net op)
      exact connInv_of (hrecorded.answer net hrunning hc) hrest
    | served hc =>
      obtain ⟨l, hrecorded, haccounted⟩ := ih hc
      exact ⟨l, hrecorded.concat e, haccounted⟩
    | closed => exact trivial

/-! ## The keys -/

/-- A message of the history carries the set, and the set is valid. -/
def Pushed (cfg : AgentConfig) (evs : List AgentEvent) (ks : KeySet) : Prop :=
  ∃ data, .subscriber (.message data) ∈ evs ∧ cfg.unmarshal data = .ok ks ∧ ks.validate = none

theorem subscriber_step (a : Agent S) (e : AgentEvent) :
    (a.step cfg F e).subscriber = a.subscriber ∨ ∃ e', e = .subscriber e' ∧
      (a.step cfg F e).subscriber = a.subscriber.step cfg.keys F e' := by
  have hstep : AgentStep cfg F a e (a.step cfg F e) := agentStep a e
  generalize a.step cfg F e = a' at hstep
  cases hstep with
  | subscriber e => exact .inr ⟨e, rfl, rfl⟩
  | _ => exact .inl rfl

theorem accepted_step {keys : SshKeys.Config} (s : Subscriber S) (e : SshKeys.Event) :
    (s.step keys F e).accepted = s.accepted ∨ ∃ data ks, e = .message data ∧
      keys.unmarshal data = .ok ks ∧ ks.validate = none ∧ (s.step keys F e).accepted = some ks := by
  cases e with
  | call =>
    refine .inl ?_
    rw [Subscriber.step]
    split <;> rfl
  | message data =>
    rw [Subscriber.step]
    split
    · exact .inl rfl
    · split
      · exact .inl rfl
      · next ks authStore writer hmessage =>
        obtain ⟨ks', hks, hvalid, heq⟩ := handleMessage_eq_ok hmessage
        cases heq
        exact .inr ⟨data, ks, rfl, hks, hvalid, rfl⟩

/-- The set in force was in force before, or has been pushed since. -/
theorem accepted_append (pre post : List AgentEvent) {ks : KeySet}
    (h : (Agent.after cfg F fs₀ (pre ++ post)).subscriber.accepted = some ks) :
    (Agent.after cfg F fs₀ pre).subscriber.accepted = some ks ∨ Pushed cfg post ks := by
  induction post using List.reverseRecOn with
  | nil => exact .inl (by simpa using h)
  | append_singleton post e ih =>
    have hold : (Agent.after cfg F fs₀ (pre ++ post)).subscriber.accepted = some ks →
        (Agent.after cfg F fs₀ pre).subscriber.accepted = some ks ∨
          Pushed cfg (post ++ [e]) ks := by
      intro hks
      refine (ih hks).imp_right ?_
      rintro ⟨data, hdata, hrest⟩
      exact ⟨data, List.mem_append_left _ hdata, hrest⟩
    rw [← List.append_assoc, after_concat] at h
    rcases subscriber_step (Agent.after cfg F fs₀ (pre ++ post)) e with heq | ⟨e', rfl, heq⟩
    · exact hold (heq ▸ h)
    · rw [heq] at h
      rcases accepted_step (Agent.after cfg F fs₀ (pre ++ post)).subscriber e' with
        hsame | ⟨data, ks', rfl, hks, hvalid, haccepted⟩
      · exact hold (hsame ▸ h)
      · obtain rfl : ks = ks' := Option.some_inj.mp (h.symm.trans haccepted)
        exact .inr ⟨data, List.mem_append_right _ List.mem_cons_self, hks, hvalid⟩

theorem pushed_of_accepted {evs : List AgentEvent} {ks : KeySet}
    (h : (Agent.after cfg F fs₀ evs).subscriber.accepted = some ks) : Pushed cfg evs ks := by
  rcases accepted_append [] evs h with hnone | hpushed
  · cases hnone
  · exact hpushed

theorem keysInv (evs : List AgentEvent) :
    SshKeys.Inv cfg.keys F fs₀ (Agent.after cfg F fs₀ evs).subscriber := by
  induction evs using List.reverseRecOn with
  | nil => exact inv_run cfg.keys F fs₀ []
  | append_singleton evs e ih =>
    rw [after_concat]
    rcases subscriber_step (Agent.after cfg F fs₀ evs) e with heq | ⟨e', rfl, heq⟩
    · rw [heq]
      exact ih
    · rw [heq]
      cases e' with
      | message data => exact ih.message data
      | call => exact ih.call

/-- A key that the store of a set authorises is that of an entry, and goes by its comment. -/
theorem entry_of_authorized {lib : SshLib} {ks : KeySet} {key : PublicKey} {perms : Permissions}
    (h : publicKeyCallback lib (AuthStore.replace lib ks).1 key = .ok perms) :
    ∃ entry ∈ parsedEntries lib ks, entry.key.wire = key.wire ∧
      perms.extensions.lookup keyNameExtension = some entry.comment := by
  have hholds : Holds lib (parsedEntries lib ks) (AuthStore.replace lib ks).1 :=
    (replaced_replace ks).holds
  have hne : keyNameExtension ≠ fingerprintExtension := by decide
  unfold publicKeyCallback at h
  split at h
  · cases h
  · next name hauth =>
    obtain rfl := Except.ok.inj h
    rw [AuthStore.authorize, hholds.key] at hauth
    cases hlast : lastWith lib (fingerprintSHA256 lib key) (parsedEntries lib ks) with
    | none => simp [hlast] at hauth
    | some entry =>
      simp only [hlast, Option.map_some, GoMap.index, hholds.name, Option.getD_some] at hauth
      split_ifs at hauth with hwire
      · obtain rfl : entry.comment = name := congrArg Prod.fst hauth
        refine ⟨entry, (lastWith_eq_some hlast).1, hwire, ?_⟩
        rw [AList.lookup_insert_ne hne, AList.lookup_insert]
      · cases hauth

/-! ## Who is served -/

/-- The connection was let in for the key, as the entry of a set that was pushed, valid and in force
at some moment of its handshake; and the handshake has read a request that is signed with the key
for this connection. -/
def LetIn (cfg : AgentConfig) (F : FaultyFs S) (fs₀ : S) (evs : List AgentEvent) (i : Nat)
    (key : PublicKey) (entry : ParsedKey) : Prop :=
  entry.key.wire = key.wire ∧ ∃ pre post sessionID ks, evs = pre ++ post ∧
    HandshakeAfter cfg F fs₀ pre i sessionID ∧
    (Agent.after cfg F fs₀ pre).subscriber.accepted = some ks ∧ Pushed cfg pre ks ∧
    entry ∈ parsedEntries cfg.lib.toSshLib ks ∧
    ∃ packet req, HasRead cfg F fs₀ evs i packet ∧
      unmarshalUserAuthRequest packet = .ok req ∧
      Signs cfg.lib sessionID (cfg.lib.certNoTouch key) key req

theorem LetIn.append {evs : List AgentEvent} {i : Nat} {key : PublicKey} {entry : ParsedKey}
    (h : LetIn cfg F fs₀ evs i key entry) (more : List AgentEvent) :
    LetIn cfg F fs₀ (evs ++ more) i key entry := by
  obtain ⟨hwire, pre, post, sessionID, ks, rfl, hhandshake, haccepted, hpushed, hentry, packet, req,
    hread, hrest⟩ := h
  exact ⟨hwire, pre, post ++ more, sessionID, ks, List.append_assoc _ _ _, hhandshake, haccepted,
    hpushed, hentry, packet, req, hread.append more, hrest⟩

theorem letIn_of_served {evs : List AgentEvent} {i : Nat} {sessionID : GoString}
    {perms : Permissions} {sessions : List SessionState}
    (h : (Agent.after cfg F fs₀ evs).conns[i]? = some ⟨sessionID, .serving perms sessions⟩) :
    ∃ key entry, LetIn cfg F fs₀ evs i key entry ∧
      perms.extensions.lookup keyNameExtension = some entry.comment := by
  obtain ⟨l, hrecorded, key, hgranted, packet, req, hread, hreq, hsigns⟩ := connInv evs h
  obtain ⟨pre, post, hsplit, hhandshake, hcallback⟩ := hrecorded.granted key perms hgranted
  rw [noTouchAllowed_publicKeyCallback hcallback] at hsigns
  have hkeys : SshKeys.Inv cfg.keys F fs₀ (Agent.after cfg F fs₀ pre).subscriber := keysInv pre
  rw [Agent.store, hkeys.store, Option.getD_some] at hcallback
  cases haccepted : (Agent.after cfg F fs₀ pre).subscriber.accepted with
  | none =>
    rw [haccepted] at hcallback
    cases hcallback
  | some ks =>
    rw [haccepted] at hcallback
    obtain ⟨entry, hentry, hwire, hname⟩ := entry_of_authorized hcallback
    exact ⟨key, entry, ⟨hwire, pre, post, sessionID, ks, hsplit, hhandshake, haccepted,
      pushed_of_accepted haccepted, hentry, packet, req, hrecorded.read packet hread, hreq, hsigns⟩,
      hname⟩

theorem served_of_effect {a : Agent S} {e : AgentEvent} {i : Nat} {effect : ConnEffect}
    (h : (i, effect) ∈ (a.step cfg F e).log) : (i, effect) ∈ a.log ∨
      ∃ sessionID perms sessions, a.conns[i]? = some ⟨sessionID, .serving perms sessions⟩ := by
  have hstep : AgentStep cfg F a e (a.step cfg F e) := agentStep a e
  generalize a.step cfg F e = a' at h hstep
  cases hstep with
  | served sessions' effects hc =>
    rcases List.mem_append.mp h with hold | hnew
    · exact .inl hold
    · obtain ⟨_, -, heq⟩ := List.mem_map.mp hnew
      cases heq
      exact .inr ⟨_, _, _, hc⟩
  | _ => exact .inl h

/-- Whatever happens in the agent: a connection that is served was let in with a key, under the
comment of its entry, and so was every connection on which something was done. -/
theorem only_key_holders_are_served (evs : List AgentEvent) (i : Nat) :
    (∀ sessionID perms sessions,
      (Agent.after cfg F fs₀ evs).conns[i]? = some ⟨sessionID, .serving perms sessions⟩ →
      ∃ key entry, LetIn cfg F fs₀ evs i key entry ∧
        perms.extensions.lookup keyNameExtension = some entry.comment) ∧
      ∀ effect, (i, effect) ∈ (Agent.after cfg F fs₀ evs).log →
        ∃ key entry, LetIn cfg F fs₀ evs i key entry := by
  refine ⟨fun sessionID perms sessions h => letIn_of_served h, fun effect => ?_⟩
  induction evs using List.reverseRecOn with
  | nil => exact fun h => absurd h List.not_mem_nil
  | append_singleton evs e ih =>
    intro h
    rw [after_concat] at h
    have hbefore : ∃ key entry, LetIn cfg F fs₀ evs i key entry := by
      rcases served_of_effect h with hold | ⟨sessionID, perms, sessions, hc⟩
      · exact ih hold
      · obtain ⟨key, entry, hletIn, -⟩ := letIn_of_served hc
        exact ⟨key, entry, hletIn⟩
    obtain ⟨key, entry, hletIn⟩ := hbefore
    exact ⟨key, entry, hletIn.append [e]⟩

theorem length_conns_append (pre post : List AgentEvent) :
    (Agent.after cfg F fs₀ pre).conns.length ≤
      (Agent.after cfg F fs₀ (pre ++ post)).conns.length := by
  induction post using List.reverseRecOn with
  | nil => simp
  | append_singleton post e ih =>
    rw [← List.append_assoc, after_concat]
    exact ih.trans (length_conns_step _ e)

theorem LetIn.wire_ne {pre post : List AgentEvent} {wire : GoString}
    (hgone : ∀ ks, (Agent.after cfg F fs₀ pre).subscriber.accepted = some ks →
      ∀ entry ∈ parsedEntries cfg.lib.toSshLib ks, entry.key.wire ≠ wire)
    (hpost : ∀ ks, Pushed cfg post ks →
      ∀ entry ∈ parsedEntries cfg.lib.toSshLib ks, entry.key.wire ≠ wire)
    {i : Nat} (hnew : (Agent.after cfg F fs₀ pre).conns.length ≤ i) {key : PublicKey}
    {entry : ParsedKey} (h : LetIn cfg F fs₀ (pre ++ post) i key entry) : key.wire ≠ wire := by
  obtain ⟨hwire, pre', post', sessionID, ks, hsplit, ⟨prog, hc⟩, haccepted, -, hentry, -⟩ := h
  rcases List.append_eq_append_iff.mp hsplit with ⟨mid, rfl, rfl⟩ | ⟨mid, rfl, -⟩
  · -- the handshake saw the store after `pre`
    rw [← hwire]
    rcases accepted_append pre mid haccepted with hold | ⟨data, hdata, hpushed⟩
    · exact hgone ks hold entry hentry
    · exact hpost ks ⟨data, List.mem_append_left _ hdata, hpushed⟩ entry hentry
  · -- the connection was not there yet
    have hlt : i < (Agent.after cfg F fs₀ pre').conns.length :=
      (List.getElem?_eq_some_iff.mp hc).1
    have hle : (Agent.after cfg F fs₀ pre').conns.length ≤
        (Agent.after cfg F fs₀ (pre' ++ mid)).conns.length := length_conns_append pre' mid
    omega

/-- A connection that is accepted after a key was revoked, and served although the key was not
pushed again, was let in with another key. -/
theorem revoked_key_stays_out {pre post : List AgentEvent} {wire : GoString}
    (hgone : ∀ ks, (Agent.after cfg F fs₀ pre).subscriber.accepted = some ks →
      ∀ entry ∈ parsedEntries cfg.lib.toSshLib ks, entry.key.wire ≠ wire)
    (hpost : ∀ ks, Pushed cfg post ks →
      ∀ entry ∈ parsedEntries cfg.lib.toSshLib ks, entry.key.wire ≠ wire)
    {i : Nat} (hnew : (Agent.after cfg F fs₀ pre).conns.length ≤ i) {sessionID : GoString}
    {perms : Permissions} {sessions : List SessionState}
    (hserved : (Agent.after cfg F fs₀ (pre ++ post)).conns[i]? =
      some ⟨sessionID, .serving perms sessions⟩) :
    (∃ key entry, LetIn cfg F fs₀ (pre ++ post) i key entry ∧
      perms.extensions.lookup keyNameExtension = some entry.comment) ∧
      ∀ key entry, LetIn cfg F fs₀ (pre ++ post) i key entry → key.wire ≠ wire :=
  ⟨letIn_of_served hserved, fun _ _ h => h.wire_ne hgone hpost hnew⟩

/-! ## Bob's key is revoked -/

/-- Both keys, under the names of Alice and Bob. -/
def bothSet : KeySet :=
  ⟨aliceSet.keys ++ [⟨lit "ssh-ed25519 " ++ ed25519Text.getD 1 [] ++ lit " bob"⟩]⟩

/-- The message `1` brings both keys, every other one that of Alice alone. -/
def revokingConfig : AgentConfig where
  lib := showingLib
  unmarshal data := if data = [1] then .ok bothSet else .ok aliceSet
  authorizedKeysPath := lit "/root/.ssh/authorized_keys"
  host := ⟨lit "/bin/sh", [], fun _ _ => .ok 3⟩

/-- A push with the calls of its writer. -/
def push (data : GoString) : List AgentEvent :=
  .subscriber (.message data) :: List.replicate 12 (.subscriber .call)

/-- The holder of a key connects and opens a session. -/
def connects (i : Nat) (key : PublicKey) : List AgentEvent :=
  [.accept (.ok []),
    .handshake i { read := .ok serviceRequest }, .handshake i {},
    .handshake i { read := .ok (signedRequest key) }, .handshake i {}, .handshake i {},
    .channel i sessionChannel none]

/-- Bob is served, then his key is revoked. -/
def bobRevoked : List AgentEvent := push [1] ++ connects 0 (ed25519Key 2) ++ push []

/-- The set is pushed once more, and Alice connects. -/
def aliceAfterwards : List AgentEvent := push [] ++ connects 1 (ed25519Key 1)

theorem bob_stays_out :
    ((Agent.after revokingConfig .reliable Tree.empty
      (push [1] ++ connects 0 (ed25519Key 2))).served 0).isSome = true ∧
      ∃ key entry, LetIn revokingConfig .reliable Tree.empty (bobRevoked ++ aliceAfterwards) 1 key
        entry ∧ key.wire ≠ (ed25519Key 2).wire := by
  have hserved : ((Agent.after revokingConfig .reliable Tree.empty
      (bobRevoked ++ aliceAfterwards)).served 1).isSome = true := by decide +kernel
  have hentries : ∀ entry ∈ parsedEntries identityLib aliceSet,
      entry.key.wire ≠ (ed25519Key 2).wire := by decide +kernel
  have hgone : ∀ ks,
      (Agent.after revokingConfig .reliable Tree.empty bobRevoked).subscriber.accepted = some ks →
      ∀ entry ∈ parsedEntries identityLib ks, entry.key.wire ≠ (ed25519Key 2).wire := by
    have haccepted : (Agent.after revokingConfig .reliable Tree.empty
        bobRevoked).subscriber.accepted = some aliceSet := by decide +kernel
    intro ks hks
    obtain rfl := Option.some_inj.mp (haccepted.symm.trans hks)
    exact hentries
  have hpost : ∀ ks, Pushed revokingConfig aliceAfterwards ks →
      ∀ entry ∈ parsedEntries identityLib ks, entry.key.wire ≠ (ed25519Key 2).wire := by
    rintro ks ⟨data, hdata, hks, -⟩
    obtain rfl : data = [] := by simpa [aliceAfterwards, push, connects] using hdata
    obtain rfl : aliceSet = ks := Except.ok.inj hks
    exact hentries
  have hnew : (Agent.after revokingConfig .reliable Tree.empty bobRevoked).conns.length ≤ 1 := by
    decide +kernel
  obtain ⟨⟨perms, sessions⟩, hr⟩ := Option.isSome_iff_exists.mp hserved
  obtain ⟨sessionID, hc⟩ := served_eq_some hr
  obtain ⟨⟨key, entry, hletIn, -⟩, hout⟩ := revoked_key_stays_out hgone hpost hnew hc
  exact ⟨by decide +kernel, key, entry, hletIn, hout key entry hletIn⟩

end WeftAgent.Sshd
