import WeftAgent.Guestplane.Client

/-!
# What a session sends

Every step of a session is one of the moves listed in `Moved`. The handshake comes first, in which
only the main goroutine acts; after it, the receiver has answered all requests but the one it is
working on.
-/

namespace WeftAgent.Guestplane

open WeftAgent.Go WeftAgent.Effect

/-! ## The moves -/

/-- What an event can do to a session, with the conditions under which it does. -/
inductive Moved (cfg : Config) (s : Session) : Event → Session → Prop where
  | blocked (ev) : Moved cfg s ev s
  | cancel : Moved cfg s .cancel { s with cancelled := true }
  | connected (ev) : s.main = .connecting → Moved cfg s ev { s with main := .attached }
  | connectFailed (ev e) :
    s.main = .connecting → Moved cfg s ev { s with main := .returned (some e) }
  | helloBegins (ev h) : s.main = .attached →
    Moved cfg s ev { s with main := .sendingHello h, handed := s.handed ++ [.hello h] }
  | helloFails (ev h e) :
    s.main = .sendingHello h → Moved cfg s ev { s with main := .returned (some e) }
  | helloSent (ev h) : s.main = .sendingHello h →
    Moved cfg s ev { s with main := .awaitingAck, sent := s.sent ++ [.hello h] }
  | ackFails (ev e) : s.main = .awaitingAck → Moved cfg s ev { s with main := .returned (some e) }
  | acked (ev frames) : s.main = .awaitingAck → s.incoming = .helloAck :: frames →
    Moved cfg s ev
      { s with
        incoming := frames
        received := s.received ++ [.helloAck]
        main := .selecting
        heartbeat := if 0 < cfg.heartbeatTick then .waiting else .absent
        receiver := .receiving }
  | refused (ev frame frames e) : s.main = .awaitingAck → s.incoming = frame :: frames →
    frame ≠ .helloAck →
    Moved cfg s ev
      { s with
        incoming := frames, received := s.received ++ [frame], main := .returned (some e) }
  | closeBegins (ev) :
    s.main = .selecting → s.cancelled = true → Moved cfg s ev { s with main := .closing }
  | closed (ev) : s.main = .closing → Moved cfg s ev { s with main := .returned (some ctxErr) }
  | ended (ev err errs) :
    s.main = .selecting → Moved cfg s ev { s with main := .returned err, errCh := errs }
  | statusBegins (ev p) : s.heartbeat = .waiting →
    Moved cfg s ev { s with heartbeat := .sending p, handed := s.handed ++ [.podStatus p] }
  | statusSent (ev p) : s.heartbeat = .sending p →
    Moved cfg s ev { s with heartbeat := .waiting, sent := s.sent ++ [.podStatus p] }
  | statusFails (ev p errs) : s.heartbeat = .sending p →
    Moved cfg s ev { s with heartbeat := .stopped, errCh := errs }
  | heartbeatEnds (ev) : s.heartbeat = .waiting → Moved cfg s ev { s with heartbeat := .stopped }
  | recvFails (ev errs) : s.receiver = .receiving →
    Moved cfg s ev { s with receiver := .stopped, errCh := errs }
  | receives (ev frame frames) : s.receiver = .receiving → s.incoming = frame :: frames →
    Moved cfg s ev
      { s with
        receiver := afterFrame cfg frame, incoming := frames, received := s.received ++ [frame] }
  | callback (ev cr op k err) : s.receiver = .dispatching cr (.call op k) →
    Moved cfg s ev
      { s with receiver := .dispatching cr (k err), invoked := s.invoked ++ [(op, err)] }
  | responseBegins (ev cr resp) : s.receiver = .dispatching cr (.ret resp) →
    Moved cfg s ev
      { s with receiver := .sending cr resp, handed := s.handed ++ [.controlResp resp] }
  | responseSent (ev cr resp) : s.receiver = .sending cr resp →
    Moved cfg s ev { s with receiver := .receiving, sent := s.sent ++ [.controlResp resp] }
  | responseFails (ev cr resp errs) : s.receiver = .sending cr resp →
    Moved cfg s ev { s with receiver := .failed cr, errCh := errs }

section Moves

variable {cfg : Config} {s : Session}

theorem moved_mainStep (ev : MainEvent) : Moved cfg s (.main ev) (mainStep cfg s ev) := by
  cases ev with
  | connect outcome =>
    unfold mainStep
    dsimp only
    split
    · exact .connectFailed _ _ ‹_›
    · exact .connectFailed _ _ ‹_›
    · exact .connectFailed _ _ ‹_›
    · exact .connected _ ‹_›
    · exact .blocked _
  | sendHello reportedCid =>
    unfold mainStep
    dsimp only
    split
    · exact .helloBegins _ _ ‹_›
    · exact .blocked _
  | sendReturns err =>
    unfold mainStep
    dsimp only
    split
    · exact .helloFails _ _ _ ‹_›
    · exact .helloSent _ _ ‹_›
    · exact .blocked _
  | recvReturns err =>
    unfold mainStep
    dsimp only
    split
    · exact .ackFails _ _ ‹_›
    · rename_i frame frames hmain hin
      cases frame with
      | helloAck => exact .acked _ _ hmain hin
      | controlReq cr => exact .refused _ _ _ _ hmain hin nofun
      | other typeName => exact .refused _ _ _ _ hmain hin nofun
    · exact .blocked _
  | ctxDone =>
    unfold mainStep
    dsimp only
    split
    · split_ifs with hc
      · exact .closeBegins _ ‹_› hc
      · exact .blocked _
    · exact .blocked _
  | closeReturns =>
    unfold mainStep
    dsimp only
    split
    · exact .closed _ ‹_›
    · exact .blocked _
  | errReady =>
    unfold mainStep
    dsimp only
    split
    · exact .ended _ _ _ ‹_›
    · exact .blocked _

theorem moved_heartbeatStep (ev : HeartbeatEvent) :
    Moved cfg s (.heartbeat ev) (heartbeatStep cfg s ev) := by
  cases ev with
  | tick uptimeMs =>
    unfold heartbeatStep
    dsimp only
    split
    · exact .statusBegins _ _ ‹_›
    · exact .blocked _
  | sendReturns err =>
    unfold heartbeatStep
    dsimp only
    split
    · exact .statusSent _ _ ‹_›
    · exact .statusFails _ _ _ ‹_›
    · exact .blocked _
  | ctxDone =>
    unfold heartbeatStep
    dsimp only
    split
    · exact .heartbeatEnds _ ‹_›
    · split_ifs
      · exact .heartbeatEnds _ ‹_›
      · exact .blocked _
    · exact .blocked _

theorem moved_receiverStep (ev : ReceiverEvent) :
    Moved cfg s (.receiver ev) (receiverStep cfg s ev) := by
  cases ev with
  | recvReturns err =>
    unfold receiverStep
    dsimp only
    split
    · exact .recvFails _ _ ‹_›
    · exact .receives _ _ _ ‹_› ‹_›
    · exact .blocked _
  | callbackReturns err =>
    unfold receiverStep
    dsimp only
    split
    · exact .callback _ _ _ _ _ ‹_›
    · exact .blocked _
  | sendResponse =>
    unfold receiverStep
    dsimp only
    split
    · exact .responseBegins _ _ _ ‹_›
    · exact .blocked _
  | sendReturns err =>
    unfold receiverStep
    dsimp only
    split
    · exact .responseSent _ _ _ ‹_›
    · exact .responseFails _ _ _ _ ‹_›
    · exact .blocked _

theorem moved_step (ev : Event) : Moved cfg s ev (step cfg s ev) := by
  cases ev with
  | cancel => exact .cancel
  | main ev => exact moved_mainStep ev
  | heartbeat ev => exact moved_heartbeatStep ev
  | receiver ev => exact moved_receiverStep ev

end Moves

/-! ## One request -/

/-- A control request that was answered, with the callbacks invoked for it. -/
structure Exchange where
  request : ControlRequest
  callbacks : List (CallbackOp × Option GoError)
  response : ControlResponse

/-- The dispatcher has a callback for the request. -/
def Wired (cfg : Config) (cr : ControlRequest) (dp : Dispatcher) (op : CallbackOp) : Prop :=
  cfg.dispatcher = some dp ∧ route dp cr.op = .ok op

/-- The response carries the call's ID, and either the request has no callback, none was invoked and
it reports an error, or it has one, that was invoked, and it reports that callback's error. -/
def Exchange.Proper (cfg : Config) (x : Exchange) : Prop :=
  x.response.callId = x.request.callId ∧
    ((∀ dp op, ¬ Wired cfg x.request dp op) ∧ x.callbacks = [] ∧ x.response.error ≠ [] ∨
      ∃ dp op err, Wired cfg x.request dp op ∧
        x.callbacks = [(op, err)] ∧ x.response.error = (err.map cfg.errorText).getD [])

theorem Exchange.Proper.length_callbacks {cfg : Config} {x : Exchange} (h : x.Proper cfg) :
    x.callbacks.length ≤ 1 := by
  rcases h.2 with ⟨-, hnil, -⟩ | ⟨dp, op, err, -, hone, -⟩
  · simp [hnil]
  · simp [hone]

theorem unwired_ne_nil : unwired ≠ [] := by decide

theorem ne_nil_of_route_eq_error {dp : Dispatcher} {op : ControlOp} {text : GoString}
    (h : route dp op = .error text) : text ≠ [] := by
  cases op with
  | unknown typeName =>
    obtain rfl := Except.error.inj h
    exact List.append_ne_nil_of_left_ne_nil (by decide) _
  | _ =>
    simp only [route] at h
    split_ifs at h
    obtain rfl := Except.error.inj h
    exact unwired_ne_nil

section Dispatch

variable {cfg : Config} {cr : ControlRequest}

theorem proper_of_dispatchControl_eq_ret {resp : ControlResponse}
    (h : dispatchControl cfg.errorText cr cfg.dispatcher = .ret resp) :
    Exchange.Proper cfg ⟨cr, [], resp⟩ := by
  unfold dispatchControl at h
  cases hdp : cfg.dispatcher with
  | none =>
    simp only [hdp, Prog.ret.injEq] at h
    subst h
    refine ⟨rfl, .inl ⟨fun dp op hwired => ?_, rfl, unwired_ne_nil⟩⟩
    cases hdp.symm.trans hwired.1
  | some dp =>
    cases hroute : route dp cr.op with
    | error text =>
      simp only [hdp, hroute, Prog.ret.injEq] at h
      subst h
      refine ⟨rfl, .inl ⟨fun dp' op hwired => ?_, rfl, ne_nil_of_route_eq_error hroute⟩⟩
      obtain rfl := Option.some_inj.mp (hdp.symm.trans hwired.1)
      cases hroute.symm.trans hwired.2
    | ok op => simp [hdp, hroute] at h

theorem proper_of_dispatchControl_eq_call {op : CallbackOp}
    {k : Option GoError → Prog callbackSig ControlResponse}
    (h : dispatchControl cfg.errorText cr cfg.dispatcher = .call op k) (err : Option GoError) :
    ∃ resp, k err = .ret resp ∧ Exchange.Proper cfg ⟨cr, [(op, err)], resp⟩ := by
  unfold dispatchControl at h
  cases hdp : cfg.dispatcher with
  | none => simp [hdp] at h
  | some dp =>
    cases hroute : route dp cr.op with
    | error text => simp [hdp, hroute] at h
    | ok op' =>
      simp only [hdp, hroute, Prog.call.injEq] at h
      obtain ⟨rfl, hk⟩ := h
      obtain rfl := eq_of_heq hk
      cases err with
      | none => exact ⟨_, rfl, rfl, .inr ⟨dp, op', none, ⟨hdp, hroute⟩, rfl, rfl⟩⟩
      | some e => exact ⟨_, rfl, rfl, .inr ⟨dp, op', some e, ⟨hdp, hroute⟩, rfl, rfl⟩⟩

end Dispatch

/-! ## The receiver -/

/-- The control requests among the frames. -/
def requests (frames : List HostFrame) : List ControlRequest :=
  frames.filterMap fun
    | .controlReq cr => some cr
    | _ => none

/-- The responses among the frames. -/
def responses (frames : List GuestFrame) : List ControlResponse :=
  frames.filterMap fun
    | .controlResp r => some r
    | _ => none

/-- The request that was received and whose response has not been sent. -/
def ReceiverPhase.inHand : ReceiverPhase → List ControlRequest
  | .dispatching cr _ => [cr]
  | .sending cr _ => [cr]
  | .failed cr => [cr]
  | _ => []

@[simp] theorem responses_append_podStatus (fs : List GuestFrame) (p : PodStatus) :
    responses (fs ++ [.podStatus p]) = responses fs := by
  simp [responses]

@[simp] theorem responses_append_controlResp (fs : List GuestFrame) (r : ControlResponse) :
    responses (fs ++ [.controlResp r]) = responses fs ++ [r] := by
  simp [responses]

/-- The callbacks invoked so far for the request in hand, by the phase of the receiver. -/
inductive Working (cfg : Config) : ReceiverPhase → List (CallbackOp × Option GoError) → Prop where
  | receiving : Working cfg .receiving []
  | stopped : Working cfg .stopped []
  | fresh {cr p} (h : dispatchControl cfg.errorText cr cfg.dispatcher = p) :
    Working cfg (.dispatching cr p) []
  | answered {cr log resp} (h : Exchange.Proper cfg ⟨cr, log, resp⟩) :
    Working cfg (.dispatching cr (.ret resp)) log
  | sending {cr log resp} (h : Exchange.Proper cfg ⟨cr, log, resp⟩) :
    Working cfg (.sending cr resp) log
  | failed {cr log} (h : log.length ≤ 1) : Working cfg (.failed cr) log

section Working

variable {cfg : Config} {log : List (CallbackOp × Option GoError)}

theorem Working.length_le {r : ReceiverPhase} (h : Working cfg r log) :
    log.length ≤ r.inHand.length := by
  cases h with
  | receiving => exact Nat.le_refl 0
  | stopped => exact Nat.le_refl 0
  | fresh h => exact Nat.zero_le 1
  | answered h => exact h.length_callbacks
  | sending h => exact h.length_callbacks
  | failed h => exact h

theorem Working.eq_nil (h : Working cfg .receiving log) : log = [] := by
  cases h
  rfl

theorem Working.afterCallback {cr : ControlRequest} {op : CallbackOp}
    {k : Option GoError → Prog callbackSig ControlResponse}
    (h : Working cfg (.dispatching cr (.call op k)) log) (err : Option GoError) :
    log = [] ∧ Working cfg (.dispatching cr (k err)) [(op, err)] := by
  cases h with
  | fresh h =>
    obtain ⟨resp, hk, hproper⟩ := proper_of_dispatchControl_eq_call h err
    rw [hk]
    exact ⟨rfl, .answered hproper⟩

theorem Working.proper_of_ret {cr : ControlRequest} {resp : ControlResponse}
    (h : Working cfg (.dispatching cr (.ret resp)) log) : Exchange.Proper cfg ⟨cr, log, resp⟩ := by
  cases h with
  | fresh h => exact proper_of_dispatchControl_eq_ret h
  | answered h => exact h

theorem Working.proper_of_sending {cr : ControlRequest} {resp : ControlResponse}
    (h : Working cfg (.sending cr resp) log) : Exchange.Proper cfg ⟨cr, log, resp⟩ := by
  cases h with
  | sending h => exact h

theorem working_afterFrame (frame : HostFrame) : Working cfg (afterFrame cfg frame) [] := by
  cases frame with
  | controlReq cr => exact .fresh rfl
  | helloAck => exact .receiving
  | other typeName => exact .receiving

theorem inHand_afterFrame (frame : HostFrame) :
    (afterFrame cfg frame).inHand = requests [frame] := by
  cases frame with
  | controlReq cr => rfl
  | helloAck => rfl
  | other typeName => rfl

end Working

/-- The responses sent and the callbacks invoked are those for the requests received, but for the
request in hand. -/
def Answered (cfg : Config) (s : Session) : Prop :=
  ∃ xs : List Exchange, ∃ log,
    (∀ x ∈ xs, x.Proper cfg) ∧
    responses s.sent = xs.map Exchange.response ∧
    requests s.received.tail = xs.map Exchange.request ++ s.receiver.inHand ∧
    s.invoked = xs.flatMap Exchange.callbacks ++ log ∧ Working cfg s.receiver log

/-- The same with the receiver's phase put in. -/
theorem Answered.at_phase {cfg : Config} {s : Session} (h : Answered cfg s) {r : ReceiverPhase}
    (hr : s.receiver = r) :
    ∃ xs : List Exchange, ∃ log,
      (∀ x ∈ xs, x.Proper cfg) ∧
      responses s.sent = xs.map Exchange.response ∧
      requests s.received.tail = xs.map Exchange.request ++ r.inHand ∧
      s.invoked = xs.flatMap Exchange.callbacks ++ log ∧ Working cfg r log :=
  hr ▸ h

/-! ## The stages of a session -/

def GuestFrame.isHello : GuestFrame → Bool
  | .hello _ => true
  | _ => false

/-- One hello, before everything else. -/
def HelloFirst (frames : List GuestFrame) : Prop :=
  ∃ h rest, frames = .hello h :: rest ∧ ∀ f ∈ rest, f.isHello = false

theorem HelloFirst.append {frames : List GuestFrame} (h : HelloFirst frames) {f : GuestFrame}
    (hf : f.isHello = false) : HelloFirst (frames ++ [f]) := by
  obtain ⟨hello, rest, rfl, hrest⟩ := h
  refine ⟨hello, rest ++ [f], rfl, fun g hg => ?_⟩
  rcases List.mem_append.mp hg with hg | hg
  · exact hrest g hg
  · rw [List.mem_singleton.mp hg, hf]

theorem helloFirst_singleton (h : GuestHello) : HelloFirst [.hello h] :=
  ⟨h, [], rfl, fun _ hf => absurd hf List.not_mem_nil⟩

/-- The phases before the acknowledgement. -/
def MainPhase.greeting : MainPhase → Bool
  | .connecting | .attached | .sendingHello _ | .awaitingAck => true
  | .selecting | .closing | .returned _ => false

/-- The phases of the handshake, with the frames handed over, sent and received so far. -/
inductive Handshake : MainPhase → List GuestFrame → List GuestFrame → List HostFrame → Prop where
  | connecting : Handshake .connecting [] [] []
  | attached : Handshake .attached [] [] []
  | sendingHello (h) : Handshake (.sendingHello h) [.hello h] [] []
  | awaitingAck (h) : Handshake .awaitingAck [.hello h] [.hello h] []
  | notConnected (err) : Handshake (.returned err) [] [] []
  | notGreeted (h err) : Handshake (.returned err) [.hello h] [] []
  | notAnswered (h err) : Handshake (.returned err) [.hello h] [.hello h] []
  | refused (h err) {frame} (hf : frame ≠ .helloAck) :
    Handshake (.returned err) [.hello h] [.hello h] [frame]

section Handshake

variable {handed sent : List GuestFrame} {received : List HostFrame}

theorem Handshake.of_connecting (h : Handshake .connecting handed sent received) :
    handed = [] ∧ sent = [] ∧ received = [] := by
  cases h
  exact ⟨rfl, rfl, rfl⟩

theorem Handshake.of_attached (h : Handshake .attached handed sent received) :
    handed = [] ∧ sent = [] ∧ received = [] := by
  cases h
  exact ⟨rfl, rfl, rfl⟩

theorem Handshake.of_sendingHello {hello : GuestHello}
    (h : Handshake (.sendingHello hello) handed sent received) :
    handed = [.hello hello] ∧ sent = [] ∧ received = [] := by
  cases h
  exact ⟨rfl, rfl, rfl⟩

theorem Handshake.of_awaitingAck (h : Handshake .awaitingAck handed sent received) :
    ∃ hello, handed = [.hello hello] ∧ sent = [.hello hello] ∧ received = [] := by
  cases h
  exact ⟨_, rfl, rfl, rfl⟩

theorem not_handshake_selecting : ¬Handshake .selecting handed sent received := nofun

theorem not_handshake_closing : ¬Handshake .closing handed sent received := nofun

end Handshake

/-- The session before the acknowledgement, or after one that failed: only the main goroutine
exists. -/
structure Greeting (s : Session) : Prop where
  phase : Handshake s.main s.handed s.sent s.received
  heartbeat : s.heartbeat = .absent
  receiver : s.receiver = .absent
  invoked : s.invoked = []

/-- The session after the acknowledgement. -/
structure Attached (cfg : Config) (s : Session) : Prop where
  main : s.main.greeting = false
  handed : HelloFirst s.handed
  sent : HelloFirst s.sent
  received : s.received.head? = some .helloAck
  answered : Answered cfg s

section Stages

variable {cfg : Config} {s s' : Session} {ev : Event}

/-- A move before the acknowledgement. -/
theorem Greeting.moved (h : Greeting s) (hm : Moved cfg s ev s') :
    Greeting s' ∨ Attached cfg s' := by
  obtain ⟨hphase, hbeat, hrecv, hinv⟩ := h
  have stay : ∀ {main handed sent received}, Handshake main handed sent received →
      ∀ s', s'.main = main → s'.handed = handed → s'.sent = sent → s'.received = received →
      s'.heartbeat = s.heartbeat → s'.receiver = s.receiver → s'.invoked = s.invoked →
      Greeting s' ∨ Attached cfg s' := by
    rintro _ _ _ _ h s' rfl rfl rfl rfl hb hr hi
    exact .inl ⟨h, hb.trans hbeat, hr.trans hrecv, hi.trans hinv⟩
  cases hm with
  | blocked => exact .inl ⟨hphase, hbeat, hrecv, hinv⟩
  | cancel => exact .inl ⟨hphase, hbeat, hrecv, hinv⟩
  | connected _ hmain =>
    rw [hmain] at hphase
    obtain ⟨hh, hs, hr⟩ := hphase.of_connecting
    exact stay .attached _ rfl hh hs hr rfl rfl rfl
  | connectFailed _ e hmain =>
    rw [hmain] at hphase
    obtain ⟨hh, hs, hr⟩ := hphase.of_connecting
    exact stay (.notConnected _) _ rfl hh hs hr rfl rfl rfl
  | helloBegins _ hello hmain =>
    rw [hmain] at hphase
    obtain ⟨hh, hs, hr⟩ := hphase.of_attached
    exact stay (.sendingHello hello) _ rfl (by simp [hh]) hs hr rfl rfl rfl
  | helloFails _ hello e hmain =>
    rw [hmain] at hphase
    obtain ⟨hh, hs, hr⟩ := hphase.of_sendingHello
    exact stay (.notGreeted hello _) _ rfl hh hs hr rfl rfl rfl
  | helloSent _ hello hmain =>
    rw [hmain] at hphase
    obtain ⟨hh, hs, hr⟩ := hphase.of_sendingHello
    exact stay (.awaitingAck hello) _ rfl hh (by simp [hs]) hr rfl rfl rfl
  | ackFails _ e hmain =>
    rw [hmain] at hphase
    obtain ⟨hello, hh, hs, hr⟩ := hphase.of_awaitingAck
    exact stay (.notAnswered hello _) _ rfl hh hs hr rfl rfl rfl
  | acked _ frames hmain hin =>
    rw [hmain] at hphase
    obtain ⟨hello, hh, hs, hr⟩ := hphase.of_awaitingAck
    refine .inr ⟨rfl, ?_, ?_, ?_, [], [], ?_, ?_, ?_, hinv, .receiving⟩
    · exact hh ▸ helloFirst_singleton hello
    · exact hs ▸ helloFirst_singleton hello
    · simp [hr]
    · exact fun x hx => absurd hx List.not_mem_nil
    · simp [hs, responses]
    · simp [hr, requests, ReceiverPhase.inHand]
  | refused _ frame frames e hmain hin hne =>
    rw [hmain] at hphase
    obtain ⟨hello, hh, hs, hr⟩ := hphase.of_awaitingAck
    exact stay (.refused hello _ hne) _ rfl hh hs (by simp [hr]) rfl rfl rfl
  | closeBegins _ hmain hc => exact absurd (hmain ▸ hphase) not_handshake_selecting
  | closed _ hmain => exact absurd (hmain ▸ hphase) not_handshake_closing
  | ended _ err errs hmain => exact absurd (hmain ▸ hphase) not_handshake_selecting
  -- the other goroutines do not exist yet
  | statusBegins _ p hb => cases hbeat.symm.trans hb
  | statusSent _ p hb => cases hbeat.symm.trans hb
  | statusFails _ p errs hb => cases hbeat.symm.trans hb
  | heartbeatEnds _ hb => cases hbeat.symm.trans hb
  | recvFails _ errs hr => cases hrecv.symm.trans hr
  | receives _ frame frames hr hin => cases hrecv.symm.trans hr
  | callback _ cr op k err hr => cases hrecv.symm.trans hr
  | responseBegins _ cr resp hr => cases hrecv.symm.trans hr
  | responseSent _ cr resp hr => cases hrecv.symm.trans hr
  | responseFails _ cr resp errs hr => cases hrecv.symm.trans hr

/-- A move after the acknowledgement. -/
theorem Attached.moved (h : Attached cfg s) (hm : Moved cfg s ev s') : Attached cfg s' := by
  obtain ⟨hmain, hh, hs, hr, hans⟩ := h
  have hgreeting : ∀ {m}, s.main = m → m.greeting = false := fun hm => hm ▸ hmain
  cases hm with
  | blocked => exact ⟨hmain, hh, hs, hr, hans⟩
  | cancel => exact ⟨hmain, hh, hs, hr, hans⟩
  | connected _ hm => cases hgreeting hm
  | connectFailed _ e hm => cases hgreeting hm
  | helloBegins _ hello hm => cases hgreeting hm
  | helloFails _ hello e hm => cases hgreeting hm
  | helloSent _ hello hm => cases hgreeting hm
  | ackFails _ e hm => cases hgreeting hm
  | acked _ frames hm hin => cases hgreeting hm
  | refused _ frame frames e hm hin hne => cases hgreeting hm
  | closeBegins _ hm hc => exact ⟨rfl, hh, hs, hr, hans⟩
  | closed _ hm => exact ⟨rfl, hh, hs, hr, hans⟩
  | ended _ err errs hm => exact ⟨rfl, hh, hs, hr, hans⟩
  | statusBegins _ p hb => exact ⟨hmain, hh.append rfl, hs, hr, hans⟩
  | statusSent _ p hb =>
    obtain ⟨xs, log, hproper, hresp, hans⟩ := hans
    exact ⟨hmain, hh, hs.append rfl, hr, xs, log, hproper, by simpa using hresp, hans⟩
  | statusFails _ p errs hb => exact ⟨hmain, hh, hs, hr, hans⟩
  | heartbeatEnds _ hb => exact ⟨hmain, hh, hs, hr, hans⟩
  | recvFails _ errs hrecv =>
    obtain ⟨xs, log, hproper, hresp, hreq, hinv, hwork⟩ := hans.at_phase hrecv
    obtain rfl := hwork.eq_nil
    exact ⟨hmain, hh, hs, hr, xs, [], hproper, hresp, hreq, hinv, .stopped⟩
  | receives _ frame frames hrecv hin =>
    obtain ⟨xs, log, hproper, hresp, hreq, hinv, hwork⟩ := hans.at_phase hrecv
    obtain rfl := hwork.eq_nil
    have hne : s.received ≠ [] := by
      intro hnil
      simp [hnil] at hr
    refine ⟨hmain, hh, hs, ?_, xs, [], hproper, hresp, ?_, hinv, working_afterFrame frame⟩
    · rw [List.head?_append_of_ne_nil _ hne, hr]
    · rw [List.tail_append_of_ne_nil hne, requests, List.filterMap_append, inHand_afterFrame]
      simpa [ReceiverPhase.inHand, requests] using hreq
  | callback _ cr op k err hrecv =>
    obtain ⟨xs, log, hproper, hresp, hreq, hinv, hwork⟩ := hans.at_phase hrecv
    obtain ⟨rfl, hnext⟩ := hwork.afterCallback err
    exact ⟨hmain, hh, hs, hr, xs, [(op, err)], hproper, hresp, hreq, by simp [hinv], hnext⟩
  | responseBegins _ cr resp hrecv =>
    obtain ⟨xs, log, hproper, hresp, hreq, hinv, hwork⟩ := hans.at_phase hrecv
    exact ⟨hmain, hh.append rfl, hs, hr, xs, log, hproper, hresp, hreq, hinv,
      .sending hwork.proper_of_ret⟩
  | responseSent _ cr resp hrecv =>
    obtain ⟨xs, log, hproper, hresp, hreq, hinv, hwork⟩ := hans.at_phase hrecv
    refine ⟨hmain, hh, hs.append rfl, hr, xs ++ [⟨cr, log, resp⟩], [], ?_, ?_, ?_, ?_, .receiving⟩
    · intro x hx
      rcases List.mem_append.mp hx with hx | hx
      · exact hproper x hx
      · exact List.mem_singleton.mp hx ▸ hwork.proper_of_sending
    · simp [hresp]
    · simpa [ReceiverPhase.inHand] using hreq
    · simp [hinv]
  | responseFails _ cr resp errs hrecv =>
    obtain ⟨xs, log, hproper, hresp, hreq, hinv, hwork⟩ := hans.at_phase hrecv
    exact ⟨hmain, hh, hs, hr, xs, log, hproper, hresp, hreq, hinv,
      .failed hwork.proper_of_sending.length_callbacks⟩

end Stages

/-! ## Whole sessions -/

theorem greeting_or_attached (cfg : Config) (incoming : List HostFrame) (evs : List Event) :
    Greeting (runOnce cfg incoming evs) ∨ Attached cfg (runOnce cfg incoming evs) := by
  have hinit : Greeting { incoming := incoming } := ⟨.connecting, rfl, rfl, rfl⟩
  have hstep : ∀ s, Greeting s ∨ Attached cfg s → ∀ ev ∈ evs,
      Greeting (step cfg s ev) ∨ Attached cfg (step cfg s ev) := by
    rintro s (hs | hs) ev -
    · exact hs.moved (moved_step ev)
    · exact .inr (hs.moved (moved_step ev))
  exact List.foldlRecOn evs (step cfg) (Or.inl hinit) hstep

/-- No frame, or the hello alone. -/
def Greeted (frames : List GuestFrame) : Prop :=
  frames = [] ∨ ∃ hello, frames = [.hello hello]

section Greeted

variable {frames : List GuestFrame}

theorem Greeted.helloFirst (h : Greeted frames) : frames = [] ∨ HelloFirst frames := by
  rcases h with h | ⟨hello, rfl⟩
  · exact .inl h
  · exact .inr (helloFirst_singleton hello)

theorem Greeted.isHello (h : Greeted frames) : ∀ f ∈ frames, f.isHello = true := by
  intro f hf
  rcases h with rfl | ⟨hello, rfl⟩
  · exact absurd hf List.not_mem_nil
  · rw [List.mem_singleton.mp hf]
    rfl

theorem Greeted.responses (h : Greeted frames) : responses frames = [] := by
  rcases h with rfl | ⟨hello, rfl⟩ <;> rfl

end Greeted

theorem Handshake.frames {main : MainPhase} {handed sent : List GuestFrame}
    {received : List HostFrame} (h : Handshake main handed sent received) :
    Greeted handed ∧ Greeted sent ∧ received.tail = [] := by
  cases h <;> simp [Greeted]

/-- At every moment of every session: the first frame is the only hello; other frames are sent only
after an acknowledgement came first; and the responses sent are, in order, the proper ones to the
requests received after it, but for the request in hand, for which at most one callback was
invoked. -/
theorem session_answers_in_order (cfg : Config) (incoming : List HostFrame) (evs : List Event) :
    let s := runOnce cfg incoming evs
    (s.handed = [] ∨ HelloFirst s.handed) ∧ (s.sent = [] ∨ HelloFirst s.sent) ∧
    (∀ f ∈ s.handed ++ s.sent, f.isHello = false → s.received.head? = some .helloAck) ∧
    ∃ xs : List Exchange, ∃ log,
      (∀ x ∈ xs, x.Proper cfg) ∧
      responses s.sent = xs.map Exchange.response ∧
      requests s.received.tail = xs.map Exchange.request ++ s.receiver.inHand ∧
      s.invoked = xs.flatMap Exchange.callbacks ++ log ∧
      log.length ≤ s.receiver.inHand.length := by
  intro s
  rcases greeting_or_attached cfg incoming evs with h | h
  · obtain ⟨hhanded, hsent, htail⟩ := h.phase.frames
    refine ⟨hhanded.helloFirst, hsent.helloFirst, fun f hf hno => ?_, [], [], ?_, ?_, ?_, ?_, ?_⟩
    · have hyes : f.isHello = true :=
        (List.mem_append.mp hf).elim (hhanded.isHello f) (hsent.isHello f)
      cases hyes.symm.trans hno
    · exact fun x hx => absurd hx List.not_mem_nil
    · exact hsent.responses
    · rw [htail, h.receiver]
      rfl
    · exact h.invoked
    · exact Nat.zero_le _
  · obtain ⟨xs, log, hproper, hresp, hreq, hinv, hwork⟩ := h.answered
    exact ⟨.inr h.handed, .inr h.sent, fun _ _ _ => h.received, xs, log, hproper, hresp, hreq, hinv,
      hwork.length_le⟩

end WeftAgent.Guestplane
