import WeftAgent.Guestplane.Proofs.ClientProofs

/-!
# Calls that overlap on the stream

After the handshake three goroutines use the stream without a lock between them: the heartbeat and
the receiver call `Send`, and the main one `CloseSend` once the context is done. No two calls are
ever in progress together exactly if at most one of the three has a reason to call.
-/

namespace WeftAgent.Guestplane

open WeftAgent.Go WeftAgent.Effect

/-- The states that some schedule leads to; `cancelled` says whether the context may be
cancelled. -/
def Reachable (cfg : Config) (incoming : List HostFrame) (cancelled : Bool) (s : Session) : Prop :=
  ∃ evs, (Event.cancel ∈ evs → cancelled = true) ∧ runOnce cfg incoming evs = s

/-- At most one of the goroutines comes to use the stream after the handshake: the heartbeat is
enabled, the host sends a control request after the acknowledgement, or the context is cancelled. -/
def OneSender (cfg : Config) (incoming : List HostFrame) (cancelled : Bool) : Prop :=
  incoming.head? = some .helloAck →
    ¬(0 < cfg.heartbeatTick ∧ requests incoming.tail ≠ []) ∧
    ¬(0 < cfg.heartbeatTick ∧ cancelled = true) ∧
    ¬(requests incoming.tail ≠ [] ∧ cancelled = true)

section Reachable

variable {cfg : Config} {incoming : List HostFrame} {cancelled : Bool} {s : Session}

theorem Reachable.step (h : Reachable cfg incoming cancelled s) (ev : Event)
    (hev : ev = .cancel → cancelled = true) :
    Reachable cfg incoming cancelled (step cfg s ev) := by
  obtain ⟨evs, hevs, rfl⟩ := h
  refine ⟨evs ++ [ev], fun hmem => ?_, ?_⟩
  · rcases List.mem_append.mp hmem with hmem | hmem
    · exact hevs hmem
    · exact hev (List.mem_singleton.mp hmem).symm
  · rw [runOnce, List.foldl_append]
    rfl

/-! ## No overlap -/

/-- What the phases of a session say about the configuration and the host. -/
structure Sourced (cfg : Config) (incoming : List HostFrame) (cancelled : Bool) (s : Session) :
    Prop where
  frames : s.received ++ s.incoming = incoming
  heartbeat : s.heartbeat ≠ .absent → 0 < cfg.heartbeatTick
  cancelled : s.cancelled = true → cancelled = true
  closing : s.main = .closing → s.cancelled = true

theorem Sourced.moved {s' : Session} {ev : Event} (h : Sourced cfg incoming cancelled s)
    (hm : Moved cfg s ev s') (hev : ev = .cancel → cancelled = true) :
    Sourced cfg incoming cancelled s' := by
  obtain ⟨hframes, hbeat, hcancel, hclose⟩ := h
  cases hm with
  | blocked => exact ⟨hframes, hbeat, hcancel, hclose⟩
  | cancel => exact ⟨hframes, hbeat, fun _ => hev rfl, fun _ => rfl⟩
  | connected => exact ⟨hframes, hbeat, hcancel, nofun⟩
  | connectFailed => exact ⟨hframes, hbeat, hcancel, nofun⟩
  | helloBegins => exact ⟨hframes, hbeat, hcancel, nofun⟩
  | helloFails => exact ⟨hframes, hbeat, hcancel, nofun⟩
  | helloSent => exact ⟨hframes, hbeat, hcancel, nofun⟩
  | ackFails => exact ⟨hframes, hbeat, hcancel, nofun⟩
  | acked _ frames hmain hin =>
    refine ⟨by simpa [hin] using hframes, fun hne => ?_, hcancel, nofun⟩
    by_contra hoff
    exact hne (if_neg hoff)
  | refused _ frame frames e hmain hin =>
    exact ⟨by simpa [hin] using hframes, hbeat, hcancel, nofun⟩
  | closeBegins _ hmain hc => exact ⟨hframes, hbeat, hcancel, fun _ => hc⟩
  | closed => exact ⟨hframes, hbeat, hcancel, nofun⟩
  | ended => exact ⟨hframes, hbeat, hcancel, nofun⟩
  | statusBegins _ p hb => exact ⟨hframes, fun _ => hbeat (by simp [hb]), hcancel, hclose⟩
  | statusSent _ p hb => exact ⟨hframes, fun _ => hbeat (by simp [hb]), hcancel, hclose⟩
  | statusFails _ p errs hb => exact ⟨hframes, fun _ => hbeat (by simp [hb]), hcancel, hclose⟩
  | heartbeatEnds _ hb => exact ⟨hframes, fun _ => hbeat (by simp [hb]), hcancel, hclose⟩
  | recvFails => exact ⟨hframes, hbeat, hcancel, hclose⟩
  | receives _ frame frames hr hin =>
    exact ⟨by simpa [hin] using hframes, hbeat, hcancel, hclose⟩
  | callback => exact ⟨hframes, hbeat, hcancel, hclose⟩
  | responseBegins => exact ⟨hframes, hbeat, hcancel, hclose⟩
  | responseSent => exact ⟨hframes, hbeat, hcancel, hclose⟩
  | responseFails => exact ⟨hframes, hbeat, hcancel, hclose⟩

theorem Reachable.sourced (h : Reachable cfg incoming cancelled s) :
    Sourced cfg incoming cancelled s := by
  obtain ⟨evs, hevs, rfl⟩ := h
  have hinit : Sourced cfg incoming cancelled { incoming := incoming } := ⟨rfl, nofun, nofun, nofun⟩
  exact List.foldlRecOn evs (Guestplane.step cfg) hinit fun s hs ev hmem =>
    hs.moved (moved_step ev) fun heq => hevs (heq ▸ hmem)

theorem MainPhase.calls_length_le (m : MainPhase) : m.calls.length ≤ 1 := by
  cases m <;> simp [MainPhase.calls]

theorem HeartbeatPhase.calls_length_le (p : HeartbeatPhase) : p.calls.length ≤ 1 := by
  cases p <;> simp [HeartbeatPhase.calls]

theorem ReceiverPhase.calls_length_le (r : ReceiverPhase) : r.calls.length ≤ 1 := by
  cases r <;> simp [ReceiverPhase.calls]

/-- A response in progress is one to a request received after the acknowledgement. -/
theorem requests_ne_nil_of_calls (hs : Sourced cfg incoming cancelled s) (ha : Attached cfg s)
    (hcalls : s.receiver.calls ≠ []) : requests incoming.tail ≠ [] := by
  obtain ⟨xs, log, -, -, hreq, -, -⟩ := ha.answered
  have hne : s.received ≠ [] := by
    intro hnil
    simpa [hnil] using ha.received
  have hhand : s.receiver.inHand ≠ [] := by
    cases hr : s.receiver with
    | sending cr resp => exact List.cons_ne_nil _ _
    | _ => exact absurd (by rw [hr]; rfl) hcalls
  rw [← hs.frames, List.tail_append_of_ne_nil hne, requests, List.filterMap_append]
  refine List.append_ne_nil_of_left_ne_nil ?_ _
  change requests s.received.tail ≠ []
  rw [hreq]
  exact List.append_ne_nil_of_right_ne_nil _ hhand

theorem Reachable.inProgress_le (hone : OneSender cfg incoming cancelled)
    (h : Reachable cfg incoming cancelled s) : s.inProgress.length ≤ 1 := by
  have hs := h.sourced
  have hmain := s.main.calls_length_le
  have hbeat := s.heartbeat.calls_length_le
  have hrecv := s.receiver.calls_length_le
  rw [Session.inProgress, List.length_append, List.length_append]
  obtain ⟨evs, -, hrun⟩ := h
  rcases hrun ▸ greeting_or_attached cfg incoming evs with hg | ha
  · -- only the main goroutine exists
    rw [hg.heartbeat, hg.receiver]
    exact hmain
  · have hack : incoming.head? = some .helloAck := by
      rw [← hs.frames, List.head?_append, ha.received]
      rfl
    obtain ⟨hbr, hbc, hrc⟩ := hone hack
    have hb : s.heartbeat.calls ≠ [] → 0 < cfg.heartbeatTick := by
      intro hne
      refine hs.heartbeat fun habs => hne ?_
      rw [habs]
      rfl
    have hr := requests_ne_nil_of_calls hs ha
    have hc : s.main.calls ≠ [] → cancelled = true := by
      intro hne
      refine hs.cancelled (hs.closing ?_)
      have hgreet := ha.main
      cases hm : s.main with
      | closing => rfl
      | sendingHello hello => simp [hm, MainPhase.greeting] at hgreet
      | _ => exact absurd (by rw [hm]; rfl) hne
    have hbr' : ¬(0 < s.heartbeat.calls.length ∧ 0 < s.receiver.calls.length) := fun ⟨h₁, h₂⟩ =>
      hbr ⟨hb (List.length_pos_iff.mp h₁), hr (List.length_pos_iff.mp h₂)⟩
    have hbc' : ¬(0 < s.heartbeat.calls.length ∧ 0 < s.main.calls.length) := fun ⟨h₁, h₂⟩ =>
      hbc ⟨hb (List.length_pos_iff.mp h₁), hc (List.length_pos_iff.mp h₂)⟩
    have hrc' : ¬(0 < s.receiver.calls.length ∧ 0 < s.main.calls.length) := fun ⟨h₁, h₂⟩ =>
      hrc ⟨hr (List.length_pos_iff.mp h₁), hc (List.length_pos_iff.mp h₂)⟩
    omega

/-! ## Schedules that overlap -/

/-- The receiver can come to send a response while the other goroutines wait. -/
theorem Reachable.exists_sending {frames : List HostFrame}
    (h : Reachable cfg incoming cancelled s) (hrecv : s.receiver = .receiving)
    (hin : s.incoming = frames) (hreq : requests frames ≠ []) :
    ∃ s', Reachable cfg incoming cancelled s' ∧ (∃ cr resp, s'.receiver = .sending cr resp) ∧
      s'.main = s.main ∧ s'.heartbeat = s.heartbeat := by
  induction frames generalizing s with
  | nil => exact absurd rfl hreq
  | cons frame frames ih =>
    have hnext := h.step (.receiver (.recvReturns none)) nofun
    simp only [Guestplane.step, receiverStep, hrecv, hin] at hnext
    cases frame with
    | helloAck =>
      have hrest := ih hnext rfl rfl hreq
      exact hrest
    | other typeName =>
      have hrest := ih hnext rfl rfl hreq
      exact hrest
    | controlReq cr =>
      cases hd : dispatchControl cfg.errorText cr cfg.dispatcher with
      | ret resp =>
        have hsend := hnext.step (.receiver .sendResponse) nofun
        simp only [Guestplane.step, receiverStep, afterFrame, hd] at hsend
        exact ⟨_, hsend, ⟨cr, resp, rfl⟩, rfl, rfl⟩
      | call op k =>
        obtain ⟨resp, hk, -⟩ := proper_of_dispatchControl_eq_call hd none
        have hret := hnext.step (.receiver (.callbackReturns none)) nofun
        have hsend := hret.step (.receiver .sendResponse) nofun
        simp only [Guestplane.step, receiverStep, afterFrame, hd, hk] at hsend
        exact ⟨_, hsend, ⟨cr, resp, rfl⟩, rfl, rfl⟩

/-- The handshake succeeds if the host's first frame is the acknowledgement. -/
theorem exists_attached (cfg : Config) (frames : List HostFrame) (cancelled : Bool) :
    ∃ s, Reachable cfg (.helloAck :: frames) cancelled s ∧ s.main = .selecting ∧
      s.receiver = .receiving ∧ s.incoming = frames ∧
      s.heartbeat = if 0 < cfg.heartbeatTick then .waiting else .absent :=
  ⟨_, ⟨[.main (.connect .attached), .main (.sendHello 0), .main (.sendReturns none),
    .main (.recvReturns none)], by simp, rfl⟩, rfl, rfl, rfl, rfl⟩

theorem Reachable.exists_tick (h : Reachable cfg incoming cancelled s)
    (hbeat : s.heartbeat = .waiting) :
    ∃ s', Reachable cfg incoming cancelled s' ∧ s'.heartbeat.calls.length = 1 ∧
      s'.main = s.main ∧ s'.receiver = s.receiver := by
  have hnext := h.step (.heartbeat (.tick 0)) nofun
  simp only [Guestplane.step, heartbeatStep, hbeat] at hnext
  exact ⟨_, hnext, rfl, rfl, rfl⟩

theorem Reachable.exists_closing (h : Reachable cfg incoming true s) (hmain : s.main = .selecting) :
    ∃ s', Reachable cfg incoming true s' ∧ s'.main.calls.length = 1 ∧
      s'.heartbeat = s.heartbeat ∧ s'.receiver = s.receiver := by
  have hcancel := h.step .cancel fun _ => rfl
  have hnext := hcancel.step (.main .ctxDone) nofun
  simp only [Guestplane.step, mainStep, hmain, if_true] at hnext
  exact ⟨_, hnext, rfl, rfl, rfl⟩

end Reachable

/-- In all sessions with this configuration, these frames from the host and this fate of the
context, two calls of `Send` or `CloseSend` are never in progress together, exactly if at most one
goroutine comes to use the stream after the handshake. -/
theorem calls_never_overlap_iff (cfg : Config) (incoming : List HostFrame) (cancelled : Bool) :
    (∀ s, Reachable cfg incoming cancelled s → s.inProgress.length ≤ 1) ↔
      OneSender cfg incoming cancelled := by
  refine ⟨fun hall hack => ?_, fun hone s h => h.inProgress_le hone⟩
  obtain ⟨frames, rfl⟩ : ∃ frames, incoming = .helloAck :: frames := by
    cases incoming with
    | nil => cases hack
    | cons frame frames => exact ⟨frames, by rw [Option.some.inj hack]⟩
  obtain ⟨s, hs, hmain, hrecv, hin, hbeat⟩ := exists_attached cfg frames cancelled
  have overlap : ∀ {s}, Reachable cfg (.helloAck :: frames) cancelled s →
      ¬2 ≤ s.main.calls.length + s.heartbeat.calls.length + s.receiver.calls.length := by
    intro s hs hle
    have := hall s hs
    rw [Session.inProgress, List.length_append, List.length_append] at this
    omega
  refine ⟨?_, ?_, ?_⟩
  · rintro ⟨htick, hreq⟩
    rw [if_pos htick] at hbeat
    obtain ⟨s₁, hs₁, ⟨cr, resp, hsending⟩, -, hbeat₁⟩ := hs.exists_sending hrecv hin hreq
    obtain ⟨s₂, hs₂, htwo, -, hrecv₂⟩ := hs₁.exists_tick (hbeat₁.trans hbeat)
    refine overlap hs₂ ?_
    rw [htwo, hrecv₂, hsending]
    exact Nat.le_add_left _ _
  · rintro ⟨htick, rfl⟩
    rw [if_pos htick] at hbeat
    obtain ⟨s₁, hs₁, htick₁, hmain₁, -⟩ := hs.exists_tick hbeat
    obtain ⟨s₂, hs₂, htwo, hbeat₂, -⟩ := hs₁.exists_closing (hmain₁.trans hmain)
    refine overlap hs₂ ?_
    rw [htwo, hbeat₂, htick₁]
    exact Nat.le_add_right _ _
  · rintro ⟨hreq, rfl⟩
    obtain ⟨s₁, hs₁, ⟨cr, resp, hsending⟩, hmain₁, -⟩ := hs.exists_sending hrecv hin hreq
    obtain ⟨s₂, hs₂, htwo, -, hrecv₂⟩ := hs₁.exists_closing (hmain₁.trans hmain)
    refine overlap hs₂ ?_
    rw [htwo, hrecv₂, hsending, ReceiverPhase.calls, List.length_singleton]
    omega

/-- A status every ten seconds, no dispatcher. -/
def defaultBeat : Config :=
  { hostCID := 2, port := 7777, podID := lit "pod", kernelInfo := [], initVersion := []
    heartbeatTick := 10000000000, dispatcher := none, errorText := fun _ => [] }

/-- The ticker fires while the response to a control request is being sent. -/
theorem status_overlaps_response :
    (runOnce defaultBeat [.helloAck, .controlReq ⟨1, .stopPod 0⟩]
      [.main (.connect .attached), .main (.sendHello 3), .main (.sendReturns none),
        .main (.recvReturns none), .receiver (.recvReturns none), .receiver .sendResponse,
        .heartbeat (.tick 10000)]).inProgress =
      [.send (.podStatus ⟨lit "pod", 10000⟩), .send (.controlResp ⟨1, unwired⟩)] := rfl

end WeftAgent.Guestplane
