import WeftAgent.Sshd.Proofs.ServerProofs

/-!
# What a session channel does with its requests

The requests that are taken up one after the other, each with its own effects: which of them start
the shell, with what, and how they are answered.
-/

namespace WeftAgent.Sshd

open Go

/-- The parser that the loop runs on the payload does not panic. -/
def NoPanic (req : Request) : Prop :=
  match req.type with
  | .ptyReq => parsePtyReq req.payload ≠ .panicked
  | .env => parseEnvReq req.payload ≠ .panicked
  | .exec => parseExecReq req.payload ≠ .panicked
  | .windowChange => parseWinChReq req.payload ≠ .panicked
  | .shell | .other => True

instance : DecidablePred NoPanic
  | ⟨.ptyReq, _, p⟩ => inferInstanceAs (Decidable (parsePtyReq p ≠ .panicked))
  | ⟨.env, _, p⟩ => inferInstanceAs (Decidable (parseEnvReq p ≠ .panicked))
  | ⟨.exec, _, p⟩ => inferInstanceAs (Decidable (parseExecReq p ≠ .panicked))
  | ⟨.windowChange, _, p⟩ => inferInstanceAs (Decidable (parseWinChReq p ≠ .panicked))
  | ⟨.shell, _, _⟩ | ⟨.other, _, _⟩ => inferInstanceAs (Decidable True)

/-- The `k=v` string of a well-formed `env` request. -/
def envOf (req : Request) : Option GoString :=
  match req.type, parseEnvReq req.payload with
  | .env, .done (k, v, none) => some (k ++ lit "=" ++ v)
  | _, _ => none

/-- The payload of a well-formed `pty-req` request. -/
def ptyOf (req : Request) : Option PtyReqPayload :=
  match req.type, parsePtyReq req.payload with
  | .ptyReq, .done (p, none) => some p
  | _, _ => none

/-- The command line of a `shell` request, or of an `exec` request that parses. -/
def lineOf (req : Request) : Option GoString :=
  match req.type, parseExecReq req.payload with
  | .shell, _ => some []
  | .exec, .done (line, none) => some line
  | _, _ => none

def isReply : Effect → Bool
  | .reply _ => true
  | _ => false

def isStart : Effect → Bool
  | .startShell _ _ _ => true
  | _ => false

/-- What the loop body does to the outside for a request taken up in a state. -/
def passEffects (h : Host) (pass : Session × Request) : List Effect :=
  match handleRequest h pass.1 pass.2 with
  | .done (_, effects, _) => effects
  | .panicked => []

/-- The request asks for a process, and is answered true. -/
def grants (h : Host) (pass : Session × Request) : Bool :=
  (pass.2.type = .shell ∨ pass.2.type = .exec) ∧ Effect.reply true ∈ passEffects h pass

/-! ## What one pass can do -/

/-- The ways through the loop body: the state before it, the request, the state after it, the
effects and whether the loop goes on. -/
inductive Handled (h : Host) (st : Session) (req : Request) :
    Session → List Effect → Next → Prop where
  | ptyRefused {p e} (htype : req.type = .ptyReq)
      (hparse : parsePtyReq req.payload = .done (p, some e)) :
      Handled h st req st [.reply false] .loop
  | ptyTaken {p} (htype : req.type = .ptyReq) (hparse : parsePtyReq req.payload = .done (p, none)) :
      Handled h st req { st with ptyReq := some p } [.reply true] .loop
  | envIgnored {k v e} (htype : req.type = .env)
      (hparse : parseEnvReq req.payload = .done (k, v, some e)) :
      Handled h st req st [.reply true] .loop
  | envTaken {k v} (htype : req.type = .env)
      (hparse : parseEnvReq req.payload = .done (k, v, none)) :
      Handled h st req { st with envVars := st.envVars ++ [k ++ lit "=" ++ v] } [.reply true] .loop
  | again (htype : req.type = .shell ∨ req.type = .exec) (hst : st.started = true) :
      Handled h st req st [.reply false] .loop
  /-- A line that does not parse is refused, and takes the one start with it. -/
  | execRefused {line e} (htype : req.type = .exec) (hst : st.started = false)
      (hparse : parseExecReq req.payload = .done (line, some e)) :
      Handled h st req { st with started := true } [.reply false] .loop
  | startFails {line execLine e} (htype : req.type = .shell ∨ req.type = .exec)
      (hst : st.started = false) (hline : lineOf req = some line)
      (hstart : startShell h st.ptyReq st.envVars line = .error e) :
      Handled h st req { st with started := true, execLine := execLine }
        [.startShell st.ptyReq st.envVars line, .reply false] .stop
  | starts {line execLine f} (htype : req.type = .shell ∨ req.type = .exec)
      (hst : st.started = false) (hline : lineOf req = some line)
      (hstart : startShell h st.ptyReq st.envVars line = .ok f) :
      Handled h st req { st with started := true, execLine := execLine, ptyMaster := some f }
        [.startShell st.ptyReq st.envVars line, .reply true] .loop
  | sizeIgnored (htype : req.type = .windowChange)
      (hwhy : st.ptyMaster = none ∨ ∃ w e, parseWinChReq req.payload = .done (w, some e)) :
      Handled h st req st [] .loop
  | resized {f w} (htype : req.type = .windowChange) (hm : st.ptyMaster = some f)
      (hparse : parseWinChReq req.payload = .done (w, none)) :
      Handled h st req st [.setsize f { rows := w.rows.toUInt16, cols := w.cols.toUInt16,
                                        x := w.xPx.toUInt16, y := w.yPx.toUInt16 }] .loop
  | other (htype : req.type = .other) :
      Handled h st req st (if req.wantReply then [.reply false] else []) .loop

section Requests

variable {h : Host} {st st' : Session} {req : Request} {effects : List Effect} {next : Next}

/-- The end of a `shell` or `exec` pass, in the state in which the start is noted. -/
theorem handled_start {line execLine : GoString} (htype : req.type = .shell ∨ req.type = .exec)
    (hst : st.started = false) (hline : lineOf req = some line)
    (hstart : start h { st with started := true, execLine := execLine } line =
      (st', effects, next)) : Handled h st req st' effects next := by
  unfold start at hstart
  cases hf : startShell h st.ptyReq st.envVars line with
  | error e =>
    simp only [hf] at hstart
    cases hstart
    exact .startFails htype hst hline hf
  | ok f =>
    simp only [hf] at hstart
    cases hstart
    exact .starts htype hst hline hf

theorem handled_handleRequest (hdone : handleRequest h st req = .done (st', effects, next)) :
    Handled h st req st' effects next := by
  unfold handleRequest at hdone
  cases htype : req.type with
  | ptyReq =>
    simp only [htype] at hdone
    obtain ⟨⟨p, err⟩, hparse, hrest⟩ := Run.bind_eq_done.mp hdone
    cases err with
    | some e =>
      cases hrest
      exact .ptyRefused htype hparse
    | none =>
      cases hrest
      exact .ptyTaken htype hparse
  | env =>
    simp only [htype] at hdone
    obtain ⟨⟨k, v, err⟩, hparse, hrest⟩ := Run.bind_eq_done.mp hdone
    cases err with
    | some e =>
      cases hrest
      exact .envIgnored htype hparse
    | none =>
      cases hrest
      exact .envTaken htype hparse
  | shell =>
    simp only [htype] at hdone
    split_ifs at hdone with hst
    · cases hdone
      exact .again (.inl htype) hst
    · have hline : lineOf req = some [] := by simp [lineOf, htype]
      exact handled_start (.inl htype) (by simpa using hst) hline (Run.done.inj hdone)
  | exec =>
    simp only [htype] at hdone
    split_ifs at hdone with hst
    · cases hdone
      exact .again (.inr htype) hst
    · rw [Bool.not_eq_true] at hst
      obtain ⟨⟨line, err⟩, hparse, hrest⟩ := Run.bind_eq_done.mp hdone
      cases err with
      | some e =>
        cases hrest
        exact .execRefused htype hst hparse
      | none =>
        have hline : lineOf req = some line := by simp [lineOf, htype, hparse]
        exact handled_start (.inr htype) hst hline (Run.done.inj hrest)
  | windowChange =>
    simp only [htype] at hdone
    cases hm : st.ptyMaster with
    | none =>
      simp only [hm] at hdone
      cases hdone
      exact .sizeIgnored htype (.inl hm)
    | some f =>
      simp only [hm] at hdone
      obtain ⟨⟨w, err⟩, hparse, hrest⟩ := Run.bind_eq_done.mp hdone
      cases err with
      | some e =>
        cases hrest
        exact .sizeIgnored htype (.inr ⟨w, e, hparse⟩)
      | none =>
        cases hrest
        exact .resized htype hm hparse
  | other =>
    simp only [htype] at hdone
    cases hdone
    exact .other htype

end Requests

/-! ## One pass -/

/-- What one pass through the loop body does, in the state `st` and to the state `st'`. -/
structure Pass (st : Session) (req : Request) (st' : Session) (effects : List Effect) : Prop where
  env : st'.envVars = st.envVars ++ (envOf req).toList
  pty : st'.ptyReq = (ptyOf req).or st.ptyReq
  started : st.started = true → st'.started = true
  /-- The shell is started with what was collected, by a request that found nothing started. -/
  start : ∀ pty env line, Effect.startShell pty env line ∈ effects →
    st.started = false ∧ st'.started = true ∧ lineOf req = some line ∧ pty = st.ptyReq ∧
      env = st.envVars
  once : effects.countP isStart ≤ 1
  replies : req.type ∈ [.ptyReq, .env, .shell, .exec] → effects.countP isReply = 1
  /-- Only a start is answered true. -/
  granted : req.type = .shell ∨ req.type = .exec → Effect.reply true ∈ effects →
    ∃ pty env line, Effect.startShell pty env line ∈ effects

section Passes

variable {h : Host} {st st' : Session} {req : Request} {effects : List Effect} {next : Next}

/-- A pass that calls `startShell`. -/
theorem pass_start {line : GoString} (ok : Bool)
    (htype : req.type = .shell ∨ req.type = .exec) (hst : st.started = false)
    (hline : lineOf req = some line) (hst' : st'.started = true)
    (henv' : st'.envVars = st.envVars) (hpty' : st'.ptyReq = st.ptyReq) :
    Pass st req st' [.startShell st.ptyReq st.envVars line, .reply ok] where
  env := by rcases htype with htype | htype <;> simp [envOf, htype, henv']
  pty := by rcases htype with htype | htype <;> simp [ptyOf, htype, hpty']
  started _ := hst'
  start := by
    intro pty env line' hmem
    simp only [List.mem_cons, Effect.startShell.injEq, reduceCtorEq, List.not_mem_nil,
      or_false] at hmem
    obtain ⟨rfl, rfl, rfl⟩ := hmem
    exact ⟨hst, hst', hline, rfl, rfl⟩
  once := Nat.le_refl 1
  replies _ := rfl
  granted _ _ := ⟨_, _, _, List.mem_cons_self⟩

/-- A pass that only answers the request. -/
theorem pass_reply {ok : Bool} (henv : st'.envVars = st.envVars ++ (envOf req).toList)
    (hpty : st'.ptyReq = (ptyOf req).or st.ptyReq) (hst : st.started = true → st'.started = true)
    (hok : req.type = .shell ∨ req.type = .exec → ok = false) : Pass st req st' [.reply ok] where
  env := henv
  pty := hpty
  started := hst
  start := by simp
  once := Nat.zero_le 1
  replies _ := rfl
  granted htype hmem := by simp [hok htype] at hmem

/-- A pass for a request that is not to be answered. -/
theorem pass_quiet (htype : req.type = .windowChange ∨ req.type = .other)
    (heffects : ∀ e ∈ effects, isStart e = false) : Pass st req st effects where
  env := by rcases htype with htype | htype <;> simp [envOf, htype]
  pty := by rcases htype with htype | htype <;> simp [ptyOf, htype]
  started := id
  start pty env line hmem := by simpa [isStart] using heffects _ hmem
  once := by
    rw [List.countP_eq_zero.mpr fun e he => by simp [heffects e he]]
    exact Nat.zero_le 1
  replies hmem := by rcases htype with htype | htype <;> simp [htype] at hmem
  granted hmem := by rcases htype with htype | htype <;> simp [htype] at hmem

theorem Handled.pass (hh : Handled h st req st' effects next) : Pass st req st' effects := by
  cases hh with
  | ptyRefused htype hparse =>
    exact pass_reply (by simp [envOf, htype]) (by simp [ptyOf, htype, hparse]) id (by simp)
  | ptyTaken htype hparse =>
    exact pass_reply (by simp [envOf, htype]) (by simp [ptyOf, htype, hparse]) id (by simp [htype])
  | envIgnored htype hparse =>
    exact pass_reply (by simp [envOf, htype, hparse]) (by simp [ptyOf, htype]) id (by simp [htype])
  | envTaken htype hparse =>
    exact pass_reply (by simp [envOf, htype, hparse]) (by simp [ptyOf, htype]) id (by simp [htype])
  | again htype hst =>
    have hnone : envOf req = none ∧ ptyOf req = none := by
      rcases htype with htype | htype <;> simp [envOf, ptyOf, htype]
    exact pass_reply (by simp [hnone.1]) (by simp [hnone.2]) id fun _ => rfl
  | execRefused htype hst hparse =>
    exact pass_reply (by simp [envOf, htype]) (by simp [ptyOf, htype]) (fun _ => rfl) fun _ => rfl
  | startFails htype hst hline hstart => exact pass_start false htype hst hline rfl rfl rfl
  | starts htype hst hline hstart => exact pass_start true htype hst hline rfl rfl rfl
  | sizeIgnored htype hwhy => exact pass_quiet (.inl htype) (by simp)
  | resized htype hm hparse => exact pass_quiet (.inl htype) (by simp [isStart])
  | other htype =>
    refine pass_quiet (.inr htype) ?_
    split_ifs <;> simp [isStart]

end Passes

/-! ## The loop -/

theorem handleRequest_ne_panicked (h : Host) (st : Session) {req : Request} (hreq : NoPanic req) :
    handleRequest h st req ≠ .panicked := by
  rw [ne_eq, handleRequest_eq_panicked]
  unfold NoPanic at hreq
  unfold ParserPanics
  cases htype : req.type with
  | ptyReq => simpa [htype] using hreq
  | env => simpa [htype] using hreq
  | exec =>
    rintro ⟨-, hpanics⟩
    simp only [htype] at hreq
    exact hreq hpanics
  | shell | windowChange | other => exact not_false

/-- The loop over requests that do not make a parser panic: the requests taken up are the first ones
that arrive, and their effects follow each other. -/
theorem requestLoop_eq_processed (h : Host) (st : Session) {reqs : List Request}
    (hreqs : ∀ req ∈ reqs, NoPanic req) :
    (∃ st', requestLoop h st reqs =
        .done (st', (processed h st reqs).flatMap (passEffects h))) ∧
      (processed h st reqs).map Prod.snd <+: reqs := by
  induction reqs generalizing st with
  | nil => exact ⟨⟨st, rfl⟩, List.prefix_rfl⟩
  | cons req reqs ih =>
    cases hstep : handleRequest h st req with
    | panicked => exact absurd hstep (handleRequest_ne_panicked h st (hreqs req List.mem_cons_self))
    | done out =>
      obtain ⟨st', effects, next⟩ := out
      have heffects : passEffects h (st, req) = effects := by simp [passEffects, hstep]
      cases next with
      | stop =>
        refine ⟨⟨st', ?_⟩, ?_⟩
        · simp [requestLoop, processed, hstep, heffects]
        · simp [processed, hstep]
      | loop =>
        obtain ⟨⟨st'', hloop⟩, hpre⟩ := ih st' fun r hr => hreqs r (List.mem_cons_of_mem _ hr)
        refine ⟨⟨st'', ?_⟩, ?_⟩
        · simp [requestLoop, processed, hstep, heffects, hloop]
        · simpa [processed, hstep] using hpre

/-- The passes of a loop, each with what it does and the state it leaves to the next one. -/
theorem processed_cases (h : Host) (st : Session) {req : Request} (reqs : List Request)
    (hreq : NoPanic req) :
    ∃ st', Pass st req st' (passEffects h (st, req)) ∧
      (processed h st (req :: reqs) = [(st, req)] ∨
        processed h st (req :: reqs) = (st, req) :: processed h st' reqs) := by
  cases hstep : handleRequest h st req with
  | panicked => exact absurd hstep (handleRequest_ne_panicked h st hreq)
  | done out =>
    obtain ⟨st', effects, next⟩ := out
    have heffects : passEffects h (st, req) = effects := by simp [passEffects, hstep]
    refine ⟨st', heffects ▸ (handled_handleRequest hstep).pass, ?_⟩
    cases next with
    | stop => exact .inl (by simp [processed, hstep])
    | loop => exact .inr (by simp [processed, hstep])

/-- The state holds what the requests before it asked for. -/
structure Collected (before : List Request) (st : Session) : Prop where
  env : st.envVars = before.filterMap envOf
  pty : st.ptyReq = (before.filterMap ptyOf).getLast?

theorem Collected.pass {before : List Request} {st st' : Session} {req : Request}
    {effects : List Effect} (h : Collected before st) (hpass : Pass st req st' effects) :
    Collected (before ++ [req]) st' := by
  constructor
  · rw [hpass.env, h.env, List.filterMap_append]
    cases hreq : envOf req <;> simp [hreq]
  · rw [hpass.pty, h.pty, List.filterMap_append]
    cases hreq : ptyOf req <;> simp [hreq]

/-- The shell is started with what was collected before. -/
theorem start_mem_processed {h : Host} {st : Session} {before reqs : List Request}
    (hst : Collected before st) (hreqs : ∀ req ∈ reqs, NoPanic req)
    {pre post : List (Session × Request)} {pass : Session × Request}
    (hsplit : processed h st reqs = pre ++ pass :: post) {pty : Option PtyReqPayload}
    {env : List GoString} {line : GoString}
    (hmem : Effect.startShell pty env line ∈ passEffects h pass) :
    lineOf pass.2 = some line ∧ env = (before ++ pre.map Prod.snd).filterMap envOf ∧
      pty = ((before ++ pre.map Prod.snd).filterMap ptyOf).getLast? := by
  induction reqs generalizing st before pre with
  | nil => simp [processed] at hsplit
  | cons req reqs ih =>
    obtain ⟨st', hpass, hproc⟩ := processed_cases h st reqs (hreqs req List.mem_cons_self)
    cases pre with
    | nil =>
      have hhead : pass = (st, req) := by
        rcases hproc with hproc | hproc
        all_goals
          rw [hproc] at hsplit
          exact (List.cons.inj hsplit).1.symm
      rw [hhead] at hmem
      obtain ⟨-, -, hline, rfl, rfl⟩ := hpass.start pty env line hmem
      rw [hhead]
      exact ⟨hline, by simpa using hst.env, by simpa using hst.pty⟩
    | cons first pre =>
      rcases hproc with hproc | hproc
      · rw [hproc] at hsplit
        simp at hsplit
      · rw [hproc] at hsplit
        obtain ⟨rfl, hrest⟩ := List.cons.inj hsplit
        have hlater := ih (hst.pass hpass) (fun r hr => hreqs r (List.mem_cons_of_mem _ hr)) hrest
        simpa using hlater

/-- What only happens in a pass that finds nothing started, and notes the start, happens at most
once. -/
theorem countP_processed_le {h : Host} {P : Session × Request → Bool}
    (hP : ∀ st req st', Pass st req st' (passEffects h (st, req)) → P (st, req) = true →
      st.started = false ∧ st'.started = true)
    (st : Session) {reqs : List Request} (hreqs : ∀ req ∈ reqs, NoPanic req) :
    (processed h st reqs).countP P ≤ if st.started then 0 else 1 := by
  induction reqs generalizing st with
  | nil => simp [processed]
  | cons req reqs ih =>
    obtain ⟨st', hpass, hproc⟩ := processed_cases h st reqs (hreqs req List.mem_cons_self)
    have hrest := ih st' fun r hr => hreqs r (List.mem_cons_of_mem _ hr)
    have hhead := hP st req st' hpass
    have hkeep := hpass.started
    have hbound : (processed h st (req :: reqs)).countP P ≤
        (if P (st, req) then 1 else 0) + (processed h st' reqs).countP P := by
      rcases hproc with hproc | hproc
      · rw [hproc, List.countP_cons, List.countP_nil]
        omega
      · rw [hproc, List.countP_cons]
        omega
    cases hp : P (st, req) with
    | false =>
      cases hst : st.started with
      | false =>
        simp only [hp, Bool.false_eq_true, if_false] at hbound ⊢
        split_ifs at hrest
        all_goals omega
      | true =>
        simp only [hp, hkeep hst, Bool.false_eq_true, if_false, if_true] at hbound hrest ⊢
        omega
    | true =>
      obtain ⟨hst, hst'⟩ := hhead hp
      simp only [hp, hst, hst', Bool.false_eq_true, if_false, if_true] at hbound hrest ⊢
      omega

theorem pass_of_mem_processed {h : Host} {st : Session} {reqs : List Request}
    (hreqs : ∀ req ∈ reqs, NoPanic req) {pass : Session × Request}
    (hmem : pass ∈ processed h st reqs) :
    ∃ st', Pass pass.1 pass.2 st' (passEffects h pass) := by
  induction reqs generalizing st with
  | nil => simp [processed] at hmem
  | cons req reqs ih =>
    obtain ⟨st', hpass, hproc⟩ := processed_cases h st reqs (hreqs req List.mem_cons_self)
    rcases hproc with hproc | hproc
    · rw [hproc, List.mem_singleton] at hmem
      exact hmem ▸ ⟨st', hpass⟩
    · rw [hproc] at hmem
      rcases List.mem_cons.mp hmem with rfl | hmem
      · exact ⟨st', hpass⟩
      · exact ih (fun r hr => hreqs r (List.mem_cons_of_mem _ hr)) hmem

theorem countP_flatMap_le {α β : Type} {f : α → List β} {p : β → Bool} {l : List α}
    (h : ∀ a ∈ l, (f a).countP p ≤ 1) :
    (l.flatMap f).countP p ≤ l.countP fun a => (f a).any p := by
  induction l with
  | nil => simp
  | cons a l ih =>
    have hrest := ih fun b hb => h b (List.mem_cons_of_mem _ hb)
    have hhead := h a List.mem_cons_self
    rw [List.flatMap_cons, List.countP_append, List.countP_cons]
    cases hany : (f a).any p with
    | false =>
      have hzero : (f a).countP p = 0 := by
        rw [List.countP_eq_zero]
        simpa using hany
      simp only [Bool.false_eq_true, if_false]
      omega
    | true =>
      simp only [if_true]
      omega

/-- A session on requests whose payloads do not make a parser panic, whatever becomes of the start.
The requests taken up are the first to arrive, and the effects are theirs in this order. The shell
is started at most once: by a `shell` request or an `exec` request that parses, with its command
line, the environment of all well-formed `env` requests and the last well-formed `pty-req` before
it. Each `pty-req`, `env`, `shell` and `exec` request taken up is answered once, and at most one
`shell` or `exec` request is answered true. -/
theorem session_follows_requests (h : Host) {reqs : List Request}
    (hreqs : ∀ req ∈ reqs, NoPanic req) :
    ∃ st effects, handleSession h reqs = .done (st, effects) ∧
      (processed h {} reqs).map Prod.snd <+: reqs ∧
      effects = (processed h {} reqs).flatMap (passEffects h) ∧
      effects.countP isStart ≤ 1 ∧
      (∀ pre pass post, processed h {} reqs = pre ++ pass :: post →
        ∀ pty env line, Effect.startShell pty env line ∈ passEffects h pass →
          lineOf pass.2 = some line ∧ env = (pre.map Prod.snd).filterMap envOf ∧
            pty = ((pre.map Prod.snd).filterMap ptyOf).getLast?) ∧
      (∀ pass ∈ processed h {} reqs, pass.2.type ∈ [.ptyReq, .env, .shell, .exec] →
        (passEffects h pass).countP isReply = 1) ∧
      (processed h {} reqs).countP (grants h) ≤ 1 := by
  obtain ⟨⟨st, hloop⟩, hpre⟩ := requestLoop_eq_processed h {} hreqs
  refine ⟨st, _, hloop, hpre, rfl, ?_, ?_, ?_, ?_⟩
  · have hstarts :
        (processed h {} reqs).countP (fun pass => (passEffects h pass).any isStart) ≤ 1 := by
      refine countP_processed_le (fun st req st' hpass hany => ?_) {} hreqs
      obtain ⟨e, he, hstart⟩ := List.any_eq_true.mp hany
      cases e with
      | startShell pty env line =>
        obtain ⟨hst, hst', -⟩ := hpass.start pty env line he
        exact ⟨hst, hst'⟩
      | reply ok => cases hstart
      | setsize master size => cases hstart
    refine (countP_flatMap_le fun pass hpass => ?_).trans hstarts
    obtain ⟨st', hp⟩ := pass_of_mem_processed hreqs hpass
    exact hp.once
  · intro pre pass post hsplit pty env line hmem
    have hcollected : Collected [] ({} : Session) := ⟨rfl, rfl⟩
    simpa using start_mem_processed hcollected hreqs hsplit hmem
  · intro pass hpass htype
    obtain ⟨st', hp⟩ := pass_of_mem_processed hreqs hpass
    exact hp.replies htype
  · refine countP_processed_le (fun st req st' hpass hgrants => ?_) {} hreqs
    obtain ⟨htype, hmem⟩ := of_decide_eq_true hgrants
    obtain ⟨pty, env, line, hstart⟩ := hpass.granted htype hmem
    obtain ⟨hst, hst', -⟩ := hpass.start pty env line hstart
    exact ⟨hst, hst'⟩

/-- An `env` request `A=1`, then an `exec` request, then a `shell` request. -/
def envThenExec : List Request :=
  [⟨.env, true, [0, 0, 0, 1, 65, 0, 0, 0, 1, 49]⟩, ⟨.exec, true, [0, 0, 0, 2, 105, 100]⟩,
    ⟨.shell, true, []⟩]

theorem envThenExec_follows_requests :
    (∀ req ∈ envThenExec, NoPanic req) ∧
      ∃ st effects, handleSession shHost envThenExec = .done (st, effects) ∧
        effects.countP isStart ≤ 1 := by
  have hreqs : ∀ req ∈ envThenExec, NoPanic req := by decide
  obtain ⟨st, effects, hdone, -, -, honce, -⟩ := session_follows_requests shHost hreqs
  exact ⟨hreqs, st, effects, hdone, honce⟩

end WeftAgent.Sshd
