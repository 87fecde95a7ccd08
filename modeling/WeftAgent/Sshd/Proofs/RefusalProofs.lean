import WeftAgent.Sshd.Proofs.SessionProofs
import WeftAgent.Trace.Along

/-!
# What a refused channel request leaves behind

A `pty-req` that does not parse and a second `shell` or `exec` leave the session as it was. An
`exec` that does not parse has marked the session as started before its payload is looked at:
nothing runs, and every later `shell` or `exec` is refused.
-/

namespace WeftAgent.Sshd

open Go Trace

/-- The parser that the loop runs on the payload reports an error. -/
def Malformed (req : Request) : Prop :=
  match req.type with
  | .ptyReq => ∃ p e, parsePtyReq req.payload = .done (p, some e)
  | .env => ∃ k v e, parseEnvReq req.payload = .done (k, v, some e)
  | .exec => ∃ line e, parseExecReq req.payload = .done (line, some e)
  | .windowChange => ∃ w e, parseWinChReq req.payload = .done (w, some e)
  | .shell | .other => False

/-- The request asks for a process. -/
def StartsProcess (req : Request) : Prop := req.type = .shell ∨ req.type = .exec

/-- The request is answered false because its payload is malformed or a process was already
started. -/
def Refused (h : Host) (st : Session) (req : Request) : Prop :=
  Effect.reply false ∈ passEffects h (st, req) ∧
    (Malformed req ∨ StartsProcess req ∧ st.started = true)

/-- The state in which the loop takes up the next request. -/
def nextState (h : Host) (st : Session) (req : Request) : Session :=
  match handleRequest h st req with
  | .done (st', _, _) => st'
  | .panicked => st

/-- The loop on these requests answers one of them true. -/
def Grants (h : Host) (st : Session) (reqs : List Request) : Prop :=
  ∃ st' effects, requestLoop h st reqs = .done (st', effects) ∧ Effect.reply true ∈ effects

variable {h : Host} {st : Session} {req : Request}

/-! ## One refusal -/

/-- All that a refusal does: it is answered, the loop goes on, and an `exec` counts as the start. -/
theorem handleRequest_of_refused (hr : Refused h st req) :
    handleRequest h st req =
      .done (if req.type = .exec then { st with started := true } else st, [.reply false],
        .loop) := by
  obtain ⟨hreply, hwhy⟩ := hr
  simp only [passEffects] at hreply
  unfold Malformed StartsProcess at hwhy
  cases htype : req.type with
  | ptyReq =>
    simp only [htype, reduceCtorEq, or_self, false_and, or_false] at hwhy
    obtain ⟨p, e, hparse⟩ := hwhy
    simp [handleRequest, htype, hparse]
  | env =>
    simp only [htype, reduceCtorEq, or_self, false_and, or_false] at hwhy
    obtain ⟨k, v, e, hparse⟩ := hwhy
    simp [handleRequest, htype, hparse] at hreply
  | shell =>
    simp only [htype, reduceCtorEq, or_false, true_and, false_or] at hwhy
    simp [handleRequest, htype, hwhy]
  | exec =>
    cases hst : st.started with
    | true =>
      have hsame : { st with started := true } = st := by rw [← hst]
      simp [handleRequest, htype, hst, hsame]
    | false =>
      simp only [htype, hst, Bool.false_eq_true, and_false, or_false] at hwhy
      obtain ⟨line, e, hparse⟩ := hwhy
      simp [handleRequest, htype, hst, hparse]
  | windowChange =>
    simp only [htype, reduceCtorEq, or_self, false_and, or_false] at hwhy
    obtain ⟨w, e, hparse⟩ := hwhy
    cases hm : st.ptyMaster <;> simp [handleRequest, htype, hm, hparse] at hreply
  | other => simp [htype] at hwhy

theorem nextState_of_refused (hr : Refused h st req) :
    nextState h st req = if req.type = .exec then { st with started := true } else st := by
  rw [nextState, handleRequest_of_refused hr]

/-! ## Runs of refusals -/

/-- Refusals are answered false one after the other; the loop goes on from the state they leave. -/
theorem requestLoop_of_refused {reqs : List Request}
    (hrefused : Along (nextState h) (Refused h) st reqs) (rest : List Request) :
    requestLoop h st (reqs ++ rest) = do
      let (st', more) ← requestLoop h (reqs.foldl (nextState h) st) rest
      return (st', List.replicate reqs.length (.reply false) ++ more) := by
  induction reqs generalizing st with
  | nil =>
    rw [List.nil_append, List.foldl_nil]
    cases requestLoop h st rest <;> simp
  | cons req reqs ih =>
    obtain ⟨hreq, hreqs⟩ := hrefused
    have hnext := nextState_of_refused hreq
    rw [List.cons_append, requestLoop, handleRequest_of_refused hreq, ← hnext]
    simp only [Run.done_bind, ih hreqs, List.foldl_cons]
    cases requestLoop h (reqs.foldl (nextState h) (nextState h st req)) rest <;>
      simp [List.replicate_succ]

/-- Refusals keep the session as it was, if none of them is an `exec`. -/
theorem foldl_nextState_of_no_exec {reqs : List Request}
    (hrefused : Along (nextState h) (Refused h) st reqs) (hno : ∀ r ∈ reqs, r.type ≠ .exec) :
    reqs.foldl (nextState h) st = st := by
  induction reqs with
  | nil => rfl
  | cons req reqs ih =>
    obtain ⟨hreq, hreqs⟩ := hrefused
    have hsame : nextState h st req = st := by
      rw [nextState_of_refused hreq, if_neg (hno req List.mem_cons_self)]
    rw [hsame] at hreqs
    rw [List.foldl_cons, hsame]
    exact ih hreqs fun r hr => hno r (List.mem_cons_of_mem _ hr)

/-- With an `exec` among the refusals, the session counts as started. -/
theorem started_of_exec {reqs : List Request}
    (hrefused : Along (nextState h) (Refused h) st reqs)
    (hexec : st.started = true ∨ ∃ r ∈ reqs, r.type = .exec) :
    (reqs.foldl (nextState h) st).started = true := by
  induction reqs generalizing st with
  | nil =>
    rcases hexec with hst | ⟨r, hr, -⟩
    · exact hst
    · exact absurd hr List.not_mem_nil
  | cons req reqs ih =>
    obtain ⟨hreq, hreqs⟩ := hrefused
    refine ih hreqs ?_
    rw [nextState_of_refused hreq]
    rcases hexec with hst | ⟨r, hr, htype⟩
    · left
      split_ifs
      · rfl
      · exact hst
    · rcases List.mem_cons.mp hr with rfl | hr
      · exact .inl (by rw [if_pos htype])
      · exact .inr ⟨r, hr, htype⟩

/-- Nothing is started twice. -/
theorem not_grants_of_started (hst : st.started = true) (hreq : StartsProcess req) :
    ¬Grants h st [req] := by
  rintro ⟨st', effects, hloop, htrue⟩
  have hstep : handleRequest h st req = .done (st, [.reply false], .loop) := by
    rcases hreq with htype | htype <;> simp [handleRequest, htype, hst]
  rw [requestLoop, hstep] at hloop
  simp only [requestLoop, Run.done_bind, Run.pure_eq, Run.done.injEq, Prod.mk.injEq] at hloop
  rw [← hloop.2] at htrue
  simp at htrue

theorem grants_append_iff {reqs : List Request}
    (hrefused : Along (nextState h) (Refused h) st reqs) :
    Grants h st (reqs ++ [req]) ↔ Grants h (reqs.foldl (nextState h) st) [req] := by
  unfold Grants
  rw [requestLoop_of_refused hrefused]
  cases requestLoop h (reqs.foldl (nextState h) st) [req] with
  | panicked => simp
  | done out =>
    obtain ⟨st', effects⟩ := out
    simp

/-- A refused request leaves the session as it was exactly if it is not an `exec` that finds nothing
started. After any number of refused requests, a `shell` or `exec` request that would have been
served still is exactly if none of them was an `exec`. -/
theorem refusal_changes_nothing_iff (h : Host) :
    (∀ st req, Refused h st req →
      (nextState h st req = st ↔ ¬(req.type = .exec ∧ st.started = false))) ∧
    ∀ st reqs req, Along (nextState h) (Refused h) st reqs → StartsProcess req →
      Grants h st [req] →
      (Grants h st (reqs ++ [req]) ↔ ∀ r ∈ reqs, r.type ≠ .exec) := by
  refine ⟨fun st req hr => ?_, fun st reqs req hrefused hreq hgrants => ?_⟩
  · rw [nextState_of_refused hr]
    by_cases htype : req.type = .exec
    · rw [if_pos htype]
      cases hst : st.started with
      | true =>
        have hsame : { st with started := true } = st := by rw [← hst]
        simp [hsame]
      | false =>
        have hne : { st with started := true } ≠ st := fun heq => by
          have hstarted := congrArg Session.started heq
          simp [hst] at hstarted
        simp [hne, htype]
    · simp [htype]
  · rw [grants_append_iff hrefused]
    constructor
    · intro hafter r hr htype
      have hstarted := started_of_exec hrefused (.inr ⟨r, hr, htype⟩)
      exact not_grants_of_started hstarted hreq hafter
    · intro hno
      rw [foldl_nextState_of_no_exec hrefused hno]
      exact hgrants

/-- A `pty-req` without a terminal name, then the command `id`. -/
theorem shortPtyReq_changes_nothing :
    Along (nextState shHost) (Refused shHost) {} [⟨.ptyReq, true, []⟩] ∧
      Grants shHost {} ([⟨.ptyReq, true, []⟩] ++ [⟨.exec, true, [0, 0, 0, 2, 105, 100]⟩]) := by
  have hrefused : Along (nextState shHost) (Refused shHost) {} [⟨.ptyReq, true, []⟩] :=
    ⟨⟨by decide, .inl ⟨_, _, rfl⟩⟩, trivial⟩
  refine ⟨hrefused, ?_⟩
  refine ((refusal_changes_nothing_iff shHost).2 _ _ _ hrefused (.inr rfl) ?_).mpr (by decide)
  exact ⟨_, _, rfl, by decide⟩

/-- An `exec` without a command line is refused; the command `id`, which would have been served
before, is refused after it. -/
theorem shortExec_ends_session :
    Refused shHost {} ⟨.exec, true, []⟩ ∧ nextState shHost {} ⟨.exec, true, []⟩ ≠ {} ∧
      Grants shHost {} [⟨.exec, true, [0, 0, 0, 2, 105, 100]⟩] ∧
      ¬Grants shHost {} ([⟨.exec, true, []⟩] ++ [⟨.exec, true, [0, 0, 0, 2, 105, 100]⟩]) := by
  refine ⟨⟨by decide, .inl ⟨_, _, rfl⟩⟩, by decide, ⟨_, _, rfl, by decide⟩, ?_⟩
  rintro ⟨st', effects, hloop, htrue⟩
  cases hloop
  simp at htrue

end WeftAgent.Sshd
