import WeftAgent.ExecSession.Proofs.SupersessionProofs

/-!
# The agent refines the subscriber

`Subscriber` follows the registry and knows of a `Run` only whether it has returned. Forgetting the
rest of the sessions, every step of the agent is a short run of the subscriber, so what holds of all
runs of the subscriber holds of the registry of the agent.
-/

namespace WeftAgent.ExecSession

open WeftAgent.Go WeftAgent.Effect WeftAgent.Fs

/-- How far the goroutine of a worker has come. -/
def Worker.phase (w : Worker) : Phase :=
  if w.closed then .closed else if w.system.returned then .returned else .running

def Worker.pump (w : Worker) : Pump := ⟨w.request.id, w.phase⟩

/-- The subscriber has the registry of the agent, and its pumps are the workers. -/
structure Refines (a : Agent) (b : Subscriber) : Prop where
  sessions : b.sessions = a.sessions
  pumps : b.pumps = a.workers.map Worker.pump

section Refines

variable {a : Agent} {b : Subscriber} {i : Instance} {w : Worker}

theorem Refines.getElem? (h : Refines a b) (hw : a.workers[i]? = some w) :
    b.pumps[i]? = some w.pump := by
  rw [h.pumps, List.getElem?_map, hw]
  rfl

/-- The effect of a step of one instance on its pump. -/
theorem pump_advance (w : Worker) (e : SessionEvent) :
    { w with system := w.system.step e : Worker }.pump = w.pump ∨
      (w.pump = ⟨w.request.id, .running⟩ ∧
        { w with system := w.system.step e : Worker }.pump = ⟨w.request.id, .returned⟩) := by
  unfold Worker.pump Worker.phase
  cases w.closed with
  | true => exact .inl rfl
  | false =>
    cases hret : w.system.returned with
    | true =>
      obtain ⟨r, hr⟩ := returned_iff.mp hret
      have hret' : (w.system.step e).returned = true :=
        returned_iff.mpr ⟨r, main_step_of_ret hr e⟩
      simp [hret']
    | false =>
      cases hret' : (w.system.step e).returned with
      | true => exact .inr ⟨rfl, rfl⟩
      | false => exact .inl rfl

theorem step_pumpReturns {id : GoString} (hi : b.pumps[i]? = some ⟨id, .running⟩) :
    step b (.pumpReturns i) = { b with pumps := b.pumps.set i ⟨id, .returned⟩ } := by
  simp only [step, hi]

theorem step_deferredClose {id : GoString} (hi : b.pumps[i]? = some ⟨id, .returned⟩) :
    (step b (.deferredClose i)).sessions = (b.sessions.close id).1 ∧
      (step b (.deferredClose i)).pumps = b.pumps.set i ⟨id, .closed⟩ := by
  simp only [step, hi, and_self]

/-- A step of one instance is the return of its `Run`, or none. -/
theorem Refines.advance (h : Refines a b) (e : SessionEvent) :
    ∃ evs : List Event, Refines (a.advance i e) (evs.foldl step b) := by
  unfold Agent.advance
  cases hw : a.workers[i]? with
  | none => exact ⟨[], h⟩
  | some w =>
    rcases pump_advance w e with hsame | ⟨hrunning, hreturned⟩
    · refine ⟨[], h.sessions, ?_⟩
      rw [map_set_of_eq hw _ hsame]
      exact h.pumps
    · have hpump := h.getElem? hw
      rw [hrunning] at hpump
      refine ⟨[.pumpReturns i], ?_⟩
      rw [List.foldl_cons, List.foldl_nil, step_pumpReturns hpump]
      exact ⟨h.sessions, by rw [List.map_set, hreturned, h.pumps]⟩

/-- Cancelling changes nothing that the subscriber knows. -/
theorem Refines.cancelAll (h : Refines a b) (is : List Instance) : Refines (a.cancelAll is) b := by
  have hstep : ∀ a, Refines a b → ∀ i ∈ is, Refines (a.advance i .cancel) b := by
    intro a ha i _
    unfold Agent.advance
    cases hw : a.workers[i]? with
    | none => exact ha
    | some w =>
      refine ⟨ha.sessions, ?_⟩
      rw [map_set_of_eq hw { w with system := w.system.step .cancel } rfl]
      exact ha.pumps
  exact List.foldlRecOn is (fun (a : Agent) i => a.advance i .cancel) h hstep

theorem Refines.message (h : Refines a b) (vmID : GoString)
    (unmarshalled : Except GoError ExecRequest) (tree : Tree) :
    ∃ evs : List Event, Refines (a.step vmID (.message unmarshalled tree)) (evs.foldl step b) := by
  have hlen : b.pumps.length = a.workers.length := by rw [h.pumps, List.length_map]
  simp only [Agent.step]
  cases hreq : decodeRequest unmarshalled with
  | error e => exact ⟨[], h⟩
  | ok req =>
    let worker : Worker := { request := req, system := (PumpConfig.mk vmID req).system tree }
    let opened := step b (.message unmarshalled)
    have hsessions : opened.sessions = (a.sessions.open' req.id a.workers.length).1 := by
      simp only [opened, step, hreq, h.sessions, hlen]
    have hpumps : opened.pumps = a.workers.map Worker.pump ++ [{ id := req.id }] := by
      simp only [opened, step, hreq, h.pumps]
    -- a `Run` that has nothing to call has returned as soon as it is started
    cases hret : worker.system.returned with
    | false =>
      have hworker : worker.pump = { id := req.id } := by
        simp [Worker.pump, Worker.phase, hret, worker]
      refine ⟨[.message unmarshalled], Refines.cancelAll ⟨hsessions, ?_⟩ _⟩
      rw [List.map_append, List.map_singleton, hworker]
      exact hpumps
    | true =>
      have hworker : worker.pump = { id := req.id, phase := .returned } := by
        simp [Worker.pump, Worker.phase, hret, worker]
      have hlast : opened.pumps[a.workers.length]? = some { id := req.id } := by
        rw [hpumps, List.getElem?_append_right (by simp)]
        simp
      refine ⟨[.message unmarshalled, .pumpReturns a.workers.length], ?_⟩
      rw [List.foldl_cons, List.foldl_cons, List.foldl_nil]
      refine Refines.cancelAll ?_ _
      rw [step_pumpReturns hlast]
      refine ⟨hsessions, ?_⟩
      change opened.pumps.set a.workers.length _ = _
      rw [hpumps, List.map_append, List.map_singleton, hworker,
        List.set_append_right _ _ (by simp)]
      simp

/-- Every step of the agent is a run of the subscriber. -/
theorem Refines.step (h : Refines a b) (vmID : GoString) (ev : AgentEvent) :
    ∃ evs : List Event, Refines (a.step vmID ev) (evs.foldl ExecSession.step b) := by
  cases ev with
  | message unmarshalled tree => exact h.message vmID unmarshalled tree
  | session i e =>
    simp only [Agent.step]
    split_ifs
    · exact h.advance e
    · exact ⟨[], h⟩
  | arrival subject data =>
    refine ⟨[], h.sessions, h.pumps.trans ?_⟩
    simp only [Agent.step, List.map_map]
    refine List.map_congr_left fun w _ => ?_
    simp only [Function.comp, Agent.enqueue]
    split_ifs <;> rfl
  | callback i =>
    simp only [Agent.step]
    split
    · exact ⟨[], h⟩
    · rename_i w hw
      split
      · exact ⟨[], h⟩
      · rename_i msg data queue hqueue
        split_ifs
        · have htaken : Refines
              { a with
                workers := a.workers.set i { w with queue := queue }
                history := a.history ++ [.handled i w.request.id msg] } b :=
            ⟨h.sessions, by rw [map_set_of_eq hw { w with queue := queue } rfl, h.pumps]⟩
          exact htaken.advance (.inFrame data)
        · exact ⟨[], h⟩
  | deferredClose i =>
    simp only [Agent.step]
    split
    · exact ⟨[], h⟩
    · rename_i w hw
      split_ifs with hready
      · have hpump : b.pumps[i]? = some ⟨w.request.id, .returned⟩ := by
          rw [h.getElem? hw, Worker.pump, Worker.phase]
          simp [hready.1, hready.2]
        obtain ⟨hsessions, hpumps⟩ := step_deferredClose hpump
        refine ⟨[.deferredClose i], Refines.cancelAll ⟨?_, ?_⟩ _⟩
        · exact hsessions.trans (by rw [h.sessions])
        · exact hpumps.trans (by rw [h.pumps, List.map_set]; rfl)
      · exact ⟨[], h⟩
  | stop =>
    have hstopped : Refines { a with sessions := a.sessions.closeAll.1 }
        (ExecSession.step b .stop) := ⟨by simp only [ExecSession.step, h.sessions], h.pumps⟩
    exact ⟨[.stop], hstopped.cancelAll _⟩

end Refines

/-- Every run of the agent is one of the subscriber, step for steps. -/
theorem exists_refines (vmID : GoString) (evs : List AgentEvent) :
    ∃ evs' : List Event, Refines (Agent.after vmID evs) (runEvents evs') := by
  induction evs using List.reverseRecOn with
  | nil => exact ⟨[], rfl, rfl⟩
  | append_singleton evs ev ih =>
    obtain ⟨before, hbefore⟩ := ih
    obtain ⟨new, hnew⟩ := hbefore.step vmID ev
    refine ⟨before ++ new, ?_⟩
    rw [runEvents, List.foldl_append, Agent.after, List.foldl_append]
    exact hnew

end WeftAgent.ExecSession
