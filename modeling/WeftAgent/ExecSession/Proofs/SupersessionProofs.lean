import WeftAgent.ExecSession.Proofs.PumpOutputProofs
import WeftAgent.ExecSession.Proofs.SessionsProofs
import WeftAgent.ExecSession.Supersession

/-!
# Superseded exec sessions

An instance that has not been started, or whose goroutines have returned, publishes nothing and has
no live subscription. If `pty.Start` is only called when the other instances of the session are in
one of these states, at most one instance of a session is active at any time.
-/

namespace WeftAgent.ExecSession

open WeftAgent.Go WeftAgent.Effect WeftAgent.Fs WeftAgent.Trace

/-! ## Steps of one instance -/

/-- What a step of a session can do to the child, the reader and what is published. -/
inductive Progress (s : System) (e : SessionEvent) (s' : System) : Prop where
  | quiet (hchild : s'.child = s.child) (hreader : s'.reader = s.reader)
    (hpub : s'.published = s.published)
  | exits (hrunning : s.child = .running) (hchild : s'.child ≠ .absent)
    (hreader : s'.reader = s.reader) (hpub : s'.published = s.published)
  | reads (subject) (hreading : s.reader = .reading subject) (hchild : s'.child = s.child)
    (hpub : s'.published = s.published)
  | passes (subject chunk) (hholding : s.reader = .holding subject chunk)
    (hchild : s'.child = s.child)
  | starts (c) (hev : e = .main c) (hmain : s.startsPty = true) (hchild : s'.child ≠ .absent)
    (hreader : s'.reader = s.reader) (hpub : s'.published = s.published)
  | goesReading (subject k) (hmain : s.main = .call (.inr (.goReader subject)) k)
    (hchild : s'.child = s.child) (hpub : s'.published = s.published)
  | publishes (subject data k) (hmain : s.main = .call (.inr (.publish subject data)) k)
    (hchild : s'.child = s.child) (hreader : s'.reader = s.reader)

variable {s s' : System}

theorem progress_stepMain (c : Choice) (s : System) :
    Progress s (.main c) (s.stepMain c) := by
  unfold System.stepMain
  cases hmain : s.main with
  | ret r => exact .quiet rfl rfl rfl
  | call op k =>
    simp only
    cases op with
    | inl op => exact .quiet rfl rfl rfl
    | inr op =>
      cases op with
      | ptyStart cmd =>
        cases herr : c.err with
        | some e =>
          simp only [System.perform, herr]
          exact .quiet rfl rfl rfl
        | none =>
          simp only [System.perform, herr]
          exact .starts c rfl (by simp [System.startsPty, hmain]) (by simp) rfl rfl
      | goReader subject => exact .goesReading subject k hmain rfl rfl
      | publish subject data =>
        simp only [System.perform]
        cases c.err <;> exact .publishes subject data k hmain rfl rfl
      | subscribe subject =>
        cases herr : c.err with
        | some e =>
          simp only [System.perform, herr]
          exact .quiet rfl rfl rfl
        | none =>
          simp only [System.perform, herr]
          exact .quiet rfl rfl rfl
      | select =>
        cases hperform : System.perform c (.inr .select) s with
        | none => exact .quiet rfl rfl rfl
        | some res =>
          obtain ⟨x, s'⟩ := res
          rcases perform_select hperform with ⟨-, rfl⟩ | ⟨-, -, rfl⟩
          · exact .quiet rfl rfl rfl
          · exact .quiet rfl rfl rfl
      | recvDone =>
        cases hperform : System.perform c (.inr .recvDone) s with
        | none => exact .quiet rfl rfl rfl
        | some res =>
          obtain ⟨x, s'⟩ := res
          obtain ⟨-, rfl⟩ := perform_recvDone hperform
          exact .quiet rfl rfl rfl
      | exitCode =>
        cases hchild : s.child <;> simp only [System.perform, hchild] <;>
          exact .quiet hchild.symm rfl rfl
      | _ => exact .quiet rfl rfl rfl

theorem progress_stepRead (n : Nat) (s : System) : Progress s (.readerRead n) (s.stepRead n) := by
  unfold System.stepRead
  split
  · rename_i subject hreading
    split_ifs
    · exact .reads subject hreading rfl rfl
    · exact .reads subject hreading rfl rfl
    · split
      · exact .reads subject hreading rfl rfl
      · exact .quiet rfl rfl rfl
  · exact .quiet rfl rfl rfl

theorem progress_step (s : System) (e : SessionEvent) : Progress s e (s.step e) := by
  cases e with
  | main c => exact progress_stepMain c s
  | childWrite data =>
    simp only [System.step]
    split <;> exact .quiet rfl rfl rfl
  | childExit code =>
    simp only [System.step]
    split
    · exact .exits ‹_› (by simp) rfl rfl
    · exact .quiet rfl rfl rfl
  | cancel => exact .quiet rfl rfl rfl
  | waitReturns =>
    simp only [System.step]
    split
    · split <;> exact .quiet rfl rfl rfl
    · exact .quiet rfl rfl rfl
  | readerRead n => exact progress_stepRead n s
  | readerPublish err =>
    simp only [System.step]
    split
    · cases err <;> exact .passes _ _ ‹_› rfl
    · exact .quiet rfl rfl rfl
  | inFrame data =>
    simp only [System.step]
    split
    · rcases callback_onInFrame data s with heq | heq <;> rw [heq] <;> exact .quiet rfl rfl rfl
    · exact .quiet rfl rfl rfl

theorem child_ne_absent_step (h : s.child ≠ .absent) (e : SessionEvent) :
    (s.step e).child ≠ .absent := by
  cases progress_step s e with
  | exits _ hchild | starts _ _ _ hchild => exact hchild
  | quiet hchild | reads _ _ hchild | passes _ _ _ hchild | goesReading _ _ _ hchild
  | publishes _ _ _ _ hchild => rwa [hchild]

theorem starts_of_child_ne_absent {e : SessionEvent} (h : s.child = .absent)
    (h' : (s.step e).child ≠ .absent) : (∃ c, e = .main c) ∧ s.startsPty = true := by
  cases progress_step s e with
  | starts c hev hmain => exact ⟨⟨c, hev⟩, hmain⟩
  | exits hrunning => cases h.symm.trans hrunning
  | quiet hchild | reads _ _ hchild | passes _ _ _ hchild | goesReading _ _ _ hchild
  | publishes _ _ _ _ hchild => exact absurd (hchild.trans h) h'

theorem returned_iff : s.returned = true ↔ ∃ r, s.main = .ret r := by
  unfold System.returned
  split <;> simp [*]

theorem main_step_of_ret {r : Option GoError} (h : s.main = .ret r) (e : SessionEvent) :
    (s.step e).main = .ret r := by
  cases e with
  | main c => simp only [System.step, System.stepMain, h]
  | childWrite data | childExit code =>
    simp only [System.step]
    split <;> exact h
  | cancel => exact h
  | waitReturns =>
    simp only [System.step]
    split
    · split <;> exact h
    · exact h
  | readerRead n =>
    simp only [System.step, System.stepRead]
    split
    · split_ifs
      · exact h
      · exact h
      · split <;> exact h
    · exact h
  | readerPublish err =>
    simp only [System.step]
    split
    · cases err <;> exact h
    · exact h
  | inFrame data =>
    simp only [System.step]
    split
    · rcases callback_onInFrame data s with heq | heq <;> rw [heq] <;> exact h
    · exact h

/-- A session whose goroutines have returned stays as it is, and publishes nothing. -/
theorem System.Finished.step (h : s.Finished) (e : SessionEvent) :
    (s.step e).Finished ∧ (s.step e).published = s.published := by
  obtain ⟨r, hret⟩ := returned_iff.mp h.1
  have hret' : (s.step e).returned = true := returned_iff.mpr ⟨r, main_step_of_ret hret e⟩
  cases progress_step s e with
  | quiet _ hreader hpub | exits _ _ hreader hpub | starts _ _ _ _ hreader hpub =>
    exact ⟨⟨hret', hreader ▸ h.2⟩, hpub⟩
  | reads _ hreading | passes _ _ hreading =>
    rcases h.2 with habs | habs <;> cases habs.symm.trans hreading
  | goesReading _ _ hmain | publishes _ _ _ hmain => cases hret.symm.trans hmain

/-- The invariant of one instance: that of its session, and the reader is not there before the
child. -/
structure Sound (cfg : PumpConfig) (s : System) : Prop where
  inv : SystemInv cfg s
  reader : s.child = .absent → s.reader = .absent

section Sound

variable {cfg : PumpConfig}

/-- Without a child `Run` neither starts the reader nor publishes. -/
theorem Sound.call_of_absent (h : Sound cfg s) (habs : s.child = .absent) {op : PumpOp}
    {k : op.Ans → Prog pumpSig (Option GoError)} (hmain : s.main = .call (.inr op) k) :
    (∀ subject, op ≠ .goReader subject) ∧ ∀ subject data, op ≠ .publish subject data := by
  obtain ⟨m, before, hfollows, hat⟩ := h.inv
  have hchild := hat.child
  rw [habs] at hchild
  rw [hmain] at hfollows
  refine ⟨fun subject hop => ?_, fun subject data hop => ?_⟩
  · subst hop
    obtain ⟨m', hrule, -⟩ := hfollows ()
    cases hrule
    exact hchild rfl
  · subst hop
    obtain ⟨m', hrule, -⟩ := hfollows none
    cases hrule
    obtain ⟨code, -, hcode⟩ := hchild
    cases hcode

/-- A session without a child publishes nothing. -/
theorem Sound.published_of_absent (h : Sound cfg s) (habs : s.child = .absent) (e : SessionEvent) :
    (s.step e).published = s.published := by
  cases progress_step s e with
  | quiet _ _ hpub | exits _ _ _ hpub | reads _ _ _ hpub | starts _ _ _ _ _ hpub
  | goesReading _ _ _ _ hpub => exact hpub
  | passes _ _ hholding => cases (h.reader habs).symm.trans hholding
  | publishes subject data k hmain =>
    exact absurd rfl ((h.call_of_absent habs hmain).2 subject data)

theorem Sound.step (h : Sound cfg s) (e : SessionEvent) : Sound cfg (s.step e) := by
  refine ⟨(systemInv_step s e h.inv).1, fun habs' => ?_⟩
  have habs : s.child = .absent := by
    by_contra hne
    exact child_ne_absent_step hne e habs'
  have hnone := h.reader habs
  cases progress_step s e with
  | quiet _ hreader | exits _ _ hreader | starts _ _ _ _ hreader
  | publishes _ _ _ _ _ hreader => exact hreader.trans hnone
  | reads _ hreading | passes _ _ hreading => cases hnone.symm.trans hreading
  | goesReading subject k hmain => exact absurd rfl ((h.call_of_absent habs hmain).1 subject)

/-- A live subscription belongs to a session that was started and is not finished. -/
theorem Sound.of_live (h : Sound cfg s) (hlive : s.subscription = .live) :
    s.child ≠ .absent ∧ ¬s.Finished := by
  obtain ⟨m, before, hfollows, hat⟩ := h.inv
  have hstage : m.subscription = .live := hat.subscription.symm.trans hlive
  have hchild := hat.child
  constructor
  · intro habs
    rw [habs] at hchild
    cases m with
    | subscribed | waiting | cancelling => exact hchild rfl
    | reaped =>
      obtain ⟨code, hcode⟩ := hchild
      cases hcode
    | coded state | exitSent state err | closed state err =>
      obtain ⟨code, -, hcode⟩ := hchild
      cases hcode
    | _ => cases hstage
  · rintro ⟨hret, -⟩
    obtain ⟨r, hmain⟩ := returned_iff.mp hret
    rw [hmain] at hfollows
    cases hfollows <;> cases hstage

theorem sound_system (cfg : PumpConfig) (tree : Tree) : Sound cfg (cfg.system tree) :=
  ⟨systemInv_system cfg tree, fun _ => rfl⟩

end Sound

/-! ## The order of starts and frames -/

theorem mem_observed {i : Instance} {id : GoString} {x : Happening} (h : x ∈ observed i id s s') :
    (x = .started i id ∧ s.child = .absent ∧ s'.child ≠ .absent) ∨
      ∃ subject data, x = .published i id subject data ∧ s'.published ≠ s.published := by
  rcases List.mem_append.mp h with h | h
  · split_ifs at h with hstart
    · exact .inl ⟨List.mem_singleton.mp h, hstart⟩
    · exact absurd h List.not_mem_nil
  · obtain ⟨m, hm, rfl⟩ := List.mem_map.mp h
    refine .inr ⟨m.1, m.2, rfl, fun hsame => ?_⟩
    rw [hsame, List.drop_length] at hm
    exact absurd hm List.not_mem_nil

/-- What counts of the workers for the order of their frames. -/
def Agent.cores (a : Agent) : List (ExecRequest × System) :=
  a.workers.map fun w => (w.request, w.system)

/-- At most one instance of a session is active, and the history shows it. -/
structure Superseding (vmID : GoString) (cores : List (ExecRequest × System))
    (history : List Happening) : Prop where
  sound : ∀ {i : Instance} {c : ExecRequest × System}, cores[i]? = some c → Sound ⟨vmID, c.1⟩ c.2
  single : ∀ {i j : Instance} {v w : ExecRequest × System}, i < j → cores[i]? = some v →
    cores[j]? = some w → v.1.id = w.1.id → w.2.child ≠ .absent →
    v.2.child = .absent ∨ v.2.Finished
  started : ∀ {j : Instance} {id : GoString}, .started j id ∈ history →
    ∃ w, cores[j]? = some w ∧ w.1.id = id ∧ w.2.child ≠ .absent
  ordered : NoStaleFrame history

section Superseding

variable {vmID : GoString} {cores : List (ExecRequest × System)} {history : List Happening}

theorem getElem?_set_of_some {α : Type} {l : List α} {i : Nat} {b : α} (hi : l[i]? = some b) (a : α)
    (j : Nat) : (l.set i a)[j]? = if i = j then some a else l[j]? := by
  obtain ⟨hlt, -⟩ := List.getElem?_eq_some_iff.mp hi
  rw [List.getElem?_set]
  simp [hlt]

/-- An instance that is older than a started one of its session publishes nothing. -/
theorem Superseding.published_step {i j : Instance} {v w : ExecRequest × System}
    (h : Superseding vmID cores history) (hlt : i < j) (hi : cores[i]? = some v)
    (hj : cores[j]? = some w) (hid : v.1.id = w.1.id) (hw : w.2.child ≠ .absent)
    (e : SessionEvent) : (v.2.step e).published = v.2.published := by
  rcases h.single hlt hi hj hid hw with habs | hfin
  · exact (h.sound hi).published_of_absent habs e
  · exact (hfin.step e).2

/-- The condition on a start, on the cores. -/
def ClearCores (cores : List (ExecRequest × System)) (i : Instance) (id : GoString) : Prop :=
  ∀ j w, cores[j]? = some w → w.1.id = id → w.2.child ≠ .absent → j ≤ i ∧ (j < i → w.2.Finished)

theorem Superseding.single_step {i : Instance} {req : ExecRequest} {e : SessionEvent}
    (h : Superseding vmID cores history) (hi : cores[i]? = some (req, s))
    (hclear : s.child = .absent → (s.step e).child ≠ .absent → ClearCores cores i req.id)
    {j k : Instance} {v w : ExecRequest × System} (hlt : j < k)
    (hj : (cores.set i (req, s.step e))[j]? = some v)
    (hk : (cores.set i (req, s.step e))[k]? = some w) (hid : v.1.id = w.1.id)
    (hw : w.2.child ≠ .absent) : v.2.child = .absent ∨ v.2.Finished := by
  rw [getElem?_set_of_some hi] at hj hk
  split_ifs at hj hk with hij hik hik
  · exact absurd (hij.symm.trans hik) (Nat.ne_of_lt hlt)
  · -- the older of the two makes the step
    subst hij
    obtain rfl := Option.some.inj hj
    rcases h.single hlt hi hk hid hw with habs | hfin
    · refine .inl ?_
      by_contra hstart
      exact Nat.not_le.mpr hlt (hclear habs hstart k w hk hid.symm hw).1
    · exact .inr (hfin.step e).1
  · -- the newer one does
    subst hik
    obtain rfl := Option.some.inj hk
    by_cases habs : s.child = .absent
    · have hfin := hclear habs hw j v hj hid
      by_cases hv : v.2.child = .absent
      · exact .inl hv
      · exact .inr ((hfin hv).2 hlt)
    · exact h.single hlt hj hi hid habs
  · exact h.single hlt hj hk hid hw

/-- A step of one instance, if it is not one that starts the pty while others are in the way. -/
theorem Superseding.step {i : Instance} {req : ExecRequest} {e : SessionEvent}
    (h : Superseding vmID cores history) (hi : cores[i]? = some (req, s))
    (hclear : s.child = .absent → (s.step e).child ≠ .absent → ClearCores cores i req.id) :
    Superseding vmID (cores.set i (req, s.step e))
      (history ++ observed i req.id s (s.step e)) := by
  have hset := getElem?_set_of_some hi (req, s.step e)
  refine ⟨fun {j c} hj => ?_, h.single_step hi hclear, fun {j id} hj => ?_, ?_⟩
  · rw [hset] at hj
    split_ifs at hj with hij
    · obtain rfl := Option.some.inj hj
      exact (h.sound hi).step e
    · exact h.sound hj
  · rw [hset]
    rcases List.mem_append.mp hj with hj | hj
    · obtain ⟨w, hw, hid, hchild⟩ := h.started hj
      split_ifs with hij
      · subst hij
        obtain rfl := Option.some.inj (hi.symm.trans hw)
        exact ⟨_, rfl, hid, child_ne_absent_step hchild e⟩
      · exact ⟨w, hw, hid, hchild⟩
    · rcases mem_observed hj with ⟨heq, -, hchild⟩ | ⟨_, _, heq, -⟩
      · cases heq
        exact ⟨_, if_pos rfl, rfl, hchild⟩
      · cases heq
  · refine List.pairwise_append.mpr ⟨h.ordered, List.pairwise_of_forall_mem_list ?_, ?_⟩
    · intro x hx y hy
      rcases mem_observed hx with ⟨rfl, -⟩ | ⟨_, _, rfl, -⟩
      · rcases mem_observed hy with ⟨rfl, -⟩ | ⟨_, _, rfl, -⟩
        · trivial
        · exact fun hlt => absurd hlt.1 (Nat.lt_irrefl i)
      · trivial
    · intro x hx y hy
      rcases mem_observed hy with ⟨rfl, -⟩ | ⟨_, _, rfl, hne⟩
      · cases x <;> trivial
      · cases x with
        | started j id =>
          rintro ⟨hlt, hid⟩
          obtain ⟨w, hw, rfl, hchild⟩ := h.started hx
          exact hne (h.published_step hlt hi hw hid hchild e)
        | _ => trivial

/-- A new instance, that has not been started. -/
theorem Superseding.push {req : ExecRequest} (h : Superseding vmID cores history)
    (hsound : Sound ⟨vmID, req⟩ s) (habs : s.child = .absent) :
    Superseding vmID (cores ++ [(req, s)]) history := by
  have hcases : ∀ {j c}, (cores ++ [(req, s)])[j]? = some c →
      cores[j]? = some c ∨ (cores.length = j ∧ c = (req, s)) := by
    intro j c hj
    rw [List.getElem?_append] at hj
    split_ifs at hj with hlt
    · exact .inl hj
    · rw [List.getElem?_singleton] at hj
      split_ifs at hj with hzero
      exact .inr ⟨by omega, (Option.some.inj hj).symm⟩
  refine ⟨fun {j c} hj => ?_, fun {j k v w} hlt hj hk hid hw => ?_, fun {j id} hj => ?_, h.ordered⟩
  · rcases hcases hj with hj | ⟨-, rfl⟩
    · exact h.sound hj
    · exact hsound
  · rcases hcases hk with hk | ⟨-, rfl⟩
    · rcases hcases hj with hj | ⟨rfl, rfl⟩
      · exact h.single hlt hj hk hid hw
      · obtain ⟨hk, -⟩ := List.getElem?_eq_some_iff.mp hk
        exact absurd hk (Nat.lt_asymm hlt)
    · exact absurd habs hw
  · obtain ⟨w, hw, hid, hchild⟩ := h.started hj
    obtain ⟨hlt, -⟩ := List.getElem?_eq_some_iff.mp hw
    exact ⟨w, (List.getElem?_append_left hlt).trans hw, hid, hchild⟩

theorem Superseding.handled (h : Superseding vmID cores history) (i : Instance) (id : GoString)
    (msg : Nat) : Superseding vmID cores (history ++ [.handled i id msg]) := by
  refine ⟨h.sound, h.single, fun {j id'} hj => ?_, ?_⟩
  · rcases List.mem_append.mp hj with hj | hj
    · exact h.started hj
    · cases List.mem_singleton.mp hj
  · refine List.pairwise_append.mpr ⟨h.ordered, List.pairwise_singleton _ _, fun x _ y hy => ?_⟩
    rw [List.mem_singleton.mp hy]
    cases x <;> trivial

/-- Of the instances of a session at most one has a live subscription. -/
theorem Superseding.live_unique {i j : Instance} {v w : ExecRequest × System}
    (h : Superseding vmID cores history) (hi : cores[i]? = some v) (hj : cores[j]? = some w)
    (hid : v.1.id = w.1.id) (hv : v.2.subscription = .live) (hw : w.2.subscription = .live) :
    i = j := by
  obtain ⟨hvchild, hvfin⟩ := (h.sound hi).of_live hv
  obtain ⟨hwchild, hwfin⟩ := (h.sound hj).of_live hw
  rcases Nat.lt_trichotomy i j with hlt | heq | hgt
  · exact ((h.single hlt hi hj hid hwchild).elim hvchild hvfin).elim
  · exact heq
  · exact ((h.single hgt hj hi hid.symm hvchild).elim hwchild hwfin).elim

end Superseding

/-! ## The handling of messages -/

/-- What counts of the workers for the handling of messages: the ID and the queued numbers. -/
def Agent.queues (a : Agent) : List (GoString × List Nat) :=
  a.workers.map fun w => (w.request.id, w.queue.map Prod.fst)

/-- The message has been queued for the instance. -/
def Holds (queues : List (GoString × List Nat)) (history : List Happening) (i : Instance)
    (id : GoString) (msg : Nat) : Prop :=
  .handled i id msg ∈ history ∨ ∃ q, queues[i]? = some (id, q) ∧ msg ∈ q

/-- Every message is queued for at most one instance of a session, and only when it arrives. -/
structure Handling (queues : List (GoString × List Nat)) (arrived : Nat)
    (history : List Happening) : Prop where
  numbered : ∀ {i id msg}, Holds queues history i id msg → msg < arrived
  holder : ∀ {i j id msg}, Holds queues history i id msg → Holds queues history j id msg → i = j

theorem Handling.mono {queues queues' : List (GoString × List Nat)} {arrived : Nat}
    {history history' : List Happening} (h : Handling queues arrived history)
    (himp : ∀ {i id msg}, Holds queues' history' i id msg → Holds queues history i id msg) :
    Handling queues' arrived history' :=
  ⟨fun hi => h.numbered (himp hi), fun hi hj => h.holder (himp hi) (himp hj)⟩

/-! ## Runs of the agent -/

structure AgentInv (vmID : GoString) (a : Agent) : Prop where
  superseding : Superseding vmID a.cores a.history
  handling : Handling a.queues a.arrived a.history

section Agent

variable {vmID : GoString} {a : Agent} {i : Instance} {w : Worker}

theorem getElem?_cores (hw : a.workers[i]? = some w) :
    a.cores[i]? = some (w.request, w.system) := by
  rw [Agent.cores, List.getElem?_map, hw]
  rfl

theorem getElem?_queues (hw : a.workers[i]? = some w) :
    a.queues[i]? = some (w.request.id, w.queue.map Prod.fst) := by
  rw [Agent.queues, List.getElem?_map, hw]
  rfl

/-- A change of a worker that leaves its part `f` alone. -/
theorem map_set_of_eq {α β : Type} {f : α → β} {l : List α} {i : Nat} {x : α}
    (hi : l[i]? = some x) (y : α) (hf : f y = f x) : (l.set i y).map f = l.map f := by
  obtain ⟨hlt, rfl⟩ := List.getElem?_eq_some_iff.mp hi
  have hlt' : i < (l.map f).length := by rwa [List.length_map]
  have hget : (l.map f)[i] = f y := by rw [List.getElem_map, hf]
  rw [List.map_set, ← hget]
  exact List.set_getElem_self hlt'

theorem cores_advance (hw : a.workers[i]? = some w) (e : SessionEvent) :
    (a.advance i e).cores = a.cores.set i (w.request, w.system.step e) := by
  simp only [Agent.advance, hw, Agent.cores, List.map_set]

theorem queues_advance (a : Agent) (i : Instance) (e : SessionEvent) :
    (a.advance i e).queues = a.queues := by
  unfold Agent.advance
  split
  · rfl
  · rename_i w hw
    exact map_set_of_eq hw { w with system := w.system.step e } rfl

theorem history_advance (hw : a.workers[i]? = some w) (e : SessionEvent) :
    (a.advance i e).history =
      a.history ++ observed i w.request.id w.system (w.system.step e) := by
  simp only [Agent.advance, hw]

theorem AgentInv.advance (h : AgentInv vmID a) {e : SessionEvent}
    (hclear : ∀ {w}, a.workers[i]? = some w → w.system.child = .absent →
      (w.system.step e).child ≠ .absent → ClearCores a.cores i w.request.id) :
    AgentInv vmID (a.advance i e) := by
  cases hw : a.workers[i]? with
  | none =>
    simp only [Agent.advance, hw]
    exact h
  | some w =>
    have harrived : (a.advance i e).arrived = a.arrived := by simp only [Agent.advance, hw]
    constructor
    · rw [cores_advance hw, history_advance hw]
      exact h.superseding.step (getElem?_cores hw) (hclear hw)
    · rw [queues_advance, history_advance hw, harrived]
      refine h.handling.mono fun {j id msg} hj => hj.imp_left fun hmem => ?_
      rcases List.mem_append.mp hmem with hmem | hmem
      · exact hmem
      · rcases mem_observed hmem with ⟨heq, -⟩ | ⟨_, _, heq, -⟩ <;> cases heq

/-- Being cancelled does not start anything. -/
theorem AgentInv.cancelAll (h : AgentInv vmID a) (is : List Instance) :
    AgentInv vmID (a.cancelAll is) := by
  refine List.foldlRecOn is (fun (a : Agent) i => a.advance i .cancel) h fun a ha i _ => ?_
  exact ha.advance fun _ habs hne => absurd habs hne

theorem AgentInv.push (h : AgentInv vmID a) (req : ExecRequest) (tree : Tree)
    (sessions : Sessions) :
    AgentInv vmID
      { a with
        sessions := sessions
        workers := a.workers ++
          [{ request := req, system := (PumpConfig.mk vmID req).system tree }] } := by
  constructor
  · have hpush := h.superseding.push (sound_system ⟨vmID, req⟩ tree) rfl
    simpa only [Agent.cores, List.map_append, List.map_cons, List.map_nil] using hpush
  · refine h.handling.mono fun {j id msg} hj => hj.imp_right ?_
    rintro ⟨q, hq, hmsg⟩
    simp only [Agent.queues, List.map_append, List.getElem?_append] at hq
    split_ifs at hq with hlt
    · exact ⟨q, hq, hmsg⟩
    · -- nothing is queued for the new instance
      rw [List.map_singleton, List.getElem?_singleton] at hq
      split_ifs at hq
      cases hq
      exact absurd hmsg List.not_mem_nil

/-- Only live subscriptions take a message that arrives. -/
theorem holds_arrival {subject data : GoString} {j : Instance} {id : GoString} {msg : Nat}
    (hj : Holds (a.step vmID (.arrival subject data)).queues a.history j id msg) :
    Holds a.queues a.history j id msg ∨
      (msg = a.arrived ∧ ∃ w, a.workers[j]? = some w ∧ w.request.id = id ∧
        w.system.subscription = .live) := by
  rcases hj with hmem | ⟨q, hq, hmsg⟩
  · exact .inl (.inl hmem)
  simp only [Agent.step, Agent.queues, List.map_map, List.getElem?_map,
    Option.map_eq_some_iff] at hq
  obtain ⟨w, hw, heq⟩ := hq
  simp only [Function.comp, Agent.enqueue] at heq
  split_ifs at heq with hlive
  · obtain ⟨hid, rfl⟩ := Prod.mk.inj heq
    rw [List.map_append] at hmsg
    rcases List.mem_append.mp hmsg with hmsg | hmsg
    · exact .inl (.inr ⟨_, by rw [getElem?_queues hw, hid], hmsg⟩)
    · exact .inr ⟨List.mem_singleton.mp hmsg, w, hw, hid, hlive.1⟩
  · obtain ⟨hid, rfl⟩ := Prod.mk.inj heq
    exact .inl (.inr ⟨_, by rw [getElem?_queues hw, hid], hmsg⟩)

theorem AgentInv.arrival (h : AgentInv vmID a) (subject data : GoString) :
    AgentInv vmID (a.step vmID (.arrival subject data)) := by
  have hcores : (a.step vmID (.arrival subject data)).cores = a.cores := by
    simp only [Agent.step, Agent.cores, List.map_map]
    refine List.map_congr_left fun w _ => ?_
    simp only [Function.comp, Agent.enqueue]
    split_ifs <;> rfl
  refine ⟨hcores ▸ h.superseding, fun {j id msg} hj => ?_, fun {j k id msg} hj hk => ?_⟩
  · rcases holds_arrival hj with hj | ⟨rfl, -⟩
    · exact Nat.lt_succ_of_lt (h.handling.numbered hj)
    · exact Nat.lt_succ_self _
  · rcases holds_arrival hj with hj | ⟨rfl, v, hv, hvid, hvlive⟩
    · rcases holds_arrival hk with hk | ⟨rfl, -⟩
      · exact h.handling.holder hj hk
      · exact absurd (h.handling.numbered hj) (Nat.lt_irrefl _)
    · rcases holds_arrival hk with hk | ⟨-, w, hw, hwid, hwlive⟩
      · exact absurd (h.handling.numbered hk) (Nat.lt_irrefl _)
      · exact h.superseding.live_unique (getElem?_cores hv) (getElem?_cores hw)
          (hvid.trans hwid.symm) hvlive hwlive

/-- The message moves from the queue of the instance to the history. -/
theorem AgentInv.callback (h : AgentInv vmID a) (hw : a.workers[i]? = some w) {msg : Nat}
    {data : GoString} {queue : List (Nat × GoString)} (hqueue : w.queue = (msg, data) :: queue) :
    AgentInv vmID (a.callback i w msg data queue) := by
  have htaken : AgentInv vmID
      { a with
        workers := a.workers.set i { w with queue := queue }
        history := a.history ++ [.handled i w.request.id msg] } := by
    have hqueues := getElem?_queues hw
    constructor
    · have hcores := map_set_of_eq (f := fun w : Worker => (w.request, w.system)) hw
        { w with queue := queue } rfl
      rw [Agent.cores, hcores]
      exact h.superseding.handled i w.request.id msg
    · refine h.handling.mono fun {j id msg'} hj => ?_
      have hhead : Holds a.queues a.history i w.request.id msg :=
        .inr ⟨_, hqueues, by simp [hqueue]⟩
      rcases hj with hmem | ⟨q, hq, hmsg⟩
      · rcases List.mem_append.mp hmem with hmem | hmem
        · exact .inl hmem
        · cases List.mem_singleton.mp hmem
          exact hhead
      · have hset : (a.workers.set i { w with queue := queue }).map
            (fun w => (w.request.id, w.queue.map Prod.fst)) =
              a.queues.set i (w.request.id, queue.map Prod.fst) := List.map_set
        rw [Agent.queues, hset, getElem?_set_of_some hqueues] at hq
        split_ifs at hq with hij
        · subst hij
          obtain ⟨rfl, rfl⟩ := Prod.mk.inj (Option.some.inj hq)
          exact .inr ⟨_, hqueues, by rw [hqueue]; exact List.mem_cons_of_mem _ hmsg⟩
        · exact .inr ⟨q, hq, hmsg⟩
  refine htaken.advance fun {w'} hw' habs hne => ?_
  exact absurd (starts_of_child_ne_absent habs hne).1 (by simp)

theorem clearCores_of_clearFor {id : GoString} (h : a.ClearFor i id) :
    ClearCores a.cores i id := by
  intro j w hw hid hchild
  simp only [Agent.cores, List.getElem?_map, Option.map_eq_some_iff] at hw
  obtain ⟨v, hv, rfl⟩ := hw
  exact h (v, j) (List.mem_zipIdx_iff_getElem?.mpr hv) hid hchild

/-- A step that does not start the pty while another instance of the session is in the way. -/
theorem AgentInv.step (h : AgentInv vmID a) (ev : AgentEvent) (halone : a.StartsAlone ev) :
    AgentInv vmID (a.step vmID ev) := by
  cases ev with
  | message unmarshalled tree =>
    simp only [Agent.step]
    split
    · exact h
    · exact (h.push _ _ _).cancelAll _
  | session j e =>
    simp only [Agent.step]
    split_ifs
    · refine h.advance fun {w} hw habs hne => ?_
      obtain ⟨⟨c, rfl⟩, hstarts⟩ := starts_of_child_ne_absent habs hne
      simp only [Agent.StartsAlone, hw] at halone
      exact clearCores_of_clearFor (halone hstarts)
    · exact h
  | arrival subject data => exact h.arrival subject data
  | callback j =>
    simp only [Agent.step]
    split
    · exact h
    · rename_i w hw
      split
      · exact h
      · rename_i msg data queue hqueue
        split_ifs
        · exact h.callback hw hqueue
        · exact h
  | deferredClose j =>
    simp only [Agent.step]
    split
    · exact h
    · rename_i w hw
      split_ifs
      · have hcores := map_set_of_eq (f := fun w : Worker => (w.request, w.system)) hw
          { w with closed := true } rfl
        have hqueues := map_set_of_eq
          (f := fun w : Worker => (w.request.id, w.queue.map Prod.fst)) hw
          { w with closed := true } rfl
        have hclosed : AgentInv vmID
            { a with
              sessions := (a.sessions.close w.request.id).1
              workers := a.workers.set j { w with closed := true } } := by
          constructor
          · rw [Agent.cores, hcores]
            exact h.superseding
          · rw [Agent.queues, hqueues]
            exact h.handling
        exact hclosed.cancelAll _
      · exact h
  | stop =>
    have hstopped : AgentInv vmID { a with sessions := a.sessions.closeAll.1 } :=
      ⟨h.superseding, h.handling⟩
    exact hstopped.cancelAll _

theorem agentInv_init (vmID : GoString) : AgentInv vmID {} := by
  refine ⟨⟨nofun, nofun, nofun, List.Pairwise.nil⟩, fun hi => ?_, fun hi => ?_⟩
  · rcases hi with hmem | ⟨q, hq, -⟩
    · exact absurd hmem List.not_mem_nil
    · cases hq
  · rcases hi with hmem | ⟨q, hq, -⟩
    · exact absurd hmem List.not_mem_nil
    · cases hq

end Agent

/-- In every run in which `pty.Start` is only called for an instance when no newer one of the
session has been started and the older ones that have been are finished: once an instance has been
started no older one of the session publishes, and no message is handled by two of them. -/
theorem superseded_is_silent (vmID : GoString) (evs : List AgentEvent)
    (h : Along (Agent.step vmID) Agent.StartsAlone {} evs) :
    NoStaleFrame (Agent.after vmID evs).history ∧ OneHandler (Agent.after vmID evs).history := by
  have hinv : AgentInv vmID (Agent.after vmID evs) :=
    h.invariant (fun _ ev ha hev => ha.step ev hev) (agentInv_init vmID)
  exact ⟨hinv.superseding.ordered, fun i j id msg hi hj => hinv.handling.holder (.inl hi) (.inl hj)⟩

/-- A request to open a shell under the ID `s`. -/
def opensShell : AgentEvent := .message (.ok (shellRequest (lit "s"))) .empty

/-- `Run` up to its in subscription. -/
def subscribing (i : Instance) : List AgentEvent := List.replicate 9 (.session i (.main {}))

/-- `Run` from its in subscription to the exit frame, when it has been cancelled. -/
def cancelled (i : Instance) : List AgentEvent :=
  [.session i (.main {}), .session i (.main { selected := .ctxDone }), .session i (.main {}),
    .session i (.childExit (-1)), .session i .waitReturns, .session i (.main {}),
    .session i (.main {}), .session i (.main {})]

/-- A key is typed into the session, and both instances get to call back. -/
def keyTyped : List AgentEvent :=
  [.arrival (subjectIn (lit "vm") (lit "s")) (lit "il"), .callback 0, .callback 1]

/-- The session is opened again, and the new instance waits for the old one. -/
def patientRun : List AgentEvent :=
  [opensShell] ++ subscribing 0 ++ [opensShell] ++ cancelled 0 ++
    [.session 0 (.main {}), .session 0 (.main {}), .session 0 (.readerRead 1)] ++
    subscribing 1 ++ keyTyped

theorem patientRun_is_silent :
    Along (Agent.step (lit "vm")) Agent.StartsAlone {} patientRun ∧
      NoStaleFrame (Agent.after (lit "vm") patientRun).history ∧
      OneHandler (Agent.after (lit "vm") patientRun).history := by
  have halone : Along (Agent.step (lit "vm")) Agent.StartsAlone {} patientRun := by decide +kernel
  exact ⟨halone, superseded_is_silent (lit "vm") patientRun halone⟩

/-- The new instance does not wait. -/
def hastyRun : List AgentEvent :=
  [opensShell] ++ subscribing 0 ++ [opensShell] ++ subscribing 1 ++ keyTyped ++ cancelled 0

/-- The key goes to both ptys, and the exit frame of the old instance is published on the out
subject of the session after the new one has been started. -/
theorem hastyRun_is_not_silent :
    (Agent.after (lit "vm") hastyRun).history =
        [.started 0 (lit "s"), .started 1 (lit "s"), .handled 0 (lit "s") 0,
          .handled 1 (lit "s") 0, .published 0 (lit "s") (subjectOut (lit "vm") (lit "s"))
            (exitFrame (wireCode (some (-1))))] ∧
      ¬NoStaleFrame (Agent.after (lit "vm") hastyRun).history ∧
      ¬OneHandler (Agent.after (lit "vm") hastyRun).history := by
  have hhistory : (Agent.after (lit "vm") hastyRun).history =
      [.started 0 (lit "s"), .started 1 (lit "s"), .handled 0 (lit "s") 0,
        .handled 1 (lit "s") 0, .published 0 (lit "s") (subjectOut (lit "vm") (lit "s"))
          (exitFrame (wireCode (some (-1))))] := by decide +kernel
  rw [hhistory]
  refine ⟨rfl, fun hordered => ?_, fun hone => ?_⟩
  · simp [NoStaleFrame, InOrder] at hordered
  · exact absurd (hone 0 1 (lit "s") 0 (by simp) (by simp)) (by decide)

end WeftAgent.ExecSession
