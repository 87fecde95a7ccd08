import WeftAgent.ExecSession.Sessions
import WeftAgent.Trace.Along
import Mathlib.Tactic

/-!
# Which pump terminations cancel whom

`Sessions.Close` works by session ID, so the deferred `Close` of a superseded instance hits
whatever instance is live under the ID by then. Cancel functions are invoked for the documented
reasons exactly in the runs where every deferred `Close` finds its own instance, or none.
-/

namespace WeftAgent.ExecSession

open Go Trace

/-- A cancel invocation with one of the documented reasons: a later open with the same ID, the end
of the instance's own pump, or `CloseAll`. -/
def Justified (s : Subscriber) : Instance × Cause → Prop
  | (i, .superseded j) => i < j ∧ ∃ p q, s.pumps[i]? = some p ∧ s.pumps[j]? = some q ∧ p.id = q.id
  | (i, .pumpFinished j) => j = i ∧ ∃ p, s.pumps[i]? = some p ∧ p.phase ≠ .running
  | (_, .closeAll) => True

/-- The event, if it ends the goroutine of one instance, leaves every other registered. -/
def KeepsOthers (s : Subscriber) (ev : Event) : Prop :=
  ∀ i, ev = .deferredClose i → ∀ j, j ≠ i → s.sessions.Registered j →
    (step s ev).sessions.Registered j

/-- The event, if it executes the deferred `Close` of an instance whose pump has returned, finds
that instance or nothing registered under the ID. -/
def ClosesOwn (s : Subscriber) (ev : Event) : Prop :=
  ∀ i id, ev = .deferredClose i → s.pumps[i]? = some ⟨id, .returned⟩ →
    s.sessions.live.lookup id = none ∨ s.sessions.live.lookup id = some i

/-- The registry only holds instances under the ID they were opened with. -/
def LiveInv (s : Subscriber) : Prop :=
  ∀ id i, s.sessions.live.lookup id = some i → ∃ p, s.pumps[i]? = some p ∧ p.id = id

/-! ## The steps -/

theorem lookup_open' (s : Sessions) (id id' : GoString) (c : Instance) :
    (s.open' id c).1.live.lookup id' = if id' = id then some c else s.live.lookup id' := by
  have hfst : (s.open' id c).1.live = s.live.insert id c := by
    unfold Sessions.open'
    split <;> rfl
  rw [hfst]
  split_ifs with h
  · rw [h, AList.lookup_insert]
  · rw [AList.lookup_insert_ne h]

theorem mem_cancelled_open' {s : Sessions} {id : GoString} {c i : Instance} :
    i ∈ (s.open' id c).2 ↔ s.live.lookup id = some i := by
  unfold Sessions.open'
  split
  · next existing h => simp [h, eq_comm]
  · next h => simp [h]

theorem lookup_close (s : Sessions) (id id' : GoString) :
    (s.close id).1.live.lookup id' = if id' = id then none else s.live.lookup id' := by
  unfold Sessions.close
  split
  · split_ifs with h
    · rw [h, AList.lookup_erase]
    · rw [AList.lookup_erase_ne h]
  · next hnone =>
    split_ifs with h
    · rw [h, hnone]
    · rfl

theorem mem_cancelled_close {s : Sessions} {id : GoString} {i : Instance} :
    i ∈ (s.close id).2 ↔ s.live.lookup id = some i := by
  unfold Sessions.close
  split
  · next existing h => simp [h, eq_comm]
  · next h => simp [h]

/-- What one step can do, guards included. -/
theorem step_cases (s : Subscriber) (ev : Event) :
    step s ev = s ∨
    (∃ m req, ev = .message m ∧ decodeRequest m = .ok req ∧ step s ev =
      { sessions := (s.sessions.open' req.id s.pumps.length).1
        pumps := s.pumps ++ [{ id := req.id }]
        cancels := s.cancels ++
          (s.sessions.open' req.id s.pumps.length).2.map (·, .superseded s.pumps.length) }) ∨
    (∃ i id, ev = .pumpReturns i ∧ s.pumps[i]? = some ⟨id, .running⟩ ∧
      step s ev = { s with pumps := s.pumps.set i ⟨id, .returned⟩ }) ∨
    (∃ i id, ev = .deferredClose i ∧ s.pumps[i]? = some ⟨id, .returned⟩ ∧
      step s ev =
        { sessions := (s.sessions.close id).1
          pumps := s.pumps.set i ⟨id, .closed⟩
          cancels := s.cancels ++ (s.sessions.close id).2.map (·, .pumpFinished i) }) ∨
    (ev = .stop ∧ step s ev =
      { s with sessions := s.sessions.closeAll.1
               cancels := s.cancels ++ s.sessions.closeAll.2.map (·, .closeAll) }) := by
  cases ev with
  | message m =>
    cases hd : decodeRequest m with
    | error e => exact Or.inl (by simp only [step, hd])
    | ok req => exact Or.inr (Or.inl ⟨m, req, rfl, hd, by simp only [step, hd]⟩)
  | pumpReturns i =>
    by_cases h : ∃ id, s.pumps[i]? = some ⟨id, .running⟩
    · obtain ⟨id, h⟩ := h
      exact Or.inr (Or.inr (Or.inl ⟨i, id, rfl, h, by simp only [step, h]⟩))
    · left
      simp only [step]
      split
      · next id hid => exact absurd ⟨id, hid⟩ h
      · rfl
  | deferredClose i =>
    by_cases h : ∃ id, s.pumps[i]? = some ⟨id, .returned⟩
    · obtain ⟨id, h⟩ := h
      exact Or.inr (Or.inr (Or.inr (Or.inl ⟨i, id, rfl, h, by simp only [step, h]⟩)))
    · left
      simp only [step]
      split
      · next id hid => exact absurd ⟨id, hid⟩ h
      · rfl
  | stop => exact Or.inr (Or.inr (Or.inr (Or.inr ⟨rfl, rfl⟩)))

/-- A goroutine keeps its ID, and once `Run` has returned it stays so. -/
theorem pump_step {s : Subscriber} (ev : Event) {i : Instance} {p : Pump}
    (h : s.pumps[i]? = some p) :
    ∃ q, (step s ev).pumps[i]? = some q ∧ q.id = p.id ∧
      (p.phase ≠ .running → q.phase ≠ .running) := by
  -- the steps that replace an entry keep its ID and move it past `running`
  have hset : ∀ k (q : Pump), (∀ r, s.pumps[k]? = some r → q.id = r.id ∧ q.phase ≠ .running) →
      ∃ q', (s.pumps.set k q)[i]? = some q' ∧ q'.id = p.id ∧
        (p.phase ≠ .running → q'.phase ≠ .running) := by
    intro k q hq
    by_cases hki : k = i
    · subst hki
      obtain ⟨hid, hph⟩ := hq p h
      have hlt : k < s.pumps.length := (List.getElem?_eq_some_iff.mp h).1
      exact ⟨q, by simp [hlt], hid, fun _ => hph⟩
    · exact ⟨p, by rw [List.getElem?_set_ne hki, h], rfl, id⟩
  obtain hs | ⟨m, req, -, -, hs⟩ | ⟨k, id, -, hk, hs⟩ | ⟨k, id, -, hk, hs⟩ | ⟨-, hs⟩ :=
    step_cases s ev <;>
    rw [hs]
  · exact ⟨p, h, rfl, id⟩
  · have hlt : i < s.pumps.length := (List.getElem?_eq_some_iff.mp h).1
    exact ⟨p, by rw [List.getElem?_append_left hlt, h], rfl, id⟩
  · refine hset k _ fun r hr => ?_
    rw [hk, Option.some.injEq] at hr
    subst hr
    exact ⟨rfl, by simp⟩
  · refine hset k _ fun r hr => ?_
    rw [hk, Option.some.injEq] at hr
    subst hr
    exact ⟨rfl, by simp⟩
  · exact ⟨p, h, rfl, id⟩

theorem Justified.step {s : Subscriber} {c : Instance × Cause} (h : Justified s c) (ev : Event) :
    Justified (step s ev) c := by
  obtain ⟨i, cause⟩ := c
  cases cause with
  | superseded j =>
    obtain ⟨hij, p, q, hp, hq, hid⟩ := h
    obtain ⟨p', hp', hpid, -⟩ := pump_step ev hp
    obtain ⟨q', hq', hqid, -⟩ := pump_step ev hq
    exact ⟨hij, p', q', hp', hq', by rw [hpid, hqid, hid]⟩
  | pumpFinished j =>
    obtain ⟨rfl, p, hp, hph⟩ := h
    obtain ⟨p', hp', -, hph'⟩ := pump_step ev hp
    exact ⟨rfl, p', hp', hph' hph⟩
  | closeAll => trivial

theorem mem_cancels_step {s : Subscriber} {c : Instance × Cause} (h : c ∈ s.cancels) (ev : Event) :
    c ∈ (step s ev).cancels := by
  obtain hs | ⟨m, req, -, -, hs⟩ | ⟨k, id, -, hk, hs⟩ | ⟨k, id, -, hk, hs⟩ | ⟨-, hs⟩ :=
    step_cases s ev <;>
    rw [hs]
  · exact h
  · exact List.mem_append_left _ h
  · exact h
  · exact List.mem_append_left _ h
  · exact List.mem_append_left _ h

theorem mem_cancels_foldl {c : Instance × Cause} :
    ∀ (evs : List Event) {s : Subscriber}, c ∈ s.cancels → c ∈ (evs.foldl step s).cancels
  | [], _, h => h
  | ev :: evs, _, h => mem_cancels_foldl evs (mem_cancels_step h ev)

theorem LiveInv.step {s : Subscriber} (h : LiveInv s) (ev : Event) : LiveInv (step s ev) := by
  have hkeep : ∀ id i, s.sessions.live.lookup id = some i →
      ∃ p, (ExecSession.step s ev).pumps[i]? = some p ∧ p.id = id := by
    intro id i hi
    obtain ⟨p, hp, hid⟩ := h id i hi
    obtain ⟨q, hq, hqid, -⟩ := pump_step ev hp
    exact ⟨q, hq, by rw [hqid, hid]⟩
  intro id i hi
  obtain hs | ⟨m, req, -, -, hs⟩ | ⟨k, id', -, hk, hs⟩ | ⟨k, id', -, hk, hs⟩ | ⟨-, hs⟩ :=
    step_cases s ev
  · exact hkeep id i (by rwa [hs] at hi)
  · have hlookup := hi
    rw [hs] at hlookup
    simp only [lookup_open'] at hlookup
    split_ifs at hlookup with hid
    · obtain rfl : s.pumps.length = i := by simpa using hlookup
      exact ⟨{ id := req.id }, by rw [hs]; simp, hid.symm⟩
    · exact hkeep id i hlookup
  · exact hkeep id i (by rwa [hs] at hi)
  · rw [hs] at hi
    simp only [lookup_close] at hi
    split_ifs at hi
    exact hkeep id i hi
  · rw [hs] at hi
    simp [Sessions.closeAll] at hi

/-! ## Guarded and unguarded closes -/

/-- A step that closes only its own instance adds only justified cancel invocations. -/
theorem justified_new {s : Subscriber} {ev : Event} (hinv : LiveInv s) (hown : ClosesOwn s ev)
    {c : Instance × Cause} (hc : c ∈ (step s ev).cancels) :
    c ∈ s.cancels ∨ Justified (step s ev) c := by
  obtain hs | ⟨m, req, -, -, hs⟩ | ⟨k, id, -, hk, hs⟩ | ⟨k, id, hev, hk, hs⟩ | ⟨-, hs⟩ :=
    step_cases s ev
  · exact Or.inl (by rwa [hs] at hc)
  · have hc' := hc
    rw [hs, List.mem_append, List.mem_map] at hc'
    rcases hc' with hc' | ⟨i, hi, rfl⟩
    · exact Or.inl hc'
    · -- `Open` cancels what the registry has under the ID, an older instance
      right
      obtain ⟨p, hp, hid⟩ := hinv req.id i (mem_cancelled_open'.mp hi)
      have hlt : i < s.pumps.length := (List.getElem?_eq_some_iff.mp hp).1
      refine ⟨hlt, p, { id := req.id }, ?_, ?_, hid⟩
      · rw [hs, List.getElem?_append_left hlt, hp]
      · rw [hs]; simp
  · exact Or.inl (by rwa [hs] at hc)
  · have hc' := hc
    rw [hs, List.mem_append, List.mem_map] at hc'
    rcases hc' with hc' | ⟨i, hi, rfl⟩
    · exact Or.inl hc'
    · -- the deferred `Close` finds its own instance, whose pump has returned
      right
      have hlive := mem_cancelled_close.mp hi
      obtain rfl : k = i := by
        rcases hown k id hev hk with hnone | hsome
        · rw [hnone] at hlive; cases hlive
        · rw [hsome] at hlive; exact Option.some.inj hlive
      have hlt : k < s.pumps.length := (List.getElem?_eq_some_iff.mp hk).1
      exact ⟨rfl, ⟨id, .closed⟩, by rw [hs]; simp [hlt], by simp⟩
  · have hc' := hc
    rw [hs, List.mem_append, List.mem_map] at hc'
    rcases hc' with hc' | ⟨i, -, rfl⟩
    · exact Or.inl hc'
    · exact Or.inr trivial

theorem keepsOthers_of_closesOwn {s : Subscriber} {ev : Event} (hown : ClosesOwn s ev) :
    KeepsOthers s ev := by
  rintro i rfl j hji ⟨id', hj⟩
  obtain hs | ⟨m, req, hev, -, -⟩ | ⟨k, id, hev, -, -⟩ | ⟨k, id, hev, hk, hs⟩ | ⟨hev, -⟩ :=
    step_cases s (.deferredClose i)
  · exact ⟨id', by rwa [hs]⟩
  · cases hev
  · cases hev
  · obtain rfl : i = k := by simpa using hev
    refine ⟨id', ?_⟩
    rw [hs]
    simp only [lookup_close]
    rw [if_neg, hj]
    rintro rfl
    rcases hown i id' rfl hk with hnone | hsome
    · rw [hnone] at hj; cases hj
    · rw [hsome] at hj; exact hji (Option.some.inj hj).symm
  · cases hev

/-- A deferred `Close` that finds another instance registered cancels it without a reason. -/
theorem unjustified_of_not_closesOwn {s : Subscriber} {ev : Event} (h : ¬ ClosesOwn s ev) :
    ∃ i j, j ≠ i ∧ (j, .pumpFinished i) ∈ (step s ev).cancels := by
  unfold ClosesOwn at h
  push Not at h
  obtain ⟨i, id, rfl, hi, hnone, hne⟩ := h
  obtain ⟨j, hj⟩ := Option.ne_none_iff_exists'.mp hnone
  refine ⟨i, j, fun hji => hne (by rw [hj, hji]), ?_⟩
  have hcancel : j ∈ (s.sessions.close id).2 := mem_cancelled_close.mpr hj
  simp only [step, hi]
  exact List.mem_append_right _ (List.mem_map_of_mem hcancel)

/-- The run lemma, from any state that satisfies the registry invariant and in which every cancel
invocation so far is justified. -/
theorem justified_run_iff {s : Subscriber} (hinv : LiveInv s)
    (hjust : ∀ c ∈ s.cancels, Justified s c) (evs : List Event) :
    ((∀ c ∈ (evs.foldl step s).cancels, Justified (evs.foldl step s) c) ∧
      Along step KeepsOthers s evs) ↔ Along step ClosesOwn s evs := by
  induction evs generalizing s with
  | nil => simpa using hjust
  | cons ev evs ih =>
    rw [List.foldl_cons, along_cons, along_cons]
    by_cases hown : ClosesOwn s ev
    · have hnext : ∀ c ∈ (step s ev).cancels, Justified (step s ev) c := by
        intro c hc
        rcases justified_new hinv hown hc with hold | hnew
        · exact (hjust c hold).step ev
        · exact hnew
      rw [← ih (hinv.step ev) hnext]
      exact ⟨fun ⟨hc, _, hk⟩ => ⟨hown, hc, hk⟩,
        fun ⟨_, hc, hk⟩ => ⟨hc, keepsOthers_of_closesOwn hown, hk⟩⟩
    · -- the unjustified invocation stays in the log whatever follows
      refine ⟨fun ⟨hc, _⟩ => ?_, fun ⟨h, _⟩ => absurd h hown⟩
      obtain ⟨i, j, hji, hmem⟩ := unjustified_of_not_closesOwn hown
      have hbad := hc _ (mem_cancels_foldl evs hmem)
      exact absurd hbad.1.symm hji

/-- Over a whole run, cancel functions are invoked only for the documented reasons, and no pump
termination unregisters another instance, exactly when every deferred `Close` finds its own
instance, or none, registered under its ID. -/
theorem cancels_justified_iff (evs : List Event) :
    ((∀ c ∈ (runEvents evs).cancels, Justified (runEvents evs) c) ∧
      Along step KeepsOthers {} evs) ↔ Along step ClosesOwn {} evs := by
  refine justified_run_iff ?_ ?_ evs
  · intro id i hi
    simp at hi
  · intro c hc
    simp at hc

def shellRequest (id : GoString) : ExecRequest := { id := id, target := { kind := lit "shell" } }

/-- Session `a` is opened twice, then the pump of the first instance returns. -/
def reopened : List Event :=
  [.message (.ok (shellRequest (lit "a"))), .message (.ok (shellRequest (lit "a"))), .pumpReturns 0]

/-- When the goroutine of the first, superseded instance ends, its deferred `Close` cancels and
unregisters the second instance, whose pump is still running. -/
theorem stale_close_cancels_successor :
    (runEvents reopened).sessions.live.lookup (lit "a") = some 1 ∧
    (runEvents (reopened ++ [.deferredClose 0])).cancels =
      [(0, .superseded 1), (1, .pumpFinished 0)] ∧
    (runEvents (reopened ++ [.deferredClose 0])).pumps =
      [⟨lit "a", .closed⟩, ⟨lit "a", .running⟩] ∧
    (runEvents (reopened ++ [.deferredClose 0])).sessions.live.lookup (lit "a") = none := by
  decide

/-! ## Runs without overlapping instances -/

/-- The event, if it is an accepted open, uses an ID all of whose earlier instances have ended. -/
def NoOverlap (s : Subscriber) (ev : Event) : Prop :=
  ∀ m req, ev = .message m → decodeRequest m = .ok req →
    ∀ p ∈ s.pumps, p.id = req.id → p.phase = .closed

/-- Each ID has at most one goroutine that has not ended, and a registered instance is one. -/
structure SoleInv (s : Subscriber) : Prop where
  sole : ∀ (i j : Instance) (p q : Pump), s.pumps[i]? = some p → s.pumps[j]? = some q →
    p.id = q.id → p.phase ≠ .closed → q.phase ≠ .closed → i = j
  live : ∀ id j, s.sessions.live.lookup id = some j →
    ∃ q, s.pumps[j]? = some q ∧ q.id = id ∧ q.phase ≠ .closed

theorem SoleInv.closesOwn {s : Subscriber} (h : SoleInv s) (ev : Event) : ClosesOwn s ev := by
  intro i id _ hi
  cases hl : s.sessions.live.lookup id with
  | none => exact Or.inl rfl
  | some j =>
    obtain ⟨q, hq, hid, hph⟩ := h.live id j hl
    right
    rw [h.sole i j ⟨id, .returned⟩ q hi hq hid.symm (by simp) hph]

/-- A goroutine after its neighbour `k` moved on was there before, and had not ended if it has not
now. -/
theorem pump_of_set {pumps : List Pump} {i k : Nat} {p q r : Pump} (hk : pumps[k]? = some r)
    (h : (pumps.set k q)[i]? = some p) (hid : q.id = r.id) (hph : r.phase ≠ .closed) :
    ∃ p', pumps[i]? = some p' ∧ p'.id = p.id ∧ (p.phase ≠ .closed → p'.phase ≠ .closed) := by
  by_cases hki : k = i
  · subst hki
    have hlt : k < pumps.length := (List.getElem?_eq_some_iff.mp hk).1
    rw [List.getElem?_set_self hlt, Option.some.injEq] at h
    subst h
    exact ⟨r, hk, hid.symm, fun _ => hph⟩
  · rw [List.getElem?_set_ne hki] at h
    exact ⟨p, h, rfl, id⟩

theorem SoleInv.sole_set {s : Subscriber} (h : SoleInv s) {i j k : Nat} {p q r r' : Pump}
    (hk : s.pumps[k]? = some r) (hp : (s.pumps.set k r')[i]? = some p)
    (hq : (s.pumps.set k r')[j]? = some q) (hid : r'.id = r.id) (hph : r.phase ≠ .closed)
    (hpq : p.id = q.id) (hpp : p.phase ≠ .closed) (hqp : q.phase ≠ .closed) : i = j := by
  obtain ⟨p', hp', hpid, hpp'⟩ := pump_of_set hk hp hid hph
  obtain ⟨q', hq', hqid, hqp'⟩ := pump_of_set hk hq hid hph
  exact h.sole i j p' q' hp' hq' (by rw [hpid, hqid, hpq]) (hpp' hpp) (hqp' hqp)

theorem SoleInv.step {s : Subscriber} {ev : Event} (h : SoleInv s) (hev : NoOverlap s ev) :
    SoleInv (step s ev) := by
  obtain hs | ⟨m, req, he, hd, hs⟩ | ⟨k, id, -, hk, hs⟩ | ⟨k, id, -, hk, hs⟩ | ⟨-, hs⟩ :=
    step_cases s ev <;> rw [hs]
  · exact h
  · have hold : ∀ {i : Nat} {p : Pump}, s.pumps[i]? = some p → p.id = req.id → p.phase = .closed :=
      fun hp hid => hev m req he hd _ (List.mem_of_getElem? hp) hid
    have hget : ∀ {i : Nat} {p : Pump}, (s.pumps ++ [{ id := req.id }])[i]? = some p →
        s.pumps[i]? = some p ∨ (i = s.pumps.length ∧ p = { id := req.id }) := by
      intro i p hp
      rcases Nat.lt_trichotomy i s.pumps.length with hlt | rfl | hgt
      · left; rwa [List.getElem?_append_left hlt] at hp
      · right; exact ⟨rfl, by simpa using hp.symm⟩
      · rw [List.getElem?_eq_none (by simp; omega)] at hp; cases hp
    refine ⟨fun i j p q hp hq hid hpp hqp => ?_, fun id j hj => ?_⟩
    · rcases hget hp with hp | ⟨rfl, rfl⟩ <;> rcases hget hq with hq | ⟨rfl, rfl⟩
      · exact h.sole i j p q hp hq hid hpp hqp
      · exact absurd (hold hp hid) hpp
      · exact absurd (hold hq hid.symm) hqp
      · rfl
    · simp only [lookup_open'] at hj
      split_ifs at hj with hid
      · obtain rfl : s.pumps.length = j := by simpa using hj
        exact ⟨{ id := req.id }, by simp, hid.symm, by simp⟩
      · obtain ⟨q, hq, hqid, hqp⟩ := h.live id j hj
        have hlt : j < s.pumps.length := (List.getElem?_eq_some_iff.mp hq).1
        exact ⟨q, by rw [List.getElem?_append_left hlt, hq], hqid, hqp⟩
  · refine ⟨fun i j p q hp hq hid hpp hqp => ?_, fun id' j hj => ?_⟩
    · exact h.sole_set hk hp hq rfl (by simp) hid hpp hqp
    · obtain ⟨q, hq, hqid, hqp⟩ := h.live id' j hj
      by_cases hkj : k = j
      · subst hkj
        obtain rfl : ⟨id, .running⟩ = q := Option.some.inj (hk.symm.trans hq)
        have hlt : k < s.pumps.length := (List.getElem?_eq_some_iff.mp hq).1
        exact ⟨⟨id, .returned⟩, List.getElem?_set_self hlt, hqid, by simp⟩
      · exact ⟨q, by rw [List.getElem?_set_ne hkj, hq], hqid, hqp⟩
  · refine ⟨fun i j p q hp hq hid hpp hqp => ?_, fun id' j hj => ?_⟩
    · exact h.sole_set hk hp hq rfl (by simp) hid hpp hqp
    · -- the ID is gone from the registry, so what is left belongs to other goroutines
      simp only [lookup_close] at hj
      split_ifs at hj with hid
      obtain ⟨q, hq, hqid, hqp⟩ := h.live id' j hj
      have hkj : k ≠ j := by
        rintro rfl
        obtain rfl : ⟨id, .returned⟩ = q := Option.some.inj (hk.symm.trans hq)
        exact hid hqid.symm
      exact ⟨q, by rw [List.getElem?_set_ne hkj, hq], hqid, hqp⟩
  · exact ⟨h.sole, fun id j hj => by simp [Sessions.closeAll] at hj⟩

/-- As long as no ID is reopened before the goroutines of its earlier instances have ended, every
deferred `Close` finds its own instance or none. -/
theorem closesOwn_of_noOverlap {evs : List Event} (h : Along step NoOverlap {} evs) :
    Along step ClosesOwn {} evs := by
  have hinit : SoleInv {} := ⟨by simp, by simp⟩
  rw [along_iff_split] at h ⊢
  intro pre ev post hevs
  refine SoleInv.closesOwn ?_ ev
  refine Along.invariant (P := NoOverlap) (fun s e hs he => SoleInv.step hs he) hinit ?_
  rw [along_iff_split]
  intro pre' ev' post' hpre
  exact h pre' ev' (post' ++ ev :: post) (by rw [hevs, hpre]; simp)

end WeftAgent.ExecSession
