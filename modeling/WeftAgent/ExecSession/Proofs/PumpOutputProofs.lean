import WeftAgent.ExecSession.Proofs.PumpProofs
import WeftAgent.Trace.Along

/-!
# The output of an exec session

Every byte that the child has written is in a frame that was given to `Publish`, in the hands of the
reader goroutine or in the pty (`Books`). Nothing makes `Run` wait for the last two to be empty
before it publishes the exit frame, so the output is delivered in full, and before the exit frame,
exactly in the runs in which they happen to be empty then and no `Publish` fails.
-/

namespace WeftAgent.ExecSession

open WeftAgent.Go WeftAgent.Effect WeftAgent.Fs WeftAgent.Trace

variable {cfg : PumpConfig}

/-! ## The books of the pty -/

/-- What was sent before the exit frame (`before`), the exit frame if it has been sent, and what
came after it; together with what is on its way they account for what was written. -/
def Books (cfg : PumpConfig) (exit : Option Int) (before : List GoString) (s : System) : Prop :=
  ∃ after : List GoString,
    s.sent = before.map cfg.outMsg ++ exit.toList.map cfg.exitMsg ++ after.map cfg.outMsg ∧
    s.written = before.flatten ++ (after.flatten ++ (s.reader.inHand ++ s.buffer)) ∧
    (exit = none → after = []) ∧ ∀ c ∈ before ++ after, c ≠ []

theorem outFrame_ne_exitFrame (chunk : GoString) (code : UInt32) :
    outFrame chunk ≠ exitFrame code := by
  intro h
  exact absurd (List.cons.inj h).1 (by decide)

theorem outMsg_ne_exitMsg (chunk : GoString) (code : Int) : cfg.outMsg chunk ≠ cfg.exitMsg code :=
  fun h => outFrame_ne_exitFrame _ _ (Prod.ext_iff.mp h).2

theorem outMsg_injective : Function.Injective cfg.outMsg := by
  intro c c' h
  exact (List.cons.inj (Prod.ext_iff.mp h).2).2

/-- After the exit frame, what was sent is complete if what was sent before is all of the output. -/
theorem Books.complete_iff {code : Int} {before : List GoString} {s : System}
    (h : Books cfg (some code) before s) (hchild : s.child = .exited code) :
    cfg.Complete s s.sent ↔ before.flatten = s.written := by
  obtain ⟨after, hsent, hwritten, -, hne⟩ := h
  constructor
  · rintro ⟨chunks, code', -, hsent', hflat⟩
    -- the exit frame is the last one, and the only one that is not an out frame
    have hafter : after = [] := by
      by_contra hnil
      have hlast := congrArg List.getLast? (hsent.symm.trans hsent')
      rw [List.getLast?_append_of_ne_nil _ (by simpa using hnil), List.getLast?_concat,
        List.getLast?_map] at hlast
      obtain ⟨c, -, hc⟩ := Option.map_eq_some_iff.mp hlast
      exact outMsg_ne_exitMsg c code' hc
    rw [hsent, hafter] at hsent'
    simp only [Option.toList_some, List.map_cons, List.map_nil, List.append_nil] at hsent'
    have hchunks := (List.append_inj' hsent' rfl).1
    rw [List.map_injective_iff.mpr outMsg_injective hchunks]
    exact hflat
  · intro hflat
    have hrest : after.flatten ++ (s.reader.inHand ++ s.buffer) = [] := by
      rw [hflat] at hwritten
      exact List.self_eq_append_right.mp hwritten
    have hafter : after = [] := by
      rcases List.eq_nil_or_concat after with hnil | ⟨init, c, rfl⟩
      · exact hnil
      · have hc : c ≠ [] := hne c (by simp)
        simp [hc] at hrest
    refine ⟨before, code, hchild, ?_, hflat⟩
    rw [hsent, hafter]
    simp

/-! ## What `Publish` takes -/

/-- The output in a frame, by its length; an exit frame counts as one. -/
def weight (frame : GoString × GoString) : Nat :=
  if frame.2.head? = some 'o'.toUInt8 then frame.2.length - 1 else 1

theorem sum_weight_outMsg (chunks : List GoString) :
    ((chunks.map cfg.outMsg).map weight).sum = chunks.flatten.length := by
  have hweight : ∀ chunk, weight (cfg.outMsg chunk) = chunk.length := fun chunk => by
    simp [weight, PumpConfig.outMsg, outFrame]
  simp [Function.comp_def, hweight, List.length_flatten]

theorem weight_exitMsg (code : Int) : weight (cfg.exitMsg code) = 1 :=
  if_neg (by simp only [PumpConfig.exitMsg, exitFrame, List.head?_cons]; decide)

/-- A sublist that is not lighter is all of the list. -/
theorem eq_of_sublist_of_sum_le {α : Type} (w : α → Nat) {l₁ l₂ : List α} (h : l₁.Sublist l₂)
    (hpos : ∀ x ∈ l₂, 0 < w x) (hsum : (l₂.map w).sum ≤ (l₁.map w).sum) : l₁ = l₂ := by
  induction h with
  | slnil => rfl
  | @cons l₁ l₂ a hsub ih =>
    have hle : (l₁.map w).sum ≤ (l₂.map w).sum :=
      (hsub.map w).sum_le_sum fun x _ => Nat.zero_le x
    have ha : 0 < w a := hpos a List.mem_cons_self
    rw [List.map_cons, List.sum_cons] at hsum
    omega
  | @cons_cons l₁ l₂ a hsub ih =>
    rw [List.map_cons, List.sum_cons, List.map_cons, List.sum_cons] at hsum
    rw [ih (fun x hx => hpos x (List.mem_cons_of_mem a hx)) (by omega)]

/-- If what was published is the whole output with the exit frame, no `Publish` has failed. -/
theorem Books.published_eq_sent {exit : Option Int} {before : List GoString} {s : System}
    (h : Books cfg exit before s) (hsub : s.published.Sublist s.sent) (hd : cfg.Delivered s) :
    s.published = s.sent := by
  obtain ⟨after, hsent, hwritten, -, hne⟩ := h
  obtain ⟨chunks, code, -, hpub, hflat⟩ := hd
  refine eq_of_sublist_of_sum_le weight hsub ?_ ?_
  · have hout : ∀ c ∈ before ++ after, 0 < weight (cfg.outMsg c) := fun c hc => by
      have hpos : 0 < c.length := List.length_pos_iff.mpr (hne c hc)
      simpa [weight, PumpConfig.outMsg, outFrame] using hpos
    intro frame hframe
    rw [hsent] at hframe
    simp only [List.mem_append, List.mem_map] at hframe
    rcases hframe with (⟨c, hc, rfl⟩ | ⟨code, -, rfl⟩) | ⟨c, hc, rfl⟩
    · exact hout c (List.mem_append_left _ hc)
    · rw [weight_exitMsg]
      exact Nat.one_pos
    · exact hout c (List.mem_append_right _ hc)
  · have hexit : ((exit.toList.map cfg.exitMsg).map weight).sum ≤ 1 := by
      cases exit <;> simp [weight_exitMsg]
    have hlength := congrArg List.length hwritten
    rw [hsent, hpub]
    simp only [List.map_append, List.sum_append, sum_weight_outMsg, hflat, List.map_cons,
      List.map_nil, weight_exitMsg, List.sum_singleton]
    simp only [List.length_append] at hlength
    omega

section Publish

variable {s : System} (hsub : s.published.Sublist s.sent) (subject data : GoString)
  (err : Option GoError)

include hsub

theorem published_sublist_publish :
    (s.publish subject data err).published.Sublist (s.publish subject data err).sent := by
  cases err with
  | none => exact hsub.append (List.Sublist.refl _)
  | some e => exact hsub.trans (List.sublist_append_left _ _)

theorem published_eq_sent_publish_iff :
    (s.publish subject data err).published = (s.publish subject data err).sent ↔
      s.published = s.sent ∧ err = none := by
  cases err with
  | none => simp [System.publish]
  | some e =>
    refine iff_of_false (fun heq => ?_) (by simp)
    have hlength := congrArg List.length heq
    have hle := hsub.length_le
    simp only [System.publish, List.length_append, List.length_singleton] at hlength
    omega

end Publish

/-! ## The invariant -/

/-- The exit code in the exit frame that has been sent. -/
def Stage.exit : Stage → Option Int
  | .exitSent state _ | .closed state _ | .ended state _ => state
  | _ => none

def Stage.Admits (m : Stage) (child : Child) : Prop :=
  match m with
  | .building | .notStarted => child = .absent
  | .started | .reading | .refused | .refusedClosed | .subscribed | .waiting | .cancelling =>
    child ≠ .absent
  | .reaped => ∃ code, child = .exited code
  | .coded state | .exitSent state _ | .closed state _ | .ended state _ =>
    ∃ code, state = some code ∧ child = .exited code

def Stage.subscription : Stage → Subscription
  | .building | .notStarted | .started | .reading => .none
  | .refused | .refusedClosed => .refused
  | .subscribed | .waiting | .cancelling | .reaped | .coded _ | .exitSent _ _ | .closed _ _ => .live
  | .ended _ _ => .ended

/-- The reader goroutine publishes on the subject, and no empty chunk. -/
def Reader.On (subject : GoString) : Reader → Prop
  | .reading sub => sub = subject
  | .holding sub chunk => sub = subject ∧ chunk ≠ []
  | .absent | .returned => True

/-- What holds of the session when `Run` has come to the stage `m`. -/
structure AtStage (cfg : PumpConfig) (m : Stage) (before : List GoString) (s : System) : Prop where
  books : Books cfg m.exit before s
  published : s.published.Sublist s.sent
  reader : s.reader.On cfg.outSub
  noReader : m = .building ∨ m = .started → s.reader = .absent
  child : m.Admits s.child
  done : s.done = true → ∃ code, s.child = .exited code
  subscription : s.subscription = m.subscription

variable {m m' : Stage} {before : List GoString} {s s' : System}

/-- The stage is not one after a failed call, and the exit frame was not sent too early. -/
def Stage.Good (m : Stage) (before : List GoString) (written : GoString) : Prop :=
  m.subscription ≠ .refused ∧ (m.exit ≠ none → before.flatten = written)

theorem AtStage.withMain (h : AtStage cfg m before s) (p : Prog pumpSig (Option GoError)) :
    AtStage cfg m before { s with main := p } :=
  ⟨h.books, h.published, h.reader, h.noReader, h.child, h.done, h.subscription⟩

/-- Between its publications the reader goroutine only moves bytes from the pty to its hands. -/
theorem Books.congr {exit : Option Int} (h : Books cfg exit before s)
    (hsent : s'.sent = s.sent) (hwritten : s'.written = s.written)
    (hway : s'.reader.inHand ++ s'.buffer = s.reader.inHand ++ s.buffer) :
    Books cfg exit before s' := by
  unfold Books
  rw [hsent, hwritten, hway]
  exact h

theorem Books.exitSent (h : Books cfg none before s) (code : Int) (err : Option GoError) :
    Books cfg (some code) before
      (s.publish cfg.outSub (exitFrame (wireCode (some code))) err) := by
  obtain ⟨after, hsent, hwritten, hafter, hne⟩ := h
  obtain rfl := hafter rfl
  refine ⟨[], ?_, ?_, (nomatch ·), hne⟩
  · cases err <;> simp [System.publish, hsent, PumpConfig.exitMsg]
  · cases err <;> exact hwritten

/-! ## The calls of `Run` -/

theorem perform_ptyStart {c : Choice} {cmd : Cmd} {x : Option GoError}
    (h : System.perform c (.inr (.ptyStart cmd)) s = some (x, s')) :
    (x = none ∧ s' = { s with child := .running, ptyOpen := true }) ∨ (x ≠ none ∧ s' = s) := by
  simp only [System.perform] at h
  split at h
  · cases h
    exact .inr ⟨Option.some_ne_none _, rfl⟩
  · cases h
    exact .inl ⟨rfl, rfl⟩

theorem perform_subscribe {c : Choice} {subject : GoString} {x : Option GoError}
    (h : System.perform c (.inr (.subscribe subject)) s = some (x, s')) :
    x = c.err ∧ s' = { s with subscription := if x = none then .live else .refused } := by
  simp only [System.perform] at h
  split at h
  · rename_i e herr
    cases h
    exact ⟨herr.symm, rfl⟩
  · rename_i herr
    cases h
    exact ⟨herr.symm, rfl⟩

theorem perform_publish {c : Choice} {subject data : GoString} {x : Option GoError}
    (h : System.perform c (.inr (.publish subject data)) s = some (x, s')) :
    x = c.err ∧ s' = s.publish subject data x := by
  cases h
  exact ⟨rfl, rfl⟩

theorem perform_select {c : Choice} {x : Selected}
    (h : System.perform c (.inr .select) s = some (x, s')) :
    (x = .ctxDone ∧ s' = s) ∨ (x = .childDone ∧ s.done = true ∧ s' = { s with done := false }) := by
  simp only [System.perform] at h
  split at h
  · split at h
    · cases h
      exact .inl ⟨rfl, rfl⟩
    · cases h
  · split at h
    · rename_i hdone
      cases h
      exact .inr ⟨rfl, hdone, rfl⟩
    · cases h

theorem perform_recvDone {c : Choice} {x : Unit}
    (h : System.perform c (.inr .recvDone) s = some (x, s')) :
    s.done = true ∧ s' = { s with done := false } := by
  simp only [System.perform] at h
  split at h
  · rename_i hdone
    cases h
    exact ⟨hdone, rfl⟩
  · cases h

/-- No other call sends a frame. -/
theorem perform_frames {c : Choice} {op : pumpSig.Op} {x : pumpSig.Ans op}
    (h : System.perform c op s = some (x, s'))
    (hop : ∀ subject data, op ≠ .inr (.publish subject data)) :
    s'.published = s.published ∧ s'.sent = s.sent := by
  cases op with
  | inl op =>
    cases h
    exact ⟨rfl, rfl⟩
  | inr op =>
    cases op with
    | publish subject data => exact absurd rfl (hop subject data)
    | ptyStart cmd => rcases perform_ptyStart h with ⟨-, rfl⟩ | ⟨-, rfl⟩ <;> exact ⟨rfl, rfl⟩
    | subscribe subject =>
      obtain ⟨-, rfl⟩ := perform_subscribe h
      exact ⟨rfl, rfl⟩
    | select => rcases perform_select h with ⟨-, rfl⟩ | ⟨-, -, rfl⟩ <;> exact ⟨rfl, rfl⟩
    | recvDone =>
      obtain ⟨-, rfl⟩ := perform_recvDone h
      exact ⟨rfl, rfl⟩
    | exitCode =>
      simp only [System.perform] at h
      split at h <;> cases h <;> exact ⟨rfl, rfl⟩
    | _ =>
      cases h
      exact ⟨rfl, rfl⟩

/-- A call of `Run` leads to the stage that the protocol says. -/
theorem AtStage.perform {c : Choice} {op : pumpSig.Op} {x : pumpSig.Ans op}
    (h : AtStage cfg m before s) (hrule : Rule cfg m op x m')
    (hperform : System.perform c op s = some (x, s')) :
    AtStage cfg m' before s' ∧ s'.written = s.written := by
  obtain ⟨hbooks, hpub, hreader, hnone, hchild, hdone, hsub⟩ := h
  cases hrule with
  | start cmd =>
    rcases perform_ptyStart hperform with ⟨-, rfl⟩ | ⟨hx, -⟩
    · refine ⟨⟨hbooks, hpub, hreader, fun _ => hnone (.inl rfl), Child.noConfusion, fun hd => ?_,
        hsub⟩, rfl⟩
      obtain ⟨code, hcode⟩ := hdone hd
      exact absurd (hchild.symm.trans hcode) Child.noConfusion
    · exact absurd rfl hx
  | startFails cmd e =>
    rcases perform_ptyStart hperform with ⟨hx, -⟩ | ⟨-, rfl⟩
    · exact absurd hx (Option.some_ne_none e)
    · exact ⟨⟨hbooks, hpub, hreader, by simp, hchild, hdone, hsub⟩, rfl⟩
  | goReader =>
    cases hperform
    have habsent : s.reader = .absent := hnone (.inr rfl)
    have hway : Reader.inHand (.reading cfg.outSub) ++ s.buffer = s.reader.inHand ++ s.buffer := by
      rw [habsent]
      rfl
    exact ⟨⟨hbooks.congr rfl rfl hway, hpub, rfl, by simp, hchild, hdone, hsub⟩, rfl⟩
  | subscribe | subscribeFails e =>
    obtain ⟨-, rfl⟩ := perform_subscribe hperform
    exact ⟨⟨hbooks, hpub, hreader, by simp, hchild, hdone, rfl⟩, rfl⟩
  | ctxDone =>
    rcases perform_select hperform with ⟨-, rfl⟩ | ⟨hx, -⟩
    · exact ⟨⟨hbooks, hpub, hreader, by simp, hchild, hdone, hsub⟩, rfl⟩
    · exact absurd hx Selected.noConfusion
  | childDone =>
    rcases perform_select hperform with ⟨hx, -⟩ | ⟨-, hd, rfl⟩
    · exact absurd hx Selected.noConfusion
    · exact ⟨⟨hbooks, hpub, hreader, by simp, hdone hd, (nomatch ·), hsub⟩, rfl⟩
  | recvDone =>
    obtain ⟨hd, rfl⟩ := perform_recvDone hperform
    exact ⟨⟨hbooks, hpub, hreader, by simp, hdone hd, (nomatch ·), hsub⟩, rfl⟩
  | exitCode state =>
    obtain ⟨code, hcode⟩ := hchild
    simp only [System.perform, hcode] at hperform
    cases hperform
    exact ⟨⟨hbooks, hpub, hreader, by simp, ⟨code, rfl, hcode⟩, hdone, hsub⟩, rfl⟩
  | exitFrame state err =>
    obtain ⟨code, rfl, hcode⟩ := hchild
    obtain ⟨-, rfl⟩ := perform_publish hperform
    have hbooks' := hbooks.exitSent code err
    have hpub' := published_sublist_publish hpub cfg.outSub (exitFrame (wireCode (some code))) err
    cases err with
    | none => exact ⟨⟨hbooks', hpub', hreader, by simp, ⟨code, rfl, hcode⟩, hdone, hsub⟩, rfl⟩
    | some e => exact ⟨⟨hbooks', hpub', hreader, by simp, ⟨code, rfl, hcode⟩, hdone, hsub⟩, rfl⟩
  | build op x | setsize cols rows =>
    cases hperform
    exact ⟨⟨hbooks, hpub, hreader, hnone, hchild, hdone, hsub⟩, rfl⟩
  | killRefused | closeRefused | goWait | killCancelled | close state err =>
    cases hperform
    exact ⟨⟨hbooks, hpub, hreader, by simp, hchild, hdone, hsub⟩, rfl⟩
  | unsubscribe state err =>
    cases hperform
    exact ⟨⟨hbooks, hpub, hreader, by simp, hchild, hdone, rfl⟩, rfl⟩

/-! ## The other steps -/

theorem sent_publish (s : System) (subject data : GoString) (err : Option GoError) :
    (s.publish subject data err).sent = s.sent ++ [(subject, data)] := by
  cases err <;> rfl

/-- A chunk that is sent counts as output before the exit frame only if that has not been sent
yet. -/
theorem Books.publish {exit : Option Int} {chunk : GoString} (h : Books cfg exit before s)
    (hreader : s.reader = .holding cfg.outSub chunk) (hchunk : chunk ≠ []) (err : Option GoError) :
    ∃ before', (exit ≠ none → before' = before) ∧ Books cfg exit before'
      { s.publish cfg.outSub (outFrame chunk) err with reader := .reading cfg.outSub } := by
  obtain ⟨after, hsent, hwritten, hafter, hne⟩ := h
  have hrest : (s.publish cfg.outSub (outFrame chunk) err).written = s.written ∧
      (s.publish cfg.outSub (outFrame chunk) err).buffer = s.buffer := by
    cases err <;> exact ⟨rfl, rfl⟩
  rw [hreader] at hwritten
  unfold Books
  dsimp only
  rw [sent_publish, hrest.1, hrest.2]
  cases exit with
  | none =>
    obtain rfl := hafter rfl
    refine ⟨before ++ [chunk], fun h => absurd rfl h, [], ?_, ?_, fun _ => rfl, ?_⟩
    · simp [hsent, PumpConfig.outMsg]
    · simpa [Reader.inHand] using hwritten
    · simpa [or_imp, forall_and, hchunk] using hne
  | some code =>
    refine ⟨before, fun _ => rfl, after ++ [chunk], ?_, ?_, (nomatch ·), ?_⟩
    · simp [hsent, PumpConfig.outMsg]
    · simpa [Reader.inHand] using hwritten
    · rw [← List.append_assoc]
      intro c hc
      rcases List.mem_append.mp hc with hc | hc
      · exact hne c hc
      · exact List.mem_singleton.mp hc ▸ hchunk

theorem Stage.Admits.exit (h : m.Admits .running) (code : Int) : m.Admits (.exited code) := by
  cases m with
  | building | notStarted => exact absurd h Child.noConfusion
  | reaped => exact ⟨code, rfl⟩
  | coded | exitSent | closed | ended =>
    obtain ⟨_, -, hc⟩ := h
    exact absurd hc Child.noConfusion
  | _ => exact Child.noConfusion

theorem Stage.Admits.exit_eq_none (h : m.Admits .running) : m.exit = none := by
  cases m with
  | exitSent | closed | ended =>
    obtain ⟨_, -, hc⟩ := h
    exact absurd hc Child.noConfusion
  | _ => rfl

/-- The callback of the in subscription has no part in the output. -/
theorem callback_onInFrame (data : GoString) (s : System) :
    System.callback (onInFrame data) s = s ∨
      System.callback (onInFrame data) s = { s with killed := true } := by
  unfold onInFrame
  split
  · exact .inl rfl
  · split_ifs
    · exact .inl rfl
    · split
      · exact .inl rfl
      · exact .inl rfl
    · exact .inr rfl
    · exact .inl rfl

/-- A step from `s` to `s'` in which `Run` takes no part and which leaves the session at its stage:
once the exit frame is sent, no output is added and none is counted as sent before it. -/
def Stays (cfg : PumpConfig) (m : Stage) (before : List GoString) (s s' : System) : Prop :=
  ∃ before', AtStage cfg m before' s' ∧ s'.main = s.main ∧
    (m.exit ≠ none → before' = before ∧ s'.written = s.written)

theorem AtStage.stays (h : AtStage cfg m before s) : Stays cfg m before s s :=
  ⟨before, h, rfl, fun _ => ⟨rfl, rfl⟩⟩

theorem AtStage.stays_childWrite (h : AtStage cfg m before s) (data : GoString) :
    Stays cfg m before s (s.step (.childWrite data)) := by
  simp only [System.step]
  split
  · rename_i hrunning
    have hexit : m.exit = none := Stage.Admits.exit_eq_none (hrunning.1 ▸ h.child)
    refine ⟨before, ⟨?_, h.published, h.reader, h.noReader, h.child, h.done, h.subscription⟩, rfl,
      fun hm => absurd hexit hm⟩
    obtain ⟨after, hsent, hwritten, hafter, hne⟩ := h.books
    exact ⟨after, hsent, by simp [hwritten], hafter, hne⟩
  · exact h.stays

theorem AtStage.stays_childExit (h : AtStage cfg m before s) (code : Int) :
    Stays cfg m before s (s.step (.childExit code)) := by
  simp only [System.step]
  split
  · rename_i hrunning
    have hchild : m.Admits (.exited code) := Stage.Admits.exit (hrunning ▸ h.child) code
    exact ⟨before, ⟨h.books, h.published, h.reader, h.noReader, hchild, fun _ => ⟨code, rfl⟩,
      h.subscription⟩, rfl, fun _ => ⟨rfl, rfl⟩⟩
  · exact h.stays

theorem AtStage.stays_waitReturns (h : AtStage cfg m before s) :
    Stays cfg m before s (s.step .waitReturns) := by
  simp only [System.step]
  split
  · rename_i code hcode
    split
    · exact ⟨before, ⟨h.books, h.published, h.reader, h.noReader, h.child, fun _ => ⟨code, hcode⟩,
        h.subscription⟩, rfl, fun _ => ⟨rfl, rfl⟩⟩
    · exact h.stays
  · exact h.stays

/-- The reader goroutine at a read: it goes on with what it holds, and returns with nothing. -/
theorem AtStage.stays_reader {subject : GoString} {r : Reader} {buffer : GoString}
    (h : AtStage cfg m before s) (hreading : s.reader = .reading subject)
    (hr : r.On cfg.outSub) (hway : r.inHand ++ buffer = s.buffer) :
    Stays cfg m before s { s with reader := r, buffer := buffer } := by
  refine ⟨before, ⟨?_, h.published, hr, fun hm => ?_, h.child, h.done, h.subscription⟩, rfl,
    fun _ => ⟨rfl, rfl⟩⟩
  · exact h.books.congr rfl rfl (by rw [hreading]; exact hway)
  · exact absurd (hreading.symm.trans (h.noReader hm)) Reader.noConfusion

theorem AtStage.stays_readerRead (h : AtStage cfg m before s) (n : Nat) :
    Stays cfg m before s (s.step (.readerRead n)) := by
  simp only [System.step, System.stepRead]
  split
  · rename_i subject hreading
    have hsubject : subject = cfg.outSub := by
      have hreader := h.reader
      rw [hreading] at hreader
      exact hreader
    split_ifs with hclosed hbuffer
    · exact h.stays_reader hreading trivial rfl
    · refine h.stays_reader hreading ⟨hsubject, fun htake => ?_⟩ (List.take_append_drop _ _)
      rcases List.take_eq_nil_iff.mp htake with hzero | hnil
      · omega
      · exact hbuffer hnil
    · split
      · exact h.stays_reader hreading trivial rfl
      · exact h.stays
  · exact h.stays

theorem AtStage.stays_readerPublish (h : AtStage cfg m before s) (err : Option GoError) :
    Stays cfg m before s (s.step (.readerPublish err)) := by
  simp only [System.step]
  split
  · rename_i subject chunk hholding
    have hreader := h.reader
    rw [hholding] at hreader
    obtain ⟨rfl, hchunk⟩ := hreader
    obtain ⟨before', heq, hbooks⟩ := h.books.publish hholding hchunk err
    have hpub := published_sublist_publish h.published cfg.outSub (outFrame chunk) err
    have hnone : ∀ {r : Reader}, m = .building ∨ m = .started → r = .absent := fun hm =>
      absurd (hholding.symm.trans (h.noReader hm)) Reader.noConfusion
    cases err with
    | none =>
      exact ⟨before', ⟨hbooks, hpub, rfl, hnone, h.child, h.done, h.subscription⟩, rfl,
        fun hm => ⟨heq hm, rfl⟩⟩
    | some e =>
      exact ⟨before', ⟨hbooks, hpub, rfl, hnone, h.child, h.done, h.subscription⟩, rfl,
        fun hm => ⟨heq hm, rfl⟩⟩
  · exact h.stays

theorem AtStage.stays_inFrame (h : AtStage cfg m before s) (data : GoString) :
    Stays cfg m before s (s.step (.inFrame data)) := by
  simp only [System.step]
  split
  · rcases callback_onInFrame data s with heq | heq
    · rw [heq]
      exact h.stays
    · rw [heq]
      exact ⟨before, ⟨h.books, h.published, h.reader, h.noReader, h.child, h.done, h.subscription⟩,
        rfl, fun _ => ⟨rfl, rfl⟩⟩
  · exact h.stays

theorem AtStage.stays_step (h : AtStage cfg m before s) (e : SessionEvent)
    (he : ∀ c, e ≠ .main c) : Stays cfg m before s (s.step e) := by
  cases e with
  | main c => exact absurd rfl (he c)
  | childWrite data => exact h.stays_childWrite data
  | childExit code => exact h.stays_childExit code
  | cancel =>
    exact ⟨before, ⟨h.books, h.published, h.reader, h.noReader, h.child, h.done, h.subscription⟩,
      rfl, fun _ => ⟨rfl, rfl⟩⟩
  | waitReturns => exact h.stays_waitReturns
  | readerRead n => exact h.stays_readerRead n
  | readerPublish err => exact h.stays_readerPublish err
  | inFrame data => exact h.stays_inFrame data

/-! ## Whole runs -/

/-- The invariant of a session: it is at a stage from which what is left of `Run` keeps to the
protocol. -/
def SystemInv (cfg : PumpConfig) (s : System) : Prop :=
  ∃ m before, Follows (Rule cfg) (Returns cfg) s.main m ∧ AtStage cfg m before s

/-- Nothing has gone wrong so far: neither `Subscribe` nor `Publish` has failed, and if the exit
frame is sent, it comes after all of the output. -/
def Intact (cfg : PumpConfig) (s : System) : Prop :=
  s.published = s.sent ∧ s.subscription ≠ .refused ∧
    ((∃ code, cfg.exitMsg code ∈ s.sent) → cfg.Complete s s.sent)

theorem Stage.Admits.of_exit {child : Child} {code : Int} (h : m.Admits child)
    (hexit : m.exit = some code) : child = .exited code := by
  cases m with
  | exitSent state err | closed state err | ended state err =>
    obtain ⟨code', rfl, hchild⟩ := h
    cases hexit
    exact hchild
  | _ => exact absurd hexit (by simp [Stage.exit])

/-- The stage tells whether the exit frame has been sent. -/
theorem AtStage.exit_sent_iff (h : AtStage cfg m before s) :
    (∃ code, cfg.exitMsg code ∈ s.sent) ↔ m.exit ≠ none := by
  obtain ⟨after, hsent, -, hafter, -⟩ := h.books
  cases hexit : m.exit with
  | none =>
    obtain rfl := hafter hexit
    refine iff_of_false (fun ⟨code, hcode⟩ => ?_) (fun h => h rfl)
    simp only [hsent, hexit, Option.toList_none, List.map_nil, List.append_nil, List.mem_map]
      at hcode
    obtain ⟨c, -, hc⟩ := hcode
    exact outMsg_ne_exitMsg c code hc
  | some code => exact iff_of_true ⟨code, by simp [hsent, hexit]⟩ (Option.some_ne_none code)

theorem AtStage.intact_iff (h : AtStage cfg m before s) :
    Intact cfg s ↔ s.published = s.sent ∧ m.Good before s.written := by
  unfold Intact Stage.Good
  rw [h.subscription, h.exit_sent_iff]
  refine and_congr_right fun _ => and_congr_right fun _ => forall_congr' fun hm => ?_
  obtain ⟨code, hexit⟩ := Option.ne_none_iff_exists'.mp hm
  have hbooks := h.books
  rw [hexit] at hbooks
  exact hbooks.complete_iff (h.child.of_exit hexit)

/-- Once `Run` has returned, the output of a child is intact if it has been delivered. -/
theorem AtStage.intact_iff_delivered {r : Option GoError} (h : AtStage cfg m before s)
    (hreturns : Returns cfg m r) (hstarted : s.child ≠ .absent) :
    Intact cfg s ↔ cfg.Delivered s := by
  have hpub : cfg.Delivered s → s.published = s.sent := h.books.published_eq_sent h.published
  have hexit : cfg.Delivered s → m.exit ≠ none := by
    intro hd
    have heq := hpub hd
    obtain ⟨chunks, code, -, hframes, -⟩ := hd
    exact h.exit_sent_iff.mp ⟨code, by simp [← heq, hframes]⟩
  cases hreturns with
  | build e invalid => exact absurd h.child hstarted
  | start e => exact absurd h.child hstarted
  | subscribe e => exact iff_of_false (fun hi => hi.2.1 h.subscription) fun hd => hexit hd rfl
  | ended state err =>
    obtain ⟨code, rfl, -⟩ := h.child
    have hlive : s.subscription ≠ .refused := by
      rw [h.subscription]
      exact Subscription.noConfusion
    have hsent := h.exit_sent_iff.mpr (Option.some_ne_none code)
    constructor
    · rintro ⟨heq, -, hcomplete⟩
      rw [PumpConfig.Delivered, heq]
      exact hcomplete hsent
    · intro hd
      have hcomplete : cfg.Complete s s.sent := hpub hd ▸ hd
      exact ⟨hpub hd, hlive, fun _ => hcomplete⟩

/-- A call keeps a good stage good, and everything published, exactly if it is in order. -/
theorem AtStage.good_iff {c : Choice} {op : pumpSig.Op} {x : pumpSig.Ans op}
    (h : AtStage cfg m before s) (hrule : Rule cfg m op x m')
    (hperform : System.perform c op s = some (x, s')) :
    s'.published = s'.sent ∧ m'.Good before s.written ↔
      (s.published = s.sent ∧ m.Good before s.written) ∧ s.OrderlyCall c op := by
  cases hrule with
  | exitFrame state err =>
    obtain ⟨code, rfl, -⟩ := h.child
    obtain ⟨after, -, hwritten, hafter, -⟩ := h.books
    obtain rfl := hafter rfl
    obtain ⟨herr, rfl⟩ := perform_publish hperform
    rw [published_eq_sent_publish_iff h.published, herr]
    simp only [Stage.Good, Stage.subscription, Stage.exit, System.OrderlyCall, hwritten]
    simp only [List.flatten_nil, List.nil_append, ne_eq, reduceCtorEq, not_false_eq_true, true_and,
      not_true_eq_false, forall_const, List.self_eq_append_right, List.append_eq_nil_iff, and_true,
      IsEmpty.forall_iff]
    tauto
  | subscribe =>
    have herr : c.err = none := (perform_subscribe hperform).1.symm
    obtain ⟨hpub, hsent⟩ := perform_frames hperform fun _ _ hop => by cases hop
    simp [hpub, hsent, Stage.Good, Stage.subscription, Stage.exit, System.OrderlyCall, herr]
  | subscribeFails e =>
    have herr : c.err = some e := (perform_subscribe hperform).1.symm
    simp [Stage.Good, Stage.subscription, System.OrderlyCall, herr]
  | _ =>
    obtain ⟨hpub, hsent⟩ := perform_frames hperform fun _ _ hop => by cases hop
    simp [hpub, hsent, Stage.Good, Stage.subscription, Stage.exit, System.OrderlyCall]

theorem orderlyCall_of_blocked {c : Choice} {op : pumpSig.Op}
    (hperform : System.perform c op s = none) : s.OrderlyCall c op := by
  cases op with
  | inl op => trivial
  | inr op =>
    cases op with
    | publish subject data => cases hperform
    | subscribe subject =>
      simp only [System.perform] at hperform
      split at hperform <;> cases hperform
    | _ => trivial

/-- A step in which `Run` takes no part publishes all that it sends exactly if it is orderly. -/
theorem AtStage.published_eq_sent_step_iff (h : AtStage cfg m before s) {e : SessionEvent}
    (he : ∀ c, e ≠ .main c) :
    (s.step e).published = (s.step e).sent ↔ s.published = s.sent ∧ s.Orderly e := by
  have hquiet : ∀ s' : System, s'.published = s.published → s'.sent = s.sent →
      (s'.published = s'.sent ↔ s.published = s.sent ∧ True) := by
    intro s' hpub hsent
    rw [hpub, hsent, and_true]
  cases e with
  | main c => exact absurd rfl (he c)
  | readerPublish err =>
    simp only [System.step]
    split
    · next subject chunk hholding =>
      have hreader := h.reader
      rw [hholding] at hreader
      refine (published_eq_sent_publish_iff h.published subject (outFrame chunk) err).trans
        (and_congr_right fun _ => ?_)
      cases err with
      | none => simp [System.Orderly]
      | some e => simp [System.Orderly, hholding, Reader.inHand, hreader.2]
    · next hnot =>
      have hnil : s.reader.inHand = [] := by
        unfold Reader.inHand
        split
        · next subject chunk hr => exact absurd hr (hnot subject chunk)
        · rfl
      cases err with
      | none => simp [System.Orderly]
      | some e => simp [System.Orderly, hnil]
  | childWrite data =>
    simp only [System.step]
    split <;> exact hquiet _ rfl rfl
  | childExit code =>
    simp only [System.step]
    split <;> exact hquiet _ rfl rfl
  | cancel => exact hquiet _ rfl rfl
  | waitReturns =>
    simp only [System.step]
    split
    · split <;> exact hquiet _ rfl rfl
    · exact hquiet _ rfl rfl
  | readerRead n =>
    simp only [System.step, System.stepRead]
    split
    · split_ifs
      · exact hquiet _ rfl rfl
      · exact hquiet _ rfl rfl
      · split <;> exact hquiet _ rfl rfl
    · exact hquiet _ rfl rfl
  | inFrame data =>
    simp only [System.step]
    split
    · rcases callback_onInFrame data s with heq | heq <;> rw [heq] <;> exact hquiet _ rfl rfl
    · exact hquiet _ rfl rfl

/-- A step of a session keeps the invariant, and it keeps the output intact exactly if it is
orderly. -/
theorem systemInv_step (s : System) (e : SessionEvent) (h : SystemInv cfg s) :
    SystemInv cfg (s.step e) ∧ (Intact cfg (s.step e) ↔ Intact cfg s ∧ s.Orderly e) := by
  obtain ⟨m, before, hmain, hat⟩ := h
  by_cases he : ∃ c, e = .main c
  · obtain ⟨c, rfl⟩ := he
    simp only [System.step, System.stepMain, System.Orderly]
    cases hprog : s.main with
    | ret r => exact ⟨⟨m, before, hmain, hat⟩, by simp⟩
    | call op k =>
      simp only
      cases hperform : System.perform c op s with
      | none =>
        have hcall := orderlyCall_of_blocked hperform
        exact ⟨⟨m, before, hmain, hat⟩, by simp [hcall]⟩
      | some res =>
        obtain ⟨x, s'⟩ := res
        rw [hprog] at hmain
        obtain ⟨m', hrule, hk⟩ := hmain x
        obtain ⟨hat', hwritten⟩ := hat.perform hrule hperform
        have hnext := hat'.withMain (k x)
        refine ⟨⟨m', before, hk, hnext⟩, ?_⟩
        rw [hnext.intact_iff, hat.intact_iff, ← hat.good_iff hrule hperform, ← hwritten]
  · have hpub := hat.published_eq_sent_step_iff fun c hc => he ⟨c, hc⟩
    obtain ⟨before', hat', hprog, hexit⟩ := hat.stays_step e fun c hc => he ⟨c, hc⟩
    refine ⟨⟨m, before', hprog ▸ hmain, hat'⟩, ?_⟩
    have hgood : m.Good before' (s.step e).written ↔ m.Good before s.written := by
      refine and_congr_right fun _ => forall_congr' fun hm => ?_
      rw [(hexit hm).1, (hexit hm).2]
    rw [hat'.intact_iff, hat.intact_iff, hpub, hgood, and_right_comm]

theorem systemInv_system (cfg : PumpConfig) (tree : Tree) : SystemInv cfg (cfg.system tree) := by
  refine ⟨.building, [], run_follows cfg, ?_⟩
  exact ⟨⟨[], rfl, rfl, fun _ => rfl, by simp⟩, List.Sublist.refl _, trivial, fun _ => rfl, rfl,
    (nomatch ·), rfl⟩

theorem systemInv_after (cfg : PumpConfig) (tree : Tree) (evs : List SessionEvent) :
    SystemInv cfg (cfg.after tree evs) :=
  List.foldlRecOn evs System.step (systemInv_system cfg tree)
    fun s hs e _ => (systemInv_step s e hs).1

/-- For every run of a session in which the child was started and `Run` has returned: the frames
published are the output of the child and then one exit frame if and only if, in each step of the
run, `Run` publishes only when no output is left in the pty or in the hands of the reader, and
neither `Subscribe` nor a `Publish` fails. -/
theorem delivered_iff_orderly (cfg : PumpConfig) (tree : Tree) (evs : List SessionEvent)
    {r : Option GoError} (hreturned : (cfg.after tree evs).main = .ret r)
    (hstarted : (cfg.after tree evs).child ≠ .absent) :
    cfg.Delivered (cfg.after tree evs) ↔
      Along System.step System.Orderly (cfg.system tree) evs := by
  have hrun : Intact cfg (cfg.after tree evs) ↔
      Intact cfg (cfg.system tree) ∧ Along System.step System.Orderly (cfg.system tree) evs :=
    foldl_iff_along (fun s e h => (systemInv_step s e h).1) (fun s e h => (systemInv_step s e h).2)
      (systemInv_system cfg tree)
  have hintact : Intact cfg (cfg.system tree) :=
    ⟨rfl, Subscription.noConfusion, fun ⟨_, h⟩ => absurd h List.not_mem_nil⟩
  obtain ⟨m, before, hmain, hat⟩ := systemInv_after cfg tree evs
  rw [hreturned] at hmain
  rw [← hat.intact_iff_delivered hmain hstarted, hrun, and_iff_right hintact]

/-- A shell that writes one byte; `output` is what happens between this and its exit. -/
def oneByteRun (output : List SessionEvent) : List SessionEvent :=
  List.replicate 9 (.main {}) ++ [.childWrite (lit "x")] ++ output ++
    [.childExit 0, .main {}, .waitReturns] ++ List.replicate 5 (.main {})

theorem delivered_oneByteRun :
    shellSession.Delivered
      (shellSession.after .empty (oneByteRun [.readerRead 4096, .readerPublish none])) :=
  (delivered_iff_orderly shellSession .empty (oneByteRun [.readerRead 4096, .readerPublish none])
    (r := none) rfl (by decide)).mpr (by decide)

/-- The child exits before the reader goroutine has run: the exit frame is all that is published,
and the pty is closed with the byte still in it. -/
theorem not_delivered_oneByteRun :
    decodeRequest (.ok shellSession.request) = .ok shellSession.request ∧
      (shellSession.after .empty (oneByteRun [])).main = .ret none ∧
      (shellSession.after .empty (oneByteRun [])).child = .exited 0 ∧
      ¬ shellSession.Delivered (shellSession.after .empty (oneByteRun [])) := by
  refine ⟨decodeRequest_shellSession, rfl, by decide, ?_⟩
  rintro ⟨chunks, code, -, hpub, hflat⟩
  have hone : (shellSession.after .empty (oneByteRun [])).published.length = 1 := by decide
  have hwritten : (shellSession.after .empty (oneByteRun [])).written = lit "x" := by decide
  have hnil : chunks = [] := by simpa [hpub] using hone
  rw [hnil, hwritten] at hflat
  exact absurd hflat (by decide)

end WeftAgent.ExecSession
