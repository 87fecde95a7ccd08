import WeftAgent.Sshd.Shell
import WeftAgent.Trace.Along

/-!
# The goroutines of a shell

`Shell.Moves` lists what a step can do. From it follow the invariant of a session (`Shell.Inv`), the
order of output and exit status, and which sessions can end without the client.
-/

namespace WeftAgent.Sshd.Shell

open WeftAgent.Go WeftAgent.Trace

variable {s s' : Shell} {e : ShellEvent}

/-! ## What a step can do -/

/-- The steps of a session, by what they do. -/
inductive Moves (s : Shell) : ShellEvent → Shell → Prop where
  | stays (e : ShellEvent) : Moves s e s
  | childWrite (data : GoString) (hrunning : s.child = .running) (hopen : s.masterOpen = true) :
    Moves s (.childWrite data) { s with buffer := s.buffer ++ data, written := s.written ++ data }
  | childExit (code : Int) (hrunning : s.child = .running) :
    Moves s (.childExit code) { s with child := .exited code }
  | clientData (data : GoString) (hopen : s.clientEOF = false) :
    Moves s (.clientData data) { s with received := s.received ++ data }
  | clientEOF : Moves s .clientEOF { s with clientEOF := true }
  | clientClose : Moves s .clientClose { s with clientEOF := true, clientClosed := true }
  | inTakes (n : Nat) (hin : s.inCopy = .reading) (hne : s.received ≠ []) :
    Moves s (.inRead n) { s with inCopy := .writing (s.received.take (chunkSize n))
                                 received := s.received.drop (chunkSize n) }
  | inEnds (n : Nat) (hin : s.inCopy = .reading) (hEOF : s.clientEOF = true) :
    Moves s (.inRead n) { s with inCopy := .returned, tokens := s.tokens + 1 }
  | inWrites (chunk : GoString) (hin : s.inCopy = .writing chunk) :
    Moves s .inWrite { s with inCopy := .reading }
  | inFails (chunk : GoString) (hin : s.inCopy = .writing chunk) :
    Moves s .inWrite { s with inCopy := .returned, tokens := s.tokens + 1 }
  | outTakes (n : Nat) (hout : s.outCopy = .reading) (hopen : s.masterOpen = true)
      (hne : s.buffer ≠ []) :
    Moves s (.outRead n) { s with outCopy := .writing (s.buffer.take (chunkSize n))
                                  buffer := s.buffer.drop (chunkSize n) }
  | outEnds (n : Nat) (hout : s.outCopy = .reading)
      (hend : s.masterOpen = false ∨ s.buffer = [] ∧ s.child ≠ .running) :
    Moves s (.outRead n) { s with outCopy := .returned, tokens := s.tokens + 1 }
  | outWrites (chunk : GoString) (hout : s.outCopy = .writing chunk) :
    Moves s .outWrite { s with outCopy := .reading, sent := s.sent ++ [.data chunk] }
  | outFails (chunk : GoString) (hout : s.outCopy = .writing chunk)
      (hclosed : s.clientClosed = true) :
    Moves s .outWrite { s with outCopy := .returned, tokens := s.tokens + 1 }
  | takesFirst (hteardown : s.teardown = .awaitFirst) (htokens : s.tokens ≠ 0) :
    Moves s .teardown { s with tokens := s.tokens - 1, teardown := .closePty }
  | closesPty (hteardown : s.teardown = .closePty) :
    Moves s .teardown { s with masterOpen := false, teardown := .awaitSecond }
  | takesSecond (hteardown : s.teardown = .awaitSecond) (htokens : s.tokens ≠ 0) :
    Moves s .teardown { s with tokens := s.tokens - 1, teardown := .wait }
  | reaps (hteardown : s.teardown = .wait) (code : Int) (hexited : s.child = .exited code) :
    Moves s .teardown { s with teardown := .sendStatus (exitStatusPayload code) }
  | sendsStatus (status : GoString) (hteardown : s.teardown = .sendStatus status) :
    Moves s .teardown { s with sent := s.sent ++ [.exitStatus status], teardown := .closeChannel }
  | closesChannel (hteardown : s.teardown = .closeChannel) :
    Moves s .teardown { s with sent := s.sent ++ [.close], teardown := .returned }

theorem moves_inRead (s : Shell) (n : Nat) : Moves s (.inRead n) (stepInRead n s) := by
  unfold stepInRead
  split
  · rename_i hin
    split_ifs with hne hEOF
    · exact .inTakes n hin hne
    · exact .inEnds n hin hEOF
    · exact .stays _
  · exact .stays _

theorem moves_inWrite (s : Shell) : Moves s .inWrite s.stepInWrite := by
  unfold stepInWrite
  split
  · rename_i chunk hin
    split_ifs
    · exact .inWrites chunk hin
    · exact .inFails chunk hin
  · exact .stays _

theorem moves_outRead (s : Shell) (n : Nat) : Moves s (.outRead n) (stepOutRead n s) := by
  unfold stepOutRead
  split
  · rename_i hout
    split_ifs with hclosed hne hrunning
    · exact .outEnds n hout (.inl hclosed)
    · exact .outTakes n hout (Bool.not_eq_false _ ▸ hclosed) hne
    · exact .stays _
    · exact .outEnds n hout (.inr ⟨not_not.mp hne, hrunning⟩)
  · exact .stays _

theorem moves_outWrite (s : Shell) : Moves s .outWrite s.stepOutWrite := by
  unfold stepOutWrite
  split
  · rename_i chunk hout
    split_ifs with hclosed
    · exact .outFails chunk hout hclosed
    · exact .outWrites chunk hout
  · exact .stays _

theorem moves_teardown (s : Shell) : Moves s .teardown s.stepTeardown := by
  unfold stepTeardown
  split
  · rename_i hteardown
    split_ifs with htokens
    · exact .stays _
    · exact .takesFirst hteardown htokens
  · exact .closesPty ‹_›
  · rename_i hteardown
    split_ifs with htokens
    · exact .stays _
    · exact .takesSecond hteardown htokens
  · rename_i hteardown
    split
    · exact .stays _
    · exact .reaps hteardown _ ‹_›
  · exact .sendsStatus _ ‹_›
  · exact .closesChannel ‹_›
  · exact .stays _

theorem moves_step (s : Shell) (e : ShellEvent) : Moves s e (s.step e) := by
  cases e with
  | childWrite data =>
    simp only [step]
    split_ifs with h
    · exact .childWrite data h.1 h.2
    · exact .stays _
  | childExit code =>
    simp only [step]
    split_ifs with h
    · exact .childExit code h
    · exact .stays _
  | clientData data =>
    simp only [step]
    split_ifs with h
    · exact .stays _
    · exact .clientData data (Bool.eq_false_iff.mpr h)
  | clientEOF => exact .clientEOF
  | clientClose => exact .clientClose
  | inRead n => exact moves_inRead s n
  | inWrite => exact moves_inWrite s
  | outRead n => exact moves_outRead s n
  | outWrite => exact moves_outWrite s
  | teardown => exact moves_teardown s

/-! ## The invariant -/

/-- Each copy puts one value into `done` when it returns. -/
def returns : Copy → Nat
  | .returned => 1
  | _ => 0

/-- The values that have been taken from `done`. -/
def taken : Teardown → Nat
  | .awaitFirst => 0
  | .closePty | .awaitSecond => 1
  | _ => 2

def beforeClose : Teardown → Bool
  | .awaitFirst | .closePty => true
  | _ => false

/-- What comes after the output on the channel. -/
def Tail : Teardown → List ChannelCall → Prop
  | .closeChannel, tail => ∃ status, tail = [.exitStatus status]
  | .returned, tail => ∃ status, tail = [.exitStatus status, .close]
  | _, tail => tail = []

@[simp] theorem payload_append (calls calls' : List ChannelCall) :
    payload (calls ++ calls') = payload calls ++ payload calls' := List.flatMap_append

@[simp] theorem payload_data (chunk : GoString) : payload [.data chunk] = chunk := by simp [payload]

@[simp] theorem payload_exitStatus (status : GoString) : payload [.exitStatus status] = [] := rfl

@[simp] theorem payload_close : payload [.close] = [] := rfl

/-- What holds in every session. A chunk that could not be written is `lost`; the output copy has
returned then. -/
structure Inv (s : Shell) : Prop where
  tokens : s.tokens + taken s.teardown = returns s.inCopy + returns s.outCopy
  master : s.masterOpen = beforeClose s.teardown
  sent : ∃ (chunks : List GoString) (tail : List ChannelCall),
    s.sent = chunks.map .data ++ tail ∧ Tail s.teardown tail
  books : ∃ lost, (s.outCopy ≠ .returned → lost = []) ∧
    s.written = payload s.sent ++ (lost ++ (s.outCopy.inHand ++ s.buffer))
  hand : ∀ chunk, s.outCopy = .writing chunk → chunk ≠ []

theorem inv_init : Inv {} :=
  ⟨rfl, rfl, ⟨[], [], rfl, rfl⟩, ⟨[], fun _ => rfl, rfl⟩, fun _ h => nomatch h⟩

/-- While the output copy is under way nothing but output is on the channel. -/
theorem Inv.tail_of_out (h : Inv s) (hout : s.outCopy ≠ .returned) {tail : List ChannelCall}
    (htail : Tail s.teardown tail) : tail = [] := by
  have htokens := h.tokens
  have hzero : returns s.outCopy = 0 := by
    cases hcopy : s.outCopy with
    | returned => exact absurd hcopy hout
    | _ => rfl
  have hone : returns s.inCopy ≤ 1 := by
    cases s.inCopy <;> simp [returns]
  cases hteardown : s.teardown with
  | awaitFirst | closePty | awaitSecond =>
    rw [hteardown] at htail
    exact htail
  | _ =>
    rw [hteardown] at htokens
    simp only [taken] at htokens
    omega

theorem take_chunkSize_ne_nil {n : Nat} {l : GoString} (h : l ≠ []) :
    l.take (chunkSize n) ≠ [] := by
  intro htake
  rcases List.take_eq_nil_iff.mp htake with hzero | hnil
  · unfold chunkSize at hzero
    omega
  · exact h hnil

theorem Inv.moves (h : Inv s) (hmoves : Moves s e s') : Inv s' := by
  obtain ⟨htokens, hmaster, hsent, ⟨lost, hlost, hwritten⟩, hhand⟩ := id h
  cases hmoves with
  | stays | childExit code | clientData data | clientEOF | clientClose =>
    exact ⟨htokens, hmaster, hsent, ⟨lost, hlost, hwritten⟩, hhand⟩
  | childWrite data =>
    refine ⟨htokens, hmaster, hsent, ⟨lost, hlost, ?_⟩, hhand⟩
    simp [hwritten]
  | inTakes n hin | inWrites chunk hin =>
    refine ⟨?_, hmaster, hsent, ⟨lost, hlost, hwritten⟩, hhand⟩
    rw [hin] at htokens
    exact htokens
  | inEnds n hin | inFails chunk hin =>
    refine ⟨?_, hmaster, hsent, ⟨lost, hlost, hwritten⟩, hhand⟩
    simp only [hin, returns] at htokens ⊢
    omega
  | outTakes n hout hopen hne =>
    have hnil : lost = [] := hlost (by simp [hout])
    refine ⟨?_, hmaster, hsent, ⟨[], fun _ => rfl, ?_⟩, ?_⟩
    · rw [hout] at htokens
      exact htokens
    · simp [hwritten, hnil, hout, Copy.inHand]
    · rintro chunk ⟨⟩
      exact take_chunkSize_ne_nil hne
  | outEnds n hout =>
    refine ⟨?_, hmaster, hsent, ⟨lost, fun h => absurd rfl h, ?_⟩, fun _ h => nomatch h⟩
    · simp only [hout, returns] at htokens ⊢
      omega
    · rw [hout] at hwritten
      exact hwritten
  | outWrites chunk hout =>
    have hnil : lost = [] := hlost (by simp [hout])
    refine ⟨?_, hmaster, ?_, ⟨[], fun _ => rfl, ?_⟩, fun _ h => nomatch h⟩
    · rw [hout] at htokens
      exact htokens
    · obtain ⟨chunks, tail, hsent, htail⟩ := hsent
      obtain rfl := h.tail_of_out (by simp [hout]) htail
      exact ⟨chunks ++ [chunk], [], by simp [hsent], htail⟩
    · simp [hwritten, hnil, hout, Copy.inHand]
  | outFails chunk hout =>
    have hnil : lost = [] := hlost (by simp [hout])
    refine ⟨?_, hmaster, hsent, ⟨chunk, fun h => absurd rfl h, ?_⟩, fun _ h => nomatch h⟩
    · simp only [hout, returns] at htokens ⊢
      omega
    · simp [hwritten, hnil, hout, Copy.inHand]
  | takesFirst hteardown hne | takesSecond hteardown hne =>
    rw [hteardown] at htokens hmaster hsent
    refine ⟨?_, hmaster, hsent, ⟨lost, hlost, hwritten⟩, hhand⟩
    simp only [taken] at htokens ⊢
    omega
  | closesPty hteardown =>
    rw [hteardown] at htokens hsent
    exact ⟨htokens, rfl, hsent, ⟨lost, hlost, hwritten⟩, hhand⟩
  | reaps hteardown code =>
    rw [hteardown] at htokens hmaster hsent
    exact ⟨htokens, hmaster, hsent, ⟨lost, hlost, hwritten⟩, hhand⟩
  | sendsStatus status hteardown =>
    rw [hteardown] at htokens hmaster hsent
    obtain ⟨chunks, tail, hsent, rfl⟩ := hsent
    refine ⟨htokens, hmaster, ⟨chunks, _, ?_, status, rfl⟩, ⟨lost, hlost, ?_⟩, hhand⟩
    · simp [hsent]
    · simp [hwritten]
  | closesChannel hteardown =>
    rw [hteardown] at htokens hmaster hsent
    obtain ⟨chunks, tail, hsent, status, rfl⟩ := hsent
    refine ⟨htokens, hmaster, ⟨chunks, _, ?_, status, rfl⟩, ⟨lost, hlost, ?_⟩, hhand⟩
    · simp [hsent]
    · simp [hwritten]

theorem Inv.step (h : Inv s) (e : ShellEvent) : Inv (s.step e) := h.moves (moves_step s e)

theorem inv_after (evs : List ShellEvent) : Inv (after evs) :=
  List.foldlRecOn evs Shell.step inv_init fun _ h e _ => h.step e

/-- Nothing takes a second value from `done` before both copies have returned. -/
theorem Inv.returned_of_taken (h : Inv s) (htaken : taken s.teardown = 2) :
    s.inCopy = .returned ∧ s.outCopy = .returned := by
  have htokens := h.tokens
  cases hin : s.inCopy with
  | returned =>
    cases hout : s.outCopy with
    | returned => exact ⟨rfl, rfl⟩
    | _ =>
      simp only [hin, hout, returns] at htokens
      omega
  | _ =>
    cases hout : s.outCopy <;> simp only [hin, hout, returns] at htokens <;> omega

/-- The exit status is sent only after both values are taken from `done`. -/
theorem Inv.taken_of_exitStatus (h : Inv s) {status : GoString}
    (hstatus : .exitStatus status ∈ s.sent) : taken s.teardown = 2 := by
  obtain ⟨chunks, tail, hsent, htail⟩ := h.sent
  cases hteardown : s.teardown with
  | awaitFirst | closePty | awaitSecond =>
    rw [hteardown] at htail
    obtain rfl := htail
    simp [hsent] at hstatus
  | _ => rfl

/-! ## Output and exit status -/

/-- Nothing is lost: what the child has written is on the channel, in the hands of the output copy
or in the pty, and nothing is left in a pty that is closed. -/
def Lossless (s : Shell) : Prop :=
  s.written = payload s.sent ++ (s.outCopy.inHand ++ s.buffer) ∧
    (s.masterOpen = false → s.buffer = [])

/-- As long as the output copy is under way, nothing is lost on the way to the channel. -/
theorem Inv.written_of_out (h : Inv s) (hout : s.outCopy ≠ .returned) :
    s.written = payload s.sent ++ (s.outCopy.inHand ++ s.buffer) := by
  obtain ⟨lost, hlost, hwritten⟩ := h.books
  rw [hwritten, hlost hout, List.nil_append]

theorem lossless_outWrite_iff (h : Inv s) :
    (s.step .outWrite).Lossless ↔ s.Lossless ∧ s.LosesNothing .outWrite := by
  simp only [Shell.step, stepOutWrite, LosesNothing]
  cases hout : s.outCopy with
  | reading | returned => simp [Copy.inHand]
  | writing chunk =>
    have hwritten := h.written_of_out (by simp [hout])
    have hchunk : chunk ≠ [] := h.hand chunk hout
    rw [hout] at hwritten
    simp only [Copy.inHand] at hwritten ⊢
    split_ifs with hclosed
    · -- the chunk is dropped: from now on it is missing
      refine iff_of_false ?_ (fun hs => absurd hclosed (by simp [hs.2 hchunk]))
      rintro ⟨hwritten', -⟩
      rw [hwritten] at hwritten'
      simp only [Copy.inHand, List.nil_append] at hwritten'
      exact hchunk (List.append_left_eq_self.mp (List.append_cancel_left hwritten'))
    · simp only [Lossless, hout, Copy.inHand, payload_append, payload_data, hwritten]
      simp [hclosed]

theorem lossless_teardown_iff (h : Inv s) :
    (s.step .teardown).Lossless ↔ s.Lossless ∧ s.LosesNothing .teardown := by
  have hmaster := h.master
  simp only [Shell.step, stepTeardown, LosesNothing]
  cases hteardown : s.teardown with
  | awaitFirst | awaitSecond => split_ifs <;> simp [Lossless]
  | closePty =>
    rw [hteardown] at hmaster
    have hopen : s.masterOpen = true := hmaster
    simp [Lossless, hopen]
  | wait => cases s.child <;> simp [Lossless]
  | sendStatus | closeChannel | returned => simp [Lossless]

/-- The other steps lose nothing. -/
theorem lossless_moves_iff (hmoves : Moves s e s') (hwrite : e ≠ .outWrite)
    (hteardown : e ≠ .teardown) : s'.Lossless ↔ s.Lossless := by
  cases hmoves with
  | outWrites | outFails => exact absurd rfl hwrite
  | takesFirst | closesPty | takesSecond | reaps | sendsStatus | closesChannel =>
    exact absurd rfl hteardown
  | stays | childExit | clientData | clientEOF | clientClose | inTakes | inEnds | inWrites
  | inFails => exact Iff.rfl
  | childWrite data hrunning hopen =>
    have hbooks : s.written ++ data = payload s.sent ++ (s.outCopy.inHand ++ (s.buffer ++ data)) ↔
        s.written = payload s.sent ++ (s.outCopy.inHand ++ s.buffer) := by
      rw [← List.append_assoc s.outCopy.inHand, ← List.append_assoc (payload s.sent),
        List.append_left_inj]
    simp only [Lossless, hbooks, hopen]
    simp
  | outTakes n hout hopen hne => simp [Lossless, hout, hopen, Copy.inHand]
  | outEnds n hout hend => simp [Lossless, hout, Copy.inHand]

/-- A step keeps the output whole exactly when it is one of those that lose nothing. -/
theorem lossless_step_iff (h : Inv s) (e : ShellEvent) :
    (s.step e).Lossless ↔ s.Lossless ∧ s.LosesNothing e := by
  cases e with
  | outWrite => exact lossless_outWrite_iff h
  | teardown => exact lossless_teardown_iff h
  | _ =>
    refine Iff.trans ?_ (and_iff_left trivial).symm
    exact lossless_moves_iff (moves_step s _) ShellEvent.noConfusion ShellEvent.noConfusion

theorem payload_of_tail {teardown : Teardown} {tail : List ChannelCall} (h : Tail teardown tail) :
    payload tail = [] := by
  cases teardown with
  | closeChannel | returned =>
    obtain ⟨status, rfl⟩ := h
    rfl
  | _ =>
    obtain rfl := h
    rfl

theorem Inv.payload_after_exitStatus (h : Inv s) {before rest : List ChannelCall}
    {status : GoString} (hsent : s.sent = before ++ .exitStatus status :: rest) :
    payload before = payload s.sent := by
  obtain ⟨chunks, tail, hsent', htail⟩ := h.sent
  have hrest : payload (.exitStatus status :: rest) = [] := by
    rcases List.append_eq_append_iff.mp (hsent.symm.trans hsent') with
      ⟨mid, hchunks, hmid⟩ | ⟨mid, -, hmid⟩
    · cases mid with
      | nil =>
        rw [hmid]
        exact payload_of_tail htail
      | cons call mid =>
        -- the exit status would be among the output
        obtain ⟨rfl, -⟩ := List.cons.inj hmid
        have hmem : ChannelCall.exitStatus status ∈ chunks.map .data := by simp [hchunks]
        simp at hmem
    · have hnil := payload_of_tail htail
      rw [hmid, payload_append] at hnil
      exact (List.append_eq_nil_iff.mp hnil).2
  rw [hsent, payload_append, hrest, List.append_nil]

/-- When all of the output is on the channel, none is left in the pty or in the hands of the output
copy. -/
theorem Inv.nothing_left (h : Inv s) (hcopied : payload s.sent = s.written) :
    s.buffer = [] ∧ ∀ chunk, s.outCopy ≠ .writing chunk := by
  obtain ⟨lost, -, hwritten⟩ := h.books
  rw [hcopied] at hwritten
  have hnil := List.self_eq_append_right.mp hwritten
  simp only [List.append_eq_nil_iff] at hnil
  refine ⟨hnil.2.2, fun chunk hout => h.hand chunk hout ?_⟩
  rw [hout] at hnil
  exact hnil.2.1

/-- When the exit status has been sent, all of the output is before it exactly if nothing has been
lost. -/
theorem Inv.outputBeforeStatus_iff_lossless (h : Inv s) {status : GoString}
    (hstatus : .exitStatus status ∈ s.sent) : s.OutputBeforeStatus ↔ s.Lossless := by
  have htaken := h.taken_of_exitStatus hstatus
  obtain ⟨-, hout⟩ := h.returned_of_taken htaken
  have hclosed : s.masterOpen = false := by
    rw [h.master]
    cases hteardown : s.teardown <;> simp [hteardown, taken, beforeClose] at htaken ⊢
  constructor
  · intro hbefore
    obtain ⟨before, rest, hsent⟩ := List.append_of_mem hstatus
    have hcopied : payload s.sent = s.written := by
      rw [← h.payload_after_exitStatus hsent]
      exact hbefore before status rest hsent
    obtain ⟨hbuffer, -⟩ := h.nothing_left hcopied
    refine ⟨?_, fun _ => hbuffer⟩
    simp [hcopied, hout, hbuffer, Copy.inHand]
  · rintro ⟨hwritten, hbuffer⟩ before status' rest hsent
    rw [h.payload_after_exitStatus hsent, hwritten, hout, hbuffer hclosed]
    simp [Copy.inHand]

/-- The calls that are left of the goroutine that ends the session. -/
def rank : Teardown → Nat
  | .awaitFirst => 6
  | .closePty => 5
  | .awaitSecond => 4
  | .wait => 3
  | .sendStatus _ => 2
  | .closeChannel => 1
  | .returned => 0

/-- The session needs nothing but the goroutine that ends it. -/
structure Ending (s : Shell) : Prop where
  inv : Inv s
  input : s.inCopy = .returned
  output : s.outCopy = .returned
  exited : s.child ≠ .running

theorem Ending.step (h : Ending s) :
    Ending (s.step .teardown) ∧ rank (s.step .teardown).teardown = rank s.teardown - 1 := by
  have hinv := h.inv.step .teardown
  have htokens := h.inv.tokens
  obtain ⟨-, hin, hout, hexited⟩ := id h
  rw [hin, hout] at htokens
  simp only [Shell.step, stepTeardown] at hinv ⊢
  cases hteardown : s.teardown with
  | awaitFirst | awaitSecond =>
    simp only [hteardown] at hinv htokens ⊢
    have hne : s.tokens ≠ 0 := by
      simp only [taken, returns] at htokens
      omega
    rw [if_neg hne] at hinv ⊢
    exact ⟨⟨hinv, hin, hout, hexited⟩, rfl⟩
  | wait =>
    simp only [hteardown] at hinv ⊢
    cases hchild : s.child with
    | running => exact absurd hchild hexited
    | exited code =>
      simp only [hchild] at hinv ⊢
      exact ⟨⟨hinv, hin, hout, by simp⟩, rfl⟩
  | _ =>
    simp only [hteardown] at hinv ⊢
    exact ⟨⟨hinv, hin, hout, hexited⟩, rfl⟩

theorem Ending.steps (h : Ending s) (n : Nat) :
    Ending ((List.replicate n ShellEvent.teardown).foldl Shell.step s) ∧
      rank ((List.replicate n ShellEvent.teardown).foldl Shell.step s).teardown =
        rank s.teardown - n := by
  induction n generalizing s with
  | zero => exact ⟨h, rfl⟩
  | succ n ih =>
    obtain ⟨hnext, hrank⟩ := h.step
    obtain ⟨hlast, hrank'⟩ := ih hnext
    rw [List.replicate_succ, List.foldl_cons]
    refine ⟨hlast, ?_⟩
    rw [hrank', hrank]
    omega

/-- Six calls of that goroutine are enough for it to return. -/
theorem Ending.returns (h : Ending s) :
    ((List.replicate 6 ShellEvent.teardown).foldl Shell.step s).teardown = .returned := by
  obtain ⟨-, hrank⟩ := h.steps 6
  have hle : rank s.teardown ≤ 6 := by cases s.teardown <;> simp [rank]
  have hzero : rank ((List.replicate 6 ShellEvent.teardown).foldl Shell.step s).teardown = 0 := by
    omega
  generalize ((List.replicate 6 ShellEvent.teardown).foldl Shell.step s).teardown = t at hzero ⊢
  cases t with
  | returned => rfl
  | _ => cases hzero

/-- The session is finished when the goroutine that ends it has returned. -/
theorem Inv.finished_iff (h : Inv s) : s.Finished ↔ s.teardown = .returned := by
  obtain ⟨chunks, tail, hsent, htail⟩ := h.sent
  constructor
  · rintro ⟨before, status, hfinished⟩
    have hlast : (chunks.map ChannelCall.data ++ tail).getLast? = some .close := by
      rw [← hsent, hfinished]
      simp
    cases hteardown : s.teardown with
    | returned => rfl
    | closeChannel =>
      rw [hteardown] at htail
      obtain ⟨status', rfl⟩ := htail
      simp at hlast
    | _ =>
      rw [hteardown] at htail
      obtain rfl := htail
      simp [List.getLast?_map] at hlast
  · intro hreturned
    rw [hreturned] at htail
    obtain ⟨status, rfl⟩ := htail
    exact ⟨_, status, hsent⟩

theorem outRead_returns (h : Inv s) (hexited : s.child ≠ .running)
    (hcopied : payload s.sent = s.written) :
    (s.step (.outRead 1)).outCopy = .returned ∧ (s.step (.outRead 1)).child = s.child ∧
      ((s.step (.outRead 1)).WaitsForClient ↔ s.WaitsForClient) := by
  obtain ⟨hbuffer, hhand⟩ := h.nothing_left hcopied
  simp only [Shell.step, stepOutRead]
  cases hout : s.outCopy with
  | reading =>
    simp only [hbuffer, ne_eq, not_true_eq_false, if_false, if_neg hexited]
    split_ifs <;> exact ⟨rfl, rfl, Iff.rfl⟩
  | writing chunk => exact absurd hout (hhand chunk)
  | returned => exact ⟨hout, rfl, Iff.rfl⟩

/-- An input copy that does not wait for the client leaves its read. -/
theorem inRead_leaves (hwaits : ¬ s.WaitsForClient) :
    (s.step (.inRead 1)).inCopy ≠ .reading ∧ (s.step (.inRead 1)).outCopy = s.outCopy ∧
      (s.step (.inRead 1)).child = s.child := by
  simp only [Shell.step, stepInRead]
  cases hin : s.inCopy with
  | reading =>
    simp only
    split_ifs with hne hEOF
    · exact ⟨Copy.noConfusion, rfl, rfl⟩
    · exact ⟨Copy.noConfusion, rfl, rfl⟩
    · exact absurd ⟨hin, not_not.mp hne, Bool.eq_false_iff.mpr hEOF⟩ hwaits
  | writing chunk => exact ⟨by simp [hin], rfl, rfl⟩
  | returned => exact ⟨by simp [hin], rfl, rfl⟩

/-- A write to the pty of a child that has exited ends the input copy. -/
theorem inWrite_returns (hexited : s.child ≠ .running) (hin : s.inCopy ≠ .reading) :
    (s.step .inWrite).inCopy = .returned ∧ (s.step .inWrite).outCopy = s.outCopy ∧
      (s.step .inWrite).child = s.child := by
  simp only [Shell.step, stepInWrite]
  cases hcopy : s.inCopy with
  | reading => exact absurd hcopy hin
  | writing chunk =>
    rw [if_neg fun hok => hexited hok.2]
    exact ⟨rfl, rfl, rfl⟩
  | returned => exact ⟨hcopy, rfl, rfl⟩

/-- When the child has exited and all of its output is on the channel, three steps of the copies are
enough for both to return, unless the input copy waits for the client. -/
theorem ending_of_not_waits (h : Inv s) (hexited : s.child ≠ .running)
    (hcopied : payload s.sent = s.written) (hwaits : ¬ s.WaitsForClient) :
    Ending ([ShellEvent.outRead 1, .inRead 1, .inWrite].foldl Shell.step s) := by
  obtain ⟨hout₁, hchild₁, hwaits₁⟩ := outRead_returns h hexited hcopied
  obtain ⟨hin₂, hout₂, hchild₂⟩ := inRead_leaves (mt hwaits₁.mp hwaits)
  rw [hchild₁] at hchild₂
  obtain ⟨hin₃, hout₃, hchild₃⟩ := inWrite_returns (hchild₂.symm ▸ hexited) hin₂
  rw [hout₂, hout₁] at hout₃
  rw [hchild₂] at hchild₃
  have hinv := ((h.step (.outRead 1)).step (.inRead 1)).step .inWrite
  exact ⟨hinv, hin₃, hout₃, hchild₃.symm ▸ hexited⟩

/-- The server alone does not end the wait for the client. -/
theorem WaitsForClient.moves (h : s.WaitsForClient) (hserver : e.ofServer = true)
    (hmoves : Moves s e s') : s'.WaitsForClient := by
  obtain ⟨hin, hreceived, hEOF⟩ := h
  cases hmoves with
  | childWrite data | childExit code | clientData data | clientEOF | clientClose => cases hserver
  | inTakes n _ hne => exact absurd hreceived hne
  | inEnds n _ hEOF' => exact absurd hEOF' (by simp [hEOF])
  | inWrites chunk hin' | inFails chunk hin' => exact absurd (hin.symm.trans hin') Copy.noConfusion
  | _ => exact ⟨hin, hreceived, hEOF⟩

/-- While the input copy waits for the client, the session does not end. -/
theorem not_finished_of_waits (h : Inv s) (hwaits : s.WaitsForClient) {steps : List ShellEvent}
    (hserver : ∀ e ∈ steps, e.ofServer = true) : ¬ (steps.foldl Shell.step s).Finished := by
  induction steps generalizing s with
  | nil =>
    intro hfinished
    have hreturned : taken s.teardown = 2 := by rw [h.finished_iff.mp hfinished]; rfl
    exact absurd (hwaits.1.symm.trans (h.returned_of_taken hreturned).1) Copy.noConfusion
  | cons e steps ih =>
    have hnext := hwaits.moves (hserver e List.mem_cons_self) (moves_step s e)
    exact ih (h.step e) hnext fun e' he' => hserver e' (List.mem_cons_of_mem _ he')

end WeftAgent.Sshd.Shell
