import WeftAgent.Effect.Protocol
import WeftAgent.ExecSession.Pump

/-!
# The exit frame of an exec session

The order of the calls of `Run` is stated once, as a protocol (`Rule`) that `Run` follows
(`run_follows`). The number of exit frames follows from the protocol alone.
-/

namespace WeftAgent.ExecSession

open WeftAgent.Go WeftAgent.Effect WeftAgent.Fs

/-! ## The protocol of `Run` -/

inductive Stage where
  | building
  | notStarted
  | started
  | reading
  | refused
  | refusedClosed
  | subscribed
  | waiting
  | cancelling
  | reaped
  /-- The exit code has been read. -/
  | coded (state : Option Int)
  /-- `Publish` has answered for the exit frame. -/
  | exitSent (state : Option Int) (err : Option GoError)
  | closed (state : Option Int) (err : Option GoError)
  | ended (state : Option Int) (err : Option GoError)
  deriving DecidableEq, Repr

/-- The calls of `Run` stage by stage. -/
inductive Rule (cfg : PumpConfig) : Stage → (op : pumpSig.Op) → pumpSig.Ans op → Stage → Prop where
  | build (op : FsOp) (x : op.Ans) : Rule cfg .building (.inl op) x .building
  | start (cmd : Cmd) : Rule cfg .building (.inr (.ptyStart cmd)) none .started
  | startFails (cmd : Cmd) (e : GoError) :
    Rule cfg .building (.inr (.ptyStart cmd)) (some e) .notStarted
  | setsize (cols rows : UInt16) : Rule cfg .started (.inr (.setsize cols rows)) () .started
  | goReader : Rule cfg .started (.inr (.goReader cfg.outSub)) () .reading
  | subscribe : Rule cfg .reading (.inr (.subscribe cfg.inSub)) none .subscribed
  | subscribeFails (e : GoError) : Rule cfg .reading (.inr (.subscribe cfg.inSub)) (some e) .refused
  | killRefused : Rule cfg .refused (.inr .kill) () .refused
  | closeRefused : Rule cfg .refused (.inr .closePty) () .refusedClosed
  | goWait : Rule cfg .subscribed (.inr .goWait) () .waiting
  | ctxDone : Rule cfg .waiting (.inr .select) .ctxDone .cancelling
  | childDone : Rule cfg .waiting (.inr .select) .childDone .reaped
  | killCancelled : Rule cfg .cancelling (.inr .kill) () .cancelling
  | recvDone : Rule cfg .cancelling (.inr .recvDone) () .reaped
  | exitCode (state : Option Int) : Rule cfg .reaped (.inr .exitCode) state (.coded state)
  | exitFrame (state : Option Int) (err : Option GoError) :
    Rule cfg (.coded state) (.inr (.publish cfg.outSub (exitFrame (wireCode state)))) err
      (.exitSent state err)
  | close (state : Option Int) (err : Option GoError) :
    Rule cfg (.exitSent state err) (.inr .closePty) () (.closed state err)
  | unsubscribe (state : Option Int) (err : Option GoError) :
    Rule cfg (.closed state err) (.inr .unsubscribe) () (.ended state err)

/-- The stages at which `Run` returns; only the last one is reached without an error. -/
inductive Returns (cfg : PumpConfig) : Stage → Option GoError → Prop where
  | build (e : GoError) (invalid : cfg.request.validate ≠ none) : Returns cfg .building (some e)
  | start (e : GoError) : Returns cfg .notStarted (some e)
  | subscribe (e : GoError) : Returns cfg .refusedClosed (some e)
  | ended (state : Option Int) (err : Option GoError) : Returns cfg (.ended state err) none

variable {cfg : PumpConfig}

theorem finish_follows : Follows (Rule cfg) (Returns cfg) cfg.finish .reaped :=
  fun state => ⟨_, .exitCode state, fun err => ⟨_, .exitFrame state err, fun _ =>
    ⟨_, .close state err, fun _ => ⟨_, .unsubscribe state err, .ended state err⟩⟩⟩⟩

theorem awaitExit_follows : Follows (Rule cfg) (Returns cfg) cfg.awaitExit .subscribed := by
  refine fun _ => ⟨_, .goWait, fun selected => ?_⟩
  cases selected with
  | ctxDone =>
    exact ⟨_, .ctxDone, fun _ => ⟨_, .killCancelled, fun _ => ⟨_, .recvDone, finish_follows⟩⟩⟩
  | childDone => exact ⟨_, .childDone, finish_follows⟩

theorem bridge_follows : Follows (Rule cfg) (Returns cfg) cfg.bridge .started := by
  refine fun _ => ⟨_, .goReader, fun err => ?_⟩
  cases err with
  | some e =>
    exact ⟨_, .subscribeFails e, fun _ => ⟨_, .killRefused, fun _ => ⟨_, .closeRefused,
      .subscribe _⟩⟩⟩
  | none => exact ⟨_, .subscribe, awaitExit_follows⟩

theorem launch_follows (cmd : Cmd) :
    Follows (Rule cfg) (Returns cfg) (cfg.launch cmd) .building := by
  intro err
  cases err with
  | some e => exact ⟨_, .startFails cmd e, .start _⟩
  | none =>
    refine ⟨_, .start cmd, ?_⟩
    show Follows _ _ (ite _ _ _) _
    split
    · exact fun _ => ⟨_, .setsize _ _, bridge_follows⟩
    · exact bridge_follows

/-- `buildCommand` fails only for a kind that `Validate` refuses. -/
theorem buildCommand_issues (r : ExecRequest) :
    Issues (fun _ _ => True) (fun _ => True) (fun res => ∀ e, res = .error e → r.validate ≠ none)
      (buildCommand r.target) := by
  unfold buildCommand
  split
  · refine (issues_true _).bind fun shell _ => (issues_true _).bind fun dir _ => ?_
    exact fun e he => nomatch he
  split
  · refine (issues_true _).bind fun dir _ => ?_
    exact fun e he => nomatch he
  · rename_i hshell hexec
    intro e _
    unfold ExecRequest.validate
    split_ifs
    · exact Option.some_ne_none _
    · exact Option.some_ne_none _

theorem run_follows (cfg : PumpConfig) : Follows (Rule cfg) (Returns cfg) cfg.run .building := by
  refine (Follows.left .build (buildCommand_issues cfg.request)).bind ?_
  rintro m res ⟨rfl, hres⟩
  cases res with
  | error e => exact .build e (hres e rfl)
  | ok cmd => exact launch_follows cmd

/-! ## Exit frames -/

def Stage.exits : Stage → Nat
  | .exitSent _ err | .closed _ err | .ended _ err => if err.isNone then 1 else 0
  | _ => 0

def Stage.failed : Stage → Bool
  | .notStarted | .refused | .refusedClosed => true
  | .exitSent _ err | .closed _ err | .ended _ err => err.isSome
  | _ => false

theorem exits_of_rule {m m' : Stage} {op : pumpSig.Op} {x : pumpSig.Ans op}
    (h : Rule cfg m op x m') :
    m'.exits = m.exits + if cfg.publishesExit ⟨op, x⟩ then 1 else 0 := by
  cases h with
  | exitFrame state err => simp [Stage.exits, PumpConfig.publishesExit, exitFrame]
  | _ => rfl

theorem failed_of_rule {m m' : Stage} {op : pumpSig.Op} {x : pumpSig.Ans op}
    (h : Rule cfg m op x m') : m'.failed = false ↔ m.failed = false ∧ succeeds ⟨op, x⟩ := by
  cases h with
  | start cmd => exact iff_of_true rfl ⟨rfl, rfl⟩
  | subscribe => exact iff_of_true rfl ⟨rfl, rfl⟩
  | exitFrame state err => simp [Stage.failed, succeeds, Option.isSome_eq_false_iff]
  | _ => simp [Stage.failed, succeeds]

/-- The exit frames and the failures among the calls of `Run`, from the stage at which it
returns. -/
theorem run_calls (cfg : PumpConfig) {S : Type} (h : Handler pumpSig S) (s : S) :
    ∃ m, Returns cfg m (run h cfg.run s).1 ∧ cfg.exitFrames (log h cfg.run s) = m.exits ∧
      ((∀ c ∈ log h cfg.run s, succeeds c) ↔ m.failed = false) := by
  have hrun := (run_follows cfg).log (h := h) (s := s) (l := [])
    (I := fun m l => cfg.exitFrames l = m.exits ∧ ((∀ c ∈ l, succeeds c) ↔ m.failed = false))
  refine hrun ?_ ⟨rfl, by simp [Stage.failed]⟩
  rintro m op x m' l ⟨hexits, hfailed⟩ hrule
  constructor
  · rw [exits_of_rule hrule, ← hexits]
    simp only [PumpConfig.exitFrames, List.countP_append, List.countP_singleton]
  · rw [failed_of_rule hrule, ← hfailed]
    simp only [List.forall_mem_append, List.forall_mem_singleton]

theorem validate_of_decodeRequest {unmarshalled : Except GoError ExecRequest} {r : ExecRequest}
    (h : decodeRequest unmarshalled = .ok r) : r.validate = none := by
  unfold decodeRequest at h
  split at h
  · cases h
  · split at h
    · cases h
    · rename_i r' hvalid
      cases h
      exact hvalid

/-- `Run` on an accepted request publishes exactly one exit frame if and only if neither `pty.Start`
nor `Subscribe` nor the `Publish` of the frame fails. -/
theorem run_publishes_one_exitFrame_iff {unmarshalled : Except GoError ExecRequest}
    (haccepted : decodeRequest unmarshalled = .ok cfg.request) {S : Type} (h : Handler pumpSig S)
    (s : S) :
    cfg.exitFrames (log h cfg.run s) = 1 ↔ ∀ c ∈ log h cfg.run s, succeeds c := by
  obtain ⟨m, hreturns, hexits, hfailed⟩ := run_calls cfg h s
  rw [hexits, hfailed]
  generalize (run h cfg.run s).1 = r at hreturns
  cases hreturns with
  | build e invalid => exact absurd (validate_of_decodeRequest haccepted) invalid
  | start e => simp [Stage.exits, Stage.failed]
  | subscribe e => simp [Stage.exits, Stage.failed]
  | ended state err => cases err <;> simp [Stage.exits, Stage.failed]

/-- A shell on a system where `pty.Start` has the outcome `startErr` and everything else goes
well. -/
def answering (startErr : Option GoError) : Handler pumpSig (Tree × Unit) :=
  Handler.sum handle fun op s =>
    match op with
    | .ptyStart _ => (startErr, s)
    | .subscribe _ | .publish _ _ => (none, s)
    | .select => (.childDone, s)
    | .exitCode => (some 0, s)
    | .setsize _ _ | .goReader _ | .ptyWrite _ | .kill | .closePty | .unsubscribe | .goWait
    | .recvDone => ((), s)

def shellSession : PumpConfig where
  vmID := lit "vm"
  request := { id := lit "s1", target := { kind := lit "shell" } }

theorem decodeRequest_shellSession :
    decodeRequest (.ok shellSession.request) = .ok shellSession.request := rfl

theorem run_publishes_one_exitFrame_of_shell :
    decodeRequest (.ok shellSession.request) = .ok shellSession.request ∧
      shellSession.exitFrames (log (answering none) shellSession.run (.empty, ())) = 1 :=
  ⟨decodeRequest_shellSession, (run_publishes_one_exitFrame_iff decodeRequest_shellSession
    (answering none) (.empty, ())).mpr (by decide)⟩

/-- A shell that cannot be started: `Run` returns without an exit frame. -/
theorem run_without_exitFrame :
    decodeRequest (.ok shellSession.request) = .ok shellSession.request ∧
      shellSession.exitFrames
        (log (answering (some (.errno .ENOENT))) shellSession.run (.empty, ())) = 0 :=
  ⟨decodeRequest_shellSession, by decide⟩

end WeftAgent.ExecSession
