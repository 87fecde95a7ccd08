import WeftAgent.Boot.Runner

/-!
# The boot watcher and its runner

The loop of `watchAndRunBoot` (`cmd/weft-microvm-agent/main.go`), with `Runner.Run` as the runner
that it calls.
-/

namespace WeftAgent.Boot

open WeftAgent.Go WeftAgent.Effect WeftAgent.Fs

variable {S : Type}

/-- `watchAndRunBoot`, for at most `rounds` rounds of its loop: `again` if it has not returned by
then. -/
def watchAndRunBoot (propsDir : GoString) : (rounds : Nat) → Prog watchSig Next
  | 0 => pure .again
  | rounds + 1 => do
    match ← poll propsDir with
    | .done => pure .done
    | .again => watchAndRunBoot propsDir rounds

/-- The calls of the watcher, where `clock` answers what has to do with time and shutdown. All
answers come from the state, and any of them may change it: this is how other goroutines publish
properties in between. -/
def Runner.serve (r : Runner) (h : Handler hookSig S) (clock : WatchOp → S → Bool × S) :
    Handler watchSig S
  | .inl op, s => h (.inl op) s
  | .inr .sentinelPresent, s =>
    (Except.toBool (h (.inl (.stat r.sentinelPath)) s).1, (h (.inl (.stat r.sentinelPath)) s).2)
  | .inr (.runBoot cfg), s => ((r.callIn h cfg s).result.isNone, (r.callIn h cfg s).after)
  | .inr op, s => clock op s

abbrev WatchCall := Σ op : watchSig.Op, watchSig.Ans op

/-- The call reports that the agent is shutting down. -/
def reportsShutdown : WatchCall → Bool
  | ⟨.inr .shuttingDown, answer⟩ => answer
  | ⟨.inr .waitPoll, answer⟩ => answer
  | _ => false

/-- The call is one of `Run` that returned an error. -/
def reportsFailure : WatchCall → Bool
  | ⟨.inr (.runBoot _), ok⟩ => !ok
  | _ => false

end WeftAgent.Boot
