import WeftAgent.Metrics.Recorder

/-!
# The firewall status emitter

`Emitter.publishOnce` of `pkg/firewallstatus/firewallstatus.go` with the hooks that
`startFirewallStatus` installs, and the in-guest firewall whose drop counters it reads. The kernel
counters belong to the table that is installed; the firewall reconciler replaces the table, and with
it the counters, on every change. A read of the status fails as a whole: whatever step of it fails,
`network.ReadFirewallStatus` answers with a degraded status and no counters.
-/

namespace WeftAgent.FirewallStatus

open WeftAgent.Go WeftAgent.Metrics

inductive Overall where
  | healthy
  | degraded
  deriving DecidableEq, Repr

/-- `pod.FirewallStatus`, as far as the emitter reads it. -/
structure Status where
  overall : Overall
  lastError : Option GoError := none
  dropsPackets : UInt64 := 0
  dropsBytes : UInt64 := 0
  deriving DecidableEq, Repr

/-- `network.ReadFirewallStatus` with the kernel counters, or the error of the step that failed. -/
def readFirewallStatus (packets bytes : UInt64) (err : Option GoError) : Status :=
  match err with
  | some e => { overall := .degraded, lastError := some e }
  | none => { overall := .healthy, dropsPackets := packets, dropsBytes := bytes }

/-- `publishOnce`: the read hook on the status, and the publish hook on the error of `json.Marshal`
or of `Publish`. -/
def publishOnce (r : Recorder) (status : Status) (marshalErr publishErr : Option GoError) :
    Recorder :=
  let r := r.recordFirewallDrops status.dropsPackets status.dropsBytes
  match marshalErr with
  | some e => r.recordFirewallStatusPublish (some e)
  | none => r.recordFirewallStatusPublish publishErr

/-- What the firewall counts of packets, or of bytes. -/
structure Drops where
  /-- The kernel counter of the installed table. -/
  kernel : UInt64 := 0
  dropped : Nat := 0
  deriving DecidableEq, Repr

def Drops.drop (d : Drops) (n : Nat) : Drops :=
  { kernel := d.kernel + UInt64.ofNat n, dropped := d.dropped + n }

def Drops.rebuild (d : Drops) : Drops := { d with kernel := 0 }

/-- The firewall of a guest and the recorder of its agent. -/
structure Guest where
  packets : Drops := {}
  bytes : Drops := {}
  /-- The table has been rebuilt since the last read that succeeded. -/
  rebuilt : Bool := false
  recorder : Recorder := {}
  deriving DecidableEq, Repr

inductive Event where
  | drop (packets bytes : Nat)
  | rebuild
  /-- A tick of the emitter: the outcomes of the read, of `json.Marshal` and of `Publish`. -/
  | tick (readErr marshalErr publishErr : Option GoError)
  deriving DecidableEq, Repr

def step (g : Guest) : Event → Guest
  | .drop packets bytes =>
    { g with packets := g.packets.drop packets, bytes := g.bytes.drop bytes }
  | .rebuild => { g with packets := g.packets.rebuild, bytes := g.bytes.rebuild, rebuilt := true }
  | .tick readErr marshalErr publishErr =>
    let status := readFirewallStatus g.packets.kernel g.bytes.kernel readErr
    { g with
      rebuilt := g.rebuilt && readErr.isSome
      recorder := publishOnce g.recorder status marshalErr publishErr }

/-- The guest after a history, from a fresh recorder and no drops. -/
def after (evs : List Event) : Guest := evs.foldl step {}

/-- The exported totals do not exceed what was dropped. -/
def Guest.Honest (g : Guest) : Prop :=
  g.recorder.packets.total.get ≤ g.packets.dropped ∧ g.recorder.bytes.total.get ≤ g.bytes.dropped

/-- The step is not a read that fails while the last samples still count drops of the installed
table, nor a drop that takes a total beyond what a `float64` counts exactly. -/
def Guest.Countable (g : Guest) : Event → Prop
  | .drop packets bytes =>
    g.packets.dropped + packets ≤ 2 ^ 53 ∧ g.bytes.dropped + bytes ≤ 2 ^ 53
  | .tick (some _) _ _ =>
    g.rebuilt = true ∨ g.recorder.packets.last = 0 ∧ g.recorder.bytes.last = 0
  | .tick none _ _ | .rebuild => True

instance (g : Guest) : DecidablePred g.Countable := fun e => by
  unfold Guest.Countable
  split <;> infer_instance

end WeftAgent.FirewallStatus
