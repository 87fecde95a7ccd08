import WeftAgent.Go.Basic
import WeftAgent.Go.Float

/-!
# The metrics recorder

The part of `internal/metrics/metrics.go` that the firewall status emitter drives, and the
Prometheus counter it is built on: `Add` keeps whole numbers apart from other floats, and the value
of the counter is the sum of both. Every value added here is a whole number.
-/

namespace WeftAgent.Metrics

open WeftAgent.Go

/-- `prometheus.Counter`. -/
structure Counter where
  valInt : UInt64 := 0
  /-- The float in `valBits`. -/
  valFloat : Nat := 0
  deriving DecidableEq, Repr

/-- `Counter.Add(v)` for a whole number `v`. -/
def Counter.add (c : Counter) (v : Nat) : Counter :=
  let ival := UInt64.ofNat v
  if float64 ival.toNat = v then { c with valInt := c.valInt + ival }
  else { c with valFloat := float64 (c.valFloat + v) }

def Counter.inc (c : Counter) : Counter := { c with valInt := c.valInt + 1 }

/-- The value of the counter as it is exported. -/
def Counter.get (c : Counter) : Nat := float64 (c.valFloat + float64 c.valInt.toNat)

/-- One of the two drop counters of `Recorder`: the last raw sample and the exported counter. -/
structure DropCounter where
  last : UInt64 := 0
  total : Counter := {}
  deriving DecidableEq, Repr

/-- What `RecordFirewallDrops` subtracts from a sample: the last one, or 0 after a reset. -/
def subtrahend (current last : UInt64) : UInt64 := if current < last then 0 else last

/-- One half of `RecordFirewallDrops`. -/
def DropCounter.record (d : DropCounter) (current : UInt64) : DropCounter :=
  let delta := current - subtrahend current d.last
  { last := current
    total := if delta > 0 then d.total.add (float64 delta.toNat) else d.total }

/-- `Recorder`, as far as the firewall status emitter drives it. -/
structure Recorder where
  /-- `firewall_drops_packets_total`. -/
  packets : DropCounter := {}
  /-- `firewall_drops_bytes_total`. -/
  bytes : DropCounter := {}
  /-- `firewall_status_publishes_total` with the label `ok`. -/
  publishesOk : Counter := {}
  /-- `firewall_status_publishes_total` with the label `error`. -/
  publishesError : Counter := {}
  deriving DecidableEq, Repr

def Recorder.recordFirewallStatusPublish (r : Recorder) (err : Option GoError) : Recorder :=
  match err with
  | some _ => { r with publishesError := r.publishesError.inc }
  | none => { r with publishesOk := r.publishesOk.inc }

def Recorder.recordFirewallDrops (r : Recorder) (packets bytes : UInt64) : Recorder :=
  { r with packets := r.packets.record packets, bytes := r.bytes.record bytes }

end WeftAgent.Metrics
