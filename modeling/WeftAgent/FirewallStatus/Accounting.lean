import WeftAgent.FirewallStatus.Emitter
import WeftAgent.Trace.Along

/-!
# Accounting of drops

Packets and bytes are counted by the same code in separate counters. For one of the two: the
histories of the firewall whose drops the samples tell in full, and the values that a sequence of
samples makes `RecordFirewallDrops` add to the exported counter.
-/

namespace WeftAgent.FirewallStatus

open WeftAgent.Go WeftAgent.Metrics WeftAgent.Trace

inductive Quantity where
  | packets
  | bytes
  deriving DecidableEq, Repr

def Quantity.of {α : Type} (q : Quantity) (packets bytes : α) : α :=
  match q with
  | .packets => packets
  | .bytes => bytes

def Guest.firewall (g : Guest) (q : Quantity) : Drops := q.of g.packets g.bytes

/-- The counter of `Recorder` for one quantity. -/
def exported (r : Recorder) (q : Quantity) : DropCounter := q.of r.packets r.bytes

/-! ## Histories -/

/-- What has been dropped since the last sample. -/
def sinceSample (q : Quantity) (evs : List Event) : Nat :=
  evs.foldl (fun n e =>
    match e with
    | .drop packets bytes => n + q.of packets bytes
    | .rebuild => n
    | .tick _ _ _ => 0) 0

/-- What may happen after a history: no read fails, the table is not rebuilt while there are drops
that no sample has shown, and the first sample after a rebuild is below the last one before it,
unless that one was zero. -/
def OrderlyAt (q : Quantity) (history : List Event) : Event → Prop
  | .drop _ _ => True
  | .rebuild => sinceSample q history = 0
  | .tick readErr _ _ =>
    readErr = none ∧
      ((after history).rebuilt = true →
        ((after history).firewall q).kernel < (exported (after history).recorder q).last ∨
          (exported (after history).recorder q).last = 0)

instance (q : Quantity) (history : List Event) : ∀ e, Decidable (OrderlyAt q history e)
  | .drop _ _ => inferInstanceAs (Decidable True)
  | .rebuild => inferInstanceAs (Decidable (_ = _))
  | .tick _ _ _ => inferInstanceAs (Decidable (_ ∧ (_ → _)))

def Orderly (q : Quantity) (evs : List Event) : Prop :=
  Along (fun history e => history ++ [e]) (OrderlyAt q) [] evs

instance (q : Quantity) (evs : List Event) : Decidable (Orderly q evs) :=
  inferInstanceAs (Decidable (Along _ _ _ _))

/-! ## Samples -/

/-- The recorder after a sequence of samples of both kernel counters. -/
def recorded (samples : List (UInt64 × UInt64)) : Recorder :=
  samples.foldl (fun r s => r.recordFirewallDrops s.1 s.2) {}

/-- The samples of one of them. -/
def samplesOf (q : Quantity) (samples : List (UInt64 × UInt64)) : List UInt64 :=
  samples.map fun s => q.of s.1 s.2

/-- The values that `RecordFirewallDrops` adds to the exported counter, sample by sample. -/
def added (last : UInt64) : List UInt64 → List Nat
  | [] => []
  | current :: rest =>
    float64 (current - subtrahend current last).toNat :: added current rest

end WeftAgent.FirewallStatus
