import WeftAgent.FirewallStatus.Emitter
import WeftAgent.PacketFilter.Apply

/-!
# Reading the status of the firewall

`ReadFirewallStatus` of `pkg/network/firewallstat_linux.go`, and the emitter that reads it on every
tick while the subscriber handles messages and packets arrive. The read takes several netlink calls,
and the table can be replaced between them.
-/

namespace WeftAgent.PacketFilter

open WeftAgent.Go WeftAgent.Effect WeftAgent.Nft WeftAgent.Metrics

/-- `pod.FirewallStatus`, but for the time of publication. -/
structure Snapshot extends FirewallStatus.Status where
  tableInstalled : Bool := false
  rulesInstalled : Nat := 0
  deriving DecidableEq, Repr

def degraded (tableInstalled : Bool) (e : GoError) : Snapshot :=
  { overall := .degraded, lastError := some e, tableInstalled := tableInstalled }

/-- The verdict that the inner loop of `dropCounterFromRule` finds. -/
def nextVerdict : Rule → Option Verdict
  | [] => none
  | .verdict v :: _ => some v
  | _ :: es => nextVerdict es

/-- `dropCounterFromRule`: a counter whose next verdict is a drop. -/
def dropCounterFromRule : Rule → Option (UInt64 × UInt64)
  | [] => none
  | .counter packets bytes :: es =>
    if nextVerdict es = some .drop then some (packets, bytes) else dropCounterFromRule es
  | _ :: es => dropCounterFromRule es

/-- The sums of the drop counters of the rules. -/
def addDrops (packets bytes : UInt64) : List Rule → UInt64 × UInt64
  | [] => (packets, bytes)
  | r :: rs =>
    match dropCounterFromRule r with
    | none => addDrops packets bytes rs
    | some (pkts, bs) => addDrops (packets + pkts) (bytes + bs) rs

/-- The loop over the listed chains. -/
def readChains (total : Nat) (packets bytes : UInt64) :
    List (GoString × GoString) → Prog nftSig Snapshot
  | [] => .ret {
      overall := .healthy, dropsPackets := packets, dropsBytes := bytes
      tableInstalled := true, rulesInstalled := total }
  | (table, chain) :: chains =>
    if table ≠ firewallTableName then readChains total packets bytes chains
    else
      .call (.getRules ownTable chain) fun
        | .error e => .ret (degraded true (.wrap "get rules in %s: %v" [.str chain] e))
        | .ok rules =>
          if chain ≠ inputChain then readChains (total + rules.length) packets bytes chains
          else
            let drops := addDrops packets bytes rules
            readChains (total + rules.length) drops.1 drops.2 chains

/-- After the chains have been listed. -/
def afterListChains : Except GoError (List (GoString × GoString)) → Prog nftSig Snapshot
  | .error e => .ret (degraded true (.wrap "list chains: %v" [] e))
  | .ok chains => readChains 0 0 0 chains

/-- After the tables have been listed. Without the table there is nothing to read yet. -/
def afterListTables : Except GoError (List GoString) → Prog nftSig Snapshot
  | .error e => .ret (degraded false (.wrap "list tables: %v" [] e))
  | .ok tables =>
    if firewallTableName ∈ tables then
      .call (.listChainsOfTableFamily familyINet) afterListChains
    else .ret { overall := .healthy }

/-- After the connection has been opened. -/
def afterOpen : Option GoError → Prog nftSig Snapshot
  | some e => .ret (degraded false (.wrap "nftables open: %v" [] e))
  | none => .call (.listTablesOfFamily familyINet) afterListTables

/-- `ReadFirewallStatus`. -/
def readFirewallStatus : Prog nftSig Snapshot := .call .new afterOpen

/-! ## The emitter beside the subscriber -/

variable {S : Type}

/-- The subscriber, and the emitter with its recorder. -/
structure Guest (S : Type) where
  subscriber : Subscriber S
  /-- What is left of the read of the current tick. -/
  reader : Option (Prog nftSig Snapshot) := none
  recorder : Recorder := {}
  /-- What the own table has gone through: packets it dropped, and its replacements. -/
  happened : List FirewallStatus.Event := []

inductive GuestEvent (S : Type) where
  | subscriber (e : Event S)
  /-- A tick of the emitter; it is missed while the last one is being handled. -/
  | tick
  /-- The next netlink call of the read. -/
  | read
  /-- The read is over; the outcomes of `json.Marshal` and of `Publish`. -/
  | publish (marshalErr publishErr : Option GoError)

/-- What a step of the subscriber does to the own table. -/
def happens (K : Kernel S) (s : Subscriber S) : Event S → List FirewallStatus.Event
  | .call =>
    match s.writer with
    | .ret _ => []
    | .call op _ => if replaces K s.nft op then [.rebuild] else []
  | .packet hook p => if droppedByOwn K s.nft hook p then [.drop 1 p.network.length] else []
  | _ => []

def Guest.step (unmarshal : GoString → Except GoError Firewall) (K : Kernel S) (g : Guest S) :
    GuestEvent S → Guest S
  | .subscriber e =>
    { g with
      subscriber := g.subscriber.step unmarshal K e
      happened := g.happened ++ happens K g.subscriber e }
  | .tick =>
    match g.reader with
    | some _ => g
    | none => { g with reader := some readFirewallStatus }
  | .read =>
    match g.reader with
    | some (.call op k) =>
      let (x, nft) := K.handler op g.subscriber.nft
      { g with subscriber := { g.subscriber with nft := nft }, reader := some (k x) }
    | _ => g
  | .publish marshalErr publishErr =>
    match g.reader with
    | some (.ret status) =>
      { g with
        reader := none
        recorder :=
          FirewallStatus.publishOnce g.recorder status.toStatus marshalErr publishErr }
    | _ => g

/-- The guest after a history, from a kernel on. -/
def Guest.after (unmarshal : GoString → Except GoError Firewall) (K : Kernel S) (s₀ : S)
    (evs : List (GuestEvent S)) : Guest S :=
  evs.foldl (Guest.step unmarshal K) { subscriber := { nft := s₀ } }

/-- Nobody else touches the own table. -/
def GuestEvent.KeepsOwn (K : Kernel S) : GuestEvent S → Prop
  | .subscriber e => e.KeepsOwn K
  | _ => True

end WeftAgent.PacketFilter
