import WeftAgent.Nft.Kernel
import WeftAgent.PacketFilter.Policy

/-!
# Applying a firewall

`ApplyFirewall` of `pkg/network/firewall_linux.go`, and `HandleMessage` of `pkg/firewall` with the
function that `startFirewall` of `cmd/weft-microvm-agent/main.go` passes to it. The messages of a
subscription are handled one after the other; the netlink calls of a message are steps of their own,
and between them packets arrive and other programs work on their tables.
-/

namespace WeftAgent.PacketFilter

open WeftAgent.Go WeftAgent.Effect WeftAgent.Nft

def firewallTableName : GoString := lit "weft-fw"

def inputChain : GoString := lit "input"
def outputChain : GoString := lit "output"

/-- The table the reconciler owns. -/
def ownTable : TableId := ⟨familyINet, firewallTableName⟩

/-- `ChainPriorityFilter`. -/
def priorityFilter : Int := 0

def inputSpec : ChainSpec where
  name := inputChain
  type := .filter
  hook := .input
  priority := priorityFilter
  policy := .drop

def outputSpec : ChainSpec where
  name := outputChain
  type := .filter
  hook := .output
  priority := priorityFilter
  policy := .accept

/-- The counter with a drop at the end of the input chain. -/
def tailRule (packets bytes : UInt64) : Rule := [.counter packets bytes, .verdict .drop]

def addRule (chain : GoString) (rule : Rule) : Msg := .addRule ownTable chain rule

/-- `fmt.Errorf("build rule (%+v): %w", r, err)`. -/
def buildError (r : FirewallRule) (e : GoError) : GoError :=
  .wrap "build rule (%+v): %w" [.str r.direction, .str r.protocol, .int r.portMin.toNat,
    .int r.portMax.toNat, .str r.remoteCIDR] e

/-- The loop over the rules: the messages that add them. -/
def ruleMsgs : List FirewallRule → Except GoError (List Msg)
  | [] => .ok []
  | r :: rules =>
    match buildRuleExprs r with
    | .error e => .error (buildError r e)
    | .ok exprs =>
      match ruleMsgs rules with
      | .error e => .error e
      | .ok msgs =>
        if r.direction = ingress then .ok (addRule inputChain exprs :: msgs)
        else if r.direction = egress then .ok (addRule outputChain exprs :: msgs)
        else .ok msgs

/-- The batch: the listed tables of the name are deleted, and the table is built anew. -/
def batch (existing : List GoString) (rules : List Msg) : List Msg :=
  (existing.filter (· = firewallTableName)).map (fun name => .delTable ⟨familyINet, name⟩) ++ [
    .addTable ownTable,
    .addChain ownTable inputSpec,
    addRule inputChain ctEstablishedAccept,
    addRule inputChain (iifAccept (lit "lo")),
    .addChain ownTable outputSpec] ++
  rules ++ [addRule inputChain (tailRule 0 0)]

/-- The rules of one direction, translated. -/
def compiled (direction : GoString) (rules : List FirewallRule) : List Rule :=
  (rules.filter (·.direction = direction)).filterMap fun r => (buildRuleExprs r).toOption

def chainsWith (ins outs : List Rule) : List Chain := [⟨inputSpec, ins⟩, ⟨outputSpec, outs⟩]

/-- The rules of the input chain of a firewall whose drops have been counted. -/
def inputRules (fw : Firewall) (packets bytes : UInt64) : List Rule :=
  [ctEstablishedAccept, iifAccept (lit "lo")] ++ compiled ingress fw.rules ++
    [tailRule packets bytes]

/-- The chains of the table of a firewall whose drops have been counted. -/
def chainsOf (fw : Firewall) (packets bytes : UInt64) : List Chain :=
  chainsWith (inputRules fw packets bytes) (compiled egress fw.rules)

/-- After the batch has been sent. -/
def afterFlush : Option GoError → Prog nftSig (Option GoError)
  | some e => .ret (some (.wrap "nftables flush: %w" [] e))
  | none => .ret none

/-- After the tables have been listed. -/
def afterList (fw : Firewall) : Except GoError (List GoString) → Prog nftSig (Option GoError)
  | .error e => .ret (some (.wrap "list tables: %w" [] e))
  | .ok existing =>
    match ruleMsgs fw.rules with
    | .error e => .ret (some e)
    | .ok rules => .call (.flush (batch existing rules)) afterFlush

/-- After the connection has been opened. -/
def afterNew (fw : Firewall) : Option GoError → Prog nftSig (Option GoError)
  | some e => .ret (some (.wrap "nftables: %w" [] e))
  | none => .call (.listTablesOfFamily familyINet) (afterList fw)

/-- `ApplyFirewall`. -/
def applyFirewall (fw : Firewall) : Prog nftSig (Option GoError) := .call .new (afterNew fw)

/-! ## The subscriber -/

/-- `HandleMessage`: the error for which the message is dropped, or what `apply` does. -/
def handleMessage {β : Type} (unmarshal : GoString → Except GoError Firewall) (data : GoString)
    (apply : Firewall → β) : Except GoError β :=
  match unmarshal data with
  | .error e => .error (.wrap "decode firewall update: %w" [] e)
  | .ok fw =>
    match fw.validate with
    | some e => .error (.wrap "invalid firewall update: %w" [] e)
    | none => .ok (apply fw)

variable {S : Type}

/-- The subscriber with its kernel. -/
structure Subscriber (S : Type) where
  nft : S
  /-- What is left of the message being handled. -/
  writer : Prog nftSig (Option GoError) := .ret none
  /-- The last set that was decoded and found valid. -/
  accepted : Option Firewall := none
  /-- The last set whose batch was carried out. -/
  installed : Option Firewall := none

inductive Event (S : Type) where
  | message (data : GoString)
  /-- The next netlink call of the message being handled. -/
  | call
  | packet (hook : Hook) (p : Packet)
  /-- Something else happens in the kernel, for instance to the tables of others. -/
  | others (change : S → S)

/-- The call is a batch that is carried out. -/
def replaces (K : Kernel S) (s : S) : NftOp → Bool
  | .flush msgs => K.carriesOut s msgs
  | _ => false

/-- One step; a message waits while another one is being handled. -/
def Subscriber.step (unmarshal : GoString → Except GoError Firewall) (K : Kernel S)
    (s : Subscriber S) : Event S → Subscriber S
  | .message data =>
    match s.writer with
    | .call _ _ => s
    | .ret _ =>
      match handleMessage unmarshal data fun fw => (fw, applyFirewall fw) with
      | .error _ => s
      | .ok (fw, writer) => { s with writer := writer, accepted := some fw }
  | .call =>
    match s.writer with
    | .ret _ => s
    | .call op k =>
      let (x, nft) := K.handler op s.nft
      { s with
        nft := nft
        writer := k x
        installed := if replaces K s.nft op then s.accepted else s.installed }
  | .packet hook p => { s with nft := K.deliver s.nft hook p }
  | .others change => { s with nft := change s.nft }

/-- The packet gets to the own table, and that refuses it. -/
def droppedByOwn (K : Kernel S) (s : S) (hook : Hook) (p : Packet) : Bool :=
  hook = .input ∧ K.reaches s ownTable inputChain p = true ∧ K.passes s ownTable .input p = false

/-- The subscriber after a history, from a kernel on. -/
def Subscriber.after (unmarshal : GoString → Except GoError Firewall) (K : Kernel S) (s₀ : S)
    (evs : List (Event S)) : Subscriber S :=
  evs.foldl (Subscriber.step unmarshal K) { nft := s₀ }

/-- Nobody else touches the own table. -/
def Event.KeepsOwn (K : Kernel S) : Event S → Prop
  | .others change => ∀ s, K.table (change s) ownTable = K.table s ownTable
  | _ => True

end WeftAgent.PacketFilter
