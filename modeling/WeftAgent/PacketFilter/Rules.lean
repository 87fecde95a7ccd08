import WeftAgent.Go.Netip
import WeftAgent.Nft.Ruleset

/-!
# Firewall rules and their translation

`pod.Firewall` with its validation (`pkg/pod/firewall.go` of `weft-microvm-init`), and the
translation of a rule to nftables expressions (`pkg/network/firewall_linux.go`).
-/

namespace WeftAgent.PacketFilter

open WeftAgent.Go WeftAgent.Go.Netip WeftAgent.Nft

/-- `pod.FirewallRule`. -/
structure FirewallRule where
  direction : GoString
  protocol : GoString := []
  portMin : UInt16 := 0
  portMax : UInt16 := 0
  remoteCIDR : GoString := []
  deriving DecidableEq, Repr

/-- `pod.Firewall`. -/
structure Firewall where
  rules : List FirewallRule
  deriving DecidableEq, Repr

def ingress : GoString := lit "ingress"
def egress : GoString := lit "egress"

def tcp : GoString := lit "tcp"
def udp : GoString := lit "udp"
def icmp : GoString := lit "icmp"

/-! ## Validation -/

/-- The port range needs a protocol with ports, and its ends in order. -/
def FirewallRule.validatePorts (r : FirewallRule) : Option GoError :=
  if r.portMin ≠ 0 ∨ r.portMax ≠ 0 then
    if r.protocol ≠ tcp ∧ r.protocol ≠ udp then
      some (.errorf "port range requires tcp or udp, got %q" [.str r.protocol])
    else if r.portMin > r.portMax then
      some (.errorf "port_min %d > port_max %d" [.int r.portMin.toNat, .int r.portMax.toNat])
    else none
  else none

def FirewallRule.validateCIDR (r : FirewallRule) : Option GoError :=
  if r.remoteCIDR ≠ [] then
    match parsePrefix r.remoteCIDR with
    | .error e => some (.wrap "remote_cidr %q: %w" [.str r.remoteCIDR] e)
    | .ok _ => none
  else none

/-- `FirewallRule.Validate`. -/
def FirewallRule.validate (r : FirewallRule) : Option GoError :=
  if r.direction ≠ ingress ∧ r.direction ≠ egress then
    some (.errorf "direction %q: must be ingress or egress" [.str r.direction])
  else if r.protocol ≠ [] ∧ r.protocol ≠ tcp ∧ r.protocol ≠ udp ∧ r.protocol ≠ icmp then
    some (.errorf "protocol %q: must be tcp, udp, icmp or empty" [.str r.protocol])
  else r.validatePorts.or r.validateCIDR

/-- The loop of `Firewall.Validate` from index `i` on. -/
def validateFrom (i : Nat) : List FirewallRule → Option GoError
  | [] => none
  | r :: rules =>
    match r.validate with
    | some e => some (.wrap "rule[%d]: %w" [.int i] e)
    | none => validateFrom (i + 1) rules

/-- `Firewall.Validate`. -/
def Firewall.validate (f : Firewall) : Option GoError := validateFrom 0 f.rules

/-! ## Translation -/

/-- `addrOffset`: where the address is in the IP header, and the family of the packets. -/
def addrOffset (ip direction : GoString) : Except GoError (Nat × UInt8) :=
  let v4 := (to4 ip).isSome
  if v4 ∧ direction = ingress then .ok (12, 2)
  else if v4 ∧ direction = egress then .ok (16, 2)
  else if ¬ v4 ∧ direction = ingress then .ok (8, 10)
  else if ¬ v4 ∧ direction = egress then .ok (24, 10)
  else .error (.errorf "unknown direction %q" [.str direction])

def portBytes (p : UInt16) : List UInt8 := [(p >>> 8).toUInt8, p.toUInt8]

def zeroBytes (n : Nat) : List UInt8 := List.replicate n 0

/-- A copy into 16 zero bytes. -/
def nftIfname (name : GoString) : List UInt8 := name.take 16 ++ List.replicate (16 - name.length) 0

def binaryUint32 (v : UInt32) : List UInt8 :=
  [v.toUInt8, (v >>> 8).toUInt8, (v >>> 16).toUInt8, (v >>> 24).toUInt8]

/-- The part of `buildRuleExprs` for the remote network. -/
def cidrExprs (r : FirewallRule) : Except GoError (List Expr) :=
  if r.remoteCIDR ≠ [] then
    match parseCIDR r.remoteCIDR with
    | .error e => .error (.wrap "parse cidr: %w" [] e)
    | .ok (_, ipnet) =>
      match addrOffset ipnet.ip r.direction with
      | .error e => .error e
      | .ok (offset, family) =>
        .ok [
          .metaLoad .nfproto 1,
          .cmp .eq 1 [family],
          .payload .networkHeader offset ipnet.ip.length 1,
          .bitwise 1 1 ipnet.mask.length ipnet.mask (zeroBytes ipnet.mask.length),
          .cmp .eq 1 (maskIP ipnet.ip ipnet.mask)]
  else .ok []

/-- `IPPROTO_TCP`, `IPPROTO_UDP` and `IPPROTO_ICMP`. -/
def l4Number (protocol : GoString) : Option UInt8 :=
  if protocol = tcp then some 6
  else if protocol = udp then some 17
  else if protocol = icmp then some 1
  else none

/-- The part for the protocol. -/
def protocolExprs (r : FirewallRule) : Except GoError (List Expr) :=
  if r.protocol ≠ [] then
    match l4Number r.protocol with
    | none => .error (.errorf "unknown protocol %q" [.str r.protocol])
    | some l4 => .ok [.metaLoad .l4proto 1, .cmp .eq 1 [l4]]
  else .ok []

/-- The part for the ports; the destination port is at offset 2 of both headers. -/
def portExprs (r : FirewallRule) : List Expr :=
  if r.portMin ≠ 0 ∨ r.portMax ≠ 0 then
    .payload .transportHeader 2 2 1 ::
      if r.portMin = r.portMax then [.cmp .eq 1 (portBytes r.portMin)]
      else [.range .eq 1 (portBytes r.portMin) (portBytes r.portMax)]
  else []

/-- `buildRuleExprs`. -/
def buildRuleExprs (r : FirewallRule) : Except GoError Rule :=
  match cidrExprs r with
  | .error e => .error e
  | .ok cidr =>
    match protocolExprs r with
    | .error e => .error e
    | .ok protocol => .ok (cidr ++ protocol ++ portExprs r ++ [.verdict .accept])

/-- `ctEstablishedAccept`. -/
def ctEstablishedAccept : Rule := [
  .ctState 1,
  .bitwise 1 1 4 (binaryUint32 (CtState.established.bit ||| CtState.related.bit)) [0, 0, 0, 0],
  .cmp .neq 1 [0, 0, 0, 0],
  .verdict .accept]

/-- `iifAccept`. -/
def iifAccept (name : GoString) : Rule := [
  .metaLoad .iifname 1,
  .cmp .eq 1 (nftIfname name),
  .verdict .accept]

end WeftAgent.PacketFilter
