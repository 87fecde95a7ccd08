import WeftAgent.PacketFilter.Rules

/-!
# What a firewall is for

The meaning of a rule set in terms of packets, apart from nftables: which packets a rule is about,
and which ones a guest lets in.
-/

namespace WeftAgent.PacketFilter

open WeftAgent.Go WeftAgent.Go.Netip WeftAgent.Nft

/-- The address of the other side, as the IP headers have it: the destination of a packet that goes
out, the source of one that comes in. -/
def remoteAddress (direction : GoString) (p : Packet) : Option (List UInt8) :=
  match p.version with
  | .ipv4 => if direction = egress then field p.network 16 4 else field p.network 12 4
  | .ipv6 => if direction = egress then field p.network 24 16 else field p.network 8 16

def versionOf : Addr → IpVersion
  | .ip4 _ => .ipv4
  | .ip6 _ _ => .ipv6

/-- The address has the leading bits of the prefix. -/
def inNetwork (net : Prefix) (a : List UInt8) : Prop :=
  beNat a / 2 ^ (net.addr.bitLen - net.bits) =
    beNat net.addr.bytes / 2 ^ (net.addr.bitLen - net.bits)

def destinationPort (p : Packet) : Option Nat := (p.transport.bind (field · 2 2)).map beNat

/-- The packet is one that the rule is about: each part of the rule that is given holds of it. -/
structure FirewallRule.Matches (r : FirewallRule) (p : Packet) : Prop where
  remote : r.remoteCIDR ≠ [] → ∃ net a, parsePrefix r.remoteCIDR = .ok net ∧
    versionOf net.addr = p.version ∧ remoteAddress r.direction p = some a ∧ inNetwork net a
  protocol : r.protocol ≠ [] → ∃ l4, l4Number r.protocol = some l4 ∧ p.l4proto = some l4
  port : r.portMin ≠ 0 ∨ r.portMax ≠ 0 → ∃ port, destinationPort p = some port ∧
    r.portMin.toNat ≤ port ∧ port ≤ r.portMax.toNat

/-- What a guest with this firewall lets in. -/
def Firewall.Admits (fw : Firewall) (p : Packet) : Prop :=
  p.ctState = .established ∨ p.ctState = .related ∨ p.iifname.name = lit "lo" ∨
    ∃ r ∈ fw.rules, r.direction = ingress ∧ r.Matches p

/-- An IPv6 network of IPv4-mapped addresses. -/
def Mapped (net : Prefix) : Prop :=
  versionOf net.addr = .ipv6 ∧
    (maskBytes net.addr.bytes (leadingMask net.bits 16)).take 12 = v4InV6

/-- No rule names a network of IPv4-mapped addresses. -/
def Firewall.Unmapped (fw : Firewall) : Prop :=
  ∀ r ∈ fw.rules, ∀ net, parsePrefix r.remoteCIDR = .ok net → ¬ Mapped net

end WeftAgent.PacketFilter
