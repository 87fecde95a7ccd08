import WeftAgent.Go.Bytes

/-!
# Rulesets of nftables

What a program sends to `nf_tables` and gets back from it: tables by family and name, base chains,
and rules, which are lists of expressions. What the kernel does with packets under them is the
subject of `Nft.Kernel`; here is only what the expressions refer to, the data of a packet.
-/

namespace WeftAgent.Nft

open WeftAgent.Go

/-! ## Packets -/

/-- The name of a network interface. -/
structure IfName where
  name : GoString
  short : name.length < 16
  no_nul : 0 ∉ name
  deriving DecidableEq, Repr

/-- What connection tracking knows about a packet. -/
inductive CtState where
  | invalid
  | established
  | related
  | new
  | untracked
  deriving DecidableEq, Repr

/-- `NF_CT_STATE_BIT`. -/
def CtState.bit : CtState → UInt32
  | .invalid => 1
  | .established => 2
  | .related => 4
  | .new => 8
  | .untracked => 64

inductive IpVersion where
  | ipv4
  | ipv6
  deriving DecidableEq, Repr

/-- `NFPROTO_IPV4` and `NFPROTO_IPV6`. -/
def IpVersion.nfproto : IpVersion → UInt8
  | .ipv4 => 2
  | .ipv6 => 10

/-- A packet at a hook of the `inet` family. -/
structure Packet where
  /-- The interface it came in on; empty for a packet of the host itself. -/
  iifname : IfName
  ctState : CtState
  version : IpVersion
  /-- The transport protocol, where the headers tell it. -/
  l4proto : Option UInt8
  /-- The bytes from the network header on. -/
  network : List UInt8
  /-- The bytes from the transport header on; a later fragment has none. -/
  transport : Option (List UInt8)
  deriving DecidableEq, Repr

/-! ## Expressions -/

inductive MetaKey where
  | nfproto
  | l4proto
  | iifname
  deriving DecidableEq, Repr

inductive PayloadBase where
  | networkHeader
  | transportHeader
  deriving DecidableEq, Repr

inductive CmpOp where
  | eq
  | neq
  deriving DecidableEq, Repr

inductive Verdict where
  | drop
  | accept
  deriving DecidableEq, Repr

/-- The expressions of a rule. -/
inductive Expr where
  | metaLoad (key : MetaKey) (register : Nat)
  | ctState (register : Nat)
  | payload (base : PayloadBase) (offset len : Nat) (register : Nat)
  | bitwise (source dest len : Nat) (mask xor : List UInt8)
  | cmp (op : CmpOp) (register : Nat) (data : List UInt8)
  | range (op : CmpOp) (register : Nat) (fromData toData : List UInt8)
  | counter (packets bytes : UInt64)
  | verdict (kind : Verdict)
  deriving DecidableEq, Repr

/-- What a `meta` expression loads. -/
def Packet.metaValue (p : Packet) : MetaKey → Option (List UInt8)
  | .nfproto => some [p.version.nfproto]
  | .l4proto => p.l4proto.map fun proto => [proto]
  | .iifname => some (p.iifname.name ++ List.replicate (16 - p.iifname.name.length) 0)

/-- A 32-bit value in the byte order of the host, which is little-endian. -/
def hostBytes (v : UInt32) : List UInt8 :=
  [v.toUInt8, (v >>> 8).toUInt8, (v >>> 16).toUInt8, (v >>> 24).toUInt8]

/-- Bytes from a header on, if the packet has that many. -/
def field (bytes : List UInt8) (offset len : Nat) : Option (List UInt8) :=
  if offset + len ≤ bytes.length then some ((bytes.drop offset).take len) else none

/-- What a `payload` expression loads. -/
def Packet.payload (p : Packet) (base : PayloadBase) (offset len : Nat) : Option (List UInt8) :=
  match base with
  | .networkHeader => field p.network offset len
  | .transportHeader => p.transport.bind fun bytes => field bytes offset len

/-- The register of a load and what it is to hold then, if the packet has it. -/
def Expr.loads (p : Packet) : Expr → Option (Nat × Option (List UInt8))
  | .metaLoad key register => some (register, p.metaValue key)
  | .ctState register => some (register, some (hostBytes p.ctState.bit))
  | .payload base offset len register => some (register, p.payload base offset len)
  | _ => none

/-- The expression after a packet has passed it. -/
def Expr.count (p : Packet) : Expr → Expr
  | .counter packets bytes => .counter (packets + 1) (bytes + UInt64.ofNat p.network.length)
  | e => e

/-! ## Rules, chains and tables -/

abbrev Rule := List Expr

inductive Hook where
  | prerouting
  | input
  | forward
  | output
  | postrouting
  deriving DecidableEq, Repr

inductive ChainType where
  | filter
  | route
  | nat
  deriving DecidableEq, Repr

/-- A base chain, as it is added. -/
structure ChainSpec where
  name : GoString
  type : ChainType
  hook : Hook
  priority : Int
  policy : Verdict
  deriving DecidableEq, Repr

/-- A base chain with its rules. -/
structure Chain extends ChainSpec where
  rules : List Rule
  deriving DecidableEq, Repr

structure TableId where
  family : UInt8
  name : GoString
  deriving DecidableEq, Repr

/-- `NFPROTO_INET`. -/
def familyINet : UInt8 := 1

end WeftAgent.Nft
