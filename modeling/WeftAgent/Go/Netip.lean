import WeftAgent.Go.Bytes
import WeftAgent.Go.Strconv
import WeftAgent.Go.Strings

/-!
# IP addresses and prefixes

`ParseAddr` and `ParsePrefix` of `net/netip`, and `ParseCIDR`, `CIDRMask`, `IP.Mask` and `IP.To4` of
`net`. Both parsers of prefixes rest on `ParseAddr`; they find the slash and read the number behind
it in ways of their own.
-/

namespace WeftAgent.Go.Netip

/-- `netip.Addr`. An IPv4-mapped address is an `ip6`. -/
inductive Addr where
  | ip4 (a : Vector UInt8 4)
  | ip6 (a : Vector UInt8 16) (z : GoString)
  deriving DecidableEq, Repr

def Addr.bytes : Addr → GoString
  | .ip4 a => a.toList
  | .ip6 a _ => a.toList

def Addr.zone : Addr → GoString
  | .ip4 _ => []
  | .ip6 _ z => z

def Addr.bitLen : Addr → Nat
  | .ip4 _ => 32
  | .ip6 _ _ => 128

/-- `v4InV6Prefix`. -/
def v4InV6 : GoString := List.replicate 10 0 ++ [0xff, 0xff]

def Addr.as16 : Addr → GoString
  | .ip4 a => v4InV6 ++ a.toList
  | .ip6 a _ => a.toList

/-! ## `netip.ParseAddr` -/

/-- `parseAddrError{in, msg}`. -/
def addrError (input : GoString) (msg : String) : GoError :=
  .errorf ("ParseAddr(%q): " ++ msg) [.str input]

/-- `parseAddrError{in, msg, at}`. -/
def addrErrorAt (input : GoString) (msg : String) (rest : GoString) : GoError :=
  .errorf ("ParseAddr(%q): " ++ msg ++ " (at %q)") [.str input, .str rest]

/-- The loop of `parseIPv4Fields` from the byte after `prev` on. The fields go to `ip` from `off`
on, `pos` of them are there. -/
def parseIPv4Fields {n : Nat} (input : GoString) (off : Nat) (prev : Option UInt8)
    (val digLen pos : Nat) (ip : Vector UInt8 n) : GoString → Except GoError (Vector UInt8 n)
  | [] =>
    if pos < 3 then .error (addrError input "IPv4 address too short")
    else .ok (ip.setIfInBounds (off + 3) (UInt8.ofNat val))
  | c :: s =>
    if 48 ≤ c ∧ c ≤ 57 then
      if digLen = 1 ∧ val = 0 then
        .error (addrError input "IPv4 field has octet with leading zero")
      else
        let val := val * 10 + (c.toNat - 48)
        if val > 255 then .error (addrError input "IPv4 field has value >255")
        else parseIPv4Fields input off (some c) val (digLen + 1) pos ip s
    else if c = 46 then
      -- .1.2.3, 1.2.3. and 1..2.3
      if prev = none ∨ s = [] ∨ prev = some 46 then
        .error (addrErrorAt input "IPv4 field must have at least one digit" (c :: s))
      else if pos = 3 then .error (addrError input "IPv4 address too long")
      else
        parseIPv4Fields input off (some c) 0 0 (pos + 1)
          (ip.setIfInBounds (off + pos) (UInt8.ofNat val)) s
    else .error (addrErrorAt input "unexpected character" (c :: s))

def parseIPv4 (s : GoString) : Except GoError Addr :=
  match parseIPv4Fields s 0 none 0 0 0 (Vector.replicate 4 0) s with
  | .error e => .error e
  | .ok a => .ok (.ip4 a)

def hexDigit (c : UInt8) : Option Nat :=
  if 48 ≤ c ∧ c ≤ 57 then some (c.toNat - 48)
  else if 97 ≤ c ∧ c ≤ 102 then some (c.toNat - 97 + 10)
  else if 65 ≤ c ∧ c ≤ 70 then some (c.toNat - 65 + 10)
  else none

/-- The digits of one group of an IPv6 address: how many there are, their number, and what follows
them. The group starts at `s`. -/
def scanGroup (input s : GoString) (off acc : Nat) :
    GoString → Except GoError (Nat × Nat × GoString)
  | [] => .ok (off, acc, [])
  | c :: rest =>
    match hexDigit c with
    | none => .ok (off, acc, c :: rest)
    | some d =>
      if off > 3 then .error (addrErrorAt input "each group must have 4 or less digits" s)
      else if acc * 16 + d > 65535 then
        .error (addrErrorAt input "IPv6 field has value >=2^16" s)
      else scanGroup input s (off + 1) (acc * 16 + d) rest

/-- The loop over the groups of an IPv6 address, while the given number of groups fits into what is
left of `ip`. It returns the bytes, how many of them are set, the position of `::` in them, and the
text that is left. -/
def parseGroups (input : GoString) (ellipsis : Option Nat) (ip : Vector UInt8 16) :
    Nat → GoString → Except GoError (Vector UInt8 16 × Nat × Option Nat × GoString)
  | 0, s => .ok (ip, 16, ellipsis, s)
  | groups + 1, s =>
    let i := 16 - 2 * (groups + 1)
    match scanGroup input s 0 0 s with
    | .error e => .error e
    | .ok (off, acc, rest) =>
      if off = 0 then
        .error (addrErrorAt input "each colon-separated field must have at least one digit" s)
      else if rest.head? = some 46 then
        if ellipsis = none ∧ i ≠ 12 then
          .error (addrErrorAt input
            "embedded IPv4 address must replace the final 2 fields of the address" s)
        else if i + 4 > 16 then
          .error (addrErrorAt input
            "too many hex fields to fit an embedded IPv4 at the end of the address" s)
        else
          match parseIPv4Fields input i none 0 0 0 ip s with
          | .error e => .error e
          | .ok ip => .ok (ip, i + 4, ellipsis, [])
      else
        let ip := (ip.setIfInBounds i (UInt8.ofNat (acc / 256))).setIfInBounds (i + 1)
          (UInt8.ofNat acc)
        match rest with
        | [] => .ok (ip, i + 2, ellipsis, [])
        | c :: s =>
          if c ≠ 58 then .error (addrErrorAt input "unexpected character, want colon" (c :: s))
          else
            match s with
            | [] => .error (addrErrorAt input "colon must be followed by more characters" [c])
            | d :: s' =>
              if d = 58 then
                if ellipsis.isSome then
                  .error (addrErrorAt input "multiple :: in address" (d :: s'))
                else if s' = [] then .ok (ip, i + 2, some (i + 2), [])
                else parseGroups input (some (i + 2)) ip groups s'
              else parseGroups input ellipsis ip groups (d :: s')

/-- The first `i` bytes of an address, with zeros at the position of the `::`. -/
def expandEllipsis (ip : Vector UInt8 16) (i ellipsis : Nat) : Vector UInt8 16 :=
  let n := 16 - i
  Vector.ofFn fun j : Fin 16 =>
    if j.val < ellipsis then ip[j]
    else if j.val < ellipsis + n then 0
    else ip[j.val - n]

/-- The text before the first `%`, and the zone after it. -/
def splitZone (s : GoString) : GoString × Option GoString :=
  match indexByte s 37 with
  | none => (s, none)
  | some i => (s.take i, some (s.drop (i + 1)))

/-- The text after a leading `::`. -/
def cutEllipsis : GoString → Option Nat × GoString
  | c :: d :: s => if c = 58 ∧ d = 58 then (some 0, s) else (none, c :: d :: s)
  | s => (none, s)

def parseIPv6 (input : GoString) : Except GoError Addr :=
  let (s, zone) := splitZone input
  if zone = some [] then .error (addrError input "zone must be a non-empty string")
  else
    let zone := zone.getD []
    let (ellipsis, s) := cutEllipsis s
    if ellipsis = some 0 ∧ s = [] then .ok (.ip6 (Vector.replicate 16 0) zone)
    else
      match parseGroups input ellipsis (Vector.replicate 16 0) 8 s with
      | .error e => .error e
      | .ok (ip, i, ellipsis, rest) =>
        if rest ≠ [] then .error (addrErrorAt input "trailing garbage after address" rest)
        else if i < 16 then
          match ellipsis with
          | none => .error (addrError input "address string too short")
          | some ellipsis => .ok (.ip6 (expandEllipsis ip i ellipsis) zone)
        else if ellipsis.isSome then
          .error (addrError input "the :: must expand to at least one field of zeros")
        else .ok (.ip6 ip zone)

/-- `netip.ParseAddr`. -/
def parseAddr (s : GoString) : Except GoError Addr :=
  match s.find? fun c => c = 46 ∨ c = 58 ∨ c = 37 with
  | none => .error (addrError s "unable to parse IP")
  | some c =>
    if c = 46 then parseIPv4 s
    else if c = 58 then parseIPv6 s
    else .error (addrError s "missing IPv6 address")

/-! ## `netip.ParsePrefix` -/

/-- A valid `netip.Prefix`. -/
structure Prefix where
  addr : Addr
  bits : Nat
  no_zone : addr.zone = []
  bits_le : bits ≤ addr.bitLen
  deriving DecidableEq, Repr

/-- `parsePrefixError{in, msg}`. -/
def prefixError (s : GoString) (msg : String) : GoError :=
  .errorf ("netip.ParsePrefix(%q): " ++ msg) [.str s]

/-- `netip.ParsePrefix`. -/
def parsePrefix (s : GoString) : Except GoError Prefix :=
  match lastIndexByte s 47 with
  | none => .error (prefixError s "no '/'")
  | some i =>
    match parseAddr (s.take i) with
    | .error e => .error (.wrap "netip.ParsePrefix(%q): %w" [.str s] e)
    | .ok ip =>
      if hzone : ip.zone = [] then
        let bitsStr := s.drop (i + 1)
        let badBits : GoError :=
          .errorf "netip.ParsePrefix(%q): bad bits after slash: %q" [.str s, .str bitsStr]
        -- `strconv.Atoi` would accept a sign and leading zeros
        if 1 < bitsStr.length ∧ (bitsStr.headD 0 < 49 ∨ 57 < bitsStr.headD 0) then .error badBits
        else
          match Strconv.parseInt 64 bitsStr with
          | (_, some _) => .error badBits
          | (bits, none) =>
            if hbits : 0 ≤ bits ∧ bits ≤ ip.bitLen then
              .ok ⟨ip, bits.toNat, hzone, by omega⟩
            else .error (prefixError s "prefix length out of range")
      else .error (prefixError s "IPv6 zones cannot be present in a prefix")

/-! ## `net.ParseCIDR` -/

/-- `net.IPNet`. -/
structure IPNet where
  ip : GoString
  mask : GoString
  deriving DecidableEq, Repr

/-- `net.CIDRMask`. -/
def cidrMask (ones bits : Nat) : GoString :=
  if bits ≠ 32 ∧ bits ≠ 128 then []
  else if ones > bits then []
  else leadingMask ones (bits / 8)

/-- `IP.Mask`, with the empty slice for nil. -/
def maskIP (ip mask : GoString) : GoString :=
  let mask :=
    if mask.length = 16 ∧ ip.length = 4 ∧ (mask.take 12).all (· = 0xff) then mask.drop 12 else mask
  let ip := if mask.length = 4 ∧ ip.length = 16 ∧ ip.take 12 = v4InV6 then ip.drop 12 else ip
  if ip.length ≠ mask.length then [] else maskBytes ip mask

/-- `IP.To4`, with `none` for nil. -/
def to4 (ip : GoString) : Option GoString :=
  if ip.length = 4 then some ip
  else if ip.length = 16 ∧ ip.take 12 = v4InV6 then some (ip.drop 12)
  else none

/-- The loop of `dtoi`: the number, how many digits it has, and whether it is one. -/
def dtoi (n i : Nat) : GoString → Nat × Nat × Bool
  | [] => (n, i, i ≠ 0)
  | c :: s =>
    if 48 ≤ c ∧ c ≤ 57 then
      let n := n * 10 + (c.toNat - 48)
      if n ≥ 0xffffff then (0xffffff, i, false) else dtoi n (i + 1) s
    else (n, i, i ≠ 0)

/-- `net.ParseCIDR`. -/
def parseCIDR (s : GoString) : Except GoError (GoString × IPNet) :=
  let err : GoError := .errorf "invalid CIDR address: %s" [.str s]
  match indexByte s 47 with
  | none => .error err
  | some slash =>
    let mask := s.drop (slash + 1)
    match parseAddr (s.take slash) with
    | .error _ => .error err
    | .ok ipAddr =>
      if ipAddr.zone ≠ [] then .error err
      else
        let (n, i, ok) := dtoi 0 0 mask
        if ¬ ok ∨ i ≠ mask.length ∨ n > ipAddr.bitLen then .error err
        else
          let m := cidrMask n ipAddr.bitLen
          .ok (ipAddr.as16, ⟨maskIP ipAddr.as16 m, m⟩)

end WeftAgent.Go.Netip
