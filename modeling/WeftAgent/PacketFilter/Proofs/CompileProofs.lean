import WeftAgent.Go.Proofs.NetipProofs
import WeftAgent.Nft.Matching
import WeftAgent.Nft.Reference
import WeftAgent.PacketFilter.Policy

/-!
# The translation preserves the meaning of rules

A valid rule is translated without an error to a rule that only accepts packets, and the packets it
accepts are those that the rule matches, unless it names a network of IPv4-mapped addresses
(`decides_buildRuleExprs`). The parts of a rule are translated one by one, and so is the proof.
-/

namespace WeftAgent.PacketFilter

open WeftAgent.Go WeftAgent.Go.Netip WeftAgent.Nft

/-- The first bytes of a field. -/
theorem field_take {bytes bs : List UInt8} {offset len n : Nat}
    (h : field bytes offset len = some bs) (hn : n ≤ len) :
    field bytes offset n = some (bs.take n) := by
  unfold field at h ⊢
  split_ifs at h with hle
  obtain rfl := Option.some.inj h
  rw [if_pos (by omega), List.take_take, Nat.min_eq_left hn]

variable {E : ExprMachine}

/-! ## The remote network -/

theorem length_ipNet (net : Prefix) : net.ipNet.ip.length = net.ipNet.mask.length := by
  simp [Prefix.ipNet, length_maskBytes]

theorem length_mask_le (net : Prefix) : net.ipNet.mask.length ≤ registerSize := by
  cases haddr : net.addr with
  | ip4 a => simp [Prefix.ipNet, haddr, Addr.bytes, registerSize]
  | ip6 a z => simp [Prefix.ipNet, haddr, Addr.bytes, registerSize]

/-- The masked address of a prefix is not changed by masking it again. -/
theorem maskIP_ipNet (net : Prefix) :
    maskIP net.ipNet.ip net.ipNet.mask = maskBytes net.addr.bytes net.ipNet.mask := by
  rw [maskIP_of_length_eq (length_ipNet net), Prefix.ipNet]
  exact maskBytes_maskBytes _ _

/-- What the expressions for a network test. -/
theorem tests_network (net : Prefix) (offset : Nat) (family : UInt8) :
    Tests E [
      .metaLoad .nfproto 1,
      .cmp .eq 1 [family],
      .payload .networkHeader offset net.ipNet.ip.length 1,
      .bitwise 1 1 net.ipNet.mask.length net.ipNet.mask (zeroBytes net.ipNet.mask.length),
      .cmp .eq 1 (maskIP net.ipNet.ip net.ipNet.mask)]
    fun p => p.version.nfproto = family ∧
      ∃ a, field p.network offset net.addr.bytes.length = some a ∧ inNetwork net a := by
  have hsize := length_mask_le net
  have hfamily : Tests E [.metaLoad .nfproto 1, .cmp .eq 1 [family]] fun p =>
      p.metaValue .nfproto = some [family] :=
    (loads_meta .nfproto).cmp_eq (by simp [registerSize]) fun p bs hbs => by
      obtain rfl := Option.some.inj hbs
      rfl
  have hpayload : Loads E [.payload .networkHeader offset net.ipNet.ip.length 1] 1
      (·.payload .networkHeader offset net.ipNet.ip.length) :=
    loads_payload .networkHeader offset (by rwa [length_ipNet])
  have hmask := hpayload.mask hsize fun p bs hbs => by
    rw [length_of_payload hbs, length_ipNet]
  have hdata : (maskIP net.ipNet.ip net.ipNet.mask).length = net.ipNet.mask.length := by
    rw [maskIP_of_length_eq (length_ipNet net), length_maskBytes (length_ipNet net), length_ipNet]
  have haddr := hmask.cmp_eq (hdata.trans_le hsize) fun p bs hbs => by
    obtain ⟨xs, hxs, rfl⟩ := Option.map_eq_some_iff.mp hbs
    have hxlen : xs.length = net.ipNet.mask.length := by
      rw [length_of_payload hxs, length_ipNet]
    rw [length_maskBytes hxlen, hxlen, hdata]
  refine (hfamily.append haddr).congr fun p => ?_
  have hlen : net.ipNet.ip.length = net.addr.bytes.length := by
    simp [Prefix.ipNet, length_maskBytes]
  have hbits : net.bits ≤ 8 * net.addr.bytes.length := by
    rw [length_bytes]
    exact net.bits_le
  refine and_congr (by simp [Packet.metaValue]) ?_
  rw [maskIP_ipNet, Option.map_eq_some_iff, hlen]
  refine exists_congr fun a => and_congr_right fun ha => ?_
  have hiff := mask_eq_mask_iff hbits (length_of_field ha) rfl
  rw [inNetwork, ← length_bytes]
  exact hiff.symm

/-- The masked address of a network passes for an IPv4 address exactly if the network is one, or is
a network of IPv4-mapped addresses. -/
theorem to4_ipNet {net : Prefix} (hmapped : ¬ Mapped net) :
    (to4 net.ipNet.ip).isSome = (versionOf net.addr = .ipv4 : Bool) := by
  have hlen : net.ipNet.ip.length = net.addr.bytes.length := by
    simp [Prefix.ipNet, length_maskBytes]
  unfold to4
  cases haddr : net.addr with
  | ip4 a =>
    have hfour : net.ipNet.ip.length = 4 := by rw [hlen, haddr, Addr.bytes, Vector.length_toList]
    simp [hfour, versionOf]
  | ip6 a z =>
    have hsixteen : net.ipNet.ip.length = 16 := by
      rw [hlen, haddr, Addr.bytes, Vector.length_toList]
    have hplain : net.ipNet.ip.take 12 ≠ v4InV6 := by
      intro htake
      refine hmapped ⟨by rw [haddr]; rfl, ?_⟩
      rw [← htake, Prefix.ipNet, ← hlen, hsixteen]
    simp [hsixteen, hplain, versionOf]

/-- The offset and the family are those of the address that the rule is about. -/
theorem addrOffset_ipNet {net : Prefix} {direction : GoString} (hmapped : ¬ Mapped net)
    (hdirection : direction = ingress ∨ direction = egress) :
    ∃ offset, addrOffset net.ipNet.ip direction = .ok (offset, (versionOf net.addr).nfproto) ∧
      ∀ p : Packet, p.version = versionOf net.addr →
        remoteAddress direction p = field p.network offset net.addr.bytes.length := by
  have hne : egress ≠ ingress := by decide
  have hin : ingress ≠ egress := hne.symm
  have hv4 := to4_ipNet hmapped
  unfold addrOffset
  rw [hv4]
  cases haddr : net.addr with
  | ip4 a =>
    have hlen : (Addr.ip4 a).bytes.length = 4 := by simp [Addr.bytes]
    rcases hdirection with rfl | rfl
    · refine ⟨12, by simp [versionOf, IpVersion.nfproto], fun p hp => ?_⟩
      simp only [remoteAddress, hp, versionOf, if_neg hin, hlen]
    · refine ⟨16, by simp [versionOf, IpVersion.nfproto, hne], fun p hp => ?_⟩
      simp only [remoteAddress, hp, versionOf, if_true, hlen]
  | ip6 a z =>
    have hlen : (Addr.ip6 a z).bytes.length = 16 := by simp [Addr.bytes]
    rcases hdirection with rfl | rfl
    · refine ⟨8, by simp [versionOf, IpVersion.nfproto], fun p hp => ?_⟩
      simp only [remoteAddress, hp, versionOf, if_neg hin, hlen]
    · refine ⟨24, by simp [versionOf, IpVersion.nfproto, hne], fun p hp => ?_⟩
      simp only [remoteAddress, hp, versionOf, if_true, hlen]

theorem Mapped.length_bytes {net : Prefix} (h : Mapped net) : net.addr.bytes.length = 16 := by
  cases haddr : net.addr with
  | ip4 a =>
    have hversion := h.1
    rw [haddr] at hversion
    cases hversion
  | ip6 a z => simp [Addr.bytes]

/-- A network of IPv4-mapped addresses passes for an IPv4 network. -/
theorem addrOffset_mapped {net : Prefix} {direction : GoString} (hmapped : Mapped net)
    (hdirection : direction = ingress ∨ direction = egress) :
    ∃ offset, addrOffset net.ipNet.ip direction = .ok (offset, IpVersion.ipv4.nfproto) ∧
      ∀ p : Packet, p.version = .ipv4 →
        remoteAddress direction p = field p.network offset 4 := by
  have hne : egress ≠ ingress := by decide
  have hin : ingress ≠ egress := hne.symm
  have hv4 : (to4 net.ipNet.ip).isSome = true := by
    have hlen : net.ipNet.ip.length = 16 := by
      simp [Prefix.ipNet, length_maskBytes, hmapped.length_bytes]
    have hnet : net.ipNet.ip = maskBytes net.addr.bytes (leadingMask net.bits 16) := by
      rw [Prefix.ipNet, hmapped.length_bytes]
    rw [to4, if_neg (by omega), if_pos ⟨hlen, hnet ▸ hmapped.2⟩]
    rfl
  unfold addrOffset
  rw [hv4]
  rcases hdirection with rfl | rfl
  · refine ⟨12, by simp [IpVersion.nfproto], fun p hp => ?_⟩
    simp only [remoteAddress, hp, if_neg hin]
  · refine ⟨16, by simp [IpVersion.nfproto, hne], fun p hp => ?_⟩
    simp only [remoteAddress, hp, if_true]

/-- More than 80 bits of such a network are fixed. -/
theorem Mapped.bits_gt {net : Prefix} (h : Mapped net) : 80 < net.bits := by
  by_contra hle
  have hzeros : (leadingMask net.bits 16).drop 10 = List.replicate 6 0 :=
    drop_leadingMask (by omega) (by omega)
  have hmasked : (maskBytes net.addr.bytes (leadingMask net.bits 16)).drop 10 =
      List.replicate 6 0 := by
    rw [maskBytes, List.drop_zipWith, hzeros]
    exact maskBytes_zeros (by rw [List.length_drop, h.length_bytes])
  have hends := congrArg (List.drop 10) h.2
  rw [List.drop_take, hmasked] at hends
  exact absurd hends (by decide)

/-- What is compared with the first four bytes of such a network is compared with zeros. -/
theorem Mapped.take_of_inNetwork {net : Prefix} (h : Mapped net) {a : List UInt8}
    (ha : a.length = 16) (hin : inNetwork net a) : a.take 4 = [0, 0, 0, 0] := by
  have hlen := h.length_bytes
  have hgt := h.bits_gt
  have hbits : net.bits ≤ 8 * 16 := by
    rw [← hlen, Netip.length_bytes]
    exact net.bits_le
  have hequal : maskBytes a (leadingMask net.bits 16) =
      maskBytes net.addr.bytes (leadingMask net.bits 16) := by
    rw [mask_eq_mask_iff hbits ha hlen]
    rwa [inNetwork, ← Netip.length_bytes, hlen] at hin
  have hones : (leadingMask net.bits 16).take 4 = List.replicate 4 0xff :=
    take_leadingMask (by omega) (by omega)
  have hfirst := congrArg (List.take 4) hequal
  have hmapped := congrArg (List.take 4) h.2
  rw [List.take_take, Nat.min_eq_left (by decide)] at hmapped
  rw [hmapped, maskBytes, List.take_zipWith, hones] at hfirst
  exact (maskBytes_ones (by simp [ha])).symm.trans hfirst

theorem addrOffset_ok (ip : GoString) {direction : GoString}
    (hdirection : direction = ingress ∨ direction = egress) :
    ∃ offset family, addrOffset ip direction = .ok (offset, family) := by
  unfold addrOffset
  cases (to4 ip).isSome <;> rcases hdirection with rfl | rfl <;> exact ⟨_, _, rfl⟩

theorem nfproto_injective {v w : IpVersion} : v.nfproto = w.nfproto ↔ v = w := by
  cases v <;> cases w <;> decide

section Rule

variable {r : FirewallRule}

theorem tests_cidrExprs (hdirection : r.direction = ingress ∨ r.direction = egress)
    (hcidr : r.remoteCIDR ≠ [] → ∃ net, parsePrefix r.remoteCIDR = .ok net) :
    ∃ es P, cidrExprs r = .ok es ∧ (∀ E, Tests E es P) ∧
      ((∀ net, parsePrefix r.remoteCIDR = .ok net → ¬ Mapped net) → ∀ p, P p ↔
        (r.remoteCIDR ≠ [] → ∃ net a, parsePrefix r.remoteCIDR = .ok net ∧
          versionOf net.addr = p.version ∧ remoteAddress r.direction p = some a ∧
          inNetwork net a)) ∧
      ∀ net, parsePrefix r.remoteCIDR = .ok net → Mapped net → ∀ p, P p → p.version = .ipv4 ∧
        remoteAddress r.direction p = some [0, 0, 0, 0] := by
  unfold cidrExprs
  by_cases hnone : r.remoteCIDR = []
  · refine ⟨[], _, by simp [hnone], fun _ => Tests.nil, fun _ p => by simp [hnone],
      fun net hnet => ?_⟩
    rw [hnone] at hnet
    cases hnet
  obtain ⟨net, hnet⟩ := hcidr hnone
  obtain ⟨offset, family, hoffset⟩ := addrOffset_ok net.ipNet.ip hdirection
  rw [if_pos hnone, parseCIDR_of_parsePrefix hnet]
  dsimp only
  rw [hoffset]
  refine ⟨_, _, rfl, fun _ => tests_network net offset family, fun hmapped p => ?_,
    fun net' hnet' hmapped p => ?_⟩
  · obtain ⟨offset', hoffset', hremote⟩ := addrOffset_ipNet (hmapped net hnet) hdirection
    obtain ⟨rfl, rfl⟩ : offset = offset' ∧ family = (versionOf net.addr).nfproto := by
      simpa using hoffset.symm.trans hoffset'
    rw [nfproto_injective]
    constructor
    · rintro ⟨hversion, a, ha, hin⟩ -
      exact ⟨net, a, hnet, hversion.symm, hremote p hversion ▸ ha, hin⟩
    · intro h
      obtain ⟨net', a, hnet', hversion, ha, hin⟩ := h hnone
      obtain rfl : net = net' := Except.ok.inj (hnet.symm.trans hnet')
      exact ⟨hversion.symm, a, hremote p hversion.symm ▸ ha, hin⟩
  · -- four bytes of the 16 that are compared are the address
    obtain rfl : net = net' := Except.ok.inj (hnet.symm.trans hnet')
    obtain ⟨offset', hoffset', hremote⟩ := addrOffset_mapped hmapped hdirection
    obtain ⟨rfl, rfl⟩ : offset = offset' ∧ family = IpVersion.ipv4.nfproto := by
      simpa using hoffset.symm.trans hoffset'
    rintro ⟨hversion, a, ha, hin⟩
    rw [nfproto_injective] at hversion
    rw [hmapped.length_bytes] at ha
    refine ⟨hversion, ?_⟩
    rw [hremote p hversion, field_take ha (by omega),
      hmapped.take_of_inNetwork (length_of_field ha) hin]

/-! ## Protocol and ports -/

theorem tests_protocolExprs
    (hprotocol : r.protocol ≠ [] → ∃ l4, l4Number r.protocol = some l4) :
    ∃ es, protocolExprs r = .ok es ∧ ∀ E, Tests E es fun p => r.protocol ≠ [] →
      ∃ l4, l4Number r.protocol = some l4 ∧ p.l4proto = some l4 := by
  unfold protocolExprs
  by_cases hnone : r.protocol = []
  · exact ⟨[], by simp [hnone], fun _ => Tests.nil.congr fun p => by simp [hnone]⟩
  · obtain ⟨l4, hl4⟩ := hprotocol hnone
    rw [if_pos hnone, hl4]
    have hsize : [l4].length ≤ registerSize := by simp [registerSize]
    refine ⟨_, rfl, fun E => ((loads_meta .l4proto).cmp_eq hsize fun p bs hbs => ?_).congr
      fun p => ?_⟩
    · obtain ⟨proto, -, rfl⟩ := Option.map_eq_some_iff.mp hbs
      rfl
    · simp [hnone, Packet.metaValue]

theorem beNat_portBytes (p : UInt16) : beNat (portBytes p) = p.toNat := by
  have hhigh : (p >>> 8).toUInt8.toNat = p.toNat / 256 := by
    have hlt := p.toNat_lt
    simp [Nat.shiftRight_eq_div_pow]
    omega
  have hlow : p.toUInt8.toNat = p.toNat % 256 := by simp
  simp only [portBytes, beNat_cons, hhigh, hlow, List.length_cons, List.length_nil, beNat_nil]
  omega

theorem tests_portExprs (r : FirewallRule) :
    Tests E (portExprs r) fun p => r.portMin ≠ 0 ∨ r.portMax ≠ 0 →
      ∃ port, destinationPort p = some port ∧ r.portMin.toNat ≤ port ∧ port ≤ r.portMax.toNat := by
  unfold portExprs
  by_cases hgiven : r.portMin ≠ 0 ∨ r.portMax ≠ 0
  swap
  · rw [if_neg hgiven]
    exact Tests.nil.congr fun p => by simp only [hgiven, false_imp_iff]
  rw [if_pos hgiven]
  have hlength : ∀ (p : Packet) bs, p.payload .transportHeader 2 2 = some bs →
      bs.length = (portBytes r.portMin).length := fun p bs hbs => length_of_payload hbs
  have hpayload : Loads E [.payload .transportHeader 2 2 1] 1 (·.payload .transportHeader 2 2) :=
    loads_payload .transportHeader 2 (by simp [registerSize])
  have hsize : (portBytes r.portMin).length ≤ registerSize := by simp [portBytes, registerSize]
  have hport : ∀ p, (∃ port, destinationPort p = some port ∧ r.portMin.toNat ≤ port ∧
      port ≤ r.portMax.toNat) ↔ ∃ bs, p.payload .transportHeader 2 2 = some bs ∧
        r.portMin.toNat ≤ beNat bs ∧ beNat bs ≤ r.portMax.toNat := by
    intro p
    constructor
    · rintro ⟨port, hdest, hrange⟩
      obtain ⟨bs, hbs, rfl⟩ := Option.map_eq_some_iff.mp hdest
      exact ⟨bs, hbs, hrange⟩
    · rintro ⟨bs, hbs, hrange⟩
      exact ⟨beNat bs, Option.map_eq_some_iff.mpr ⟨bs, hbs, rfl⟩, hrange⟩
  split_ifs with heq
  · -- one port
    refine (hpayload.cmp_eq hsize hlength).congr fun p => ?_
    rw [imp_iff_right hgiven, hport]
    constructor
    · rintro ⟨bs, hbs, hmin, hmax⟩
      rw [← heq] at hmax
      have hbe : beNat bs = beNat (portBytes r.portMin) := by rw [beNat_portBytes]; omega
      rw [hbs, (beNat_inj (hlength p bs hbs)).mp hbe]
    · intro hbs
      refine ⟨_, hbs, ?_⟩
      rw [beNat_portBytes, ← heq]
      exact ⟨le_rfl, le_rfl⟩
  · have hto : (portBytes r.portMax).length = (portBytes r.portMin).length := rfl
    refine (hpayload.range_eq hsize hto hlength).congr fun p => ?_
    rw [imp_iff_right hgiven, hport, beNat_portBytes, beNat_portBytes]

/-! ## Rules -/

/-- What `Validate` has checked, as far as the translation needs it. -/
theorem FirewallRule.validate_eq_none (h : r.validate = none) :
    (r.direction = ingress ∨ r.direction = egress) ∧
      (r.protocol ≠ [] → ∃ l4, l4Number r.protocol = some l4) ∧
      (r.remoteCIDR ≠ [] → ∃ net, parsePrefix r.remoteCIDR = .ok net) := by
  unfold FirewallRule.validate at h
  split_ifs at h with hdirection hprotocol
  refine ⟨by tauto, fun hgiven => ?_, fun hgiven => ?_⟩
  · unfold l4Number
    split_ifs with htcp hudp hicmp
    · exact ⟨_, rfl⟩
    · exact ⟨_, rfl⟩
    · exact ⟨_, rfl⟩
    · exact absurd ⟨hgiven, htcp, hudp, hicmp⟩ hprotocol
  · have hcidr := (Option.or_eq_none_iff.mp h).2
    unfold FirewallRule.validateCIDR at hcidr
    rw [if_pos hgiven] at hcidr
    split at hcidr
    · cases hcidr
    · exact ⟨_, ‹_›⟩

/-- A valid rule is translated, and the translation accepts what the rule matches; if it names a
network of IPv4-mapped addresses, nothing but packets from the unspecified address. -/
theorem decides_buildRuleExprs (hvalid : r.validate = none) :
    ∃ rule P, buildRuleExprs r = .ok rule ∧ (∀ E, Decides E .accept rule P) ∧
      ((∀ net, parsePrefix r.remoteCIDR = .ok net → ¬ Mapped net) → ∀ p, P p ↔ r.Matches p) ∧
      ∀ net, parsePrefix r.remoteCIDR = .ok net → Mapped net → ∀ p, P p → p.version = .ipv4 ∧
        remoteAddress r.direction p = some [0, 0, 0, 0] := by
  obtain ⟨hdirection, hprotocol, hcidr⟩ := FirewallRule.validate_eq_none hvalid
  obtain ⟨cidr, P, hcidrExprs, htcidr, hmeaning, hdead⟩ := tests_cidrExprs hdirection hcidr
  obtain ⟨protocol, hprotocolExprs, htprotocol⟩ := tests_protocolExprs hprotocol
  refine ⟨cidr ++ protocol ++ portExprs r ++ [.verdict .accept], _, ?_, fun E =>
    (((htcidr E).append (htprotocol E)).append (tests_portExprs r)).decides .accept,
    fun hmapped p => ?_, fun net hnet hmapped p hP => hdead net hnet hmapped p hP.1.1⟩
  · unfold buildRuleExprs
    rw [hcidrExprs]
    dsimp only
    rw [hprotocolExprs]
  · rw [hmeaning hmapped p]
    exact ⟨fun h => ⟨h.1.1, h.1.2, h.2⟩, fun h => ⟨⟨h.remote, h.protocol⟩, h.port⟩⟩

/-- A valid rule that names a network of IPv4-mapped addresses is translated without an error, but
to a rule that accepts nothing except IPv4 packets whose remote address is `0.0.0.0`. -/
theorem mapped_rule_matches_unspecified_only (hvalid : r.validate = none) {net : Prefix}
    (hnet : parsePrefix r.remoteCIDR = .ok net) (hmapped : Mapped net) :
    ∃ rule, buildRuleExprs r = .ok rule ∧ ∀ (E : ExprMachine) (p : Packet) (regs : E.Regs),
      (E.runRule p regs rule).2.2 = .done .accept →
        p.version = .ipv4 ∧ remoteAddress r.direction p = some [0, 0, 0, 0] := by
  obtain ⟨rule, P, hbuild, hdecides, -, hdead⟩ := decides_buildRuleExprs hvalid
  refine ⟨rule, hbuild, fun E p regs haccept => ?_⟩
  by_cases hP : P p
  · exact hdead net hnet hmapped p hP
  · obtain ⟨regs', hrun⟩ := (hdecides E).fail regs hP
    rw [hrun] at haccept
    cases haccept

end Rule

/-- All traffic from `::ffff:10.0.0.0/104`. -/
def mappedTen : FirewallRule := { direction := ingress, remoteCIDR := lit "::ffff:10.0.0.0/104" }

def mappedTenPrefix : Prefix where
  addr := .ip6 #v[0, 0, 0, 0, 0, 0, 0, 0, 0, 0, 255, 255, 10, 0, 0, 0] []
  bits := 104
  no_zone := rfl
  bits_le := by decide

/-- An IPv4 packet from `0.0.0.0` whose bytes up to the payload happen to fit. -/
def strayPacket : Packet where
  iifname := ⟨lit "eth0", by decide, by decide⟩
  ctState := .new
  version := .ipv4
  l4proto := some 17
  network := List.replicate 22 0 ++ [255, 255, 10, 0, 0, 0]
  transport := some [0, 0, 255, 255, 10, 0, 0, 0]

theorem mappedTen_matches_strayPacket :
    ∃ rule, buildRuleExprs mappedTen = .ok rule ∧
      (Reference.machine.runRule strayPacket Reference.machine.initial rule).2.2 = .done .accept ∧
      remoteAddress ingress strayPacket = some [0, 0, 0, 0] := by
  have hnet : parsePrefix mappedTen.remoteCIDR = .ok mappedTenPrefix := rfl
  have hvalid : mappedTen.validate = none := rfl
  have hmapped : Mapped mappedTenPrefix := ⟨rfl, by decide⟩
  obtain ⟨rule, hbuild, honly⟩ := mapped_rule_matches_unspecified_only hvalid hnet hmapped
  obtain ⟨rule', hbuild', haccept⟩ : ∃ rule, buildRuleExprs mappedTen = .ok rule ∧
      (Reference.machine.runRule strayPacket Reference.machine.initial rule).2.2 =
        .done .accept := ⟨_, rfl, rfl⟩
  obtain rfl : rule = rule' := Except.ok.inj (hbuild.symm.trans hbuild')
  exact ⟨rule, hbuild, haccept, (honly Reference.machine strayPacket _ haccept).2⟩

/-! ## The rules that every firewall has -/

theorem decides_ctEstablishedAccept :
    Decides E .accept ctEstablishedAccept fun p =>
      p.ctState = .established ∨ p.ctState = .related := by
  have hsize : (binaryUint32 (CtState.established.bit ||| CtState.related.bit)).length ≤
      registerSize := by simp [binaryUint32, registerSize]
  have hmask : Loads E [.ctState 1, .bitwise 1 1 4
      (binaryUint32 (CtState.established.bit ||| CtState.related.bit)) [0, 0, 0, 0]] 1 _ :=
    loads_ctState.mask hsize fun p bs hbs => by
      obtain rfl := Option.some.inj hbs
      rfl
  have hzeros : [(0 : UInt8), 0, 0, 0].length ≤ registerSize := by simp [registerSize]
  have htests := hmask.cmp_neq hzeros fun p bs hbs => by
    obtain ⟨xs, hxs, rfl⟩ := Option.map_eq_some_iff.mp hbs
    obtain rfl := Option.some.inj hxs
    rfl
  refine (htests.congr fun p => ?_).decides .accept
  simp only [Option.map_some, Option.some.injEq, exists_eq_left']
  cases p.ctState <;> decide

/-- Zeros behind a name that contains none can be told apart from it. -/
theorem takeWhile_padded {name : GoString} (hno : 0 ∉ name) (n : Nat) :
    (name ++ List.replicate n 0).takeWhile (· ≠ 0) = name := by
  have hall : ∀ b ∈ name, decide (b ≠ 0) = true := by
    intro b hb
    have hne : b ≠ 0 := fun h => hno (h ▸ hb)
    simpa using hne
  rw [List.takeWhile_append_of_pos hall]
  cases n with
  | zero => simp
  | succ n => simp [List.replicate_succ]

theorem decides_iifAccept (name : IfName) :
    Decides E .accept (iifAccept name.name) fun p => p.iifname.name = name.name := by
  have hname := name.short
  have hlen : (nftIfname name.name).length = 16 := by
    simp [nftIfname]
    omega
  have htests : Tests E [.metaLoad .iifname 1, .cmp .eq 1 (nftIfname name.name)] fun p =>
      p.metaValue .iifname = some (nftIfname name.name) :=
    (loads_meta .iifname).cmp_eq hlen.le fun p bs hbs => by
      obtain rfl := Option.some.inj hbs
      have hshort := p.iifname.short
      rw [hlen]
      simp
      omega
  refine (htests.congr fun p => ?_).decides .accept
  have htake : name.name.take 16 = name.name := List.take_of_length_le name.short.le
  rw [Packet.metaValue, nftIfname, htake, Option.some.injEq]
  constructor
  · intro heq
    rw [heq]
  · intro heq
    have hnames := congrArg (List.takeWhile (· ≠ 0)) heq
    rwa [takeWhile_padded p.iifname.no_nul, takeWhile_padded name.no_nul] at hnames

end WeftAgent.PacketFilter
