import WeftAgent.Go.Netip

/-!
# The two parsers of prefixes

`net.ParseCIDR` accepts whatever `netip.ParsePrefix` accepts, and yields the masked address of the
prefix (`parseCIDR_of_parsePrefix`). They split the text at the first and at the last slash; an
address without a zone contains none, which is why they see the same parts.
-/

namespace WeftAgent.Go.Netip

/-! ## An address without a zone contains no slash -/

theorem slash_notMem_of_parseIPv4Fields {n : Nat} {input : GoString} {off : Nat}
    {prev : Option UInt8} {val digLen pos : Nat} {ip r : Vector UInt8 n} {s : GoString}
    (h : parseIPv4Fields input off prev val digLen pos ip s = .ok r) : 47 ∉ s := by
  induction s generalizing prev val digLen pos ip with
  | nil => exact List.not_mem_nil
  | cons c s ih =>
    rw [parseIPv4Fields] at h
    rw [List.mem_cons, not_or]
    dsimp only at h
    split_ifs at h with hdigit hzero hbig hdot
    · refine ⟨?_, ih h⟩
      rintro rfl
      exact absurd hdigit.1 (by decide)
    · refine ⟨?_, ih h⟩
      rintro rfl
      exact absurd hdot (by decide)

theorem slash_mem_of_scanGroup {input s₀ s rest : GoString} {off acc off' acc' : Nat}
    (h : scanGroup input s₀ off acc s = .ok (off', acc', rest)) (hs : 47 ∈ s) : 47 ∈ rest := by
  induction s generalizing off acc with
  | nil => exact absurd hs List.not_mem_nil
  | cons c s ih =>
    rw [scanGroup] at h
    split at h
    · obtain ⟨-, -, rfl⟩ : off = off' ∧ acc = acc' ∧ c :: s = rest := by simpa using h
      exact hs
    · rename_i d hd
      split_ifs at h
      rcases List.mem_cons.mp hs with rfl | hs
      · exact absurd hd (by simp [hexDigit])
      · exact ih h hs

theorem slash_mem_of_parseGroups {input : GoString} {ellipsis ellipsis' : Option Nat}
    {ip ip' : Vector UInt8 16} {groups i : Nat} {s rest : GoString}
    (h : parseGroups input ellipsis ip groups s = .ok (ip', i, ellipsis', rest)) (hs : 47 ∈ s) :
    47 ∈ rest := by
  induction groups generalizing ellipsis ip s with
  | zero =>
    rw [parseGroups] at h
    simp only [Except.ok.injEq, Prod.mk.injEq] at h
    exact h.2.2.2 ▸ hs
  | succ groups ih =>
    rw [parseGroups] at h
    cases hscan : scanGroup input s 0 0 s with
    | error e => simp [hscan] at h
    | ok g =>
      obtain ⟨off, acc, follow⟩ := g
      have hfollow : 47 ∈ follow := slash_mem_of_scanGroup hscan hs
      simp only [hscan] at h
      by_cases hoff : off = 0
      · rw [if_pos hoff] at h
        cases h
      rw [if_neg hoff] at h
      by_cases hdot : follow.head? = some 46
      · -- an embedded IPv4 address takes all of the text
        rw [if_pos hdot] at h
        split_ifs at h
        cases hv4 : parseIPv4Fields input (16 - 2 * (groups + 1)) none 0 0 0 ip s with
        | error e => simp [hv4] at h
        | ok a => exact absurd hs (slash_notMem_of_parseIPv4Fields hv4)
      rw [if_neg hdot] at h
      have hne : (47 : UInt8) ≠ 58 := by decide
      cases follow with
      | nil => exact absurd hfollow List.not_mem_nil
      | cons c follow =>
        dsimp only at h
        by_cases hcolon : c = 58
        swap
        · rw [if_pos hcolon] at h
          cases h
        subst hcolon
        rw [if_neg (not_not.mpr rfl)] at h
        have htail : 47 ∈ follow := (List.mem_cons.mp hfollow).resolve_left hne
        cases follow with
        | nil => exact absurd htail List.not_mem_nil
        | cons d follow =>
          dsimp only at h
          by_cases hsecond : d = 58
          · subst hsecond
            rw [if_pos rfl] at h
            have hafter : 47 ∈ follow := (List.mem_cons.mp htail).resolve_left hne
            split_ifs at h with hmany hend
            · exact absurd hafter (hend ▸ List.not_mem_nil)
            · exact ih h hafter
          · rw [if_neg hsecond] at h
            exact ih h htail

theorem slash_mem_cutEllipsis {s : GoString} (hs : 47 ∈ s) : 47 ∈ (cutEllipsis s).2 := by
  have hne : (47 : UInt8) ≠ 58 := by decide
  unfold cutEllipsis
  split
  · split_ifs with h
    · obtain ⟨rfl, rfl⟩ := h
      exact (List.mem_cons.mp ((List.mem_cons.mp hs).resolve_left hne)).resolve_left hne
    · exact hs
  · exact hs

theorem splitZone_cases (s : GoString) :
    splitZone s = (s, none) ∨ ∃ text zone, splitZone s = (text, some zone) := by
  unfold splitZone
  split
  · exact .inl rfl
  · exact .inr ⟨_, _, rfl⟩

/-- An accepted address keeps its zone, and the zone is not empty if there is one. -/
theorem zone_of_parseIPv6 {s : GoString} {a : Addr} (h : parseIPv6 s = .ok a) :
    (splitZone s).2 ≠ some [] ∧ a.zone = (splitZone s).2.getD [] := by
  unfold parseIPv6 at h
  dsimp only at h
  split_ifs at h with hempty honly
  · cases h
    exact ⟨hempty, rfl⟩
  · refine ⟨hempty, ?_⟩
    cases hgroups : parseGroups s (cutEllipsis (splitZone s).1).1 (Vector.replicate 16 0) 8
        (cutEllipsis (splitZone s).1).2 with
    | error e => simp [hgroups] at h
    | ok g =>
      obtain ⟨ip, i, ellipsis, rest⟩ := g
      rw [hgroups] at h
      dsimp only at h
      split_ifs at h
      · cases ellipsis with
        | none => cases h
        | some ellipsis =>
          cases h
          rfl
      · cases h
        rfl

theorem slash_notMem_of_parseIPv6 {s : GoString} {a : Addr} (h : parseIPv6 s = .ok a)
    (hzone : a.zone = []) : 47 ∉ s := by
  intro hs
  unfold parseIPv6 at h
  rcases splitZone_cases s with hsplit | ⟨text, zone, hsplit⟩
  · have hcut := slash_mem_cutEllipsis hs
    simp only [hsplit, reduceCtorEq, if_false] at h
    split_ifs at h with honly
    · exact absurd hcut (honly.2 ▸ List.not_mem_nil)
    · cases hgroups :
          parseGroups s (cutEllipsis s).1 (Vector.replicate 16 0) 8 (cutEllipsis s).2 with
      | error e => simp [hgroups] at h
      | ok g =>
        obtain ⟨ip, i, ellipsis, rest⟩ := g
        have hrest := slash_mem_of_parseGroups hgroups hcut
        rw [hgroups] at h
        dsimp only at h
        rw [if_pos (List.ne_nil_of_mem hrest)] at h
        cases h
  · obtain ⟨hne, heq⟩ := zone_of_parseIPv6 h
    rw [hsplit] at hne heq
    rw [hzone, Option.getD_some] at heq
    exact hne (by rw [← heq])

theorem slash_notMem_of_parseAddr {s : GoString} {a : Addr} (h : parseAddr s = .ok a)
    (hzone : a.zone = []) : 47 ∉ s := by
  unfold parseAddr at h
  split at h
  · cases h
  · split_ifs at h
    · unfold parseIPv4 at h
      split at h
      · cases h
      · rename_i hfields
        exact slash_notMem_of_parseIPv4Fields hfields
    · exact slash_notMem_of_parseIPv6 h hzone

/-! ## The number behind the slash -/

theorem le_of_parseDigits {maxVal n m : Nat} {s : GoString}
    (h : Strconv.parseDigits maxVal n s = (m, none)) : n ≤ m := by
  induction s generalizing n with
  | nil =>
    rw [Strconv.parseDigits] at h
    exact (Prod.mk.inj h).1.le
  | cons c s ih =>
    rw [Strconv.parseDigits] at h
    split_ifs at h
    · cases h
    · dsimp only at h
      split_ifs at h
      · cases h
      · have hle := ih h
        omega
    · cases h

/-- `dtoi` reads the small numbers that `ParseUint` reads. -/
theorem dtoi_of_parseDigits {maxVal n m i : Nat} {s : GoString}
    (h : Strconv.parseDigits maxVal n s = (m, none)) (hm : m < 0xffffff) :
    dtoi n i s = (m, i + s.length, decide (i + s.length ≠ 0)) := by
  induction s generalizing n i with
  | nil =>
    rw [Strconv.parseDigits] at h
    rw [dtoi, (Prod.mk.inj h).1, List.length_nil, add_zero]
  | cons c s ih =>
    rw [Strconv.parseDigits] at h
    split_ifs at h with hdigit hbig
    · cases h
    · dsimp only at h
      split_ifs at h with hmax
      · cases h
      · have hle := le_of_parseDigits h
        rw [dtoi, if_pos hdigit]
        dsimp only
        rw [if_neg (by omega), ih h, List.length_cons]
        simp only [Nat.add_assoc, Nat.add_comm 1]
    · cases h

/-- A number that is out of range reads as the largest one. -/
theorem eq_max_of_parseDigits {maxVal n m : Nat} {s : GoString}
    (h : Strconv.parseDigits maxVal n s = (m, some .errRange)) : m = maxVal := by
  induction s generalizing n with
  | nil =>
    rw [Strconv.parseDigits] at h
    cases h
  | cons c s ih =>
    rw [Strconv.parseDigits] at h
    split_ifs at h
    · exact (Prod.mk.inj h).1.symm
    · dsimp only at h
      split_ifs at h
      · exact (Prod.mk.inj h).1.symm
      · exact ih h
    · cases h

/-- A number without a sign that `ParseInt` reads is the one that `ParseUint` reads. -/
theorem parseDigits_of_parseInt {s : GoString} {i : Int} (h : Strconv.parseInt 64 s = (i, none))
    (hsign : Strconv.splitSign s = (false, s)) :
    Strconv.parseDigits (2 ^ 64 - 1) 0 s = (i.toNat, none) ∧ s ≠ [] := by
  unfold Strconv.parseInt Strconv.parseUint at h
  rw [hsign] at h
  split_ifs at h with hnil
  · cases h
  · refine ⟨?_, hnil⟩
    dsimp only at h
    rw [if_neg hnil] at h
    cases hdigits : Strconv.parseDigits (2 ^ 64 - 1) 0 s with
    | mk n err =>
      rw [hdigits] at h
      simp only [Bool.false_eq_true, not_false_eq_true, true_and, false_and, if_false] at h
      split_ifs at h with hsyntax hbig
      · cases h
      · cases h
      · cases err with
        | none => rw [← (Prod.mk.inj h).1, Int.toNat_natCast]
        | some e =>
          cases e with
          | errSyntax => exact absurd rfl hsyntax
          | errRange =>
            rw [eq_max_of_parseDigits hdigits] at hbig
            exact absurd hbig (by decide)

/-- `dtoi` reads the number of bits that `ParsePrefix` accepts. -/
theorem dtoi_of_parseInt {s : GoString} {i : Int} (h : Strconv.parseInt 64 s = (i, none))
    (hhead : ¬ (1 < s.length ∧ (s.headD 0 < 49 ∨ 57 < s.headD 0))) (hi : i < 0xffffff) :
    dtoi 0 0 s = (i.toNat, s.length, true) := by
  have hdigit : ∀ sign rest, s = sign :: rest → sign = 43 ∨ sign = 45 → False := by
    rintro sign rest rfl hsigns
    cases rest with
    | nil =>
      -- a sign alone is no number
      rcases hsigns with rfl | rfl
      · exact absurd h (by simp [Strconv.parseInt, Strconv.splitSign, Strconv.parseUint])
      · exact absurd h (by simp [Strconv.parseInt, Strconv.splitSign, Strconv.parseUint])
    | cons d rest =>
      refine hhead ⟨by simp, .inl ?_⟩
      rcases hsigns with rfl | rfl <;> simp
  have hsign : Strconv.splitSign s = (false, s) := by
    unfold Strconv.splitSign
    split
    · exact (hdigit _ _ rfl (.inl rfl)).elim
    · exact (hdigit _ _ rfl (.inr rfl)).elim
    · rfl
  obtain ⟨hdigits, hnil⟩ := parseDigits_of_parseInt h hsign
  rw [dtoi_of_parseDigits hdigits (by omega), zero_add]
  simp [hnil]

/-! ## Prefixes -/

/-- What `ParseCIDR` computes for a prefix. -/
def Prefix.ipNet (p : Prefix) : IPNet :=
  let mask := leadingMask p.bits p.addr.bytes.length
  ⟨maskBytes p.addr.bytes mask, mask⟩

theorem length_bytes (a : Addr) : 8 * a.bytes.length = a.bitLen := by
  cases a <;> simp [Addr.bytes, Addr.bitLen]

/-- The text around the last occurrence of a byte. -/
theorem eq_append_of_lastIndexByte {s : GoString} {c : UInt8} {i : Nat}
    (h : lastIndexByte s c = some i) : s = s.take i ++ c :: s.drop (i + 1) := by
  unfold lastIndexByte at h
  obtain ⟨j, hj, rfl⟩ := Option.map_eq_some_iff.mp h
  rw [List.findIdx?_eq_some_iff_getElem] at hj
  obtain ⟨hlt, hc, -⟩ := hj
  rw [List.length_reverse] at hlt
  have hget : s[s.length - 1 - j] = c := by simpa using hc
  conv_lhs => rw [← List.take_append_drop (s.length - 1 - j) s]
  rw [List.drop_eq_getElem_cons (by omega), hget]

/-- Both parsers see the same slash. -/
theorem indexByte_of_lastIndexByte {s : GoString} {c : UInt8} {i : Nat}
    (h : lastIndexByte s c = some i) (hc : c ∉ s.take i) : indexByte s c = some i := by
  have hs := eq_append_of_lastIndexByte h
  have hlen : (s.take i).length = i := by
    have hle := congrArg List.length hs
    simp only [List.length_append, List.length_cons, List.length_drop, List.length_take] at hle ⊢
    omega
  rw [hs, indexByte_append_cons hc, hlen]

/-- A mask of the length of the address is applied byte by byte. -/
theorem maskIP_of_length_eq {ip mask : GoString} (h : ip.length = mask.length) :
    maskIP ip mask = maskBytes ip mask := by
  unfold maskIP
  have hmask : ¬ (mask.length = 16 ∧ ip.length = 4 ∧ (mask.take 12).all (· = 0xff)) := by
    rintro ⟨hsix, hfour, -⟩
    omega
  have hip : ¬ (mask.length = 4 ∧ ip.length = 16 ∧ ip.take 12 = v4InV6) := by
    rintro ⟨hfour, hsix, -⟩
    omega
  dsimp only
  rw [if_neg hmask, if_neg hip, if_neg (not_not.mpr h)]

/-- An IPv4 mask is applied to the IPv4 part. -/
theorem maskIP_v4InV6 {ip mask : GoString} (hip : ip.length = 4) (hmask : mask.length = 4) :
    maskIP (v4InV6 ++ ip) mask = maskBytes ip mask := by
  have hlen : v4InV6.length = 12 := rfl
  have hwhole : (v4InV6 ++ ip).length = 16 := by rw [List.length_append, hlen, hip]
  have hshort : ¬ (mask.length = 16 ∧ (v4InV6 ++ ip).length = 4 ∧
      (mask.take 12).all (· = 0xff)) := by
    rintro ⟨hsix, -⟩
    omega
  have hmapped : mask.length = 4 ∧ (v4InV6 ++ ip).length = 16 ∧
      (v4InV6 ++ ip).take 12 = v4InV6 := ⟨hmask, hwhole, List.take_left' hlen⟩
  unfold maskIP
  dsimp only
  simp only [if_neg hshort, if_pos hmapped, List.drop_left' hlen]
  rw [if_neg (not_not.mpr (hip.trans hmask.symm))]

theorem cidrMask_bitLen (p : Prefix) : cidrMask p.bits p.addr.bitLen = p.ipNet.mask := by
  have hbits := p.bits_le
  have hlen := length_bytes p.addr
  have hkind : p.addr.bitLen = 32 ∨ p.addr.bitLen = 128 := by
    cases p.addr with
    | ip4 a => exact .inl rfl
    | ip6 a z => exact .inr rfl
  unfold cidrMask
  rw [if_neg (by omega), if_neg (by omega), Prefix.ipNet, ← hlen,
    Nat.mul_div_cancel_left _ (by decide)]

theorem maskIP_as16 (p : Prefix) : maskIP p.addr.as16 p.ipNet.mask = p.ipNet.ip := by
  unfold Prefix.ipNet Addr.as16 Addr.bytes
  cases p.addr with
  | ip4 a => exact maskIP_v4InV6 (by simp) (by simp)
  | ip6 a z => exact maskIP_of_length_eq (by simp)

theorem parseCIDR_of_parsePrefix {s : GoString} {p : Prefix} (h : parsePrefix s = .ok p) :
    parseCIDR s = .ok (p.addr.as16, p.ipNet) := by
  unfold parsePrefix at h
  split at h
  · cases h
  rename_i slash hslash
  split at h
  · cases h
  rename_i ip haddr
  split_ifs at h with hzone
  dsimp only at h
  split_ifs at h with hhead
  split at h
  · cases h
  rename_i bits hbitsStr
  split_ifs at h with hbits
  cases h
  have hindex := indexByte_of_lastIndexByte hslash (slash_notMem_of_parseAddr haddr hzone)
  have hsmall : bits < 0xffffff := by
    have hlen : ip.bitLen ≤ 128 := by cases ip <;> simp [Addr.bitLen]
    omega
  have hdtoi := dtoi_of_parseInt hbitsStr hhead hsmall
  have hmask := cidrMask_bitLen ⟨ip, bits.toNat, hzone, by omega⟩
  have hmasked := maskIP_as16 ⟨ip, bits.toNat, hzone, by omega⟩
  dsimp only at hmask hmasked
  unfold parseCIDR
  rw [hindex]
  dsimp only
  rw [haddr]
  dsimp only
  rw [if_neg (not_not.mpr hzone), hdtoi]
  dsimp only
  rw [if_neg (by simp; omega), hmask, hmasked]

end WeftAgent.Go.Netip
