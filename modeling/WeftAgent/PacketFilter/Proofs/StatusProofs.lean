import WeftAgent.PacketFilter.Status
import WeftAgent.PacketFilter.Proofs.ApplyProofs

/-!
# The status that is read

Read without interruption, the status of an installed set has all of its rules and what its table
has counted, in whatever order the kernel lists the chains (`readFirewallStatus_installed`).
-/

namespace WeftAgent.PacketFilter

open WeftAgent.Go WeftAgent.Effect WeftAgent.Nft

/-! ## Counters of the own table -/

/-- The rule has no counter. -/
def Counterless (r : Rule) : Prop := ∀ e ∈ r, ∀ packets bytes, e ≠ .counter packets bytes

theorem Counterless.append {r r' : Rule} (h : Counterless r) (h' : Counterless r') :
    Counterless (r ++ r') := fun e he =>
  (List.mem_append.mp he).elim (h e) (h' e)

theorem dropCounterFromRule_counterless {r : Rule} (h : Counterless r) :
    dropCounterFromRule r = none := by
  induction r with
  | nil => rfl
  | cons e es ih =>
    have hrest := ih fun e' he' => h e' (List.mem_cons_of_mem _ he')
    have hhead := h e List.mem_cons_self
    cases e with
    | counter packets bytes => exact absurd rfl (hhead packets bytes)
    | _ => exact hrest

theorem counterless_cidrExprs {r : FirewallRule} {es : List Expr} (h : cidrExprs r = .ok es) :
    Counterless es := by
  unfold cidrExprs at h
  split_ifs at h
  · split at h
    · cases h
    · split at h
      · cases h
      · obtain rfl := Except.ok.inj h
        simp [Counterless]
  · obtain rfl := Except.ok.inj h
    simp [Counterless]

theorem counterless_protocolExprs {r : FirewallRule} {es : List Expr}
    (h : protocolExprs r = .ok es) : Counterless es := by
  unfold protocolExprs at h
  split_ifs at h
  · split at h
    · cases h
    · obtain rfl := Except.ok.inj h
      simp [Counterless]
  · obtain rfl := Except.ok.inj h
    simp [Counterless]

theorem counterless_portExprs (r : FirewallRule) : Counterless (portExprs r) := by
  unfold portExprs
  split_ifs <;> simp [Counterless]

theorem counterless_buildRuleExprs {r : FirewallRule} {rule : Rule}
    (h : buildRuleExprs r = .ok rule) : Counterless rule := by
  unfold buildRuleExprs at h
  split at h
  · cases h
  · rename_i hcidr
    split at h
    · cases h
    · rename_i hprotocol
      obtain rfl := Except.ok.inj h
      exact (((counterless_cidrExprs hcidr).append (counterless_protocolExprs hprotocol)).append
        (counterless_portExprs r)).append (by simp [Counterless])

theorem addDrops_append (packets bytes : UInt64) (rs rs' : List Rule) :
    addDrops packets bytes (rs ++ rs') =
      addDrops (addDrops packets bytes rs).1 (addDrops packets bytes rs).2 rs' := by
  induction rs generalizing packets bytes with
  | nil => rfl
  | cons r rs ih =>
    rw [List.cons_append, addDrops, addDrops]
    split
    · exact ih packets bytes
    · exact ih _ _

theorem addDrops_counterless {rs : List Rule} (h : ∀ r ∈ rs, Counterless r)
    (packets bytes : UInt64) : addDrops packets bytes rs = (packets, bytes) := by
  induction rs with
  | nil => rfl
  | cons r rs ih =>
    rw [List.forall_mem_cons] at h
    rw [addDrops, dropCounterFromRule_counterless h.1]
    exact ih h.2

theorem counterless_compiled (direction : GoString) (rules : List FirewallRule) :
    ∀ r ∈ compiled direction rules, Counterless r := by
  intro rule hrule
  obtain ⟨r, -, hr⟩ := List.mem_filterMap.mp hrule
  cases hbuild : buildRuleExprs r with
  | error e => simp [hbuild, Except.toOption] at hr
  | ok rule' =>
    obtain rfl : rule' = rule := by simpa [hbuild, Except.toOption] using hr
    exact counterless_buildRuleExprs hbuild

/-- The counter at the end of the input chain is the only one. -/
theorem addDrops_inputRules (fw : Firewall) (packets bytes : UInt64) :
    addDrops 0 0 (inputRules fw packets bytes) = (packets, bytes) := by
  have hfixed : ∀ r ∈ [ctEstablishedAccept, iifAccept (lit "lo")] ++ compiled ingress fw.rules,
      Counterless r := by
    intro r hr
    rcases List.mem_append.mp hr with hr | hr
    · rcases List.mem_cons.mp hr with rfl | hr
      · simp [Counterless, ctEstablishedAccept]
      · obtain rfl := List.mem_singleton.mp hr
        simp [Counterless, iifAccept]
    · exact counterless_compiled ingress fw.rules r hr
  rw [inputRules, addDrops_append, addDrops_counterless hfixed]
  simp [addDrops, tailRule, dropCounterFromRule, nextVerdict]

/-! ## Chains of the own table -/

/-- The loop over chains of the own table. -/
def readOwn (total : Nat) (packets bytes : UInt64) (names : List GoString) :
    Prog nftSig Snapshot :=
  readChains total packets bytes (names.map (firewallTableName, ·))

theorem readOwn_cons (total : Nat) (packets bytes : UInt64) (name : GoString)
    (names : List GoString) :
    readOwn total packets bytes (name :: names) =
      .call (.getRules ownTable name) fun
        | .error e => .ret (degraded true (.wrap "get rules in %s: %v" [.str name] e))
        | .ok rules =>
          if name ≠ inputChain then readOwn (total + rules.length) packets bytes names
          else readOwn (total + rules.length) (addDrops packets bytes rules).1
            (addDrops packets bytes rules).2 names := by
  rw [readOwn, List.map_cons, readChains, if_neg (not_not.mpr rfl)]
  rfl

/-- Chains of other tables are passed over. -/
theorem readChains_eq_readOwn (total : Nat) (packets bytes : UInt64)
    (chains : List (GoString × GoString)) :
    readChains total packets bytes chains =
      readOwn total packets bytes ((chains.filter (·.1 = firewallTableName)).map (·.2)) := by
  induction chains generalizing total packets bytes with
  | nil => rfl
  | cons c chains ih =>
    obtain ⟨table, chain⟩ := c
    by_cases htable : table = firewallTableName
    · rw [List.filter_cons_of_pos (by simpa using htable), List.map_cons, readOwn_cons, readChains,
        if_neg (not_not.mpr htable)]
      congr 1
      funext x
      cases x with
      | error e => rfl
      | ok rules =>
        dsimp only
        split_ifs
        · exact ih _ _ _
        · exact ih _ _ _
    · rw [List.filter_cons_of_neg (by simpa using htable), readChains, if_pos htable]
      exact ih _ _ _

/-! ## A read without interruption -/

theorem length_compiled (rules : List FirewallRule) (hvalid : ∀ r ∈ rules, r.validate = none) :
    (compiled ingress rules).length + (compiled egress rules).length = rules.length := by
  have hne : egress ≠ ingress := by decide
  induction rules with
  | nil => rfl
  | cons r rules ih =>
    rw [List.forall_mem_cons] at hvalid
    have hrest := ih hvalid.2
    obtain ⟨hdirection, -⟩ := FirewallRule.validate_eq_none hvalid.1
    obtain ⟨rule, -, hbuild, -⟩ := decides_buildRuleExprs hvalid.1
    rcases hdirection with hin | hout
    · rw [compiled_cons_pos hin hbuild, compiled_cons_neg (hin ▸ hne.symm), List.length_cons,
        List.length_cons]
      omega
    · rw [compiled_cons_pos hout hbuild, compiled_cons_neg (hout ▸ hne), List.length_cons,
        List.length_cons]
      omega

section Read

variable {S : Type} {K : Kernel S} {s : S} {fw : Firewall} {packets bytes : UInt64}

/-- The rules of the own chains, by name. -/
def rulesNamed (fw : Firewall) (packets bytes : UInt64) (name : GoString) : List Rule :=
  if name = inputChain then inputRules fw packets bytes else compiled egress fw.rules

theorem getRules_own
    (htable : K.table s ownTable = some (K.ofChains (chainsOf fw packets bytes))) {name : GoString}
    (hname : name ∈ [inputChain, outputChain]) {rules : List Rule}
    (h : (K.handler (.getRules ownTable name) s).1 = .ok rules) :
    rules = rulesNamed fw packets bytes name := by
  rcases List.mem_pair.mp hname with rfl | rfl
  · exact K.getRules_ok (c := ⟨inputSpec, inputRules fw packets bytes⟩) h htable rfl
  · exact K.getRules_ok (c := ⟨outputSpec, compiled egress fw.rules⟩) h htable rfl

/-- The own table is listed if there is one. -/
theorem mem_listed_tables {names : List GoString}
    (h : (K.handler (.listTablesOfFamily familyINet) s).1 = .ok names) :
    firewallTableName ∈ names ↔ (K.table s ownTable).isSome = true :=
  (K.listTables_ok h).2 firewallTableName

/-- The status has been read, and nothing has changed. -/
def Shown (K : Kernel S) (s : S) (status : Snapshot) (status' : Snapshot) (s' : S) : Prop :=
  status' = status ∧ ∀ id, K.table s' id = K.table s id

/-- The status says that it could not be read, and nothing has changed. -/
def Unshown (K : Kernel S) (s : S) (status' : Snapshot) (s' : S) : Prop :=
  (∃ installed e, status' = degraded installed e) ∧ ∀ id, K.table s' id = K.table s id

/-- A call of a read that fails. -/
theorem unshown_degraded (installed : Bool) (e : GoError) :
    ∀ s', (∀ id, K.table s' id = K.table s id) → Unshown K s (degraded installed e) s' :=
  fun _ hs' => ⟨⟨installed, e, rfl⟩, hs'⟩

/-- The loop over the chains sums up their rules and the drops of the input chain. -/
theorem leads_readOwn
    (htable : K.table s ownTable = some (K.ofChains (chainsOf fw packets bytes)))
    {names : List GoString} (hnames : ∀ name ∈ names, name ∈ [inputChain, outputChain])
    (total : Nat) (packets₀ bytes₀ : UInt64) :
    Leads K s (Shown K s {
      overall := .healthy
      dropsPackets := (addDrops packets₀ bytes₀ ((names.filter (· = inputChain)).flatMap
        (rulesNamed fw packets bytes))).1
      dropsBytes := (addDrops packets₀ bytes₀ ((names.filter (· = inputChain)).flatMap
        (rulesNamed fw packets bytes))).2
      tableInstalled := true
      rulesInstalled := total + (names.flatMap (rulesNamed fw packets bytes)).length })
      (Unshown K s) (readOwn total packets₀ bytes₀ names) := by
  induction names generalizing total packets₀ bytes₀ with
  | nil => exact .ret fun s' hs' => ⟨rfl, hs'⟩
  | cons name names ih =>
    rw [List.forall_mem_cons] at hnames
    rw [readOwn_cons]
    refine .reading (readOnly_getRules ownTable name) ?_ fun s' hs' hok => ?_
    · rintro x ⟨e, rfl⟩
      exact ⟨_, rfl, unshown_degraded true _⟩
    cases hx : (K.handler (.getRules ownTable name) s').1 with
    | error e => exact absurd ⟨e, hx⟩ hok
    | ok rules =>
      obtain rfl := getRules_own ((hs' ownTable).trans htable) hnames.1 hx
      rw [List.flatMap_cons, List.length_append, ← Nat.add_assoc]
      dsimp only
      by_cases hname : name = inputChain
      · rw [if_neg (not_not.mpr hname), List.filter_cons_of_pos (by simpa using hname),
          List.flatMap_cons, addDrops_append]
        exact ih hnames.2 _ _ _
      · rw [if_pos hname, List.filter_cons_of_neg (by simpa using hname)]
        exact ih hnames.2 _ _ _

/-- The order in which the two chains are listed does not matter. -/
theorem leads_readOwn_listed (hvalid : fw.validate = none)
    (htable : K.table s ownTable = some (K.ofChains (chainsOf fw packets bytes)))
    {names : List GoString} (hperm : names.Perm [inputChain, outputChain]) :
    Leads K s (Shown K s {
      overall := .healthy, dropsPackets := packets, dropsBytes := bytes
      tableInstalled := true, rulesInstalled := fw.rules.length + 3 })
      (Unshown K s) (readOwn 0 0 0 names) := by
  have hread := leads_readOwn htable (fun name hname => hperm.mem_iff.mp hname) 0 0 0
  have hinput : names.filter (· = inputChain) = [inputChain] :=
    List.perm_singleton.mp (hperm.filter _)
  have hdrops : addDrops 0 0 ([inputChain].flatMap (rulesNamed fw packets bytes)) =
      (packets, bytes) := by
    rw [List.flatMap_singleton, rulesNamed, if_pos rfl, addDrops_inputRules]
  have hsum : 0 + (names.flatMap (rulesNamed fw packets bytes)).length = fw.rules.length + 3 := by
    have htotal := (hperm.flatMap_right (rulesNamed fw packets bytes)).length_eq
    have hlength := length_compiled fw.rules (Firewall.validate_eq_none hvalid)
    have hboth : ([inputChain, outputChain].flatMap (rulesNamed fw packets bytes)).length =
        (compiled ingress fw.rules).length + 3 + (compiled egress fw.rules).length := by
      have hne : outputChain ≠ inputChain := by decide
      simp [rulesNamed, hne, inputRules]
      omega
    omega
  rwa [hinput, hdrops, hsum] at hread

/-- The status of an installed set: all its rules and the three that every table has, and what the
table has counted; or an error, if a call of the read failed. Nothing changes. -/
theorem readFirewallStatus_installed (hvalid : fw.validate = none)
    (htable : K.table s ownTable = some (K.ofChains (chainsOf fw packets bytes))) :
    let r := run K.handler readFirewallStatus s
    (∀ id, K.table r.2 id = K.table s id) ∧
    (r.1 = {
        overall := .healthy, dropsPackets := packets, dropsBytes := bytes
        tableInstalled := true, rulesInstalled := fw.rules.length + 3 } ∨
      (∃ installed e, r.1 = degraded installed e) ∧
        ∃ c ∈ log K.handler readFirewallStatus s, Fails c.1 c.2) := by
  have hall : Leads K s (Shown K s {
      overall := .healthy, dropsPackets := packets, dropsBytes := bytes
      tableInstalled := true, rulesInstalled := fw.rules.length + 3 })
      (Unshown K s) readFirewallStatus := by
    refine .reading readOnly_new ?_ fun s₁ hs₁ hnew => ?_
    · rintro x ⟨e, rfl⟩
      exact ⟨_, rfl, unshown_degraded false _⟩
    cases hx₁ : (K.handler .new s₁).1 with
    | some e => exact absurd ⟨e, hx₁⟩ hnew
    | none =>
      refine .reading (readOnly_listTables familyINet) ?_ fun s₂ hs₂ hlist => ?_
      · rintro x ⟨e, rfl⟩
        exact ⟨_, rfl, unshown_degraded false _⟩
      cases hx₂ : (K.handler (.listTablesOfFamily familyINet) s₂).1 with
      | error e => exact absurd ⟨e, hx₂⟩ hlist
      | ok tables =>
        have hmem : firewallTableName ∈ tables := by
          rw [mem_listed_tables hx₂, hs₂ ownTable, htable]
          rfl
        rw [afterListTables, if_pos hmem]
        refine .reading (readOnly_listChains familyINet) ?_ fun s₃ hs₃ hchains => ?_
        · rintro x ⟨e, rfl⟩
          exact ⟨_, rfl, unshown_degraded true _⟩
        cases hx₃ : (K.handler (.listChainsOfTableFamily familyINet) s₃).1 with
        | error e => exact absurd ⟨e, hx₃⟩ hchains
        | ok listed =>
          rw [afterListChains, readChains_eq_readOwn]
          exact leads_readOwn_listed hvalid htable
            (K.listChains_ok ownTable hx₃ ((hs₃ ownTable).trans htable))
  intro r
  rcases hall s fun _ => rfl with ⟨hstatus, hsame⟩ | ⟨⟨hdegraded, hsame⟩, hcall⟩
  · exact ⟨hsame, .inl hstatus⟩
  · exact ⟨hsame, .inr ⟨hdegraded, hcall⟩⟩

end Read

/-- Beside a table of the same name in another family. -/
theorem readFirewallStatus_sshFromTen :
    (run Reference.Tables.kernel.handler readFirewallStatus
      (addStranger (.insert .empty ownTable (chainsOf sshFromTen 5 700)))).1 = {
        overall := .healthy, dropsPackets := 5, dropsBytes := 700
        tableInstalled := true, rulesInstalled := 4 } := by
  have hvalid : sshFromTen.validate = none := rfl
  let ts := addStranger (.insert .empty ownTable (chainsOf sshFromTen 5 700))
  have htable : Reference.Tables.kernel.table ts ownTable =
      some (Reference.Tables.kernel.ofChains (chainsOf sshFromTen 5 700)) := rfl
  rcases (readFirewallStatus_installed hvalid htable).2 with
    hstatus | ⟨⟨installed, e, hdegraded⟩, -⟩
  · exact hstatus
  · cases hdegraded

end WeftAgent.PacketFilter
