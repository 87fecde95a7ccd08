import WeftAgent.PacketFilter.Apply
import WeftAgent.PacketFilter.Proofs.CompileProofs

/-!
# The table of a firewall

What the chains of a valid firewall do with a packet, in every kernel: on the way in, packets that
the firewall admits are accepted and all others are counted and dropped (`LetsIn`); on the way out,
every packet is accepted (`runChain_output`). So the own table refuses and counts what it is for
(`LetsIn.passes_input`, `LetsIn.table_deliver`). And a batch of `ApplyFirewall` that is carried out
puts this table in the place of the one before (`built_batch`).
-/

namespace WeftAgent.PacketFilter

open WeftAgent.Go WeftAgent.Go.Netip WeftAgent.Effect WeftAgent.Nft

/-! ## Valid sets -/

theorem validateFrom_eq_none {rules : List FirewallRule} {i : Nat}
    (h : validateFrom i rules = none) : ∀ r ∈ rules, r.validate = none := by
  induction rules generalizing i with
  | nil => simp
  | cons r rules ih =>
    rw [validateFrom] at h
    split at h
    · cases h
    · rename_i hr
      exact List.forall_mem_cons.mpr ⟨hr, ih h⟩

theorem Firewall.validate_eq_none {fw : Firewall} (h : fw.validate = none) :
    ∀ r ∈ fw.rules, r.validate = none := validateFrom_eq_none h

theorem compiled_cons_pos {direction : GoString} {r : FirewallRule} {rule : Rule}
    (hdirection : r.direction = direction) (hbuild : buildRuleExprs r = .ok rule)
    (rules : List FirewallRule) :
    compiled direction (r :: rules) = rule :: compiled direction rules := by
  simp [compiled, hdirection, hbuild, Except.toOption]

theorem compiled_cons_neg {direction : GoString} {r : FirewallRule}
    (hdirection : r.direction ≠ direction) (rules : List FirewallRule) :
    compiled direction (r :: rules) = compiled direction rules := by
  simp [compiled, hdirection]

/-- The translated rules of a direction, with the packets they accept. -/
theorem compiled_decides (direction : GoString) {rules : List FirewallRule}
    (hvalid : ∀ r ∈ rules, r.validate = none) :
    ∃ conds, (∀ E, List.Forall₂ (Decides E .accept) (compiled direction rules) conds) ∧
      ((∀ r ∈ rules, ∀ net, parsePrefix r.remoteCIDR = .ok net → ¬ Mapped net) → ∀ p,
        (∃ P ∈ conds, P p) ↔ ∃ r ∈ rules, r.direction = direction ∧ r.Matches p) := by
  induction rules with
  | nil => exact ⟨[], fun _ => .nil, by simp⟩
  | cons r rules ih =>
    rw [List.forall_mem_cons] at hvalid
    obtain ⟨conds, hconds, hmeaning⟩ := ih hvalid.2
    by_cases hdirection : r.direction = direction
    · obtain ⟨rule, P, hbuild, hdecides, hP, -⟩ := decides_buildRuleExprs hvalid.1
      refine ⟨P :: conds, fun E => ?_, fun hmapped p => ?_⟩
      · rw [compiled_cons_pos hdirection hbuild]
        exact .cons (hdecides E) (hconds E)
      · rw [List.forall_mem_cons] at hmapped
        rw [List.exists_mem_cons_iff, List.exists_mem_cons_iff, hP hmapped.1, hmeaning hmapped.2]
        simp [hdirection]
    · refine ⟨conds, fun E => ?_, fun hmapped p => ?_⟩
      · rw [compiled_cons_neg hdirection]
        exact hconds E
      · rw [List.forall_mem_cons] at hmapped
        rw [List.exists_mem_cons_iff, hmeaning hmapped.2]
        simp [hdirection]

/-! ## Chains and packets -/

/-- The input chain of the firewall accepts the packets of `L`, and counts and drops the others. -/
structure LetsIn (fw : Firewall) (L : Packet → Prop) : Prop where
  accept : ∀ (E : ExprMachine) {p : Packet} (packets bytes : UInt64), L p →
    E.runChain p ⟨inputSpec, inputRules fw packets bytes⟩ =
      (⟨inputSpec, inputRules fw packets bytes⟩, .accept)
  drop : ∀ (E : ExprMachine) {p : Packet} (packets bytes : UInt64), ¬ L p →
    E.runChain p ⟨inputSpec, inputRules fw packets bytes⟩ =
      (⟨inputSpec, inputRules fw (packets + 1) (bytes + UInt64.ofNat p.network.length)⟩, .drop)

theorem runRules_tailRule (E : ExprMachine) (p : Packet) (regs : E.Regs) (packets bytes : UInt64) :
    E.runRules p regs [tailRule packets bytes] =
      ([tailRule (packets + 1) (bytes + UInt64.ofNat p.network.length)], some .drop) := by
  have hrun : E.runRule p regs (tailRule packets bytes) =
      (tailRule (packets + 1) (bytes + UInt64.ofNat p.network.length), regs, .done .drop) := by
    rw [tailRule, runRule_cons_next (E.eval_counter p regs packets bytes), ExprMachine.runRule,
      E.eval_verdict]
    rfl
  exact runRules_cons_done hrun

/-- A valid firewall lets in what it admits, unless it names a network of IPv4-mapped addresses. -/
theorem exists_letsIn {fw : Firewall} (hvalid : fw.validate = none) :
    ∃ L, LetsIn fw L ∧ (fw.Unmapped → ∀ p, L p ↔ fw.Admits p) := by
  obtain ⟨conds, hconds, hmeaning⟩ := compiled_decides ingress (Firewall.validate_eq_none hvalid)
  let established : Packet → Prop := fun p => p.ctState = .established ∨ p.ctState = .related
  let loopback : Packet → Prop := fun p => p.iifname.name = lit "lo"
  have hall : ∀ E, List.Forall₂ (Decides E .accept)
      ([ctEstablishedAccept, iifAccept (lit "lo")] ++ compiled ingress fw.rules)
      (established :: loopback :: conds) := fun E =>
    .cons decides_ctEstablishedAccept
      (.cons (decides_iifAccept ⟨lit "lo", by decide, by decide⟩) (hconds E))
  refine ⟨fun p => ∃ P ∈ established :: loopback :: conds, P p, ⟨?_, ?_⟩, fun hunmapped p => ?_⟩
  · intro E p packets bytes hL
    have hrun := (runRules_accepting (hall E) p E.initial [tailRule packets bytes]).1 hL
    simp only [ExprMachine.runChain, inputRules, hrun]
    rfl
  · intro E p packets bytes hL
    obtain ⟨regs, hrun⟩ :=
      (runRules_accepting (hall E) p E.initial [tailRule packets bytes]).2
        fun P hP hp => hL ⟨P, hP, hp⟩
    rw [runRules_tailRule] at hrun
    simp only [ExprMachine.runChain, inputRules, hrun]
    rfl
  · dsimp only
    rw [List.exists_mem_cons_iff, List.exists_mem_cons_iff, hmeaning hunmapped, Firewall.Admits]
    exact or_assoc

/-- The rules for the way out restrict nothing. -/
theorem runChain_output {fw : Firewall} (hvalid : fw.validate = none) (E : ExprMachine)
    (p : Packet) :
    E.runChain p ⟨outputSpec, compiled egress fw.rules⟩ =
      (⟨outputSpec, compiled egress fw.rules⟩, .accept) := by
  obtain ⟨conds, hconds, -⟩ := compiled_decides egress (Firewall.validate_eq_none hvalid)
  have hrun := runRules_accepting (hconds E) p E.initial []
  rw [List.append_nil] at hrun
  by_cases hsome : ∃ P ∈ conds, P p
  · simp only [ExprMachine.runChain, hrun.1 hsome]
    rfl
  · push Not at hsome
    obtain ⟨regs, hnone⟩ := hrun.2 hsome
    simp only [ExprMachine.runRules, List.append_nil] at hnone
    simp only [ExprMachine.runChain, hnone]
    rfl

/-! ## The own table and packets -/

section Own

variable {S : Type} {K : Kernel S} {s : S} {fw : Firewall} {L : Packet → Prop}
  {packets bytes : UInt64}

theorem LetsIn.passes_input (h : LetsIn fw L)
    (htable : K.table s ownTable = some (K.ofChains (chainsOf fw packets bytes))) (p : Packet) :
    K.passes s ownTable .input p = true ↔ L p := by
  have hverdict : (K.runChain p ⟨inputSpec, inputRules fw packets bytes⟩).2 = .accept ↔ L p := by
    by_cases hL : L p
    · simp [h.accept K.toExprMachine packets bytes hL, hL]
    · simp [h.drop K.toExprMachine packets bytes hL, hL]
  rw [K.passes_iff .input p rfl htable, ← hverdict]
  simp [chainsOf, chainsWith, inputSpec, outputSpec]

/-- The own table refuses a packet at no other hook than that of its input chain. -/
theorem passes_own (hvalid : fw.validate = none)
    (htable : K.table s ownTable = some (K.ofChains (chainsOf fw packets bytes))) {hook : Hook}
    (hhook : hook ≠ .input) (p : Packet) : K.passes s ownTable hook p = true := by
  rw [K.passes_iff hook p rfl htable]
  intro c hc hat
  rcases List.mem_pair.mp hc with rfl | rfl
  · exact absurd hat.symm hhook
  · rw [runChain_output hvalid]

/-- A packet counts in the own table exactly if that table drops it. -/
theorem LetsIn.table_deliver (h : LetsIn fw L) (hvalid : fw.validate = none)
    (htable : K.table s ownTable = some (K.ofChains (chainsOf fw packets bytes))) (hook : Hook)
    (p : Packet) :
    K.table (K.deliver s hook p) ownTable = some (K.ofChains (
      if droppedByOwn K s hook p then
        chainsOf fw (packets + 1) (bytes + UInt64.ofNat p.network.length)
      else chainsOf fw packets bytes)) := by
  let after (c : Chain) : Chain :=
    if c.hook = hook ∧ K.reaches s ownTable c.name p = true then (K.runChain p c).1 else c
  have hout : after ⟨outputSpec, compiled egress fw.rules⟩ =
      ⟨outputSpec, compiled egress fw.rules⟩ := by
    dsimp only [after]
    rw [runChain_output hvalid]
    split_ifs <;> rfl
  have hin : after ⟨inputSpec, inputRules fw packets bytes⟩ =
      if droppedByOwn K s hook p then
        ⟨inputSpec, inputRules fw (packets + 1) (bytes + UInt64.ofNat p.network.length)⟩
      else ⟨inputSpec, inputRules fw packets bytes⟩ := by
    have hpasses := h.passes_input htable p
    dsimp only [after]
    by_cases hL : L p
    · have hno : droppedByOwn K s hook p = false := by simp [droppedByOwn, hpasses.mpr hL]
      rw [hno, if_neg Bool.false_ne_true, h.accept K.toExprMachine packets bytes hL]
      exact ite_self _
    · have hrefused : K.passes s ownTable .input p = false := by
        rw [Bool.eq_false_iff]
        exact mt hpasses.mp hL
      have hiff : inputSpec.hook = hook ∧ K.reaches s ownTable inputSpec.name p = true ↔
          droppedByOwn K s hook p = true := by
        rw [droppedByOwn, decide_eq_true_iff, eq_comm]
        simp [hrefused, inputSpec]
      rw [h.drop K.toExprMachine packets bytes hL]
      exact if_congr hiff rfl rfl
  rw [K.deliver_chains hook p rfl htable]
  have hmap : (chainsOf fw packets bytes).map after =
      [after ⟨inputSpec, inputRules fw packets bytes⟩,
        after ⟨outputSpec, compiled egress fw.rules⟩] := rfl
  rw [hmap, hin, hout]
  split_ifs <;> rfl

/-- A packet that the tables of others let in gets to the input chain. -/
theorem reaches_input (hvalid : fw.validate = none)
    (htable : K.table s ownTable = some (K.ofChains (chainsOf fw packets bytes))) {p : Packet}
    (hothers : ∀ id, id ≠ ownTable → K.passes s id .input p = true) :
    K.reaches s ownTable inputChain p = true := by
  refine K.reaches_of_passes (c := ⟨inputSpec, inputRules fw packets bytes⟩) htable rfl hothers ?_
  intro c hc hne _
  rcases List.mem_pair.mp hc with rfl | rfl
  · exact absurd rfl hne
  · rw [runChain_output hvalid]

end Own

/-! ## The batch -/

section Batch

variable {S : Type} {K : Kernel S} {s₀ s s' : S} {chains : List Chain} {ins outs : List Rule}

/-- The own table is made of the chains, and the other tables are as they were. -/
structure Built (K : Kernel S) (s₀ s : S) (chains : List Chain) : Prop where
  own : K.table s ownTable = some (K.ofChains chains)
  others : ∀ id, id ≠ ownTable → K.table s id = K.table s₀ id

theorem foldlM_cons_eq_some {m : Msg} {ms : List Msg} :
    (m :: ms).foldlM K.commit s = some s' ↔
      ∃ s₁, K.commit s m = some s₁ ∧ ms.foldlM K.commit s₁ = some s' := by
  rw [List.foldlM_cons]
  exact Option.bind_eq_some_iff

theorem foldlM_append_eq_some {ms ns : List Msg} :
    (ms ++ ns).foldlM K.commit s = some s' ↔
      ∃ s₁, ms.foldlM K.commit s = some s₁ ∧ ns.foldlM K.commit s₁ = some s' := by
  rw [List.foldlM_append]
  exact Option.bind_eq_some_iff

theorem Built.addChain (h : Built K s₀ s chains) {spec : ChainSpec}
    (hnew : ∀ c ∈ chains, c.name ≠ spec.name)
    (hdone : K.commit s (.addChain ownTable spec) = some s') :
    Built K s₀ s' (chains ++ [⟨spec, []⟩]) := by
  obtain ⟨hown, hothers⟩ := K.commit_addChain h.own hnew hdone
  exact ⟨hown, fun id hid => (hothers id hid).trans (h.others id hid)⟩

theorem Built.addRule (h : Built K s₀ s chains) {chain : GoString} {rule : Rule}
    (hdone : K.commit s (addRule chain rule) = some s') :
    Built K s₀ s' (chains.map fun c =>
      if c.name = chain then { c with rules := c.rules ++ [rule] } else c) := by
  obtain ⟨hown, hothers⟩ := K.commit_addRule h.own hdone
  exact ⟨hown, fun id hid => (hothers id hid).trans (h.others id hid)⟩

/-- The loop over the rules adds each one to the chain of its direction. -/
theorem Built.ruleMsgs (h : Built K s₀ s (chainsWith ins outs)) {rules : List FirewallRule}
    {msgs : List Msg} (hmsgs : ruleMsgs rules = .ok msgs)
    (hdone : msgs.foldlM K.commit s = some s') :
    Built K s₀ s' (chainsWith (ins ++ compiled ingress rules) (outs ++ compiled egress rules)) := by
  have hne : egress ≠ ingress := by decide
  induction rules generalizing s ins outs msgs with
  | nil =>
    obtain rfl := Except.ok.inj hmsgs
    obtain rfl := Option.some.inj hdone
    simpa [compiled] using h
  | cons r rules ih =>
    rw [PacketFilter.ruleMsgs] at hmsgs
    cases hbuild : buildRuleExprs r with
    | error e => simp [hbuild] at hmsgs
    | ok rule =>
      cases hrest : PacketFilter.ruleMsgs rules with
      | error e => simp [hbuild, hrest] at hmsgs
      | ok rest =>
        simp only [hbuild, hrest] at hmsgs
        split_ifs at hmsgs with hin hout
        · obtain rfl := Except.ok.inj hmsgs
          obtain ⟨s₁, hrule, hdone⟩ := foldlM_cons_eq_some.mp hdone
          have hadded : Built K s₀ s₁ (chainsWith (ins ++ [rule]) outs) := h.addRule hrule
          have hall := ih hadded hrest hdone
          rwa [List.append_assoc, List.singleton_append, ← compiled_cons_pos hin hbuild,
            ← compiled_cons_neg (hin ▸ hne.symm) rules] at hall
        · obtain rfl := Except.ok.inj hmsgs
          obtain ⟨s₁, hrule, hdone⟩ := foldlM_cons_eq_some.mp hdone
          have hadded : Built K s₀ s₁ (chainsWith ins (outs ++ [rule])) := h.addRule hrule
          have hall := ih hadded hrest hdone
          rwa [List.append_assoc, List.singleton_append, ← compiled_cons_pos hout hbuild,
            ← compiled_cons_neg hin rules] at hall
        · obtain rfl := Except.ok.inj hmsgs
          rw [compiled_cons_neg hin, compiled_cons_neg hout]
          exact ih h hrest hdone

/-- The table without the rules of the set. -/
theorem built_prologue (hnone : K.table s ownTable = none)
    (hothers : ∀ id, id ≠ ownTable → K.table s id = K.table s₀ id)
    (hdone : [
      .addTable ownTable,
      .addChain ownTable inputSpec,
      addRule inputChain ctEstablishedAccept,
      addRule inputChain (iifAccept (lit "lo")),
      .addChain ownTable outputSpec].foldlM K.commit s = some s') :
    Built K s₀ s' (chainsWith [ctEstablishedAccept, iifAccept (lit "lo")] []) := by
  obtain ⟨s₁, htable, hdone⟩ := foldlM_cons_eq_some.mp hdone
  obtain ⟨s₂, hinput, hdone⟩ := foldlM_cons_eq_some.mp hdone
  obtain ⟨s₃, hct, hdone⟩ := foldlM_cons_eq_some.mp hdone
  obtain ⟨s₄, hlo, hdone⟩ := foldlM_cons_eq_some.mp hdone
  obtain ⟨s₅, houtput, hdone⟩ := foldlM_cons_eq_some.mp hdone
  obtain rfl := Option.some.inj hdone
  obtain ⟨hown₁, hothers₁⟩ := K.commit_addTable hnone htable
  have h₁ : Built K s₀ s₁ [] := ⟨hown₁, fun id hid => (hothers₁ id hid).trans (hothers id hid)⟩
  have h₂ : Built K s₀ s₂ [⟨inputSpec, []⟩] := h₁.addChain (by simp) hinput
  have h₃ : Built K s₀ s₃ [⟨inputSpec, [ctEstablishedAccept]⟩] := h₂.addRule hct
  have h₄ : Built K s₀ s₄ [⟨inputSpec, [ctEstablishedAccept, iifAccept (lit "lo")]⟩] :=
    h₃.addRule hlo
  exact h₄.addChain (by decide) houtput

/-- The listed tables of the name are deleted; there is one at most, and it is listed. -/
theorem deletes_own {existing : List GoString}
    (hlisted : existing.filter (· = firewallTableName) =
      if (K.table s ownTable).isSome then [firewallTableName] else [])
    (hdone : ((existing.filter (· = firewallTableName)).map
      fun name => Msg.delTable ⟨familyINet, name⟩).foldlM K.commit s = some s') :
    K.table s' ownTable = none ∧ ∀ id, id ≠ ownTable → K.table s' id = K.table s id := by
  rw [hlisted] at hdone
  split_ifs at hdone with hsome
  · obtain ⟨s₁, hdel, hdone⟩ := foldlM_cons_eq_some.mp hdone
    obtain rfl := Option.some.inj hdone
    exact K.commit_delTable hdel
  · obtain rfl := Option.some.inj hdone
    exact ⟨Option.not_isSome_iff_eq_none.mp hsome, fun _ _ => rfl⟩

/-- The batch replaces the own table, and leaves the other tables alone. -/
theorem built_batch {existing : List GoString} {fw : Firewall} {rules : List Msg}
    (hrules : ruleMsgs fw.rules = .ok rules)
    (hlisted : existing.filter (· = firewallTableName) =
      if (K.table s ownTable).isSome then [firewallTableName] else [])
    (hdone : (batch existing rules).foldlM K.commit s = some s') :
    Built K s s' (chainsOf fw 0 0) := by
  unfold batch at hdone
  obtain ⟨s₃, hdone, htail⟩ := foldlM_append_eq_some.mp hdone
  obtain ⟨s₂, hdone, hall⟩ := foldlM_append_eq_some.mp hdone
  obtain ⟨s₁, hdeletes, hprologue⟩ := foldlM_append_eq_some.mp hdone
  obtain ⟨hnone, hothers⟩ := deletes_own hlisted hdeletes
  have hbuilt := (built_prologue hnone hothers hprologue).ruleMsgs hrules hall
  obtain ⟨s₄, hrule, htail⟩ := foldlM_cons_eq_some.mp htail
  obtain rfl := Option.some.inj htail
  exact hbuilt.addRule hrule

/-- What is listed of the own table. -/
theorem filter_existing {names : List GoString}
    (h : (K.handler (.listTablesOfFamily familyINet) s).1 = .ok names) :
    names.filter (· = firewallTableName) =
      if (K.table s ownTable).isSome then [firewallTableName] else [] := by
  obtain ⟨hnodup, hmem⟩ := K.listTables_ok h
  have hiff : firewallTableName ∈ names ↔ (K.table s ownTable).isSome = true :=
    hmem firewallTableName
  rw [List.filter_eq]
  split_ifs with hsome
  · rw [List.count_eq_one_of_mem hnodup (hiff.mpr hsome)]
    rfl
  · rw [List.count_eq_zero_of_not_mem (mt hiff.mp hsome)]
    rfl

end Batch

/-- Every valid set can be translated. -/
theorem ruleMsgs_ok {rules : List FirewallRule} (hvalid : ∀ r ∈ rules, r.validate = none) :
    ∃ msgs, ruleMsgs rules = .ok msgs := by
  induction rules with
  | nil => exact ⟨[], rfl⟩
  | cons r rules ih =>
    rw [List.forall_mem_cons] at hvalid
    obtain ⟨rule, -, hbuild, -⟩ := decides_buildRuleExprs hvalid.1
    obtain ⟨rest, hrest⟩ := ih hvalid.2
    rw [ruleMsgs, hbuild]
    dsimp only
    rw [hrest]
    dsimp only
    split_ifs
    · exact ⟨_, rfl⟩
    · exact ⟨_, rfl⟩
    · exact ⟨_, rfl⟩

end WeftAgent.PacketFilter
