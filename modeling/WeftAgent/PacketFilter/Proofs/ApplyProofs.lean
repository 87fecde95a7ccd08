import WeftAgent.Nft.Runs
import WeftAgent.PacketFilter.Proofs.TableProofs

/-!
# Histories of the firewall subscriber

Messages of any content, netlink calls with any faults, packets, and whatever others do in the
kernel, in any order and in every kernel that keeps the laws. The own table is always the one of the
last set whose batch was carried out, with some counters (`Inv`). So the fate of a packet is decided
by that set and by the tables of others alone.
-/

namespace WeftAgent.PacketFilter

open WeftAgent.Go WeftAgent.Go.Netip WeftAgent.Effect WeftAgent.Nft

variable {S : Type} {unmarshal : GoString → Except GoError Firewall} {K : Kernel S} {s₀ : S}

/-! ## The own table -/

/-- A packet counts in the own table, if there is one, exactly if that table drops it. -/
theorem table_deliver {s : S} {installed : Option Firewall}
    (hvalid : ∀ fw, installed = some fw → fw.validate = none) {packets bytes : UInt64}
    (htable : K.table s ownTable = installed.map fun fw => K.ofChains (chainsOf fw packets bytes))
    (hook : Hook) (p : Packet) :
    K.table (K.deliver s hook p) ownTable = installed.map fun fw => K.ofChains (
      if droppedByOwn K s hook p then
        chainsOf fw (packets + 1) (bytes + UInt64.ofNat p.network.length)
      else chainsOf fw packets bytes) := by
  cases installed with
  | none => exact K.deliver_absent hook p htable
  | some fw =>
    obtain ⟨L, hL, -⟩ := exists_letsIn (hvalid fw rfl)
    exact hL.table_deliver (hvalid fw rfl) htable hook p

theorem droppedByOwn_eq_false {s : S} (hnone : K.table s ownTable = none) (hook : Hook)
    (p : Packet) : droppedByOwn K s hook p = false := by
  simp [droppedByOwn, K.passes_absent .input p hnone]

/-- The batch is carried out, or it changes nothing and is answered with an error. -/
theorem flush_batch {s : S} {existing : List GoString} {fw : Firewall} {rules : List Msg}
    (hrules : ruleMsgs fw.rules = .ok rules)
    (hlisted : existing.filter (· = firewallTableName) =
      if (K.table s ownTable).isSome then [firewallTableName] else []) :
    let op : NftOp := .flush (batch existing rules)
    (K.carriesOut s (batch existing rules) = true →
      Built K s (K.handler op s).2 (chainsOf fw 0 0)) ∧
    (K.carriesOut s (batch existing rules) = false →
      Fails op (K.handler op s).1 ∧ ∀ id, K.table (K.handler op s).2 id = K.table s id) := by
  refine ⟨fun hdone => ?_, K.flush_refused⟩
  obtain ⟨s', hcommit, hsame⟩ := K.flush_done hdone
  have hbuilt := built_batch hrules hlisted hcommit
  exact ⟨(hsame _).trans hbuilt.own, fun id hid => (hsame id).trans (hbuilt.others id hid)⟩

/-! ## The invariant -/

/-- What may be left of the handling of a message; an own table is present or not. -/
inductive Pending (present : Bool) (fw : Firewall) : Prog nftSig (Option GoError) → Prop where
  | started : Pending present fw (applyFirewall fw)
  | opened : Pending present fw (.call (.listTablesOfFamily familyINet) (afterList fw))
  | listed {existing : List GoString} {rules : List Msg}
      (hlisted : existing.filter (· = firewallTableName) =
        if present then [firewallTableName] else [])
      (hrules : ruleMsgs fw.rules = .ok rules) :
      Pending present fw (.call (.flush (batch existing rules)) afterFlush)

structure Inv (K : Kernel S) (s : Subscriber S) : Prop where
  table : ∃ packets bytes, K.table s.nft ownTable =
    s.installed.map fun fw => K.ofChains (chainsOf fw packets bytes)
  accepted : ∀ fw, s.accepted = some fw → fw.validate = none
  installed : ∀ fw, s.installed = some fw → fw.validate = none
  writer : (∃ err, s.writer = .ret err ∧ (err = none → s.installed = s.accepted)) ∨
    ∃ fw, s.accepted = some fw ∧ Pending s.installed.isSome fw s.writer

theorem Inv.initial (hfresh : K.table s₀ ownTable = none) : Inv K { nft := s₀ } where
  table := ⟨0, 0, hfresh⟩
  accepted := by simp
  installed := by simp
  writer := .inl ⟨none, rfl, fun _ => rfl⟩

variable {s s' : Subscriber S}

theorem Inv.isSome_table (h : Inv K s) :
    (K.table s.nft ownTable).isSome = s.installed.isSome := by
  obtain ⟨packets, bytes, htable⟩ := h.table
  rw [htable, Option.isSome_map]

/-- Something happens in the kernel, but to the own table only what can. -/
theorem Inv.kernel (h : Inv K s) {nft : S} (htable : ∃ packets bytes, K.table nft ownTable =
    s.installed.map fun fw => K.ofChains (chainsOf fw packets bytes)) :
    Inv K { s with nft := nft } :=
  ⟨htable, h.accepted, h.installed, h.writer⟩

theorem Inv.kernel_same (h : Inv K s) {nft : S}
    (hsame : K.table nft ownTable = K.table s.nft ownTable) : Inv K { s with nft := nft } := by
  obtain ⟨packets, bytes, htable⟩ := h.table
  exact h.kernel ⟨packets, bytes, hsame.trans htable⟩

theorem Inv.packet (h : Inv K s) (hook : Hook) (p : Packet) :
    Inv K (s.step unmarshal K (.packet hook p)) := by
  obtain ⟨packets, bytes, htable⟩ := h.table
  have hafter := table_deliver h.installed htable hook p
  refine h.kernel ?_
  split_ifs at hafter
  · exact ⟨_, _, hafter⟩
  · exact ⟨_, _, hafter⟩

/-! ## Messages -/

theorem handleMessage_ok {β : Type} {data : GoString} {apply : Firewall → β} {b : β}
    (h : handleMessage unmarshal data apply = .ok b) :
    ∃ fw, fw.validate = none ∧ b = apply fw := by
  unfold handleMessage at h
  split at h
  · cases h
  · split at h
    · cases h
    · exact ⟨_, ‹_›, (Except.ok.inj h).symm⟩

theorem Inv.message (h : Inv K s) (data : GoString) :
    Inv K (s.step unmarshal K (.message data)) := by
  unfold Subscriber.step
  cases s.writer with
  | call op k => exact h
  | ret err =>
    dsimp only
    split
    · exact h
    · rename_i fw writer hok
      obtain ⟨fw', hvalid, heq⟩ := handleMessage_ok hok
      obtain ⟨rfl, rfl⟩ : fw = fw' ∧ writer = applyFirewall fw' := by simpa using heq
      exact {
        table := h.table
        accepted := by
          rintro _ ⟨⟩
          exact hvalid
        installed := h.installed
        writer := .inr ⟨fw, rfl, .started⟩ }

/-- A valid message that does not have to wait is accepted. -/
theorem accepted_message {err : Option GoError} (hidle : s.writer = .ret err) {data : GoString}
    {fw : Firewall} (hdecoded : unmarshal data = .ok fw) (hvalid : fw.validate = none) :
    (s.step unmarshal K (.message data)).accepted = some fw := by
  simp [Subscriber.step, hidle, handleMessage, hdecoded, hvalid]

theorem accepted_step {e : Event S} (h : ∀ data, e ≠ .message data) :
    (s.step unmarshal K e).accepted = s.accepted := by
  cases e with
  | message data => exact absurd rfl (h data)
  | call =>
    rw [Subscriber.step]
    split <;> rfl
  | packet hook p => rfl
  | others change => rfl

theorem accepted_foldl {evs : List (Event S)} (h : ∀ e ∈ evs, ∀ data, e ≠ .message data) :
    (evs.foldl (Subscriber.step unmarshal K) s).accepted = s.accepted := by
  induction evs generalizing s with
  | nil => rfl
  | cons e evs ih =>
    rw [List.forall_mem_cons] at h
    rw [List.foldl_cons, ih h.2, accepted_step h.1]

/-! ## Calls -/

theorem step_call {op : NftOp} {k : op.Ans → Prog nftSig (Option GoError)}
    (hw : s.writer = .call op k) :
    s.step unmarshal K .call = { s with
      nft := (K.handler op s.nft).2
      writer := k (K.handler op s.nft).1
      installed := if replaces K s.nft op then s.accepted else s.installed } := by
  simp [Subscriber.step, hw]

/-- The state after a call that is not a batch. -/
theorem Inv.reading (h : Inv K s) {op : NftOp} {k : op.Ans → Prog nftSig (Option GoError)}
    (hw : s.writer = .call op k) (hread : ReadOnly op)
    (hnext : (∃ e, k (K.handler op s.nft).1 = .ret (some e)) ∨
      ∃ fw, s.accepted = some fw ∧ Pending s.installed.isSome fw (k (K.handler op s.nft).1)) :
    Inv K (s.step unmarshal K .call) := by
  have hsame := K.table_of_readOnly s.nft hread ownTable
  have hno : replaces K s.nft op = false := by
    cases op with
    | flush msgs => exact absurd rfl (hread msgs)
    | _ => rfl
  obtain ⟨packets, bytes, htable⟩ := h.table
  rw [step_call hw, hno, if_neg Bool.false_ne_true]
  refine ⟨⟨packets, bytes, hsame.trans htable⟩, h.accepted, h.installed, ?_⟩
  rcases hnext with ⟨e, hret⟩ | hpending
  · exact .inl ⟨some e, hret, by simp⟩
  · exact .inr hpending

/-- A batch that is carried out installs the set that was accepted last. -/
theorem Inv.table_of_replaces (h : Inv K s) {op : NftOp}
    {k : op.Ans → Prog nftSig (Option GoError)} (hw : s.writer = .call op k)
    (hdone : replaces K s.nft op = true) :
    ∃ fw, s.accepted = some fw ∧
      K.table (K.handler op s.nft).2 ownTable = some (K.ofChains (chainsOf fw 0 0)) := by
  rcases h.writer with ⟨err, hret, -⟩ | ⟨fw, haccepted, hpending⟩
  · rw [hw] at hret
    cases hret
  refine ⟨fw, haccepted, ?_⟩
  rw [hw] at hpending
  cases hpending with
  | started => cases hdone
  | opened => cases hdone
  | listed hlisted hrules =>
    rw [← h.isSome_table] at hlisted
    exact ((flush_batch hrules hlisted).1 hdone).own

/-- A batch that is not carried out leaves the own table as it is. -/
theorem table_of_not_replaces {nft : S} {op : NftOp} (hno : replaces K nft op = false) :
    K.table (K.handler op nft).2 ownTable = K.table nft ownTable := by
  cases op with
  | flush msgs => exact (K.flush_refused hno).2 ownTable
  | new => exact K.table_of_readOnly nft readOnly_new ownTable
  | listTablesOfFamily family => exact K.table_of_readOnly nft (readOnly_listTables family) ownTable
  | listChainsOfTableFamily family =>
    exact K.table_of_readOnly nft (readOnly_listChains family) ownTable
  | getRules table chain => exact K.table_of_readOnly nft (readOnly_getRules table chain) ownTable

/-- The batch of the set that was accepted last has been carried out, or refused. -/
theorem Inv.flush (h : Inv K s) {msgs : List Msg}
    (hw : s.writer = .call (.flush msgs) afterFlush) : Inv K (s.step unmarshal K .call) := by
  rw [step_call hw]
  cases hdone : replaces K s.nft (.flush msgs) with
  | true =>
    obtain ⟨fw, haccepted, htable⟩ := h.table_of_replaces hw hdone
    have hret : ∃ err, afterFlush (K.handler (.flush msgs) s.nft).1 = .ret err := by
      cases (K.handler (.flush msgs) s.nft).1 with
      | none => exact ⟨none, rfl⟩
      | some e => exact ⟨_, rfl⟩
    obtain ⟨err, herr⟩ := hret
    refine ⟨⟨0, 0, ?_⟩, h.accepted, h.accepted, .inl ⟨err, herr, fun _ => rfl⟩⟩
    rw [if_pos rfl, haccepted]
    exact htable
  | false =>
    obtain ⟨packets, bytes, htable⟩ := h.table
    obtain ⟨⟨e, he⟩, hsame⟩ := K.flush_refused hdone
    refine ⟨⟨packets, bytes, (hsame ownTable).trans htable⟩, h.accepted, h.installed, .inl
      ⟨some (.wrap "nftables flush: %w" [] e), ?_, by simp⟩⟩
    rw [he]
    rfl

theorem Inv.call (h : Inv K s) : Inv K (s.step unmarshal K .call) := by
  rcases h.writer with ⟨err, hret, -⟩ | ⟨fw, haccepted, hpending⟩
  · have hstep : s.step unmarshal K .call = s := by simp [Subscriber.step, hret]
    rwa [hstep]
  generalize hw : s.writer = w at hpending
  cases hpending with
  | started =>
    refine h.reading hw readOnly_new ?_
    cases (K.handler .new s.nft).1 with
    | some e => exact .inl ⟨_, rfl⟩
    | none => exact .inr ⟨fw, haccepted, .opened⟩
  | opened =>
    obtain ⟨rules, hrules⟩ := ruleMsgs_ok (Firewall.validate_eq_none (h.accepted fw haccepted))
    refine h.reading hw (readOnly_listTables familyINet) ?_
    cases hx : (K.handler (.listTablesOfFamily familyINet) s.nft).1 with
    | error e => exact .inl ⟨_, rfl⟩
    | ok names =>
      have hlisted := filter_existing hx
      rw [h.isSome_table] at hlisted
      refine .inr ⟨fw, haccepted, ?_⟩
      rw [afterList, hrules]
      exact .listed hlisted hrules
  | listed hlisted hrules => exact h.flush hw

/-! ## Histories -/

theorem Inv.step (h : Inv K s) {e : Event S} (hkeeps : e.KeepsOwn K) :
    Inv K (s.step unmarshal K e) := by
  cases e with
  | message data => exact h.message data
  | call => exact h.call
  | packet hook p => exact h.packet hook p
  | others change => exact h.kernel_same (hkeeps s.nft)

theorem Inv.after (hfresh : K.table s₀ ownTable = none) {evs : List (Event S)}
    (hkeeps : ∀ e ∈ evs, e.KeepsOwn K) : Inv K (Subscriber.after unmarshal K s₀ evs) :=
  List.foldlRecOn evs _ (Inv.initial hfresh) fun _ h e he => h.step (hkeeps e he)

theorem Inv.installed_eq_accepted (h : Inv K s) (hret : s.writer = .ret none) :
    s.installed = s.accepted := by
  rcases h.writer with ⟨err, herr, himp⟩ | ⟨fw, -, hpending⟩
  · rw [hret] at herr
    cases herr
    exact himp rfl
  · rw [hret] at hpending
    cases hpending

/-- The kernel accepts what the own table and those of others accept. -/
theorem accepts_iff_split (nft : S) (hook : Hook) (p : Packet) :
    K.accepts nft hook p = true ↔ K.passes nft ownTable hook p = true ∧
      ∀ id, id ≠ ownTable → K.passes nft id hook p = true := by
  rw [K.accepts_iff]
  constructor
  · exact fun h => ⟨h ownTable, fun id _ => h id⟩
  · rintro ⟨hown, hothers⟩ id
    by_cases hid : id = ownTable
    · rwa [hid]
    · exact hothers id hid

theorem Inv.passes_input_iff (h : Inv K s)
    (hunmapped : ∀ fw, s.installed = some fw → fw.Unmapped) (p : Packet) :
    K.passes s.nft ownTable .input p = true ↔ ∀ fw, s.installed = some fw → fw.Admits p := by
  obtain ⟨packets, bytes, htable⟩ := h.table
  cases hinstalled : s.installed with
  | none =>
    rw [hinstalled] at htable
    simp [K.passes_absent .input p htable]
  | some fw =>
    rw [hinstalled] at htable
    obtain ⟨L, hL, hadmits⟩ := exists_letsIn (h.installed fw hinstalled)
    rw [hL.passes_input htable, hadmits (hunmapped fw hinstalled)]
    simp

/-- What only the own table refuses is dropped there. -/
theorem Inv.droppedByOwn_iff (h : Inv K s) {p : Packet}
    (hothers : ∀ id, id ≠ ownTable → K.passes s.nft id .input p = true) :
    droppedByOwn K s.nft .input p = true ↔ K.accepts s.nft .input p = false := by
  obtain ⟨packets, bytes, htable⟩ := h.table
  have haccepts : K.accepts s.nft .input p = K.passes s.nft ownTable .input p := by
    rw [Bool.eq_iff_iff, accepts_iff_split]
    exact and_iff_left hothers
  rw [haccepts]
  cases hinstalled : s.installed with
  | none =>
    rw [hinstalled] at htable
    simp [droppedByOwn, K.passes_absent .input p htable]
  | some fw =>
    rw [hinstalled] at htable
    have hreaches := reaches_input (h.installed fw hinstalled) htable hothers
    simp [droppedByOwn, hreaches]

/-- After every history, a packet gets into the guest exactly if the tables of others let it in and
the set in force admits it; what only the own table refuses is dropped there. The set in force is
the last one that was accepted, if handling it ended without an error, and a valid message that does
not have to wait is accepted. -/
theorem filter_follows_installed_set (hfresh : K.table s₀ ownTable = none) {evs : List (Event S)}
    (hkeeps : ∀ e ∈ evs, e.KeepsOwn K)
    (hunmapped : ∀ fw, (Subscriber.after unmarshal K s₀ evs).installed = some fw → fw.Unmapped) :
    let s := Subscriber.after unmarshal K s₀ evs
    (∀ p, K.accepts s.nft .input p = true ↔ (∀ fw, s.installed = some fw → fw.Admits p) ∧
      ∀ id, id ≠ ownTable → K.passes s.nft id .input p = true) ∧
    (∀ p, (∀ id, id ≠ ownTable → K.passes s.nft id .input p = true) →
      (droppedByOwn K s.nft .input p = true ↔ K.accepts s.nft .input p = false)) ∧
    (s.writer = .ret none → s.installed = s.accepted) ∧
    ∀ before data rest fw err, evs = before ++ .message data :: rest →
      (Subscriber.after unmarshal K s₀ before).writer = .ret err → unmarshal data = .ok fw →
      fw.validate = none → (∀ e ∈ rest, ∀ data, e ≠ .message data) → s.writer = .ret none →
        s.installed = some fw := by
  intro s
  have hinv : Inv K s := .after hfresh hkeeps
  refine ⟨fun p => ?_, fun p => hinv.droppedByOwn_iff, hinv.installed_eq_accepted, ?_⟩
  · rw [accepts_iff_split, hinv.passes_input_iff hunmapped]
  · intro before data rest fw err hevs hidle hdecoded hvalid hrest hret
    have hsplit : s = rest.foldl (Subscriber.step unmarshal K)
        ((Subscriber.after unmarshal K s₀ before).step unmarshal K (.message data)) := by
      dsimp only [s]
      rw [hevs, Subscriber.after, List.foldl_append]
      rfl
    rw [hinv.installed_eq_accepted hret, hsplit, accepted_foldl hrest,
      accepted_message hidle hdecoded hvalid]

/-- TCP to port 22 from `10.0.0.0/8`. -/
def sshFromTen : Firewall :=
  ⟨[{ direction := ingress, protocol := tcp, portMin := 22, portMax := 22,
      remoteCIDR := lit "10.0.0.0/8" }]⟩

theorem sshFromTen_unmapped : sshFromTen.Unmapped := by
  intro r hr net hnet
  obtain rfl := List.mem_singleton.mp hr
  have hten : parsePrefix (lit "10.0.0.0/8") = .ok ⟨.ip4 #v[10, 0, 0, 0], 8, rfl, by decide⟩ := rfl
  obtain rfl := Except.ok.inj (hnet.symm.trans hten)
  rintro ⟨hversion, -⟩
  cases hversion

/-- Another program adds a table of the same name for IPv4, which drops all that comes in. -/
def addStranger (ts : Reference.Tables) : Reference.Tables :=
  ts.insert ⟨IpVersion.ipv4.nfproto, firewallTableName⟩
    [⟨⟨lit "raw", .filter, .input, -300, .drop⟩, []⟩]

theorem addStranger_keepsOwn :
    (Event.others addStranger).KeepsOwn Reference.Tables.kernel := by
  intro ts
  have hne : ownTable ≠ ⟨IpVersion.ipv4.nfproto, firewallTableName⟩ := by decide
  show (addStranger ts).chains ownTable = ts.chains ownTable
  rw [addStranger, (ts.chains_insert _ _).2 ownTable hne]

/-- Another program adds its table in the middle of a message. -/
theorem filter_follows_sshFromTen :
    let s := Subscriber.after (fun _ => .ok sshFromTen) Reference.Tables.kernel .empty
      [.message [], .call, .call, .others addStranger, .call]
    s.installed = some sshFromTen ∧ ∀ p, Reference.Tables.kernel.accepts s.nft .input p = true ↔
      sshFromTen.Admits p ∧ ∀ id, id ≠ ownTable → s.nft.passes id .input p = true := by
  intro s
  have hinstalled : s.installed = some sshFromTen := rfl
  have hmain := @filter_follows_installed_set _ (fun _ => .ok sshFromTen) Reference.Tables.kernel
    .empty rfl [.message [], .call, .call, .others addStranger, .call]
    (by simpa [Event.KeepsOwn] using addStranger_keepsOwn) (by
      intro fw hfw
      obtain rfl := Option.some.inj (hfw.symm.trans hinstalled)
      exact sshFromTen_unmapped)
  refine ⟨hinstalled, fun p => (hmain.1 p).trans (and_congr_left fun _ => ?_)⟩
  constructor
  · exact fun hadmits => hadmits _ hinstalled
  · intro hadmits fw hfw
    obtain rfl := Option.some.inj (hfw.symm.trans hinstalled)
    exact hadmits

/-- No set ever keeps a packet from leaving the guest. -/
theorem output_never_filtered (hfresh : K.table s₀ ownTable = none) {evs : List (Event S)}
    (hkeeps : ∀ e ∈ evs, e.KeepsOwn K) (p : Packet) :
    let s := Subscriber.after unmarshal K s₀ evs
    K.accepts s.nft .output p = true ↔
      ∀ id, id ≠ ownTable → K.passes s.nft id .output p = true := by
  intro s
  have hinv : Inv K s := .after hfresh hkeeps
  obtain ⟨packets, bytes, htable⟩ := hinv.table
  rw [accepts_iff_split]
  refine and_iff_right ?_
  cases hinstalled : s.installed with
  | none =>
    rw [hinstalled] at htable
    exact K.passes_absent .output p htable
  | some fw =>
    rw [hinstalled] at htable
    exact passes_own (hinv.installed fw hinstalled) htable (by decide) p

/-- Anything to `10.0.0.0/8`, and, one would think, nothing else. -/
def egressToTen : Firewall := ⟨[{ direction := egress, remoteCIDR := lit "10.0.0.0/8" }]⟩

theorem output_open_with_egressToTen :
    let s := Subscriber.after (fun _ => .ok egressToTen) Reference.Tables.kernel .empty
      [.message [], .call, .call, .call]
    s.installed = some egressToTen ∧
      ∀ p, Reference.Tables.kernel.accepts s.nft .output p = true := by
  intro s
  refine ⟨rfl, fun p => ?_⟩
  have hmain := @output_never_filtered _ (fun _ => .ok egressToTen) Reference.Tables.kernel .empty
    rfl [.message [], .call, .call, .call] (by simp [Event.KeepsOwn]) p
  have honly : s.nft.ids = [ownTable] := rfl
  have habsent : ∀ id, id ≠ ownTable → s.nft.chains id = none := by
    intro id hid
    rw [← Reference.Tables.chains_eq_none, honly]
    simpa using hid
  exact hmain.mpr fun id hid => Reference.Tables.kernel.passes_absent .output p (habsent id hid)

/-! ## `ApplyFirewall` by itself -/

variable {fw : Firewall} {nft : S}

/-- The table of the set has been put in the place of the own one. -/
def Applied (K : Kernel S) (fw : Firewall) (nft : S) (err : Option GoError) (nft' : S) : Prop :=
  err = none ∧ Built K nft nft' (chainsOf fw 0 0)

/-- There was an error, and the batch has been carried out or not. -/
def Unapplied (K : Kernel S) (fw : Firewall) (nft : S) (err : Option GoError) (nft' : S) : Prop :=
  (∃ e, err = some e) ∧
    (Built K nft nft' (chainsOf fw 0 0) ∨ ∀ id, K.table nft' id = K.table nft id)

/-- A call before the batch that fails. -/
theorem unapplied_before (e : GoError) :
    ∀ nft', (∀ id, K.table nft' id = K.table nft id) → Unapplied K fw nft (some e) nft' :=
  fun _ hsame => ⟨⟨e, rfl⟩, .inr hsame⟩

/-- `ApplyFirewall` from its batch on. -/
theorem leads_flush {existing : List GoString} {rules : List Msg}
    (hrules : ruleMsgs fw.rules = .ok rules)
    (hlisted : existing.filter (· = firewallTableName) =
      if (K.table nft ownTable).isSome then [firewallTableName] else []) :
    Leads K nft (Applied K fw nft) (Unapplied K fw nft)
      (.call (.flush (batch existing rules)) afterFlush) := by
  refine .last fun s' hs' => ?_
  rw [← hs' ownTable] at hlisted
  obtain ⟨hdone, hrefused⟩ := flush_batch hrules hlisted
  cases hcarries : K.carriesOut s' (batch existing rules) with
  | true =>
    have hbuilt : Built K nft (K.handler (.flush (batch existing rules)) s').2 (chainsOf fw 0 0) :=
      ⟨(hdone hcarries).own, fun id hid => ((hdone hcarries).others id hid).trans (hs' id)⟩
    cases hx : (K.handler (.flush (batch existing rules)) s').1 with
    | none => exact ⟨none, rfl, .inl ⟨rfl, hbuilt⟩⟩
    | some e => exact ⟨_, rfl, .inr ⟨⟨⟨_, rfl⟩, .inl hbuilt⟩, e, rfl⟩⟩
  | false =>
    obtain ⟨⟨e, he⟩, hsame⟩ := hrefused hcarries
    rw [he]
    exact ⟨_, rfl, .inr ⟨unapplied_before _ _ fun id => (hsame id).trans (hs' id), e, rfl⟩⟩

/-- `ApplyFirewall` of a valid set, in every kernel and whatever calls fail: it returns nil and has
put the table of the set in the place of its own, or it returns an error after a call that failed,
and then the own table is either that one or as it was. The tables of others stay as they are. -/
theorem applyFirewall_installs (hvalid : fw.validate = none) (nft : S) :
    let r := run K.handler (applyFirewall fw) nft
    (∀ id, id ≠ ownTable → K.table r.2 id = K.table nft id) ∧
    (r.1 = none ∧ K.table r.2 ownTable = some (K.ofChains (chainsOf fw 0 0)) ∨
      (∃ e, r.1 = some e) ∧ (∃ c ∈ log K.handler (applyFirewall fw) nft, Fails c.1 c.2) ∧
        (K.table r.2 ownTable = some (K.ofChains (chainsOf fw 0 0)) ∨
          K.table r.2 ownTable = K.table nft ownTable)) := by
  obtain ⟨rules, hrules⟩ := ruleMsgs_ok (Firewall.validate_eq_none hvalid)
  have hall : Leads K nft (Applied K fw nft) (Unapplied K fw nft) (applyFirewall fw) := by
    refine .reading readOnly_new ?_ fun s₁ hs₁ hnew => ?_
    · rintro x ⟨e, rfl⟩
      exact ⟨_, rfl, unapplied_before _⟩
    cases hx₁ : (K.handler .new s₁).1 with
    | some e => exact absurd ⟨e, hx₁⟩ hnew
    | none =>
      refine .reading (readOnly_listTables familyINet) ?_ fun s₂ hs₂ hlist => ?_
      · rintro x ⟨e, rfl⟩
        exact ⟨_, rfl, unapplied_before _⟩
      cases hx₂ : (K.handler (.listTablesOfFamily familyINet) s₂).1 with
      | error e => exact absurd ⟨e, hx₂⟩ hlist
      | ok names =>
        have hlisted := filter_existing hx₂
        rw [hs₂ ownTable] at hlisted
        rw [afterList, hrules]
        exact leads_flush hrules hlisted
  intro r
  rcases hall nft fun _ => rfl with ⟨hnone, hbuilt⟩ | ⟨⟨herror, hbuilt | hsame⟩, hcall⟩
  · exact ⟨hbuilt.others, .inl ⟨hnone, hbuilt.own⟩⟩
  · exact ⟨hbuilt.others, .inr ⟨herror, hcall, .inl hbuilt.own⟩⟩
  · exact ⟨fun id _ => hsame id, .inr ⟨herror, hcall, .inr (hsame ownTable)⟩⟩

/-- Beside a table of the same name in another family. -/
theorem applyFirewall_installs_sshFromTen :
    let r := run Reference.Tables.kernel.handler (applyFirewall sshFromTen) (addStranger .empty)
    r.1 = none ∧ r.2.chains ownTable = some (chainsOf sshFromTen 0 0) ∧
      r.2.chains ⟨2, firewallTableName⟩ = (addStranger .empty).chains ⟨2, firewallTableName⟩ := by
  intro r
  have hvalid : sshFromTen.validate = none := rfl
  have hnone : r.1 = none := rfl
  obtain ⟨hothers, hown⟩ := applyFirewall_installs (K := Reference.Tables.kernel) hvalid
    (addStranger .empty)
  refine ⟨hnone, ?_, hothers ⟨2, firewallTableName⟩ (by decide)⟩
  rcases hown with ⟨-, hnew⟩ | ⟨⟨e, he⟩, -⟩
  · exact hnew
  · cases hnone.symm.trans he

end WeftAgent.PacketFilter
