import WeftAgent.PacketFilter.Proofs.StatusProofs

/-!
# The accounting model is refined

`FirewallStatus` describes the accounting of drops by drops, rebuilds and ticks, where a tick reads
both counters at once and the reads are not interrupted. Here the firewall is made of netlink calls,
the reads are interleaved with batches and packets, and every call can fail. Every history of it has
a history of `FirewallStatus` with the same drops, rebuilds, kernel counters and recorder
(`accounting_refined`): a read counts at the moment it gets the rules of the input chain.
-/

namespace WeftAgent.PacketFilter

open WeftAgent.Go WeftAgent.Effect WeftAgent.Nft WeftAgent.Metrics

/-! ## Abstract histories -/

def isTick : FirewallStatus.Event → Bool
  | .tick _ _ _ => true
  | _ => false

/-- Drops and rebuilds do to the kernel counters what they do without ticks before them, and leave
the recorder alone. -/
theorem foldl_step_tickless {post : List FirewallStatus.Event} (h : ∀ e ∈ post, isTick e = false)
    {a b : FirewallStatus.Guest} (hpackets : a.packets = b.packets) (hbytes : a.bytes = b.bytes) :
    (post.foldl FirewallStatus.step a).packets = (post.foldl FirewallStatus.step b).packets ∧
      (post.foldl FirewallStatus.step a).bytes = (post.foldl FirewallStatus.step b).bytes ∧
      (post.foldl FirewallStatus.step a).recorder = a.recorder := by
  induction post generalizing a b with
  | nil => exact ⟨hpackets, hbytes, rfl⟩
  | cons e post ih =>
    rw [List.forall_mem_cons] at h
    cases e with
    | drop packets bytes =>
      exact ih h.2 (congrArg (·.drop packets) hpackets) (congrArg (·.drop bytes) hbytes)
    | rebuild => exact ih h.2 (congrArg (·.rebuild) hpackets) (congrArg (·.rebuild) hbytes)
    | tick readErr marshalErr publishErr => cases h.1

theorem after_append (pre post : List FirewallStatus.Event) :
    FirewallStatus.after (pre ++ post) =
      post.foldl FirewallStatus.step (FirewallStatus.after pre) :=
  List.foldl_append

/-- The status has the counters that a tick reads there, given its outcome. -/
def Shows (a : FirewallStatus.Guest) (status : FirewallStatus.Status) : Prop :=
  let read := FirewallStatus.readFirewallStatus a.packets.kernel a.bytes.kernel status.lastError
  status.dropsPackets = read.dropsPackets ∧ status.dropsBytes = read.dropsBytes

theorem publishOnce_of_shows {a : FirewallStatus.Guest} {status : FirewallStatus.Status}
    (h : Shows a status) (marshalErr publishErr : Option GoError) :
    FirewallStatus.publishOnce a.recorder status marshalErr publishErr =
      (FirewallStatus.step a (.tick status.lastError marshalErr publishErr)).recorder := by
  simp only [FirewallStatus.publishOnce, FirewallStatus.step, h.1, h.2]

/-! ## Reads -/

/-- The read has its counters: they are those of `a`, unless it fails. -/
def Committed (a : FirewallStatus.Guest) (prog : Prog nftSig Snapshot) : Prop :=
  Issues (fun _ _ => True) ReadOnly (fun status => Shows a status.toStatus) prog

/-- The read does not have its counters yet; a table has been found or not. -/
inductive Unread (installed : Bool) : Prog nftSig Snapshot → Prop where
  | started : Unread installed readFirewallStatus
  | opened : Unread installed (.call (.listTablesOfFamily familyINet) afterListTables)
  | found (h : installed = true) :
      Unread installed (.call (.listChainsOfTableFamily familyINet) afterListChains)
  /-- The chains have been listed, and the turn of the input chain has not come. -/
  | listed (h : installed = true) (total : Nat) {before behind : List GoString}
      (hbefore : inputChain ∉ before) (hbehind : inputChain ∉ behind) :
      Unread installed (readOwn total 0 0 (before ++ inputChain :: behind))

theorem shows_degraded (a : FirewallStatus.Guest) (tableInstalled : Bool) (e : GoError) :
    Shows a (degraded tableInstalled e).toStatus := ⟨rfl, rfl⟩

/-- The rest of a read that has got the rules of the input chain. -/
theorem committed_readOwn (a : FirewallStatus.Guest) {names : List GoString}
    (hnames : inputChain ∉ names) (total : Nat) :
    Committed a (readOwn total a.packets.kernel a.bytes.kernel names) := by
  induction names generalizing total with
  | nil => exact ⟨rfl, rfl⟩
  | cons name names ih =>
    rw [List.mem_cons, not_or] at hnames
    rw [readOwn_cons]
    refine ⟨readOnly_getRules ownTable name, fun x _ => ?_⟩
    cases x with
    | error e => exact shows_degraded a _ _
    | ok rules =>
      dsimp only
      rw [if_pos (Ne.symm hnames.1)]
      exact ih hnames.2 _

theorem Unread.mono {b b' : Bool} (hmono : b = true → b' = true) {prog : Prog nftSig Snapshot}
    (h : Unread b prog) : Unread b' prog := by
  cases h with
  | started => exact .started
  | opened => exact .opened
  | found hb => exact .found (hmono hb)
  | listed hb total hbefore hbehind => exact .listed (hmono hb) total hbefore hbehind

theorem Unread.ne_ret {b : Bool} {prog : Prog nftSig Snapshot} (h : Unread b prog)
    (status : Snapshot) : prog ≠ .ret status := by
  cases h with
  | started => exact fun hret => by cases hret
  | opened => exact fun hret => by cases hret
  | found => exact fun hret => by cases hret
  | @listed _ _ before behind =>
    cases before with
    | nil =>
      rw [List.nil_append, readOwn_cons]
      exact fun hret => by cases hret
    | cons name before =>
      rw [List.cons_append, readOwn_cons]
      exact fun hret => by cases hret

/-- Two chains in any order: one of them is the input chain, and only one. -/
theorem split_at_input {names : List GoString} (h : names.Perm [inputChain, outputChain]) :
    ∃ before behind, names = before ++ inputChain :: behind ∧ inputChain ∉ before ∧
      inputChain ∉ behind := by
  have hnodup : names.Nodup := h.nodup_iff.mpr (by decide)
  obtain ⟨before, behind, rfl⟩ := List.append_of_mem (h.mem_iff.mpr List.mem_cons_self)
  obtain ⟨hnot, -⟩ := List.nodup_cons.mp (List.nodup_middle.mp hnodup)
  rw [List.mem_append, not_or] at hnot
  exact ⟨before, behind, rfl, hnot⟩

variable {S : Type} {unmarshal : GoString → Except GoError Firewall} {K : Kernel S} {s₀ : S}

/-! ## Counters -/

/-- The own table has counted what `a` has. -/
structure Tallies (K : Kernel S) (s : Subscriber S) (a : FirewallStatus.Guest) : Prop where
  table : K.table s.nft ownTable = s.installed.map fun fw =>
    K.ofChains (chainsOf fw a.packets.kernel a.bytes.kernel)
  fresh : s.installed = none → a.packets.kernel = 0 ∧ a.bytes.kernel = 0

/-- The loop over the listed chains has its counters once the turn of the input chain has come. -/
theorem Unread.call_readOwn {s : Subscriber S} {a : FirewallStatus.Guest}
    (htallies : Tallies K s a) (hsome : s.installed.isSome = true) {total : Nat}
    {before behind : List GoString} (hbefore : inputChain ∉ before)
    (hbehind : inputChain ∉ behind) {op : NftOp} {k : op.Ans → Prog nftSig Snapshot}
    (hprog : .call op k = readOwn total 0 0 (before ++ inputChain :: behind)) :
    ReadOnly op ∧ (Unread s.installed.isSome (k (K.handler op s.nft).1) ∨
      Committed a (k (K.handler op s.nft).1)) := by
  cases before with
  | cons name before =>
    rw [List.mem_cons, not_or] at hbefore
    rw [List.cons_append, readOwn_cons] at hprog
    cases hprog
    refine ⟨readOnly_getRules ownTable name, ?_⟩
    cases (K.handler (.getRules ownTable name) s.nft).1 with
    | error e => exact .inr (shows_degraded a _ _)
    | ok rules =>
      dsimp only
      rw [if_pos (Ne.symm hbefore.1)]
      exact .inl (.listed hsome _ hbefore.2 hbehind)
  | nil =>
    rw [List.nil_append, readOwn_cons] at hprog
    cases hprog
    refine ⟨readOnly_getRules ownTable inputChain, ?_⟩
    cases hx : (K.handler (.getRules ownTable inputChain) s.nft).1 with
    | error e => exact .inr (shows_degraded a _ _)
    | ok rules =>
      obtain ⟨fw, hfw⟩ := Option.isSome_iff_exists.mp hsome
      have htable := htallies.table
      rw [hfw] at htable
      obtain rfl := getRules_own htable List.mem_cons_self hx
      dsimp only
      rw [if_neg (not_not.mpr rfl), rulesNamed, if_pos rfl, addDrops_inputRules]
      exact .inr (committed_readOwn a hbehind _)

/-- A call of a read that has no counters yet, in a state whose counters are those of `a`. -/
theorem Unread.call {s : Subscriber S} {a : FirewallStatus.Guest} (htallies : Tallies K s a)
    {op : NftOp} {k : op.Ans → Prog nftSig Snapshot}
    (h : Unread s.installed.isSome (.call op k)) :
    ReadOnly op ∧ (Unread s.installed.isSome (k (K.handler op s.nft).1) ∨
      Committed a (k (K.handler op s.nft).1)) := by
  generalize hprog : (Prog.call op k : Prog nftSig Snapshot) = prog at h
  cases h with
  | started =>
    cases hprog
    refine ⟨readOnly_new, ?_⟩
    cases (K.handler .new s.nft).1 with
    | some e => exact .inr (shows_degraded a _ _)
    | none => exact .inl .opened
  | opened =>
    cases hprog
    refine ⟨readOnly_listTables familyINet, ?_⟩
    cases hx : (K.handler (.listTablesOfFamily familyINet) s.nft).1 with
    | error e => exact .inr (shows_degraded a _ _)
    | ok names =>
      have hmem := mem_listed_tables hx
      rw [htallies.table, Option.isSome_map] at hmem
      cases hinstalled : s.installed with
      | some fw =>
        rw [hinstalled] at hmem
        rw [afterListTables, if_pos (hmem.mpr rfl)]
        exact .inl (.found rfl)
      | none =>
        -- no table, and nothing has been counted
        rw [hinstalled] at hmem
        obtain ⟨hpackets, hbytes⟩ := htallies.fresh hinstalled
        rw [afterListTables, if_neg fun h => Bool.false_ne_true (hmem.mp h)]
        exact .inr ⟨hpackets.symm, hbytes.symm⟩
  | found hsome =>
    cases hprog
    refine ⟨readOnly_listChains familyINet, ?_⟩
    cases hx : (K.handler (.listChainsOfTableFamily familyINet) s.nft).1 with
    | error e => exact .inr (shows_degraded a _ _)
    | ok listed =>
      obtain ⟨fw, hfw⟩ := Option.isSome_iff_exists.mp hsome
      have htable := htallies.table
      rw [hfw] at htable
      obtain ⟨before, behind, hnames, hbefore, hbehind⟩ :=
        split_at_input (K.listChains_ok ownTable hx htable)
      have hown : (listed.filter (·.1 = firewallTableName)).map (·.2) =
          before ++ inputChain :: behind := hnames
      rw [afterListChains, readChains_eq_readOwn, hown]
      exact .inl (.listed hsome 0 hbefore hbehind)
  | listed hsome total hbefore hbehind =>
    exact Unread.call_readOwn htallies hsome hbefore hbehind hprog

/-- Steps that leave the own table and the set alone. -/
theorem Tallies.of_eq {s s' : Subscriber S} {a : FirewallStatus.Guest} (h : Tallies K s a)
    (htable : K.table s'.nft ownTable = K.table s.nft ownTable)
    (hinstalled : s'.installed = s.installed) : Tallies K s' a where
  table := by rw [htable, hinstalled, h.table]
  fresh := by
    rw [hinstalled]
    exact h.fresh

/-- What a step of the subscriber does to the own table is counted. -/
theorem Tallies.step {s : Subscriber S} (hinv : Inv K s) {a : FirewallStatus.Guest}
    (h : Tallies K s a) {e : Event S} (hkeeps : e.KeepsOwn K) :
    Tallies K (s.step unmarshal K e) ((happens K s e).foldl FirewallStatus.step a) := by
  cases e with
  | message data =>
    have hstep : (s.step unmarshal K (.message data)).nft = s.nft ∧
        (s.step unmarshal K (.message data)).installed = s.installed := by
      rw [Subscriber.step]
      split
      · exact ⟨rfl, rfl⟩
      · split <;> exact ⟨rfl, rfl⟩
    exact h.of_eq (by rw [hstep.1]) hstep.2
  | others change => exact h.of_eq (hkeeps s.nft) rfl
  | call =>
    cases hw : s.writer with
    | ret err =>
      have hstep : s.step unmarshal K .call = s := by simp [Subscriber.step, hw]
      have hnothing : happens K s .call = [] := by simp [happens, hw]
      rw [hstep, hnothing]
      exact h
    | call op k =>
      rw [step_call hw, happens, hw]
      dsimp only
      cases hdone : replaces K s.nft op with
      | true =>
        obtain ⟨fw, haccepted, htable⟩ := hinv.table_of_replaces hw hdone
        rw [haccepted]
        exact ⟨htable, fun hnone => by cases hnone⟩
      | false => exact h.of_eq (table_of_not_replaces hdone) rfl
  | packet hook p =>
    have hafter := table_deliver hinv.installed h.table hook p
    rw [happens]
    split_ifs at hafter ⊢ with hdropped
    · refine ⟨hafter, fun hnone => ?_⟩
      have hinstalled : s.installed = none := hnone
      have habsent := h.table
      rw [hinstalled] at habsent
      rw [droppedByOwn_eq_false habsent] at hdropped
      cases hdropped
    · exact ⟨hafter, h.fresh⟩

/-! ## The simulation -/

/-- A history of `FirewallStatus`, cut where the read that is under way got its counters, with the
same drops and rebuilds, kernel counters and recorder. -/
structure Refines (K : Kernel S) (g : Guest S) (pre post : List FirewallStatus.Event) :
    Prop where
  happened : (pre ++ post).filter (¬ isTick ·) = g.happened
  tickless : ∀ e ∈ post, isTick e = false
  tallies : Tallies K g.subscriber (FirewallStatus.after (pre ++ post))
  recorder : (FirewallStatus.after (pre ++ post)).recorder = g.recorder
  reader : ∀ prog, g.reader = some prog →
    Unread g.subscriber.installed.isSome prog ∨ Committed (FirewallStatus.after pre) prog

theorem isTick_happens (s : Subscriber S) (e : Event S) :
    ∀ x ∈ happens K s e, isTick x = false := by
  cases e with
  | message data => simp [happens]
  | others change => simp [happens]
  | call =>
    rw [happens]
    split
    · simp
    · split_ifs <;> simp [isTick]
  | packet hook p =>
    rw [happens]
    split_ifs <;> simp [isTick]

/-- Once a set has been installed there is always one. -/
theorem installed_step {s : Subscriber S} (hinv : Inv K s) (e : Event S)
    (h : s.installed.isSome = true) : (s.step unmarshal K e).installed.isSome = true := by
  cases e with
  | message data =>
    rw [Subscriber.step]
    split
    · exact h
    · split <;> exact h
  | call =>
    cases hw : s.writer with
    | ret err => simpa [Subscriber.step, hw] using h
    | call op k =>
      rw [step_call hw]
      dsimp only
      split_ifs with hdone
      · obtain ⟨fw, haccepted, -⟩ := hinv.table_of_replaces hw hdone
        rw [haccepted]
        rfl
      · exact h
  | packet hook p => exact h
  | others change => exact h

variable {g : Guest S} {pre post : List FirewallStatus.Event}

theorem Refines.subscriber (h : Refines K g pre post) (hinv : Inv K g.subscriber) {e : Event S}
    (hkeeps : e.KeepsOwn K) :
    Refines K (g.step unmarshal K (.subscriber e)) pre (post ++ happens K g.subscriber e) := by
  have hticks := isTick_happens (K := K) g.subscriber e
  have hsplit : pre ++ (post ++ happens K g.subscriber e) =
      pre ++ post ++ happens K g.subscriber e := by rw [List.append_assoc]
  refine {
    happened := ?_
    tickless := ?_
    tallies := ?_
    recorder := ?_
    reader := ?_ }
  · rw [hsplit, List.filter_append, h.happened, Guest.step]
    exact congrArg (g.happened ++ ·) (List.filter_eq_self.mpr fun x hx => by simp [hticks x hx])
  · intro x hx
    exact (List.mem_append.mp hx).elim (h.tickless x) (hticks x)
  · rw [hsplit, after_append]
    exact h.tallies.step hinv hkeeps
  · rw [hsplit, after_append, (foldl_step_tickless hticks rfl rfl).2.2]
    exact h.recorder
  · intro prog hprog
    exact (h.reader prog hprog).imp_left (.mono (installed_step hinv e))

theorem Refines.tick (h : Refines K g pre post) :
    Refines K (g.step unmarshal K .tick) pre post := by
  rw [Guest.step]
  split
  · exact h
  · exact {
      happened := h.happened
      tickless := h.tickless
      tallies := h.tallies
      recorder := h.recorder
      reader := by
        rintro prog ⟨⟩
        exact .inl .started }

theorem step_read {op : NftOp} {k : op.Ans → Prog nftSig Snapshot}
    (hreader : g.reader = some (.call op k)) :
    g.step unmarshal K .read = { g with
      subscriber := { g.subscriber with nft := (K.handler op g.subscriber.nft).2 }
      reader := some (k (K.handler op g.subscriber.nft).1) } := by
  simp [Guest.step, hreader]

/-- A call of a read does not change the tables. -/
theorem table_read (h : Refines K g pre post) {op : NftOp} {k : op.Ans → Prog nftSig Snapshot}
    (hreader : g.reader = some (.call op k)) :
    K.table (K.handler op g.subscriber.nft).2 ownTable = K.table g.subscriber.nft ownTable := by
  have hread : ReadOnly op := by
    rcases h.reader _ hreader with hunread | hcommitted
    · exact (hunread.call h.tallies).1
    · exact hcommitted.1
  exact K.table_of_readOnly g.subscriber.nft hread ownTable

/-- After a call, a read that had no counters may have them; then the history is cut anew. -/
theorem Refines.read (h : Refines K g pre post) :
    ∃ pre post, Refines K (g.step unmarshal K .read) pre post := by
  cases hreader : g.reader with
  | none => exact ⟨pre, post, by simpa [Guest.step, hreader] using h⟩
  | some prog =>
    cases prog with
    | ret status => exact ⟨pre, post, by simpa [Guest.step, hreader] using h⟩
    | call op k =>
      have htallies : Tallies K { g.subscriber with nft := (K.handler op g.subscriber.nft).2 }
          (FirewallStatus.after (pre ++ post)) := h.tallies.of_eq (table_read h hreader) rfl
      rw [step_read hreader]
      rcases h.reader _ hreader with hunread | hcommitted
      · refine ⟨pre ++ post, [], {
          happened := by rw [List.append_nil, h.happened]
          tickless := by simp
          tallies := by rwa [List.append_nil]
          recorder := by rw [List.append_nil, h.recorder]
          reader := ?_ }⟩
        rintro _ ⟨⟩
        exact (hunread.call h.tallies).2
      · refine ⟨pre, post, {
          happened := h.happened
          tickless := h.tickless
          tallies := htallies
          recorder := h.recorder
          reader := ?_ }⟩
        rintro _ ⟨⟩
        exact .inr (hcommitted.2 _ trivial)

/-- The tick of a read that is over goes to the point where the history is cut. -/
theorem Refines.publish (h : Refines K g pre post) (marshalErr publishErr : Option GoError) :
    ∃ pre post, Refines K (g.step unmarshal K (.publish marshalErr publishErr)) pre post := by
  cases hreader : g.reader with
  | none => exact ⟨pre, post, by simpa [Guest.step, hreader] using h⟩
  | some prog =>
    cases prog with
    | call op k => exact ⟨pre, post, by simpa [Guest.step, hreader] using h⟩
    | ret status =>
      have hshows : Shows (FirewallStatus.after pre) status.toStatus := by
        rcases h.reader _ hreader with hunread | hcommitted
        · exact absurd rfl (hunread.ne_ret status)
        · exact hcommitted
      have hstep : g.step unmarshal K (.publish marshalErr publishErr) = { g with
          reader := none
          recorder := FirewallStatus.publishOnce g.recorder status.toStatus marshalErr
            publishErr } := by
        simp [Guest.step, hreader]
      let tick : FirewallStatus.Event := .tick status.lastError marshalErr publishErr
      have hfold := foldl_step_tickless h.tickless
        (a := FirewallStatus.step (FirewallStatus.after pre) tick)
        (b := FirewallStatus.after pre) rfl rfl
      have hsplit : FirewallStatus.after (pre ++ [tick] ++ post) =
          post.foldl FirewallStatus.step (FirewallStatus.step (FirewallStatus.after pre) tick) := by
        rw [after_append, after_append]
        rfl
      have hrecorder : (FirewallStatus.after pre).recorder = g.recorder := by
        rw [← h.recorder, after_append, (foldl_step_tickless h.tickless rfl rfl).2.2]
      refine ⟨pre ++ [tick], post, ?_⟩
      rw [hstep]
      refine {
        happened := ?_
        tickless := h.tickless
        tallies := ?_
        recorder := ?_
        reader := by rintro _ ⟨⟩ }
      · rw [← h.happened, List.filter_append, List.filter_append, List.filter_append]
        simp [tick, isTick]
      · have hsame : (FirewallStatus.after (pre ++ [tick] ++ post)).packets.kernel =
              (FirewallStatus.after (pre ++ post)).packets.kernel ∧
            (FirewallStatus.after (pre ++ [tick] ++ post)).bytes.kernel =
              (FirewallStatus.after (pre ++ post)).bytes.kernel := by
          rw [hsplit, after_append pre post, hfold.1, hfold.2.1]
          exact ⟨rfl, rfl⟩
        constructor
        · rw [hsame.1, hsame.2]
          exact h.tallies.table
        · rw [hsame.1, hsame.2]
          exact h.tallies.fresh
      · rw [hsplit, hfold.2.2, ← publishOnce_of_shows hshows, hrecorder]

/-- Every step of the guest is one of `FirewallStatus`, or none. -/
theorem Refines.step (h : Refines K g pre post) (hinv : Inv K g.subscriber) {e : GuestEvent S}
    (hkeeps : e.KeepsOwn K) :
    Inv K (g.step unmarshal K e).subscriber ∧
      ∃ pre post, Refines K (g.step unmarshal K e) pre post := by
  cases e with
  | subscriber e => exact ⟨hinv.step hkeeps, pre, _, h.subscriber hinv hkeeps⟩
  | tick =>
    refine ⟨?_, pre, post, h.tick⟩
    rw [Guest.step]
    split <;> exact hinv
  | read =>
    refine ⟨?_, h.read⟩
    cases hreader : g.reader with
    | none => simpa [Guest.step, hreader] using hinv
    | some prog =>
      cases prog with
      | ret status => simpa [Guest.step, hreader] using hinv
      | call op k =>
        rw [step_read hreader]
        exact hinv.kernel_same (table_read h hreader)
  | publish marshalErr publishErr =>
    refine ⟨?_, h.publish marshalErr publishErr⟩
    rw [Guest.step]
    split <;> exact hinv

/-- The accounting model describes every history of the guest: there is a history of it with the
same drops and rebuilds in the same order and the same recorder, and its kernel counters are those
of the own table. -/
theorem accounting_refined (hfresh : K.table s₀ ownTable = none) {evs : List (GuestEvent S)}
    (hkeeps : ∀ e ∈ evs, e.KeepsOwn K) :
    let g := Guest.after unmarshal K s₀ evs
    ∃ history, history.filter (¬ isTick ·) = g.happened ∧
      (FirewallStatus.after history).recorder = g.recorder ∧
      K.table g.subscriber.nft ownTable = g.subscriber.installed.map fun fw =>
        K.ofChains (chainsOf fw (FirewallStatus.after history).packets.kernel
          (FirewallStatus.after history).bytes.kernel) := by
  intro g
  have hstart : Refines K ({ subscriber := { nft := s₀ } } : Guest S) [] [] := {
    happened := rfl
    tickless := by simp
    tallies := ⟨hfresh, fun _ => ⟨rfl, rfl⟩⟩
    recorder := rfl
    reader := by rintro _ ⟨⟩ }
  have hall : Inv K g.subscriber ∧ ∃ pre post, Refines K g pre post := by
    refine List.foldlRecOn
      (motive := fun g => Inv K g.subscriber ∧ ∃ pre post, Refines K g pre post) evs _
      ⟨.initial hfresh, [], [], hstart⟩ ?_
    rintro g ⟨hinv, pre, post, h⟩ e he
    exact h.step hinv (hkeeps e he)
  obtain ⟨-, pre, post, h⟩ := hall
  exact ⟨pre ++ post, h.happened, h.recorder, h.tallies.table⟩

/-- A set is replaced while its status is read, after a packet has been dropped. -/
def replacedWhileRead : List (GuestEvent Reference.Tables) :=
  [.subscriber (.message []), .subscriber .call, .subscriber .call, .subscriber .call,
    .subscriber (.packet .input strayPacket), .tick, .read, .read, .read, .read,
    .subscriber (.message []), .subscriber .call, .subscriber .call, .subscriber .call,
    .read, .publish none none]

theorem replacedWhileRead_refined :
    let g := Guest.after (fun _ => .ok sshFromTen) Reference.Tables.kernel .empty replacedWhileRead
    g.happened = [.rebuild, .drop 1 28, .rebuild] ∧ g.recorder.packets.last = 1 ∧
      ∃ history, history.filter (¬ isTick ·) = g.happened ∧
        (FirewallStatus.after history).recorder = g.recorder := by
  intro g
  obtain ⟨history, hhappened, hrecorder, -⟩ := @accounting_refined _ (fun _ => .ok sshFromTen)
    Reference.Tables.kernel .empty rfl replacedWhileRead
    (by simp [replacedWhileRead, GuestEvent.KeepsOwn, Event.KeepsOwn])
  exact ⟨rfl, rfl, history, hhappened, hrecorder⟩

end WeftAgent.PacketFilter
