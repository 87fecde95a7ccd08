import WeftAgent.Nft.Netlink

/-!
# The kernel's side of nftables

What is assumed about `nf_tables`, as two structures of functions with laws. An `ExprMachine` runs
single expressions; what a rule and a base chain do follows from that. A `Kernel` keeps tables,
changes them by batches, and decides about packets.

The laws do not say in which order tables and chains are kept, listed or entered, nor which calls
fail: a packet gets past a hook if no table refuses it, whatever their order. Tables can hold
anything; what the laws say about packets and listings they say of tables that are made of base
chains, so nothing is assumed about the tables of others. A packet is what the chains of its hook
see: none of them rewrites it. `Nft.Reference` has a kernel that meets the laws.
-/

namespace WeftAgent.Nft

open WeftAgent.Go WeftAgent.Effect

/-! ## Expressions -/

/-- Where an expression leads: to the next one, out of the rule, or to a verdict. -/
inductive Flow where
  | next
  | leave
  | done (v : Verdict)
  deriving DecidableEq, Repr

def CmpOp.flow (op : CmpOp) (holds : Bool) : Flow :=
  match op with
  | .eq => if holds then .next else .leave
  | .neq => if holds then .leave else .next

/-- How many bytes a register holds. -/
def registerSize : Nat := 16

/-- How a kernel runs expressions. -/
structure ExprMachine where
  /-- The registers. -/
  Regs : Type
  /-- What they hold when a packet enters a chain. -/
  initial : Regs
  /-- The first bytes of a register. -/
  load : Regs → (register len : Nat) → List UInt8
  eval : Packet → Regs → Expr → Regs × Flow
  /-- A load puts what the packet has into the register. -/
  eval_load : ∀ {p : Packet} {e : Expr} {register : Nat} {bs : List UInt8} (regs : Regs),
    e.loads p = some (register, some bs) → bs.length ≤ registerSize →
      ∃ regs', eval p regs e = (regs', .next) ∧ load regs' register bs.length = bs
  /-- If the packet has nothing to load, the rule does not match. -/
  eval_missing : ∀ {p : Packet} {e : Expr} {register : Nat} (regs : Regs),
    e.loads p = some (register, none) → ∃ regs', eval p regs e = (regs', .leave)
  eval_bitwise : ∀ (p : Packet) (regs : Regs) (source dest : Nat) {mask xor : List UInt8},
    mask.length ≤ registerSize → xor.length = mask.length →
      ∃ regs', eval p regs (.bitwise source dest mask.length mask xor) = (regs', .next) ∧
        load regs' dest mask.length =
          List.zipWith (· ^^^ ·) (maskBytes (load regs source mask.length) mask) xor
  eval_cmp : ∀ (p : Packet) (regs : Regs) (op : CmpOp) (register : Nat) {data : List UInt8},
    data.length ≤ registerSize →
      eval p regs (.cmp op register data) = (regs, op.flow (load regs register data.length = data))
  /-- The bytes are compared as numbers in network order. -/
  eval_range : ∀ (p : Packet) (regs : Regs) (op : CmpOp) (register : Nat)
    {fromData toData : List UInt8}, fromData.length ≤ registerSize →
      toData.length = fromData.length →
      eval p regs (.range op register fromData toData) =
        (regs, op.flow (beNat fromData ≤ beNat (load regs register fromData.length) ∧
          beNat (load regs register fromData.length) ≤ beNat toData))
  eval_counter : ∀ (p : Packet) (regs : Regs) (packets bytes : UInt64),
    eval p regs (.counter packets bytes) = (regs, .next)
  eval_verdict : ∀ (p : Packet) (regs : Regs) (v : Verdict),
    eval p regs (.verdict v) = (regs, .done v)

/-! ## Rules and chains

Counters are part of the rules, so running a chain yields a chain. -/

namespace ExprMachine

variable (E : ExprMachine)

/-- The rule after a packet, the registers, and where the rule leads. -/
def runRule (p : Packet) (regs : E.Regs) : Rule → Rule × E.Regs × Flow
  | [] => ([], regs, .next)
  | e :: es =>
    match E.eval p regs e with
    | (regs, .next) =>
      let (es, regs, flow) := runRule p regs es
      (e.count p :: es, regs, flow)
    | (regs, flow) => (e :: es, regs, flow)

/-- The rules after a packet, and the verdict of the first one that has one. -/
def runRules (p : Packet) (regs : E.Regs) : List Rule → List Rule × Option Verdict
  | [] => ([], none)
  | r :: rs =>
    match E.runRule p regs r with
    | (r, _, .done v) => (r :: rs, some v)
    | (r, regs, _) =>
      let (rs, v) := runRules p regs rs
      (r :: rs, v)

/-- The chain after a packet, and its verdict. -/
def runChain (p : Packet) (c : Chain) : Chain × Verdict :=
  let (rules, v) := E.runRules p E.initial c.rules
  ({ c with rules := rules }, v.getD c.policy)

end ExprMachine

/-! ## Tables -/

/-- A kernel on states of any kind. -/
structure Kernel (S : Type) extends ExprMachine where
  /-- What a table can hold. -/
  Content : Type
  /-- The content of a table that is made of base chains. -/
  ofChains : List Chain → Content
  table : S → TableId → Option Content
  handler : Handler nftSig S
  /-- What a message does, if it can be carried out. -/
  commit : S → Msg → Option S
  /-- The batch is carried out. -/
  carriesOut : S → List Msg → Bool
  /-- The packet gets past the hook. -/
  accepts : S → Hook → Packet → Bool
  /-- The table does not refuse the packet. -/
  passes : S → TableId → Hook → Packet → Bool
  /-- The packet gets to the chain. -/
  reaches : S → TableId → (chain : GoString) → Packet → Bool
  /-- The state after a packet has arrived at a hook. -/
  deliver : S → Hook → Packet → S
  -- messages
  commit_delTable : ∀ {s s' : S} {id : TableId}, commit s (.delTable id) = some s' →
    table s' id = none ∧ ∀ id', id' ≠ id → table s' id' = table s id'
  commit_addTable : ∀ {s s' : S} {id : TableId}, table s id = none →
    commit s (.addTable id) = some s' →
      table s' id = some (ofChains []) ∧ ∀ id', id' ≠ id → table s' id' = table s id'
  commit_addChain : ∀ {s s' : S} {id : TableId} {chains : List Chain} {spec : ChainSpec},
    table s id = some (ofChains chains) → (∀ c ∈ chains, c.name ≠ spec.name) →
    commit s (.addChain id spec) = some s' →
      table s' id = some (ofChains (chains ++ [⟨spec, []⟩])) ∧
        ∀ id', id' ≠ id → table s' id' = table s id'
  commit_addRule : ∀ {s s' : S} {id : TableId} {chains : List Chain} {chain : GoString}
    {rule : Rule}, table s id = some (ofChains chains) →
    commit s (.addRule id chain rule) = some s' →
      table s' id = some (ofChains (chains.map fun c =>
        if c.name = chain then { c with rules := c.rules ++ [rule] } else c)) ∧
        ∀ id', id' ≠ id → table s' id' = table s id'
  -- batches
  /-- A batch is carried out as a whole; the answer can still be lost. -/
  flush_done : ∀ {s : S} {msgs : List Msg}, carriesOut s msgs = true →
    ∃ s', msgs.foldlM commit s = some s' ∧
      ∀ id, table (handler (.flush msgs) s).2 id = table s' id
  /-- A batch that is not carried out changes nothing and is answered with an error. -/
  flush_refused : ∀ {s : S} {msgs : List Msg}, carriesOut s msgs = false →
    Fails (.flush msgs) (handler (.flush msgs) s).1 ∧
      ∀ id, table (handler (.flush msgs) s).2 id = table s id
  -- listings; each of them may fail
  table_of_readOnly : ∀ {op : NftOp} (s : S), ReadOnly op →
    ∀ id, table (handler op s).2 id = table s id
  listTables_ok : ∀ {s : S} {family : UInt8} {names : List GoString},
    (handler (.listTablesOfFamily family) s).1 = .ok names →
      names.Nodup ∧ ∀ name, name ∈ names ↔ (table s ⟨family, name⟩).isSome
  /-- The chains of a table are listed in some order, between those of other tables. -/
  listChains_ok : ∀ {s : S} (id : TableId) {listed : List (GoString × GoString)}
    {chains : List Chain}, (handler (.listChainsOfTableFamily id.family) s).1 = .ok listed →
    table s id = some (ofChains chains) →
      ((listed.filter (·.1 = id.name)).map (·.2)).Perm (chains.map (·.name))
  getRules_ok : ∀ {s : S} {id : TableId} {rules : List Rule} {chains : List Chain} {c : Chain},
    (handler (.getRules id c.name) s).1 = .ok rules → table s id = some (ofChains chains) →
    chains.find? (·.name = c.name) = some c → rules = c.rules
  -- packets
  /-- Every table can refuse a packet, whatever the order of their chains. -/
  accepts_iff : ∀ (s : S) (hook : Hook) (p : Packet),
    accepts s hook p = true ↔ ∀ id, passes s id hook p = true
  passes_absent : ∀ {s : S} {id : TableId} (hook : Hook) (p : Packet), table s id = none →
    passes s id hook p = true
  passes_iff : ∀ {s : S} {id : TableId} {chains : List Chain} (hook : Hook) (p : Packet),
    id.family = familyINet → table s id = some (ofChains chains) →
      (passes s id hook p = true ↔
        ∀ c ∈ chains, c.hook = hook → (toExprMachine.runChain p c).2 = .accept)
  /-- A packet that no other chain refuses gets to the chain, wherever that one comes. -/
  reaches_of_passes : ∀ {s : S} {id : TableId} {chains : List Chain} {c : Chain} {p : Packet},
    table s id = some (ofChains chains) → chains.find? (·.name = c.name) = some c →
    (∀ id', id' ≠ id → passes s id' c.hook p = true) →
    (∀ c' ∈ chains, c' ≠ c → c'.hook = c.hook → (toExprMachine.runChain p c').2 = .accept) →
      reaches s id c.name p = true
  deliver_absent : ∀ {s : S} {id : TableId} (hook : Hook) (p : Packet), table s id = none →
    table (deliver s hook p) id = none
  /-- The counters of the chains that the packet gets to go on. -/
  deliver_chains : ∀ {s : S} {id : TableId} {chains : List Chain} (hook : Hook) (p : Packet),
    id.family = familyINet → table s id = some (ofChains chains) →
      table (deliver s hook p) id = some (ofChains (chains.map fun c =>
        if c.hook = hook ∧ reaches s id c.name p = true then (toExprMachine.runChain p c).1
        else c))

end WeftAgent.Nft
