import Mathlib.Data.List.Dedup
import Mathlib.Logic.Function.Basic
import WeftAgent.Nft.Kernel

/-!
# A kernel that meets the laws

Tables of base chains only; no call fails. A packet gets to a chain if all chains of a lower
priority at the same hook accept it.
-/

namespace WeftAgent.Nft.Reference

open WeftAgent.Go WeftAgent.Effect

/-! ## Expressions -/

abbrev Regs := Nat → List UInt8

def Regs.load (regs : Regs) (register len : Nat) : List UInt8 := (regs register).take len

def Regs.store (regs : Regs) (register : Nat) (bs : List UInt8) : Regs :=
  Function.update regs register bs

def eval (p : Packet) (regs : Regs) (e : Expr) : Regs × Flow :=
  match e.loads p with
  | some (register, some bs) => (regs.store register bs, .next)
  | some (_, none) => (regs, .leave)
  | none =>
    match e with
    | .bitwise source dest len mask xor =>
      let masked := maskBytes (regs.load source len) mask
      (regs.store dest (List.zipWith (· ^^^ ·) masked xor), .next)
    | .cmp op register data => (regs, op.flow (regs.load register data.length = data))
    | .range op register fromData toData =>
      let value := beNat (regs.load register fromData.length)
      (regs, op.flow (beNat fromData ≤ value ∧ value ≤ beNat toData))
    | .verdict v => (regs, .done v)
    | _ => (regs, .next)

theorem load_store (regs : Regs) (register : Nat) {bs : List UInt8} {len : Nat}
    (h : bs.length ≤ len) : (regs.store register bs).load register len = bs := by
  rw [Regs.load, Regs.store, Function.update_self, List.take_of_length_le h]

def machine : ExprMachine where
  Regs := Regs
  initial := fun _ => []
  load := Regs.load
  eval := eval
  eval_load := by
    intro p e register bs regs hloads _
    exact ⟨regs.store register bs, by simp only [eval, hloads], load_store regs register le_rfl⟩
  eval_missing := by
    intro p e register regs hloads
    exact ⟨regs, by simp only [eval, hloads]⟩
  eval_bitwise := by
    intro p regs source dest mask xor _ hxor
    refine ⟨_, rfl, load_store regs dest ?_⟩
    rw [List.length_zipWith, hxor]
    exact min_le_right _ _
  eval_cmp := by
    intro p regs op register data _
    rfl
  eval_range := by
    intro p regs op register fromData toData _ _
    rfl
  eval_counter := by
    intro p regs packets bytes
    rfl
  eval_verdict := by
    intro p regs v
    rfl

/-! ## Tables -/

/-- The tables that there are, with their chains. -/
structure Tables where
  ids : List TableId
  nodup : ids.Nodup
  chains : TableId → Option (List Chain)
  mem_ids : ∀ id, id ∈ ids ↔ (chains id).isSome

namespace Tables

def empty : Tables := ⟨[], List.nodup_nil, fun _ => none, by simp⟩

def insert (ts : Tables) (id : TableId) (chains : List Chain) : Tables where
  ids := ts.ids.insert id
  nodup := ts.nodup.insert
  chains := Function.update ts.chains id (some chains)
  mem_ids := by
    intro id'
    rw [List.mem_insert_iff, ts.mem_ids]
    by_cases hid : id' = id
    · simp [hid]
    · simp [hid]

def erase (ts : Tables) (id : TableId) : Tables where
  ids := ts.ids.erase id
  nodup := ts.nodup.erase id
  chains := Function.update ts.chains id none
  mem_ids := by
    intro id'
    rw [ts.nodup.mem_erase_iff, ts.mem_ids]
    by_cases hid : id' = id
    · simp [hid]
    · simp [hid]

/-- What a message does, if it can be carried out. A chain that exists is not added again. -/
def commit (ts : Tables) : Msg → Option Tables
  | .delTable id => if id ∈ ts.ids then some (ts.erase id) else none
  | .addTable id => if id ∈ ts.ids then some ts else some (ts.insert id [])
  | .addChain id spec => (ts.chains id).bind fun chains =>
    if ∃ c ∈ chains, c.name = spec.name then none
    else some (ts.insert id (chains ++ [⟨spec, []⟩]))
  | .addRule id chain rule => (ts.chains id).bind fun chains =>
    if ∃ c ∈ chains, c.name = chain then
      some (ts.insert id (chains.map fun c =>
        if c.name = chain then { c with rules := c.rules ++ [rule] } else c))
    else none

def handler : Handler nftSig Tables
  | .new, ts => ((none : Option GoError), ts)
  | .listTablesOfFamily family, ts =>
    ((.ok ((ts.ids.filter (·.family = family)).map (·.name)) : Except GoError (List GoString)), ts)
  | .listChainsOfTableFamily family, ts =>
    ((.ok ((ts.ids.filter (·.family = family)).flatMap fun id =>
      (((ts.chains id).getD []).map (·.name)).map (id.name, ·)) :
        Except GoError (List (GoString × GoString))), ts)
  | .getRules id chain, ts =>
    let found := ((ts.chains id).getD []).find? (·.name = chain)
    ((match found with
      | some c => .ok c.rules
      | none => .error (.errno .ENOENT) : Except GoError (List Rule)), ts)
  | .flush msgs, ts =>
    match msgs.foldlM commit ts with
    | some ts' => ((none : Option GoError), ts')
    | none => (some (GoError.errno .ENOENT), ts)

/-! ## Packets -/

/-- A packet is seen by the tables of its own family and by those of the `inet` family. -/
def sees (id : TableId) (p : Packet) : Bool :=
  id.family = familyINet ∨ id.family = p.version.nfproto

/-- The chains of the table that satisfy the condition accept the packet. -/
def accepted (ts : Tables) (id : TableId) (p : Packet) (which : Chain → Bool) : Bool :=
  ¬ sees id p ∨ ∀ c ∈ (ts.chains id).getD [], which c = true → (machine.runChain p c).2 = .accept

def passes (ts : Tables) (id : TableId) (hook : Hook) (p : Packet) : Bool :=
  ts.accepted id p (·.hook = hook)

def reaches (ts : Tables) (id : TableId) (chain : GoString) (p : Packet) : Bool :=
  match ((ts.chains id).getD []).find? (·.name = chain) with
  | none => false
  | some c => ∀ id' ∈ ts.ids,
    ts.accepted id' p fun c' => c'.hook = c.hook ∧ c'.priority < c.priority

def deliver (ts : Tables) (hook : Hook) (p : Packet) : Tables where
  ids := ts.ids
  nodup := ts.nodup
  chains := fun id => (ts.chains id).map fun chains => chains.map fun c =>
    if c.hook = hook ∧ ts.reaches id c.name p = true then (machine.runChain p c).1 else c
  mem_ids := by
    intro id
    rw [ts.mem_ids, Option.isSome_map]

theorem chains_eq_none {ts : Tables} {id : TableId} : id ∉ ts.ids ↔ ts.chains id = none := by
  rw [ts.mem_ids, Bool.not_eq_true, Option.isSome_eq_false_iff, Option.isNone_iff_eq_none]

theorem chains_insert (ts : Tables) (id : TableId) (chains : List Chain) :
    (ts.insert id chains).chains id = some chains ∧
      ∀ id', id' ≠ id → (ts.insert id chains).chains id' = ts.chains id' :=
  ⟨Function.update_self .., fun _ hid => Function.update_of_ne hid ..⟩

theorem accepted_eq_true {ts : Tables} {id : TableId} {p : Packet} {which : Chain → Bool} :
    ts.accepted id p which = true ↔ sees id p = true →
      ∀ c ∈ (ts.chains id).getD [], which c = true → (machine.runChain p c).2 = .accept := by
  rw [accepted, decide_eq_true_iff]
  exact imp_iff_not_or.symm

/-- A table is listed once. -/
theorem filter_ids (ts : Tables) {id : TableId} (h : id ∈ ts.ids) :
    (ts.ids.filter (·.family = id.family)).filter (·.name = id.name) = [id] := by
  have heq : ∀ id' ∈ ts.ids, (decide (id'.name = id.name) && decide (id'.family = id.family)) =
      decide (id' = id) := by
    intro id' _
    obtain ⟨family, name⟩ := id
    obtain ⟨family', name'⟩ := id'
    rw [← Bool.decide_and, decide_eq_decide, TableId.mk.injEq]
    exact and_comm
  rw [List.filter_filter, List.filter_congr heq, List.filter_eq,
    List.count_eq_one_of_mem ts.nodup h]
  rfl

/-- What is listed of the tables of one name. -/
theorem filter_listed (names : TableId → List GoString) (name : GoString) (ids : List TableId) :
    ((ids.flatMap fun id => (names id).map (id.name, ·)).filter (·.1 = name)).map (·.2) =
      (ids.filter (·.name = name)).flatMap names := by
  induction ids with
  | nil => rfl
  | cons id ids ih =>
    rw [List.flatMap_cons, List.filter_append, List.map_append, ih]
    by_cases hname : id.name = name
    · have hall : ((names id).map (id.name, ·)).filter (·.1 = name) = (names id).map (id.name, ·) :=
        List.filter_eq_self.mpr (by simp [hname])
      rw [hall, List.filter_cons_of_pos (by simpa using hname), List.flatMap_cons, List.map_map]
      congr 1
      exact List.map_id (names id)
    · have hnone : ((names id).map (id.name, ·)).filter (·.1 = name) = [] :=
        List.filter_eq_nil_iff.mpr (by simp [hname])
      rw [hnone, List.filter_cons_of_neg (by simpa using hname)]
      rfl

/-! ## The kernel -/

def kernel : Kernel Tables where
  toExprMachine := machine
  Content := List Chain
  ofChains := id
  table := Tables.chains
  handler := handler
  commit := commit
  carriesOut := fun ts msgs => (msgs.foldlM commit ts).isSome
  accepts := fun ts hook p => ∀ id ∈ ts.ids, ts.passes id hook p = true
  passes := passes
  reaches := reaches
  deliver := deliver
  commit_delTable := by
    intro ts ts' id h
    simp only [commit] at h
    split_ifs at h
    obtain rfl := Option.some.inj h
    exact ⟨Function.update_self .., fun id' hid => Function.update_of_ne hid ..⟩
  commit_addTable := by
    intro ts ts' id hnone h
    simp only [commit, if_neg (chains_eq_none.mpr hnone)] at h
    obtain rfl := Option.some.inj h
    exact ts.chains_insert id []
  commit_addChain := by
    intro ts ts' id chains spec hchains hnew h
    have hno : ¬ ∃ c ∈ chains, c.name = spec.name := by
      rintro ⟨c, hc, hname⟩
      exact hnew c hc hname
    simp only [commit, hchains, id_eq, Option.bind_some, if_neg hno] at h
    obtain rfl := Option.some.inj h
    exact ts.chains_insert id _
  commit_addRule := by
    intro ts ts' id chains chain rule hchains h
    simp only [commit, hchains, id_eq, Option.bind_some] at h
    split_ifs at h
    obtain rfl := Option.some.inj h
    exact ts.chains_insert id _
  flush_done := by
    intro ts msgs h
    obtain ⟨ts', hts'⟩ := Option.isSome_iff_exists.mp h
    exact ⟨ts', hts', fun id => by simp only [handler, hts']⟩
  flush_refused := by
    intro ts msgs h
    have hnone := Option.isNone_iff_eq_none.mp (Option.isSome_eq_false_iff.mp h)
    refine ⟨⟨.errno .ENOENT, ?_⟩, fun id => by simp only [handler, hnone]⟩
    simp only [handler, hnone]
    rfl
  table_of_readOnly := by
    intro op ts hread id
    cases op with
    | flush msgs => exact absurd rfl (hread msgs)
    | _ => rfl
  listTables_ok := by
    intro ts family names h
    obtain rfl := Except.ok.inj h
    constructor
    · refine List.Nodup.map_on ?_ (ts.nodup.filter _)
      rintro ⟨family₁, name₁⟩ h₁ ⟨family₂, name₂⟩ h₂ rfl
      have hf₁ : family₁ = family := of_decide_eq_true (List.mem_filter.mp h₁).2
      have hf₂ : family₂ = family := of_decide_eq_true (List.mem_filter.mp h₂).2
      rw [hf₁, hf₂]
    · intro name
      rw [← ts.mem_ids, List.mem_map]
      constructor
      · rintro ⟨id, hid, rfl⟩
        obtain ⟨hmem, hfamily⟩ := List.mem_filter.mp hid
        rwa [← of_decide_eq_true hfamily]
      · intro hmem
        exact ⟨⟨family, name⟩, List.mem_filter.mpr ⟨hmem, by simp⟩, rfl⟩
  listChains_ok := by
    intro ts id listed chains h hchains
    obtain rfl := Except.ok.inj h
    have hmem : id ∈ ts.ids := (ts.mem_ids id).mpr (by simp [hchains])
    rw [filter_listed, ts.filter_ids hmem]
    simp [hchains]
  getRules_ok := by
    intro ts id rules chains c h hchains hfind
    have hfound : ((ts.chains id).getD []).find? (·.name = c.name) = some c := by
      rw [hchains]
      exact hfind
    simp only [handler, hfound] at h
    exact (Except.ok.inj h).symm
  accepts_iff := by
    intro ts hook p
    rw [decide_eq_true_iff]
    constructor
    · intro h id
      by_cases hmem : id ∈ ts.ids
      · exact h id hmem
      · simp [passes, accepted, chains_eq_none.mp hmem]
    · exact fun h id _ => h id
  passes_absent := by
    intro ts id hook p hnone
    simp [passes, accepted, hnone]
  passes_iff := by
    intro ts id chains hook p hfamily hchains
    have hsees : sees id p = true := by simp [sees, hfamily]
    rw [passes, accepted_eq_true, imp_iff_right hsees, hchains]
    simp
  reaches_of_passes := by
    intro ts id chains c p hchains hfind hothers hown
    have hfound : ((ts.chains id).getD []).find? (·.name = c.name) = some c := by
      rw [hchains]
      exact hfind
    rw [reaches, hfound]
    refine decide_eq_true fun id' hid' => accepted_eq_true.mpr fun hsees c' hc' hlow => ?_
    obtain ⟨hhook, hpriority⟩ := of_decide_eq_true hlow
    by_cases hid : id' = id
    · subst hid
      rw [hchains] at hc'
      refine hown c' hc' ?_ hhook
      rintro rfl
      exact lt_irrefl _ hpriority
    · exact accepted_eq_true.mp (hothers id' hid) hsees c' hc' (decide_eq_true hhook)
  deliver_absent := by
    intro ts id hook p hnone
    simp [deliver, hnone]
  deliver_chains := by
    intro ts id chains hook p hfamily hchains
    simp [deliver, hchains]

end Tables

end WeftAgent.Nft.Reference
