import WeftAgent.Nft.Kernel

/-!
# Runs against the kernel

A program that reads before it writes is followed call by call: as long as it only reads, the tables
stay as they are, and each call either fails or is answered as the laws say. `Leads` says how the
program ends, with or without a call that failed.
-/

namespace WeftAgent.Nft

open WeftAgent.Effect

variable {S α : Type}

/-- From every state with the tables of `s`, the program ends well, or badly after a call that
failed. -/
def Leads (K : Kernel S) (s : S) (well badly : α → S → Prop) (prog : Prog nftSig α) : Prop :=
  ∀ s', (∀ id, K.table s' id = K.table s id) →
    well (run K.handler prog s').1 (run K.handler prog s').2 ∨
      badly (run K.handler prog s').1 (run K.handler prog s').2 ∧
        ∃ c ∈ log K.handler prog s', Fails c.1 c.2

variable {K : Kernel S} {s : S} {well badly : α → S → Prop}

theorem Leads.ret {a : α} (h : ∀ s', (∀ id, K.table s' id = K.table s id) → well a s') :
    Leads K s well badly (.ret a) := fun s' hs' => .inl (h s' hs')

variable {op : NftOp} {k : op.Ans → Prog nftSig α}

/-- The last call before the program returns. -/
theorem Leads.last (h : ∀ s', (∀ id, K.table s' id = K.table s id) →
    ∃ a, k (K.handler op s').1 = .ret a ∧ (well a (K.handler op s').2 ∨
      badly a (K.handler op s').2 ∧ Fails op (K.handler op s').1)) :
    Leads K s well badly (.call op k) := by
  intro s' hs'
  obtain ⟨a, hret, hend⟩ := h s' hs'
  have hrun : run K.handler (.call op k) s' = (a, (K.handler op s').2) := by
    show run K.handler (k (K.handler op s').1) (K.handler op s').2 = _
    rw [hret]
    rfl
  rw [hrun]
  rcases hend with hwell | ⟨hbadly, hfails⟩
  · exact .inl hwell
  · exact .inr ⟨hbadly, _, List.mem_cons_self, hfails⟩

/-- A call that reads; if it fails, that is the end. -/
theorem Leads.reading (hread : ReadOnly op)
    (hfails : ∀ x, Fails op x → ∃ a, k x = .ret a ∧
      ∀ s', (∀ id, K.table s' id = K.table s id) → badly a s')
    (hnext : ∀ s', (∀ id, K.table s' id = K.table s id) → ¬ Fails op (K.handler op s').1 →
      Leads K s well badly (k (K.handler op s').1)) : Leads K s well badly (.call op k) := by
  intro s' hs'
  have hsame : ∀ id, K.table (K.handler op s').2 id = K.table s id := fun id =>
    (K.table_of_readOnly s' hread id).trans (hs' id)
  by_cases hfail : Fails op (K.handler op s').1
  · obtain ⟨a, hret, hbadly⟩ := hfails _ hfail
    have hrun : run K.handler (.call op k) s' = (a, (K.handler op s').2) := by
      show run K.handler (k (K.handler op s').1) (K.handler op s').2 = _
      rw [hret]
      rfl
    rw [hrun]
    exact .inr ⟨hbadly _ hsame, _, List.mem_cons_self, hfail⟩
  · rcases hnext s' hs' hfail _ hsame with hwell | ⟨hbadly, c, hc, hcall⟩
    · exact .inl hwell
    · exact .inr ⟨hbadly, c, List.mem_cons_of_mem _ hc, hcall⟩

end WeftAgent.Nft
