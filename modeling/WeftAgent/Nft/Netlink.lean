import WeftAgent.Effect.Prog
import WeftAgent.Nft.Ruleset

/-!
# The netlink interface of nftables

Changes are sent in batches of messages; tables, chains and rules are listed by calls of their own.
-/

namespace WeftAgent.Nft

open WeftAgent.Go WeftAgent.Effect

/-- The messages of a batch. -/
inductive Msg where
  | delTable (table : TableId)
  | addTable (table : TableId)
  | addChain (table : TableId) (chain : ChainSpec)
  | addRule (table : TableId) (chain : GoString) (rule : Rule)
  deriving DecidableEq, Repr

inductive NftOp where
  | new
  | listTablesOfFamily (family : UInt8)
  | listChainsOfTableFamily (family : UInt8)
  | getRules (table : TableId) (chain : GoString)
  | flush (msgs : List Msg)

/-- Tables are listed by their names, chains by the names of their tables and their own. -/
def NftOp.Ans : NftOp → Type
  | .new => Option GoError
  | .listTablesOfFamily _ => Except GoError (List GoString)
  | .listChainsOfTableFamily _ => Except GoError (List (GoString × GoString))
  | .getRules _ _ => Except GoError (List Rule)
  | .flush _ => Option GoError

def nftSig : Sig := ⟨NftOp, NftOp.Ans⟩

/-- The call changes nothing. -/
def ReadOnly (op : NftOp) : Prop := ∀ msgs, op ≠ .flush msgs

theorem readOnly_new : ReadOnly .new := fun _ h => NftOp.noConfusion h

theorem readOnly_listTables (family : UInt8) : ReadOnly (.listTablesOfFamily family) :=
  fun _ h => NftOp.noConfusion h

theorem readOnly_listChains (family : UInt8) : ReadOnly (.listChainsOfTableFamily family) :=
  fun _ h => NftOp.noConfusion h

theorem readOnly_getRules (table : TableId) (chain : GoString) : ReadOnly (.getRules table chain) :=
  fun _ h => NftOp.noConfusion h

/-- The call is answered with an error. -/
def Fails : (op : NftOp) → op.Ans → Prop
  | .new, x => ∃ e : GoError, x = some e
  | .listTablesOfFamily _, x => ∃ e : GoError, x = .error e
  | .listChainsOfTableFamily _, x => ∃ e : GoError, x = .error e
  | .getRules _ _, x => ∃ e : GoError, x = .error e
  | .flush _, x => ∃ e : GoError, x = some e

end WeftAgent.Nft
