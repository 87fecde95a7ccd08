import WeftAgent.Go.Basic

/-!
# Environments of processes

A list of entries `name=value`. A process finds a variable by the text before the first `=` of an
entry; of several entries for one name the last one counts.
-/

namespace WeftAgent.Go

def equals : UInt8 := 61

/-- The entry `k + "=" + v`. -/
def envEntry (k v : GoString) : GoString := k ++ lit "=" ++ v

/-- The name and the value of an entry. -/
def splitEntry (e : GoString) : Option (Sigma fun _ : GoString => GoString) :=
  if equals ∈ e then some ⟨e.takeWhile (· ≠ equals), (e.dropWhile (· ≠ equals)).drop 1⟩ else none

/-- The value of a variable, if it is set. -/
def getenv (environ : List GoString) (name : GoString) : Option GoString :=
  (environ.filterMap splitEntry).reverse.dlookup name

/-- The environment that a builder makes of a map lays the map over the defaults, which are the
environment of the empty map: it is the same whatever order the map is visited in, every key has
its value, and a default that is no key keeps its own. -/
structure Overlays (build : GoMap GoString GoString → List GoString)
    (m : GoMap GoString GoString) : Prop where
  stable : ∀ m₁ m₂, m₁.entries.Perm m.entries → m₂.entries.Perm m.entries →
    ∀ name, getenv (build m₁) name = getenv (build m₂) name
  overrides : ∀ m₁, m₁.entries.Perm m.entries → ∀ k v, m.lookup k = some v →
    getenv (build m₁) k = some v
  defaults : ∀ m₁, m₁.entries.Perm m.entries → ∀ name v, getenv (build ∅) name = some v →
    name ∉ m → getenv (build m₁) name = some v

end WeftAgent.Go
