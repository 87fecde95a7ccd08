import WeftAgent.Containers.Crun
import WeftAgent.ExecSession.Pump
import WeftAgent.Go.Proofs.EnvironProofs

/-!
# The environments of sessions and containers

`mergeEnv` and `env` put the entries of a map behind their defaults, as the map is visited. Which
variables the process finds does not depend on that order, unless a key has an `=`: the entry is
then read as a variable with a shorter name.
-/

namespace WeftAgent.ExecSession

open WeftAgent.Go WeftAgent.Pod

/-- The environment of a session, and likewise that of a container, lays the map over the defaults
exactly if no key of the map has an `=`. -/
theorem environments_overlay_iff (extra : GoMap GoString GoString) (c : WorkloadContainer) :
    (Overlays mergeEnv extra ↔ ∀ k ∈ extra, equals ∉ k) ∧
      (Overlays (fun m => Containers.env { c with env := m }) c.env ↔ ∀ k ∈ c.env, equals ∉ k) :=
  ⟨overlays_iff, overlays_iff⟩

/-- Another language, for a session and for a container. -/
def langOnly : GoMap GoString GoString := AList.singleton (lit "LANG") (lit "de_DE.UTF-8")

def langWeb : WorkloadContainer := { name := lit "web", image := lit "nginx", env := langOnly }

theorem langOnly_overlays :
    getenv (mergeEnv langOnly) (lit "LANG") = some (lit "de_DE.UTF-8") ∧
      getenv (mergeEnv langOnly) (lit "HOME") = some (lit "/root") ∧
      getenv (Containers.env langWeb) (lit "LANG") = some (lit "de_DE.UTF-8") := by
  obtain ⟨hsession, hcontainer⟩ := environments_overlay_iff langOnly langWeb
  have h := hsession.mpr (by decide)
  have h' := hcontainer.mpr (by decide)
  exact ⟨h.overrides langOnly (.refl _) _ _ (by decide),
    h.defaults langOnly (.refl _) _ _ (by decide) (by decide),
    h'.overrides langOnly (.refl _) _ _ (by decide)⟩

/-- A search path, and a key that is read as one too. -/
def twoPaths : GoMap GoString GoString :=
  (AList.singleton (lit "PATH") (lit "/bin")).insert (lit "PATH=/tmp") (lit "")

/-- The same, visited the other way round. -/
def twoPathsReordered : GoMap GoString GoString :=
  (AList.singleton (lit "PATH=/tmp") (lit "")).insert (lit "PATH") (lit "/bin")

/-- The order in which the map is visited decides which search path the process has, for a session
and for a container. -/
theorem order_decides_path :
    twoPathsReordered.entries.Perm twoPaths.entries ∧
      getenv (mergeEnv twoPaths) (lit "PATH") = some (lit "/bin") ∧
      getenv (mergeEnv twoPathsReordered) (lit "PATH") = some (lit "/tmp=") ∧
      getenv (Containers.env { name := lit "web", image := lit "nginx", env := twoPaths })
        (lit "PATH") = some (lit "/bin") ∧
      getenv (Containers.env { name := lit "web", image := lit "nginx", env := twoPathsReordered })
        (lit "PATH") = some (lit "/tmp=") := by
  decide

end WeftAgent.ExecSession
