import WeftAgent.Go.Basic

/-!
# Container sets

The wire shape of the container set published to a VM and its validation (the vendored
`weft-microvm-init/pkg/pod/containers.go`).
-/

namespace WeftAgent.Pod

open WeftAgent.Go

structure ContainerMount where
  hostPath : GoString
  mountPath : GoString
  readonly : Bool := false
  deriving DecidableEq, Repr

/-- `WorkloadContainer`: one container the agent should keep running. -/
structure WorkloadContainer where
  name : GoString
  image : GoString
  command : List GoString := []
  args : List GoString := []
  env : GoMap GoString GoString := ∅
  mounts : List ContainerMount := []
  workingDir : GoString := []
  net : GoString := []
  restart : GoString := []
  annotations : GoMap GoString GoString := ∅
  deriving DecidableEq

/-- `ContainerSet`: the payload that is published whole. -/
structure ContainerSet where
  version : Int := 0
  containers : List WorkloadContainer

def containerSetVersion : Int := 1

/-- The check of the mounts of the container at index `i`. -/
def checkMounts (i : Nat) (mounts : List ContainerMount) : Option GoError :=
  mounts.zipIdx.findSome? fun (m, j) =>
    if m.hostPath = [] ∨ m.mountPath = [] then
      some (.errorf "containers[%d].mounts[%d]: host_path + mount_path required" [.int i, .int j])
    else none

/-- One round of the loop of `Validate`: the checks of the container at index `i`, after those whose
names were `seen`. -/
def checkContainer (i : Nat) (seen : List GoString) (c : WorkloadContainer) : Option GoError :=
  if c.name = [] then some (.errorf "containers[%d]: name required" [.int i])
  else if c.name ∈ seen then
    some (.errorf "containers[%d]: duplicate name %q" [.int i, .str c.name])
  else if c.image = [] then
    some (.errorf "containers[%d]: image required (got name=%q)" [.int i, .str c.name])
  else if c.net ∉ [[], lit "host", lit "none", lit "shared"] then
    some (.errorf "containers[%d]: invalid net %q (host|none|shared|empty)" [.int i, .str c.net])
  else if c.restart ∉ [[], lit "always", lit "on-failure", lit "never"] then
    some (.errorf "containers[%d]: invalid restart %q (always|on-failure|never|empty)"
      [.int i, .str c.restart])
  else checkMounts i c.mounts

/-- The loop of `Validate`. -/
def checkContainers : Nat → List GoString → List WorkloadContainer → Option GoError
  | _, _, [] => none
  | i, seen, c :: cs =>
    match checkContainer i seen c with
    | some e => some e
    | none => checkContainers (i + 1) (c.name :: seen) cs

/-- `ContainerSet.Validate`: a missing version counts as the current one. -/
def ContainerSet.validate (s : ContainerSet) : Option GoError :=
  let version := if s.version = 0 then containerSetVersion else s.version
  if version > containerSetVersion then
    some (.errorf "unsupported ContainerSet version %d (agent supports %d)"
      [.int version, .int containerSetVersion])
  else checkContainers 0 [] s.containers

/-! ## What a valid set is known to satisfy -/

theorem checkContainer_eq_none {i : Nat} {seen : List GoString} {c : WorkloadContainer}
    (h : checkContainer i seen c = none) : c.name ≠ [] ∧ c.name ∉ seen ∧ c.image ≠ [] := by
  unfold checkContainer at h
  split_ifs at h with hname hseen himage
  all_goals exact ⟨hname, hseen, himage⟩

theorem of_checkContainers {i : Nat} {seen : List GoString} {cs : List WorkloadContainer}
    (h : checkContainers i seen cs = none) :
    (∀ c ∈ cs, c.name ≠ [] ∧ c.name ∉ seen ∧ c.image ≠ []) ∧
      (cs.map WorkloadContainer.name).Nodup := by
  induction cs generalizing i seen with
  | nil => simp
  | cons c cs ih =>
    rw [checkContainers] at h
    cases hc : checkContainer i seen c with
    | some e => simp [hc] at h
    | none =>
      rw [hc] at h
      obtain ⟨hrest, hnodup⟩ := ih h
      refine ⟨?_, ?_⟩
      · intro d hd
        rcases List.mem_cons.mp hd with rfl | hd
        · exact checkContainer_eq_none hc
        · obtain ⟨hname, hseen, himage⟩ := hrest d hd
          exact ⟨hname, fun hmem => hseen (List.mem_cons_of_mem _ hmem), himage⟩
      · rw [List.map_cons, List.nodup_cons]
        refine ⟨fun hmem => ?_, hnodup⟩
        obtain ⟨d, hd, hname⟩ := List.mem_map.mp hmem
        exact (hrest d hd).2.1 (hname ▸ List.mem_cons_self)

theorem ContainerSet.checkContainers_of_validate {s : ContainerSet} (h : s.validate = none) :
    checkContainers 0 [] s.containers = none := by
  simp only [validate] at h
  split_ifs at h
  all_goals exact h

/-- The names of a valid set are not empty and pairwise different. -/
theorem ContainerSet.names_of_validate {s : ContainerSet} (h : s.validate = none) :
    (∀ c ∈ s.containers, c.name ≠ []) ∧ (s.containers.map WorkloadContainer.name).Nodup := by
  obtain ⟨hchecked, hnodup⟩ := of_checkContainers (checkContainers_of_validate h)
  exact ⟨fun c hc => (hchecked c hc).1, hnodup⟩

theorem ContainerSet.images_of_validate {s : ContainerSet} (h : s.validate = none) :
    ∀ c ∈ s.containers, c.image ≠ [] := fun c hc =>
  ((of_checkContainers (checkContainers_of_validate h)).1 c hc).2.2

end WeftAgent.Pod
