import WeftAgent.Containers.Crun
import WeftAgent.Containers.Proofs.ReconcilerProofs
import WeftAgent.Fs.Proofs.CallsProofs

/-!
# The bundles of the crun runtime

Which paths starting and stopping a container touches, and for which container names each container
keeps to a bundle directory of its own.
-/

namespace WeftAgent.Containers

open WeftAgent.Go WeftAgent.Go.Filepath WeftAgent.Effect WeftAgent.Fs WeftAgent.Pod

variable {r : CrunRuntime}

/-- The call touches the file system at or below the bundle of the name only. -/
def InsideBundle (r : CrunRuntime) (name : GoString) : crunSig.Op → Prop
  | .inl op => ∀ q, Touches (resolve r.bundleRoot) op q → resolve (r.bundle name) <+: q
  | .inr _ => True

/-- The bundles of the containers of a set: whatever the system answers, starting and stopping a
container touches its own bundle only; the bundles are strictly below the bundle root, and none
contains another. -/
def BundlesSeparate (marshalIndent : Json → Except GoError GoString) (r : CrunRuntime)
    (s : ContainerSet) : Prop :=
  (∀ a ∈ s.containers,
    Issues (fun _ _ => True) (InsideBundle r a.name) (fun _ => True) (r.start marshalIndent a) ∧
    Issues (fun _ _ => True) (InsideBundle r a.name) (fun _ => True) (r.stop a.name) ∧
    StrictlyBelow r.bundleRoot (r.bundle a.name)) ∧
  ∀ a ∈ s.containers, ∀ b ∈ s.containers, a.name ≠ b.name →
    ¬ resolve (r.bundle a.name) <+: resolve (r.bundle b.name)

/-- The name leads from the root to its entry `n`: it cleans to `n`, possibly behind some `..`
elements and the elements of the root that lead down again. -/
def DirectChild (root name n : GoString) : Prop :=
  IsName n ∧ ∃ u, reduced name =
    List.replicate u dotdot ++ ((elements root).drop ((elements root).length - u) ++ [n])

/-! ## The calls of the runtime -/

/-- A name whose bundle is an entry of the bundle root. -/
theorem resolve_bundle_iff (hroot : isAbs r.bundleRoot = true) {name n : GoString} :
    resolve (r.bundle name) = resolve r.bundleRoot ++ [n] ↔ DirectChild r.bundleRoot name n := by
  have hnames := names_elements hroot
  rw [CrunRuntime.bundle, join_abs hroot, resolve_absPath (names_within hnames name),
    resolve_eq_elements hroot, within_eq_concat_iff hnames, DirectChild]

theorem issues_stop (name : GoString) :
    Issues (fun _ _ => True) (InsideBundle r name) (fun _ => True) (r.stop name) := by
  refine ⟨trivial, fun _ _ => ⟨trivial, fun _ _ => ⟨fun q hq => hq, fun _ _ => trivial⟩⟩⟩

theorem issues_start (marshalIndent : Json → Except GoError GoString)
    (hroot : isAbs r.bundleRoot = true) (c : WorkloadContainer) {n : GoString}
    (hn : DirectChild r.bundleRoot c.name n) :
    Issues (fun _ _ => True) (InsideBundle r c.name) (fun _ => True)
      (r.start marshalIndent c) := by
  have hbundle := (resolve_bundle_iff hroot).mpr hn
  have hconfig : resolve (r.bundle c.name) <+:
      resolve (join [r.bundle c.name, lit "config.json"]) := by
    rw [resolve_join_name _ (by decide)]
    exact List.prefix_append _ _
  refine ⟨?_, fun e _ => ?_⟩
  · -- `MkdirAll` of the bundle's `rootfs`: above the bundle there is only what the root needs
    rintro q ⟨hq, hup⟩
    rw [resolve_join_name _ (by decide), List.prefix_concat_iff, hbundle,
      List.prefix_concat_iff] at hq
    rcases hq with rfl | rfl | hq
    · rw [hbundle]
      exact List.prefix_append _ _
    · rw [hbundle]
    · exact absurd hq hup
  · cases e with
    | some e => trivial
    | none =>
      refine ⟨fun q hq => hq.elim, fun info _ => ?_⟩
      simp only [Prog.left, Prog.bind]
      cases marshalIndent (ociSpec c (r.rootfsSource c.image info)) with
      | error e => trivial
      | ok configBytes =>
        refine ⟨?_, fun e _ => ?_⟩
        · rintro q rfl
          exact hconfig
        · cases e with
          | some e => trivial
          | none =>
            refine ⟨?_, fun e _ => ?_⟩
            · rintro q rfl
              exact hconfig
            · cases e with
              | some e => trivial
              | none => exact ⟨trivial, fun e _ => by cases e <;> trivial⟩

/-! ## Separate bundles -/

/-- A container whose start touches its bundle only, strictly below the root, has a name that leads
to an entry of the root: the directories in between would be made too. -/
theorem directChild_of_issues {marshalIndent : Json → Except GoError GoString}
    (hroot : isAbs r.bundleRoot = true) {c : WorkloadContainer}
    (hstart : Issues (fun _ _ => True) (InsideBundle r c.name) (fun _ => True)
      (r.start marshalIndent c))
    (hbelow : StrictlyBelow r.bundleRoot (r.bundle c.name)) :
    ∃ n, DirectChild r.bundleRoot c.name n := by
  obtain ⟨⟨e, he⟩, hne⟩ := hbelow
  cases e with
  | nil => exact absurd (by simpa using he) hne
  | cons n e =>
    -- the entry of the root on the way to the bundle
    have hentry : resolve (r.bundle c.name) <+: resolve r.bundleRoot ++ [n] := by
      refine hstart.1 _ ⟨?_, fun h => by simpa using h.length_le⟩
      rw [resolve_join_name _ (by decide), ← he]
      exact ⟨e ++ [lit "rootfs"], by simp⟩
    rw [← he] at hentry
    obtain rfl : e = [] := by simpa using hentry.length_le
    exact ⟨n, (resolve_bundle_iff hroot).mp he.symm⟩

theorem DirectChild.getLast? {root name n : GoString} (h : DirectChild root name n) :
    (reduced name).getLast? = some n := by
  obtain ⟨-, u, hu⟩ := h
  rw [hu]
  simp

/-- The bundles of a set are separate exactly if every name leads to an entry of the bundle root,
and different names to different entries. -/
theorem bundles_separate_iff (marshalIndent : Json → Except GoError GoString)
    (hroot : isAbs r.bundleRoot = true) (s : ContainerSet) :
    BundlesSeparate marshalIndent r s ↔
      (∀ c ∈ s.containers, ∃ n, DirectChild r.bundleRoot c.name n) ∧
        ∀ a ∈ s.containers, ∀ b ∈ s.containers, a.name ≠ b.name →
          (reduced a.name).getLast? ≠ (reduced b.name).getLast? := by
  constructor
  · rintro ⟨hinside, hdisjoint⟩
    have hchild : ∀ c ∈ s.containers, ∃ n, DirectChild r.bundleRoot c.name n := fun c hc =>
      directChild_of_issues hroot (hinside c hc).1 (hinside c hc).2.2
    refine ⟨hchild, fun a ha b hb hab heq => hdisjoint a ha b hb hab ?_⟩
    obtain ⟨n, hn⟩ := hchild a ha
    obtain ⟨m, hm⟩ := hchild b hb
    obtain rfl : n = m := by simpa [hn.getLast?, hm.getLast?] using heq
    rw [(resolve_bundle_iff hroot).mpr hn, (resolve_bundle_iff hroot).mpr hm]
  · rintro ⟨hchild, hdistinct⟩
    refine ⟨fun a ha => ?_, fun a ha b hb hab hpre => hdistinct a ha b hb hab ?_⟩
    · obtain ⟨n, hn⟩ := hchild a ha
      refine ⟨issues_start marshalIndent hroot a hn, issues_stop a.name, ?_⟩
      rw [StrictlyBelow, (resolve_bundle_iff hroot).mpr hn]
      exact ⟨List.prefix_append _ _, by simp⟩
    · obtain ⟨n, hn⟩ := hchild a ha
      obtain ⟨m, hm⟩ := hchild b hb
      rw [(resolve_bundle_iff hroot).mpr hn, (resolve_bundle_iff hroot).mpr hm] at hpre
      obtain rfl : n = m := by simpa using hpre.eq_of_length (by simp)
      rw [hn.getLast?, hm.getLast?]

def webAndDb : ContainerSet :=
  { containers :=
      [{ name := lit "web", image := lit "img" }, { name := lit "db", image := lit "img" }] }

theorem web_and_db_separate :
    webAndDb.validate = none ∧ BundlesSeparate (fun _ => .ok []) weftRuntime webAndDb := by
  refine ⟨by decide, (bundles_separate_iff _ (by decide) webAndDb).mpr ⟨fun c hc => ?_, by decide⟩⟩
  refine ⟨c.name, ?_, 0, ?_⟩ <;> revert c <;> decide

def dotdotContainer : ContainerSet :=
  { containers := [{ name := dotdot, image := lit "img" }] }

/-- A file system in which the container `web` has a bundle. -/
def treeWithWeb : Tree :=
  Tree.empty.mkdirs (resolve (lit "/run/weft/containers/web")) (names_resolve _)

/-- The name `..` is accepted, and stopping its container removes the directory above the bundle
root, with everything in it. -/
theorem stop_dotdot_removes_parent :
    dotdotContainer.validate = none ∧
      treeWithWeb.get (resolve (lit "/run/weft")) = some .dir ∧
      (run (handle.sum fun _ s => (none, s)) (weftRuntime.stop dotdot) (treeWithWeb, ())).2.1.get
        (resolve (lit "/run/weft")) = none := by
  decide

/-! ## The reconciler over crun -/

/-- The path is at or below the bundle of one of the names. -/
def InBundles (r : CrunRuntime) (names : Set GoString) (q : Path) : Prop :=
  ∃ name ∈ names, resolve (r.bundle name) <+: q

/-- The call touches the file system in the bundles of the names only. -/
def InsideBundles (r : CrunRuntime) (names : Set GoString) : crunSig.Op → Prop
  | .inl op => ∀ q, Touches (resolve r.bundleRoot) op q → InBundles r names q
  | .inr _ => True

/-- The runtime call is about one of the names. -/
def AboutNames (names : Set GoString) : RuntimeOp → Prop
  | .pull _ => True
  | .start c => c.name ∈ names
  | .stop name => name ∈ names

theorem InsideBundle.mono {name : GoString} {names : Set GoString} (hname : name ∈ names)
    {op : crunSig.Op} (h : InsideBundle r name op) : InsideBundles r names op := by
  cases op with
  | inl op => exact fun q hq => ⟨name, hname, h q hq⟩
  | inr op => trivial

section Apply

variable {names : Set GoString} (marshalIndent : Json → Except GoError GoString)
  (hroot : isAbs r.bundleRoot = true)
  (hchild : ∀ name ∈ names, ∃ n, DirectChild r.bundleRoot name n)

include hroot hchild

theorem issues_serve {op : RuntimeOp} (hop : AboutNames names op) :
    Issues (fun _ _ => True) (InsideBundles r names) (fun _ => True)
      (r.serve marshalIndent op) := by
  cases op with
  | pull image =>
    refine ⟨trivial, fun e _ => ?_⟩
    cases e with
    | some e => trivial
    | none => exact ⟨trivial, fun _ _ => trivial⟩
  | start c =>
    obtain ⟨n, hn⟩ := hchild c.name hop
    exact (issues_start marshalIndent hroot c hn).imp (fun _ h => h.mono hop) fun _ h => h
  | stop name => exact (issues_stop name).imp (fun _ h => h.mono hop) fun _ h => h

theorem bundleRoot_not_inBundles : ¬ InBundles r names (resolve r.bundleRoot) := by
  rintro ⟨name, hname, hpre⟩
  obtain ⟨n, hn⟩ := hchild name hname
  rw [(resolve_bundle_iff hroot).mpr hn] at hpre
  simpa using hpre.length_le

/-- An apply over crun, for containers whose names lead to entries of the bundle root: whatever the
commands do and answer, nothing changes outside the bundles of the recorded and the published
containers. -/
theorem get_apply_of_not_inBundles {rec : Reconciler} {s : ContainerSet}
    (hv : s.validate = none) (order : RangeOrder GoString) (hdesired : ∀ n ∈ rec.desired, n ∈ names)
    (hset : ∀ c ∈ s.containers, c.name ∈ names) {T : Type} (g : Handler procSig T) {t : Tree}
    (ht : t.get (resolve r.bundleRoot) = some .dir) (u : T) {q : Path}
    (hq : ¬ InBundles r names q) :
    (run (handle.sum g) ((rec.apply order s).subst (r.serve marshalIndent)) (t, u)).2.1.get q =
      t.get q := by
  have hcalls : Issues (fun _ _ => True) (InsideBundles r names) (fun _ => True)
      ((rec.apply order s).subst (r.serve marshalIndent)) := by
    have happly := issues_apply (P := AboutNames names) hv order (fun _ => trivial) hset hdesired
    exact happly.subst fun op hop => issues_serve marshalIndent hroot hchild hop
  have hbase := bundleRoot_not_inBundles hroot hchild
  -- the bundle root is outside the bundles, so it stays a directory throughout
  have hstep : ∀ op (st : Tree × T), (∀ q, ¬ InBundles r names q → st.1.get q = t.get q) →
      InsideBundles r names op →
      ∀ q, ¬ InBundles r names q → (handle.sum g op st).2.1.get q = t.get q := by
    rintro (op | op) ⟨t', u'⟩ hsame hinside q hq
    · have hdir : t'.get (resolve r.bundleRoot) = some .dir := (hsame _ hbase).trans ht
      exact (get_handle_of_not_touches hdir fun h => hq (hinside q h)).trans (hsame q hq)
    · exact hsame q hq
  exact (hcalls.run (s := (t, u)) (fun _ _ _ _ => trivial) hstep fun _ _ => rfl).1.final q hq

end Apply

end WeftAgent.Containers
