import WeftAgent.Containers.Crun
import WeftAgent.Fs.Proofs.CallsProofs

/-!
# The root file systems of images

`CrunRuntime.start` looks for the root file system of an image in a directory named after the image
reference, with `/`, `:` and `@` replaced by `-`. References that differ in these bytes only share
the directory, and `..` leads out of the image cache.
-/

namespace WeftAgent.Containers

open WeftAgent.Go WeftAgent.Go.Filepath WeftAgent.Fs WeftAgent.Pod

/-- Some valid set has a container with the image. -/
def MayCarry (image : GoString) : Prop :=
  ∃ s : ContainerSet, s.validate = none ∧ ∃ c ∈ s.containers, c.image = image

variable {r : CrunRuntime} {image a b : GoString}

theorem mayCarry_iff : MayCarry image ↔ image ≠ [] := by
  constructor
  · rintro ⟨s, hvalid, c, hc, rfl⟩
    exact ContainerSet.images_of_validate hvalid c hc
  · intro h
    refine ⟨{ containers := [{ name := lit "web", image }] }, ?_, _, List.mem_singleton_self _, rfl⟩
    have hname : lit "web" ≠ [] := by decide
    simp [ContainerSet.validate, checkContainers, checkContainer, checkMounts, hname, h]

/-! ## The directory of a reference -/

theorem slash_not_mem_refSafe (image : GoString) : slash ∉ refSafe image := by
  intro hmem
  obtain ⟨x, -, hx⟩ := List.mem_map.mp hmem
  split_ifs at hx with hsep
  · cases hx
  · exact hsep (.inl hx)

/-- A reference that is made of dots stands for itself, and for nothing else. -/
theorem refSafe_eq_dots_iff {n : Nat} :
    refSafe image = List.replicate n dot ↔ image = List.replicate n dot := by
  induction image generalizing n with
  | nil => rfl
  | cons x image ih =>
    cases n with
    | zero => simp [refSafe]
    | succ n =>
      have hhead : (if x = 47 ∨ x = 58 ∨ x = 64 then 45 else x) = dot ↔ x = dot := by
        split_ifs with hsep
        · rcases hsep with rfl | rfl | rfl <;> decide
        · rfl
      have htail := ih (n := n)
      simp only [refSafe] at htail
      rw [refSafe, List.map_cons, List.replicate_succ, List.cons.injEq, hhead, htail,
        List.cons.injEq]

/-- The two names that `filepath.Join` reads as steps. -/
theorem refSafe_eq_dot_iff : refSafe image = [dot] ↔ image = [dot] := refSafe_eq_dots_iff (n := 1)

theorem refSafe_eq_dotdot_iff : refSafe image = dotdot ↔ image = dotdot :=
  refSafe_eq_dots_iff (n := 2)

/-- The directory in the image cache that a reference is looked for in. -/
def imageDir (r : CrunRuntime) (image : GoString) : Path :=
  push true (resolve r.nclImagePath) (refSafe image)

theorem resolve_imageRootfs (h : image ≠ []) :
    resolve (r.imageRootfs image) = imageDir r image ++ [lit "rootfs"] := by
  have hne : refSafe image ≠ [] := by simpa [refSafe] using h
  have hrootfs : IsName (lit "rootfs") := by decide
  have hsplit : (refSafe image ++ slash :: lit "rootfs").splitOn slash =
      [refSafe image, lit "rootfs"] := by
    rw [List.splitOn_append_cons_self, List.splitOn_eq_singleton (slash_not_mem_refSafe image),
      List.splitOn_eq_singleton hrootfs.2.2.2]
    rfl
  rw [CrunRuntime.imageRootfs, join_pair hne, resolve_join, within, hsplit, List.foldl_cons,
    List.foldl_cons, List.foldl_nil, push_of_isName hrootfs]
  rfl

/-- Where a reference leads: `.` to the cache itself, `..` to its parent, and any other one to an
entry of the cache. -/
theorem imageDir_cases (r : CrunRuntime) (h : image ≠ []) :
    image = [dot] ∧ imageDir r image = resolve r.nclImagePath ∨
      image = dotdot ∧ imageDir r image = (resolve r.nclImagePath).dropLast ∨
      image ≠ [dot] ∧ image ≠ dotdot ∧
        imageDir r image = resolve r.nclImagePath ++ [refSafe image] := by
  unfold imageDir
  by_cases h₁ : image = [dot]
  · exact .inl ⟨h₁, push_of_skip (.inr (refSafe_eq_dot_iff.mpr h₁))⟩
  · by_cases h₂ : image = dotdot
    · refine .inr (.inl ⟨h₂, ?_⟩)
      rw [refSafe_eq_dotdot_iff.mpr h₂, push_rooted_dotdot (names_resolve _)]
    · have hname : IsName (refSafe image) :=
        ⟨by simpa [refSafe] using h, mt refSafe_eq_dot_iff.mp h₁, mt refSafe_eq_dotdot_iff.mp h₂,
          slash_not_mem_refSafe image⟩
      exact .inr (.inr ⟨h₁, h₂, push_of_isName hname⟩)

/-! ## Two references -/

/-- The root file system of a reference lies in the cache, unless the reference is `..` and the
cache is not the root directory. -/
theorem strictlyBelow_imageRootfs_iff (h : image ≠ []) :
    StrictlyBelow r.nclImagePath (r.imageRootfs image) ↔
      (image = dotdot → resolve r.nclImagePath = []) := by
  rw [StrictlyBelow, resolve_imageRootfs h]
  generalize hR : resolve r.nclImagePath = R
  rcases imageDir_cases r h with ⟨himage, hdir⟩ | ⟨himage, hdir⟩ | ⟨-, hne, hdir⟩ <;>
    rw [hdir, hR]
  · have hno : [dot] ≠ dotdot := by decide
    simp [himage, hno]
  · constructor
    · rintro ⟨hpre, hne⟩ -
      by_contra hR'
      refine hne (hpre.eq_of_length ?_)
      have hpos := List.length_pos_of_ne_nil hR'
      simp only [List.length_append, List.length_dropLast, List.length_singleton]
      omega
    · intro hroot
      simp [hroot himage]
  · refine ⟨fun _ hdd => absurd hdd hne, fun _ => ⟨⟨[refSafe image, lit "rootfs"], by simp⟩, ?_⟩⟩
    intro heq
    have hlen := congrArg List.length heq
    simp at hlen

/-- Two references lead to one directory if they differ in the replaced bytes only, or are `.` and
`..` where the cache is the root directory. -/
theorem imageDir_eq_iff (ha : a ≠ []) (hb : b ≠ []) :
    imageDir r a = imageDir r b ↔ refSafe a = refSafe b ∨
      resolve r.nclImagePath = [] ∧ a ∈ [[dot], dotdot] ∧ b ∈ [[dot], dotdot] := by
  have hne : [dot] ≠ dotdot := by decide
  have hdot : refSafe [dot] = [dot] := refSafe_eq_dot_iff.mpr rfl
  have hdd : refSafe dotdot = dotdot := refSafe_eq_dotdot_iff.mpr rfl
  generalize hR : resolve r.nclImagePath = R
  have hup : R.dropLast = R ↔ R = [] := by
    refine ⟨fun heq => ?_, fun hnil => by rw [hnil]; rfl⟩
    by_contra hnil
    have hlen := congrArg List.length heq
    have hpos := List.length_pos_of_ne_nil hnil
    simp only [List.length_dropLast] at hlen
    omega
  have hdown : ∀ n, R.dropLast ≠ R ++ [n] := by
    intro n heq
    have hlen := congrArg List.length heq
    simp only [List.length_dropLast, List.length_append, List.length_singleton] at hlen
    omega
  rcases imageDir_cases r ha with ⟨ha', hA⟩ | ⟨ha', hA⟩ | ⟨ha₁, ha₂, hA⟩ <;>
    rcases imageDir_cases r hb with ⟨hb', hB⟩ | ⟨hb', hB⟩ | ⟨hb₁, hb₂, hB⟩ <;>
    rw [hA, hB, hR]
  · simp [ha', hb']
  · rw [eq_comm, hup, ha', hb', hdot, hdd]
    simp [hne]
  · have hsafe : [dot] ≠ refSafe b := fun heq => hb₁ (refSafe_eq_dot_iff.mp heq.symm)
    simp [ha', hdot, hsafe, hb₁, hb₂]
  · rw [hup, ha', hb', hdot, hdd]
    simp [hne.symm]
  · simp [ha', hb']
  · have hsafe : dotdot ≠ refSafe b := fun heq => hb₂ (refSafe_eq_dotdot_iff.mp heq.symm)
    simp [hdown, ha', hdd, hsafe, hb₁, hb₂]
  · have hsafe : refSafe a ≠ [dot] := fun heq => ha₁ (refSafe_eq_dot_iff.mp heq)
    simp [hb', hdot, hsafe, ha₁, ha₂]
  · have hsafe : refSafe a ≠ dotdot := fun heq => ha₂ (refSafe_eq_dotdot_iff.mp heq)
    simp [(hdown _).symm, hb', hdd, hsafe, ha₁, ha₂]
  · simp [ha₁, ha₂]

/-- The root file systems of two references are different directories in the image cache exactly if
the references differ in more than the replaced bytes and neither is `..`; where the cache is the
root directory, `..` does no harm, but `.` and `..` lead to one directory. -/
theorem image_rootfs_separate_iff (r : CrunRuntime) (ha : MayCarry a) (hb : MayCarry b) :
    (resolve (r.imageRootfs a) ≠ resolve (r.imageRootfs b) ∧
      StrictlyBelow r.nclImagePath (r.imageRootfs a) ∧
      StrictlyBelow r.nclImagePath (r.imageRootfs b)) ↔
    refSafe a ≠ refSafe b ∧
      if resolve r.nclImagePath = [] then ¬ (a ∈ [[dot], dotdot] ∧ b ∈ [[dot], dotdot])
      else a ≠ dotdot ∧ b ≠ dotdot := by
  have ha' := mayCarry_iff.mp ha
  have hb' := mayCarry_iff.mp hb
  have hsame : resolve (r.imageRootfs a) = resolve (r.imageRootfs b) ↔
      imageDir r a = imageDir r b := by
    rw [resolve_imageRootfs ha', resolve_imageRootfs hb', List.append_left_inj]
  rw [ne_eq, hsame, imageDir_eq_iff ha' hb', strictlyBelow_imageRootfs_iff ha',
    strictlyBelow_imageRootfs_iff hb']
  by_cases hR : resolve r.nclImagePath = []
  · simp [hR]
  · simp [hR]

theorem nginx_redis_separate :
    resolve (weftRuntime.imageRootfs (lit "nginx:1")) ≠
        resolve (weftRuntime.imageRootfs (lit "redis:7")) ∧
      StrictlyBelow weftRuntime.nclImagePath (weftRuntime.imageRootfs (lit "nginx:1")) ∧
      StrictlyBelow weftRuntime.nclImagePath (weftRuntime.imageRootfs (lit "redis:7")) := by
  have hnginx : MayCarry (lit "nginx:1") := mayCarry_iff.mpr (by decide)
  have hredis : MayCarry (lit "redis:7") := mayCarry_iff.mpr (by decide)
  exact (image_rootfs_separate_iff weftRuntime hnginx hredis).mpr (by decide)

/-- Two images of one registry, the second one in a repository of its own. -/
def webApps : ContainerSet where
  containers := [{ name := lit "old", image := lit "ghcr.io/acme/web-app:1" },
    { name := lit "new", image := lit "ghcr.io/acme/web/app:1" }]

/-- The containers of a valid set share the root file system of an image, though their images
differ; and the root file system of an image that a valid set carries lies outside the cache. -/
theorem webApps_share_rootfs :
    webApps.validate = none ∧
      (webApps.containers.map fun c => c.image).Nodup ∧
      (webApps.containers.map fun c => weftRuntime.imageRootfs c.image) =
        List.replicate 2 (lit "/run/weft/images/ghcr.io-acme-web-app-1/rootfs") ∧
      ContainerSet.validate { containers := [{ name := lit "up", image := lit ".." }] } = none ∧
      weftRuntime.imageRootfs (lit "..") = lit "/run/weft/rootfs" ∧
      ¬ StrictlyBelow weftRuntime.nclImagePath (weftRuntime.imageRootfs (lit "..")) := by
  decide

end WeftAgent.Containers
