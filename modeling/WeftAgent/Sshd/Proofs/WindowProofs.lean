import WeftAgent.Sshd.Window
import WeftAgent.Sshd.Wire
import WeftAgent.Sshd.Proofs.SessionProofs

/-!
# The size of the window

While nothing runs, the recorded `pty-req` holds the last size that takes effect; once a process
runs, its pty has it. A `window-change` that comes before the start is dropped.
-/

namespace WeftAgent.Sshd

open Go

/-- The rows and columns that a pty gets from the last size request, 24 by 80 without one. -/
def sizeFor : Option (UInt32 × UInt32) → UInt16 × UInt16
  | none => (24, 80)
  | some (rows, cols) => (rows.toUInt16, cols.toUInt16)

/-- The last size that takes effect is where it has to be. -/
structure Sized (st : Session) (w : Windows) (last : Option (UInt32 × UInt32)) : Prop where
  idle : st.ptyMaster = none → st.ptyReq.map (fun p => (p.rows, p.cols)) = last
  running : ∀ f, st.ptyMaster = some f →
    ∃ size, w f = some size ∧ (size.rows, size.cols) = sizeFor last
  started : st.started = false → st.ptyMaster = none

variable {h : Host} {st st' : Session} {req : Request} {effects : List Effect} {next : Next}
  {w : Windows} {last : Option (UInt32 × UInt32)}

theorem initialWinsize_eq_sizeFor (ptyReq : Option PtyReqPayload) :
    ((initialWinsize ptyReq).rows, (initialWinsize ptyReq).cols) =
      sizeFor (ptyReq.map fun p => (p.rows, p.cols)) := by
  cases ptyReq <;> rfl

/-- Only a `pty-req` and a `window-change` carry a size. -/
theorem sizeHonoured_eq_none (htype : req.type ∉ [RequestType.ptyReq, .windowChange]) :
    sizeHonoured (st, req) = none := by
  simp only [sizeHonoured, sizeOf]
  cases hreq : req.type with
  | ptyReq | windowChange => simp [hreq] at htype
  | env | shell | exec | other => simp

/-- A pass without a size that takes effect, which leaves the pty's, the recorded `pty-req` and the
master as they were. -/
theorem Sized.keep (hs : Sized st w last) (hnone : sizeHonoured (st, req) = none) {w' : Windows}
    (hw : w' = w) (hpty : st'.ptyReq = st.ptyReq) (hmaster : st'.ptyMaster = st.ptyMaster)
    (hstarted : st'.started = false → st.started = false) :
    Sized st' w' ((sizeHonoured (st, req)).or last) := by
  rw [hnone]
  refine ⟨fun hm => ?_, fun f hf => ?_, fun hst => ?_⟩
  · rw [hpty]
    exact hs.idle (hmaster ▸ hm)
  · rw [hw]
    exact hs.running f (hmaster ▸ hf)
  · rw [hmaster]
    exact hs.started (hstarted hst)

theorem Sized.handled (hs : Sized st w last) (hh : Handled h st req st' effects next) :
    Sized st' (effects.foldl (Windows.after h) w) ((sizeHonoured (st, req)).or last) := by
  cases hh with
  | ptyRefused htype hparse =>
    exact hs.keep (by simp [sizeHonoured, sizeOf, htype, hparse]) rfl rfl rfl id
  | @ptyTaken p htype hparse =>
    by_cases hm : st.ptyMaster = none
    · have hsize : sizeHonoured (st, req) = some (p.rows, p.cols) := by
        simp [sizeHonoured, sizeOf, htype, hm, hparse]
      rw [hsize]
      exact ⟨fun _ => rfl, fun f hf => by simp [hm] at hf, fun _ => hm⟩
    · have hnone : sizeHonoured (st, req) = none := by simp [sizeHonoured, htype, hm]
      rw [hnone]
      exact ⟨fun hno => absurd hno hm, hs.running, hs.started⟩
  | envIgnored htype hparse | envTaken htype hparse =>
    exact hs.keep (sizeHonoured_eq_none (by simp [htype])) rfl rfl rfl id
  | again htype hst =>
    exact hs.keep (sizeHonoured_eq_none (by rcases htype with h | h <;> simp [h])) rfl rfl rfl id
  | execRefused htype hst hparse =>
    exact hs.keep (sizeHonoured_eq_none (by simp [htype])) rfl rfl rfl fun _ => hst
  | startFails htype hst hline hstart =>
    exact hs.keep (sizeHonoured_eq_none (by rcases htype with h | h <;> simp [h]))
      (by simp [Windows.after, hstart]) rfl rfl fun _ => hst
  | @starts line execLine f htype hst hline hstart =>
    rw [sizeHonoured_eq_none (by rcases htype with h | h <;> simp [h])]
    -- the new pty has the size of the recorded request
    refine ⟨fun hno => by simp at hno, fun g hg => ?_, fun hno => by simp at hno⟩
    obtain rfl := Option.some.inj hg
    refine ⟨initialWinsize st.ptyReq, by simp [Windows.after, hstart], ?_⟩
    rw [initialWinsize_eq_sizeFor, hs.idle (hs.started hst)]
    rfl
  | sizeIgnored htype hwhy =>
    have hnone : sizeHonoured (st, req) = none := by
      rcases hwhy with hm | ⟨p, e, hparse⟩
      · simp [sizeHonoured, htype, hm]
      · simp [sizeHonoured, sizeOf, htype, hparse]
    exact hs.keep hnone rfl rfl rfl id
  | @resized f p htype hm hparse =>
    have hsize : sizeHonoured (st, req) = some (p.rows, p.cols) := by
      simp [sizeHonoured, sizeOf, htype, hm, hparse]
    rw [hsize]
    refine ⟨fun hno => by simp [hm] at hno, fun g hg => ?_, hs.started⟩
    rw [hm] at hg
    obtain rfl := Option.some.inj hg
    exact ⟨_, Function.update_self f _ w, rfl⟩
  | other htype =>
    refine hs.keep (sizeHonoured_eq_none (by simp [htype])) ?_ rfl rfl id
    split_ifs <;> rfl

/-- The last of some sizes, or else the one before them. -/
theorem or_getLast?_filterMap {α β : Type} (f : α → Option β) (a : α) (l : List α)
    (last : Option β) :
    (((a :: l).filterMap f).getLast?).or last = ((l.filterMap f).getLast?).or ((f a).or last) := by
  cases ha : f a with
  | none => rw [List.filterMap_cons_none ha, Option.none_or]
  | some b =>
    rw [List.filterMap_cons_some ha, List.getLast?_cons]
    cases (l.filterMap f).getLast? <;> rfl

theorem Sized.requestLoop {reqs : List Request} (hs : Sized st w last)
    (hloop : requestLoop h st reqs = .done (st', effects)) :
    Sized st' (effects.foldl (Windows.after h) w)
      ((((processed h st reqs).filterMap sizeHonoured).getLast?).or last) := by
  induction reqs generalizing st w last effects with
  | nil =>
    cases hloop
    exact hs
  | cons req reqs ih =>
    obtain ⟨⟨st₁, effects₁, next⟩, hstep, hrest⟩ := Run.bind_eq_done.mp hloop
    have hs₁ := hs.handled (handled_handleRequest hstep)
    simp only [processed, hstep]
    rw [or_getLast?_filterMap]
    cases next with
    | stop =>
      cases hrest
      exact hs₁
    | loop =>
      obtain ⟨⟨st₂, more⟩, hmore, hpure⟩ := Run.bind_eq_done.mp hrest
      cases hpure
      rw [List.foldl_append]
      exact ih hs₁ hmore

/-- In every sequence of requests with a well-formed `pty-req` before the start of a process, the
pty of the running process has the rows and columns of the last well-formed size request so far,
where a `pty-req` counts before the start and a `window-change` after it. -/
theorem window_follows_requests (h : Host) {reqs : List Request} {st : Session}
    {effects : List Effect} {f : PtyFile} (hloop : handleSession h reqs = .done (st, effects))
    (hrunning : st.ptyMaster = some f)
    (hpty : ∃ pass ∈ processed h {} reqs, pass.1.ptyMaster = none ∧ (ptyOf pass.2).isSome)
    (hsmall : ∀ pass ∈ processed h {} reqs, ∀ size, sizeOf pass.2 = some size →
      size.1.toNat < 65536 ∧ size.2.toNat < 65536) :
    ∃ rows cols size, ((processed h {} reqs).filterMap sizeHonoured).getLast? = some (rows, cols) ∧
      windows h effects f = some size ∧ size.rows.toNat = rows.toNat ∧
      size.cols.toNat = cols.toNat := by
  have hinit : Sized {} (fun _ => none) none := ⟨fun _ => rfl, fun g hg => by simp at hg,
    fun _ => rfl⟩
  obtain ⟨size, hsize, hlast⟩ := (hinit.requestLoop hloop).running f hrunning
  rw [Option.or_none] at hlast
  have hne : (processed h {} reqs).filterMap sizeHonoured ≠ [] := by
    obtain ⟨⟨st₀, req⟩, hmem, hm, hreq⟩ := hpty
    obtain ⟨p, hp⟩ := Option.isSome_iff_exists.mp hreq
    have hfound : sizeHonoured (st₀, req) = some (p.rows, p.cols) := by
      simp only [ptyOf] at hp
      split at hp
      · next htype hparse =>
        obtain rfl := Option.some.inj hp
        simp only at hm
        simp [sizeHonoured, sizeOf, htype, hparse, hm]
      · cases hp
    exact List.ne_nil_of_mem (List.mem_filterMap.mpr ⟨_, hmem, hfound⟩)
  obtain ⟨⟨rows, cols⟩, hget⟩ := Option.isSome_iff_exists.mp (List.getLast?_isSome.mpr hne)
  refine ⟨rows, cols, size, hget, hsize, ?_⟩
  -- the size that counts last is that of some request, so it fits into 16 bits
  obtain ⟨⟨st₀, req⟩, hmem, hfound⟩ := List.mem_filterMap.mp (List.mem_of_getLast? hget)
  have hof : sizeOf req = some (rows, cols) := by
    unfold sizeHonoured at hfound
    split_ifs at hfound
    exact hfound
  obtain ⟨hrows, hcols⟩ := hsmall _ hmem _ hof
  rw [hget] at hlast
  obtain ⟨hr, hc⟩ := Prod.mk.inj hlast
  rw [hr, hc, UInt32.toNat_toUInt16, UInt32.toNat_toUInt16]
  exact ⟨Nat.mod_eq_of_lt hrows, Nat.mod_eq_of_lt hcols⟩

/-- A terminal of 24 rows and 80 columns is asked for, and one of 40 by 100 once the shell runs. -/
def resizeAfterStart : List Request :=
  [⟨.ptyReq, true, ptyReqBytes { term := lit "xterm", cols := 80, rows := 24 }⟩,
    ⟨.shell, true, []⟩, ⟨.windowChange, false, winChReqBytes { cols := 100, rows := 40 }⟩]

theorem resizeAfterStart_is_followed :
    ∃ st effects, handleSession shHost resizeAfterStart = .done (st, effects) ∧
      ∃ rows cols size,
        ((processed shHost {} resizeAfterStart).filterMap sizeHonoured).getLast? =
          some (rows, cols) ∧
        windows shHost effects 7 = some size ∧ size.rows.toNat = rows.toNat ∧
        size.cols.toNat = cols.toNat := by
  have hsmall : ∀ pass ∈ processed shHost {} resizeAfterStart,
      (sizeOf pass.2).all (fun size => size.1.toNat < 65536 ∧ size.2.toNat < 65536) := by
    decide +kernel
  refine ⟨_, _, rfl, window_follows_requests shHost rfl rfl ?_ fun pass hmem size hsize => ?_⟩
  · exact ⟨_, List.mem_cons_self, rfl, by decide +kernel⟩
  · have hall := hsmall pass hmem
    rw [hsize] at hall
    simpa using hall

/-- The same, with the larger size asked for before the shell is started. -/
def resizeBeforeStart : List Request :=
  [⟨.ptyReq, true, ptyReqBytes { term := lit "xterm", cols := 80, rows := 24 }⟩,
    ⟨.windowChange, false, winChReqBytes { cols := 100, rows := 40 }⟩, ⟨.shell, true, []⟩]

/-- The shell gets the size of the `pty-req`, though another one was asked for after it. -/
theorem resizeBeforeStart_is_dropped :
    ∃ st effects, handleSession shHost resizeBeforeStart = .done (st, effects) ∧
      st.ptyMaster = some 7 ∧
      ((processed shHost {} resizeBeforeStart).filterMap sizeAsked).getLast? = some (40, 100) ∧
      windows shHost effects 7 = some { rows := 24, cols := 80 } :=
  ⟨_, _, rfl, rfl, by decide +kernel, by decide +kernel⟩

end WeftAgent.Sshd
