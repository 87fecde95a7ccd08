import WeftAgent.Mounts.Shutdown
import Mathlib.Tactic

/-!
# Mounts that outlive the shutdown

`UnmountAll` empties the registry, and a handler that takes the lock after it fills it again. So
nothing stays mounted under every interleaving exactly when no handler that is still running will
mount a share, and `UnmountAll` can detach what is mounted.
-/

namespace WeftAgent.Mounts

open WeftAgent.Go

/-! ## One message -/

variable {unmountErr mountErr : Option GoError} {r : Registry} {msg : Message} {id : GoString}
  {m : Mounted}

/-- A message that carries no mount adds no share. -/
theorem lookup_of_not_carriesMount (hmsg : ¬ CarriesMount msg)
    (h : (handleMessage unmountErr mountErr r msg).1.active.lookup id = some m) :
    r.active.lookup id = some m := by
  unfold handleMessage at h
  split at h
  · exact h
  next spec =>
    split at h
    · exact h
    next hvalid =>
      have haction : spec.action = mountActionUnmount := by
        by_contra hne
        exact hmsg ⟨spec, rfl, hvalid, hne⟩
      unfold Registry.apply at h
      split at h
      · exact h
      · simp only [haction, if_pos] at h
        by_cases hid : id = spec.id
        · rw [hid, AList.lookup_erase] at h
          cases h
        · rwa [AList.lookup_erase_ne hid] at h

/-- A message that carries a mount leaves its share mounted, if nothing goes wrong. -/
theorem exists_lookup_of_carriesMount (hmsg : CarriesMount msg) (r : Registry) :
    ∃ id m, (handleMessage none none r msg).1.active.lookup id = some m := by
  obtain ⟨spec, rfl, hvalid, haction⟩ := hmsg
  refine ⟨spec.id, mount spec, ?_⟩
  unfold handleMessage
  simp only [hvalid]
  unfold Registry.apply
  split
  next hnone => cases hnone
  · rw [if_neg haction]
    exact AList.lookup_insert _

/-! ## `UnmountAll` -/

variable {errs : GoString → Option GoError} {d : Teardown}

theorem lookup_unmount (x id : GoString) :
    (d.unmount errs x).registry.active.lookup id =
      if id = x then none else d.registry.active.lookup id := by
  unfold Teardown.unmount
  by_cases hid : id = x
  · subst hid
    rw [if_pos rfl]
    split
    next hnone => exact hnone
    · exact AList.lookup_erase _ _
  · rw [if_neg hid]
    split
    · rfl
    · exact AList.lookup_erase_ne hid

theorem stuck_unmount_eq_nil_iff (x : GoString) :
    (d.unmount errs x).stuck = [] ↔
      d.stuck = [] ∧ (d.registry.active.lookup x ≠ none → errs x = none) := by
  unfold Teardown.unmount
  split
  next hnone => simp [hnone]
  next m hsome => cases hx : errs x <;> simp [hsome]

theorem lookup_foldl_unmount (ids : List GoString) (id : GoString) :
    (ids.foldl (Teardown.unmount errs) d).registry.active.lookup id =
      if id ∈ ids then none else d.registry.active.lookup id := by
  induction ids generalizing d with
  | nil => simp
  | cons x ids ih =>
    rw [List.foldl_cons, ih, lookup_unmount]
    by_cases hmem : id ∈ ids
    · simp [hmem]
    · simp [hmem]

theorem stuck_foldl_unmount_eq_nil_iff (ids : List GoString) :
    (ids.foldl (Teardown.unmount errs) d).stuck = [] ↔
      d.stuck = [] ∧ ∀ id ∈ ids, d.registry.active.lookup id ≠ none → errs id = none := by
  induction ids generalizing d with
  | nil => simp
  | cons x ids ih =>
    rw [List.foldl_cons, ih, stuck_unmount_eq_nil_iff, List.forall_mem_cons, and_assoc]
    refine and_congr_right fun _ => and_congr_right fun hx => forall₂_congr fun id _ => ?_
    -- once `x` is gone from the registry, the rest of the loop says nothing about it
    rw [lookup_unmount]
    by_cases hid : id = x
    · subst hid
      simpa using hx
    · rw [if_neg hid]

variable {order : RangeOrder GoString}

theorem lookup_unmountAll (r : Registry) (id : GoString) :
    (r.unmountAll order errs).registry.active.lookup id = none := by
  rw [Registry.unmountAll, lookup_foldl_unmount]
  split_ifs with hmem
  · rfl
  · rw [(order.perm _).mem_iff] at hmem
    exact AList.lookup_eq_none.mpr hmem

theorem stuck_unmountAll_eq_nil_iff (r : Registry) :
    (r.unmountAll order errs).stuck = [] ↔ ∀ id ∈ r.active, errs id = none := by
  rw [Registry.unmountAll, stuck_foldl_unmount_eq_nil_iff]
  simp only [(order.perm _).mem_iff, true_and]
  refine forall₂_congr fun id hid => ?_
  have hlookup : r.active.lookup id ≠ none := by
    rw [ne_eq, AList.lookup_eq_none, not_not]
    exact hid
  simp [hlookup]

/-! ## Handlers that finish -/

theorem Agent.active_eq_nil_iff {s : Agent} :
    s.active = [] ↔ (∀ id, s.registry.active.lookup id = none) ∧ s.stuck = [] := by
  have hentries : s.registry.active.entries = [] ↔ ∀ id, s.registry.active.lookup id = none := by
    constructor
    · intro hnil id
      rw [Option.eq_none_iff_forall_ne_some]
      intro m hm
      have hmem := AList.mem_lookup_iff.mp hm
      rw [hnil] at hmem
      cases hmem
    · intro hnone
      refine List.eq_nil_iff_forall_not_mem.mpr ?_
      rintro ⟨id, m⟩ hmem
      have hm := AList.mem_lookup_iff.mpr hmem
      rw [Option.mem_def, hnone id] at hm
      cases hm
  rw [Agent.active, List.append_eq_nil_iff, List.map_eq_nil_iff, hentries]

/-- The handler at one place finishes, and then the one that comes to that place, and so on. -/
def handleRepeatedly (i n : Nat) : List Event := List.replicate n (.handle i none none)

theorem foldl_handleRepeatedly (s : Agent) (i n : Nat) :
    ((handleRepeatedly i n).foldl Agent.step s).inFlight =
        s.inFlight.take i ++ s.inFlight.drop (i + n) ∧
      ((handleRepeatedly i n).foldl Agent.step s).phase = s.phase ∧
      ((handleRepeatedly i n).foldl Agent.step s).stuck = s.stuck := by
  induction n generalizing s with
  | zero => simp [handleRepeatedly]
  | succ n ih =>
    rw [handleRepeatedly, List.replicate_succ, List.foldl_cons]
    obtain ⟨hflight, hphase, hstuck⟩ := ih (s.step (.handle i none none))
    rw [handleRepeatedly] at hflight hphase hstuck
    rw [hflight, hphase, hstuck]
    simp only [Agent.step]
    cases hi : s.inFlight[i]? with
    | none =>
      have hlen : s.inFlight.length ≤ i := List.getElem?_eq_none_iff.mp hi
      simp only [and_self, and_true]
      rw [List.drop_eq_nil_of_le (by omega), List.drop_eq_nil_of_le (by omega)]
    | some msg =>
      have hlen : i < s.inFlight.length := (List.getElem?_eq_some_iff.mp hi).1
      simp only [and_self, and_true]
      have htake : (s.inFlight.take i).length = i := List.length_take_of_le hlen.le
      rw [List.eraseIdx_eq_take_drop_succ, List.take_append_of_le_length htake.ge, List.take_take,
        Nat.min_self, List.drop_append, List.drop_eq_nil_of_le (by omega), List.nil_append, htake,
        List.drop_drop]
      congr 2
      omega

/-! ## The shutdown -/

/-- From the closed connections on: no running handler will mount a share, and what is mounted can
be detached, or has been. -/
structure Harmless (errs : GoString → Option GoError) (s : Agent) : Prop where
  closing : s.phase ≠ .serving
  inFlight : ∀ msg ∈ s.inFlight, ¬ CarriesMount msg
  detachable : ∀ id ∈ s.registry.active, errs id = none
  stuck : s.stuck = []
  unmounted : s.phase = .unmounted → ∀ id, s.registry.active.lookup id = none

theorem Harmless.step {s : Agent} (h : Harmless errs s) {e : Event}
    (he : ∀ order errs', e = .unmountAll order errs' → errs' = errs) :
    Harmless errs (s.step e) := by
  cases e with
  | deliver msg =>
    simp only [Agent.step, if_neg h.closing]
    exact h
  | close =>
    simp only [Agent.step, if_neg h.closing]
    exact h
  | handle i unmountErr mountErr =>
    simp only [Agent.step]
    split
    · exact h
    next msg hi =>
      have hmsg : ¬ CarriesMount msg := h.inFlight msg (List.mem_of_getElem? hi)
      refine ⟨h.closing, fun msg' hmem => h.inFlight msg' (List.mem_of_mem_eraseIdx hmem), ?_,
        h.stuck, fun hphase id => ?_⟩
      · intro id hid
        obtain ⟨m, hm⟩ := GoMap.mem_iff_lookup.mp hid
        exact h.detachable id (GoMap.mem_iff_lookup.mpr ⟨m, lookup_of_not_carriesMount hmsg hm⟩)
      · rw [Option.eq_none_iff_forall_ne_some]
        intro m hm
        have hbefore := lookup_of_not_carriesMount hmsg hm
        rw [h.unmounted hphase id] at hbefore
        cases hbefore
  | unmountAll order errs' =>
    obtain rfl := he order errs' rfl
    simp only [Agent.step]
    split_ifs with hphase
    · have hempty : ∀ id, (s.registry.unmountAll order errs').registry.active.lookup id = none :=
        lookup_unmountAll s.registry
      refine ⟨by simp, h.inFlight, fun id hid => ?_, ?_, fun _ => hempty⟩
      · obtain ⟨m, hm⟩ := GoMap.mem_iff_lookup.mp hid
        rw [hempty id] at hm
        cases hm
      · exact (stuck_unmountAll_eq_nil_iff _).mpr h.detachable
    · exact h

theorem Harmless.run {s : Agent} (h : Harmless errs s) {es : List Event}
    (hes : ∀ order errs', .unmountAll order errs' ∈ es → errs' = errs) :
    Harmless errs (es.foldl Agent.step s) := by
  induction es generalizing s with
  | nil => exact h
  | cons e es ih =>
    refine ih (h.step fun order errs' he => ?_) fun order errs' hmem =>
      hes order errs' (List.mem_cons_of_mem _ hmem)
    exact hes order errs' (he ▸ List.mem_cons_self)

theorem stuck_step {s : Agent} (h : s.phase ≠ .unmounted → s.stuck = []) (e : Event)
    (hphase : (s.step e).phase ≠ .unmounted) : (s.step e).stuck = [] := by
  cases e with
  | deliver msg =>
    simp only [Agent.step] at hphase ⊢
    split_ifs at hphase ⊢
    · exact h hphase
    · exact h hphase
  | handle i unmountErr mountErr =>
    simp only [Agent.step] at hphase ⊢
    cases hi : s.inFlight[i]? with
    | none => exact h (by simpa [hi] using hphase)
    | some msg => exact h (by simpa [hi] using hphase)
  | close =>
    simp only [Agent.step] at hphase ⊢
    split_ifs at hphase ⊢ with hserving
    · exact h (by rw [hserving]; decide)
    · exact h hphase
  | unmountAll order errs =>
    simp only [Agent.step] at hphase ⊢
    split_ifs at hphase ⊢
    · exact absurd rfl hphase
    · exact h hphase

/-- Nothing is stuck before `UnmountAll`. -/
theorem stuck_after (boot : Registry) (history : List Event)
    (h : (after boot history).phase ≠ .unmounted) : (after boot history).stuck = [] := by
  induction history using List.reverseRecOn with
  | nil => rfl
  | append_singleton history e ih =>
    rw [after, List.foldl_concat] at h ⊢
    exact stuck_step ih e h

theorem unmountAll_not_mem_handleRepeatedly {i n : Nat} :
    .unmountAll order errs ∉ handleRepeatedly i n := by
  simp [handleRepeatedly, List.mem_replicate]

/-- `UnmountAll` goes first, and then all running handlers finish. -/
theorem exists_drained {s : Agent} (hclosed : s.phase = .closed)
    (errs : GoString → Option GoError) :
    ∃ es : List Event, (∀ order errs', .unmountAll order errs' ∈ es → errs' = errs) ∧
      (es.foldl Agent.step s).phase = .unmounted ∧ (es.foldl Agent.step s).inFlight = [] ∧
      (es.foldl Agent.step s).stuck = (s.registry.unmountAll RangeOrder.listed errs).stuck := by
  let first : Event := .unmountAll RangeOrder.listed errs
  let s₁ := s.step first
  obtain ⟨hflight, hphase, hstuck⟩ := foldl_handleRepeatedly s₁ 0 s₁.inFlight.length
  refine ⟨first :: handleRepeatedly 0 s₁.inFlight.length, ?_, hphase.trans ?_, hflight.trans ?_,
    hstuck.trans ?_⟩
  · intro order errs' hmem
    rw [List.mem_cons, or_iff_left unmountAll_not_mem_handleRepeatedly] at hmem
    exact (Event.unmountAll.inj hmem).2
  · simp [s₁, first, Agent.step, hclosed]
  · simp
  · simp [s₁, first, Agent.step, hclosed]

/-- `UnmountAll` goes first, and one of the running handlers finishes last of all. -/
theorem exists_last_handler {s : Agent} (hclosed : s.phase = .closed) (hmsg : msg ∈ s.inFlight)
    (errs : GoString → Option GoError) :
    ∃ (es : List Event) (r : Registry) (stuck : List Mounted),
      (∀ order errs', .unmountAll order errs' ∈ es → errs' = errs) ∧
      es.foldl Agent.step s =
        { registry := (handleMessage none none r msg).1, phase := .unmounted, stuck } := by
  obtain ⟨a, b, hab⟩ := List.append_of_mem hmsg
  let first : Event := .unmountAll RangeOrder.listed errs
  let s₁ := s.step first
  have hphase₁ : s₁.phase = .unmounted := by simp [s₁, first, Agent.step, hclosed]
  have hflight₁ : s₁.inFlight = a ++ msg :: b := by simp [s₁, first, Agent.step, hclosed, hab]
  obtain ⟨hflight₂, hphase₂, -⟩ := foldl_handleRepeatedly s₁ 0 a.length
  obtain ⟨hflight₃, hphase₃, -⟩ :=
    foldl_handleRepeatedly ((handleRepeatedly 0 a.length).foldl Agent.step s₁) 1 b.length
  generalize hs₃ : (handleRepeatedly 1 b.length).foldl Agent.step
    ((handleRepeatedly 0 a.length).foldl Agent.step s₁) = s₃ at hflight₃ hphase₃
  have hlast : s₃.inFlight = [msg] := by
    rw [hflight₃, hflight₂, hflight₁]
    simp
  refine ⟨first :: (handleRepeatedly 0 a.length ++ handleRepeatedly 1 b.length ++
    [.handle 0 none none]), s₃.registry, s₃.stuck, ?_, ?_⟩
  · intro order errs' hmem
    simp only [List.mem_cons, List.mem_append, unmountAll_not_mem_handleRepeatedly,
      List.not_mem_nil, or_false, reduceCtorEq] at hmem
    exact (Event.unmountAll.inj hmem).2
  · rw [List.foldl_cons, List.foldl_append, List.foldl_append]
    change Agent.step ((handleRepeatedly 1 b.length).foldl Agent.step
      ((handleRepeatedly 0 a.length).foldl Agent.step s₁)) (.handle 0 none none) = _
    rw [hs₃]
    simp only [Agent.step, hlast, List.getElem?_cons_zero, List.eraseIdx_cons_zero, hphase₃,
      hphase₂, hphase₁]

theorem after_append (boot : Registry) (history es : List Event) :
    after boot (history ++ es) = es.foldl Agent.step (after boot history) :=
  List.foldl_append

/-- From closed connections on, whatever the interleaving of the running handlers with `UnmountAll`,
nothing is mounted when all have finished, exactly when no running handler carries a mount and every
mounted share can be detached. -/
theorem shutdown_unmounts_iff (boot : Registry) (history : List Event)
    (hclosed : (after boot history).phase = .closed) (errs : GoString → Option GoError) :
    (∀ es, (∀ order errs', .unmountAll order errs' ∈ es → errs' = errs) →
      (after boot (history ++ es)).phase = .unmounted →
      (after boot (history ++ es)).inFlight = [] → (after boot (history ++ es)).active = []) ↔
    (∀ msg ∈ (after boot history).inFlight, ¬ CarriesMount msg) ∧
      ∀ id ∈ (after boot history).registry.active, errs id = none := by
  have hstuck : (after boot history).stuck = [] :=
    stuck_after boot history (by rw [hclosed]; decide)
  simp only [after_append]
  generalize after boot history = s at hclosed hstuck
  constructor
  · intro h
    constructor
    · intro msg hmem hmount
      obtain ⟨es, r, stuck, hes, hrun⟩ := exists_last_handler hclosed hmem errs
      have hnone := h es hes (by rw [hrun]) (by rw [hrun])
      obtain ⟨id, m, hm⟩ := exists_lookup_of_carriesMount hmount r
      rw [hrun, Agent.active_eq_nil_iff] at hnone
      rw [hnone.1 id] at hm
      cases hm
    · obtain ⟨es, hes, hphase, hflight, hleft⟩ := exists_drained hclosed errs
      have hnone := (Agent.active_eq_nil_iff.mp (h es hes hphase hflight)).2
      rw [hleft] at hnone
      exact (stuck_unmountAll_eq_nil_iff s.registry).mp hnone
  · rintro ⟨hflight, hdetachable⟩ es hes hphase -
    have hstart : Harmless errs s :=
      ⟨by simp [hclosed], hflight, hdetachable, hstuck, by simp [hclosed]⟩
    have hend := hstart.run hes
    exact Agent.active_eq_nil_iff.mpr ⟨hend.unmounted hphase, hend.stuck⟩

/-- A share of the class. -/
def classShare : ShareMount where
  id := lit "class"
  mountPoint := lit "/mnt/class"
  cubeFS := some { volume := lit "vol", masters := [lit "10.0.0.1:17010"], owner := lit "teacher" }

/-- The share is mounted, and its unmount is being handled when the connection is closed: whichever
of the handler and `UnmountAll` comes first, nothing stays mounted. -/
theorem unmount_in_flight_is_harmless :
    let history : List Event := [.deliver (.ok classShare), .handle 0 none none,
      .deliver (.ok { classShare with action := mountActionUnmount }), .close]
    (after {} history).phase = .closed ∧
      ∀ es, (∀ order errs', .unmountAll order errs' ∈ es → errs' = fun _ => none) →
        (after {} (history ++ es)).phase = .unmounted →
        (after {} (history ++ es)).inFlight = [] → (after {} (history ++ es)).active = [] := by
  refine ⟨by decide, ?_⟩
  refine (shutdown_unmounts_iff {} _ (by decide) _).mpr ⟨?_, fun _ _ => rfl⟩
  rintro msg hmsg ⟨m, rfl, -, haction⟩
  have hm : m = { classShare with action := mountActionUnmount } := by
    simpa [after, Agent.step] using hmsg
  exact haction (by rw [hm])

/-- A share whose message is being handled when the shutdown begins stays mounted: its handler takes
the lock after `UnmountAll`. -/
theorem mount_in_flight_survives :
    let s := after {} [.deliver (.ok classShare), .close,
      .unmountAll RangeOrder.listed (fun _ => none), .handle 0 none none]
    s.phase = .unmounted ∧ s.inFlight = [] ∧ s.active = [mount classShare] := by
  decide

end WeftAgent.Mounts
