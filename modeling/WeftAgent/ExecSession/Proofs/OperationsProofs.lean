import WeftAgent.ExecSession.Operations
import WeftAgent.ExecSession.Proofs.SessionsProofs

/-!
# The registry of exec sessions

After any operations an instance is registered exactly if its cancel function has not been invoked.
An operation takes some instances out of the registry and invokes just their cancel functions
(`Accounts.drop`), and may then register an instance that is new (`Accounts.register`).
-/

namespace WeftAgent.ExecSession

open Go

/-- What is registered, what was opened and what was cancelled so far fit together. -/
structure Accounts (opens : List (GoString × Instance)) (live : GoMap GoString Instance)
    (cancelled : List Instance) : Prop where
  opened : ∀ {id i}, live.lookup id = some i → (id, i) ∈ opens
  registered : ∀ {id i}, (id, i) ∈ opens → (live.lookup id = some i ↔ i ∉ cancelled)
  issued : ∀ {i}, i ∈ cancelled → ∃ id, (id, i) ∈ opens
  nodup : cancelled.Nodup

variable {opens : List (GoString × Instance)} {live live' : GoMap GoString Instance}
  {cancelled : List Instance}

/-- Different cancel functions: an instance has one ID. -/
theorem id_unique (hfresh : (opens.map Prod.snd).Nodup) {id id' : GoString} {i : Instance}
    (h : (id, i) ∈ opens) (h' : (id', i) ∈ opens) : id = id' :=
  congrArg Prod.fst (List.inj_on_of_nodup_map hfresh h h' rfl)

/-- The instances under some IDs are taken out and their cancel functions invoked, each once. -/
theorem Accounts.drop (h : Accounts opens live cancelled) (hfresh : (opens.map Prod.snd).Nodup)
    (gone : GoString → Prop) {out : List Instance}
    (hkept : ∀ id, ¬gone id → live'.lookup id = live.lookup id)
    (hgone : ∀ id, gone id → live'.lookup id = none)
    (hout : ∀ i, i ∈ out ↔ ∃ id, gone id ∧ live.lookup id = some i) (hnodup : out.Nodup) :
    Accounts opens live' (cancelled ++ out) := by
  have hsub : ∀ {id i}, live'.lookup id = some i → ¬gone id ∧ live.lookup id = some i := by
    intro id i hi
    have hid : ¬gone id := fun hid => by simp [hgone id hid] at hi
    exact ⟨hid, hkept id hid ▸ hi⟩
  refine ⟨fun hi => h.opened (hsub hi).2, ?_, ?_, ?_⟩
  · intro id i hopen
    constructor
    · intro hi hmem
      obtain ⟨hid, hlive⟩ := hsub hi
      rcases List.mem_append.mp hmem with hmem | hmem
      · exact (h.registered hopen).mp hlive hmem
      · obtain ⟨id', hid', hlive'⟩ := (hout i).mp hmem
        exact hid (id_unique hfresh hopen (h.opened hlive') ▸ hid')
    · intro hnot
      have hlive : live.lookup id = some i :=
        (h.registered hopen).mpr fun hmem => hnot (List.mem_append_left _ hmem)
      have hid : ¬gone id := fun hid =>
        hnot (List.mem_append_right _ ((hout i).mpr ⟨id, hid, hlive⟩))
      rw [hkept id hid, hlive]
  · intro i hi
    rcases List.mem_append.mp hi with hi | hi
    · exact h.issued hi
    · obtain ⟨id, -, hlive⟩ := (hout i).mp hi
      exact ⟨id, h.opened hlive⟩
  · refine List.nodup_append.mpr ⟨h.nodup, hnodup, ?_⟩
    rintro i hi j hj rfl
    obtain ⟨id, -, hlive⟩ := (hout i).mp hj
    exact (h.registered (h.opened hlive)).mp hlive hi

/-- A new instance is registered under an ID that is free. -/
theorem Accounts.register (h : Accounts opens live cancelled) {id : GoString} {c : Instance}
    (hfree : live.lookup id = none) (hnew : c ∉ opens.map Prod.snd)
    (hlive' : ∀ id', live'.lookup id' = if id' = id then some c else live.lookup id') :
    Accounts (opens ++ [(id, c)]) live' cancelled := by
  have hold : ∀ {id' i}, (id', i) ∈ opens → i ≠ c := fun hmem hi =>
    hnew (hi ▸ List.mem_map.mpr ⟨_, hmem, rfl⟩)
  refine ⟨?_, ?_, ?_, h.nodup⟩
  · intro id' i hi
    rw [hlive'] at hi
    split_ifs at hi with hid
    · obtain rfl := Option.some.inj hi
      simp [hid]
    · exact List.mem_append_left _ (h.opened hi)
  · intro id' i hopen
    rw [hlive']
    rcases List.mem_append.mp hopen with hopen | hopen
    · rw [← h.registered hopen]
      split_ifs with hid
      · rw [hid, hfree, Option.some.injEq]
        exact iff_of_false (fun hi => hold hopen hi.symm) (by simp)
      · rfl
    · obtain ⟨rfl, rfl⟩ := Prod.mk.inj (List.mem_singleton.mp hopen)
      have hnot : i ∉ cancelled := by
        intro hi
        obtain ⟨id'', hmem⟩ := h.issued hi
        exact hold hmem rfl
      simpa using hnot
  · intro i hi
    obtain ⟨id', hmem⟩ := h.issued hi
    exact ⟨id', List.mem_append_left _ hmem⟩

/-! ## The operations -/

theorem nodup_cancelled_close (s : Sessions) (id : GoString) : (s.close id).2.Nodup := by
  unfold Sessions.close
  split <;> simp

theorem cancelled_open' (s : Sessions) (id : GoString) (c : Instance) :
    (s.open' id c).2 = (s.close id).2 := by
  unfold Sessions.open' Sessions.close
  cases s.live.lookup id <;> rfl

theorem mem_cancelled_closeAll {s : Sessions} {i : Instance} :
    i ∈ s.closeAll.2 ↔ ∃ id, s.live.lookup id = some i := by
  simp only [Sessions.closeAll, List.mem_map]
  constructor
  · rintro ⟨⟨id, j⟩, hmem, rfl⟩
    exact ⟨id, AList.mem_lookup_iff.mpr hmem⟩
  · rintro ⟨id, hi⟩
    exact ⟨⟨id, i⟩, AList.mem_lookup_iff.mp hi, rfl⟩

theorem Accounts.close (h : Accounts opens live cancelled) (hfresh : (opens.map Prod.snd).Nodup)
    (id : GoString) :
    Accounts opens ((⟨live⟩ : Sessions).close id).1.live
      (cancelled ++ ((⟨live⟩ : Sessions).close id).2) := by
  refine h.drop hfresh (· = id) ?_ ?_ ?_ (nodup_cancelled_close _ id)
  · intro id' hid
    rw [lookup_close, if_neg hid]
  · intro id' hid
    rw [lookup_close, if_pos hid]
  · intro i
    simp [mem_cancelled_close]

theorem Accounts.closeAll (h : Accounts opens live cancelled)
    (hfresh : (opens.map Prod.snd).Nodup) (order : RangeOrder Instance) :
    Accounts opens (⟨live⟩ : Sessions).closeAll.1.live
      (cancelled ++ order.visit (⟨live⟩ : Sessions).closeAll.2) := by
  have hnodup : (⟨live⟩ : Sessions).closeAll.2.Nodup := by
    refine List.Nodup.map_on ?_ (List.nodupKeys_iff_pairwise.mp live.nodupKeys |>.imp ?_)
    · rintro ⟨id, i⟩ hi ⟨id', i'⟩ hi' rfl
      obtain rfl := id_unique hfresh (h.opened (AList.mem_lookup_iff.mpr hi))
        (h.opened (AList.mem_lookup_iff.mpr hi'))
      rfl
    · rintro a b hne rfl
      exact hne rfl
  have hperm := order.perm (⟨live⟩ : Sessions).closeAll.2
  refine h.drop hfresh (fun _ => True) (fun id hid => absurd trivial hid) (fun id _ => rfl)
    (fun i => ?_) (hperm.nodup_iff.mpr hnodup)
  rw [hperm.mem_iff, mem_cancelled_closeAll]
  simp

theorem Accounts.perform {l : Ledger} (h : Accounts opens l.sessions.live l.cancelled)
    {op : Operation} (hfresh : ((opens ++ op.opens.toList).map Prod.snd).Nodup) :
    Accounts (opens ++ op.opens.toList) (l.perform op).sessions.live (l.perform op).cancelled := by
  rw [List.map_append, List.nodup_append] at hfresh
  obtain ⟨hold, -, hnew⟩ := hfresh
  cases op with
  | open' id c =>
    -- what was there goes first, then the new instance comes in
    simp only [Ledger.perform, cancelled_open']
    refine (h.close hold id).register ?_ ?_ fun id' => ?_
    · rw [lookup_close, if_pos rfl]
    · exact fun hmem => hnew c hmem c (by simp [Operation.opens]) rfl
    · rw [lookup_open', lookup_close]
      split_ifs <;> rfl
  | close id =>
    simp only [Operation.opens, Option.toList_none, List.append_nil]
    exact h.close hold id
  | closeAll order =>
    simp only [Operation.opens, Option.toList_none, List.append_nil]
    exact h.closeAll hold order

theorem accounts_performAll {ops : List Operation}
    (hfresh : ((opened ops).map Prod.snd).Nodup) :
    Accounts (opened ops) (performAll ops).sessions.live (performAll ops).cancelled := by
  induction ops using List.reverseRecOn with
  | nil => exact ⟨by simp [performAll], by simp [opened], by simp [performAll], List.nodup_nil⟩
  | append_singleton ops op ih =>
    have hsplit : opened (ops ++ [op]) = opened ops ++ op.opens.toList := by
      cases hop : op.opens <;> simp [opened, hop]
    rw [hsplit] at hfresh ⊢
    rw [performAll, List.foldl_append]
    exact (ih (List.Nodup.of_append_left (by simpa using hfresh))).perform hfresh

/-- In every state that operations with pairwise different cancel functions lead to: an instance
ever opened is registered exactly if its cancel function has not been invoked, and nothing else is
registered; at most one instance of an ID has not been cancelled; no cancel function has been
invoked twice. A further operation on one ID leaves the instances of all others registered and
uncancelled, and after `CloseAll` nothing is registered. -/
theorem registered_iff_not_cancelled (ops : List Operation)
    (hfresh : ((opened ops).map Prod.snd).Nodup) :
    let l := performAll ops
    (∀ id i, (id, i) ∈ opened ops →
      (l.sessions.live.lookup id = some i ↔ i ∉ l.cancelled)) ∧
    (∀ id i, l.sessions.live.lookup id = some i → (id, i) ∈ opened ops) ∧
    (∀ id i j, (id, i) ∈ opened ops → (id, j) ∈ opened ops → i ∉ l.cancelled →
      j ∉ l.cancelled → i = j) ∧
    l.cancelled.Nodup ∧
    (∀ op id, op.on = some id → ∀ id' i, id' ≠ id → l.sessions.live.lookup id' = some i →
      (l.perform op).sessions.live.lookup id' = some i ∧ i ∉ (l.perform op).cancelled) ∧
    ∀ order, (l.perform (.closeAll order)).sessions.live = ∅ := by
  intro l
  have h : Accounts (opened ops) l.sessions.live l.cancelled := accounts_performAll hfresh
  refine ⟨fun id i => h.registered, fun id i => h.opened, ?_, h.nodup, ?_, fun order => rfl⟩
  · intro id i j hi hj hnoti hnotj
    have hboth := ((h.registered hi).mpr hnoti).symm.trans ((h.registered hj).mpr hnotj)
    exact Option.some.inj hboth
  · intro op id hop id' i hne hi
    have hclose : i ∉ l.cancelled ++ (l.sessions.close id).2 := by
      intro hmem
      rcases List.mem_append.mp hmem with hmem | hmem
      · exact (h.registered (h.opened hi)).mp hi hmem
      · have hother := h.opened (mem_cancelled_close.mp hmem)
        exact hne (id_unique hfresh (h.opened hi) hother)
    cases op with
    | open' id₀ c =>
      obtain rfl := Option.some.inj hop
      simp only [Ledger.perform, cancelled_open', lookup_open', if_neg hne]
      exact ⟨hi, hclose⟩
    | close id₀ =>
      obtain rfl := Option.some.inj hop
      simp only [Ledger.perform, lookup_close, if_neg hne]
      exact ⟨hi, hclose⟩
    | closeAll order => cases hop

/-- An ID that is taken over and one that is closed. -/
theorem registered_after_takeover :
    let ops : List Operation :=
      [.open' (lit "a") 0, .open' (lit "b") 1, .open' (lit "a") 2, .close (lit "b")]
    ((opened ops).map Prod.snd).Nodup ∧
      ((performAll ops).sessions.live.lookup (lit "a") = some 2 ↔
        2 ∉ (performAll ops).cancelled) := by
  intro ops
  have hfresh : ((opened ops).map Prod.snd).Nodup := by decide
  exact ⟨hfresh, (registered_iff_not_cancelled ops hfresh).1 (lit "a") 2 (by decide)⟩

end WeftAgent.ExecSession
