import WeftAgent.Mounts.Mounts
import Mathlib.Data.List.Induction

/-!
# Replay of share mounts

A message carries one share, the stream keeps one message per VM. So a late agent ends with the
outcome of the last message alone, and a live agent with the outcome of the last message for each
ID.
-/

namespace WeftAgent.Mounts

open WeftAgent.Go WeftAgent.Nats

variable {vmID : GoString}

/-! ## The stream of one VM -/

theorem subject_injective : Function.Injective subject := fun _ _ h => List.append_cancel_left h

theorem tokens_subject (hvm : dot ∉ vmID) :
    tokens (subject vmID) = [lit "weft", lit "mounts", vmID] := by
  have hsplit : subject vmID = lit "weft" ++ dot :: (lit "mounts" ++ dot :: vmID) := by
    have hhead : lit "weft.mounts." = lit "weft" ++ dot :: (lit "mounts" ++ [dot]) := by decide
    simp [subject, hhead]
  have hweft : tokens (lit "weft") = [lit "weft"] := by decide
  have hmounts : tokens (lit "mounts") = [lit "mounts"] := by decide
  rw [hsplit, tokens_append, tokens_append, tokens_of_dot_not_mem hvm, hweft, hmounts]
  rfl

theorem captures_subject (hvm : dot ∉ vmID) : streamConfig.captures (subject vmID) = true := by
  have hpattern : tokens (lit "weft.mounts.*") = [lit "weft", lit "mounts", star] := by decide
  have hmatch : subjectMatches (lit "weft.mounts.*") (subject vmID) = true := by
    unfold subjectMatches
    rw [hpattern, tokens_subject hvm]
    simp [matchTokens]
  simp [StreamConfig.captures, streamConfig, hmatch]

/-- The subject of a VM matches itself only. -/
theorem subjectMatches_subject (hvm : LiteralToken vmID) (other : GoString) :
    subjectMatches (subject vmID) other ↔ other = subject vmID := by
  refine subjectMatches_iff_eq ?_ other
  rw [tokens_subject hvm.2.1]
  intro t ht
  simp only [List.mem_cons, List.not_mem_nil, or_false] at ht
  rcases ht with rfl | rfl | rfl
  · decide
  · decide
  · exact hvm.2.2

theorem sentTo_append {α : Type} (vmID : GoString) (h h' : List (GoString × α)) :
    sentTo vmID (h ++ h') = sentTo vmID h ++ sentTo vmID h' := by
  simp [sentTo]

/-- The stream keeps the last message to the VM and no other. -/
theorem onSubject_stored (hvm : dot ∉ vmID) (history : List (GoString × Message)) :
    (stored history).onSubject (subject vmID) = (sentTo vmID history).getLast?.toList := by
  induction history using List.reverseRecOn with
  | nil => rfl
  | append_singleton history p ih =>
    have hstored : stored (history ++ [p]) =
        (stored history).publish streamConfig (subject p.1) p.2 := by
      simp [stored]
    rw [hstored, sentTo_append]
    by_cases hp : p.1 = vmID
    · have hone : ((stored history).onSubject (subject vmID)).length ≤ 1 := by
        rw [ih]
        cases (sentTo vmID history).getLast? <;> simp
      rw [hp, Stream.onSubject_publish_self _ _ rfl (captures_subject hvm) hone]
      simp [sentTo, hp]
    · have hne : subject p.1 ≠ subject vmID := fun h => hp (subject_injective h)
      rw [Stream.onSubject_publish_of_ne _ _ hne, ih]
      simp [sentTo, hp]

/-- A late agent is sent the last message. -/
theorem replayed_eq (hvm : LiteralToken vmID) (history : List (GoString × Message)) :
    replayed .jetStream vmID (stored history) = (sentTo vmID history).getLast?.toList := by
  unfold replayed
  simp only
  rw [Stream.lastPerSubject_eq (subjectMatches_subject hvm), onSubject_stored hvm.2.1]
  cases (sentTo vmID history).getLast? <;> rfl

/-! ## The registry -/

/-- What a message leaves mounted under its ID. -/
def outcome (m : ShareMount) : Option Mounted :=
  if m.action = mountActionUnmount then none else some (mount m)

theorem lookup_handleMessage {m : ShareMount} (hvalid : m.validate = none) (r : Registry)
    (id : GoString) :
    (handleMessage none none r (.ok m)).1.active.lookup id =
      if m.id = id then outcome m else r.active.lookup id := by
  have happly : (handleMessage none none r (.ok m)).1 =
      if m.action = mountActionUnmount then ⟨r.active.erase m.id⟩
      else ⟨(r.active.erase m.id).insert m.id (mount m)⟩ := by
    unfold handleMessage Registry.apply
    simp only [hvalid]
    cases r.active.lookup m.id <;> simp only <;> split_ifs <;> rfl
  rw [happly, outcome]
  by_cases hid : m.id = id
  · subst hid
    rw [if_pos rfl]
    split_ifs
    · exact AList.lookup_erase _ _
    · exact AList.lookup_insert _
  · have hne : id ≠ m.id := fun h => hid h.symm
    rw [if_neg hid]
    split_ifs
    · exact AList.lookup_erase_ne hne
    · rw [AList.lookup_insert_ne hne]
      exact AList.lookup_erase_ne hne

/-- Each ID is left as its last message says. -/
theorem lookup_applyAll {ms : List ShareMount} (hvalid : ∀ m ∈ ms, m.validate = none)
    (id : GoString) :
    (applyAll (ms.map .ok)).active.lookup id = (ms.filter (·.id = id)).getLast?.bind outcome := by
  induction ms using List.reverseRecOn with
  | nil => rfl
  | append_singleton ms m ih =>
    have hstep : applyAll ((ms ++ [m]).map .ok) =
        (handleMessage none none (applyAll (ms.map .ok)) (.ok m)).1 := by
      simp [applyAll]
    have hrest := ih fun m' hm' => hvalid m' (by simp [hm'])
    rw [hstep, lookup_handleMessage (hvalid m (by simp)), hrest]
    by_cases hid : m.id = id
    · simp [hid]
    · simp [hid]

theorem sentTo_wire (vmID : GoString) (history : List (GoString × ShareMount)) :
    sentTo vmID (wire history) = (sentTo vmID history).map .ok := by
  simp [sentTo, wire, List.filter_map, Function.comp_def]

variable {history : List (GoString × ShareMount)}

theorem lookup_liveRegistry (hvalid : ∀ m ∈ sentTo vmID history, m.validate = none)
    (id : GoString) :
    (liveRegistry vmID history).active.lookup id =
      ((sentTo vmID history).filter (·.id = id)).getLast?.bind outcome := by
  rw [liveRegistry, sentTo_wire, lookup_applyAll hvalid]

theorem lookup_lateRegistry (hvm : LiteralToken vmID)
    (hvalid : ∀ m ∈ sentTo vmID history, m.validate = none) (id : GoString) :
    (lateRegistry vmID history).active.lookup id =
      ((sentTo vmID history).getLast?.toList.filter (·.id = id)).getLast?.bind outcome := by
  have hstart : start none none none = .jetStream := rfl
  have hlast : (sentTo vmID (wire history)).getLast?.toList =
      ((sentTo vmID history).getLast?.toList).map .ok := by
    rw [sentTo_wire, List.getLast?_map]
    cases (sentTo vmID history).getLast? <;> rfl
  rw [lateRegistry, hstart, replayed_eq hvm, hlast, lookup_applyAll]
  intro m hm
  refine hvalid m (List.mem_of_getLast? ?_)
  simpa using hm

theorem outcome_eq_none_iff {m : ShareMount} :
    outcome m = none ↔ m.action = mountActionUnmount := by
  unfold outcome
  split_ifs with h <;> simp [h]

/-- For every history of validated messages: an agent that subscribes after it ends with the same
shares mounted as one that was subscribed from the start, if and only if every ID but that of the
last message was last unmounted. -/
theorem late_eq_live_iff (hvm : LiteralToken vmID) (history : List (GoString × ShareMount))
    (hvalid : ∀ m ∈ sentTo vmID history, m.validate = none) :
    (∀ id, (lateRegistry vmID history).active.lookup id =
        (liveRegistry vmID history).active.lookup id) ↔
      ∀ last, (sentTo vmID history).getLast? = some last → ∀ id, id ≠ last.id → ∀ m,
        ((sentTo vmID history).filter (·.id = id)).getLast? = some m →
          m.action = mountActionUnmount := by
  simp only [lookup_lateRegistry hvm hvalid, lookup_liveRegistry hvalid]
  generalize sentTo vmID history = ms
  rcases List.eq_nil_or_concat ms with rfl | ⟨init, last, rfl⟩
  · simp
  · have hlast : (init ++ [last]).getLast? = some last := by simp
    rw [List.concat_eq_append, hlast]
    constructor
    · rintro h _ ⟨⟩ id hid m hm
      have hnone := h id
      rw [hm] at hnone
      have hother : ¬ last.id = id := fun heq => hid heq.symm
      simpa [hother, outcome_eq_none_iff] using hnone.symm
    · intro h id
      by_cases hid : last.id = id
      · simp [hid]
      · -- the late agent has nothing under this ID
        cases hm : ((init ++ [last]).filter (·.id = id)).getLast? with
        | none => simp [hid]
        | some m =>
          have hunmount := h last rfl id (fun heq => hid heq.symm) m hm
          simp [hid, outcome_eq_none_iff.mpr hunmount]

def mountOf (id : GoString) : ShareMount where
  id := id
  mountPoint := lit "/run/weft/shares/" ++ id
  cubeFS := some { volume := id, masters := [lit "10.0.0.1:17010"], owner := lit "weft" }

def unmountOf (id : GoString) : ShareMount where
  id := id
  action := mountActionUnmount
  mountPoint := lit "/run/weft/shares/" ++ id

/-- A share is mounted and unmounted before another one is mounted. -/
def oneShareHistory : List (GoString × ShareMount) :=
  [(lit "vm", mountOf (lit "a")), (lit "vm", unmountOf (lit "a")), (lit "vm", mountOf (lit "b"))]

theorem late_eq_live_one_share :
    LiteralToken (lit "vm") ∧ (∀ m ∈ sentTo (lit "vm") oneShareHistory, m.validate = none) ∧
      ∀ id, (lateRegistry (lit "vm") oneShareHistory).active.lookup id =
        (liveRegistry (lit "vm") oneShareHistory).active.lookup id := by
  refine ⟨by decide, by decide, (late_eq_live_iff (by decide) _ (by decide)).mpr ?_⟩
  have hsent : sentTo (lit "vm") oneShareHistory =
      [mountOf (lit "a"), unmountOf (lit "a"), mountOf (lit "b")] := by decide
  rw [hsent]
  rintro _ ⟨⟩ id hid m hm
  have hb : ¬ lit "b" = id := fun heq => hid heq.symm
  by_cases ha : lit "a" = id
  · simp only [mountOf, unmountOf, ha, hb, List.filter_cons, decide_true, decide_false] at hm
    cases hm
    rfl
  · simp [mountOf, unmountOf, ha, hb] at hm

/-- Two shares are mounted; an agent that subscribes later mounts the second one only. -/
theorem late_misses_share :
    (∀ m ∈ [mountOf (lit "a"), mountOf (lit "b")], m.validate = none) ∧
      ((liveRegistry (lit "vm") [(lit "vm", mountOf (lit "a")),
        (lit "vm", mountOf (lit "b"))]).active.lookup (lit "a")).isSome = true ∧
      (lateRegistry (lit "vm") [(lit "vm", mountOf (lit "a")),
        (lit "vm", mountOf (lit "b"))]).active.lookup (lit "a") = none := by
  decide

end WeftAgent.Mounts
