import WeftAgent.Nats.Subject

/-!
# Streams with a limit per subject

A stream keeps the messages on the subjects it captures, in the order of their publication. With a
limit of messages per subject, and old messages discarded, a new message takes the place of the
oldest one on its subject. A consumer that starts with the last message of each subject is sent the
last one on each subject that it subscribes to.
-/

namespace WeftAgent.Nats

open WeftAgent.Go

/-- The configuration of a stream that discards old messages. -/
structure StreamConfig where
  subjects : List GoString
  /-- The limit per subject; 0 for none. -/
  maxMsgsPerSubject : Nat := 0
  deriving DecidableEq, Repr

/-- A message on one of these subjects is stored. -/
def StreamConfig.captures (cfg : StreamConfig) (subject : GoString) : Bool :=
  cfg.subjects.any (subjectMatches · subject)

variable {α : Type}

/-- Subject and data of the stored messages, the oldest first. -/
abbrev Stream (α : Type) := List (GoString × α)

namespace Stream

def onSubject (s : Stream α) (subject : GoString) : List α :=
  (s.filter (·.1 = subject)).map Prod.snd

def publish (cfg : StreamConfig) (s : Stream α) (subject : GoString) (data : α) : Stream α :=
  if cfg.captures subject then
    let full := cfg.maxMsgsPerSubject ≠ 0 ∧ cfg.maxMsgsPerSubject ≤ (s.onSubject subject).length
    (if full then s.eraseP (·.1 = subject) else s) ++ [(subject, data)]
  else s

/-- The messages with which a consumer on `pattern` starts, under `DeliverLastPerSubject`. -/
def lastPerSubject (pattern : GoString) : Stream α → List α
  | [] => []
  | m :: rest =>
    if subjectMatches pattern m.1 ∧ rest.all (·.1 ≠ m.1) then m.2 :: lastPerSubject pattern rest
    else lastPerSubject pattern rest

/-! ## Messages on one subject -/

variable {cfg : StreamConfig} {s : Stream α} {subject : GoString}

@[simp] theorem onSubject_append (s t : Stream α) (subject : GoString) :
    onSubject (s ++ t) subject = s.onSubject subject ++ onSubject t subject := by
  simp [onSubject]

theorem onSubject_singleton (subject' : GoString) (data : α) (subject : GoString) :
    onSubject [(subject', data)] subject = if subject' = subject then [data] else [] := by
  by_cases h : subject' = subject <;> simp [onSubject, h]

theorem onSubject_eraseP (s : Stream α) (subject : GoString) :
    onSubject (s.eraseP (·.1 = subject)) subject = (s.onSubject subject).tail := by
  induction s with
  | nil => rfl
  | cons m s ih =>
    by_cases h : m.1 = subject
    · simp [onSubject, h]
    · simpa [onSubject, h] using ih

theorem onSubject_eraseP_of_ne (s : Stream α) {subject' : GoString} (hne : subject' ≠ subject) :
    onSubject (s.eraseP (·.1 = subject')) subject = s.onSubject subject := by
  induction s with
  | nil => rfl
  | cons m s ih =>
    by_cases h : m.1 = subject'
    · simp [onSubject, h, hne]
    · rw [List.eraseP_cons_of_neg (by simpa using h)]
      by_cases hm : m.1 = subject <;> simpa [onSubject, hm] using ih

theorem onSubject_publish_of_ne (s : Stream α) {subject' : GoString} (data : α)
    (hne : subject' ≠ subject) :
    (s.publish cfg subject' data).onSubject subject = s.onSubject subject := by
  unfold publish
  split
  · rw [onSubject_append, onSubject_singleton, if_neg hne, List.append_nil]
    split
    · exact onSubject_eraseP_of_ne s hne
    · rfl
  · rfl

/-- With a limit of one, only the new message is left on its subject. -/
theorem onSubject_publish_self (s : Stream α) (data : α) (hcfg : cfg.maxMsgsPerSubject = 1)
    (hcaptures : cfg.captures subject = true) (hone : (s.onSubject subject).length ≤ 1) :
    (s.publish cfg subject data).onSubject subject = [data] := by
  unfold publish
  rw [if_pos hcaptures, onSubject_append, onSubject_singleton, if_pos rfl, hcfg]
  have hnil : ∀ l : List α, l = [] → l ++ [data] = [data] := by simp
  split_ifs with hfull
  · rw [onSubject_eraseP]
    refine hnil _ (List.length_eq_zero_iff.mp ?_)
    rw [List.length_tail]
    omega
  · exact hnil _ (List.length_eq_zero_iff.mp (by omega))

/-- A consumer on a subject without wildcards starts with the last message on it. -/
theorem lastPerSubject_eq
    (hpattern : ∀ subject', subjectMatches subject subject' ↔ subject' = subject) (s : Stream α) :
    s.lastPerSubject subject = (s.onSubject subject).getLast?.toList := by
  induction s with
  | nil => rfl
  | cons m s ih =>
    by_cases hm : m.1 = subject
    · have hon : onSubject (m :: s) subject = m.2 :: onSubject s subject := by simp [onSubject, hm]
      have hlast : s.all (·.1 ≠ m.1) ↔ onSubject s subject = [] := by simp [onSubject, hm]
      rw [lastPerSubject, hon, ih]
      split_ifs with h
      · simp [hlast.mp h.2]
      · have hne : onSubject s subject ≠ [] := fun hnil =>
          h ⟨(hpattern m.1).mpr hm, hlast.mpr hnil⟩
        rw [List.getLast?_cons_of_ne_nil hne]
    · have hon : onSubject (m :: s) subject = onSubject s subject := by simp [onSubject, hm]
      have hnot : ¬ subjectMatches subject m.1 := fun h => hm ((hpattern m.1).mp h)
      rw [lastPerSubject, if_neg fun h => hnot h.1, hon, ih]

end Stream

end WeftAgent.Nats
