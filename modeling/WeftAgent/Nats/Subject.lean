import WeftAgent.Go.Basic
import Mathlib.Data.List.Forall2

/-!
# NATS subjects

A subject is a sequence of tokens separated by dots. In the subject of a subscription a token `*`
stands for any one token, and a last token `>` for one or more tokens. `Subscribe` of the client
library refuses a subject with white space or an empty token (`badSubject`) and no other.
-/

namespace WeftAgent.Nats

open WeftAgent.Go

def dot : UInt8 := 46

/-- The token that matches any one token. -/
def star : GoString := lit "*"

/-- The token that, at the end, matches one or more tokens. -/
def gt : GoString := lit ">"

/-- `strings.Split(subject, ".")`. -/
def tokens (subject : GoString) : List GoString := subject.splitOn dot

/-- `badSubject` of the client library. -/
def badSubject (subject : GoString) : Bool :=
  subject.any (fun b => b = 32 ∨ b = 9 ∨ b = 13 ∨ b = 10) ∨ [] ∈ tokens subject

def matchTokens : List GoString → List GoString → Bool
  | [], [] => true
  | [p], t :: ts => p = gt ∨ (p = star ∨ p = t) ∧ ts = []
  | p :: ps, t :: ts => (p = star ∨ p = t) ∧ matchTokens ps ts
  | _, _ => false

/-- A message on `subject` matches a subscription on `pattern`. -/
def subjectMatches (pattern subject : GoString) : Bool :=
  matchTokens (tokens pattern) (tokens subject)

/-- A subscription on `pattern` is accepted and gets the messages on `subject`. -/
def delivers (pattern subject : GoString) : Bool :=
  badSubject pattern = false ∧ subjectMatches pattern subject

theorem delivers_iff {pattern subject : GoString} :
    delivers pattern subject = true ↔
      badSubject pattern = false ∧ subjectMatches pattern subject = true := by
  simp [delivers]

/-- One token that stands for itself. -/
def LiteralToken (t : GoString) : Prop := t ≠ [] ∧ dot ∉ t ∧ t ≠ star ∧ t ≠ gt

instance (t : GoString) : Decidable (LiteralToken t) := by
  unfold LiteralToken
  infer_instance

/-! ## Tokens -/

theorem tokens_append (s t : GoString) : tokens (s ++ dot :: t) = tokens s ++ tokens t :=
  List.splitOn_append_cons_self s t

theorem tokens_ne_nil (s : GoString) : tokens s ≠ [] := List.splitOn_ne_nil dot s

theorem tokens_of_dot_not_mem {t : GoString} (h : dot ∉ t) : tokens t = [t] := by
  have hdot : ∀ l ∈ [t], dot ∉ l := by simpa using h
  have hone := List.splitOn_intercalate dot hdot (List.cons_ne_nil _ _)
  simpa [tokens] using hone

theorem tokens_injective : Function.Injective tokens := by
  intro s t h
  have hs : [dot].intercalate (tokens s) = s := List.intercalate_splitOn dot
  have ht : [dot].intercalate (tokens t) = t := List.intercalate_splitOn dot
  rw [← hs, ← ht, h]

/-- Any tokens without a dot are the tokens of some subject. -/
theorem tokens_intercalate {ts : List GoString} (hdot : ∀ t ∈ ts, dot ∉ t) (hne : ts ≠ []) :
    tokens ([dot].intercalate ts) = ts :=
  List.splitOn_intercalate dot hdot hne

/-! ## Matching -/

/-- Without a last token `>`, matching goes token by token. -/
theorem matchTokens_iff {ps ts : List GoString} (hlast : ps.getLast? ≠ some gt) :
    matchTokens ps ts ↔ List.Forall₂ (fun p t => p = star ∨ p = t) ps ts := by
  induction ps generalizing ts with
  | nil => cases ts <;> simp [matchTokens]
  | cons p ps ih =>
    cases ts with
    | nil => simp [matchTokens]
    | cons t ts =>
      cases ps with
      | nil =>
        have hp : p ≠ gt := by simpa using hlast
        simp [matchTokens, hp]
      | cons p' ps =>
        have hrest := @ih ts (by simpa using hlast)
        simp [matchTokens, hrest]

/-- A pattern without wildcards matches itself only. -/
theorem eq_of_matchTokens {ps ts : List GoString} (hlast : ps.getLast? ≠ some gt)
    (hstar : star ∉ ps) (h : matchTokens ps ts) : ps = ts := by
  have hall := (matchTokens_iff hlast).mp h
  clear h hlast
  induction hall with
  | nil => rfl
  | @cons p t ps ts hpt _ ih =>
    have hp : p ≠ star := fun hp => hstar (hp ▸ List.mem_cons_self)
    rw [hpt.resolve_left hp, ih fun hps => hstar (List.mem_cons_of_mem _ hps)]

theorem subjectMatches_iff_eq {pattern : GoString}
    (hliteral : ∀ t ∈ tokens pattern, t ≠ star ∧ t ≠ gt) (subject : GoString) :
    subjectMatches pattern subject ↔ subject = pattern := by
  have hlast : (tokens pattern).getLast? ≠ some gt := fun h =>
    (hliteral gt (List.mem_of_getLast? h)).2 rfl
  have hstar : star ∉ tokens pattern := fun h => (hliteral star h).1 rfl
  constructor
  · intro h
    exact (tokens_injective (eq_of_matchTokens hlast hstar h)).symm
  · rintro rfl
    exact (matchTokens_iff hlast).mpr (List.forall₂_same.mpr fun t _ => .inr rfl)

end WeftAgent.Nats
