import WeftAgent.ExecSession.Proofs.PumpProofs
import WeftAgent.Nats.Subject

/-!
# Isolation of exec sessions

The ID of a session is spliced into the subject that its pump subscribes to, so a token `*` in the
ID makes the subscription match the frames of other sessions.
-/

namespace WeftAgent.ExecSession

open WeftAgent.Go WeftAgent.Nats

variable {vmID sid : GoString}

theorem tokens_subjectIn (hvm : dot ∉ vmID) (sid : GoString) :
    tokens (subjectIn vmID sid) = [lit "weft", lit "exec", vmID] ++ tokens sid ++ [lit "in"] := by
  have hsplit : subjectIn vmID sid =
      lit "weft" ++ dot :: (lit "exec" ++ dot :: (vmID ++ dot :: (sid ++ dot :: lit "in"))) := by
    have hhead : lit "weft.exec." = lit "weft" ++ dot :: (lit "exec" ++ [dot]) := by decide
    have hdot : lit "." = [dot] := by decide
    have htail : lit ".in" = dot :: lit "in" := by decide
    simp [subjectIn, hhead, hdot, htail]
  rw [hsplit, tokens_append, tokens_append, tokens_append, tokens_append,
    tokens_of_dot_not_mem hvm]
  have hweft : tokens (lit "weft") = [lit "weft"] := by decide
  have hexec : tokens (lit "exec") = [lit "exec"] := by decide
  have hin : tokens (lit "in") = [lit "in"] := by decide
  rw [hweft, hexec, hin]
  simp

/-- The last token of an in subject is not a wildcard. -/
theorem getLast_tokens_subjectIn (hvm : dot ∉ vmID) (sid : GoString) :
    (tokens (subjectIn vmID sid)).getLast? ≠ some gt := by
  rw [tokens_subjectIn hvm, List.getLast?_concat]
  decide

/-- Without a `*` in its ID, a session matches its own frames only. -/
theorem sid_eq_of_matches (hvm : LiteralToken vmID) (hstar : star ∉ tokens sid) {sid' : GoString}
    (h : subjectMatches (subjectIn vmID sid) (subjectIn vmID sid')) : sid' = sid := by
  have hnone : star ∉ tokens (subjectIn vmID sid) := by
    have hweft : star ≠ lit "weft" := by decide
    have hexec : star ≠ lit "exec" := by decide
    have hin : star ≠ lit "in" := by decide
    have hvmID : star ≠ vmID := fun heq => hvm.2.2.1 heq.symm
    rw [tokens_subjectIn hvm.2.1]
    simp [hweft, hexec, hin, hvmID, hstar]
  have heq := eq_of_matchTokens (getLast_tokens_subjectIn hvm.2.1 sid) hnone h
  rw [tokens_subjectIn hvm.2.1, tokens_subjectIn hvm.2.1] at heq
  have hmid := (List.append_inj' heq rfl).1
  exact tokens_injective (List.append_cancel_left hmid).symm

/-- The ID with `a` in place of each `*` token. -/
def instantiate (sid : GoString) : GoString :=
  [dot].intercalate ((tokens sid).map fun t => if t = star then lit "a" else t)

theorem tokens_instantiate (sid : GoString) :
    tokens (instantiate sid) = (tokens sid).map fun t => if t = star then lit "a" else t := by
  refine tokens_intercalate ?_ ?_
  · intro t ht
    obtain ⟨t', ht', rfl⟩ := List.mem_map.mp ht
    split
    · decide
    · exact not_mem_of_mem_splitOn ht'
  · simpa using tokens_ne_nil sid

theorem star_not_mem_tokens_instantiate (sid : GoString) : star ∉ tokens (instantiate sid) := by
  rw [tokens_instantiate]
  intro h
  obtain ⟨t, -, ht⟩ := List.mem_map.mp h
  split at ht
  · exact absurd ht (by decide)
  · contradiction

/-- A `*` in the ID of a session makes it match the frames of another one. -/
theorem matches_instantiate (hvm : dot ∉ vmID) (sid : GoString) :
    subjectMatches (subjectIn vmID sid) (subjectIn vmID (instantiate sid)) := by
  refine (matchTokens_iff (getLast_tokens_subjectIn hvm sid)).mpr ?_
  rw [tokens_subjectIn hvm, tokens_subjectIn hvm, tokens_instantiate]
  have hsame : ∀ l : List GoString, List.Forall₂ (fun p t => p = star ∨ p = t) l l :=
    fun l => List.forall₂_same.mpr fun t _ => .inr rfl
  refine List.rel_append (List.rel_append (hsame _) ?_) (hsame _)
  rw [List.forall₂_map_right_iff, List.forall₂_same]
  intro t _
  split
  · exact .inl ‹_›
  · exact .inr rfl

theorem instantiate_ne_nil (hstar : star ∈ tokens sid) : instantiate sid ≠ [] := by
  intro hnil
  have htokens := tokens_instantiate sid
  rw [hnil] at htokens
  have hmem : lit "a" ∈ tokens [] := by
    rw [htokens]
    exact List.mem_map.mpr ⟨star, hstar, if_pos rfl⟩
  exact absurd hmem (by decide)

/-- A shell request with the ID `sid`. -/
def sessionRequest (sid : GoString) : ExecRequest where
  id := sid
  target := { kind := lit "shell" }

theorem decodeRequest_sessionRequest (hne : sid ≠ []) :
    decodeRequest (.ok (sessionRequest sid)) = .ok (sessionRequest sid) := by
  have hvalid : (sessionRequest sid).validate = none := by
    simp [ExecRequest.validate, sessionRequest, hne]
  simp [decodeRequest, hvalid]

/-- On a VM whose ID is a literal token, a session gets no frame of any other accepted session if
and only if `Subscribe` refuses its in subject or its ID has no token `*`. -/
theorem isolated_iff (hvm : LiteralToken vmID) (request : ExecRequest) :
    (∀ unmarshalled other, decodeRequest unmarshalled = .ok other → other.id ≠ request.id →
        (PumpConfig.mk vmID request).receives (subjectIn vmID other.id) = false) ↔
      badSubject (subjectIn vmID request.id) = true ∨ star ∉ tokens request.id := by
  constructor
  · intro h
    by_contra hcon
    obtain ⟨hgood, hstar⟩ := not_or.mp hcon
    rw [not_not] at hstar
    -- the frames of the session whose ID has `a` for each `*` are delivered as well
    have hother := decodeRequest_sessionRequest (instantiate_ne_nil hstar)
    have hne : instantiate request.id ≠ request.id := by
      intro heq
      have hnone := star_not_mem_tokens_instantiate request.id
      rw [heq] at hnone
      exact hnone hstar
    have hreceives : (PumpConfig.mk vmID request).receives
        (subjectIn vmID (instantiate request.id)) = true :=
      delivers_iff.mpr ⟨Bool.eq_false_iff.mpr hgood, matches_instantiate hvm.2.1 request.id⟩
    exact Bool.eq_false_iff.mp (h _ _ hother hne) hreceives
  · intro h _ other _ hne
    refine Bool.eq_false_iff.mpr fun hreceives => ?_
    obtain ⟨hgood, hmatch⟩ := delivers_iff.mp hreceives
    rcases h with hbad | hstar
    · exact Bool.eq_false_iff.mp hgood hbad
    · exact hne (sid_eq_of_matches hvm hstar hmatch)

theorem isolated_shellSession :
    LiteralToken (lit "vm") ∧
      ∀ unmarshalled other, decodeRequest unmarshalled = .ok other →
        other.id ≠ shellSession.request.id →
        (PumpConfig.mk (lit "vm") shellSession.request).receives
          (subjectIn (lit "vm") other.id) = false :=
  ⟨by decide, (isolated_iff (by decide) shellSession.request).mpr (by decide)⟩

/-- A session with the ID `*` gets the frames of every session with a one-token ID. -/
theorem star_session_receives :
    decodeRequest (.ok (sessionRequest (lit "a"))) = .ok (sessionRequest (lit "a")) ∧
      decodeRequest (.ok (sessionRequest star)) = .ok (sessionRequest star) ∧
      (PumpConfig.mk (lit "vm") (sessionRequest star)).receives
        (subjectIn (lit "vm") (sessionRequest (lit "a")).id) = true :=
  ⟨decodeRequest_sessionRequest (by decide), decodeRequest_sessionRequest (by decide), by decide⟩

end WeftAgent.ExecSession
