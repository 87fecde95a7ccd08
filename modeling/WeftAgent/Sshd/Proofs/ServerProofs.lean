import WeftAgent.Sshd.Server
import Mathlib.Tactic

/-!
# When the SSH session loop can panic

The bound check of `unmarshalString` adds 4 to the peer's length word in `uint32` arithmetic. For
the four largest words the sum wraps to 0..3, the check passes, and the slice `b[4:4+n]` has its
bounds the wrong way round. `LengthFits` says that the word at the head of a buffer is not one of
these; the parsers, and with them the request loop, panic exactly when it fails on a buffer they
unmarshal.
-/

namespace WeftAgent.Sshd

open Go

/-- The word formed by the first four bytes (missing bytes read as 0). -/
def prefixWord (b : GoString) : UInt32 :=
  beWord (b[0]?.getD 0) (b[1]?.getD 0) (b[2]?.getD 0) (b[3]?.getD 0)

/-- The buffer has no length word, or a length word to which 4 can be added without wrapping. -/
def LengthFits (b : GoString) : Prop :=
  b.length < 4 ∨ (prefixWord b).toNat < 2 ^ 32 - 4

instance (b : GoString) : Decidable (LengthFits b) := by
  unfold LengthFits; infer_instance

/-! ## The parsers -/

theorem index_of_lt {b : GoString} {i : Nat} (h : i < b.length) :
    index b i = .done (b[i]?.getD 0) := by
  simp [index, h]

theorem beUint32_of_length {b : GoString} (h : 4 ≤ b.length) :
    beUint32 b = .done (prefixWord b) := by
  unfold beUint32
  rw [index_of_lt (by omega), index_of_lt (by omega), index_of_lt (by omega),
    index_of_lt (by omega)]
  rfl

/-- The length word of a buffer only depends on its first four bytes. -/
theorem prefixWord_take (b : GoString) : prefixWord (b.take 4) = prefixWord b := by
  simp [prefixWord]

theorem beUint32_slice {b : GoString} {i : Nat} (h : i + 4 ≤ b.length) :
    (slice b i (i + 4) >>= beUint32) = .done (prefixWord (b.drop i)) := by
  rw [slice_of_le (by omega) h, Run.done_bind, beUint32_of_length (by simp; omega)]
  rw [← prefixWord_take (b.drop i), List.take_drop, Nat.add_comm]

/-- A buffer too short for a length word. -/
theorem unmarshalString_short {b : GoString} (h : b.length < 4) :
    unmarshalString b = .done ([], b, false) := by
  simp [unmarshalString, h]

/-- What `unmarshalString` computes once the length word is read. -/
theorem unmarshalString_eq {b : GoString} (h : 4 ≤ b.length) :
    unmarshalString b =
      if UInt32.ofNat b.length < 4 + prefixWord b then .done ([], b, false)
      else do
        let s ← slice b 4 (4 + prefixWord b).toNat
        let rest ← sliceFrom b (4 + prefixWord b).toNat
        return (s, rest, true) := by
  have hn : ¬ b.length < 4 := by omega
  have hw : (slice b 0 4 >>= beUint32) = .done (prefixWord b) := by
    simpa using beUint32_slice (b := b) (i := 0) (by omega)
  unfold unmarshalString
  rw [if_neg hn]
  rw [Run.bind_eq_done] at hw
  obtain ⟨head, hs, hbe⟩ := hw
  simp only [hs, Run.done_bind, hbe]
  rfl

theorem toNat_four_add_of_lt {n : UInt32} (h : n.toNat < 2 ^ 32 - 4) :
    (4 + n).toNat = 4 + n.toNat := by
  rw [UInt32.toNat_add, show (4 : UInt32).toNat = 4 from rfl]
  omega

theorem toNat_four_add_of_ge {n : UInt32} (h : 2 ^ 32 - 4 ≤ n.toNat) :
    (4 + n).toNat < 4 := by
  have hn := n.toNat_lt
  rw [UInt32.toNat_add, show (4 : UInt32).toNat = 4 from rfl]
  omega

theorem toNat_ofNat_length {b : GoString} (hb : b.length < 2 ^ 32) :
    (UInt32.ofNat b.length).toNat = b.length := by
  simp only [UInt32.toNat_ofNat']
  omega

/-- With a length word that fits, `unmarshalString` returns: no string when the buffer ends early,
else the string and the bytes behind it. -/
theorem unmarshalString_of_fits {b : GoString} (hb : b.length < 2 ^ 32) (h4 : 4 ≤ b.length)
    (hf : (prefixWord b).toNat < 2 ^ 32 - 4) :
    unmarshalString b =
      if b.length < 4 + (prefixWord b).toNat then .done ([], b, false)
      else .done ((b.take (4 + (prefixWord b).toNat)).drop 4,
        b.drop (4 + (prefixWord b).toNat), true) := by
  rw [unmarshalString_eq h4]
  simp only [UInt32.lt_iff_toNat_lt, toNat_ofNat_length hb, toNat_four_add_of_lt hf]
  split_ifs with hlt
  · rfl
  · rw [slice_of_le (by omega) (by omega), sliceFrom, slice_of_le (by omega) le_rfl]
    simp

/-- With one of the four largest length words the bounds of `b[4:4+n]` are the wrong way round. -/
theorem unmarshalString_of_not_fits {b : GoString} (hb : b.length < 2 ^ 32) (h4 : 4 ≤ b.length)
    (hf : 2 ^ 32 - 4 ≤ (prefixWord b).toNat) : unmarshalString b = .panicked := by
  have hw := toNat_four_add_of_ge hf
  -- the sum has wrapped around to less than 4, so the buffer seems long enough
  have hlt : ¬ UInt32.ofNat b.length < 4 + prefixWord b := by
    rw [UInt32.lt_iff_toNat_lt, toNat_ofNat_length hb]
    omega
  have hs : slice b 4 (4 + prefixWord b).toNat = .panicked :=
    slice_eq_panicked.mpr (Or.inl hw)
  rw [unmarshalString_eq h4, if_neg hlt, hs, Run.panicked_bind]

/-- `unmarshalString` panics exactly on a length word that does not fit. -/
theorem unmarshalString_panicked_iff {b : GoString} (hb : b.length < 2 ^ 32) :
    unmarshalString b = .panicked ↔ ¬ LengthFits b := by
  unfold LengthFits
  by_cases h4 : b.length < 4
  · simp [unmarshalString_short h4, h4]
  · by_cases hf : (prefixWord b).toNat < 2 ^ 32 - 4
    · rw [unmarshalString_of_fits hb (by omega) hf]
      have hfits : b.length < 4 ∨ (prefixWord b).toNat < 2 ^ 32 - 4 := Or.inr hf
      split_ifs <;> simp only [hfits, not_true_eq_false]
    · rw [unmarshalString_of_not_fits hb (by omega) (by omega)]
      exact ⟨fun _ h => h.elim h4 hf, fun _ => rfl⟩

/-- The value `unmarshalString` returns: a buffer without a complete string is handed back, else
the rest starts behind the string. -/
theorem unmarshalString_rest {b : GoString} (hb : b.length < 2 ^ 32) {s rest : GoString} {ok : Bool}
    (h : unmarshalString b = .done (s, rest, ok)) :
    (ok = false ∧ (b.length < 4 ∨ b.length < 4 + (prefixWord b).toNat)) ∨
      (ok = true ∧ rest = b.drop (4 + (prefixWord b).toNat)) := by
  by_cases h4 : b.length < 4
  · rw [unmarshalString_short h4] at h
    simp only [Run.done.injEq, Prod.mk.injEq] at h
    exact Or.inl ⟨h.2.2.symm, Or.inl h4⟩
  · by_cases hf : (prefixWord b).toNat < 2 ^ 32 - 4
    · rw [unmarshalString_of_fits hb (by omega) hf] at h
      split_ifs at h with hlt
      · simp only [Run.done.injEq, Prod.mk.injEq] at h
        exact Or.inl ⟨h.2.2.symm, Or.inr hlt⟩
      · simp only [Run.done.injEq, Prod.mk.injEq] at h
        exact Or.inr ⟨h.2.2.symm, h.2.1.symm⟩
    · rw [unmarshalString_of_not_fits hb (by omega) (by omega)] at h
      cases h

/-- Four words read off a buffer of at least 16 bytes. -/
theorem fourWords_eq {b : GoString} (h : 16 ≤ b.length) {α : Type}
    (f : UInt32 → UInt32 → UInt32 → UInt32 → α) :
    (do
      let w0 ← beUint32 (← slice b 0 4)
      let w1 ← beUint32 (← slice b 4 8)
      let w2 ← beUint32 (← slice b 8 12)
      let w3 ← beUint32 (← slice b 12 16)
      return f w0 w1 w2 w3 : Run α) =
      .done (f (prefixWord b) (prefixWord (b.drop 4)) (prefixWord (b.drop 8))
        (prefixWord (b.drop 12))) := by
  have word : ∀ i, i + 4 ≤ b.length → ∃ c, slice b i (i + 4) = .done c ∧
      beUint32 c = .done (prefixWord (b.drop i)) := fun i hi =>
    Run.bind_eq_done.mp (beUint32_slice hi)
  obtain ⟨c0, hs0, hw0⟩ := word 0 (by omega)
  obtain ⟨c1, hs1, hw1⟩ := word 4 (by omega)
  obtain ⟨c2, hs2, hw2⟩ := word 8 (by omega)
  obtain ⟨c3, hs3, hw3⟩ := word 12 (by omega)
  simp only [Nat.reduceAdd] at hs0 hs1 hs2 hs3
  simp only [hs0, hs1, hs2, hs3, Run.done_bind, hw0, hw1, hw2, hw3, Run.pure_eq, List.drop_zero]

theorem parsePtyReq_panicked_iff {p : GoString} (hp : p.length < 2 ^ 32) :
    parsePtyReq p = .panicked ↔ ¬ LengthFits p := by
  unfold parsePtyReq
  rw [← unmarshalString_panicked_iff hp]
  refine Run.bind_eq_panicked_of_ne ?_
  rintro ⟨term, rest, ok⟩ h
  simp only at h
  split_ifs at h with h₁ h₂
  rw [fourWords_eq (by omega)] at h
  cases h

theorem parseExecReq_panicked_iff {p : GoString} (hp : p.length < 2 ^ 32) :
    parseExecReq p = .panicked ↔ ¬ LengthFits p := by
  unfold parseExecReq
  rw [← unmarshalString_panicked_iff hp]
  refine Run.bind_eq_panicked_of_ne ?_
  rintro ⟨line, rest, ok⟩ h
  simp only at h
  split_ifs at h

theorem parseWinChReq_ne_panicked (p : GoString) : parseWinChReq p ≠ .panicked := by
  unfold parseWinChReq
  split_ifs with h
  · simp
  · rw [fourWords_eq (by omega)]
    simp

/-- `parseEnvReq` unmarshals twice, the second time where the first string ended. -/
theorem parseEnvReq_panicked_iff {p : GoString} (hp : p.length < 2 ^ 32) :
    parseEnvReq p = .panicked ↔
      ¬ (LengthFits p ∧ LengthFits (p.drop (4 + (prefixWord p).toNat))) := by
  have hdrop : (p.drop (4 + (prefixWord p).toNat)).length < 2 ^ 32 := by
    rw [List.length_drop]
    omega
  unfold parseEnvReq
  rw [Run.bind_eq_panicked, unmarshalString_panicked_iff hp, not_and_or]
  constructor
  · rintro (h | ⟨⟨k, rest, ok⟩, hu, h⟩)
    · exact Or.inl h
    · rcases unmarshalString_rest hp hu with ⟨rfl, -⟩ | ⟨rfl, rfl⟩
      · simp at h
      · right
        simp only [Bool.not_true, Bool.false_eq_true, ↓reduceIte] at h
        rw [Run.bind_eq_panicked, unmarshalString_panicked_iff hdrop] at h
        rcases h with h | ⟨⟨v, rest', ok'⟩, -, h⟩
        · exact h
        · simp only at h
          split_ifs at h
  · rintro (h | h)
    · exact Or.inl h
    · by_cases hf : LengthFits p
      · right
        -- a second length word that does not fit is there, so the first string was complete
        have h4 : 4 ≤ (p.drop (4 + (prefixWord p).toNat)).length := by
          by_contra hlt
          exact h (Or.inl (by omega))
        rw [List.length_drop] at h4
        have hw : (prefixWord p).toNat < 2 ^ 32 - 4 := by
          rcases hf with hf | hf
          · omega
          · exact hf
        refine ⟨_, unmarshalString_of_fits hp (by omega) hw ▸ if_neg (by omega), ?_⟩
        simp only [Bool.not_true, Bool.false_eq_true, ↓reduceIte]
        rw [Run.bind_eq_panicked]
        exact Or.inl ((unmarshalString_panicked_iff hdrop).mpr h)
      · exact Or.inl hf

/-! ## The request loop -/

/-- The length words that the loop body unmarshals for `req` in the state `st` all fit. An `exec`
request is only parsed while nothing has been started. -/
def RequestFits (st : Session) (req : Request) : Prop :=
  match req.type with
  | .ptyReq => LengthFits req.payload
  | .env => LengthFits req.payload ∧
      LengthFits (req.payload.drop (4 + (prefixWord req.payload).toNat))
  | .exec => st.started = true ∨ LengthFits req.payload
  | _ => True

instance (st : Session) (req : Request) : Decidable (RequestFits st req) := by
  unfold RequestFits; split <;> infer_instance

/-- The requests the loop takes up, each with the session state it finds. -/
def processed (h : Host) (st : Session) : List Request → List (Session × Request)
  | [] => []
  | req :: reqs =>
    (st, req) :: match handleRequest h st req with
      | .done (st', _, .loop) => processed h st' reqs
      | _ => []

/-- The payload of the request is parsed, and the parser panics. -/
def ParserPanics (st : Session) (req : Request) : Prop :=
  match req.type with
  | .ptyReq => parsePtyReq req.payload = .panicked
  | .env => parseEnvReq req.payload = .panicked
  | .exec => st.started = false ∧ parseExecReq req.payload = .panicked
  | .shell | .windowChange | .other => False

/-- The loop body panics in its parsers only. -/
theorem handleRequest_eq_panicked (h : Host) (st : Session) (req : Request) :
    handleRequest h st req = .panicked ↔ ParserPanics st req := by
  unfold handleRequest ParserPanics
  cases req.type with
  | ptyReq =>
    refine Run.bind_eq_panicked_of_ne ?_
    rintro ⟨p, err⟩
    cases err <;> simp
  | env =>
    refine Run.bind_eq_panicked_of_ne ?_
    rintro ⟨k, v, err⟩
    simp
  | shell =>
    simp only [iff_false]
    split_ifs <;> simp
  | exec =>
    cases hs : st.started with
    | true => simp
    | false =>
      simp only [Bool.false_eq_true, if_false, true_and]
      refine Run.bind_eq_panicked_of_ne ?_
      rintro ⟨line, err⟩
      cases err <;> simp
  | windowChange =>
    cases st.ptyMaster with
    | none => simp
    | some f =>
      simp only [iff_false]
      rw [Run.bind_eq_panicked_of_ne]
      · exact parseWinChReq_ne_panicked _
      · rintro ⟨w, err⟩
        cases err <;> simp
  | other => simp

theorem handleRequest_panicked_iff (h : Host) (st : Session) {req : Request}
    (hp : req.payload.length < 2 ^ 32) :
    handleRequest h st req = .panicked ↔ ¬ RequestFits st req := by
  rw [handleRequest_eq_panicked]
  unfold ParserPanics RequestFits
  cases req.type with
  | ptyReq => exact parsePtyReq_panicked_iff hp
  | env => exact parseEnvReq_panicked_iff hp
  | exec =>
    simp only
    rw [parseExecReq_panicked_iff hp, not_or, Bool.not_eq_true]
  | shell | windowChange | other => simp

/-- The loop panics exactly when it takes up a request whose length words do not fit. -/
theorem requestLoop_panicked_iff (h : Host) (st : Session) (reqs : List Request)
    (hp : ∀ r ∈ reqs, r.payload.length < 2 ^ 32) :
    requestLoop h st reqs = .panicked ↔ ∃ x ∈ processed h st reqs, ¬ RequestFits x.1 x.2 := by
  induction reqs generalizing st with
  | nil => simp [requestLoop, processed]
  | cons req reqs ih =>
    have hreq := handleRequest_panicked_iff h st (hp req List.mem_cons_self)
    have hrest : ∀ r ∈ reqs, r.payload.length < 2 ^ 32 := fun r hr =>
      hp r (List.mem_cons_of_mem _ hr)
    simp only [requestLoop, processed, List.exists_mem_cons_iff, ← hreq]
    cases hstep : handleRequest h st req with
    | panicked => simp
    | done out =>
      obtain ⟨st', effects, next⟩ := out
      cases next with
      | stop => simp
      | loop =>
        simp only [Run.done_bind, reduceCtorEq, false_or]
        rw [Run.bind_eq_panicked_of_ne, ih st' hrest]
        intro a ha
        cases ha

/-- No parser panics on a payload, and no request sequence makes the session loop panic, exactly
when the length words that are unmarshalled leave room for the 4 that is added to them. -/
theorem session_panic_free_iff (h : Host) :
    (∀ p : GoString, p.length < 2 ^ 32 →
      (unmarshalString p ≠ .panicked ↔ LengthFits p) ∧
      (parsePtyReq p ≠ .panicked ↔ LengthFits p) ∧
      (parseEnvReq p ≠ .panicked ↔
        LengthFits p ∧ LengthFits (p.drop (4 + (prefixWord p).toNat))) ∧
      (parseExecReq p ≠ .panicked ↔ LengthFits p) ∧
      parseWinChReq p ≠ .panicked) ∧
    (∀ reqs : List Request, (∀ r ∈ reqs, r.payload.length < 2 ^ 32) →
      (handleSession h reqs ≠ .panicked ↔
        ∀ x ∈ processed h {} reqs, RequestFits x.1 x.2)) := by
  refine ⟨fun p hp => ⟨?_, ?_, ?_, ?_, parseWinChReq_ne_panicked p⟩, fun reqs hreqs => ?_⟩
  · rw [ne_eq, unmarshalString_panicked_iff hp, not_not]
  · rw [ne_eq, parsePtyReq_panicked_iff hp, not_not]
  · rw [ne_eq, parseEnvReq_panicked_iff hp, not_not]
  · rw [ne_eq, parseExecReq_panicked_iff hp, not_not]
  · rw [ne_eq, handleSession, requestLoop_panicked_iff h {} reqs hreqs]
    push Not
    rfl

def shHost : Host :=
  { shell := lit "/bin/sh", environ := [lit "PATH=/bin"], startWithSize := fun _ _ => .ok 7 }

/-- A well-formed `exec` payload, the command `id`, is served. -/
theorem exec_id_panic_free :
    (parseExecReq [0, 0, 0, 2, 105, 100] ≠ .panicked) ∧
    handleSession shHost [⟨.exec, true, [0, 0, 0, 2, 105, 100]⟩] ≠ .panicked :=
  ⟨((session_panic_free_iff shHost).1 [0, 0, 0, 2, 105, 100] (by decide)).2.2.2.1.mpr (by decide),
    ((session_panic_free_iff shHost).2 [⟨.exec, true, [0, 0, 0, 2, 105, 100]⟩] (by decide)).mpr
      (by decide)⟩

/-- Four bytes suffice: with the length word `0xFFFFFFFC` every string parser panics, and so does
a session that receives it in an `exec` request. -/
theorem exec_wrapped_length_panics :
    unmarshalString [255, 255, 255, 252] = .panicked ∧
    parsePtyReq [255, 255, 255, 252] = .panicked ∧
    parseEnvReq [255, 255, 255, 252] = .panicked ∧
    parseExecReq [255, 255, 255, 252] = .panicked ∧
    handleSession shHost [⟨.exec, true, [255, 255, 255, 252]⟩] = .panicked := by
  decide

end WeftAgent.Sshd
