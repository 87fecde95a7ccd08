import WeftAgent.Sshd.Wire
import WeftAgent.Sshd.Proofs.ServerProofs

/-!
# The payload parsers undo the wire format

Each parser returns the fields that were encoded, whatever follows them, and refuses a payload that
ends before its last mandatory field does.
-/

namespace WeftAgent.Sshd

open Go

/-! ## Words -/

theorem toNat_beWord (b0 b1 b2 b3 : UInt8) :
    (beWord b0 b1 b2 b3).toNat =
      2 ^ 24 * b0.toNat + (2 ^ 16 * b1.toNat + (2 ^ 8 * b2.toNat + b3.toNat)) := by
  have h1 := b1.toNat_lt
  have h2 := b2.toNat_lt
  have h3 := b3.toNat_lt
  have shift : ∀ (b : UInt8) (k : Nat), k ≤ 24 →
      (b.toUInt32 <<< UInt32.ofNat k).toNat = 2 ^ k * b.toNat := by
    intro b k hk
    have hb := b.toNat_lt
    have hpow : 2 ^ k ≤ 2 ^ 24 := Nat.pow_le_pow_right (by omega) hk
    have hmul : 2 ^ k * b.toNat < 2 ^ 32 := by nlinarith
    have hmod : k % 2 ^ 32 % 32 = k := by omega
    rw [UInt32.toNat_shiftLeft, UInt8.toNat_toUInt32, UInt32.toNat_ofNat', hmod, Nat.shiftLeft_eq,
      Nat.mul_comm, Nat.mod_eq_of_lt hmul]
  have h24 : (b0.toUInt32 <<< 24).toNat = 2 ^ 24 * b0.toNat := shift b0 24 (by omega)
  have h16 : (b1.toUInt32 <<< 16).toNat = 2 ^ 16 * b1.toNat := shift b1 16 (by omega)
  have h8 : (b2.toUInt32 <<< 8).toNat = 2 ^ 8 * b2.toNat := shift b2 8 (by omega)
  -- the summands have no bit in common
  rw [Nat.two_pow_add_eq_or_of_lt (show 2 ^ 16 * b1.toNat + _ < 2 ^ 24 by omega),
    Nat.two_pow_add_eq_or_of_lt (show 2 ^ 8 * b2.toNat + _ < 2 ^ 16 by omega),
    Nat.two_pow_add_eq_or_of_lt (show b3.toNat < 2 ^ 8 by omega)]
  rw [beWord, UInt32.toNat_or, UInt32.toNat_or, UInt32.toNat_or, h24, h16, h8,
    UInt8.toNat_toUInt32, Nat.or_assoc, Nat.or_assoc]

theorem length_word (w : UInt32) : (word w).length = 4 := rfl

/-- The word at the head of a buffer is read back. -/
theorem prefixWord_word (w : UInt32) (rest : GoString) : prefixWord (word w ++ rest) = w := by
  have hw := w.toNat_lt
  apply UInt32.toNat_inj.mp
  simp only [prefixWord, word, List.cons_append, List.nil_append, List.getElem?_cons_zero,
    List.getElem?_cons_succ, Option.getD_some, toNat_beWord, UInt32.toNat_toUInt8,
    UInt32.toNat_shiftRight]
  simp [Nat.shiftRight_eq_div_pow]
  omega

theorem beUint32_word (w : UInt32) : beUint32 (word w) = .done w := by
  rw [beUint32_of_length (length_word w).ge, ← List.append_nil (word w), prefixWord_word]

/-! ## Strings -/

theorem length_str (s : GoString) : (str s).length = 4 + s.length := by
  rw [str, List.length_append, length_word]

theorem toNat_prefixWord_str {s : GoString} (hs : s.length < 2 ^ 32) (rest : GoString) :
    (prefixWord (str s ++ rest)).toNat = s.length := by
  rw [str, List.append_assoc, prefixWord_word, toNat_ofNat_length hs]

/-- The string at the head of a buffer is read back, and the rest is what follows it. -/
theorem unmarshalString_str {s rest : GoString} (hlen : (str s ++ rest).length < 2 ^ 32 - 4) :
    unmarshalString (str s ++ rest) = .done (s, rest, true) := by
  have hsum : (str s ++ rest).length = 4 + s.length + rest.length := by
    rw [List.length_append, length_str]
  have hword : (prefixWord (str s ++ rest)).toNat = s.length :=
    toNat_prefixWord_str (by omega) rest
  have hhead : (str s ++ rest).take (4 + s.length) = str s := by
    rw [← length_str, List.take_left]
  have htail : (str s ++ rest).drop (4 + s.length) = rest := by
    rw [← length_str, List.drop_left]
  rw [unmarshalString_of_fits (by omega) (by omega) (by omega), hword, if_neg (by omega), hhead,
    htail, str, ← length_word (UInt32.ofNat s.length), List.drop_left]

/-- A string that is cut short is not there. -/
theorem unmarshalString_truncated {s p : GoString} (hlen : (str s).length < 2 ^ 32 - 4)
    (hp : Truncated p (str s)) : unmarshalString p = .done ([], p, false) := by
  obtain ⟨hpre, hne⟩ := hp
  have hshort : p.length < (str s).length :=
    lt_of_le_of_ne hpre.length_le fun heq => hne (hpre.eq_of_length heq)
  rw [length_str] at hshort hlen
  by_cases h4 : p.length < 4
  · exact unmarshalString_short h4
  · have hsame : p.take 4 = (str s).take 4 := by
      obtain ⟨t, ht⟩ := hpre
      rw [← ht, List.take_append_of_le_length (by omega)]
    have hword : (prefixWord p).toNat = s.length := by
      rw [← prefixWord_take, hsame, prefixWord_take, ← List.append_nil (str s),
        toNat_prefixWord_str (by omega)]
    rw [unmarshalString_of_fits (by omega) (by omega) (by omega), hword, if_pos hshort]

/-! ## Dimensions -/

theorem length_dimensions (c r x y : UInt32) : (dimensions c r x y).length = 16 := rfl

theorem words_dimensions (c r x y : UInt32) (t : GoString) :
    prefixWord (dimensions c r x y ++ t) = c ∧
      prefixWord ((dimensions c r x y ++ t).drop 4) = r ∧
      prefixWord ((dimensions c r x y ++ t).drop 8) = x ∧
      prefixWord ((dimensions c r x y ++ t).drop 12) = y :=
  ⟨prefixWord_word c _, prefixWord_word r _, prefixWord_word x _, prefixWord_word y _⟩

theorem parseWinChReq_dimensions (w : WinChPayload) (t : GoString) :
    parseWinChReq (winChReqBytes w ++ t) = .done (w, none) := by
  have hlen : 16 ≤ (winChReqBytes w ++ t).length := by
    rw [List.length_append, winChReqBytes, length_dimensions]
    omega
  obtain ⟨hc, hr, hx, hy⟩ := words_dimensions w.cols w.rows w.xPx w.yPx t
  rw [parseWinChReq, if_neg (by omega), fourWords_eq hlen, winChReqBytes, hc, hr, hx, hy]

/-! ## Payloads that end early -/

/-- A truncated sequence ends in the first part, or in the second. -/
theorem truncated_append {p a b : GoString} (h : Truncated p (a ++ b)) :
    Truncated p a ∨ ∃ q, p = a ++ q ∧ Truncated q b := by
  obtain ⟨⟨t, ht⟩, hne⟩ := h
  rcases List.append_eq_append_iff.mp ht with ⟨q, rfl, rfl⟩ | ⟨q, rfl, rfl⟩
  · cases q with
    | nil =>
      refine .inr ⟨[], by simp, ⟨_, rfl⟩, ?_⟩
      rintro rfl
      simp at hne
    | cons x q => exact .inl ⟨⟨x :: q, rfl⟩, by simp⟩
  · refine .inr ⟨q, rfl, ⟨t, rfl⟩, fun heq => hne ?_⟩
    rw [← heq]

theorem Truncated.length_lt {p whole : GoString} (h : Truncated p whole) :
    p.length < whole.length :=
  lt_of_le_of_ne h.1.length_le fun heq => h.2 (h.1.eq_of_length heq)

theorem parsePtyReq_bytes {r : PtyReqPayload} {t : GoString}
    (hlen : (ptyReqBytes r ++ t).length < 2 ^ 32 - 4) :
    parsePtyReq (ptyReqBytes r ++ t) = .done (r, none) := by
  obtain ⟨hc, hr, hx, hy⟩ := words_dimensions r.cols r.rows r.xPx r.yPx t
  have h16 : 16 ≤ (dimensions r.cols r.rows r.xPx r.yPx ++ t).length := by
    rw [List.length_append, length_dimensions]
    omega
  rw [ptyReqBytes, List.append_assoc] at hlen ⊢
  rw [parsePtyReq, unmarshalString_str hlen]
  simp only [Run.done_bind, Bool.not_true, Bool.false_eq_true, if_false]
  rw [if_neg (by omega), fourWords_eq h16, hc, hr, hx, hy]

theorem parsePtyReq_truncated {r : PtyReqPayload} {p : GoString}
    (hlen : (ptyReqBytes r).length < 2 ^ 32 - 4) (hp : Truncated p (ptyReqBytes r)) :
    ∃ r' e, parsePtyReq p = .done (r', some e) := by
  rw [ptyReqBytes, List.length_append] at hlen
  rcases truncated_append hp with hp | ⟨q, rfl, hq⟩
  · rw [parsePtyReq, unmarshalString_truncated (by omega) hp]
    exact ⟨_, _, rfl⟩
  · have hshort := hq.length_lt
    rw [parsePtyReq, unmarshalString_str (by rw [List.length_append]; omega)]
    rw [length_dimensions] at hshort
    simp only [Run.done_bind, Bool.not_true, Bool.false_eq_true, if_false, if_pos hshort]
    exact ⟨_, _, rfl⟩

theorem parseEnvReq_bytes {k v t : GoString} (hlen : (envReqBytes k v ++ t).length < 2 ^ 32 - 4) :
    parseEnvReq (envReqBytes k v ++ t) = .done (k, v, none) := by
  rw [envReqBytes, List.append_assoc] at hlen ⊢
  rw [parseEnvReq, unmarshalString_str hlen]
  rw [List.length_append] at hlen
  simp only [Run.done_bind, Bool.not_true, Bool.false_eq_true, if_false]
  rw [unmarshalString_str (by omega)]
  rfl

theorem parseEnvReq_truncated {k v p : GoString} (hlen : (envReqBytes k v).length < 2 ^ 32 - 4)
    (hp : Truncated p (envReqBytes k v)) : ∃ k' v' e, parseEnvReq p = .done (k', v', some e) := by
  rw [envReqBytes, List.length_append] at hlen
  rcases truncated_append hp with hp | ⟨q, rfl, hq⟩
  · rw [parseEnvReq, unmarshalString_truncated (by omega) hp]
    exact ⟨_, _, _, rfl⟩
  · have hshort := hq.length_lt
    rw [parseEnvReq, unmarshalString_str (by rw [List.length_append]; omega)]
    simp only [Run.done_bind, Bool.not_true, Bool.false_eq_true, if_false]
    rw [unmarshalString_truncated (by omega) hq]
    exact ⟨_, _, _, rfl⟩

theorem parseExecReq_bytes {line t : GoString}
    (hlen : (execReqBytes line ++ t).length < 2 ^ 32 - 4) :
    parseExecReq (execReqBytes line ++ t) = .done (line, none) := by
  rw [parseExecReq, execReqBytes, unmarshalString_str hlen]
  rfl

theorem parseExecReq_truncated {line p : GoString} (hlen : (execReqBytes line).length < 2 ^ 32 - 4)
    (hp : Truncated p (execReqBytes line)) : ∃ line' e, parseExecReq p = .done (line', some e) := by
  rw [parseExecReq, unmarshalString_truncated hlen hp]
  exact ⟨_, _, rfl⟩

theorem parseWinChReq_truncated {w : WinChPayload} {p : GoString}
    (hp : Truncated p (winChReqBytes w)) : ∃ w' e, parseWinChReq p = .done (w', some e) := by
  have hshort : p.length < 16 := hp.length_lt
  rw [parseWinChReq, if_pos hshort]
  exact ⟨_, _, rfl⟩

/-- Every parser returns the fields that were encoded, whatever follows them, in a payload of less
than `2 ^ 32 - 4` bytes; a payload that ends before the last mandatory field does is refused. The
word of an `exit-status` request is the exit code. -/
theorem payloads_round_trip :
    (∀ r t, (ptyReqBytes r ++ t).length < 2 ^ 32 - 4 →
      parsePtyReq (ptyReqBytes r ++ t) = .done (r, none) ∧
        ∀ p, Truncated p (ptyReqBytes r) → ∃ r' e, parsePtyReq p = .done (r', some e)) ∧
    (∀ k v t, (envReqBytes k v ++ t).length < 2 ^ 32 - 4 →
      parseEnvReq (envReqBytes k v ++ t) = .done (k, v, none) ∧
        ∀ p, Truncated p (envReqBytes k v) → ∃ k' v' e, parseEnvReq p = .done (k', v', some e)) ∧
    (∀ line t, (execReqBytes line ++ t).length < 2 ^ 32 - 4 →
      parseExecReq (execReqBytes line ++ t) = .done (line, none) ∧
        ∀ p, Truncated p (execReqBytes line) → ∃ line' e, parseExecReq p = .done (line', some e)) ∧
    (∀ w t, parseWinChReq (winChReqBytes w ++ t) = .done (w, none) ∧
      ∀ p, Truncated p (winChReqBytes w) → ∃ w' e, parseWinChReq p = .done (w', some e)) ∧
    ∀ code, beUint32 (exitStatusPayload code) = .done (UInt32.ofInt code) := by
  have whole : ∀ {b t : GoString}, (b ++ t).length < 2 ^ 32 - 4 → b.length < 2 ^ 32 - 4 := by
    intro b t hlen
    rw [List.length_append] at hlen
    omega
  refine ⟨fun r t hlen => ⟨parsePtyReq_bytes hlen, fun p => parsePtyReq_truncated (whole hlen)⟩,
    fun k v t hlen => ⟨parseEnvReq_bytes hlen, fun p => parseEnvReq_truncated (whole hlen)⟩,
    fun line t hlen => ⟨parseExecReq_bytes hlen, fun p => parseExecReq_truncated (whole hlen)⟩,
    fun w t => ⟨parseWinChReq_dimensions w t, fun p => parseWinChReq_truncated⟩, fun code => ?_⟩
  exact beUint32_word (UInt32.ofInt code)

/-- The command `id`, followed by a byte that nobody reads. -/
theorem exec_id_round_trip :
    execReqBytes (lit "id") = [0, 0, 0, 2, 105, 100] ∧
      parseExecReq (execReqBytes (lit "id") ++ [7]) = .done (lit "id", none) :=
  ⟨by decide, (payloads_round_trip.2.2.1 (lit "id") [7] (by decide)).1⟩

end WeftAgent.Sshd
