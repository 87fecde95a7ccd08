import WeftAgent.Go.Strconv
import Mathlib.Tactic

/-!
# Numbers are read back

`ParseUint` and `ParseInt` return the number that was formatted, if it is in range.
-/

namespace WeftAgent.Go.Strconv

/-! ## Digits -/

/-- The byte of a decimal digit. -/
theorem toUInt8_of_isDigit {c : Char} (h : c.isDigit = true) :
    48 ≤ c.toUInt8 ∧ c.toUInt8 ≤ 57 ∧ c.toUInt8.toNat = c.toNat := by
  simp only [Char.isDigit, Bool.and_eq_true, decide_eq_true_eq, ge_iff_le,
    UInt32.le_iff_toNat_le] at h
  obtain ⟨hlow, hhigh⟩ := h
  have hnine : '9'.val.toNat = 57 := rfl
  have hbyte : c.toUInt8.toNat = c.val.toNat := by
    rw [Char.toUInt8, UInt32.toNat_toUInt8]
    omega
  refine ⟨?_, ?_, hbyte⟩
  · rw [UInt8.le_iff_toNat_le, hbyte]
    exact hlow
  · rw [UInt8.le_iff_toNat_le, hbyte]
    exact hhigh

theorem mem_formatUint {n : Nat} {b : UInt8} (h : b ∈ formatUint n) : 48 ≤ b ∧ b ≤ 57 := by
  obtain ⟨c, hc, rfl⟩ := List.mem_map.mp h
  obtain ⟨hlow, hhigh, -⟩ := toUInt8_of_isDigit (Nat.isDigit_of_mem_toDigits (by omega) le_rfl hc)
  exact ⟨hlow, hhigh⟩

theorem formatUint_ne_nil (n : Nat) : formatUint n ≠ [] := by
  simp [formatUint, Nat.toDigits_ne_nil]

theorem formatInt_ne_nil (i : Int) : formatInt i ≠ [] := by
  unfold formatInt
  split_ifs
  · simp
  · exact formatUint_ne_nil _

theorem mem_formatInt {i : Int} {b : UInt8} (h : b ∈ formatInt i) : 45 ≤ b ∧ b ≤ 57 := by
  have hminus : (45 : UInt8) ≤ 48 := by decide
  have hdigit : ∀ {x}, x ∈ formatUint i.natAbs → 45 ≤ x ∧ x ≤ 57 := fun hx =>
    ⟨UInt8.le_trans hminus (mem_formatUint hx).1, (mem_formatUint hx).2⟩
  unfold formatInt at h
  split_ifs at h
  · rcases List.mem_cons.mp h with rfl | h
    · decide
    · exact hdigit h
  · exact hdigit h

/-! ## Reading back -/

theorem le_ofDigitChars (cs : List Char) (n : Nat) : n ≤ Nat.ofDigitChars 10 cs n := by
  induction cs generalizing n with
  | nil => exact le_rfl
  | cons c cs ih =>
    rw [Nat.ofDigitChars_cons]
    have hrest := ih (10 * n + (c.toNat - '0'.toNat))
    omega

/-- The loop returns the value of the digits, if it is in range. -/
theorem parseDigits_of_le {maxVal : Nat} (hmax : maxVal < 2 ^ 64) {cs : List Char}
    (hcs : ∀ c ∈ cs, c.isDigit = true) {n : Nat} (h : Nat.ofDigitChars 10 cs n ≤ maxVal) :
    parseDigits maxVal n (cs.map Char.toUInt8) = (Nat.ofDigitChars 10 cs n, none) := by
  induction cs generalizing n with
  | nil => rfl
  | cons c cs ih =>
    obtain ⟨hlow, hhigh, hval⟩ := toUInt8_of_isDigit (hcs c List.mem_cons_self)
    have hzero : '0'.toNat = 48 := rfl
    rw [Nat.ofDigitChars_cons, hzero, Nat.mul_comm] at h ⊢
    -- the number read so far is a lower bound, so no test of the loop fires
    have hle := le_ofDigitChars cs (n * 10 + (c.toNat - 48))
    rw [List.map_cons, parseDigits, if_pos ⟨hlow, hhigh⟩, if_neg (by omega)]
    simp only [hval]
    rw [if_neg (by omega)]
    exact ih (fun x hx => hcs x (List.mem_cons_of_mem _ hx)) h

theorem parseUint_formatUint {bitSize n : Nat} (hsize : bitSize ≤ 64) (h : n < 2 ^ bitSize) :
    parseUint bitSize (formatUint n) = (n, none) := by
  have hvalue : Nat.ofDigitChars 10 (Nat.toDigits 10 n) 0 = n :=
    Nat.ofDigitChars_toDigits (by omega) le_rfl
  have hmax : 2 ^ bitSize - 1 < 2 ^ 64 := by
    have hpow : 2 ^ bitSize ≤ 2 ^ 64 := Nat.pow_le_pow_right (by omega) hsize
    omega
  rw [parseUint, if_neg (formatUint_ne_nil n), formatUint, parseDigits_of_le hmax
    (fun c hc => Nat.isDigit_of_mem_toDigits (by omega) le_rfl hc) (by omega), hvalue]

/-- A text of digits has no sign. -/
theorem splitSign_formatUint (n : Nat) : splitSign (formatUint n) = (false, formatUint n) := by
  cases hs : formatUint n with
  | nil => rfl
  | cons b s =>
    have hlow : 48 ≤ b := (mem_formatUint (by rw [hs]; exact List.mem_cons_self)).1
    have hplus : b ≠ 43 := by rintro rfl; exact absurd hlow (by decide)
    have hminus : b ≠ 45 := by rintro rfl; exact absurd hlow (by decide)
    unfold splitSign
    split
    next heq => exact absurd (List.cons.inj heq).1 hplus
    next heq => exact absurd (List.cons.inj heq).1 hminus
    next => rfl

theorem parseInt_formatInt {k : Nat} (hk : k < 64) {i : Int} (hlow : -2 ^ k ≤ i)
    (hhigh : i < 2 ^ k) : parseInt (k + 1) (formatInt i) = (i, none) := by
  have hcast : ((2 ^ k : Nat) : Int) = 2 ^ k := by push_cast; rfl
  have hread : parseUint (k + 1) (formatUint i.natAbs) = (i.natAbs, none) := by
    refine parseUint_formatUint (by omega) ?_
    rw [Nat.pow_succ]
    omega
  unfold parseInt
  rw [if_neg (formatInt_ne_nil i)]
  by_cases hneg : i < 0
  · have hsign : splitSign (formatInt i) = (true, formatUint i.natAbs) := by
      rw [formatInt, if_pos hneg]
      rfl
    have hle : ¬ i.natAbs > 2 ^ k := by omega
    simp [hsign, hread, hle, abs_of_neg hneg]
  · have hsign : splitSign (formatInt i) = (false, formatUint i.natAbs) := by
      rw [formatInt, if_neg hneg]
      exact splitSign_formatUint _
    have hlt : ¬ i.natAbs ≥ 2 ^ k := by omega
    simp [hsign, hread, hlt, abs_of_nonneg (not_lt.mp hneg)]

end WeftAgent.Go.Strconv
